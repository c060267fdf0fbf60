import Mathlib.Data.Fintype.Basic
import Mathlib.Logic.Function.Basic
import Rskynet.Cluster.Service

/-!
# Two nodes that dial each other

Two cluster services and the connections between them: at most one that each side has dialled.
The connections deliver what was sent in order and in any pieces; when a node shuts a connection
down, both ends are told that it is closed, each at some later time and perhaps before the last
bytes have come. Nothing else fails.
-/

namespace Rskynet.Cluster

inductive Side where
  | left
  | right
  deriving DecidableEq

namespace Side

def other : Side → Side
  | left => right
  | right => left

@[simp] theorem other_other (x : Side) : x.other.other = x := by cases x <;> rfl

@[simp] theorem other_ne (x : Side) : x.other ≠ x := by cases x <;> decide

@[simp] theorem ne_other (x : Side) : x ≠ x.other := by cases x <;> decide

instance : Fintype Side where
  elems := {left, right}
  complete x := by cases x <;> decide

theorem eq_or (x c : Side) : c = x ∨ c = x.other := by
  cases x <;> cases c <;> decide

end Side

/-- Two nodes with different ids.  `sock x c` is the number of `x`'s end of the connection that `c`
dials; `greeting x` is the hello of `x` on the wire, which both nodes can frame. -/
structure Pair where
  config : Side → Config
  distinct : (config .left).nodeId ≠ (config .right).nodeId
  sock : Side → Side → SocketId
  sock_ne : ∀ x, sock x .left ≠ sock x .right
  greeting : Side → Bytes
  greets : ∀ x y, frame (config y).codec (hello (config x)) (config y).maxFrameLen = .ok (greeting x)

/-- One end of a connection: the node knows it, its start has been answered, it has been told of the
close; the bytes it has got and those on their way to it. -/
structure End where
  live : Bool := false
  started : Bool := false
  told : Bool := false
  heard : Bytes := []
  flight : Bytes := []
  deriving DecidableEq

/-- Bytes set out for an end; one that has been told of the close gets nothing more. -/
def End.push (e : End) (bytes : Bytes) : End :=
  if e.told then e else { e with flight := e.flight ++ bytes }

structure System where
  server : Side → Server
  ends : Side → Side → End
  dialed : Side → Bool
  shut : Side → List SocketId

def cuts (out : List Effect) : List SocketId :=
  out.filterMap fun
    | .shutdown socket => some socket
    | _ => none

def sentOn (socket : SocketId) (out : List Effect) : Bytes :=
  (out.filterMap fun
    | .send s bytes => if s = socket then some bytes else none
    | _ => none).flatten

def dials (out : List Effect) : Bool :=
  out.any fun
    | .dial _ => true
    | _ => false

namespace Pair

variable (p : Pair)

def id (x : Side) : NodeId := (p.config x).nodeId

def small : Side := if (p.id .left).get < (p.id .right).get then .left else .right

def run (x : Side) (input : Input) (s : System) : Option System :=
  (handle (p.config x) input (s.server x)).map fun server =>
    { server := Function.update s.server x server
      ends := fun y c =>
        if y = x then s.ends y c else (s.ends y c).push (sentOn (p.sock x c) server.out)
      dialed := Function.update s.dialed x (s.dialed x || dials server.out)
      shut := Function.update s.shut x (s.shut x ++ cuts server.out) }

def cut (s : System) (c : Side) : Prop := ∃ x, p.sock x c ∈ s.shut x

instance (s : System) (c : Side) : Decidable (p.cut s c) :=
  decidable_of_iff (p.sock .left c ∈ s.shut .left ∨ p.sock .right c ∈ s.shut .right)
    ⟨fun h => h.elim (fun h => ⟨_, h⟩) fun h => ⟨_, h⟩, fun ⟨x, h⟩ => by
      cases x
      · exact .inl h
      · exact .inr h⟩

end Pair

def System.setEnd (s : System) (x c : Side) (e : End) : System :=
  { s with ends := Function.update s.ends x (Function.update (s.ends x) c e) }

/-- What happens next: a `Connect` command, the connection a node has dialled is there, the other
node accepts it, its start is answered, some bytes arrive, a close arrives. -/
inductive Action where
  | dial (x : Side) (address : String)
  | connected (x : Side) (address : String)
  | accept (x : Side)
  | started (x : Side) (ok : Bool)
  | deliver (x c : Side) (count : ℕ)
  | close (x c : Side)

namespace Pair

variable (p : Pair)

/-- **One step of the two nodes.**  A second dial is possible only while it does nothing; a start
fails only on a connection that has been shut down. -/
def act (action : Action) (s : System) : Option System :=
  match action with
  | .dial x address =>
    if s.dialed x = false ∨ ((s.server x).nodes.lookup (p.id x.other)).isSome then
      p.run x (.connect (p.id x.other) address) s
    else none
  | .connected x address =>
    if s.dialed x = true ∧ (s.ends x x).live = false then
      p.run x (.connected (p.id x.other) address (some (p.sock x x)))
        (s.setEnd x x { s.ends x x with live := true })
    else none
  | .accept x =>
    if s.dialed x.other = true ∧ (s.ends x x.other).live = false then
      p.run x (.accept (p.sock x x.other))
        (s.setEnd x x.other { s.ends x x.other with live := true, started := false })
    else none
  | .started x ok =>
    if (s.ends x x.other).live = true ∧ (s.ends x x.other).started = false ∧
        (ok = true ∨ p.cut s x.other) then
      p.run x (.started (p.sock x x.other) ok)
        (s.setEnd x x.other { s.ends x x.other with started := true })
    else none
  | .deliver x c count =>
    let e := s.ends x c
    if e.live = true ∧ e.told = false ∧ 0 < count ∧ count ≤ e.flight.length then
      p.run x (.data (p.sock x c) (e.flight.take count))
        (s.setEnd x c { e with
          heard := e.heard ++ e.flight.take count, flight := e.flight.drop count })
    else none
  | .close x c =>
    let e := s.ends x c
    if e.live = true ∧ e.told = false ∧ p.cut s c then
      p.run x (.closed (p.sock x c)) (s.setEnd x c { e with told := true, flight := [] })
    else none

/-- **All hellos and closes have been delivered**: every connection is there at both ends, accepted
ends are started, nothing is on its way, and a close has reached both ends. -/
def Settled (s : System) : Prop :=
  ∀ c, s.dialed c = true → ∀ x, (s.ends x c).live = true ∧
    (x ≠ c → (s.ends x c).started = true) ∧ (s.ends x c).flight = [] ∧
    (p.cut s c → (s.ends x c).told = true)

instance (s : System) : Decidable (p.Settled s) :=
  inferInstanceAs (Decidable (∀ c, s.dialed c = true → ∀ x, (s.ends x c).live = true ∧
    (x ≠ c → (s.ends x c).started = true) ∧ (s.ends x c).flight = [] ∧
    (p.cut s c → (s.ends x c).told = true)))

/-- **The connection that stays**: the one the smaller node dialled, or the only one. -/
def chosen (s : System) (c : Side) : Prop :=
  s.dialed c = true ∧ (s.dialed c.other = true → (p.id c).get < (p.id c.other).get)

instance (s : System) (c : Side) : Decidable (p.chosen s c) :=
  inferInstanceAs (Decidable (s.dialed c = true ∧
    (s.dialed c.other = true → (p.id c).get < (p.id c.other).get)))

/-- Two services that have nothing to do with each other yet; what they have with other nodes is
arbitrary. -/
def initial (servers : Side → Server) : System where
  server := servers
  ends := fun _ _ => {}
  dialed := fun _ => false
  shut := fun _ => []

def Strangers (servers : Side → Server) : Prop :=
  ∀ x, (servers x).nodes.lookup (p.id x.other) = none ∧
    ∀ c, (servers x).peers.lookup (p.sock x c) = none

end Pair

end Rskynet.Cluster
