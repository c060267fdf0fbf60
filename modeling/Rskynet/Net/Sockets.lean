import Mathlib.Algebra.GroupWithZero.Nat
import Mathlib.Logic.Function.Iterate

/-!
# Sockets of the network service

A socket has a slot of a table of fixed size, a write queue with two lanes, and the callers that wait
for something to happen to it. The table gives out ever growing numbers and finds a socket by its
number modulo the size, so that the number of a socket that is gone is not found.

* `total_modify`, … — **PROVED**: sums over the sockets of the table.
-/

namespace Rskynet.Net

open List Option

abbrev Handle := ℕ

abbrev SocketId := ℕ

/-- An address, as it is displayed. -/
abbrev SocketAddr := String

/-! ### Buffers -/

variable {owner : Handle}

structure Chunk where
  data : List UInt8
  offset : ℕ := 0
  dest : Option SocketAddr := none
  deriving DecidableEq

namespace Chunk

def tcp (data : List UInt8) : Chunk := { data := data }

def udp (data : List UInt8) (dest : SocketAddr) : Chunk := { data := data, dest := some dest }

def rest (chunk : Chunk) : List UInt8 := chunk.data.drop chunk.offset

end Chunk

/-- The two lanes of a socket's write buffer. -/
structure WriteQueue where
  high : List Chunk := []
  low : List Chunk := []
  size : ℕ := 0
  warnAt : ℕ := 0
  deriving DecidableEq

namespace WriteQueue

def isEmpty (wb : WriteQueue) : Bool := wb.high.isEmpty && wb.low.isEmpty

def push (wb : WriteQueue) (chunk : Chunk) (high : Bool) (threshold : ℕ) : WriteQueue × Option ℕ :=
  let size := wb.size + chunk.rest.length
  let wb : WriteQueue :=
    if high then { wb with size := size, high := wb.high ++ [chunk] }
    else { wb with size := size, low := wb.low ++ [chunk] }
  if size < threshold ∨ size < wb.warnAt then (wb, none)
  else
    ({ wb with warnAt := if wb.warnAt = 0 then threshold * 2 else wb.warnAt * 2 }, some (size / 1024))

/-- The queue as `WriteQueue::next` leaves it: a low chunk moves up when there is no high one. -/
def raise (wb : WriteQueue) : WriteQueue :=
  if wb.high.isEmpty then
    match wb.low with
    | [] => wb
    | chunk :: low => { wb with high := [chunk], low := low }
  else wb

def consume (wb : WriteQueue) (written : ℕ) : WriteQueue :=
  let wb := { wb with size := wb.size - written }
  match wb.high with
  | [] => wb
  | chunk :: high =>
    let chunk := { chunk with offset := chunk.offset + written }
    let wb := { wb with high := if chunk.offset ≥ chunk.data.length then high else chunk :: high }
    if wb.isEmpty then { wb with warnAt := 0 } else wb

end WriteQueue

structure ReadSizer where
  size : ℕ
  floor : ℕ
  deriving DecidableEq

def ReadSizer.observe (read : ReadSizer) (n : ℕ) : ReadSizer :=
  if n = read.size then { read with size := read.size * 2 }
  else if read.size > read.floor ∧ n * 2 < read.size then { read with size := read.size / 2 }
  else read

/-! ### One socket -/

inductive Kind where
  | listener
  | stream
  | udp
  deriving DecidableEq

inductive State where
  | preListen
  | listen
  | connecting
  | preAccept
  | connected
  | halfCloseRead
  | halfCloseWrite
  deriving DecidableEq

namespace State

def name : State → String
  | preListen => "prelisten"
  | listen => "listen"
  | connecting => "connecting"
  | preAccept => "preaccept"
  | connected => "connected"
  | halfCloseRead => "halfclose_read"
  | halfCloseWrite => "halfclose_write"

def writable : State → Bool
  | connected => true
  | halfCloseRead => true
  | _ => false

end State

variable {kind : Kind} {state : State}

/-- A caller that waits for an answer; a session of zero means that nobody waits. -/
structure Pending where
  source : Handle
  session : ℕ
  deriving DecidableEq

def Pending.isSilent (waiting : Pending) : Bool := waiting.session = 0

inductive Interest where
  | readable
  | writable
  | both
  deriving DecidableEq

structure Socket where
  id : SocketId
  owner : Handle
  kind : Kind
  state : State
  paused : Bool := false
  interest : Option Interest := none
  wb : WriteQueue := {}
  read : ReadSizer
  udpPeer : Option SocketAddr := none
  pending : Option Pending := none
  sendWaiters : List Pending := []
  connectFallbacks : List SocketAddr := []
  connectDeadlineMs : Option ℕ := none
  deriving DecidableEq

namespace Socket

def new (id : SocketId) (owner : Handle) (kind : Kind) (state : State) (floor : ℕ) : Socket :=
  { id := id, owner := owner, kind := kind, state := state, read := ⟨floor, floor⟩ }

def desired (socket : Socket) : Option Interest :=
  match socket.state with
  | .preListen => none
  | .preAccept => none
  | .listen => some .readable
  | .connecting => some .writable
  | .connected => if socket.wb.isEmpty then some .readable else some .both
  | .halfCloseRead => some .writable
  | .halfCloseWrite => some .writable

end Socket

/-! ### The table -/

structure Sockets where
  slots : List (Option Socket)
  next : ℕ
  floor : ℕ

namespace Sockets

def new (capacity floor : ℕ) : Sockets := ⟨List.replicate capacity none, 1, floor⟩

def slot (t : Sockets) (id : SocketId) : ℕ := id % t.slots.length

def put (t : Sockets) (id : SocketId) (content : Option Socket) : Sockets :=
  { t with slots := t.slots.set (t.slot id) content }

def get (t : Sockets) (id : SocketId) : Option Socket :=
  (t.slots[t.slot id]?).join.filter fun socket => socket.id = id

def modify (t : Sockets) (id : SocketId) (f : Socket → Socket) : Sockets :=
  match t.get id with
  | none => t
  | some socket => t.put id (some (f socket))

def remove (t : Sockets) (id : SocketId) : Option Socket × Sockets :=
  match t.get id with
  | none => (none, t)
  | some socket => (some socket, t.put id none)

def byToken (t : Sockets) (token : ℕ) : Option Socket := (t.slots[token]?).join

/-- The number after a given one; zero is left out. -/
def after (id : SocketId) : SocketId := if (id + 1) % 2 ^ 32 = 0 then 1 else (id + 1) % 2 ^ 32

/-- The loop of `Sockets::insert`: the numbers are tried in order until one's slot is free. -/
def insertLoop (owner : Handle) (kind : Kind) (state : State) :
    ℕ → Sockets → Option SocketId × Sockets
  | 0, t => (none, t)
  | n + 1, t =>
    let id := t.next
    let t := { t with next := after id }
    match (t.slots[t.slot id]?).join with
    | some _ => insertLoop owner kind state n t
    | none => (some id, t.put id (some (.new id owner kind state t.floor)))

def insert (t : Sockets) (owner : Handle) (kind : Kind) (state : State) :
    Option SocketId × Sockets :=
  insertLoop owner kind state t.slots.length t

/-! ### Sums over the table -/

variable {t t' : Sockets} {id : SocketId} {socket : Socket} {f : Socket → Socket}

theorem get_eq_some (h : t.get id = some socket) :
    t.slots[t.slot id]? = some (some socket) ∧ socket.id = id := by
  obtain ⟨hslot, hid⟩ := filter_eq_some_iff.mp h
  exact ⟨join_eq_some_iff.mp hslot, of_decide_eq_true hid⟩

theorem get_of_slot (hslot : t.slots[t.slot id]? = some (some socket)) (hid : socket.id = id) :
    t.get id = some socket := by
  unfold get
  rw [hslot, join_some, filter_some, if_pos (decide_eq_true hid)]

def total (w : Socket → ℕ) (t : Sockets) : ℕ := (t.slots.map fun slot => slot.elim 0 w).sum

theorem sum_set {α : Type} (w : α → ℕ) : ∀ (l : List α) (i : ℕ) (a b : α), l[i]? = some a →
    ((l.set i b).map w).sum + w a = (l.map w).sum + w b := by
  intro l
  induction l with
  | nil =>
    intro i a b h
    cases h
  | cons c l ih =>
    intro i a b h
    cases i with
    | zero =>
      cases h
      simp only [set_cons_zero, map_cons, sum_cons]
      omega
    | succ i =>
      have hrest := ih i a b h
      simp only [set_cons_succ, map_cons, sum_cons]
      omega

variable (w : Socket → ℕ)

theorem total_modify (h : t.get id = some socket) :
    (t.modify id f).total w + w socket = t.total w + w (f socket) := by
  unfold modify
  simp only [h]
  exact sum_set (fun slot : Option Socket => slot.elim 0 w) _ _ _ (some (f socket)) (get_eq_some h).1

theorem total_modify_of_eq (hf : ∀ socket, w (f socket) = w socket) :
    (t.modify id f).total w = t.total w := by
  cases h : t.get id with
  | none => simp only [modify, h]
  | some socket =>
    have htotal := total_modify (f := f) w h
    rw [hf] at htotal
    omega

theorem total_remove (h : t.remove id = (some socket, t')) :
    t'.total w + w socket = t.total w := by
  unfold remove at h
  split at h
  · cases h
  · rename_i found hget
    cases h
    exact sum_set (fun slot : Option Socket => slot.elim 0 w) _ _ _ none (get_eq_some hget).1

theorem remove_eq_some (h : t.get id = some socket) :
    t.remove id = (some socket, t.put id none) := by
  simp only [remove, h]

theorem insertLoop_eq_some :
    ∀ {n : ℕ} {t : Sockets}, t.slots.length ≠ 0 → insertLoop owner kind state n t = (some id, t') →
      t.slots[t.slot id]? = some none ∧ ∃ k < n, id = after^[k] t.next ∧
        t' = ({ t with next := after id } : Sockets).put id
          (some (.new id owner kind state t.floor)) := by
  intro n
  induction n with
  | zero =>
    intro t _ h
    cases h
  | succ n ih =>
    intro t hlen h
    simp only [insertLoop] at h
    split at h
    · obtain ⟨hslot, k, hk, hid, ht⟩ := ih (t := { t with next := after t.next }) hlen h
      exact ⟨hslot, k + 1, Nat.succ_lt_succ hk, hid, ht⟩
    · rename_i hfree
      cases h
      refine ⟨?_, 0, Nat.succ_pos n, rfl, rfl⟩
      have hlt : t.slot t.next < t.slots.length := Nat.mod_lt _ (Nat.pos_of_ne_zero hlen)
      have hslot : t.slots[t.slot t.next]? = some (t.slots.get ⟨_, hlt⟩) := getElem?_eq_getElem hlt
      have hjoin : (t.slots[t.slot t.next]?).join = none := hfree
      rw [hslot, join_some] at hjoin
      rw [hslot, hjoin]

theorem insertLoop_eq_none :
    ∀ {n : ℕ} {t : Sockets}, insertLoop owner kind state n t = (none, t') →
      t'.slots = t.slots ∧ t'.next = after^[n] t.next := by
  intro n
  induction n with
  | zero =>
    intro t h
    cases h
    exact ⟨rfl, rfl⟩
  | succ n ih =>
    intro t h
    simp only [insertLoop] at h
    split at h
    · exact ih (t := { t with next := after t.next }) h
    · cases h

theorem insert_eq_some (h : t.insert owner kind state = (some id, t')) :
    t.slots[t.slot id]? = some none ∧ ∃ k < t.slots.length, id = after^[k] t.next ∧
      t' = ({ t with next := after id } : Sockets).put id
        (some (.new id owner kind state t.floor)) := by
  refine insertLoop_eq_some ?_ h
  intro hlen
  rw [insert, hlen] at h
  cases h

theorem get_put (hlt : t.slot id < t.slots.length) (hid : socket.id = id) :
    (t.put id (some socket)).get id = some socket := by
  refine get_of_slot ?_ hid
  have hsame : (t.put id (some socket)).slot id = t.slot id := by
    simp only [slot, put, length_set]
  rw [hsame]
  exact getElem?_set_self hlt

/-- **A new socket is found** under its number. -/
theorem get_insert (h : t.insert owner kind state = (some id, t')) :
    t'.get id = some (.new id owner kind state t.floor) := by
  obtain ⟨hslot, k, -, -, rfl⟩ := insert_eq_some h
  have hlt : t.slot id < t.slots.length := (List.getElem?_eq_some_iff.mp hslot).1
  exact get_put (t := { t with next := after id }) hlt rfl

theorem total_insert (owner : Handle) (kind : Kind) (state : State) :
    (t.insert owner kind state).2.total w = t.total w +
      (t.insert owner kind state).1.elim 0 fun id => w (.new id owner kind state t.floor) := by
  cases h : t.insert owner kind state with
  | mk found t' =>
    cases found with
    | none =>
      have hslots : t'.slots = t.slots := (insertLoop_eq_none h).1
      simp only [total, hslots, elim_none, Nat.add_zero]
    | some id =>
      obtain ⟨hslot, k, -, -, rfl⟩ := insert_eq_some h
      exact sum_set (fun slot : Option Socket => slot.elim 0 w) _ _ _
        (some (.new id owner kind state t.floor)) hslot

theorem slot_lt (h : t.get id = some socket) : t.slot id < t.slots.length :=
  (List.getElem?_eq_some_iff.mp (get_eq_some h).1).1

/-- **A changed socket is found** under its number. -/
theorem get_modify (h : t.get id = some socket) (hid : (f socket).id = id) :
    (t.modify id f).get id = some (f socket) := by
  simp only [modify, h]
  exact get_put (slot_lt h) hid

end Sockets

end Rskynet.Net
