import Rskynet.Cluster.Choice
import Rskynet.Lib.Threads

/-!
# Agreement on one of two connections

Each node chooses by itself; since both prefer the smaller node's connection as soon as its hello is
there, and both hellos of an open connection arrive, they end with the same one.

* `connections_agree` — **PROVED**: in every run the connection that stays is never shut down, and
  when everything has been delivered both nodes use it.
-/

namespace Rskynet.Cluster

open Function (update update_eq_self update_of_ne update_self)
open List Option Interleave Bool

namespace Pair

variable {p : Pair} {x c : Side} {server : Server} {s s' : System} {e₁ : End}

def speaks (x c : Side) (e₁ : End) : Prop := e₁.live = true ∧ (x = c ∨ e₁.started = true)

def bytes (e₁ : End) : Bytes := e₁.heard ++ e₁.flight

variable (p) in
/-- **Both nodes and the bytes between them.**  An end that is open has, heard or on its way, the
hello of the other node as soon as that one has sent it, unless the connection was shut down first. -/
structure Inv (s : System) : Prop where
  tracks : ∀ x, p.Tracks x (s.server x) (s.ends x) (s.shut x)
  quiet : ∀ x c, (s.ends x c).told = false → ¬ speaks x.other c (s.ends x.other c) →
    bytes (s.ends x c) = []
  spoken : ∀ x c, (s.ends x c).told = false → speaks x.other c (s.ends x.other c) →
    bytes (s.ends x c) = p.greeting x.other ∨ p.cut s c ∧ bytes (s.ends x c) = []
  closed : ∀ x c, (s.ends x c).told = true → p.cut s c
  dialed : ∀ x c, (s.ends x c).live = true → s.dialed c = true

theorem Inv.cleared (h : p.Inv s) (x : Side) :
    p.Tracks x { s.server x with out := [] } (s.ends x) (s.shut x) :=
  (h.tracks x).congr rfl rfl (fun _ => rfl) (fun _ => rfl) fun _ => rfl

/-- What a node sends on a connection: nothing, or its hello when it starts to speak; it may fail to
send it on a connection that was shut down. -/
inductive Speech (p : Pair) (s : System) (x d : Side) (before after : End) (sent : Bytes) : Prop where
  | nothing (same : speaks x d after ↔ speaks x d before) (sent : sent = [])
  | hello (before : ¬ speaks x d before) (after : speaks x d after) (sent : sent = p.greeting x)
  | lost (before : ¬ speaks x d before) (after : speaks x d after) (cut : p.cut s d)
      (sent : sent = [])

/-- **One node's step**: its tables follow its ends, one of which has changed to `e₁`; that end gets
no bytes from nowhere; and the node sends what it should. -/
structure Moved (p : Pair) (s : System) (x c : Side) (e₁ : End) (server : Server) : Prop where
  tracks : p.Tracks x server (Function.update (s.ends x) c e₁) (s.shut x ++ cuts server.out)
  kept : e₁.told = false → (s.ends x c).told = false ∧ bytes e₁ = bytes (s.ends x c)
  closed : e₁.told = true → p.cut s c
  dialed : e₁.live = true → s.dialed c = true
  speech : ∀ d, Speech p s x d (s.ends x d) (Function.update (s.ends x) c e₁ d)
    (sentOn (p.sock x d) server.out)

theorem push_told (e₁ : End) (sent : Bytes) : (e₁.push sent).told = e₁.told := by
  unfold End.push
  split <;> rfl

theorem push_live (e₁ : End) (sent : Bytes) : (e₁.push sent).live = e₁.live := by
  unfold End.push
  split <;> rfl

theorem push_heard (e₁ : End) (sent : Bytes) : (e₁.push sent).heard = e₁.heard := by
  unfold End.push
  split <;> rfl

theorem push_speaks (e₁ : End) (sent : Bytes) : speaks x c (e₁.push sent) ↔ speaks x c e₁ := by
  unfold End.push
  split <;> rfl

theorem push_bytes (htold : e₁.told = false) (sent : Bytes) :
    bytes (e₁.push sent) = bytes e₁ ++ sent := by
  unfold End.push
  rw [htold, if_neg Bool.false_ne_true]
  exact (append_assoc _ _ _).symm

structure After (p : Pair) (s : System) (x c : Side) (e₁ : End) (server : Server) (s' : System) :
    Prop where
  servers : s'.server = Function.update s.server x server
  self : s'.ends x = Function.update (s.ends x) c e₁
  other : ∀ d, s'.ends x.other d = (s.ends x.other d).push (sentOn (p.sock x d) server.out)
  dialed : s'.dialed = Function.update s.dialed x (s.dialed x || dials server.out)
  shut : s'.shut = Function.update s.shut x (s.shut x ++ cuts server.out)

theorem after_of_run {input : Input} (h : p.run x input (s.setEnd x c e₁) = some s') :
    ∃ server, handle (p.config x) input (s.server x) = some server ∧
      After p s x c e₁ server s' := by
  obtain ⟨server, hserver, rfl⟩ := map_eq_some_iff.mp h
  refine ⟨server, hserver, rfl, ?_, ?_, rfl, rfl⟩
  · funext d
    simp only [if_true, System.setEnd, update_self]
  · intro d
    simp only [if_neg x.other_ne, System.setEnd, update_of_ne x.other_ne]

theorem After.cut (ha : After p s x c e₁ server s') {d : Side} (h : p.cut s d) : p.cut s' d := by
  obtain ⟨y, hmem⟩ := h
  refine ⟨y, ?_⟩
  rw [ha.shut]
  obtain rfl | rfl := x.eq_or y
  · rw [update_self]
    exact mem_append_left _ hmem
  · rw [update_of_ne x.other_ne]
    exact hmem

theorem After.dials (ha : After p s x c e₁ server s') {d : Side} (h : s.dialed d = true) :
    s'.dialed d = true := by
  rw [ha.dialed]
  obtain rfl | rfl := x.eq_or d
  · rw [update_self, h, Bool.true_or]
  · rw [update_of_ne x.other_ne]
    exact h

theorem After.ends_self (ha : After p s x c e₁ server s') (d : Side) :
    d = c ∧ s'.ends x d = e₁ ∨ d ≠ c ∧ s'.ends x d = s.ends x d := by
  rw [ha.self]
  by_cases hd : d = c
  · subst hd
    exact .inl ⟨rfl, update_self _ _ _⟩
  · exact .inr ⟨hd, update_of_ne hd _ _⟩

theorem After.speaks_other (ha : After p s x c e₁ server s') (d : Side) :
    speaks x.other d (s'.ends x.other d) ↔ speaks x.other d (s.ends x.other d) := by
  rw [ha.other, push_speaks]

theorem bytes_self (hm : Moved p s x c e₁ server) (ha : After p s x c e₁ server s') {d : Side}
    (htold : (s'.ends x d).told = false) :
    (s.ends x d).told = false ∧ bytes (s'.ends x d) = bytes (s.ends x d) := by
  obtain ⟨rfl, hend⟩ | ⟨-, hend⟩ := ha.ends_self d
  · rw [hend] at htold ⊢
    exact hm.kept htold
  · rw [hend] at htold ⊢
    exact ⟨htold, rfl⟩

theorem bytes_other (ha : After p s x c e₁ server s') {d : Side}
    (htold : (s'.ends x.other d).told = false) : (s.ends x.other d).told = false ∧
      bytes (s'.ends x.other d) =
        bytes (s.ends x.other d) ++ sentOn (p.sock x d) server.out := by
  rw [ha.other, push_told] at htold
  refine ⟨htold, ?_⟩
  rw [ha.other, push_bytes htold]

theorem quiet_of_moved (h : p.Inv s) (hm : Moved p s x c e₁ server)
    (ha : After p s x c e₁ server s') (y d : Side) (htold : (s'.ends y d).told = false)
    (hquiet : ¬ speaks y.other d (s'.ends y.other d)) : bytes (s'.ends y d) = [] := by
  obtain rfl | rfl := x.eq_or y
  · obtain ⟨hopen, hbytes⟩ := bytes_self hm ha htold
    rw [hbytes]
    rw [ha.speaks_other] at hquiet
    exact h.quiet y d hopen hquiet
  · obtain ⟨hopen, hbytes⟩ := bytes_other ha htold
    have hbefore := h.quiet x.other d hopen
    rw [Side.other_other] at hquiet hbefore
    rw [hbytes]
    rw [ha.self] at hquiet
    cases hm.speech d with
    | nothing hsame hsent => rw [hsent, hbefore fun hs => hquiet (hsame.mpr hs), append_nil]
    | hello _ hafter | lost _ hafter => exact absurd hafter hquiet

theorem spoken_of_moved (h : p.Inv s) (hm : Moved p s x c e₁ server)
    (ha : After p s x c e₁ server s') (y d : Side) (htold : (s'.ends y d).told = false)
    (hspeaks : speaks y.other d (s'.ends y.other d)) :
    bytes (s'.ends y d) = p.greeting y.other ∨ p.cut s' d ∧ bytes (s'.ends y d) = [] := by
  obtain rfl | rfl := x.eq_or y
  · obtain ⟨hopen, hbytes⟩ := bytes_self hm ha htold
    rw [hbytes]
    rw [ha.speaks_other] at hspeaks
    exact (h.spoken y d hopen hspeaks).imp_right fun ⟨hcut, hnil⟩ => ⟨ha.cut hcut, hnil⟩
  · obtain ⟨hopen, hbytes⟩ := bytes_other ha htold
    have hbefore := h.spoken x.other d hopen
    have hsilent := h.quiet x.other d hopen
    rw [Side.other_other] at hspeaks hbefore hsilent ⊢
    rw [hbytes]
    rw [ha.self] at hspeaks
    cases hm.speech d with
    | nothing hsame hsent =>
      rw [hsent, append_nil]
      exact (hbefore (hsame.mp hspeaks)).imp_right fun ⟨hcut, hnil⟩ => ⟨ha.cut hcut, hnil⟩
    | hello hnot _ hsent =>
      rw [hsilent hnot, hsent]
      exact .inl (nil_append _)
    | lost hnot _ hcut hsent =>
      rw [hsilent hnot, hsent]
      exact .inr ⟨ha.cut hcut, rfl⟩

/-- **A step that does what it should keeps the invariant.** -/
theorem inv_of_moved (h : p.Inv s) (hm : Moved p s x c e₁ server)
    (ha : After p s x c e₁ server s') : p.Inv s' := by
  refine ⟨?_, quiet_of_moved h hm ha, spoken_of_moved h hm ha, ?_, ?_⟩
  · intro y
    obtain rfl | rfl := x.eq_or y
    · rw [ha.servers, ha.self, ha.shut, update_self, update_self]
      exact hm.tracks
    · rw [ha.servers, ha.shut, update_of_ne x.other_ne, update_of_ne x.other_ne]
      refine (h.tracks x.other).congr rfl rfl ?_ ?_ ?_
      · intro d
        rw [ha.other, push_live]
      · intro d
        rw [ha.other, push_told]
      · intro d
        rw [ha.other, push_heard]
  · intro y d htold
    obtain rfl | rfl := x.eq_or y
    · obtain ⟨rfl, hend⟩ | ⟨-, hend⟩ := ha.ends_self d
      · exact ha.cut (hm.closed (hend ▸ htold))
      · exact ha.cut (h.closed y d (hend ▸ htold))
    · rw [ha.other, push_told] at htold
      exact ha.cut (h.closed _ d htold)
  · intro y d hlive
    obtain rfl | rfl := x.eq_or y
    · obtain ⟨rfl, hend⟩ | ⟨-, hend⟩ := ha.ends_self d
      · exact ha.dials (hm.dialed (hend ▸ hlive))
      · exact ha.dials (h.dialed y d (hend ▸ hlive))
    · rw [ha.other, push_live] at hlive
      exact ha.dials (h.dialed _ d hlive)

/-! ### The steps -/

theorem sentOn_self (socket : SocketId) (sent : Bytes) :
    sentOn socket [.send socket sent] = sent := by
  simp only [sentOn, filterMap_cons, if_true, filterMap_nil, flatten_cons,
    flatten_nil, append_nil]

theorem sentOn_other {socket socket' : SocketId} (h : socket' ≠ socket) (sent : Bytes) :
    sentOn socket [.send socket' sent] = [] := by
  simp only [sentOn, filterMap_cons, if_neg h, filterMap_nil, flatten_nil]

theorem transmit_hello (x : Side) (socket : SocketId) (server : Server) :
    transmit (p.config x) socket (hello (p.config x)) server =
      .ok (server.emit (.send socket (p.greeting x))) := by
  rw [transmit, p.greets x x]
  rfl

theorem speech_nothing (hlive : e₁.live = (s.ends x c).live)
    (hstarted : e₁.started = (s.ends x c).started) {out : List Effect}
    (hsilent : ∀ socket, sentOn socket out = []) (d : Side) :
    Speech p s x d (s.ends x d) (update (s.ends x) c e₁ d) (sentOn (p.sock x d) out) := by
  refine .nothing ?_ (hsilent _)
  by_cases hd : d = c
  · subst hd
    rw [update_self, speaks, speaks, hlive, hstarted]
  · rw [update_of_ne hd]

theorem speech_hello (hbefore : ¬ speaks x c (s.ends x c)) (hafter : speaks x c e₁)
    (d : Side) : Speech p s x d (s.ends x d) (update (s.ends x) c e₁ d)
      (sentOn (p.sock x d) [.send (p.sock x c) (p.greeting x)]) := by
  obtain rfl | rfl := c.eq_or d
  · rw [update_self, sentOn_self]
    exact .hello hbefore hafter rfl
  · rw [update_of_ne c.other_ne, sentOn_other (p.sock_other_ne x c).symm]
    exact .nothing Iff.rfl rfl

theorem moved_dial (h : p.Inv s) {address : String}
    (hr : handle (p.config x) (.connect (p.id x.other) address) (s.server x) = some server) :
    Moved p s x x (s.ends x x) server := by
  have hserver : server.peers = (s.server x).peers ∧ server.nodes = (s.server x).nodes ∧
      cuts server.out = [] ∧ ∀ socket, sentOn socket server.out = [] := by
    simp only [handle, connect, some.injEq] at hr
    subst hr
    split
    · exact ⟨rfl, rfl, rfl, fun _ => rfl⟩
    · exact ⟨rfl, rfl, rfl, fun _ => rfl⟩
  obtain ⟨hpeers, hnodes, hcuts, hsent⟩ := hserver
  refine ⟨?_, fun htold => ⟨htold, rfl⟩, h.closed x x, h.dialed x x,
    speech_nothing rfl rfl hsent⟩
  rw [hcuts, append_nil, update_eq_self]
  exact (h.tracks x).congr hpeers hnodes (fun _ => rfl) (fun _ => rfl) fun _ => rfl

theorem moved_connected (h : p.Inv s) {address : String} (hdialed : s.dialed x = true)
    (hlive : (s.ends x x).live = false)
    (hr : handle (p.config x) (.connected (p.id x.other) address (some (p.sock x x))) (s.server x) =
      some server) :
    Moved p s x x { s.ends x x with live := true } server := by
  simp only [handle, resume, connected, transmit_hello] at hr
  split at hr
  · obtain rfl := some.inj hr
    refine ⟨?_, fun htold => ⟨htold, rfl⟩, h.closed x x, fun _ => hdialed, ?_⟩
    · simp only [Server.emit, Server.setPeer, nil_append, cuts, filterMap_cons,
        filterMap_nil, append_nil]
      refine tracks_open (h.tracks x) hlive rfl rfl rfl ?_ rfl
      rw [if_pos rfl]
    · exact speech_hello (fun hs => false_ne_true (hlive.symm.trans hs.1)) ⟨rfl, .inl rfl⟩
  · cases hr

theorem moved_accept (h : p.Inv s) (hdialed : s.dialed x.other = true)
    (hlive : (s.ends x x.other).live = false)
    (hr : handle (p.config x) (.accept (p.sock x x.other)) (s.server x) = some server) :
    Moved p s x x.other { s.ends x x.other with live := true, started := false } server := by
  obtain rfl := some.inj hr
  refine ⟨?_, fun htold => ⟨htold, rfl⟩, h.closed x x.other, fun _ => hdialed, ?_⟩
  · simp only [accept, Server.emit, Server.setPeer, Server.suspend, nil_append, cuts,
      filterMap_cons, filterMap_nil, append_nil]
    refine tracks_open (h.tracks x) hlive rfl rfl rfl ?_ rfl
    rw [if_neg x.other_ne]
  · intro d
    refine .nothing ?_ rfl
    by_cases hd : d = x.other
    · subst hd
      rw [update_self]
      refine iff_of_false (fun hs => ?_) fun hs => false_ne_true (hlive.symm.trans hs.1)
      exact hs.2.elim x.ne_other false_ne_true
    · rw [update_of_ne hd]

theorem moved_started (h : p.Inv s) {ok : Bool} (hlive : (s.ends x x.other).live = true)
    (hstarted : (s.ends x x.other).started = false) (hok : ok = true ∨ p.cut s x.other)
    (hr : handle (p.config x) (.started (p.sock x x.other) ok) (s.server x) = some server) :
    Moved p s x x.other { s.ends x x.other with started := true } server := by
  have hbefore : ¬ speaks x x.other (s.ends x x.other) := by
    intro hs
    exact hs.2.elim x.ne_other fun hs => false_ne_true (hstarted.symm.trans hs)
  have hafter : speaks x x.other { s.ends x x.other with started := true } := ⟨hlive, .inr rfl⟩
  have htracks : ∀ server' : Server, server'.peers = (s.server x).peers →
      server'.nodes = (s.server x).nodes → p.Tracks x server' (update (s.ends x) x.other
        { s.ends x x.other with started := true }) (s.shut x) := by
    intro server' hpeers hnodes
    refine (h.tracks x).congr hpeers hnodes ?_ ?_ ?_
    all_goals
      intro d
      obtain rfl | rfl := x.other.eq_or d
      · rw [update_self]
      · rw [update_of_ne x.other.other_ne]
  simp only [handle, resume, started, tryTransmit, transmit_hello] at hr
  split at hr
  · obtain rfl := some.inj hr
    cases ok with
    | true =>
      refine ⟨?_, fun htold => ⟨htold, rfl⟩, h.closed x x.other, h.dialed x x.other,
        speech_hello hbefore hafter⟩
      simp only [if_true, Server.emit, nil_append, cuts, filterMap_cons,
        filterMap_nil, append_nil]
      exact htracks _ rfl rfl
    | false =>
      refine ⟨?_, fun htold => ⟨htold, rfl⟩, h.closed x x.other, h.dialed x x.other, fun d => ?_⟩
      · simp only [false_eq_true, if_false, cuts, filterMap_nil, append_nil]
        exact htracks _ rfl rfl
      · by_cases hd : d = x.other
        · subst hd
          rw [update_self]
          exact .lost hbefore hafter (hok.resolve_left false_ne_true) rfl
        · rw [update_of_ne hd]
          exact .nothing Iff.rfl rfl
  · cases hr

theorem greeting_of_flight (h : p.Inv s) (htold : (s.ends x c).told = false)
    (hflight : (s.ends x c).flight ≠ []) : bytes (s.ends x c) = p.greeting x.other := by
  have hne : bytes (s.ends x c) ≠ [] := fun hnil => hflight (append_eq_nil_iff.mp hnil).2
  by_cases hspeaks : speaks x.other c (s.ends x.other c)
  · exact (h.spoken x c htold hspeaks).resolve_right fun hcut => hne hcut.2
  · exact absurd (h.quiet x c htold hspeaks) hne

theorem moved_deliver (h : p.Inv s) {count : ℕ} (hlive : (s.ends x c).live = true)
    (htold : (s.ends x c).told = false) (hpos : 0 < count)
    (hcount : count ≤ (s.ends x c).flight.length) (he : e₁ = { s.ends x c with
      heard := (s.ends x c).heard ++ (s.ends x c).flight.take count
      flight := (s.ends x c).flight.drop count })
    (hr : handle (p.config x) (.data (p.sock x c) ((s.ends x c).flight.take count)) (s.server x) =
      some server) :
    Moved p s x c e₁ server := by
  have hflight : (s.ends x c).flight ≠ [] := by
    intro hnil
    rw [hnil, length_nil] at hcount
    omega
  have hgreeting := greeting_of_flight h htold hflight
  have hnot : ¬ p.heardAll x (s.ends x c) := by
    intro hall
    rw [bytes, hall] at hgreeting
    exact hflight (append_right_eq_self.mp hgreeting)
  have hbytes : bytes e₁ = bytes (s.ends x c) := by
    rw [he, bytes, bytes, append_assoc, take_append_drop]
  have hentry := (h.tracks x).entry hlive htold hnot
  have hbuffer : (p.peer x c (s.ends x c)).buffer = (s.ends x c).heard := if_neg hnot
  have hlive₁ : e₁.live = (s.ends x c).live := by rw [he]
  have htold₁ : e₁.told = (s.ends x c).told := by rw [he]
  have hstarted₁ : e₁.started = (s.ends x c).started := by rw [he]
  have hheard₁ : e₁.heard = (s.ends x c).heard ++ (s.ends x c).flight.take count := by rw [he]
  have hmoved : p.Tracks x server (update (s.ends x) c e₁) (s.shut x ++ cuts server.out) ∧
      Silent server.out := by
    simp only [handle, data, hentry, hbuffer, ← hheard₁, some.injEq] at hr
    by_cases hrest : e₁.flight = []
    · -- the last bytes have come, and the hello is handled
      have hall : p.heardAll x e₁ := by
        rw [heardAll, ← hgreeting, ← hbytes, bytes, hrest, append_nil]
      rw [hall, p.drain_greeting x] at hr
      simp only [onEnvelopes, p.onEnvelope_hello x] at hr
      exact tracks_hello (h.cleared x) rfl hlive htold hnot (hlive₁.trans hlive)
        (htold₁.trans htold) hall hr
    · -- a part has come, and the buffer waits for the rest
      have hpart : e₁.heard ++ e₁.flight = p.greeting x.other := hbytes.trans hgreeting
      have hnot₁ : ¬ p.heardAll x e₁ := by
        intro hall
        rw [hall] at hpart
        exact hrest (append_right_eq_self.mp hpart)
      rw [p.drain_part x hpart hrest] at hr
      simp only [onEnvelopes] at hr
      subst hr
      refine ⟨?_, silent_nil⟩
      simp only [Server.setPeer, cuts, filterMap_nil, append_nil]
      refine tracks_part (h.tracks x) hlive htold hnot hlive₁ htold₁ hnot₁ ?_ rfl
      simp only [peer, if_neg hnot, if_neg hnot₁]
  refine ⟨hmoved.1, fun _ => ⟨htold, hbytes⟩, fun htold' => ?_, fun _ => h.dialed x c hlive,
    speech_nothing hlive₁ hstarted₁ hmoved.2.2⟩
  rw [htold₁, htold] at htold'
  cases htold'

theorem eq_of_cut (h : p.Inv s) (hcut : p.cut s c) : c = p.small.other := by
  obtain ⟨y, hmem⟩ := hcut
  obtain rfl | rfl := p.small.eq_or c
  · exact absurd hmem (h.tracks y).spared
  · rfl

theorem moved_close (h : p.Inv s) (hlive : (s.ends x c).live = true)
    (htold : (s.ends x c).told = false) (hcut : p.cut s c)
    (hr : handle (p.config x) (.closed (p.sock x c)) (s.server x) = some server) :
    Moved p s x c { s.ends x c with told := true, flight := [] } server := by
  obtain rfl := eq_of_cut h hcut
  have hlive₁ : ({ s.ends x p.small.other with told := true, flight := [] } : End).live =
      (s.ends x p.small.other).live := rfl
  have hstarted₁ : ({ s.ends x p.small.other with told := true, flight := [] } : End).started =
      (s.ends x p.small.other).started := rfl
  have hmoved := tracks_closed (h.cleared x) rfl hlive htold (hlive₁.trans hlive) rfl rfl
    (some.inj hr)
  refine ⟨hmoved.1, fun hopen => ?_, fun _ => hcut, h.dialed x _,
    speech_nothing hlive₁ hstarted₁ hmoved.2.2⟩
  cases hopen

theorem run_of_ite {α : Type} {P : Prop} [Decidable P] {r : Option α} {a : α}
    (h : (if P then r else none) = some a) : P ∧ r = some a := by
  split at h
  · exact ⟨‹P›, h⟩
  · cases h

theorem inv_act {action : Action} (h : p.Inv s) (hstep : p.act action s = some s') : p.Inv s' := by
  cases action with
  | dial x address =>
    obtain ⟨-, hrun⟩ := run_of_ite hstep
    have hsame : s.setEnd x x (s.ends x x) = s := by
      simp only [System.setEnd, update_eq_self]
    rw [← hsame] at hrun
    obtain ⟨server, hr, ha⟩ := after_of_run hrun
    exact inv_of_moved h (moved_dial h hr) ha
  | connected x address =>
    obtain ⟨⟨hdialed, hlive⟩, hrun⟩ := run_of_ite hstep
    obtain ⟨server, hr, ha⟩ := after_of_run hrun
    exact inv_of_moved h (moved_connected h hdialed hlive hr) ha
  | accept x =>
    obtain ⟨⟨hdialed, hlive⟩, hrun⟩ := run_of_ite hstep
    obtain ⟨server, hr, ha⟩ := after_of_run hrun
    exact inv_of_moved h (moved_accept h hdialed hlive hr) ha
  | started x ok =>
    obtain ⟨⟨hlive, hstarted, hok⟩, hrun⟩ := run_of_ite hstep
    obtain ⟨server, hr, ha⟩ := after_of_run hrun
    exact inv_of_moved h (moved_started h hlive hstarted hok hr) ha
  | deliver x c count =>
    obtain ⟨⟨hlive, htold, hpos, hcount⟩, hrun⟩ := run_of_ite hstep
    obtain ⟨server, hr, ha⟩ := after_of_run hrun
    exact inv_of_moved h (moved_deliver h hlive htold hpos hcount rfl hr) ha
  | close x c =>
    obtain ⟨⟨hlive, htold, hcut⟩, hrun⟩ := run_of_ite hstep
    obtain ⟨server, hr, ha⟩ := after_of_run hrun
    exact inv_of_moved h (moved_close h hlive htold hcut hr) ha

theorem inv_initial {servers : Side → Server} (h : p.Strangers servers) :
    p.Inv (initial servers) where
  tracks x :=
    { stands := fun c => .absent rfl rfl rfl ((h x).2 c)
      node := by
        rw [preferred, if_neg (not_heardAll_nil rfl), if_neg fun hlarge => not_heardAll_nil rfl hlarge.1]
        exact (h x).1
      kept := rfl
      spared := not_mem_nil
      spent := fun hmem => absurd hmem not_mem_nil }
  quiet _ _ _ _ := rfl
  spoken _ _ _ hspeaks := absurd hspeaks.1 false_ne_true
  closed _ _ htold := absurd htold false_ne_true
  dialed _ _ hlive := absurd hlive false_ne_true

theorem dialed_of_heard (h : p.Inv s) (hall : p.heardAll x (s.ends x c)) : s.dialed c = true := by
  apply h.dialed x c
  cases (h.tracks x).stands c with
  | absent _ _ hheard _ => exact absurd hall (not_heardAll_nil hheard)
  | gone hl | known hl | replaced hl => exact hl

/-- **The connection that stays is never shut down.** -/
theorem not_cut_of_chosen (h : p.Inv s) (hc : p.chosen s c) : ¬ p.cut s c := by
  intro hcut
  obtain rfl := eq_of_cut h hcut
  obtain ⟨y, hmem⟩ := hcut
  have hdialed := dialed_of_heard h ((h.tracks y).spent hmem).1
  have hlt := hc.2
  rw [Side.other_other] at hlt
  exact Nat.lt_asymm p.small_lt (hlt hdialed)

/-- When everything has been delivered, both ends of the connection that stays have heard the
hello. -/
theorem heardAll_of_settled (h : p.Inv s) (hsettled : p.Settled s) (hc : p.chosen s c) (x : Side) :
    p.heardAll x (s.ends x c) ∧ (s.ends x c).told = false := by
  have hcut := not_cut_of_chosen h hc
  have htold : (s.ends x c).told = false :=
    eq_false_iff.mpr fun htold => hcut (h.closed x c htold)
  obtain ⟨hlive, hstarted, -, -⟩ := hsettled c hc.1 x.other
  have hspeaks : speaks x.other c (s.ends x.other c) := by
    refine ⟨hlive, ?_⟩
    by_cases hx : x.other = c
    · exact .inl hx
    · exact .inr (hstarted hx)
  have hbytes := (h.spoken x c htold hspeaks).resolve_right fun hlost => hcut hlost.1
  rw [bytes, (hsettled c hc.1 x).2.2.1, append_nil] at hbytes
  exact ⟨hbytes, htold⟩

theorem lookup_of_settled (h : p.Inv s) (hsettled : p.Settled s) (hc : p.chosen s c) (x : Side) :
    (s.server x).nodes.lookup (p.id x.other) = some (p.sock x c) := by
  obtain ⟨hall, htold⟩ := heardAll_of_settled h hsettled hc x
  rw [(h.tracks x).node, preferred]
  obtain rfl | rfl := p.small.eq_or c
  · rw [if_pos hall]
  · have hnot : ¬ p.heardAll x (s.ends x p.small) := by
      intro hsmall
      have hlt := hc.2
      rw [Side.other_other] at hlt
      exact Nat.lt_asymm p.small_lt (hlt (dialed_of_heard h hsmall))
    rw [if_neg hnot, if_pos ⟨hall, htold⟩]

/-- **Agreement after simultaneous connects**: in every run of two nodes that are strangers at
first, the connection that stays — the smaller node's, or the only one — has never been shut down by
either node, and once all hellos and closes have been delivered both nodes use it for each other. -/
theorem connections_agree (p : Pair) (servers : Side → Server) (hstrangers : p.Strangers servers)
    (run : List Action) (s : System)
    (hrun : Interleave.exec p.act run (initial servers) = some s) (c : Side) (hc : p.chosen s c) :
    (∀ x, p.sock x c ∉ s.shut x) ∧
      (p.Settled s → ∀ x, (s.server x).nodes.lookup (p.id x.other) = some (p.sock x c)) := by
  have hreach : Interleave.Reachable (fun a b => ∃ action, p.act action a = some b)
      (initial servers) s :=
    Interleave.Reachable.of_run hrun
  have hinv : p.Inv s := hreach.invariant (inv_initial hstrangers)
    fun _ _ ha ⟨_, hstep⟩ => inv_act ha hstep
  refine ⟨fun x hmem => not_cut_of_chosen hinv hc ⟨x, hmem⟩, fun hsettled x => ?_⟩
  exact lookup_of_settled hinv hsettled hc x

def sampleConfig (side : Side) : Config where
  nodeId := match side with
    | .left => ⟨1, by decide⟩
    | .right => ⟨2, by decide⟩
  advertise := none
  seeds := []
  seeds_nodup := List.nodup_nil
  seeds_other := fun _ hmem => absurd hmem List.not_mem_nil
  maxFrameLen := 64
  codec := plainCodec
  handlers := fun _ _ => none

/-- Nodes 1 and 2; at both of them the connection node 1 dials has number 1. -/
def sample : Pair where
  config := sampleConfig
  distinct := by decide
  sock _ c := match c with
    | .left => 1
    | .right => 2
  sock_ne _ := by decide
  greeting x :=
    let body := plainCodec.encode (hello (sampleConfig x))
    toBeBytes body.length ++ body
  greets x y := by cases x <;> cases y <;> rfl

/-- Both nodes dial each other; node 2 hears the hello on its own connection first, node 1 on its
own; then the other hellos arrive, and both nodes are told that node 2's connection is closed. -/
def crossing : List Action :=
  [.dial .left "b", .dial .right "a", .connected .left "b", .connected .right "a", .accept .right,
    .accept .left, .started .right true, .started .left true, .deliver .right .right 19,
    .deliver .left .left 7, .deliver .left .left 13, .deliver .left .right 20,
    .deliver .right .left 19, .close .left .right, .close .right .right]

theorem agree_of_crossing : ∃ s, Interleave.exec sample.act crossing (initial fun _ => .empty) = some s ∧
    sample.Settled s ∧ (∀ x, sample.sock x .left ∉ s.shut x) ∧
    ∀ x, (s.server x).nodes.lookup (sample.id x.other) = some (sample.sock x .left) := by
  have hend : ((exec sample.act crossing (initial fun _ => .empty)).any fun s =>
      sample.Settled s ∧ sample.chosen s .left) = true := by
    decide +kernel
  obtain ⟨s, hrun, hs⟩ := (any_eq_true _ _).mp hend
  obtain ⟨hsettled, hchosen⟩ := of_decide_eq_true hs
  have hstrangers : sample.Strangers fun _ => .empty := fun _ => ⟨rfl, fun _ => rfl⟩
  have hagree := connections_agree sample _ hstrangers crossing s hrun .left hchosen
  exact ⟨s, hrun, hsettled, hagree.1, hagree.2 hsettled⟩

end Pair

end Rskynet.Cluster
