import Rskynet.Http.Protocol

/-!
# The callers of a failed exchange

An exchange that has failed stays in the table until it is cancelled. No command parks at it any
more, and the loop over the received bytes answers the readers that were parked when it failed. Two
failures of the wait for `100 Continue` leave somebody behind: the loop leaves a parked body write,
and the timer leaves the parked readers.

* `failed_exchange_deserted` — **PROVED**: in every run whose steps strand nobody, nobody is parked at
  a failed exchange.
-/

namespace Rskynet.Http

open Interleave Option Bool

variable {U : Ureq} {e e' : Exchange U} {d : Driven U} {id rounds : ℕ} {config : HttpClientConfig}
  {pause : Option TransportId}

/-! ### What is kept -/

/-- A body write is parked only while the exchange waits for `100 Continue`, and an exchange that
has failed has no protocol state. -/
def Exchange.Stopped (e : Exchange U) : Prop :=
  (e.writeWaiter.isSome = true → e.proto.any Proto.isAwait100 = true)
    ∧ (e.error.isSome = true → e.proto = none)

def Exchange.Heard (e : Exchange U) : Prop :=
  e.error.isSome = true → e.responseWaiter = none ∧ e.bodyWaiter = none

def Exchange.Attended (e : Exchange U) : Prop := e.Stopped ∧ e.Heard

theorem stopped_of_none (hwaiter : e.writeWaiter = none) (herror : e.error = none) : e.Stopped := by
  constructor
  · intro hparked
    rw [hwaiter] at hparked
    cases hparked
  · intro hfailed
    rw [herror] at hfailed
    cases hfailed

theorem heard_of_none (herror : e.error = none) : e.Heard := by
  intro hfailed
  rw [herror] at hfailed
  cases hfailed

namespace Exchange.Stopped

variable {proto : Proto U} (h : e.Stopped)
include h

theorem error_none (hproto : e.proto = some proto) : e.error = none := by
  rw [← not_isSome_iff_eq_none]
  intro herror
  rw [h.2 herror] at hproto
  cases hproto

theorem writeWaiter_none (hproto : e.proto.any Proto.isAwait100 = false) :
    e.writeWaiter = none := by
  rw [← not_isSome_iff_eq_none]
  intro hwaiter
  rw [h.1 hwaiter] at hproto
  cases hproto

theorem going (hproto : e.proto = some proto) (hawait : proto.isAwait100 = false)
    (hwaiter : e'.writeWaiter = e.writeWaiter) (herror : e'.error = e.error) : e'.Stopped := by
  refine stopped_of_none (hwaiter.trans (h.writeWaiter_none ?_))
    (herror.trans (h.error_none hproto))
  rw [hproto]
  exact hawait

theorem lost (hproto : e.proto.any Proto.isAwait100 = false) :
    Stopped { e with proto := none } :=
  ⟨fun hwaiter => absurd (h.1 hwaiter) (ne_true_of_eq_false hproto), fun _ => rfl⟩

end Exchange.Stopped

/-- **The request side**: only the wait for `100 Continue` parks a write, and whatever ends the wait
takes the write with it. -/
theorem Requested.stopped (hr : Requested e e') (h : e.Stopped) : e'.Stopped := by
  cases hr with
  | idle waiter finished written hwaiter =>
    refine ⟨fun hparked => ?_, h.2⟩
    rcases hwaiter with rfl | hawait
    · exact h.1 hparked
    · exact hawait
  | moves proto proto' waiter finished written hproto _ _ hwaiter =>
    rcases hwaiter with rfl | ⟨rfl, hawait⟩
    · exact stopped_of_none rfl (h.error_none hproto)
    · exact h.going hproto hawait rfl rfl
  | fails => exact ⟨nofun, fun _ => rfl⟩

theorem Exchange.Stopped.stopWaiting100 (h : e.Stopped) : e.stopWaiting100.1.Stopped := by
  rcases stopWaiting100_cases e with hmoved | ⟨hother, hlost⟩
  · exact hmoved.stopped h
  · rw [hlost]
    exact h.lost hother

/-! ### The loop -/

theorem Onward.stopped (ho : Onward e e') (hwaiter : e.writeWaiter = none)
    (herror : e.error = none) : e'.Stopped ∧ e'.writeWaiter = none := by
  cases ho with
  | body | finished => exact ⟨stopped_of_none hwaiter herror, hwaiter⟩

def Round.Unparked : Round U → Prop
  | .stop _ _ => True
  | .again e _ => e.writeWaiter = none

/-- **One turn of the loop**: a parked write stays only with the wait, unless the bytes fail the
wait. -/
theorem Turns.stopped {round : Round U} (ht : Turns id e round) (h : e.Stopped)
    (hrefuses : e.writeWaiter.isSome = true → e.refuses = false) :
    round.exchange.Stopped ∧ round.Unparked := by
  cases ht with
  | idle => exact ⟨h, trivial⟩
  | waits proto proto' input waiter job hproto _ _ _ hwaiter =>
    refine ⟨?_, trivial⟩
    have herror := h.error_none hproto
    rcases hwaiter with rfl | ⟨rfl, hsame⟩
    · exact stopped_of_none rfl herror
    · refine ⟨fun hparked => ?_, fun hfailed => ?_⟩
      · have hawait := h.1 hparked
        rw [hproto, any_some, ← hsame] at hawait
        exact hawait
      · rw [show e.error = none from herror] at hfailed
        cases hfailed
  | rejected call call' input hproto =>
    exact ⟨stopped_of_none rfl (h.error_none hproto), rfl⟩
  | fails proto input reason hproto _ hrefused =>
    refine ⟨⟨fun hparked => ?_, fun _ => rfl⟩, trivial⟩
    have hawait := h.1 hparked
    rw [hproto] at hawait
    exact absurd (hrefused hawait) (ne_true_of_eq_false (hrefuses hparked))
  | parsed call input head e' hproto _ ho | taken call input head _ e' hproto _ ho =>
    exact ho.stopped (h.writeWaiter_none (by rw [hproto]; rfl)) (h.error_none hproto)
  | decoded call input more e' _ hproto ho hround =>
    have hdone := ho.stopped (h.writeWaiter_none (by rw [hproto]; rfl)) (h.error_none hproto)
    rcases hround with rfl | rfl
    · exact ⟨hdone.1, trivial⟩
    · exact hdone

theorem stopped_driveLoop (h : e.Stopped)
    (hrefuses : e.writeWaiter.isSome = true → e.refuses = false)
    (hd : driveLoop config id rounds e = some d) : d.exchange.Stopped := by
  induction rounds generalizing e d with
  | zero => cases hd
  | succ rounds ih =>
    obtain ⟨hstopped, hnone⟩ := (turns_driveRound config id e).stopped h hrefuses
    unfold driveLoop at hd
    split at hd
    · rename_i hstop
      rw [hstop] at hstopped
      cases hd
      exact hstopped
    · rename_i e' replies hagain
      rw [hagain] at hstopped hnone
      obtain ⟨d', hd', rfl⟩ := Option.map_eq_some_iff.mp hd
      apply ih (e := e') hstopped _ hd'
      intro hparked
      rw [show e'.writeWaiter = none from hnone] at hparked
      cases hparked

theorem bodyAnswer_of_error (herror : e.error.isSome = true) : (bodyAnswer e).1.isSome = true := by
  unfold bodyAnswer
  split
  · rfl
  · split
    · rfl
    · rename_i hnone
      rw [hnone] at herror
      cases herror

theorem Answered.bodyWaiter_none {next : List (Reply U)} (ha : Answered id e e' next)
    (herror : e'.error.isSome = true) : e'.bodyWaiter = none := by
  cases ha with
  | silent h =>
    rcases h with hwaiter | hanswer
    · exact hwaiter
    · have hsome := bodyAnswer_of_error herror
      rw [hanswer] at hsome
      cases hsome
  | told => rfl

/-- **What follows the loop** answers the readers of an exchange that has failed. -/
theorem Closes.heard {d' : Driven U} (hc : Closes id d d') : d'.exchange.Heard := by
  intro herror
  cases hc with
  | quiet e' next paused ha hquiet =>
    refine ⟨hquiet.resolve_left fun hnone => ?_, ha.bodyWaiter_none herror⟩
    rw [show e'.error.isSome = _ from congrArg isSome hnone] at herror
    cases herror
  | failed e' next paused reason waiting ha => exact ⟨rfl, ha.bodyWaiter_none herror⟩

theorem attended_driveExchange (h : e.Stopped)
    (hrefuses : e.writeWaiter.isSome = true → e.refuses = false)
    (hd : driveExchange config rounds id e = some (d, pause)) : d.exchange.Attended := by
  obtain ⟨d', hd', hcloses⟩ := driveExchange_closes hd
  refine ⟨?_, hcloses.heard⟩
  obtain ⟨_, _, _, _, hshape⟩ := hcloses.shape
  rw [hshape]
  exact stopped_driveLoop h hrefuses hd'

/-! ### The commands of the readers -/

theorem attended_takeResponse (h : e.Attended) (pending : Pending) :
    (e.takeResponse pending).1.Attended := by
  unfold Exchange.takeResponse
  split
  · exact h
  · split
    · exact h
    · rename_i herror
      split
      · exact h
      · split
        · exact h
        · exact ⟨h.1, heard_of_none herror⟩

theorem attended_takeNext (h : e.Attended) (pending : Pending) :
    (e.takeNext pending).1.Attended := by
  unfold Exchange.takeNext
  split
  · exact h
  · rename_i hanswer
    split
    · exact h
    · refine ⟨h.1, fun herror => ?_⟩
      have hsome := bodyAnswer_of_error (e := e) herror
      rw [hanswer] at hsome
      cases hsome

theorem attended_next (config : HttpClientConfig) (h : e.Attended) (pending : Pending) :
    (e.next config pending).exchange.Attended := by
  obtain ⟨-, _, hnext⟩ := next_shape config e pending
  have htaken := attended_takeNext h pending
  split at hnext
  · rw [hnext.1]
    exact htaken
  · rw [hnext.1]
    exact htaken

theorem attended_expire (h : e.Attended) (id session : ℕ) (body : Bool) :
    (e.expire id session body).1.Attended := by
  unfold Exchange.expire
  split
  · split
    · exact ⟨h.1, fun herror => ⟨(h.2 herror).1, rfl⟩⟩
    · exact h
  · split
    · exact ⟨h.1, fun herror => ⟨rfl, (h.2 herror).2⟩⟩
    · exact h

/-! ### Steps that strand a caller -/

/-- **The step strands a caller**: received bytes fail the wait for `100 Continue` while a body write
is parked, or the timer fails it while a reader is parked. -/
def strands (c : Client U) (action : Action U) : Bool :=
  (fedBy c action).any (fun fed => fed.2.refuses && fed.2.writeWaiter.isSome)
    || (action.continueTarget.bind c.state.exchanges).any fun e =>
      e.givesUp && (e.responseWaiter.isSome || e.bodyWaiter.isSome)

def Attending (s : Service U) (turn : Turn U) : Prop :=
  strands s.world.data turn.action = false

instance (s : Service U) (turn : Turn U) : Decidable (Attending s turn) :=
  inferInstanceAs (Decidable (_ = _))

theorem Requested.readers (hr : Requested e e') :
    e'.responseWaiter = e.responseWaiter ∧ e'.bodyWaiter = e.bodyWaiter
      ∧ (e'.error ≠ e.error → e.givesUp = true) := by
  cases hr with
  | idle | moves => exact ⟨rfl, rfl, absurd rfl⟩
  | fails call reason hproto hgives => exact ⟨rfl, rfl, fun _ => hgives⟩

theorem stopped_fedBy {c : Client U} {action : Action U} (hs : c.view.Every Exchange.Attended)
    (h : fedBy c action = some (id, e)) : e.Stopped := by
  unfold fedBy at h
  split at h
  · obtain ⟨_, -, h⟩ := bind_eq_some_iff.mp h
    obtain ⟨e₀, he₀, h⟩ := Option.map_eq_some_iff.mp h
    cases h
    exact (hs _ e₀ he₀).1
  · obtain ⟨_, -, h⟩ := bind_eq_some_iff.mp h
    obtain ⟨e₀, he₀, h⟩ := bind_eq_some_iff.mp h
    split at h
    · rename_i hclose
      cases h
      have hends := hclose.1
      unfold endsWithClose at hends
      split at hends
      · rename_i call hproto
        exact (hs _ e₀ he₀).1.going hproto rfl rfl rfl
      · cases hends
    · cases h
  · obtain ⟨e₀, he₀, h⟩ := bind_eq_some_iff.mp h
    split at h
    · cases h
      exact (hs _ e₀ he₀).1.stopWaiting100
    · cases h
  · cases h

theorem attended_act {turn : Turn U} {s s' : Service U}
    (hs : s.world.data.view.Every Exchange.Attended) (hattends : Attending s turn)
    (h : act turn s = some s') : s'.world.data.view.Every Exchange.Attended := by
  obtain ⟨hfed, htimer⟩ := or_eq_false_iff.mp hattends
  refine every_act h ?_ ?_ ?_ ?_ ?_ ?_ ?_ hs
  · intro transport origin proto spec _
    exact ⟨stopped_of_none rfl rfl, heard_of_none rfl⟩
  · intro id e e' ht hstops he
    obtain ⟨hresponse, hbody, hgives⟩ := ht.requested.readers
    refine ⟨ht.requested.stopped he.1, fun herror => ?_⟩
    rw [hresponse, hbody]
    by_cases hsame : e'.error = e.error
    · rw [hsame] at herror
      exact he.2 herror
    · obtain ⟨htarget, hfound⟩ := hstops hsame
      rw [htarget, bind_some, hfound, any_some, hgives hsame, Bool.true_and] at htimer
      simpa using htimer
  · intro id e _ hproto he
    refine ⟨he.1.lost ?_, he.2⟩
    cases hcase : e.proto with
    | none => rfl
    | some proto => rwa [hcase] at hproto
  · intro config rounds id e e₁ d pause _ _ hdrives _
    obtain ⟨e₂, pause', hfedBy, hd⟩ := hdrives
    refine attended_driveExchange (stopped_fedBy hs hfedBy) (fun hparked => ?_) hd
    rw [hfedBy, any_some, hparked, Bool.and_true] at hfed
    exact hfed
  · intro e pending he
    exact attended_takeResponse he pending
  · intro e id session body he
    exact attended_expire he id session body
  · intro config e pending he
    exact attended_next config he pending

/-- **Nobody is parked at a failed exchange**, in every run whose steps strand nobody. -/
theorem failed_exchange_deserted (config : HttpClientConfig) (run : List (Turn U)) (s : Service U)
    (hrun : exec act run (initial config) = some s)
    (hattends : along act Attending run (initial config)) :
    ∀ id e, s.world.data.state.exchanges id = some e → e.error.isSome = true →
      e.responseWaiter = none ∧ e.bodyWaiter = none ∧ e.writeWaiter = none := by
  have hinit : (initial (U := U) config).world.data.view.Every Exchange.Attended := by
    intro id e he
    cases he
  have hend := exec_invariant (I := fun s : Service U => s.world.data.view.Every Exchange.Attended)
    (fun turn s s' hs ht h => attended_act hs ht h) run hinit hattends hrun
  intro id e he herror
  obtain ⟨hstopped, hheard⟩ := hend id e he
  refine ⟨(hheard herror).1, (hheard herror).2, hstopped.writeWaiter_none ?_⟩
  rw [hstopped.2 herror]
  rfl

/-! ### A failure of the wait -/

/-- The sample protocol with a server that answers the wait for `100 Continue` with bytes that are
not HTTP. -/
def garbled : Ureq := { sample with tryRead100 := fun _ _ => .error "malformed" }

/-- Exchange 1 waits for `100 Continue`; a command is parked at it, and then the bytes come. -/
def failsWith (command : Command garbled) : List (Turn garbled) :=
  [⟨.command (caller 1) (.start 1 ⟨⟨some .http, some ['h'], none⟩, ⟨none, none⟩, .expects, .chunked⟩), 9⟩,
   ⟨.wake 0 (.connected (.ok (.plain 1))), 9⟩, ⟨.wake 0 (.finished (.ok ())), 9⟩,
   ⟨.command (caller 2) command, 9⟩, ⟨.data (.plain 1) [88], 9⟩]

/-- Who is parked at exchange 1 after its failure: the response, body and write waiters. -/
def parkedAt (s : Service garbled) : Option (Bool × Bool × Bool × Bool) :=
  (s.world.data.state.exchanges 1).map fun e =>
    (e.error.isSome, e.responseWaiter.isSome, e.bodyWaiter.isSome, e.writeWaiter.isSome)

theorem reader_hears_of_bytes : ∃ s e,
    exec act (failsWith (.response 1)) (initial {}) = some s
    ∧ s.world.data.state.exchanges 1 = some e ∧ e.error.isSome = true
    ∧ e.responseWaiter = none ∧ e.bodyWaiter = none ∧ e.writeWaiter = none := by
  have hrun : (exec act (failsWith (.response 1)) (initial {})).map parkedAt
      = some (some (true, false, false, false)) := by decide +kernel
  obtain ⟨s, hs, hparked⟩ := Option.map_eq_some_iff.mp hrun
  obtain ⟨e, he, hflags⟩ := Option.map_eq_some_iff.mp hparked
  have herror : e.error.isSome = true := congrArg Prod.fst hflags
  exact ⟨s, e, hs, he, herror, failed_exchange_deserted {} _ s hs (by decide +kernel) 1 e he herror⟩

/-- **A caller is left behind**: the body write when the bytes fail the wait. -/
theorem caller_left_parked :
    (exec act (failsWith (.write 1 [65])) (initial {})).map parkedAt
      = some (some (true, false, false, true)) := by
  decide +kernel

end Rskynet.Http
