import Rskynet.Http.Release

/-!
# What an exchange has received

* `sane_act` — **PROVED**: every step keeps the exchanges sane.
-/

namespace Rskynet.Http

open Cells Relation Interleave List

variable {U : Ureq}
variable {e : Exchange U}

def Proto.isDone : Proto U → Bool
  | .done => true
  | _ => false

/-- What the loop over received bytes keeps. -/
structure Exchange.Parsed (e : Exchange U) : Prop where
  head : e.proto.any Proto.pastHead = true ∨ e.bodyEnded = true →
    e.responseWaiter = none ∧ (e.response.isSome = true ∨ e.responseTaken = true)
  done : e.bodyEnded = true → e.proto.all Proto.isDone = true
  suffix : e.chunks <:+ e.decoded

structure Exchange.Sane (e : Exchange U) : Prop extends e.Parsed where
  waiter : e.bodyEnded = true → e.bodyWaiter = none

/-! ### Before the head -/

theorem Exchange.Parsed.open_body (h : e.Parsed) {proto : Proto U} (hproto : e.proto = some proto)
    (hdone : proto.isDone = false) : e.bodyEnded = false := by
  cases hended : e.bodyEnded with
  | false => rfl
  | true =>
    have := h.done hended
    rw [hproto] at this
    exact absurd this (by simp [hdone])

theorem parsed_of_open (hended : e.bodyEnded = false) (hproto : e.proto.any Proto.pastHead = false)
    (hsuffix : e.chunks <:+ e.decoded) :
    e.Parsed where
  head := by
    rintro (h | h)
    · rw [hproto] at h
      cases h
    · rw [hended] at h
      cases h
  done := by
    intro h
    rw [hended] at h
    cases h
  suffix := hsuffix

theorem sane_of_open (hended : e.bodyEnded = false) (hproto : e.proto.any Proto.pastHead = false)
    (hsuffix : e.chunks <:+ e.decoded) : e.Sane where
  toParsed := parsed_of_open hended hproto hsuffix
  waiter := by
    intro h
    rw [hended] at h
    cases h

theorem sane_lost (h : e.Sane) : ({ e with proto := none } : Exchange U).Sane where
  head := by
    rintro (hproto | hended)
    · cases hproto
    · exact h.head (.inr hended)
  done := fun _ => rfl
  suffix := h.suffix
  waiter := h.waiter

theorem Requested.sane {e' : Exchange U} (hr : Requested e e') (h : e.Sane) : e'.Sane := by
  cases hr with
  | idle => exact ⟨⟨h.head, h.done, h.suffix⟩, h.waiter⟩
  | moves proto proto' _ _ _ hproto hbefore hbefore' =>
    refine sane_of_open (h.open_body hproto ?_) hbefore' h.suffix
    cases proto with
    | sendBody | await100 | recvResponse => rfl
    | recvBody | done => cases hbefore
  | fails call reason hproto =>
    exact sane_of_open (h.open_body hproto rfl) rfl h.suffix

/-! ### The loop -/

theorem Fed.parsed {e' : Exchange U} (hf : Fed e e') (h : e.Sane) : e'.Parsed := by
  cases hf with
  | same => exact h.toParsed
  | data bytes => exact ⟨h.head, h.done, h.suffix⟩
  | close hclose =>
    have hpast : e.proto.any Proto.pastHead = true := by
      unfold endsWithClose at hclose
      split at hclose
      · rename_i call hproto
        rw [hproto]
        rfl
      · cases hclose
    exact ⟨fun _ => h.head (.inl hpast), fun _ => rfl, h.suffix⟩

theorem Onward.parsed {e' : Exchange U} (h : Onward e e')
    (hhead : e.responseWaiter = none ∧ (e.response.isSome = true ∨ e.responseTaken = true))
    (hopen : e.bodyEnded = false) (hsuffix : e.chunks <:+ e.decoded) : e'.Parsed := by
  cases h with
  | body call =>
    refine ⟨fun _ => hhead, ?_, hsuffix⟩
    intro hended
    cases hopen.symm.trans hended
  | finished reusable => exact ⟨fun _ => hhead, fun _ => rfl, hsuffix⟩

theorem Turns.parsed_after {id : ℕ} {round : Round U} (ht : Turns id e round) (h : e.Parsed) :
    round.exchange.Parsed := by
  cases ht with
  | idle => exact h
  | waits proto proto' _ _ _ hproto hbefore hbefore' =>
    refine parsed_of_open (h.open_body hproto ?_) hbefore' h.suffix
    cases proto with
    | sendBody | await100 | recvResponse => rfl
    | recvBody | done => cases hbefore
  | rejected _ _ _ hproto => exact parsed_of_open (h.open_body hproto rfl) rfl h.suffix
  | fails proto _ _ hproto hgoing =>
    refine parsed_of_open (h.open_body hproto ?_) rfl h.suffix
    cases proto with
    | done => exact absurd rfl hgoing
    | sendBody | await100 | recvResponse | recvBody => rfl
  | parsed _ _ _ _ hproto hwaiter honward =>
    exact honward.parsed ⟨hwaiter, .inl rfl⟩ (h.open_body hproto rfl) h.suffix
  | taken _ _ _ _ _ hproto _ honward =>
    exact honward.parsed ⟨rfl, .inr rfl⟩ (h.open_body hproto rfl) h.suffix
  | decoded _ _ more _ _ hproto honward hround =>
    have hpast : e.proto.any Proto.pastHead = true := by
      rw [hproto]
      rfl
    have hsuffix : (e.chunks ++ more) <:+ (e.decoded ++ more) := by
      obtain ⟨taken, htaken⟩ := h.suffix
      exact ⟨taken, by rw [← append_assoc, htaken]⟩
    have hparsed := honward.parsed (h.head (.inl hpast)) (h.open_body hproto rfl) hsuffix
    rcases hround with rfl | rfl
    · exact hparsed
    · exact hparsed

/-! ### The end of the loop -/

theorem suffix_of_bodyAnswer (h : e.chunks <:+ e.decoded) :
    (bodyAnswer e).2 <:+ e.decoded := by
  unfold bodyAnswer
  split
  · rename_i chunk rest hchunks
    rw [hchunks] at h
    exact (suffix_cons chunk rest).trans h
  · split
    · exact nil_suffix
    · split
      · exact nil_suffix
      · exact nil_suffix

theorem bodyAnswer_isSome (h : e.bodyEnded = true) :
    (bodyAnswer e).1.isSome = true := by
  unfold bodyAnswer
  split
  · rfl
  · split
    · rfl
    · rw [if_pos h]
      rfl

theorem Answered.sane {id : ℕ} {e' : Exchange U} {replies : List (Reply U)}
    (ha : Answered id e e' replies) (h : e.Parsed) : e'.Sane := by
  cases ha with
  | silent hnone =>
    refine ⟨h, fun hended => ?_⟩
    rcases hnone with hwaiter | hanswer
    · exact hwaiter
    · exact absurd hanswer (Option.isSome_iff_ne_none.mp (bodyAnswer_isSome hended))
  | told waiting answer rest hwaiter hanswer =>
    have hsuffix := suffix_of_bodyAnswer h.suffix
    rw [hanswer] at hsuffix
    exact ⟨⟨h.head, h.done, hsuffix⟩, fun _ => rfl⟩

theorem sane_driveExchange {config : HttpClientConfig} {rounds id : ℕ} {d : Driven U}
    {pause : Option TransportId} (h : e.Parsed)
    (hd : driveExchange config rounds id e = some (d, pause)) : d.exchange.Sane := by
  obtain ⟨d', hd', hcloses⟩ := driveExchange_closes hd
  have hparsed := driveLoop_keeps (fun _ _ ht he => ht.parsed_after he) h hd'
  cases hcloses with
  | quiet e' next paused hanswered =>
    have hsane := hanswered.sane hparsed
    exact ⟨⟨hsane.head, hsane.done, hsane.suffix⟩, hsane.waiter⟩
  | failed e' next paused reason waiting hanswered =>
    have hsane := hanswered.sane hparsed
    exact ⟨⟨fun hor => ⟨rfl, (hsane.head hor).2⟩, hsane.done, hsane.suffix⟩, hsane.waiter⟩

/-! ### The response side -/

theorem sane_takeResponse (h : e.Sane) (pending : Pending) :
    (e.takeResponse pending).1.Sane := by
  unfold Exchange.takeResponse
  split
  · exact h
  · rename_i htaken
    split
    · exact h
    · split
      · exact ⟨⟨fun hor => ⟨(h.head hor).1, .inr rfl⟩, h.done, h.suffix⟩, h.waiter⟩
      · rename_i hnone
        split
        · exact h
        · refine ⟨⟨fun hor => ?_, h.done, h.suffix⟩, h.waiter⟩
          rcases (h.head hor).2 with hsome | hsome
          · rw [hnone] at hsome
            cases hsome
          · exact absurd hsome htaken

theorem sane_expire (h : e.Sane) (id session : ℕ) (body : Bool) :
    (e.expire id session body).1.Sane := by
  obtain ⟨waiter, parked, hshape, hwaiter, hparked⟩ := expire_shape e id session body
  rw [hshape]
  refine ⟨⟨fun hor => ⟨?_, (h.head hor).2⟩, h.done, h.suffix⟩, fun hended => ?_⟩
  · rcases hparked with hnone | hsame
    · exact hnone
    · exact hsame.trans (h.head hor).1
  · rcases hwaiter with hnone | hsame
    · exact hnone
    · exact hsame.trans (h.waiter hended)

theorem sane_takeNext (h : e.Sane) (pending : Pending) :
    (e.takeNext pending).1.Sane := by
  unfold Exchange.takeNext
  split
  · rename_i answer rest hanswer
    have hsuffix := suffix_of_bodyAnswer h.suffix
    rw [hanswer] at hsuffix
    exact ⟨⟨h.head, h.done, hsuffix⟩, h.waiter⟩
  · rename_i rest hanswer
    split
    · exact h
    · refine ⟨⟨h.head, h.done, h.suffix⟩, fun hended => ?_⟩
      have hsome : (bodyAnswer e).1.isSome = true := bodyAnswer_isSome hended
      rw [hanswer] at hsome
      cases hsome

theorem sane_next (config : HttpClientConfig) (h : e.Sane) (pending : Pending) :
    (e.next config pending).exchange.Sane := by
  have htake := sane_takeNext h pending
  obtain ⟨-, _, hnext⟩ := next_shape config e pending
  split at hnext
  · rw [hnext.1]
    exact ⟨⟨htake.head, htake.done, htake.suffix⟩, htake.waiter⟩
  · rw [hnext.1]
    exact ⟨⟨htake.head, htake.done, htake.suffix⟩, htake.waiter⟩

/-! ### Runs -/

theorem sane_act {turn : Turn U} {s s' : Service U}
    (hs : s.world.data.view.Every Exchange.Sane) (h : act turn s = some s') :
    s'.world.data.view.Every Exchange.Sane := by
  refine every_act h ?_ ?_ ?_ ?_ ?_ ?_ ?_ hs
  · intro transport origin proto spec hproto
    exact sane_of_open rfl (by simpa [Exchange.fresh] using hproto) (suffix_refl [])
  · intro _ e e' ht _ he
    exact ht.requested.sane he
  · intro id e _ _ he
    exact sane_lost he
  · intro config rounds id e e₁ d pause hfed hd _ he
    exact sane_driveExchange (hfed.parsed he) hd
  · intro e pending he
    exact sane_takeResponse he pending
  · intro e id session body he
    exact sane_expire he id session body
  · intro config e pending he
    exact sane_next config he pending

end Rskynet.Http
