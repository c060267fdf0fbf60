import Rskynet.Http.Desk

/-!
# Where a reader is in its story

* `Change.told` — **PROVED**: a change moves a reader along its story, unless it cancels the
  exchange before the end has been told;
* `Told.response`, … — **PROVED**: so do the commands of a reader that asks one thing at a time.
-/

namespace Rskynet.Http

open Cells Relation Interleave List Option Bool

variable {U : Ureq}

/-- What the exchange of a complete response still has for its reader is the rest of `x`. -/
structure Received.Knows (r : Received U) (x : U.Response × List Bytes)
    (told : List (Answer U)) : Prop where
  ended : r.bodyEnded = true
  decoded : r.decoded = x.2
  unread : r.responseTaken = false → r.response = some x.1
  read : r.responseTaken = true → told.head? = some (.response x.1)

/-- **Where a reader is** that has sent `n` commands; `now` is the response, once it is complete. -/
inductive Told (now : Option (U.Response × List Bytes)) (n : ℕ) (d : Desk U) : Prop where
  | unused (hnow : now = none) (hx : d.exchange = none) (hheard : d.heard = [])
      (hreaders : d.readers = []) (hn : n = 0)
  | broken (hnow : now = none) (e : Exchange U) (hx : d.exchange = some e)
      (herror : e.error.isSome = true) (hends : NoneEnds (d.heard ++ d.owed))
  | reading (e : Exchange U) (hx : d.exchange = some e) (herror : e.error = none)
      (htally : e.received.Tally d.heard d.owed n)
      (hnow : ∀ x ∈ now, e.received.Knows x (d.heard ++ d.owed))
  | ending (e : Exchange U) (head : U.Response) (hx : d.exchange = some e) (herror : e.error = none)
      (hended : e.bodyEnded = true) (htaken : e.responseTaken = true)
      (howed : d.owed = [.chunk none]) (htold : d.heard ++ [.chunk none] = story head e.decoded)
      (hnow : ∀ x ∈ now, x = (head, e.decoded)) (hn : n = d.heard.length + 1)
  | finished (head : U.Response) (decoded : List Bytes)
      (hx : ∀ e ∈ d.exchange, e.error = none ∧ e.bodyEnded = true ∧ e.responseTaken = true
        ∧ e.decoded = decoded)
      (howed : d.owed = []) (htold : d.heard = story head decoded)
      (hnow : ∀ x ∈ now, x = (head, decoded)) (hn : n = d.heard.length)

/-! ### One change -/

variable {now : Option (U.Response × List Bytes)} {n : ℕ} {d : Desk U} {e e' : Exchange U}

namespace Told

theorem congr {d' : Desk U} (h : Told now n d) (hexchange : d'.exchange = d.exchange)
    (hheard : d'.heard = d.heard) (howed : d'.owed = d.owed)
    (hreaders : d.readers = [] → d'.readers = []) : Told now n d' := by
  cases h with
  | unused hnow hx hnone hr hn =>
    exact .unused hnow (hexchange.trans hx) (hheard.trans hnone) (hreaders hr) hn
  | broken hnow e hx herror hends =>
    exact .broken hnow e (hexchange.trans hx) herror (by rwa [hheard, howed])
  | reading e hx herror htally hnow =>
    rw [← hheard, ← howed] at htally hnow
    exact .reading e (hexchange.trans hx) herror htally hnow
  | ending e head hx herror hended htaken hend htold hnow hn =>
    rw [← hheard] at htold hn
    exact .ending e head (hexchange.trans hx) herror hended htaken (howed.trans hend) htold hnow hn
  | finished head decoded hx hend htold hnow hn =>
    rw [← hexchange] at hx
    exact .finished head decoded hx (howed.trans hend) (hheard.trans htold) hnow (hheard ▸ hn)

theorem update (h : Told now n d) (he : d.exchange = some e) (hr : e'.received = e.received)
    (herr : e'.error = e.error) : Told now n { d with exchange := some e' } := by
  have hdecoded : e'.decoded = e.decoded := congrArg Received.decoded hr
  have hended : e'.bodyEnded = e.bodyEnded := congrArg Received.bodyEnded hr
  have htaken : e'.responseTaken = e.responseTaken := congrArg Received.responseTaken hr
  cases h with
  | unused _ hx => cases hx.symm.trans he
  | broken hnow e₀ hx herror hends =>
    cases hx.symm.trans he
    exact .broken hnow e' rfl (by rw [herr]; exact herror) hends
  | reading e₀ hx herror htally hnow =>
    cases hx.symm.trans he
    refine .reading e' rfl (herr.trans herror) ?_ ?_
    · rw [hr]
      exact htally
    · rw [hr]
      exact hnow
  | ending e₀ head hx herror hend ht howed htold hnow hn =>
    cases hx.symm.trans he
    refine .ending e' head rfl (herr.trans herror) (hended.trans hend) (htaken.trans ht) howed ?_ ?_ hn
    · rw [hdecoded]
      exact htold
    · rw [hdecoded]
      exact hnow
  | finished head decoded hx howed htold hnow hn =>
    refine .finished head decoded ?_ howed htold hnow hn
    intro e₀ he₀
    cases he₀
    obtain ⟨herror, hend, ht, hsame⟩ := hx e he
    exact ⟨herr.trans herror, hended.trans hend, htaken.trans ht, hdecoded.trans hsame⟩

theorem fail (h : Told now n d) (he : d.exchange = some e) (hopen : e.bodyEnded = false)
    (herr : e'.error.isSome = true) : Told now n { d with exchange := some e' } := by
  cases h with
  | unused _ hx => cases hx.symm.trans he
  | broken hnow e₀ hx herror hends => exact .broken hnow e' rfl herr hends
  | reading e₀ hx herror htally hnow =>
    cases hx.symm.trans he
    refine .broken ?_ e' rfl herr htally.accounts.noneEnds
    cases hcase : now with
    | none => rfl
    | some x => cases hopen.symm.trans (hnow x hcase).ended
  | ending e₀ head hx herror hend =>
    cases hx.symm.trans he
    cases hopen.symm.trans hend
  | finished head decoded hx => cases hopen.symm.trans (hx e he).2.1

end Told

theorem Told.of_end (h : Told now n d) (hend : d.heard.any Answer.isEnd = true) :
    ∃ head decoded,
      (∀ e ∈ d.exchange, e.error = none ∧ e.bodyEnded = true ∧ e.responseTaken = true
        ∧ e.decoded = decoded)
      ∧ d.owed = [] ∧ d.heard = story head decoded ∧ (∀ x ∈ now, x = (head, decoded))
      ∧ n = d.heard.length := by
  obtain ⟨a, ha, haend⟩ := any_eq_true.mp hend
  have hnot : ∀ rest, ¬ NoneEnds (d.heard ++ rest) := by
    intro rest hnone
    cases (hnone a (mem_append_left rest ha)).symm.trans haend
  cases h with
  | unused _ _ hheard =>
    rw [hheard] at ha
    cases ha
  | broken _ _ _ _ hends => exact absurd hends (hnot _)
  | reading _ _ _ htally => exact absurd htally.accounts.noneEnds (hnot _)
  | ending e head _ _ _ _ _ htold =>
    have hheard : d.heard = .response head :: e.decoded.map piece :=
      append_cancel_right htold
    rw [hheard] at ha
    cases (noneEnds_pieces head e.decoded a ha).symm.trans haend
  | finished head decoded hx howed htold hnow hn => exact ⟨head, decoded, hx, howed, htold, hnow, hn⟩

theorem tally_fresh (transport : TransportId) (origin : Origin) (proto : Proto U) (spec : BodySpec) :
    (Exchange.fresh transport origin proto spec).received.Tally [] [] 0 :=
  Received.tally_of_idle (.silent rfl rfl rfl) rfl (by simp) nofun

theorem Told.drive {id rounds : ℕ} {v : View U} {e₁ : Exchange U} {d : Driven U}
    {pause : Option TransportId} {config : HttpClientConfig} (h : Told now n (v.desk id))
    (he : v.exchanges id = some e) (hsane : e.Sane) (hfed : Fed e e₁)
    (hd : driveExchange config rounds id e₁ = some (d, pause)) :
    Told now n ((d.replies.foldl View.reply (v.set id (some d.exchange))).desk id) := by
  have he' : (v.desk id).exchange = some e := he
  rw [desk_replyAll, desk_set_self]
  cases hended : e.bodyEnded with
  | true =>
    cases herror : e.error with
    | none =>
      obtain ⟨hreceived, hnone, hreplies⟩ := drive_ended hsane hended herror hfed hd
      rw [hreplies, show answersTo id ([] : List (Reply U)) = [] from rfl, append_nil]
      exact h.update he' hreceived (hnone.trans herror.symm)
    | some reason =>
      have hsome : e₁.error.isSome = true := by rw [hfed.received.1, herror]; rfl
      have herror' := error_driveExchange hsome hd
      cases h with
      | unused _ hx => cases hx.symm.trans he'
      | broken hnow e₀ hx _ hends =>
        exact .broken hnow _ rfl herror' (hends.insert (noneEnds_driveExchange herror' hd))
      | reading e₀ hx hnone | ending e₀ head hx hnone =>
        cases hx.symm.trans he'; cases hnone.symm.trans herror
      | finished head decoded hx => cases (hx e he').1.symm.trans herror
  | false =>
    cases h with
    | unused _ hx => cases hx.symm.trans he'
    | broken hnow e₀ hx herror hends =>
      cases hx.symm.trans he'
      have hsome : e₁.error.isSome = true := by rw [hfed.received.1]; exact herror
      have herror' := error_driveExchange hsome hd
      exact .broken hnow _ rfl herror' (hends.insert (noneEnds_driveExchange herror' hd))
    | reading e₀ hx herror htally hnow =>
      cases hx.symm.trans he'
      have hnone : now = none := by
        cases hcase : now with
        | none => rfl
        | some x => cases hended.symm.trans (hnow x hcase).ended
      subst hnone
      have htally₁ : e₁.received.Tally (v.desk id).heard (v.desk id).owed n := by
        rcases hfed.received.2 with hsame | ⟨-, hclose⟩
        · rw [hsame]
          exact htally
        · rw [hclose]
          exact ⟨htally.accounts.congr rfl rfl rfl, ⟨htally.waits.response, htally.waits.body,
            htally.waits.single, htally.waits.noEnd⟩, htally.count⟩
      cases hcase : d.exchange.error with
      | some reason =>
        have hsome : d.exchange.error.isSome = true := by rw [hcase]; rfl
        exact .broken rfl _ rfl hsome
          (htally.accounts.noneEnds.insert (noneEnds_driveExchange hsome hd))
      | none =>
        rcases tally_drive htally₁ hd hcase with htally' | hall
        · exact .reading d.exchange rfl hcase htally' nofun
        · obtain ⟨head, hstory⟩ := hall.all
          have hsane' := sane_driveExchange (hfed.parsed hsane) hd
          have hidle : d.exchange.received.waiting = 0 := by
            have hresponse : d.exchange.received.responseWaiter = none :=
              (hsane'.head (.inr hall.ended)).1
            have hbody : d.exchange.received.bodyWaiter = none := hsane'.waiter hall.ended
            rw [Received.waiting, hresponse, hbody]
            rfl
          refine .finished head _ ?_ hall.none_owed hstory nofun ?_
          · intro e₀ he₀
            cases he₀
            exact ⟨hcase, hall.ended, hall.taken, rfl⟩
          · rw [hall.count, hidle]
            rfl
    | ending e₀ head hx _ hend => cases hx.symm.trans he'; cases hended.symm.trans hend
    | finished head decoded hx => cases hended.symm.trans (hx e he').2.1

theorem Told.cancel {id : ℕ} {v : View U} (h : Told now n (v.desk id))
    (hend : (v.desk id).heard.any Answer.isEnd = true) (he : v.exchanges id = some e)
    (hsane : e.Sane) : Told now n ((v.canceled id e).desk id) := by
  obtain ⟨head, decoded, hx, howed, htold, hnow, hn⟩ := h.of_end hend
  obtain ⟨-, hended, -⟩ := hx e he
  have hresponse : e.responseWaiter = none := (hsane.head (.inr hended)).1
  have hbody : e.bodyWaiter = none := hsane.waiter hended
  rw [desk_canceled_idle v hresponse hbody]
  refine .finished head decoded ?_ howed htold hnow hn
  intro e' he'
  cases he'

/-- **One change** moves a reader along its story. -/
theorem Change.told {c : Client U} {turn : Turn U} {v v' : View U} {id : ℕ}
    (h : Change (causes c turn) v v')
    (hsane : v.Every Exchange.Sane)
    (hkept : Cancels c id turn.action → (v.desk id).heard.any Answer.isEnd = true)
    (hfresh : (causes c turn).starts id →
      (v.desk id).heard = [] ∧ (v.desk id).readers = [] ∧ n = 0 ∧ now = none)
    (hv : Told now n (v.desk id)) : Told now n (v'.desk id) := by
  cases h with
  | answered r hr =>
    rw [desk_reply_other v]
    · exact hv
    · intro heq
      cases hasked : r.asked <;> simp [hasked, Asked.isSide, Asked.reader] at hr heq
  | suspended task ht =>
    rw [desk_suspend, reader_of_not_resuming ht, toList_none, append_nil]
    exact hv
  | inserted other transport origin proto spec hproto hk =>
    by_cases hid : other = id
    · subst hid
      obtain ⟨hheard, hreaders, rfl, rfl⟩ := hfresh hk
      rw [desk_insert_self]
      refine .reading _ rfl rfl ?_ (by rintro _ ⟨⟩)
      rw [show ({ v.desk other with exchange := _ } : Desk U).heard = [] from hheard]
      rw [show ({ v.desk other with exchange := _ } : Desk U).owed = [] by
        unfold Desk.owed
        rw [show ({ v.desk other with exchange := _ } : Desk U).readers = [] from hreaders]
        rfl]
      exact tally_fresh transport origin proto spec
    · rw [desk_insert_other v _ hid]
      exact hv
  | canceled other e he hd =>
    by_cases hid : other = id
    · subst hid
      exact hv.cancel (hkept hd) he (hsane other e he)
    · rw [desk_canceled_other v e hid]
      exact hv
  | touched other e e' he ht =>
    by_cases hid : other = id
    · subst hid
      obtain ⟨hreceived, herror⟩ := ht.requested.reading
      rw [desk_set_self]
      rcases herror with hsame | ⟨hsome, hawait⟩
      · exact hv.update he hreceived hsame
      · apply hv.fail he _ hsome
        cases hended : e.bodyEnded with
        | false => rfl
        | true =>
          have hdone := (hsane other e he).done hended
          cases hproto : e.proto with
          | none => rw [hproto] at hawait; cases hawait
          | some proto =>
            rw [hproto] at hawait hdone
            cases proto <;> simp [Proto.isDone, Proto.isAwait100] at hawait hdone
    · rw [desk_set_other _ _ hid]
      exact hv
  | lost other e he hl =>
    by_cases hid : other = id
    · subst hid
      rw [desk_set_self]
      exact hv.update he rfl rfl
    · rw [desk_set_other _ _ hid]
      exact hv
  | driven other rounds e e₁ d pause he hfed hd hk =>
    by_cases hid : other = id
    · subst hid
      exact hv.drive he (hsane other e he) hfed hd
    · rw [desk_replyAll, answersTo_own (own_driveExchange hd) hid, append_nil,
        desk_set_other _ _ hid]
      exact hv
  | expired other e e' asked pending session body error he hx hd =>
    have hid : other ≠ id := by
      rintro rfl
      -- a reader that has heard the end is not parked
      obtain ⟨head, decoded, hover, -⟩ := hv.of_end (hkept hd)
      obtain ⟨-, hended, -⟩ := hover e he
      have hsane' := hsane other e he
      have hnone : (e.expire other session body).2 = none := by
        unfold Exchange.expire
        rw [hsane'.waiter hended, (hsane'.head (.inr hended)).1]
        simp
      rw [hx] at hnone
      cases hnone
    rw [desk_reply_other, desk_set_other _ _ hid]
    · exact hv
    · rw [reader_expire hx]
      exact fun heq => hid (some.inj heq)

/-! ### The commands of the reader -/

theorem Desk.idle (h : d.outstanding = 0) (he : d.exchange = some e) :
    d.owed = [] ∧ e.received.waiting = 0 := by
  unfold Desk.outstanding at h
  rw [he] at h
  exact ⟨eq_nil_of_length_eq_zero (Nat.eq_zero_of_add_eq_zero_right h),
    Nat.eq_zero_of_add_eq_zero_left h⟩

/-- **A `Response` command**: the reader waits for nothing and has not got the head. -/
theorem Told.response {pending : Pending} (h : Told now n d) (he : d.exchange = some e)
    (htaken : e.responseTaken = false) (hsession : pending.session ≠ 0)
    (hidle : d.outstanding = 0) :
    Told now (n + 1)
      { d with
        exchange := some (e.takeResponse pending).1
        heard := d.heard ++ (e.takeResponse pending).2.toList } := by
  obtain ⟨howed, hwaiting⟩ := Desk.idle hidle he
  cases h with
  | unused _ hx => cases hx.symm.trans he
  | broken hnow e₀ hx herror hends =>
    cases hx.symm.trans he
    obtain ⟨reason, hreason⟩ := isSome_iff_exists.mp herror
    have htake : e.takeResponse pending = (e, some (.failed (.transport reason))) := by
      unfold Exchange.takeResponse
      rw [htaken, hreason]
      rfl
    rw [htake]
    refine .broken hnow e rfl herror (hends.insert ?_)
    intro a ha
    rw [mem_singleton.mp ha]
    rfl
  | reading e₀ hx herror htally hnow =>
    cases hx.symm.trans he
    rw [howed] at htally
    have htally' := tally_takeResponse htally herror hwaiting htaken hsession
    obtain ⟨_, _, _, hshape⟩ := takeResponse_shape e pending
    refine .reading _ rfl ?_ ?_ ?_
    · rw [hshape]
      exact herror
    · show (e.takeResponse pending).1.received.Tally _ d.owed (n + 1)
      rw [howed]
      exact htally'
    · intro x hx'
      have hknows := hnow x hx'
      have hresponse : e.response = some x.1 := hknows.unread htaken
      have htake : e.takeResponse pending
          = ({ e with response := none, responseTaken := true }, some (.response x.1)) := by
        unfold Exchange.takeResponse
        rw [htaken, herror, hresponse]
        rfl
      have hheard : d.heard = [] := by
        cases htally.accounts with
        | silent _ htold => exact (append_eq_nil_iff.mp htold).1
        | begun htaken' => cases htaken.symm.trans htaken'
      rw [htake]
      refine ⟨hknows.ended, hknows.decoded, nofun, fun _ => ?_⟩
      rw [hheard]
      rfl
  | ending e₀ head hx _ _ _ hend =>
    rw [howed] at hend
    cases hend
  | finished head decoded hx => cases htaken.symm.trans (hx e he).2.2.1

def Desk.answered (d : Desk U) (pending : Pending) (taken : Taken U) : Desk U :=
  if taken.resume then
    { d with
      exchange := some taken.exchange
      readers := d.readers ++ [(pending, taken.answer, taken.cleanup.isSome)] }
  else
    { d with
      exchange := if taken.cleanup.isSome then none else some taken.exchange
      heard := d.heard ++ taken.answer.toList }

theorem Desk.owed_append (d : Desk U) (e : Option (Exchange U)) (pending : Pending)
    (answer : Option (Answer U)) (cleanup : Bool) :
    ({ d with exchange := e, readers := d.readers ++ [(pending, answer, cleanup)] } : Desk U).owed
      = d.owed ++ answer.toList := by
  unfold Desk.owed
  rw [filterMap_append]
  cases answer <;> rfl

theorem told_answered {pending : Pending} {taken : Taken U} (howed : d.owed = [])
    (hclean : taken.cleanup.isSome = false) (herror : taken.exchange.error = none)
    (htold : taken.exchange.received.Tally (d.heard ++ taken.answer.toList) [] n)
    (howing : taken.exchange.received.Tally d.heard taken.answer.toList n)
    (hnow : ∀ x ∈ now, taken.exchange.received.Knows x (d.heard ++ taken.answer.toList)) :
    Told now n (d.answered pending taken) := by
  unfold Desk.answered
  split
  · refine .reading taken.exchange rfl herror ?_ ?_
    · rw [Desk.owed_append, howed]
      exact howing
    · rw [Desk.owed_append, howed]
      exact hnow
  · refine .reading taken.exchange (by rw [hclean]; rfl) herror ?_ ?_
    · show taken.exchange.received.Tally _ d.owed n
      rw [howed]
      exact htold
    · show ∀ x ∈ now, taken.exchange.received.Knows x ((d.heard ++ taken.answer.toList) ++ d.owed)
      rw [howed, append_nil]
      exact hnow

/-- **A `Next` command**: the reader waits for nothing, has got the head, and has not heard the
end. -/
theorem Told.next {pending : Pending} (config : HttpClientConfig) (h : Told now n d)
    (he : d.exchange = some e) (htaken : e.responseTaken = true) (hsession : pending.session ≠ 0)
    (hidle : d.outstanding = 0) (hends : d.heard.any Answer.isEnd = false) :
    Told now (n + 1) (d.answered pending (e.next config pending)) := by
  obtain ⟨howed, hwaiting⟩ := Desk.idle hidle he
  obtain ⟨hr, hanswer, herr, hcleanup⟩ := next_reading config e pending
  have hkeep : (e.next config pending).answer.any Answer.isEnd = false →
      (e.next config pending).cleanup.isSome = false := by
    intro hnot
    apply eq_false_of_not_eq_true
    intro hsome
    rw [hcleanup hsome] at hnot
    cases hnot
  cases h with
  | unused _ hx => cases hx.symm.trans he
  | broken hnow e₀ hx herror hnone =>
    cases hx.symm.trans he
    have hnoEnd : (e.next config pending).answer.any Answer.isEnd = false := by
      rw [hanswer]
      by_contra hend
      have hatEnd := atEnd_of_takeNext (by simpa using hend)
      obtain ⟨reason, hreason⟩ := isSome_iff_exists.mp herror
      simp [Exchange.atEnd, hreason] at hatEnd
    have hlist : NoneEnds (e.next config pending).answer.toList := by
      intro a ha
      have hsome : (e.next config pending).answer = some a := by simpa using ha
      rw [hsome] at hnoEnd
      exact hnoEnd
    have hsome : (e.next config pending).exchange.error.isSome = true := by
      rw [herr]
      exact herror
    unfold Desk.answered
    split
    · refine .broken hnow _ rfl hsome ?_
      rw [Desk.owed_append, howed, nil_append]
      rw [howed, append_nil] at hnone
      exact hnone.append hlist
    · exact .broken hnow _ (by rw [hkeep hnoEnd]; rfl) hsome (hnone.insert hlist)
  | reading e₀ hx herror htally hnow =>
    cases hx.symm.trans he
    rw [howed] at htally hnow
    have hcount : n = d.heard.length := by
      rw [htally.count, hwaiting]
      rfl
    have htake := nextTaken_takeNext htally herror hwaiting htaken hsession
    rw [← hr, ← hanswer] at htake
    rw [herror] at herr
    generalize e.next config pending = taken at htake herr hkeep ⊢
    obtain ⟨e', answer, resume, cleanup⟩ := taken
    cases htake with
    | chunk chunk rest hr haccounts =>
      have hidle' : e'.received.waiting = 0 := by
        rw [hr]
        exact hwaiting
      refine told_answered howed (hkeep rfl) herr ?_ ?_ ?_
      · rw [hcount]
        have htally' : e'.received.Tally (d.heard ++ [piece chunk]) []
            ((d.heard ++ [piece chunk]).length + 0) := by
          refine Received.tally_of_idle ?_ hidle' (by simp) (by rintro _ ⟨⟩)
          rw [append_nil]
          exact haccounts
        simpa using htally'
      · rw [hcount]
        refine Received.tally_of_idle haccounts hidle' (by simp) ?_
        intro a ha
        rw [mem_singleton.mp ha]
        rfl
      · intro x hx'
        have hknows := hnow x hx'
        rw [hr]
        refine ⟨hknows.ended, hknows.decoded, hknows.unread, fun _ => ?_⟩
        have hhead := hknows.read htaken
        rw [append_nil] at hhead
        rw [head?_append, hhead]
        rfl
    | ended hended hr head hhead hstory =>
      have hdecoded : e'.decoded = e.decoded := congrArg Received.decoded hr
      have hended' : e'.bodyEnded = true := (congrArg Received.bodyEnded hr).trans hended
      have htaken' : e'.responseTaken = true := (congrArg Received.responseTaken hr).trans htaken
      have hnow' : ∀ x ∈ now, x = (head, e.decoded) := by
        intro x hx'
        have hread := (hnow x hx').read htaken
        rw [append_nil, hhead] at hread
        have hsame : head = x.1 := by
          cases some.inj hread
          rfl
        rw [hsame]
        exact Prod.ext rfl (hnow x hx').decoded.symm
      unfold Desk.answered
      cases resume with
      | true =>
        rw [if_pos rfl]
        refine .ending e' head rfl herr hended' htaken' ?_ ?_ ?_ ?_
        · rw [Desk.owed_append, howed]
          rfl
        · rw [hdecoded]
          exact hstory
        · rw [hdecoded]
          exact hnow'
        · rw [hcount]
      | false =>
        rw [if_neg (by rintro ⟨⟩)]
        refine .finished head e.decoded ?_ howed hstory hnow' ?_
        · intro e₀ he₀
          split at he₀
          · cases he₀
          · cases he₀
            exact ⟨herr, hended', htaken', hdecoded⟩
        · rw [hcount]
          simp
    | parked hopen htally' =>
      refine told_answered howed (hkeep rfl) herr ?_ ?_ ?_
      · rw [hcount]
        simpa using htally'
      · rw [hcount]
        exact htally'
      · intro x hx'
        cases hopen.symm.trans (hnow x hx').ended
  | ending e₀ head hx _ _ _ hend =>
    rw [howed] at hend
    cases hend
  | finished head decoded hx _ htold =>
    rw [htold] at hends
    simp [story, Answer.isEnd] at hends

/-- **The end of a `Next` command after a resume.** -/
theorem Told.resumed {pending : Pending} {answer : Option (Answer U)} {cleanup : Bool}
    {before after : List (Pending × Option (Answer U) × Bool)} (h : Told now n d)
    (hreaders : d.readers = before ++ [(pending, answer, cleanup)] ++ after)
    (hclean : cleanup = true → answer.any Answer.isEnd = true) :
    Told now n ⟨if cleanup then none else d.exchange, d.heard ++ answer.toList, before ++ after⟩ := by
  have howed : d.owed = before.filterMap (fun x => x.2.1) ++ answer.toList
      ++ after.filterMap fun x => x.2.1 := by
    unfold Desk.owed
    rw [hreaders, filterMap_append, filterMap_append]
    cases answer <;> rfl
  have howed' : ∀ e heard, (⟨e, heard, before ++ after⟩ : Desk U).owed
      = before.filterMap (fun x => x.2.1) ++ after.filterMap fun x => x.2.1 :=
    fun _ _ => filterMap_append
  cases answer with
  | none =>
    have hfalse : cleanup = false := eq_false_of_not_eq_true fun htrue => by cases hclean htrue
    subst hfalse
    refine h.congr rfl (append_nil _) ?_ fun hnone => ?_
    · rw [howed', howed, toList_none, append_nil]
    · rw [hreaders] at hnone
      simp at hnone
  | some a =>
    have hfalse : a.isEnd = false → cleanup = false := by
      intro hnot
      apply eq_false_of_not_eq_true
      intro htrue
      cases hnot.symm.trans (hclean htrue)
    cases h with
    | unused _ _ _ hnone =>
      rw [hreaders] at hnone
      simp at hnone
    | broken hnow e hx herror hends =>
      rw [howed] at hends
      rw [hfalse (hends a (by simp))]
      refine .broken hnow e hx herror ?_
      rw [howed']
      intro b hb
      apply hends b
      simp only [mem_append] at hb ⊢
      tauto
    | reading e hx herror htally hnow =>
      -- the reader waits for one answer only, so nothing else is owed
      have hsingle := htally.waits.single
      rw [howed] at hsingle htally hnow
      simp only [toList_some, length_append, length_singleton] at hsingle
      have hbefore : before.filterMap (fun x => x.2.1) = [] :=
        eq_nil_of_length_eq_zero (by omega)
      have hafter : after.filterMap (fun x => x.2.1) = [] :=
        eq_nil_of_length_eq_zero (by omega)
      rw [hbefore, hafter] at htally hnow
      have hidle : e.received.waiting = 0 := by
        have hresponse : e.received.responseWaiter = none := by
          cases hw : e.received.responseWaiter with
          | none => rfl
          | some p => cases (htally.waits.response p hw).2.2.2
        have hbody : e.received.bodyWaiter = none := by
          cases hw : e.received.bodyWaiter with
          | none => rfl
          | some p => cases (htally.waits.body p hw).2.2
        rw [Received.waiting, hresponse, hbody]
        rfl
      have hcount : n = (d.heard ++ [a]).length + 0 := by
        rw [htally.count, hidle]
        simp
      rw [hfalse (htally.waits.noEnd a (by simp))]
      refine .reading e hx herror ?_ ?_
      · rw [howed', hbefore, hafter, hcount]
        refine Received.tally_of_idle ?_ hidle (by simp) (by rintro _ ⟨⟩)
        rw [append_nil, append_nil]
        exact htally.accounts
      · rw [howed', hbefore, hafter]
        rw [append_nil, append_nil]
        exact hnow
    | ending e head hx herror hended htaken hend htold hnow hn =>
      rw [howed] at hend
      have hsplit : before.filterMap (fun x => x.2.1) = [] ∧ a = .chunk none
          ∧ after.filterMap (fun x => x.2.1) = [] := by
        cases hb : before.filterMap (fun x => x.2.1) with
        | nil =>
          rw [hb] at hend
          simpa using hend
        | cons b rest =>
          rw [hb] at hend
          simp at hend
      obtain ⟨hbefore, rfl, hafter⟩ := hsplit
      refine .finished head e.decoded ?_ ?_ htold hnow ?_
      · intro e₀ he₀
        split at he₀
        · cases he₀
        · cases hx.symm.trans he₀
          exact ⟨herror, hended, htaken, rfl⟩
      · rw [howed', hbefore, hafter]
        rfl
      · rw [hn]
        simp
    | finished head decoded hx hnone =>
      rw [howed] at hnone
      simp at hnone

end Rskynet.Http
