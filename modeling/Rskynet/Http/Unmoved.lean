import Rskynet.Http.Reading

/-!
# What does not move a reader

* `own_driveExchange` — **PROVED**: driving an exchange answers no other exchange's reader;
* `drive_ended` — **PROVED**: driving an exchange whose body has ended does nothing for its reader;
* `Requested.reading` — **PROVED**: nor does the request side of an exchange.
-/

namespace Rskynet.Http

open Cells Relation Interleave List Option

variable {U : Ureq}
variable {replies : List (Reply U)} {e : Exchange U} {d : Driven U}
variable {id : ℕ} {config : HttpClientConfig} {pause : Option TransportId}

/-! ### Other readers -/

def Own (id : ℕ) (replies : List (Reply U)) : Prop :=
  ∀ r ∈ replies, r.asked.reader = none ∨ r.asked.reader = some id

theorem Own.append {replies' : List (Reply U)} (h : Own id replies) (h' : Own id replies') :
    Own id (replies ++ replies') :=
  forall_mem_append.mpr ⟨h, h'⟩

theorem own_singleton {r : Reply U} (h : r.asked.reader = some id) : Own id [r] :=
  forall_mem_singleton.mpr (.inr h)

theorem Turned.own {r r' : Received U} (h : Turned id r r' replies) : Own id replies := by
  cases h with
  | same _ hother => exact fun x hx => .inl (hother x hx)
  | parsed | decoded => nofun
  | taken => exact own_singleton rfl

theorem Answered.own {e' : Exchange U} (h : Answered id e e' replies) : Own id replies := by
  cases h with
  | silent => nofun
  | told => exact own_singleton rfl

theorem own_driveExchange {rounds : ℕ} (hd : driveExchange config rounds id e = some (d, pause)) :
    Own id d.replies := by
  obtain ⟨d', hd', hcloses⟩ := driveExchange_closes hd
  have hloop : Own id d'.replies := driveLoop_rule (P := fun _ replies => Own id replies)
    (fun _ _ _ ht hown => hown.append ht.turned.own) nofun hd'
  cases hcloses with
  | quiet e' next paused h => exact hloop.append h.own
  | failed e' next paused reason waiting h =>
    exact (hloop.append h.own).append (own_singleton rfl)

theorem answersTo_own {other : ℕ} (h : Own other replies) (hne : other ≠ id) :
    answersTo id replies = [] := by
  apply answersTo_of_other
  intro r hr heq
  rcases h r hr with hnone | hsome
  · rw [hnone] at heq
    cases heq
  · rw [hsome] at heq
    exact hne (some.inj heq)

/-! ### Exchanges with an error -/

theorem Turns.error {round : Round U} (ht : Turns id e round) (h : e.error.isSome = true) :
    round.exchange.error.isSome = true := by
  have honward : ∀ {e e' : Exchange U}, Onward e e' → e.error.isSome = true →
      e'.error.isSome = true := by
    intro e e' ho he
    cases ho <;> exact he
  cases ht with
  | idle | waits | rejected => exact h
  | fails => rfl
  | parsed _ _ _ _ _ _ ho | taken _ _ _ _ _ _ _ ho => exact honward ho h
  | decoded _ _ _ _ _ _ ho hround =>
    rcases hround with rfl | rfl
    · exact honward ho h
    · exact honward ho h

theorem error_driveExchange {rounds : ℕ} (h : e.error.isSome = true)
    (hd : driveExchange config rounds id e = some (d, pause)) : d.exchange.error.isSome = true := by
  obtain ⟨d', hd', hcloses⟩ := driveExchange_closes hd
  rw [hcloses.error]
  exact driveLoop_keeps (P := fun e : Exchange U => e.error.isSome = true)
    (fun _ _ ht he => ht.error he) h hd'

theorem NoneEnds.append {answers answers' : List (Answer U)} (h : NoneEnds answers)
    (h' : NoneEnds answers') : NoneEnds (answers ++ answers') :=
  forall_mem_append.mpr ⟨h, h'⟩

theorem NoneEnds.insert {answers new answers' : List (Answer U)}
    (h : NoneEnds (answers ++ answers')) (hnew : NoneEnds new) :
    NoneEnds (answers ++ new ++ answers') := by
  obtain ⟨hfirst, hlast⟩ := forall_mem_append.mp h
  exact NoneEnds.append (NoneEnds.append hfirst hnew) hlast

theorem noneEnds_pieces (head : U.Response) (chunks : List Bytes) :
    NoneEnds (.response head :: chunks.map piece) :=
  forall_mem_cons.mpr ⟨rfl, forall_mem_map.mpr fun _ _ => rfl⟩

theorem Received.Accounts.noneEnds {r : Received U} {told : List (Answer U)}
    (h : r.Accounts told) : NoneEnds told := by
  cases h with
  | silent _ htold =>
    rw [htold]
    nofun
  | begun _ head read htold =>
    rw [htold]
    exact noneEnds_pieces head read

theorem noneEnds_answersTo (h : ∀ r ∈ replies, r.asked.reader = some id → r.answer.isEnd = false) :
    NoneEnds (answersTo id replies) := by
  intro a ha
  obtain ⟨r, hr, rfl⟩ := mem_map.mp ha
  obtain ⟨hmem, hreader⟩ := mem_filter.mp hr
  exact h r hmem (of_decide_eq_true hreader).1

theorem Turned.noneEnds {r r' : Received U} (h : Turned id r r' replies) :
    NoneEnds (answersTo id replies) := by
  apply noneEnds_answersTo
  intro x hx hreader
  cases h with
  | same _ hother =>
    rw [hother x hx] at hreader
    cases hreader
  | parsed | decoded => cases hx
  | taken =>
    rw [mem_singleton.mp hx]
    rfl

theorem Answered.noneEnds {e' : Exchange U} (h : Answered id e e' replies)
    (herror : e.error.isSome = true) :
    NoneEnds (answersTo id replies) := by
  cases h with
  | silent => nofun
  | told waiting answer rest hwaiter hanswer =>
    apply noneEnds_answersTo
    intro r hr _
    rw [mem_singleton.mp hr]
    by_contra hend
    have hatEnd := atEnd_of_bodyAnswer (e := e) (by rw [hanswer]) (by simpa using hend)
    obtain ⟨reason, hreason⟩ := isSome_iff_exists.mp herror
    simp [Exchange.atEnd, hreason] at hatEnd

theorem noneEnds_driveExchange {rounds : ℕ} (herror : d.exchange.error.isSome = true)
    (hd : driveExchange config rounds id e = some (d, pause)) :
    NoneEnds (answersTo id d.replies) := by
  obtain ⟨d', hd', hcloses⟩ := driveExchange_closes hd
  rw [hcloses.error] at herror
  have hloop : NoneEnds (answersTo id d'.replies) := by
    refine driveLoop_rule (P := fun _ replies => NoneEnds (answersTo id replies)) ?_
      nofun hd'
    intro _ replies round ht hends
    rw [answersTo_append]
    exact hends.append ht.turned.noneEnds
  cases hcloses with
  | quiet e' next paused h =>
    rw [answersTo_append]
    exact hloop.append (h.noneEnds herror)
  | failed e' next paused reason waiting h =>
    rw [answersTo_append, answersTo_append]
    apply (hloop.append (h.noneEnds herror)).append
    apply noneEnds_answersTo
    intro r hr _
    rw [mem_singleton.mp hr]
    rfl

/-! ### Exchanges that have ended -/

theorem Fed.received {e' : Exchange U} (h : Fed e e') :
    e'.error = e.error ∧ (e'.received = e.received
      ∨ (endsWithClose e = true ∧ e'.received = { e.received with bodyEnded := true })) := by
  cases h with
  | same | data => exact ⟨rfl, .inl rfl⟩
  | close hclose => exact ⟨rfl, .inr ⟨hclose, rfl⟩⟩

/-- **Driving an exchange whose body has ended changes nothing for its reader.** -/
theorem drive_ended {rounds : ℕ} {e₁ : Exchange U} (hsane : e.Sane) (hended : e.bodyEnded = true)
    (herror : e.error = none) (hfed : Fed e e₁)
    (hd : driveExchange config rounds id e₁ = some (d, pause)) :
    d.exchange.received = e.received ∧ d.exchange.error = none ∧ d.replies = [] := by
  have hdone : e.proto.all Proto.isDone = true := hsane.done hended
  have hidle : e₁.received = e.received ∧ e₁.proto.all Proto.isDone = true := by
    cases hfed with
    | same | data => exact ⟨rfl, hdone⟩
    | close hclose =>
      unfold endsWithClose at hclose
      split at hclose
      · rename_i call hproto
        rw [hproto] at hdone
        cases hdone
      · cases hclose
  obtain ⟨hreceived, hdone₁⟩ := hidle
  have herror₁ : e₁.error = none := hfed.received.1.trans herror
  have hwaiter : e₁.bodyWaiter = none :=
    (congrArg Received.bodyWaiter hreceived).trans (hsane.waiter hended)
  obtain ⟨d', hd', hcloses⟩ := driveExchange_closes hd
  have hloop : d' = ⟨e₁, [], none⟩ := by
    cases rounds with
    | zero => cases hd'
    | succ rounds =>
      unfold driveLoop driveRound at hd'
      cases hproto : e₁.proto with
      | none =>
        rw [hproto] at hd'
        exact (some.inj hd').symm
      | some proto =>
        rw [hproto] at hd' hdone₁
        cases proto with
        | done => exact (some.inj hd').symm
        | sendBody | await100 | recvResponse | recvBody => cases hdone₁
  subst hloop
  obtain ⟨e', next, hanswered, hsettled, hreplies⟩ := hcloses.answered herror₁
  cases hanswered with
  | silent => exact ⟨hsettled.trans hreceived, hcloses.error.trans herror₁, hreplies⟩
  | told waiting answer rest hsome => cases hwaiter.symm.trans hsome

/-! ### The request side -/

/-- The request side of an exchange is not the reader's concern, apart from an error while the
exchange waits for `100 Continue`. -/
theorem Requested.reading {e' : Exchange U} (h : Requested e e') :
    e'.received = e.received ∧ (e'.error = e.error
      ∨ (e'.error.isSome = true ∧ e.proto.any Proto.isAwait100 = true)) := by
  cases h with
  | idle | moves => exact ⟨rfl, .inl rfl⟩
  | fails call reason hproto => exact ⟨rfl, .inr ⟨rfl, by rw [hproto]; rfl⟩⟩

end Rskynet.Http
