import Rskynet.Service.Steps

/-!
# Where the messages of a service are

A message is in the backlog of a service that is not initialised, in the hands of the thread that
works on it, or settled: a request when it is dispatched or answered by an error in cleanup, any
other message when it is taken.
-/

namespace Rskynet.Service

open Rskynet.Task (TaskId)
open Multiset

/-! ### Where requests are -/

def requests (ms : Multiset Message) : Multiset Message := ms.filter fun m => m.isRequest = true

theorem requests_add (a b : Multiset Message) : requests (a + b) = requests a + requests b :=
  filter_add _ _ _

theorem requests_zero : requests 0 = 0 := filter_zero _

theorem requests_coe (l : List Message) :
    requests (l : Multiset Message) = ((l.filter Message.isRequest : List Message) : Multiset Message) := by
  unfold requests
  simp

theorem count_requests {ms : Multiset Message} {r : Message} (h : r.isRequest = true) :
    (requests ms).count r = ms.count r :=
  count_filter_of_pos h

def Core.backlog (k : Core) : Multiset Message := (k.pending.getD [] : List Message)

def Core.settled (k : Core) : Multiset Message :=
  (k.dispatched : Multiset Message) + (k.failed : Multiset Message)

def WorkPoint.hand : WorkPoint → Multiset Message
  | .handle m => {m}
  | .dispatching m => {m}
  | .panicked m => {m}
  | _ => 0

def RunPoint.hand : RunPoint → Multiset Message
  | .work p => p.hand
  | _ => 0

def inHold : Held → Multiset Message
  | .clearStreak m => {m}
  | .lenSub m => {m}
  | .loadThreshold m _ => {m}
  | .storeOverload m _ _ => {m}
  | .storeThreshold m _ => {m}
  | .took (.message m) => {m}
  | .drainQueue left => (left : Multiset Message)
  | .drainLen left m => (left : Multiset Message) + {m}
  | .drained left => (left : Multiset Message)
  | _ => 0

/-- The messages in the hands of `cleanup`: what it drained and has not answered. -/
def CleanPoint.hand (hold : Held) : CleanPoint → Multiset Message
  | .pending => 0
  | .init => 0
  | _ => inHold hold

def inCall : Delivery → Multiset Message
  | .lenAdd m => {m}
  | .queuePush m => {m}
  | _ => 0

def toStart : Option Delivery → Multiset Message
  | none => 0
  | some q => inCall q

def Inner.hand : Inner → Multiset Message
  | .grabbed m => {m}
  | _ => 0

/-- A message that is being dispatched is not an answer to a session. -/
def WorkPoint.sane : WorkPoint → Prop
  | .dispatching m => m.toSession = false
  | _ => True

def RunPoint.sane : RunPoint → Prop
  | .work p => p.sane
  | _ => True

theorem not_request_of_reply {m : Message} (h : m.toSession = true) :
    m.isRequest = false := by
  rw [Message.toSession, Bool.and_eq_true] at h
  simp [Message.isRequest, h.1]

theorem requestOf_toList {m : Message} (h : m.toSession = false) :
    ((requestOf m).toList : Multiset Message) = requests {m} := by
  have hiff : (m.session != 0 && m.source != 0) = m.isRequest := by
    unfold Message.isRequest Message.needsReply
    cases hs : m.session != 0 <;> cases hr : m.isReply <;> simp_all [Message.toSession]
  unfold requestOf requests
  rw [hiff, filter_singleton]
  cases m.isRequest <;> simp

/-! ### No step loses or doubles a request -/

section Balance

variable {k k' : Core} {hold hold' : Held} {key : ℕ} {outcome : Outcome}
  {yields : Bool} {task : Option TaskId}

theorem workStep_balance {p p' : WorkPoint} (hs : workStep k key outcome p = some (k', p', task))
    (hp : p.sane) :
    requests (k'.backlog + p'.hand) + k'.settled = requests (k.backlog + p.hand) + k.settled ∧
      k'.accepted = k.accepted ∧ p'.sane := by
  cases workStep_moved hs with
  | reply m hm =>
    refine ⟨?_, rfl, trivial⟩
    have hnone : requests {m} = 0 := by
      simp [requests, filter_singleton, not_request_of_reply hm]
    show requests (k.backlog + 0) + k.settled = requests (k.backlog + {m}) + k.settled
    rw [requests_add, requests_add, hnone, requests_zero]
  | postpone m queue hm hlife hpending =>
    refine ⟨?_, rfl, trivial⟩
    have hback : Core.backlog { k with pending := some (queue ++ [m]) } = k.backlog + {m} := by
      simp [Core.backlog, hpending, ← coe_add]
    rw [hback]
    simp [WorkPoint.hand, Core.settled]
  | dispatch m hm => exact ⟨rfl, rfl, hm⟩
  | install m =>
    refine ⟨?_, rfl, trivial⟩
    show requests (k.backlog + 0) + (((k.dispatched ++ (requestOf m).toList : List Message) :
      Multiset Message) + (k.failed : Multiset Message)) = requests (k.backlog + {m}) + k.settled
    rw [← coe_add, requestOf_toList hp, requests_add, requests_add, requests_zero,
      Core.settled]
    abel
  | _ => exact ⟨rfl, rfl, trivial⟩

theorem workStep_balance_add {p p' : WorkPoint}
    (hs : workStep k key outcome p = some (k', p', task)) (hp : p.sane) (rest : Multiset Message) :
    requests (k'.backlog + (p'.hand + rest)) + k'.settled
      = requests (k.backlog + (p.hand + rest)) + k.settled := by
  rw [← add_assoc, ← add_assoc, requests_add, requests_add (k.backlog + p.hand),
    add_right_comm, (workStep_balance hs hp).1, add_right_comm]

theorem workPoint_hand (work : Mq.Work Message TaskId) :
    (workPoint work).hand = inHold (.took work) := by
  cases work <;> rfl

theorem RunMoved.balance {p p' : RunPoint}
    (h : RunMoved k hold key outcome yields p k' hold' p' task) (hp : p.sane) :
    requests (k'.backlog + (p'.hand + inHold hold')) + k'.settled
        = requests (k.backlog + (p.hand + inHold hold)) + k.settled ∧
      k'.accepted = k.accepted ∧ p'.sane := by
  cases h with
  | take hlife h =>
    rw [h]
    exact ⟨rfl, rfl, trivial⟩
  | pending m rest h =>
    refine ⟨?_, rfl, trivial⟩
    have hback : k.backlog = Core.backlog { k with pending := some rest } + {m} := by
      simp only [Core.backlog, h, Option.getD_some, ← cons_coe]
      rw [← singleton_add, add_comm]
    rw [hback]
    show requests (_ + ({m} + inHold hold)) + k.settled
      = requests (_ + {m} + (0 + inHold hold)) + k.settled
    rw [zero_add, add_assoc]
  | unpend hnil h =>
    refine ⟨?_, rfl, trivial⟩
    have hback : k.backlog = 0 := by
      rw [Core.backlog, hnil]
      rfl
    rw [h]
    show requests (0 + (0 + 0)) + k.settled = requests (k.backlog + (0 + 0)) + k.settled
    rw [hback]
  | took work h =>
    refine ⟨?_, rfl, by cases work <;> trivial⟩
    rw [h]
    show requests (k.backlog + ((workPoint work).hand + 0)) + k.settled
      = requests (k.backlog + (0 + inHold (.took work))) + k.settled
    rw [workPoint_hand, zero_add, add_zero]
  | work w w' k' task h =>
    obtain ⟨-, hacc, hsane⟩ := workStep_balance h hp
    exact ⟨workStep_balance_add h hp _, hacc, hsane⟩
  | _ => exact ⟨rfl, rfl, trivial⟩

theorem cleanStep_balance {p p' : CleanPoint} (hs : cleanStep k hold p = some (k', hold', p')) :
    requests (k'.backlog + p'.hand hold') + k'.settled
        = requests (k.backlog + p.hand hold) + k.settled ∧
      k'.accepted = k.accepted := by
  cases cleanStep_moved hs with
  | drop hhold =>
    rw [hhold]
    exact ⟨rfl, rfl⟩
  | box left hhold =>
    rw [hhold]
    refine ⟨?_, rfl⟩
    show requests (k.backlog + 0) + ((k.dispatched : Multiset Message)
      + ((k.failed ++ left.filter Message.isRequest : List Message) : Multiset Message))
      = requests (k.backlog + (left : Multiset Message)) + k.settled
    rw [← coe_add, requests_add, requests_add, requests_zero, requests_coe left,
      Core.settled]
    abel
  | pending =>
    refine ⟨?_, rfl⟩
    show requests (0 + 0) + ((k.dispatched : Multiset Message)
      + ((k.failed ++ (k.pending.getD []).filter Message.isRequest : List Message) :
        Multiset Message)) = requests (k.backlog + 0) + k.settled
    rw [← coe_add, Core.backlog, requests_add, requests_add, requests_zero, requests_coe,
      Core.settled]
    abel
  | _ => exact ⟨rfl, rfl⟩

theorem innerStep_balance {owns : Bool} {i i' : Inner} {call : Option Delivery}
    (hs : innerStep k owns i = some (k', i', call)) :
    toStart call + i'.hand = i.hand ∧ k'.accepted = k.accepted ∧ k'.backlog = k.backlog ∧
      k'.settled = k.settled := by
  cases innerStep_moved hs with
  | deliver m => exact ⟨add_zero _, rfl, rfl, rfl⟩
  | _ => exact ⟨rfl, rfl, rfl, rfl⟩

/-- **The rule of the account.**  A step that touches the hands of one thread only, and balances
them against what waits and what is settled, balances the whole. -/
theorem balance_change {ι : Type*} [Fintype ι] {hands hands' : ι → Multiset Message}
    {accepted accepted' waiting waiting' settled settled' extra : Multiset Message} (t : ι)
    (h : requests accepted = requests ((∑ t, hands t) + waiting) + settled)
    (hothers : ∀ t', t' ≠ t → hands' t' = hands t') (hacc : accepted' = accepted + extra)
    (hlocal : requests (hands' t + waiting') + settled'
      = requests (hands t + waiting) + settled + requests extra) :
    requests accepted' = requests ((∑ t, hands' t) + waiting') + settled' := by
  have hsum := congrArg requests (Interleave.sum_change_add t hothers)
  rw [requests_add, requests_add] at hsum
  rw [requests_add, requests_add] at hlocal
  refine add_right_cancel (b := requests (hands t)) ?_
  calc requests accepted' + requests (hands t)
      = requests (∑ t, hands t) + (requests (hands t) + requests waiting + settled
          + requests extra) := by
        rw [hacc, requests_add, h, requests_add]
        abel
    _ = requests (∑ t, hands t) + requests (hands' t) + (requests waiting' + settled') := by
        rw [← hlocal]
        abel
    _ = requests ((∑ t, hands' t) + waiting') + settled' + requests (hands t) := by
        rw [← hsum, requests_add]
        abel

end Balance

/-! ### Operations on the mailbox -/

section Box

variable {b b' : Box} {e e' : ℕ} {hold hold' : Held}
  {call call' : Delivery}

theorem coe_snoc (l : List Message) (m : Message) :
    ((l ++ [m] : List Message) : Multiset Message) = (l : Multiset Message) + {m} :=
  (coe_add l [m]).symm

theorem coe_queue {q rest : List Message} {m : Message} (h : q = m :: rest) :
    (q : Multiset Message) = {m} + (rest : Multiset Message) := by
  rw [h, ← cons_coe, singleton_add]

theorem inCall_notifyNext (pushed : Bool) (s : Mq.BoxState) :
    inCall (Mq.notifyNext pushed s) = 0 := by
  cases s <;> rfl

theorem callStep_hand (hs : Mq.callStep b e call = some (b', e', call')) :
    inCall call' + (b'.queue : Multiset Message) = inCall call + (b.queue : Multiset Message) := by
  cases call with
  | idle => cases hs
  | queuePush m =>
    cases hs
    show 0 + ((b.queue ++ [m] : List Message) : Multiset Message) = {m} + _
    rw [coe_snoc, zero_add, add_comm]
  | notifyLoad pushed =>
    cases hs
    rw [inCall_notifyNext]
    rfl
  | casIdle | casRunning =>
    simp only [Mq.callStep] at hs
    split at hs
    · cases hs
      rfl
    · cases hs
      rw [inCall_notifyNext]
      rfl
  | lenAdd | readyPush | pushMark | pushInsert =>
    cases hs
    rfl

theorem callFail_hand (hs : Mq.callFail b call = some call') : inCall call' = inCall call := by
  cases call <;> simp only [Mq.callFail] at hs <;>
    first
      | (obtain rfl := Option.some.inj hs; exact inCall_notifyNext _ _)
      | cases hs

theorem holdStep_inHold (hs : Mq.holdStep b e hold = some (b', e', hold')) :
    inHold hold' + (b'.queue : Multiset Message) = inHold hold + (b.queue : Multiset Message) := by
  cases hold with
  | takeBurst | takeQueue =>
    simp only [Mq.holdStep] at hs
    split at hs
    · cases hs
      rfl
    · next hq =>
      cases hs
      exact (coe_queue hq).symm.trans (zero_add _).symm
  | drainQueue left =>
    simp only [Mq.holdStep] at hs
    split at hs
    · cases hs
      rfl
    · next m rest hq =>
      cases hs
      show (left : Multiset Message) + {m} + (rest : Multiset Message)
        = (left : Multiset Message) + (b.queue : Multiset Message)
      rw [coe_queue hq, add_assoc]
  | drainLen left m =>
    cases hs
    rfl
  | _ =>
    simp only [Mq.holdStep] at hs
    first
      | (obtain ⟨rfl, -, rfl⟩ := hs; rfl)
      | ((repeat' split at hs) <;> obtain ⟨rfl, -, rfl⟩ := hs <;> rfl)

end Box

end Rskynet.Service
