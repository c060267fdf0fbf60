import Rskynet.Lib.Bursts
import Rskynet.Mq.Mailbox

/-!
# Fairness between woken tasks and messages

`take_work` prefers the ready queue, but after `READY_BURST` ready items in a row it looks at the message
queue first. The counter behind that lives in the mailbox and survives the calls, the yields and the times
the service is idle.

* `bounded_step` — **PROVED**: while a message waits, a ready item uses up credit;
* `take_work_fair` — **PROVED**: the bound on ready items in a row and on the wait of a message.
-/

namespace Rskynet.Mq

open Interleave Burst List Option

variable {μ ρ : Type*}
variable {box : Mailbox μ ρ}

/-! ### The taker -/

def Hold.taking : Hold μ ρ → Bool
  | .takeStreak | .takeBurst _ | .takeReady _ | .storeStreak _ _ | .takeQueue | .clearStreak _ | .lenSub _
  | .loadThreshold _ _ | .storeOverload _ _ _ | .storeThreshold _ _ | .takeCas | .takeReset
  | .resetThreshold => true
  | _ => false

/-- A call of `take_work` may begin: the last one is over, or has let go of the service. -/
def Hold.callable : Hold μ ρ → Bool
  | .none | .holding | .took _ | .resetThreshold => true
  | _ => false

def Work.isReady : Work μ ρ → Bool
  | .ready _ => true
  | .message _ => false

def Work.message? : Work μ ρ → Option μ
  | .message m => some m
  | .ready _ => none

def Work.ready? : Work μ ρ → Option ρ
  | .message _ => none
  | .ready r => some r

/-- A mailbox with its worker; `sent` and `woken` are the pushes into the two queues, `results` is what
`take_work` has returned. -/
structure Taker (μ ρ : Type*) where
  box : Mailbox μ ρ
  hold : Hold μ ρ
  sent : List μ
  woken : List ρ
  results : List (Work μ ρ)

def Taker.start (box : Mailbox μ ρ) : Taker μ ρ := ⟨box, .none, [], [], []⟩

inductive TakerAct (μ ρ : Type*) where
  /-- a sender's push into the message queue -/
  | send (message : μ)
  /-- a waker's push into the ready queue -/
  | wake (item : ρ)
  /-- the shared counters and the state byte take other values -/
  | share (len : ℕ) (state : BoxState) (overload threshold : ℕ)
  /-- `take_work` is called -/
  | call
  /-- the next atomic operation of the call -/
  | step

def takerStep : TakerAct μ ρ → Taker μ ρ → Option (Taker μ ρ)
  | .send m, s => some { s with box := { s.box with queue := s.box.queue ++ [m] }, sent := s.sent ++ [m] }
  | .wake r, s => some { s with box := { s.box with ready := s.box.ready ++ [r] }, woken := s.woken ++ [r] }
  | .share len state overload threshold, s =>
      some { s with box := { s.box with
        len := len, state := state, overload := overload, overloadThreshold := threshold } }
  | .call, s => if s.hold.callable then some { s with hold := .takeStreak } else none
  | .step, s =>
      if s.hold.taking then
        (holdStep s.box 0 s.hold).map fun (box, _, hold) =>
          { s with
            box := box
            hold := hold
            results := s.results ++ match hold with
              | .took work => [work]
              | _ => [] }
      else none

/-! ### What one operation does -/

variable {s s' : Taker μ ρ} {a : TakerAct μ ρ}

def Hold.message? : Hold μ ρ → Option μ
  | .clearStreak m => some m
  | .lenSub m => some m
  | .loadThreshold m _ => some m
  | .storeOverload m _ _ => some m
  | .storeThreshold m _ => some m
  | _ => Option.none

def Hold.ready? : Hold μ ρ → Option ρ
  | .storeStreak _ r => some r
  | _ => Option.none

/-- The ready items that may still come before a message does, given that one waits. -/
def credit (streak : ℕ) : Hold μ ρ → ℕ
  | .takeBurst _ => 0
  | .takeReady seen => readyBurst + 1 - min (seen + 1) readyBurst
  | .storeStreak seen _ => readyBurst + 1 - min (seen + 1) readyBurst
  | .takeQueue => 0
  | .clearStreak _ => 0
  | .lenSub _ => 0
  | .loadThreshold _ _ => 0
  | .storeOverload _ _ _ => 0
  | .storeThreshold _ _ => 0
  | _ => readyBurst - streak

inductive Takes (b : Mailbox μ ρ) : Hold μ ρ → Mailbox μ ρ → Hold μ ρ → Prop where
  | popMessage {p : Hold μ ρ} (m : μ) (rest : List μ) (hqueue : b.queue = m :: rest) (hm : p.message? = none)
      (hr : p.ready? = none) : Takes b p { b with queue := rest } (.clearStreak m)
  | popReady (streak : ℕ) (r : ρ) (rest : List ρ) (hready : b.ready = r :: rest) :
      Takes b (.takeReady streak) { b with ready := rest } (.storeStreak streak r)
  | giveReady (streak : ℕ) (r : ρ) :
      Takes b (.storeStreak streak r) { b with readyStreak := min (streak + 1) readyBurst } (.took (.ready r))
  | giveMessage {p : Hold μ ρ} (m : μ) (b' : Mailbox μ ρ) (hm : p.message? = some m) (hr : p.ready? = none)
      (hqueue : b'.queue = b.queue) (hready : b'.ready = b.ready) : Takes b p b' (.took (.message m))
  | pass {p p' : Hold μ ρ} (b' : Mailbox μ ρ) (hqueue : b'.queue = b.queue) (hready : b'.ready = b.ready)
      (hm : p'.message? = p.message?) (hr : p'.ready? = p.ready?) (hnot : ∀ work, p' ≠ .took work)
      (hcredit : b.queue ≠ [] → credit b'.readyStreak p' ≤ credit b.readyStreak p) : Takes b p b' p'

theorem holdStep_takes {b b' : Mailbox μ ρ} {p p' : Hold μ ρ} {e e' : ℕ} (htaking : p.taking = true)
    (h : holdStep b e p = some (b', e', p')) : Takes b p b' p' := by
  cases p with
  | takeStreak =>
    simp only [holdStep] at h
    split at h
    · cases h
      exact .pass b rfl rfl rfl rfl nofun fun _ => Nat.zero_le _
    · cases h
      refine .pass b rfl rfl rfl rfl nofun fun _ => ?_
      simp only [credit]
      omega
  | takeBurst | takeQueue =>
    simp only [holdStep] at h
    split at h
    · rename_i hempty
      cases h
      exact .pass b rfl rfl rfl rfl nofun fun hne => absurd hempty hne
    · rename_i m rest hqueue
      cases h
      exact .popMessage m rest hqueue rfl rfl
  | takeReady streak =>
    simp only [holdStep] at h
    split at h
    · cases h
      exact .pass b rfl rfl rfl rfl nofun fun _ => Nat.zero_le _
    · rename_i r rest hready
      cases h
      exact .popReady streak r rest hready
  | storeStreak streak r =>
    cases h
    exact .giveReady streak r
  | clearStreak | lenSub | storeOverload =>
    cases h
    exact .pass _ rfl rfl rfl rfl nofun fun _ => Nat.zero_le _
  | loadThreshold m length =>
    simp only [holdStep] at h
    split at h
    · cases h
      exact .giveMessage m b rfl rfl rfl rfl
    · cases h
      exact .pass b rfl rfl rfl rfl nofun fun _ => Nat.zero_le _
  | storeThreshold m threshold =>
    cases h
    exact .giveMessage m _ rfl rfl rfl rfl
  | takeCas =>
    simp only [holdStep] at h
    split at h <;> cases h <;> exact .pass _ rfl rfl rfl rfl nofun fun _ => Nat.le_refl _
  | takeReset | resetThreshold =>
    cases h
    exact .pass _ rfl rfl rfl rfl nofun fun _ => Nat.le_refl _
  | _ => cases htaking

/-- **One operation of the worker**, with what it adds to the results. -/
theorem takerStep_takes (h : takerStep .step s = some s') :
    Takes s.box s.hold s'.box s'.hold ∧ s'.sent = s.sent ∧ s'.woken = s.woken
      ∧ ((∃ work, s'.hold = .took work ∧ s'.results = s.results ++ [work])
        ∨ (∀ work, s'.hold ≠ .took work) ∧ s'.results = s.results) := by
  simp only [takerStep] at h
  split at h
  · rename_i htaking
    obtain ⟨⟨b, e, p⟩, hstep, rfl⟩ := map_eq_some_iff.mp h
    refine ⟨holdStep_takes htaking hstep, rfl, rfl, ?_⟩
    cases p with
    | took work => exact .inl ⟨work, rfl, rfl⟩
    | _ => exact .inr ⟨nofun, append_nil _⟩
  · cases h

theorem callable_hands {p : Hold μ ρ} (h : p.callable = true) :
    p.message? = none ∧ p.ready? = none ∧ ∀ streak, credit streak p = readyBurst - streak := by
  cases p with
  | none | holding | took | resetThreshold => exact ⟨rfl, rfl, fun _ => rfl⟩
  | _ => cases h

/-! ### First in, first out -/

/-- **Both queues in order**: what was returned, what is in hand and what is still queued are what was there at
first and what was pushed. -/
def Ordered (box : Mailbox μ ρ) (s : Taker μ ρ) : Prop :=
  s.results.filterMap Work.message? ++ s.hold.message?.toList ++ s.box.queue = box.queue ++ s.sent
    ∧ s.results.filterMap Work.ready? ++ s.hold.ready?.toList ++ s.box.ready = box.ready ++ s.woken

theorem ordered_start (box : Mailbox μ ρ) : Ordered box (Taker.start box) := by
  simp [Ordered, Taker.start, Hold.message?, Hold.ready?]

theorem ordered_step (h : Ordered box s) (hs : takerStep a s = some s') : Ordered box s' := by
  obtain ⟨hmessages, hready⟩ := h
  cases a with
  | send m =>
    obtain rfl := some.inj hs
    exact ⟨by simp only [← append_assoc, hmessages], hready⟩
  | wake r =>
    obtain rfl := some.inj hs
    exact ⟨hmessages, by simp only [← append_assoc, hready]⟩
  | share len state overload threshold =>
    obtain rfl := some.inj hs
    exact ⟨hmessages, hready⟩
  | call =>
    simp only [takerStep] at hs
    split at hs
    · rename_i hcall
      obtain rfl := some.inj hs
      obtain ⟨hm, hr, -⟩ := callable_hands hcall
      rw [hm] at hmessages
      rw [hr] at hready
      exact ⟨hmessages, hready⟩
    · cases hs
  | step =>
    obtain ⟨htakes, hsent, hwoken, hresults⟩ := takerStep_takes hs
    rcases s with ⟨b, p, sent, woken, results⟩
    rcases s' with ⟨b', p', sent', woken', results'⟩
    subst hsent hwoken
    dsimp only at *
    cases htakes with
    | popMessage m rest hqueue hm hr =>
      obtain rfl := (hresults.resolve_left (fun ⟨_, hp, _⟩ => nomatch hp)).2
      rw [hm, hqueue] at hmessages
      rw [hr] at hready
      exact ⟨by simpa [Hold.message?] using hmessages, hready⟩
    | popReady streak r rest hqueue =>
      obtain rfl := (hresults.resolve_left (fun ⟨_, hp, _⟩ => nomatch hp)).2
      rw [hqueue] at hready
      exact ⟨hmessages, by simpa [Hold.ready?] using hready⟩
    | giveReady streak r =>
      obtain ⟨work, hwork, rfl⟩ := hresults.resolve_right fun h => h.1 _ rfl
      cases hwork
      refine ⟨?_, ?_⟩
      · simpa [Hold.message?, Work.message?, filterMap_cons] using hmessages
      · simpa [Hold.ready?, Work.ready?] using hready
    | giveMessage m _ hm hr hqueue hready' =>
      obtain ⟨work, hwork, rfl⟩ := hresults.resolve_right fun h => h.1 _ rfl
      cases hwork
      rw [hm] at hmessages
      rw [hr] at hready
      refine ⟨?_, ?_⟩
      · rw [hqueue]
        simpa [Hold.message?, Work.message?] using hmessages
      · rw [hready']
        simpa [Hold.ready?, Work.ready?, filterMap_cons] using hready
    | pass _ hqueue hready' hm hr hnot _ =>
      obtain rfl := (hresults.resolve_left (fun ⟨work, hp, _⟩ => hnot work hp)).2
      dsimp only [Ordered]
      rw [hqueue, hready', hm, hr]
      exact ⟨hmessages, hready⟩

/-! ### Ready items in a row -/

/-- **The account of a stretch**: no burst of ready items is longer than `READY_BURST`, and the one under way
leaves room for the credit that is left. -/
structure Bounded (first : List (Work μ ρ)) (s : Taker μ ρ) (since : List (Work μ ρ)) : Prop where
  results : s.results = first ++ since
  bursts : Bursts Work.isReady readyBurst since
  tail : Tail Work.isReady (readyBurst - credit s.box.readyStreak s.hold) since

theorem bounded_step {first since : List (Work μ ρ)} (h : Bounded first s since)
    (hwaits : s.box.queue ≠ []) (hs : takerStep a s = some s') :
    ∃ since', Bounded first s' since' := by
  cases a with
  | send | wake | share =>
    obtain rfl := some.inj hs
    exact ⟨since, h.results, h.bursts, h.tail⟩
  | call =>
    simp only [takerStep] at hs
    split at hs
    · rename_i hcall
      obtain rfl := some.inj hs
      obtain ⟨-, -, hcredit⟩ := callable_hands hcall
      have htail := h.tail
      rw [hcredit] at htail
      exact ⟨since, h.results, h.bursts, htail⟩
    · cases hs
  | step =>
    obtain ⟨htakes, -, -, hresults⟩ := takerStep_takes hs
    rcases s with ⟨b, p, sent, woken, results⟩
    rcases s' with ⟨b', p', sent', woken', results'⟩
    obtain ⟨hfirst, hbursts, htail⟩ := h
    dsimp only at *
    cases htakes with
    | popMessage m rest hqueue hm hr =>
      obtain rfl := (hresults.resolve_left (fun ⟨_, hp, _⟩ => nomatch hp)).2
      exact ⟨since, hfirst, hbursts, htail.mono (Nat.sub_le_sub_left (Nat.zero_le _) _)⟩
    | popReady streak r rest hqueue =>
      obtain rfl := (hresults.resolve_left (fun ⟨_, hp, _⟩ => nomatch hp)).2
      exact ⟨since, hfirst, hbursts, htail⟩
    | giveReady streak r =>
      obtain ⟨work, hwork, rfl⟩ := hresults.resolve_right fun h => h.1 _ rfl
      cases hwork
      have hless : readyBurst - (readyBurst + 1 - min (streak + 1) readyBurst) + 1
          = readyBurst - (readyBurst - min (streak + 1) readyBurst) := by
        simp only [readyBurst]
        omega
      have htail' : Tail Work.isReady (readyBurst - (readyBurst - min (streak + 1) readyBurst))
          (since ++ [.ready r]) := hless ▸ tail_snoc htail
      exact ⟨since ++ [Work.ready r], by rw [hfirst, append_assoc],
        bursts_snoc hbursts (htail'.mono (Nat.sub_le _ _)), htail'⟩
    | giveMessage m _ hm hr hqueue hready =>
      obtain ⟨work, hwork, rfl⟩ := hresults.resolve_right fun h => h.1 _ rfl
      cases hwork
      have htail' : Tail Work.isReady 0 (since ++ [Work.message m]) := tail_snoc_of_not rfl
      exact ⟨since ++ [Work.message m], by rw [hfirst, append_assoc],
        bursts_snoc hbursts (htail'.mono (Nat.zero_le _)), htail'.mono (Nat.zero_le _)⟩
    | pass _ hqueue hready hm hr hnot hcredit =>
      obtain rfl := (hresults.resolve_left (fun ⟨work, hp, _⟩ => hnot work hp)).2
      exact ⟨since, hfirst, hbursts, htail.mono (Nat.sub_le_sub_left (hcredit hwaits) _)⟩

def Waits (s : Taker μ ρ) (_ : TakerAct μ ρ) : Prop := s.box.queue ≠ []

instance (s : Taker μ ρ) (a : TakerAct μ ρ) : Decidable (Waits s a) :=
  match h : s.box.queue with
  | [] => isFalse fun hne => hne h
  | _ :: _ => isTrue fun hnil => List.cons_ne_nil _ _ (h.symm.trans hnil)

theorem bounded_run (stretch : List (TakerAct μ ρ)) (hwaits : along takerStep Waits stretch s)
    (h : exec takerStep stretch s = some s') :
    ∃ since, Bounded s.results s' since := by
  have hstart : Bounded s.results s [] := ⟨(append_nil _).symm, bursts_nil, tail_nil⟩
  refine exec_invariant (P := Waits) (I := fun x => ∃ since, Bounded s.results x since) ?_ stretch
    ⟨[], hstart⟩ hwaits h
  rintro a x y ⟨since, hx⟩ hwait hstep
  exact bounded_step hx hwait hstep

theorem ordered_run (run : List (TakerAct μ ρ)) (hs : Ordered box s)
    (h : exec takerStep run s = some s') : Ordered box s' :=
  exec_invariant (P := fun _ _ => True) (fun _ _ _ hx _ hstep => ordered_step hx hstep) run hs
    (along_of_forall (fun _ _ _ => trivial) s) h

theorem sent_step (h : takerStep a s = some s') : s.sent <+: s'.sent := by
  cases a with
  | send m =>
    obtain rfl := some.inj h
    exact prefix_append _ _
  | wake | share =>
    obtain rfl := some.inj h
    exact prefix_rfl
  | call =>
    simp only [takerStep] at h
    split at h
    · obtain rfl := some.inj h
      exact prefix_rfl
    · cases h
  | step =>
    obtain ⟨-, hsent, -⟩ := takerStep_takes h
    rw [hsent]

/-- **The messages of a stretch** that begins between two calls come from its queue, in order. -/
theorem messages_of_stretch {since : List (Work μ ρ)} (stretch : List (TakerAct μ ρ))
    (hs : Ordered box s) (hcall : s.hold.callable = true) (h : exec takerStep stretch s = some s')
    (hresults : s'.results = s.results ++ since) :
    ∃ more, since.filterMap Work.message? <+: s.box.queue ++ more := by
  have hs' := (ordered_run stretch hs h).1
  have hsent : s.sent <+: s'.sent :=
    exec_invariant (P := fun _ _ => True) (I := fun x => s.sent <+: x.sent)
      (fun _ _ _ hx _ hstep => hx.trans (sent_step hstep)) stretch prefix_rfl
      (along_of_forall (fun _ _ _ => trivial) s) h
  obtain ⟨more, hmore⟩ := hsent
  have hfirst := hs.1
  rw [(callable_hands hcall).1, toList_none, append_nil] at hfirst
  rw [← hmore, ← append_assoc, ← hfirst, hresults, filterMap_append] at hs'
  refine ⟨more, s'.hold.message?.toList ++ s'.box.queue, ?_⟩
  simp only [append_assoc] at hs'
  simpa only [append_assoc] using append_cancel_left hs'

theorem countP_not_isReady (results : List (Work μ ρ)) :
    (results.countP fun work => !work.isReady) = (results.filterMap Work.message?).length := by
  induction results with
  | nil => rfl
  | cons work results ih =>
    rw [countP_cons, ih]
    cases work <;> simp [Work.isReady, Work.message?, filterMap_cons]

/-- **`take_work` is fair.** Whatever is pushed in between, both queues come out in order; while the
message queue is not empty at most `READY_BURST` results in a row are ready items, which bounds how
long a message waits. -/
theorem take_work_fair (box : Mailbox μ ρ) (before stretch : List (TakerAct μ ρ)) (s s' : Taker μ ρ)
    (hbefore : exec takerStep before (Taker.start box) = some s) (hstretch : exec takerStep stretch s = some s') :
    s'.results.filterMap Work.message? <+: box.queue ++ s'.sent
      ∧ s'.results.filterMap Work.ready? <+: box.ready ++ s'.woken
      ∧ (along takerStep Waits stretch s → ∃ since, s'.results = s.results ++ since
        ∧ (∀ pre mid post, since = pre ++ mid ++ post → (∀ work ∈ mid, work.isReady = true) →
            mid.length ≤ readyBurst)
        ∧ (s.hold.callable = true → ∀ position < s.box.queue.length,
            (position + 1) * (readyBurst + 1) ≤ since.length →
            s.box.queue.take (position + 1)
              <+: (since.take ((position + 1) * (readyBurst + 1))).filterMap Work.message?)) := by
  have hordered := ordered_run before (ordered_start box) hbefore
  have hordered' := ordered_run stretch hordered hstretch
  refine ⟨⟨_, (append_assoc _ _ _).symm.trans hordered'.1⟩,
    ⟨_, (append_assoc _ _ _).symm.trans hordered'.2⟩, ?_⟩
  intro hwaits
  obtain ⟨since, hresults, hbursts, -⟩ := bounded_run stretch hwaits hstretch
  refine ⟨since, hresults, hbursts, ?_⟩
  intro hcall position hposition hlength
  obtain ⟨more, hmessages⟩ := messages_of_stretch stretch hordered hcall hstretch hresults
  have hcount := length_le_of_bursts (position + 1) hbursts hlength
  rw [countP_not_isReady] at hcount
  have hfirst : (since.take ((position + 1) * (readyBurst + 1))).filterMap Work.message?
      <+: s.box.queue ++ more := (( take_prefix _ _).filterMap _).trans hmessages
  have hqueue : s.box.queue.take (position + 1) <+: s.box.queue ++ more :=
    ( take_prefix _ _).trans (prefix_append _ _)
  apply prefix_of_prefix_length_le hqueue hfirst
  rw [length_take]
  exact Nat.le_trans (Nat.min_le_left _ _) hcount

/-- A mailbox whose ready items have led for a whole burst, with two messages waiting. -/
def afterBurst : Mailbox ℕ ℕ := { Mailbox.new ℕ ℕ with queue := [7, 9], ready := [8], readyStreak := readyBurst }

def oneCall : List (TakerAct ℕ ℕ) := [.call, .step, .step, .step, .step, .step]

/-- The first result after the burst is a message, although a ready item waits. -/
theorem take_work_fair_afterBurst :
    along takerStep Waits oneCall (Taker.start afterBurst)
      ∧ ∃ s since, exec takerStep oneCall (Taker.start afterBurst) = some s ∧ s.results = [] ++ since
        ∧ since.filterMap Work.message? = [7]
        ∧ ∀ pre mid post, since = pre ++ mid ++ post → (∀ work ∈ mid, work.isReady = true) →
            mid.length ≤ readyBurst := by
  have hwaits : along takerStep Waits oneCall (Taker.start afterBurst) := by decide
  obtain ⟨s, hs, hmessages⟩ : ∃ s, exec takerStep oneCall (Taker.start afterBurst) = some s
      ∧ s.results.filterMap Work.message? = [7] := ⟨_, rfl, rfl⟩
  obtain ⟨-, -, hstretch⟩ := take_work_fair afterBurst [] oneCall (Taker.start afterBurst) s rfl hs
  obtain ⟨since, hresults, hbursts, -⟩ := hstretch hwaits
  refine ⟨hwaits, s, since, hs, hresults, ?_, hbursts⟩
  rw [← hmessages, hresults]
  rfl

end Rskynet.Mq
