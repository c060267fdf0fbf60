import Rskynet.Timer.Exact

/-!
# The timer service's time

`WheelTimer` puts timers and cancellations into one queue, with the expiry rounded up to a tick of ten
milliseconds; `update` empties the queue into the wheel and drives the wheel to the clock's tick.

* `catchUp_spec` — **PROVED**: what driving the wheel by a number of ticks returns;
* `timer_accurate` — **PROVED**: every update returns exactly the pending timers whose tick the clock has
  reached, each once and none before its time;
* `update_split` — **PROVED**: an update in between changes nothing of what is returned.
-/

namespace Rskynet.Timer

open Interleave List Option Bool

/-! ### The timer -/

inductive TimerCommand where
  | arm (event : TimerEvent)
  | cancel (key : TimerKey)

/-- The timer, the wheel that its service holds, and the keys that each update so far has returned. -/
structure WheelTimer where
  incoming : List TimerCommand
  wheelTicks : ℕ
  wheel : Wheel
  returned : List (List TimerKey)

def WheelTimer.new : WheelTimer := ⟨[], 0, Wheel.fresh 0, []⟩

def saturatingAdd (x y : ℕ) : ℕ := min (x + y) (2 ^ 64 - 1)

def divCeil (x y : ℕ) : ℕ := if 0 < x % y then x / y + 1 else x / y

def deadline (now delay : ℕ) : ℕ := divCeil (saturatingAdd now delay) 10

def WheelTimer.timeout (timer : WheelTimer) (now : ℕ) (key : TimerKey) (delay : ℕ) : WheelTimer :=
  { timer with incoming := timer.incoming ++ [.arm ⟨key.handle, key.session, deadline now delay⟩] }

def WheelTimer.cancel (timer : WheelTimer) (key : TimerKey) : WheelTimer :=
  { timer with incoming := timer.incoming ++ [.cancel key] }

def Wheel.apply (wheel : Wheel) : TimerCommand → Option Wheel
  | .arm event => some (wheel.add event)
  | .cancel key => wheel.cancel key

def Wheel.drain (wheel : Wheel) (commands : List TimerCommand) : Option Wheel :=
  commands.foldlM Wheel.apply wheel

def Wheel.catchUp : ℕ → Wheel → Wheel × List TimerEvent
  | 0, wheel => (wheel, [])
  | diff + 1, wheel =>
    let rest := Wheel.catchUp diff wheel.advance.1
    (rest.1, wheel.advance.2.map Prod.snd ++ rest.2)

def WheelTimer.update (timer : WheelTimer) (now : ℕ) : Option WheelTimer :=
  let target := now / 10
  let diff := target - timer.wheelTicks
  (timer.wheel.drain timer.incoming).map fun wheel =>
    if diff = 0 then
      ⟨[], timer.wheelTicks, wheel.execute.1, timer.returned ++ [wheel.execute.2.map TimerEvent.key]⟩
    else
      let out := wheel.catchUp diff
      ⟨[], target, out.1, timer.returned ++ [out.2.map TimerEvent.key]⟩

inductive Call where
  | timeout (now : ℕ) (key : TimerKey) (delay : ℕ)
  | cancel (key : TimerKey)
  | update (now : ℕ)

def call : Call → WheelTimer → Option WheelTimer
  | .timeout now key delay, timer => some (timer.timeout now key delay)
  | .cancel key, timer => some (timer.cancel key)
  | .update now, timer => timer.update now

/-! ### The calls by themselves -/

def Call.reading? : Call → Option ℕ
  | .timeout now _ _ => some now
  | .cancel _ => none
  | .update now => some now

/-- The clock does not go back and its readings are `u64`s. -/
def Clocked (calls : List Call) : Prop :=
  (calls.filterMap Call.reading?).Pairwise (· ≤ ·) ∧ ∀ now ∈ calls.filterMap Call.reading?, now < 2 ^ 64

/-- The key was armed for the tick `expire`, and since then neither cancelled nor overtaken by an update. -/
def Pending (calls : List Call) (key : TimerKey) (expire : ℕ) : Prop :=
  ∃ before now delay after, calls = before ++ .timeout now key delay :: after ∧ expire = deadline now delay
    ∧ .cancel key ∉ after ∧ ∀ t, .update t ∈ after → t / 10 < expire

/-- No key is armed while it is pending. -/
def NotRearmed (calls : List Call) : Prop :=
  ∀ before now key delay after, calls = before ++ .timeout now key delay :: after →
    ∀ expire, ¬ Pending before key expire

def latestTick (calls : List Call) : ℕ :=
  (calls.filterMap fun | .update now => some (now / 10) | _ => none).foldl max 0

def updates (calls : List Call) : ℕ := calls.countP fun | .update _ => true | _ => false

/-- **One more call.**  A timer stays pending unless the call cancels it or is an update that reaches it. -/
theorem pending_snoc {calls : List Call} {c : Call} {key : TimerKey} {expire : ℕ} :
    Pending (calls ++ [c]) key expire
      ↔ (Pending calls key expire ∧ c ≠ .cancel key ∧ ∀ t, c = .update t → t / 10 < expire)
        ∨ ∃ now delay, c = .timeout now key delay ∧ expire = deadline now delay := by
  constructor
  · rintro ⟨before, now, delay, after, hcalls, hexpire, hcancel, hupdate⟩
    rcases eq_nil_or_concat after with rfl | ⟨after, last, rfl⟩
    · obtain ⟨-, hlast⟩ := append_inj' hcalls rfl
      exact .inr ⟨now, delay, singleton_inj.mp hlast, hexpire⟩
    · rw [concat_eq_append] at hcalls hcancel hupdate
      have hshape : calls ++ [c] = (before ++ .timeout now key delay :: after) ++ [last] := by
        simpa using hcalls
      obtain ⟨hinit, hlast⟩ := append_inj' hshape rfl
      obtain rfl : c = last := singleton_inj.mp hlast
      refine .inl ⟨⟨before, now, delay, after, hinit, hexpire, ?_, ?_⟩, ?_, ?_⟩
      · exact fun h => hcancel (mem_append_left _ h)
      · exact fun t h => hupdate t (mem_append_left _ h)
      · rintro rfl
        exact hcancel (mem_append_right _ mem_cons_self)
      · rintro t rfl
        exact hupdate t (mem_append_right _ mem_cons_self)
  · rintro (⟨⟨before, now, delay, after, rfl, hexpire, hcancel, hupdate⟩, hc, ht⟩ | ⟨now, delay, rfl, hexpire⟩)
    · refine ⟨before, now, delay, after ++ [c], by simp, hexpire, ?_, ?_⟩
      · intro hmem
        rcases mem_append.mp hmem with h | h
        · exact hcancel h
        · exact hc (mem_singleton.mp h).symm
      · intro t hmem
        rcases mem_append.mp hmem with h | h
        · exact hupdate t h
        · exact ht t (mem_singleton.mp h).symm
    · exact ⟨calls, now, delay, [], rfl, hexpire, not_mem_nil, fun t h => absurd h not_mem_nil⟩

theorem clocked_of_append {calls rest : List Call} (h : Clocked (calls ++ rest)) : Clocked calls := by
  obtain ⟨hsorted, hbound⟩ := h
  rw [filterMap_append] at hsorted hbound
  exact ⟨(pairwise_append.mp hsorted).1, fun now hnow => hbound now (mem_append_left _ hnow)⟩

theorem notRearmed_of_append {calls rest : List Call} (h : NotRearmed (calls ++ rest)) : NotRearmed calls := by
  intro before now key delay after hcalls
  exact h before now key delay (after ++ rest) (by rw [hcalls]; simp)

theorem latestTick_le {calls : List Call} {now : ℕ} (h : Clocked (calls ++ [.update now])) :
    latestTick calls ≤ now / 10 := by
  have hle : ∀ t, .update t ∈ calls → t ≤ now := by
    intro t ht
    have hsorted := h.1
    rw [filterMap_append] at hsorted
    exact (pairwise_append.mp hsorted).2.2 t (mem_filterMap.mpr ⟨_, ht, rfl⟩) now
      (mem_filterMap.mpr ⟨_, mem_singleton.mpr rfl, rfl⟩)
  have hfold : ∀ (ticks : List ℕ) (start : ℕ), start ≤ now / 10 → (∀ t ∈ ticks, t ≤ now / 10) →
      ticks.foldl max start ≤ now / 10 := by
    intro ticks
    induction ticks with
    | nil => exact fun start hstart _ => hstart
    | cons t ticks ih =>
      intro start hstart hticks
      exact ih (max start t) (max_le hstart (hticks t mem_cons_self))
        fun t' ht' => hticks t' (mem_cons_of_mem _ ht')
  apply hfold _ _ (Nat.zero_le _)
  intro t ht
  obtain ⟨c, hc, hct⟩ := mem_filterMap.mp ht
  cases c with
  | timeout | cancel => cases hct
  | update t' => exact some.inj hct ▸ Nat.div_le_div_right (hle t' hc)

theorem latestTick_snoc {calls : List Call} {c : Call} :
    latestTick (calls ++ [c]) = match c with
      | .update now => max (latestTick calls) (now / 10)
      | _ => latestTick calls := by
  cases c <;> simp [latestTick]

/-! ### Driving the wheel -/

theorem catchUp_spec (n : ℕ) {wheel : Wheel} (hok : wheel.Ok) (hkeyed : wheel.Keyed)
    (hmax : wheel.time + n < 2 ^ 64) :
    (wheel.catchUp n).1.Ok ∧ (wheel.catchUp n).1.Keyed ∧ (wheel.catchUp n).1.time = wheel.time + n
      ∧ (∀ event ∈ (wheel.catchUp n).2, event.expire ≤ wheel.time + n)
      ∧ (0 < n → ∀ slot, ∀ event ∈ (wheel.catchUp n).1.slots slot, wheel.time + n + 1 ≤ event.expire)
      ∧ ∀ p, wheel.amount p = (wheel.catchUp n).1.amount p + (wheel.catchUp n).2.countP p := by
  induction n generalizing wheel with
  | zero =>
    refine ⟨hok, hkeyed, rfl, fun event h => absurd h not_mem_nil, fun h => absurd h (lt_irrefl 0), ?_⟩
    intro p
    rw [Wheel.catchUp, countP_nil, Nat.add_zero]
  | succ n ih =>
    obtain ⟨hok₁, htime₁, hfired₁, hlate₁, hamount₁, hkeyed₁⟩ := advance_spec hok (by omega)
    obtain ⟨hok₂, hkeyed₂, htime₂, hfired₂, hlate₂, hamount₂⟩ := ih hok₁ (hkeyed₁ hkeyed) (by omega)
    refine ⟨hok₂, hkeyed₂, by simp only [Wheel.catchUp]; omega, ?_, ?_, ?_⟩
    · intro event hmem
      rcases mem_append.mp hmem with hmem | hmem
      · obtain ⟨fired, hfired, rfl⟩ := mem_map.mp hmem
        obtain ⟨hexpire, hle⟩ := hfired₁ fired hfired
        omega
      · have hle := hfired₂ event hmem
        omega
    · intro _ slot event hmem
      cases n with
      | zero =>
        have hle := hlate₁ slot event hmem
        omega
      | succ n =>
        have hle := hlate₂ (Nat.succ_pos n) slot event hmem
        omega
    · intro p
      have h₁ := hamount₁ p
      have h₂ := hamount₂ p
      simp only [Wheel.catchUp, countP_append]
      omega

/-- The wheel driven to the tick `target`, with what it returned on the way. -/
structure Settles (wheel : Wheel) (target : ℕ) (wheel' : Wheel) (out : List TimerEvent) : Prop where
  ok : wheel'.Ok
  keyed : wheel'.Keyed
  time : wheel'.time = target
  due : ∀ event ∈ out, event.expire ≤ target
  late : ∀ slot, ∀ event ∈ wheel'.slots slot, target + 1 ≤ event.expire
  amount : ∀ p, wheel.amount p = wheel'.amount p + out.countP p

def Wheel.Holds (wheel : Wheel) (key : TimerKey) (expire : ℕ) : Prop :=
  0 < wheel.amount fun event => hasKey key event && decide (event.expire = expire)

theorem amount_mono (wheel : Wheel) {p q : TimerEvent → Bool} (h : ∀ event, p event = true → q event = true) :
    wheel.amount p ≤ wheel.amount q :=
  Finset.sum_le_sum fun _ _ => countP_mono_left fun event _ => h event

theorem Wheel.Holds.amount_pos {wheel : Wheel} {key : TimerKey} {expire : ℕ} (h : wheel.Holds key expire) :
    0 < wheel.amount (hasKey key) := by
  have hle := amount_mono wheel (p := fun event => hasKey key event && decide (event.expire = expire))
    (q := hasKey key) fun event hevent => (and_eq_true_iff.mp hevent).1
  unfold Wheel.Holds at h
  omega

section Settled

variable {wheel wheel' : Wheel} {target : ℕ} {out : List TimerEvent}

theorem Settles.holds_iff (h : Settles wheel target wheel' out) (key : TimerKey) (expire : ℕ) :
    wheel'.Holds key expire ↔ wheel.Holds key expire ∧ target < expire := by
  have hamount := h.amount fun event => hasKey key event && decide (event.expire = expire)
  unfold Wheel.Holds
  constructor
  · intro hpos
    refine ⟨by omega, ?_⟩
    obtain ⟨slot, event, hmem, hevent⟩ := amount_pos hpos
    have hexpire : event.expire = expire := of_decide_eq_true (and_eq_true_iff.mp hevent).2
    have hlate := h.late slot event hmem
    omega
  · rintro ⟨hpos, hlt⟩
    have hzero : out.countP (fun event => hasKey key event && decide (event.expire = expire)) = 0 := by
      rw [countP_eq_zero]
      intro event hmem hevent
      have hexpire : event.expire = expire := of_decide_eq_true (and_eq_true_iff.mp hevent).2
      have hdue := h.due event hmem
      omega
    omega

theorem Settles.mem_keys_iff (h : Settles wheel target wheel' out) (key : TimerKey) :
    key ∈ out.map TimerEvent.key ↔ ∃ expire ≤ target, wheel.Holds key expire := by
  constructor
  · intro hmem
    obtain ⟨event, hevent, rfl⟩ := mem_map.mp hmem
    refine ⟨event.expire, h.due event hevent, ?_⟩
    have hpos : 0 < out.countP (fun e => hasKey event.key e && decide (e.expire = event.expire)) :=
      countP_pos_iff.mpr ⟨event, hevent, by simp [hasKey]⟩
    have hamount := h.amount fun e => hasKey event.key e && decide (e.expire = event.expire)
    unfold Wheel.Holds
    omega
  · rintro ⟨expire, hle, hholds⟩
    have hamount := h.amount fun event => hasKey key event && decide (event.expire = expire)
    have hgone : ¬ wheel'.Holds key expire := fun h' => by
      have hlt := ((h.holds_iff key expire).mp h').2
      omega
    unfold Wheel.Holds at hholds hgone
    have hpos : 0 < out.countP (fun event => hasKey key event && decide (event.expire = expire)) := by omega
    obtain ⟨event, hmem, hevent⟩ := countP_pos_iff.mp hpos
    exact mem_map.mpr ⟨event, hmem, of_decide_eq_true (and_eq_true_iff.mp hevent).1⟩

theorem Settles.nodup (h : Settles wheel target wheel' out) (hkeyed : wheel.Keyed) :
    (out.map TimerEvent.key).Nodup := by
  rw [nodup_iff_count_le_one]
  intro key
  have hcount : (out.map TimerEvent.key).count key = out.countP (hasKey key) := by
    rw [count, countP_map]
    rfl
  have hamount := h.amount (hasKey key)
  have hone : wheel.amount (hasKey key) ≤ 1 := by
    rw [hkeyed key]
    split <;> omega
  omega

end Settled

/-- **The two branches of `update`** drive the wheel to the clock's tick. -/
theorem settles_update {timer timer' : WheelTimer} {wheel : Wheel} {now : ℕ} (hok : wheel.Ok)
    (hkeyed : wheel.Keyed) (hdrain : timer.wheel.drain timer.incoming = some wheel)
    (htime : wheel.time = timer.wheelTicks) (hle : timer.wheelTicks ≤ now / 10) (hnow : now < 2 ^ 64)
    (h : timer.update now = some timer') :
    ∃ out, Settles wheel (now / 10) timer'.wheel out ∧ timer'.incoming = [] ∧ timer'.wheelTicks = now / 10
      ∧ timer'.returned = timer.returned ++ [out.map TimerEvent.key] := by
  have hmax : now / 10 < 2 ^ 64 := lt_of_le_of_lt (Nat.div_le_self _ _) hnow
  simp only [WheelTimer.update, hdrain, map_some] at h
  split at h
  · obtain rfl := some.inj h
    have hsame : wheel.time = now / 10 := by omega
    obtain ⟨hok', htime', hdue, hlate, hamount⟩ := execute_spec hok
    refine ⟨wheel.execute.2, ⟨hok', keyed_execute hok hkeyed, htime'.trans hsame, ?_, ?_, hamount⟩, rfl,
      htime.symm.trans hsame, rfl⟩
    · intro event hmem
      rw [hdue event hmem, hsame]
    · intro slot event hmem
      rw [← hsame]
      exact hlate slot event hmem
  · rename_i hpos
    obtain rfl := some.inj h
    have hsum : wheel.time + (now / 10 - timer.wheelTicks) = now / 10 := by omega
    obtain ⟨hok', hkeyed', htime', hdue, hlate, hamount⟩ :=
      catchUp_spec (now / 10 - timer.wheelTicks) hok hkeyed (by omega)
    rw [hsum] at htime' hdue hlate
    exact ⟨_, ⟨hok', hkeyed', htime', hdue, hlate (Nat.pos_of_ne_zero hpos), hamount⟩, rfl, rfl, rfl⟩

/-! ### The wheel and the pending timers -/

theorem holds_add {wheel : Wheel} (event : TimerEvent) (key : TimerKey) (expire : ℕ) :
    (wheel.add event).Holds key expire
      ↔ wheel.Holds key expire ∨ (key = event.key ∧ expire = max event.expire wheel.time) := by
  unfold Wheel.Holds
  rw [amount_add]
  simp only [hasKey, filedAt_key, filedAt_expire, and_eq_true, decide_eq_true_eq]
  split
  · rename_i h
    exact ⟨fun _ => .inr ⟨h.1.symm, h.2.symm⟩, fun _ => by omega⟩
  · rename_i h
    rw [Nat.add_zero]
    refine ⟨.inl, fun hor => hor.resolve_right ?_⟩
    rintro ⟨rfl, rfl⟩
    exact h ⟨rfl, rfl⟩

theorem holds_cancel {wheel wheel' : Wheel} (hok : wheel.Ok) (hkeyed : wheel.Keyed) {key : TimerKey}
    (h : wheel.cancel key = some wheel') (k : TimerKey) (expire : ℕ) :
    wheel'.Holds k expire ↔ wheel.Holds k expire ∧ k ≠ key := by
  obtain ⟨w, hw, -, -, hamount⟩ := cancel_spec hok key
  obtain rfl : w = wheel' := some.inj (hw.symm.trans h)
  obtain ⟨-, hnone⟩ := keyed_cancel hok hkeyed h
  have hsum := hamount fun event => hasKey k event && decide (event.expire = expire)
  by_cases hk : k = key
  · subst hk
    refine ⟨fun hholds => ?_, fun hboth => absurd rfl hboth.2⟩
    have hpos := hholds.amount_pos
    omega
  · have hzero : (wheel.found key).toList.countP
        (fun event => hasKey k event && decide (event.expire = expire)) = 0 := by
      rw [countP_eq_zero]
      intro event hmem hevent
      have hkey : event.key = key := found_key hok (mem_toList.mp hmem)
      exact hk ((of_decide_eq_true (and_eq_true_iff.mp hevent).1).symm.trans hkey)
    unfold Wheel.Holds
    rw [hsum, hzero, Nat.add_zero]
    exact ⟨fun hpos => ⟨hpos, hk⟩, fun hboth => hboth.1⟩

/-- **The wheel holds the pending timers** once the queue has been emptied into it. -/
structure Tracks (calls : List Call) (timer : WheelTimer) (wheel : Wheel) : Prop where
  drain : timer.wheel.drain timer.incoming = some wheel
  ok : wheel.Ok
  keyed : wheel.Keyed
  ticks : timer.wheelTicks = latestTick calls
  now : timer.wheel.time = timer.wheelTicks
  time : wheel.time = timer.wheelTicks
  holds : ∀ key expire, wheel.Holds key expire ↔ ∃ x, Pending calls key x ∧ expire = max x wheel.time

section Steps

variable {calls : List Call} {timer timer' : WheelTimer} {wheel : Wheel}

theorem deadline_lt (now delay : ℕ) : deadline now delay < 2 ^ 64 := by
  have hle : saturatingAdd now delay ≤ 2 ^ 64 - 1 := Nat.min_le_right _ _
  unfold deadline divCeil
  split <;> omega

theorem tracks_timeout (htracks : Tracks calls timer wheel) (now delay : ℕ) (key : TimerKey)
    (hfree : ∀ expire, ¬ Pending calls key expire) :
    Tracks (calls ++ [.timeout now key delay]) (timer.timeout now key delay)
      (wheel.add ⟨key.handle, key.session, deadline now delay⟩) := by
  have hnone : wheel.amount (hasKey key) = 0 := by
    by_contra hpos
    obtain ⟨slot, event, hmem, hevent⟩ := amount_pos (Nat.pos_of_ne_zero hpos)
    have hholds : wheel.Holds key event.expire := by
      have hone : 0 < (wheel.slots slot).countP fun e => hasKey key e && decide (e.expire = event.expire) :=
        countP_pos_iff.mpr ⟨event, hmem, by simp [hevent]⟩
      exact lt_of_lt_of_le hone (countP_le_amount wheel _ slot)
    obtain ⟨x, hpending, -⟩ := (htracks.holds key event.expire).mp hholds
    exact hfree x hpending
  refine ⟨?_, ok_add htracks.ok (deadline_lt now delay), keyed_add htracks.keyed hnone, ?_, htracks.now,
    htracks.time, ?_⟩
  · have hdrain := htracks.drain
    unfold Wheel.drain at hdrain ⊢
    simp only [WheelTimer.timeout, foldlM_append, hdrain]
    rfl
  · rw [latestTick_snoc]
    exact htracks.ticks
  · intro k expire
    have htime : (wheel.add ⟨key.handle, key.session, deadline now delay⟩).time = wheel.time := rfl
    rw [holds_add, htracks.holds, htime]
    constructor
    · rintro (⟨x, hpending, hx⟩ | ⟨hk, hx⟩)
      · exact ⟨x, pending_snoc.mpr (.inl ⟨hpending, nofun, nofun⟩), hx⟩
      · have hk' : k = key := hk
        exact ⟨_, pending_snoc.mpr (.inr ⟨now, delay, by rw [hk'], rfl⟩), hx⟩
    · rintro ⟨x, hpending, hx⟩
      rcases pending_snoc.mp hpending with ⟨hold, -, -⟩ | ⟨n, d, hcall, hexpire⟩
      · exact .inl ⟨x, hold, hx⟩
      · cases hcall
        exact .inr ⟨rfl, hexpire ▸ hx⟩

theorem tracks_cancel (htracks : Tracks calls timer wheel) (key : TimerKey) :
    ∃ wheel', Tracks (calls ++ [.cancel key]) (timer.cancel key) wheel' := by
  obtain ⟨wheel', hcancel, hok, htime, -⟩ := cancel_spec htracks.ok key
  refine ⟨wheel', ?_, hok, (keyed_cancel htracks.ok htracks.keyed hcancel).1, ?_, htracks.now,
    htime.trans htracks.time, ?_⟩
  · have hdrain := htracks.drain
    unfold Wheel.drain at hdrain ⊢
    simp only [WheelTimer.cancel, foldlM_append, hdrain]
    simpa [Wheel.apply] using hcancel
  · rw [latestTick_snoc]
    exact htracks.ticks
  · intro k expire
    rw [holds_cancel htracks.ok htracks.keyed hcancel, htracks.holds, htime]
    constructor
    · rintro ⟨⟨x, hpending, hx⟩, hk⟩
      refine ⟨x, pending_snoc.mpr (.inl ⟨hpending, ?_, nofun⟩), hx⟩
      intro heq
      cases heq
      exact hk rfl
    · rintro ⟨x, hpending, hx⟩
      rcases pending_snoc.mp hpending with ⟨hold, hne, -⟩ | ⟨n, d, hcall, -⟩
      · exact ⟨⟨x, hold, hx⟩, fun heq => hne (heq ▸ rfl)⟩
      · cases hcall

/-- **An update** returns the pending timers that it reaches and keeps the others. -/
theorem tracks_update (htracks : Tracks calls timer wheel) {now : ℕ} (hle : latestTick calls ≤ now / 10)
    (hnow : now < 2 ^ 64) :
    ∃ timer' wheel' fired, timer.update now = some timer' ∧ Tracks (calls ++ [.update now]) timer' wheel'
      ∧ timer'.returned = timer.returned ++ [fired] ∧ fired.Nodup
      ∧ ∀ key, key ∈ fired ↔ ∃ x ≤ now / 10, Pending calls key x := by
  obtain ⟨timer', hupdate⟩ : ∃ timer', timer.update now = some timer' := by
    simp only [WheelTimer.update, htracks.drain, map_some]
    exact ⟨_, rfl⟩
  rw [← htracks.ticks] at hle
  obtain ⟨out, hsettles, hempty, hticks, hreturned⟩ :=
    settles_update htracks.ok htracks.keyed htracks.drain htracks.time hle hnow hupdate
  refine ⟨timer', timer'.wheel, _, hupdate, ?_, hreturned, hsettles.nodup htracks.keyed, ?_⟩
  · refine ⟨by rw [hempty]; rfl, hsettles.ok, hsettles.keyed, ?_, hsettles.time.trans hticks.symm,
      hsettles.time.trans hticks.symm, ?_⟩
    · rw [latestTick_snoc, hticks, ← htracks.ticks]
      exact (max_eq_right hle).symm
    · intro key expire
      rw [hsettles.holds_iff, htracks.holds, hsettles.time, htracks.time]
      constructor
      · rintro ⟨⟨x, hpending, hx⟩, hlt⟩
        refine ⟨x, pending_snoc.mpr (.inl ⟨hpending, nofun, ?_⟩), by omega⟩
        intro t ht
        cases ht
        omega
      · rintro ⟨x, hpending, hx⟩
        rcases pending_snoc.mp hpending with ⟨hold, -, hlate⟩ | ⟨n, d, hcall, -⟩
        · have hlt := hlate now rfl
          exact ⟨⟨x, hold, by omega⟩, by omega⟩
        · cases hcall
  · intro key
    rw [hsettles.mem_keys_iff]
    constructor
    · rintro ⟨expire, hexpire, hholds⟩
      obtain ⟨x, hpending, hx⟩ := (htracks.holds key expire).mp hholds
      exact ⟨x, by omega, hpending⟩
    · rintro ⟨x, hx, hpending⟩
      refine ⟨max x wheel.time, ?_, (htracks.holds key _).mpr ⟨x, hpending, rfl⟩⟩
      rw [htracks.time]
      omega

end Steps

theorem tracks_new : Tracks [] WheelTimer.new (Wheel.fresh 0) := by
  refine ⟨rfl, ok_fresh (by decide), keyed_fresh 0, rfl, rfl, rfl, ?_⟩
  intro key expire
  constructor
  · intro hholds
    exact absurd (hholds.amount_pos) (by rw [amount_fresh]; exact lt_irrefl 0)
  · rintro ⟨x, ⟨before, now, delay, after, hcalls, -⟩, -⟩
    exact absurd hcalls.symm (append_ne_nil_of_right_ne_nil _ (cons_ne_nil _ _))

/-! ### The result -/

/-- The answer of one update: the pending timers whose tick the clock has reached, each once. -/
def Answers (before : List Call) (now : ℕ) (fired : List TimerKey) : Prop :=
  fired.Nodup ∧ ∀ key, key ∈ fired ↔ ∃ x ≤ now / 10, Pending before key x

def Answered (calls : List Call) (returned : List (List TimerKey)) : Prop :=
  returned.length = updates calls ∧ ∀ before now after, calls = before ++ .update now :: after →
    ∃ fired, returned[updates before]? = some fired ∧ Answers before now fired

theorem updates_snoc (calls : List Call) (c : Call) : updates (calls ++ [c]) = updates calls + updates [c] :=
  countP_append

theorem answered_snoc {calls : List Call} {returned : List (List TimerKey)} {c : Call}
    (more : List (List TimerKey)) (h : Answered calls returned) (hlength : more.length = updates [c])
    (hlast : ∀ now, c = .update now → ∃ fired, more = [fired] ∧ Answers calls now fired) :
    Answered (calls ++ [c]) (returned ++ more) := by
  refine ⟨?_, ?_⟩
  · rw [List.length_append, h.1, hlength, updates_snoc]
  · intro before now after hcalls
    rcases List.eq_nil_or_concat after with rfl | ⟨after, last, rfl⟩
    · obtain ⟨hbefore, hc⟩ := List.append_inj' hcalls rfl
      subst hbefore
      obtain ⟨fired, rfl, hfired⟩ := hlast now (List.singleton_inj.mp hc)
      refine ⟨fired, ?_, hfired⟩
      rw [← h.1, List.getElem?_append_right (Nat.le_refl _), Nat.sub_self, List.getElem?_cons_zero]
    · have hshape : calls ++ [c] = (before ++ .update now :: after) ++ [last] := by simpa using hcalls
      obtain ⟨hinit, -⟩ := List.append_inj' hshape rfl
      obtain ⟨fired, hget, hfired⟩ := h.2 before now after hinit
      obtain ⟨hlt, -⟩ := List.getElem?_eq_some_iff.mp hget
      exact ⟨fired, by rw [List.getElem?_append_left hlt]; exact hget, hfired⟩

theorem answered_quiet {calls : List Call} {returned : List (List TimerKey)} {c : Call}
    (h : Answered calls returned) (hquiet : updates [c] = 0) (hnot : ∀ now, c ≠ .update now) :
    Answered (calls ++ [c]) returned := by
  have hsnoc := answered_snoc [] h hquiet.symm fun now hc => absurd hc (hnot now)
  rwa [append_nil] at hsnoc

/-- **Every run tracks its pending timers.** -/
theorem tracks_run (calls : List Call) (hclock : Clocked calls) (hkeys : NotRearmed calls) :
    ∃ timer wheel, exec call calls WheelTimer.new = some timer ∧ Tracks calls timer wheel
      ∧ Answered calls timer.returned := by
  induction calls using reverseRecOn with
  | nil =>
    refine ⟨_, _, rfl, tracks_new, rfl, ?_⟩
    intro before now after hcalls
    exact absurd hcalls.symm (append_ne_nil_of_right_ne_nil _ (cons_ne_nil _ _))
  | append_singleton calls c ih =>
    obtain ⟨timer, wheel, hrun, htracks, hanswered⟩ := ih (clocked_of_append hclock) (notRearmed_of_append hkeys)
    have hnext : ∀ timer', call c timer = some timer' → exec call (calls ++ [c]) WheelTimer.new = some timer' := by
      intro timer' hcall
      rw [exec_append, hrun, bind_some, exec, hcall]
      rfl
    cases c with
    | timeout now key delay =>
      exact ⟨_, _, hnext _ rfl, tracks_timeout htracks now delay key (hkeys calls now key delay [] rfl),
        answered_quiet hanswered rfl (by rintro _ ⟨⟩)⟩
    | cancel key =>
      obtain ⟨wheel', htracks'⟩ := tracks_cancel htracks key
      exact ⟨_, wheel', hnext _ rfl, htracks', answered_quiet hanswered rfl (by rintro _ ⟨⟩)⟩
    | update now =>
      have hbound : now < 2 ^ 64 := hclock.2 now (mem_filterMap.mpr ⟨_, mem_append_right _
        mem_cons_self, rfl⟩)
      obtain ⟨timer', wheel', fired, hupdate, htracks', hreturned, hnodup, hfired⟩ :=
        tracks_update htracks (latestTick_le hclock) hbound
      refine ⟨timer', wheel', hnext timer' hupdate, htracks', ?_⟩
      rw [hreturned]
      apply answered_snoc [fired] hanswered rfl
      intro n hn
      cases hn
      exact ⟨fired, rfl, hnodup, hfired⟩

theorem le_of_deadline_le {now delay t : ℕ} (h : deadline now delay ≤ t / 10) : saturatingAdd now delay ≤ t := by
  unfold deadline divCeil at h
  split at h <;> omega

/-- **The timer is accurate.** With a clock that does not go back and no key armed while it is
pending, each update returns exactly the keys whose tick the clock has reached since, each once, and
none before its time. -/
theorem timer_accurate (calls : List Call) (hclock : Clocked calls) (hkeys : NotRearmed calls) :
    ∃ timer, exec call calls WheelTimer.new = some timer
      ∧ timer.returned.length = updates calls
      ∧ (∀ before now after, calls = before ++ .update now :: after →
          ∃ fired, timer.returned[updates before]? = some fired ∧ fired.Nodup
            ∧ (∀ key, key ∈ fired ↔ ∃ x ≤ now / 10, Pending before key x)
            ∧ ∀ key ∈ fired, ∃ armed delay, .timeout armed key delay ∈ before ∧ saturatingAdd armed delay ≤ now)
      ∧ timer.wheel.time = timer.wheelTicks ∧ timer.wheelTicks = latestTick calls := by
  obtain ⟨timer, wheel, hrun, htracks, hlength, hanswers⟩ := tracks_run calls hclock hkeys
  refine ⟨timer, hrun, hlength, ?_, htracks.now, htracks.ticks⟩
  intro before now after hcalls
  obtain ⟨fired, hget, hnodup, hfired⟩ := hanswers before now after hcalls
  refine ⟨fired, hget, hnodup, hfired, ?_⟩
  intro key hkey
  obtain ⟨x, hx, b, armed, delay, a, rfl, rfl, -⟩ := (hfired key).mp hkey
  exact ⟨armed, delay, mem_append_right _ mem_cons_self, le_of_deadline_le hx⟩

/-- A timer of 25 milliseconds armed at the reading 7, with updates just before its tick and at it. -/
theorem timer_accurate_rounding :
    Clocked [.timeout 7 ⟨1, 1⟩ 25, .update 39, .update 40] ∧ NotRearmed [.timeout 7 ⟨1, 1⟩ 25, .update 39, .update 40]
      ∧ ∃ timer, exec call [.timeout 7 ⟨1, 1⟩ 25, .update 39, .update 40] WheelTimer.new = some timer
        ∧ timer.returned.length = 2 := by
  have hclock : Clocked [.timeout 7 ⟨1, 1⟩ 25, .update 39, .update 40] := by
    simp [Clocked, Call.reading?]
  have hkeys : NotRearmed [.timeout 7 ⟨1, 1⟩ 25, .update 39, .update 40] := by
    rintro before now key delay after hcalls expire ⟨b, n, d, a, rfl, -⟩
    have hlen := congrArg (countP fun | Call.timeout _ _ _ => true | _ => false) hcalls
    simp at hlen
    omega
  obtain ⟨timer, hrun, hlength, -⟩ := timer_accurate _ hclock hkeys
  exact ⟨hclock, hkeys, timer, hrun, hlength⟩

/-! ### Two updates or one -/

theorem pending_unique {calls : List Call} {key : TimerKey} {x y : ℕ} (hkeys : NotRearmed calls)
    (hx : Pending calls key x) (hy : Pending calls key y) : x = y := by
  induction calls using reverseRecOn with
  | nil =>
    obtain ⟨_, _, _, _, hcalls, -⟩ := hx
    simp at hcalls
  | append_singleton calls c ih =>
    rcases pending_snoc.mp hx with ⟨hx', -⟩ | ⟨n, d, rfl, rfl⟩
    · rcases pending_snoc.mp hy with ⟨hy', -⟩ | ⟨n, d, rfl, -⟩
      · exact ih (notRearmed_of_append hkeys) hx' hy'
      · exact absurd hx' (hkeys calls n key d [] rfl x)
    · rcases pending_snoc.mp hy with ⟨hy', -⟩ | ⟨n', d', hc, rfl⟩
      · exact absurd hy' (hkeys calls n key d [] rfl y)
      · cases hc
        rfl

/-- **How often the clock is read does not matter.** Two updates together return what the later
one alone would have returned. -/
theorem update_split (calls : List Call) (t₁ t₂ : ℕ) (hclock : Clocked (calls ++ [.update t₁] ++ [.update t₂]))
    (hkeys : NotRearmed calls) :
    ∃ timer first twice once f₁ f₂ f, exec call calls WheelTimer.new = some timer
      ∧ timer.update t₁ = some first ∧ first.update t₂ = some twice ∧ timer.update t₂ = some once
      ∧ twice.returned = timer.returned ++ [f₁, f₂] ∧ once.returned = timer.returned ++ [f]
      ∧ (f₁ ++ f₂).Nodup ∧ (f₁ ++ f₂).Perm f := by
  obtain ⟨timer, wheel, hrun, htracks, -⟩ := tracks_run calls (clocked_of_append (clocked_of_append hclock)) hkeys
  have hle := latestTick_le hclock
  have hnow : t₂ < 2 ^ 64 := hclock.2 t₂ (by simp [Call.reading?])
  obtain ⟨first, w₁, f₁, h₁, htracks₁, hr₁, hn₁, hf₁⟩ := tracks_update htracks
    (latestTick_le (clocked_of_append hclock)) (hclock.2 t₁ (by simp [Call.reading?]))
  obtain ⟨twice, -, f₂, h₂, -, hr₂, hn₂, hf₂⟩ := tracks_update htracks₁ hle hnow
  simp only [latestTick_snoc, max_le_iff] at hle
  obtain ⟨once, -, f, h, -, hr, hn, hf⟩ := tracks_update htracks hle.1 hnow
  simp only [pending_snoc] at hf₂
  replace hf₂ : ∀ key, key ∈ f₂ ↔ ∃ x ≤ t₂ / 10, Pending calls key x ∧ t₁ / 10 < x := by
    simpa using hf₂
  have hnodup : (f₁ ++ f₂).Nodup := by
    refine nodup_append'.mpr ⟨hn₁, hn₂, fun key hk₁ hk₂ => ?_⟩
    obtain ⟨x, hx, hp⟩ := (hf₁ key).mp hk₁
    obtain ⟨y, -, hp', hy⟩ := (hf₂ key).mp hk₂
    have heq := pending_unique hkeys hp hp'
    omega
  refine ⟨timer, first, twice, once, f₁, f₂, f, hrun, h₁, h₂, h, by simp [hr₂, hr₁], hr, hnodup, ?_⟩
  refine (perm_ext_iff_of_nodup hnodup hn).mpr fun key => ?_
  rw [mem_append, hf₁, hf₂, hf]
  constructor
  · rintro (⟨x, hx, hp⟩ | ⟨x, hx, hp, -⟩)
    · exact ⟨x, by omega, hp⟩
    · exact ⟨x, hx, hp⟩
  · rintro ⟨x, hx, hp⟩
    rcases le_or_gt x (t₁ / 10) with hle | hlt
    · exact .inl ⟨x, hle, hp⟩
    · exact .inr ⟨x, hx, hp, hlt⟩

theorem update_split_rounding :
    ∃ timer first twice : WheelTimer, timer.update 39 = some first ∧ first.update 40 = some twice := by
  obtain ⟨timer, first, twice, -, -, -, -, -, h₁, h₂, -⟩ :=
    update_split [.timeout 7 ⟨1, 1⟩ 25] 39 40 (by simp [Clocked, Call.reading?]) (by
      rintro before now key delay after hcalls expire ⟨b, n, d, a, rfl, -⟩
      have hlen := congrArg length hcalls
      simp at hlen
      omega)
  exact ⟨timer, first, twice, h₁, h₂⟩

end Rskynet.Timer
