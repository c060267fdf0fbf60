import Rskynet.Timer.Contents

/-!
# The wheel returns every event at its tick

Runs of a wheel from any tick: events are added and cancelled, and the wheel is advanced as the timer service
advances it, by an `execute`, a `shift` and an `execute`. The log of a run has every event as it was filed,
cancelled, and returned with the tick of the `execute` that returned it.

* `advance_spec` — **PROVED**: one advance returns the events of the old tick and of the new one;
* `wheel_exact` — **PROVED**: from any tick, whatever was added and cancelled, every event filed is returned
  once by the execute at its tick, or cancelled, or still in the wheel and not overdue.
-/

namespace Rskynet.Timer

open Interleave List Option

/-! ### Advancing -/

/-- One round of the loop that drives the wheel: the events returned come with the tick of their
`execute`. -/
def Wheel.advance (wheel : Wheel) : Wheel × List (ℕ × TimerEvent) :=
  let due := wheel.execute
  let turned := due.1.shift
  let next := turned.execute
  (next.1, due.2.map (fun event => (wheel.time, event)) ++ next.2.map fun event => (turned.time, event))

variable {wheel wheel' : Wheel}

theorem advance_spec (hok : wheel.Ok) (hmax : wheel.time + 1 < 2 ^ 64) :
    wheel.advance.1.Ok ∧ wheel.advance.1.time = wheel.time + 1
      ∧ (∀ fired ∈ wheel.advance.2, fired.2.expire = fired.1 ∧ fired.1 ≤ wheel.time + 1)
      ∧ (∀ slot, ∀ event ∈ wheel.advance.1.slots slot, wheel.time + 2 ≤ event.expire)
      ∧ (∀ p, wheel.amount p = wheel.advance.1.amount p + (wheel.advance.2.map Prod.snd).countP p)
      ∧ (wheel.Keyed → wheel.advance.1.Keyed) := by
  obtain ⟨hok₁, htime₁, hdue, hlate₁, hamount₁⟩ := execute_spec hok
  rw [← htime₁] at hlate₁
  have hmax₁ : wheel.execute.1.time + 1 < 2 ^ 64 := by rw [htime₁]; exact hmax
  obtain ⟨hok₂, htime₂, hamount₂⟩ := shift_spec hok₁ hmax₁ hlate₁
  obtain ⟨hok₃, htime₃, hnext, hlate₃, hamount₃⟩ := execute_spec hok₂
  rw [htime₁] at htime₂
  rw [htime₂] at htime₃ hnext hlate₃
  refine ⟨hok₃, htime₃, ?_, hlate₃, ?_, ?_⟩
  · intro fired hmem
    rcases List.mem_append.mp hmem with hmem | hmem
    · obtain ⟨event, hevent, rfl⟩ := List.mem_map.mp hmem
      exact ⟨hdue event hevent, Nat.le_succ _⟩
    · obtain ⟨event, hevent, rfl⟩ := List.mem_map.mp hmem
      exact ⟨(hnext event hevent).trans htime₂.symm, htime₂.le⟩
  · intro p
    have h₁ := hamount₁ p
    have h₂ := hamount₂ p
    have h₃ := hamount₃ p
    simp only [Wheel.advance, List.map_append, List.map_map, List.countP_append]
    have hmap : ∀ (time : ℕ) (events : List TimerEvent),
        events.map (Prod.snd ∘ fun event => (time, event)) = events := fun time events => List.map_id events
    rw [hmap, hmap]
    omega
  · intro hkeyed
    exact keyed_execute hok₂ (keyed_shift hok₁ (keyed_execute hok hkeyed))

/-! ### Runs -/

inductive Op where
  | add (event : TimerEvent)
  | cancel (key : TimerKey)
  | advance

inductive Entry where
  | filed (event : TimerEvent)
  | cancelled (event : TimerEvent)
  | fired (tick : ℕ) (event : TimerEvent)
  deriving DecidableEq

structure Logged where
  wheel : Wheel
  log : List Entry

def step : Op → Logged → Option Logged
  | .add event, s => some ⟨s.wheel.add event, s.log ++ [.filed (event.filedAt s.wheel.time)]⟩
  | .cancel key, s =>
    (s.wheel.cancel key).map fun wheel => ⟨wheel, s.log ++ (s.wheel.found key).toList.map .cancelled⟩
  | .advance, s => some ⟨s.wheel.advance.1, s.log ++ s.wheel.advance.2.map fun f => .fired f.1 f.2⟩

def ticks (ops : List Op) : ℕ := ops.countP fun | .advance => true | _ => false

theorem ticks_cons (op : Op) (ops : List Op) : ticks (op :: ops) = ticks [op] + ticks ops :=
  @countP_append _ _ [op] ops

def Op.Fits : Op → Prop
  | .add event => event.expire < 2 ^ 64
  | _ => True

def FreshKey (s : Logged) : Op → Prop
  | .add event => s.wheel.amount (hasKey event.key) = 0
  | _ => True

/-- **The log accounts for every event.** -/
structure Booked (s : Logged) : Prop where
  ok : s.wheel.Ok
  punctual : ∀ tick event, .fired tick event ∈ s.log → event.expire = tick
  balance : ∀ event, s.log.count (.filed event)
    = s.log.count (.fired event.expire event) + s.log.count (.cancelled event) + s.wheel.present event

theorem count_fired_map (fired : List (ℕ × TimerEvent)) (event : TimerEvent)
    (h : ∀ f ∈ fired, f.2.expire = f.1) :
    (fired.map fun f => Entry.fired f.1 f.2).count (.fired event.expire event)
      = (fired.map Prod.snd).countP fun e => decide (e = event) := by
  induction fired with
  | nil => rfl
  | cons f fired ih =>
    have hrest := ih fun g hg => h g (mem_cons_of_mem _ hg)
    have hone : (Entry.fired f.1 f.2 == .fired event.expire event) = decide (f.2 = event) := by
      by_cases heq : f.2 = event
      · subst heq
        simp [h f mem_cons_self]
      · simp [heq]
    rw [map_cons, map_cons, count_cons, countP_cons, hrest, hone]

theorem count_map_of_ne {α : Type} (f : α → Entry) (xs : List α) (entry : Entry) (h : ∀ x, f x ≠ entry) :
    (xs.map f).count entry = 0 := by
  rw [count_eq_zero]
  intro hmem
  obtain ⟨x, -, hx⟩ := mem_map.mp hmem
  exact h x hx

theorem count_cancelled_map (found : Option TimerEvent) (event : TimerEvent) :
    (found.toList.map Entry.cancelled).count (.cancelled event)
      = found.toList.countP fun e => decide (e = event) := by
  cases found with
  | none => rfl
  | some e => by_cases h : e = event <;> simp [h]

variable {s : Logged}

theorem booked_step {op : Op} {s' : Logged} (hbooked : Booked s) (hfits : op.Fits)
    (hmax : s.wheel.time + ticks [op] < 2 ^ 64) (h : step op s = some s') :
    Booked s' ∧ s'.wheel.time = s.wheel.time + ticks [op] := by
  cases op with
  | add event =>
    obtain rfl := some.inj h
    refine ⟨⟨ok_add hbooked.ok hfits, ?_, ?_⟩, rfl⟩
    · intro tick e hmem
      rcases mem_append.mp hmem with hmem | hmem
      · exact hbooked.punctual tick e hmem
      · cases mem_singleton.mp hmem
    · intro e
      have hbalance := hbooked.balance e
      have hadd : (s.wheel.add event).present e
          = s.wheel.present e + if event.filedAt s.wheel.time = e then 1 else 0 := by
        simpa [Wheel.present] using amount_add s.wheel (fun x => decide (x = e)) event
      have hcount : [Entry.filed (event.filedAt s.wheel.time)].count (.filed e)
          = if event.filedAt s.wheel.time = e then 1 else 0 := by
        simp [count_singleton]
      simp
      omega
  | cancel key =>
    obtain ⟨wheel, hcancel, rfl⟩ := map_eq_some_iff.mp h
    obtain ⟨w, hw, hok, htime, hamount⟩ := cancel_spec hbooked.ok key
    obtain rfl : w = wheel := some.inj (hw.symm.trans hcancel)
    refine ⟨⟨hok, ?_, ?_⟩, htime⟩
    · intro tick e hmem
      rcases mem_append.mp hmem with hmem | hmem
      · exact hbooked.punctual tick e hmem
      · obtain ⟨x, -, hx⟩ := mem_map.mp hmem
        cases hx
    · intro e
      have hbalance := hbooked.balance e
      have hpresent : s.wheel.present e = w.present e + _ := hamount fun x => decide (x = e)
      simp only [count_append, count_cancelled_map]
      rw [count_map_of_ne _ _ _ (fun x => by simp), count_map_of_ne _ _ _ (fun x => by simp)]
      omega
  | advance =>
    obtain rfl := some.inj h
    obtain ⟨hok, htime, hfired, -, hamount, -⟩ := advance_spec hbooked.ok hmax
    refine ⟨⟨hok, ?_, ?_⟩, htime⟩
    · intro tick e hmem
      rcases mem_append.mp hmem with hmem | hmem
      · exact hbooked.punctual tick e hmem
      · obtain ⟨f, hf, heq⟩ := mem_map.mp hmem
        cases heq
        exact (hfired f hf).1
    · intro e
      have hbalance := hbooked.balance e
      have hpresent : s.wheel.present e = s.wheel.advance.1.present e + _ := hamount fun x => decide (x = e)
      simp only [count_append, count_fired_map _ e fun f hf => (hfired f hf).1]
      rw [count_map_of_ne _ _ _ (fun x => by simp), count_map_of_ne _ _ _ (fun x => by simp)]
      omega

def cancels (key : TimerKey) (ops : List Op) : ℕ :=
  ops.countP fun | .cancel k => decide (k = key) | _ => false

def Logged.cancelled (s : Logged) (key : TimerKey) : ℕ :=
  s.log.countP fun | .cancelled event => hasKey key event | _ => false

theorem cancelled_append (s : Logged) (wheel : Wheel) (key : TimerKey) (entries : List Entry) :
    Logged.cancelled ⟨wheel, s.log ++ entries⟩ key
      = s.cancelled key + Logged.cancelled ⟨wheel, entries⟩ key := countP_append

theorem cancelled_step {op : Op} {s' : Logged} (hok : s.wheel.Ok) (h : step op s = some s')
    (key : TimerKey) :
    s'.cancelled key ≤ s.cancelled key + cancels key [op] := by
  cases op with
  | add event =>
    obtain rfl := some.inj h
    exact (cancelled_append s _ key _).le
  | cancel k =>
    obtain ⟨wheel, hcancel, rfl⟩ := map_eq_some_iff.mp h
    rw [cancelled_append]
    refine Nat.add_le_add_left ?_ _
    cases hfound : s.wheel.found k with
    | none => exact Nat.zero_le _
    | some event =>
      have hkey := found_key hok hfound
      subst hkey
      simp [Logged.cancelled, cancels, hasKey]
  | advance =>
    obtain rfl := some.inj h
    rw [cancelled_append]
    have hnone : Logged.cancelled ⟨s.wheel.advance.1,
        s.wheel.advance.2.map fun f => Entry.fired f.1 f.2⟩ key = 0 := by
      simp only [Logged.cancelled, countP_eq_zero]
      intro entry hmem
      obtain ⟨f, -, rfl⟩ := mem_map.mp hmem
      exact Bool.false_ne_true
    rw [hnone]
    exact Nat.le_add_right _ _

theorem step_isSome (op : Op) (hok : s.wheel.Ok) : ∃ s', step op s = some s' := by
  cases op with
  | add | advance => exact ⟨_, rfl⟩
  | cancel key =>
    obtain ⟨wheel, hcancel, -⟩ := cancel_spec hok key
    exact ⟨_, by rw [step, hcancel, map_some]⟩

theorem booked_run (ops : List Op) (hbooked : Booked s) (hfits : ∀ op ∈ ops, op.Fits)
    (hmax : s.wheel.time + ticks ops < 2 ^ 64) :
    ∃ s', exec step ops s = some s' ∧ Booked s' ∧ s'.wheel.time = s.wheel.time + ticks ops
      ∧ ∀ key, s'.cancelled key ≤ s.cancelled key + cancels key ops := by
  induction ops generalizing s with
  | nil => exact ⟨s, rfl, hbooked, rfl, fun key => Nat.le_refl _⟩
  | cons op ops ih =>
    have hsplit := ticks_cons op ops
    obtain ⟨s₁, h₁⟩ := step_isSome op hbooked.ok
    obtain ⟨hbooked₁, htime₁⟩ := booked_step hbooked (hfits op mem_cons_self) (by omega) h₁
    obtain ⟨s₂, h₂, hbooked₂, htime₂, hcancelled⟩ := ih hbooked₁
      (fun o ho => hfits o (mem_cons_of_mem _ ho)) (by omega)
    refine ⟨s₂, bind_eq_some_iff.mpr ⟨s₁, h₁, h₂⟩, hbooked₂, by omega, ?_⟩
    intro key
    have hone := cancelled_step hbooked.ok h₁ key
    have hrest := hcancelled key
    have hsum : cancels key (op :: ops) = cancels key [op] + cancels key ops :=
      @countP_append _ _ [op] ops
    omega

theorem keyed_step {op : Op} {s' : Logged} (hbooked : Booked s)
    (hmax : s.wheel.time + ticks [op] < 2 ^ 64) (hkeyed : s.wheel.Keyed) (hfresh : FreshKey s op)
    (h : step op s = some s') : s'.wheel.Keyed := by
  cases op with
  | add event =>
    obtain rfl := some.inj h
    exact keyed_add hkeyed hfresh
  | cancel key =>
    obtain ⟨wheel, hcancel, rfl⟩ := map_eq_some_iff.mp h
    exact (keyed_cancel hbooked.ok hkeyed hcancel).1
  | advance =>
    obtain rfl := some.inj h
    obtain ⟨-, -, -, -, -, hkeeps⟩ := advance_spec hbooked.ok hmax
    exact hkeeps hkeyed

theorem keyed_run (ops : List Op) {s' : Logged} (hbooked : Booked s) (hfits : ∀ op ∈ ops, op.Fits)
    (hmax : s.wheel.time + ticks ops < 2 ^ 64) (hkeyed : s.wheel.Keyed)
    (hfresh : along step FreshKey ops s) (h : exec step ops s = some s') : s'.wheel.Keyed := by
  induction ops generalizing s with
  | nil => exact some.inj h ▸ hkeyed
  | cons op ops ih =>
    have hsplit := ticks_cons op ops
    obtain ⟨s₁, h₁, hrest⟩ := bind_eq_some_iff.mp h
    obtain ⟨hbooked₁, htime₁⟩ := booked_step hbooked (hfits op mem_cons_self) (by omega) h₁
    exact ih hbooked₁ (fun o ho => hfits o (mem_cons_of_mem _ ho)) (by omega)
      (keyed_step hbooked (by omega) hkeyed hfresh.1 h₁) (hfresh.2 s₁ h₁) hrest

/-! ### The result -/

def Logged.start (tick : ℕ) : Logged := ⟨Wheel.fresh tick, []⟩

theorem booked_start {tick : ℕ} (h : tick < 2 ^ 64) : Booked (Logged.start tick) := by
  refine ⟨ok_fresh h, ?_, ?_⟩
  · intro t event hmem
    exact absurd hmem not_mem_nil
  · intro event
    have hempty : (Logged.start tick).wheel.present event = 0 := amount_fresh tick
    rw [hempty]
    rfl

theorem exists_mem_of_present {event : TimerEvent} (h : 0 < wheel.present event) :
    ∃ slot, event ∈ wheel.slots slot := by
  obtain ⟨slot, e, hmem, he⟩ := amount_pos h
  obtain rfl : e = event := of_decide_eq_true he
  exact ⟨slot, hmem⟩

/-- **The wheel is exact from any tick.** Whatever is added and cancelled in between, nothing
panics, and each event is returned once, by an execute at the tick it was filed for (`filedAt`), or
was taken out by a cancellation of its key, or is still in the wheel and not overdue. -/
theorem wheel_exact (tick : ℕ) (ops : List Op) (hfits : ∀ op ∈ ops, op.Fits)
    (hmax : tick + ticks ops < 2 ^ 64) :
    ∃ s, exec step ops (Logged.start tick) = some s ∧ s.wheel.time = tick + ticks ops
      ∧ (∀ time event, .fired time event ∈ s.log → event.expire = time)
      ∧ (∀ event, s.log.count (.filed event) = s.log.count (.fired event.expire event)
          + s.log.count (.cancelled event) + s.wheel.present event)
      ∧ (∀ key, s.cancelled key ≤ cancels key ops)
      ∧ (∀ event, 0 < s.wheel.present event → s.wheel.time ≤ event.expire)
      ∧ (ops.getLast? = some .advance → ∀ event, 0 < s.wheel.present event → s.wheel.time < event.expire)
      ∧ ∀ key, ops.getLast? = some (.cancel key) → along step FreshKey ops (Logged.start tick) →
          ∀ event, event.key = key → s.wheel.present event = 0 := by
  have hstart : tick < 2 ^ 64 := by omega
  obtain ⟨s, hrun, hbooked, htime, hcancelled⟩ := booked_run ops (booked_start hstart) hfits hmax
  have hlast : ∀ op, ops.getLast? = some op → ∃ pre s₁, ops = pre ++ [op] ∧ exec step pre (Logged.start tick) = some s₁
      ∧ Booked s₁ ∧ s₁.wheel.time = tick + ticks pre ∧ tick + ticks pre + ticks [op] < 2 ^ 64
      ∧ step op s₁ = some s := by
    intro op hop
    obtain ⟨pre, rfl⟩ := getLast?_eq_some_iff.mp hop
    have hsplit : ticks (pre ++ [op]) = ticks pre + ticks [op] := countP_append
    obtain ⟨s₁, hpre, hbooked₁, htime₁, -⟩ := booked_run pre (booked_start hstart)
      (fun o ho => hfits o (mem_append_left _ ho)) (show tick + ticks pre < 2 ^ 64 by omega)
    rw [exec_append, hpre, bind_some] at hrun
    obtain ⟨s₂, hstep, hend⟩ := bind_eq_some_iff.mp hrun
    cases hend
    exact ⟨pre, s₁, rfl, hpre, hbooked₁, htime₁, by omega, hstep⟩
  refine ⟨s, hrun, htime, hbooked.punctual, hbooked.balance, ?_, ?_, ?_, ?_⟩
  · intro key
    simpa [Logged.cancelled, Logged.start] using hcancelled key
  · intro event hpresent
    obtain ⟨slot, hmem⟩ := exists_mem_of_present hpresent
    exact (hbooked.ok.placed slot event hmem).1
  · intro hop event hpresent
    obtain ⟨pre, s₁, -, -, hbooked₁, htime₁, hmax₁, hstep⟩ := hlast _ hop
    obtain rfl := some.inj hstep
    rw [← htime₁] at hmax₁
    obtain ⟨-, hnow, -, hlate, -⟩ := advance_spec hbooked₁.ok hmax₁
    obtain ⟨slot, hmem⟩ := exists_mem_of_present hpresent
    have hle := hlate slot event hmem
    have hnow' : (Logged.mk s₁.wheel.advance.1
      (s₁.log ++ s₁.wheel.advance.2.map fun f => Entry.fired f.1 f.2)).wheel.time = s₁.wheel.time + 1 := hnow
    omega
  · intro key hop hfresh event hkey
    obtain ⟨pre, s₁, rfl, hpre, hbooked₁, htime₁, hmax₁, hstep⟩ := hlast _ hop
    have hkeyed : s₁.wheel.Keyed := keyed_run pre (booked_start hstart)
      (fun o ho => hfits o (mem_append_left _ ho)) (show tick + ticks pre < 2 ^ 64 by omega)
      (keyed_fresh tick) (along_append hpre hfresh).1 hpre
    obtain ⟨wheel', hcancel, rfl⟩ := map_eq_some_iff.mp hstep
    have hnone := (keyed_cancel hbooked₁.ok hkeyed hcancel).2
    by_contra hpresent
    obtain ⟨slot, hmem⟩ := exists_mem_of_present (Nat.pos_of_ne_zero hpresent)
    have hpos : 0 < (wheel'.slots slot).countP (hasKey key) :=
      countP_pos_iff.mpr ⟨event, hmem, decide_eq_true hkey⟩
    have hle := countP_le_amount wheel' (hasKey key) slot
    omega

/-- A run across a cascade of every level: a timer for the tick `2 ^ 62`, added one tick before, and one that
is cancelled. -/
theorem wheel_exact_cascade :
    (∀ op ∈ [Op.add ⟨1, 1, 2 ^ 62⟩, .add ⟨1, 2, 2 ^ 63⟩, .advance, .cancel ⟨1, 2⟩], op.Fits)
      ∧ ∃ s, exec step [.add ⟨1, 1, 2 ^ 62⟩, .add ⟨1, 2, 2 ^ 63⟩, .advance, .cancel ⟨1, 2⟩]
        (Logged.start (2 ^ 62 - 1)) = some s ∧ s.wheel.time = 2 ^ 62 := by
  have hfits : ∀ op ∈ [Op.add ⟨1, 1, 2 ^ 62⟩, .add ⟨1, 2, 2 ^ 63⟩, .advance, .cancel ⟨1, 2⟩], op.Fits := by
    intro op hop
    simp only [mem_cons, not_mem_nil, or_false] at hop
    rcases hop with rfl | rfl | rfl | rfl <;> simp [Op.Fits]
  refine ⟨hfits, ?_⟩
  obtain ⟨s, hrun, htime, -⟩ := wheel_exact (2 ^ 62 - 1) _ hfits (by decide)
  exact ⟨s, hrun, htime⟩

end Rskynet.Timer
