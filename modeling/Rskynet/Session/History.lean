import Rskynet.Session.Table

/-!
# What the session table does over a history

A history is the list of operations so far with their outcomes, the newest first. What the table
answers is a function of the events since the session was last allocated.

* `session_table_refines_map` — **PROVED**: the answers of the table in terms of the history.
-/

namespace Rskynet.Session

open List

variable {ρ ω : Type*}

/-! ### Histories -/

inductive Event (ρ ω : Type*) where
  | alloc (session : UInt64)
  | complete (session : UInt64) (result : ρ) (accepted : Bool) (woken : Option ω)
  | poll (session : UInt64) (waker : ω) (polled : Table.Polled ρ)
  | abandon (session : UInt64)
  | clear

inductive Run (willWake : ω → ω → Bool) : List (Event ρ ω) → Table ρ ω → Prop where
  | new : Run willWake [] Table.new
  | alloc {es t t' s} (h : Run willWake es t) (hs : t.alloc = some (t', s)) :
      Run willWake (.alloc s :: es) t'
  | complete {es t} (h : Run willWake es t) (s : UInt64) (r : ρ) :
      Run willWake (.complete s r (t.complete s r).2.1 (t.complete s r).2.2 :: es)
        (t.complete s r).1
  | poll {es t} (h : Run willWake es t) (s : UInt64) (w : ω) :
      Run willWake (.poll s w (t.poll willWake s w).2 :: es) (t.poll willWake s w).1
  | abandon {es t} (h : Run willWake es t) (s : UInt64) :
      Run willWake (.abandon s :: es) (t.abandon s)
  | clear {es t} (h : Run willWake es t) : Run willWake (.clear :: es) t.clear

namespace Event

def allocates (s : UInt64) : Event ρ ω → Bool
  | .alloc s' => s' == s
  | _ => false

def delivers (s : UInt64) : Event ρ ω → Bool
  | .poll s' _ (.ready _) => s' == s
  | _ => false

def ends (s : UInt64) : Event ρ ω → Bool
  | .abandon s' => s' == s
  | .clear => true
  | e => e.delivers s

/-- The value with which the event completes the session, whether or not it is accepted. -/
def value (s : UInt64) : Event ρ ω → Option ρ
  | .complete s' r _ _ => if s' = s then some r else none
  | _ => none

def parked (s : UInt64) : Event ρ ω → Option ω
  | .poll s' w .pending => if s' = s then some w else none
  | _ => none

end Event

def epoch (s : UInt64) (es : List (Event ρ ω)) : List (Event ρ ω) :=
  es.takeWhile fun e => !e.allocates s

/-- The session has been allocated, and not delivered, abandoned or cleared since. -/
def Live (s : UInt64) (es : List (Event ρ ω)) : Prop :=
  (∃ e ∈ es, e.allocates s = true) ∧ ∀ e ∈ epoch s es, e.ends s = false

/-- The values of the attempts to complete the session since it was allocated, the oldest first. -/
def completions (s : UInt64) (es : List (Event ρ ω)) : List ρ :=
  (epoch s es).reverse.filterMap (Event.value s)

/-- The waker of the latest poll since the allocation that was answered `Pending`. -/
def lastWaker (s : UInt64) (es : List (Event ρ ω)) : Option ω :=
  (epoch s es).findSome? (Event.parked s)

/-! ### One more event -/

section Cons

variable {s : UInt64} {e : Event ρ ω} {es : List (Event ρ ω)}

theorem epoch_alloc (h : e.allocates s = true) : epoch s (e :: es) = [] := by
  simp [epoch, h]

theorem epoch_cons (h : e.allocates s = false) : epoch s (e :: es) = e :: epoch s es := by
  simp [epoch, h]

theorem live_alloc (h : e.allocates s = true) : Live s (e :: es) := by
  refine ⟨⟨e, mem_cons_self, h⟩, ?_⟩
  rw [epoch_alloc h]
  intro e' he
  exact absurd he not_mem_nil

theorem live_cons (h : e.allocates s = false) :
    Live s (e :: es) ↔ e.ends s = false ∧ Live s es := by
  unfold Live
  rw [epoch_cons h]
  constructor
  · rintro ⟨⟨e', he', ha⟩, hends⟩
    refine ⟨hends e mem_cons_self, ⟨e', ?_, ha⟩, fun e'' he'' =>
      hends e'' (mem_cons_of_mem _ he'')⟩
    rcases mem_cons.mp he' with rfl | hmem
    · rw [h] at ha
      cases ha
    · exact hmem
  · rintro ⟨hend, ⟨e', he', ha⟩, hends⟩
    exact ⟨⟨e', mem_cons_of_mem _ he', ha⟩, forall_mem_cons.mpr ⟨hend, hends⟩⟩

theorem completions_alloc (h : e.allocates s = true) : completions s (e :: es) = [] := by
  rw [completions, epoch_alloc h]
  rfl

theorem completions_cons (h : e.allocates s = false) :
    completions s (e :: es) = completions s es ++ (e.value s).toList := by
  rw [completions, epoch_cons h, reverse_cons, filterMap_append]
  cases hv : e.value s <;> simp [completions, hv]

theorem lastWaker_alloc (h : e.allocates s = true) : lastWaker s (e :: es) = none := by
  rw [lastWaker, epoch_alloc h]
  rfl

theorem lastWaker_cons (h : e.allocates s = false) :
    lastWaker s (e :: es) = (e.parked s).or (lastWaker s es) := by
  rw [lastWaker, epoch_cons h, findSome?_cons]
  cases e.parked s <;> rfl

end Cons

/-! ### The table records the history -/

/-- The waker in the table would wake whom the latest one would. -/
def SameWaker (willWake : ω → ω → Bool) : Option ω → Option ω → Prop
  | none, none => True
  | some kept, some latest => kept = latest ∨ willWake kept latest = true
  | _, _ => False

/-- The entry of the table for a session agrees with the history. -/
def Agrees (willWake : ω → ω → Bool) (s : UInt64) (es : List (Event ρ ω)) :
    Option (Slot ρ ω) → Prop
  | none => ¬ Live s es
  | some (.waiting waker) =>
      Live s es ∧ completions s es = [] ∧ SameWaker willWake waker (lastWaker s es)
  | some (.done r) => Live s es ∧ (completions s es).head? = some r

def Recorded (willWake : ω → ω → Bool) (es : List (Event ρ ω)) (t : Table ρ ω) : Prop :=
  ∀ s, Agrees willWake s es (t.slots.lookup s)

section Agrees

variable {willWake : ω → ω → Bool} {s : UInt64} {e : Event ρ ω} {es : List (Event ρ ω)}

/-- An event that does not end a session or park a poll of it, and completes it at most after it has
been completed, leaves its entry as it is. -/
theorem Agrees.keep {x : Option (Slot ρ ω)} (h : Agrees willWake s es x)
    (halloc : e.allocates s = false) (hends : e.ends s = false) (hparked : e.parked s = none)
    (hvalue : e.value s = none ∨ ∀ w, x ≠ some (.waiting w)) : Agrees willWake s (e :: es) x := by
  have hlive : Live s (e :: es) ↔ Live s es := by
    rw [live_cons halloc]
    exact and_iff_right hends
  cases x with
  | none => exact fun hl => h (hlive.mp hl)
  | some slot =>
    cases slot with
    | waiting waker =>
      obtain ⟨hl, hc, hw⟩ := h
      have hnone := hvalue.resolve_right fun hne => hne waker rfl
      refine ⟨hlive.mpr hl, ?_, ?_⟩
      · rw [completions_cons halloc, hc, hnone]
        rfl
      · rw [lastWaker_cons halloc, hparked]
        exact hw
    | done r =>
      obtain ⟨hl, hc⟩ := h
      refine ⟨hlive.mpr hl, ?_⟩
      rw [completions_cons halloc, head?_append, hc]
      rfl

theorem Agrees.ended (halloc : e.allocates s = false) (hends : e.ends s = true) :
    Agrees willWake s (e :: es) none := by
  intro hl
  rw [live_cons halloc, hends] at hl
  exact nomatch hl.1

theorem Agrees.other {x : Option (Slot ρ ω)} {s' : UInt64} (h : Agrees willWake s es x)
    (hne : s' ≠ s)
    (he : e = .alloc s' ∨ (∃ r b w, e = .complete s' r b w) ∨ (∃ w p, e = .poll s' w p) ∨
      e = .abandon s') : Agrees willWake s (e :: es) x := by
  have hbeq : (s' == s) = false := beq_false_of_ne hne
  rcases he with rfl | ⟨r, b, w, rfl⟩ | ⟨w, p, rfl⟩ | rfl
  · exact h.keep hbeq rfl rfl (.inl rfl)
  · exact h.keep rfl rfl rfl (.inl (if_neg hne))
  · cases p with
    | pending => exact h.keep rfl rfl (if_neg hne) (.inl rfl)
    | ready r => exact h.keep rfl hbeq rfl (.inl rfl)
    | canceled => exact h.keep rfl rfl rfl (.inl rfl)
  · exact h.keep rfl hbeq rfl (.inl rfl)

end Agrees

section Recorded

variable {willWake : ω → ω → Bool} {es : List (Event ρ ω)} {t : Table ρ ω}

theorem Recorded.alloc {t' : Table ρ ω} {s : UInt64} (h : Recorded willWake es t)
    (hs : t.alloc = some (t', s)) : Recorded willWake (.alloc s :: es) t' := by
  obtain ⟨-, -, hslots, -⟩ := Table.allocLoop_spec hs
  intro s'
  rw [hslots]
  by_cases hne : s' = s
  · subst hne
    have ha : (Event.alloc s' : Event ρ ω).allocates s' = true := beq_self_eq_true s'
    rw [AList.lookup_insert]
    refine ⟨live_alloc ha, completions_alloc ha, ?_⟩
    rw [lastWaker_alloc ha]
    trivial
  · rw [AList.lookup_insert_ne hne]
    exact (h s').other (Ne.symm hne) (.inl rfl)

theorem Recorded.complete (h : Recorded willWake es t) (s : UInt64) (r : ρ) :
    Recorded willWake (.complete s r (t.complete s r).2.1 (t.complete s r).2.2 :: es)
      (t.complete s r).1 := by
  intro s'
  have hs := h s
  by_cases hne : s' = s
  · subst hne
    unfold Table.complete
    split
    · next hold =>
      rw [hold] at hs ⊢
      exact hs.keep rfl rfl rfl (.inr fun w hw => nomatch hw)
    · next hold =>
      rw [hold] at hs ⊢
      exact hs.keep rfl rfl rfl (.inr fun w hw => nomatch hw)
    · next waker hold =>
      rw [hold] at hs
      obtain ⟨hl, hc, -⟩ := hs
      rw [AList.lookup_insert]
      refine ⟨(live_cons rfl).mpr ⟨rfl, hl⟩, ?_⟩
      rw [completions_cons rfl, hc]
      simp [Event.value]
  · have hsame : (t.complete s r).1.slots.lookup s' = t.slots.lookup s' := by
      unfold Table.complete
      split
      · rfl
      · rfl
      · exact AList.lookup_insert_ne hne
    rw [hsame]
    exact (h s').other (Ne.symm hne) (.inr (.inl ⟨_, _, _, rfl⟩))

theorem Recorded.poll (h : Recorded willWake es t) (s : UInt64) (w : ω) :
    Recorded willWake (.poll s w (t.poll willWake s w).2 :: es) (t.poll willWake s w).1 := by
  intro s'
  have hs := h s
  by_cases hne : s' = s
  · subst hne
    have hparked : (Event.poll s' w .pending : Event ρ ω).parked s' = some w := if_pos rfl
    unfold Table.poll
    split
    · next old hold =>
      rw [hold] at hs
      obtain ⟨hl, hc, -⟩ := hs
      have hlive : Live s' (Event.poll s' w .pending :: es) := (live_cons rfl).mpr ⟨rfl, hl⟩
      have hcompletions : completions s' (Event.poll s' w .pending :: es) = [] := by
        rw [completions_cons rfl, hc]
        rfl
      split
      · next hwake =>
        rw [hold]
        refine ⟨hlive, hcompletions, ?_⟩
        rw [lastWaker_cons rfl, hparked]
        cases old with
        | none => cases hwake
        | some kept => exact .inr hwake
      · rw [AList.lookup_insert]
        refine ⟨hlive, hcompletions, ?_⟩
        rw [lastWaker_cons rfl, hparked]
        exact .inl rfl
    · rw [AList.lookup_erase]
      exact Agrees.ended rfl (beq_self_eq_true s')
    · next hold =>
      exact hs.keep rfl rfl rfl (.inl rfl)
  · have hsame : (t.poll willWake s w).1.slots.lookup s' = t.slots.lookup s' := by
      unfold Table.poll
      split
      · split
        · rfl
        · exact AList.lookup_insert_ne hne
      · exact AList.lookup_erase_ne hne
      · rfl
    rw [hsame]
    exact (h s').other (Ne.symm hne) (.inr (.inr (.inl ⟨_, _, rfl⟩)))

theorem Recorded.abandon (h : Recorded willWake es t) (s : UInt64) :
    Recorded willWake (.abandon s :: es) (t.abandon s) := by
  intro s'
  by_cases hne : s' = s
  · subst hne
    have hnone : (t.abandon s').slots.lookup s' = none := by
      unfold Table.abandon
      split
      · exact AList.lookup_erase _ _
      · assumption
    rw [hnone]
    exact Agrees.ended rfl (beq_self_eq_true s')
  · have hsame : (t.abandon s).slots.lookup s' = t.slots.lookup s' := by
      unfold Table.abandon
      split
      · exact AList.lookup_erase_ne hne
      · rfl
    rw [hsame]
    exact (h s').other (Ne.symm hne) (.inr (.inr (.inr rfl)))

theorem Recorded.clear (es : List (Event ρ ω)) (t : Table ρ ω) :
    Recorded willWake (.clear :: es) t.clear :=
  fun _ => Agrees.ended rfl rfl

theorem Run.recorded (h : Run willWake es t) : Recorded willWake es t ∧ t.Counted := by
  induction h with
  | new => exact ⟨fun s hl => absurd hl.1 (by simp), Table.Counted.new⟩
  | alloc h hs ih => exact ⟨ih.1.alloc hs, ih.2.alloc hs⟩
  | complete h s r ih => exact ⟨ih.1.complete s r, ih.2.complete s r⟩
  | poll h s w ih => exact ⟨ih.1.poll s w, ih.2.poll willWake s w⟩
  | abandon h s ih => exact ⟨ih.1.abandon s, ih.2.abandon s⟩
  | clear h ih => exact ⟨Recorded.clear _ _, Table.Counted.clear _⟩

end Recorded

/-! ### The answers of the table -/

section Answers

variable {willWake : ω → ω → Bool} {es : List (Event ρ ω)} {t : Table ρ ω}

theorem Recorded.mem_iff (h : Recorded willWake es t) (s : UInt64) :
    s ∈ t.slots ↔ Live s es := by
  have hs := h s
  rw [← AList.lookup_isSome]
  cases hl : t.slots.lookup s with
  | none =>
    rw [hl] at hs
    exact ⟨nofun, fun hlive => absurd hlive hs⟩
  | some slot =>
    rw [hl] at hs
    cases slot with
    | waiting | done => exact ⟨fun _ => hs.1, fun _ => rfl⟩

/-- A completion is accepted exactly if it is the first of a live session. -/
theorem Recorded.complete_iff (h : Recorded willWake es t) (s : UInt64) (r : ρ) :
    (t.complete s r).2.1 = true ↔ Live s es ∧ completions s es = [] := by
  have hs := h s
  unfold Table.complete
  split
  · next hold =>
    rw [hold] at hs
    exact ⟨nofun, fun hlive => absurd hlive.1 hs⟩
  · next hold =>
    rw [hold] at hs
    refine ⟨nofun, fun hlive => ?_⟩
    have hhead := hs.2
    rw [hlive.2] at hhead
    cases hhead
  · next hold =>
    rw [hold] at hs
    exact ⟨fun _ => ⟨hs.1, hs.2.1⟩, fun _ => rfl⟩

theorem complete_refused {s : UInt64} {r : ρ} (hno : (t.complete s r).2.1 = false) :
    t.complete s r = (t, false, none) := by
  unfold Table.complete at hno ⊢
  split
  · rfl
  · rfl
  · next hold =>
    rw [hold] at hno
    cases hno

theorem Recorded.complete_wakes (h : Recorded willWake es t) {s : UInt64} {r : ρ} {latest : ω}
    (hyes : (t.complete s r).2.1 = true) (hlast : lastWaker s es = some latest) :
    ∃ woken, (t.complete s r).2.2 = some woken ∧
      (woken = latest ∨ willWake woken latest = true) := by
  have hs := h s
  unfold Table.complete at hyes ⊢
  split
  · next hold =>
    rw [hold] at hyes
    cases hyes
  · next hold =>
    rw [hold] at hyes
    cases hyes
  · next waker hold =>
    rw [hold] at hs
    obtain ⟨-, -, hsame⟩ := hs
    rw [hlast] at hsame
    cases waker with
    | none => exact hsame.elim
    | some kept => exact ⟨kept, rfl, hsame⟩

theorem Recorded.poll_cases (h : Recorded willWake es t) (s : UInt64) (w : ω) :
    ((t.poll willWake s w).2 = .pending ∧ Live s es ∧ completions s es = []) ∨
    (∃ r, (t.poll willWake s w).2 = .ready r ∧ Live s es ∧ (completions s es).head? = some r) ∨
    ((t.poll willWake s w).2 = .canceled ∧ ¬ Live s es) := by
  have hs := h s
  unfold Table.poll
  split
  · next hold =>
    rw [hold] at hs
    left
    refine ⟨?_, hs.1, hs.2.1⟩
    split <;> rfl
  · next r hold =>
    rw [hold] at hs
    exact .inr (.inl ⟨r, rfl, hs⟩)
  · next hold =>
    rw [hold] at hs
    exact .inr (.inr ⟨rfl, hs⟩)

theorem Recorded.poll_pending_iff (h : Recorded willWake es t) (s : UInt64) (w : ω) :
    (t.poll willWake s w).2 = .pending ↔ Live s es ∧ completions s es = [] := by
  rcases h.poll_cases s w with ⟨hp, hl, hc⟩ | ⟨r, hp, hl, hc⟩ | ⟨hp, hl⟩ <;> rw [hp]
  · exact iff_of_true rfl ⟨hl, hc⟩
  · refine iff_of_false (by simp) fun hno => ?_
    rw [hno.2] at hc
    cases hc
  · exact iff_of_false (by simp) fun hno => hl hno.1

theorem Recorded.poll_ready_iff (h : Recorded willWake es t) (s : UInt64) (w : ω) (r : ρ) :
    (t.poll willWake s w).2 = .ready r ↔ Live s es ∧ (completions s es).head? = some r := by
  rcases h.poll_cases s w with ⟨hp, hl, hc⟩ | ⟨r', hp, hl, hc⟩ | ⟨hp, hl⟩ <;> rw [hp]
  · refine iff_of_false (by simp) fun hno => ?_
    rw [hc] at hno
    exact nomatch hno.2
  · rw [hc]
    constructor
    · intro heq
      cases heq
      exact ⟨hl, rfl⟩
    · rintro ⟨-, heq⟩
      rw [Option.some.inj heq]
  · exact iff_of_false (by simp) fun hno => hl hno.1

theorem Recorded.poll_canceled_iff (h : Recorded willWake es t) (s : UInt64) (w : ω) :
    (t.poll willWake s w).2 = .canceled ↔ ¬ Live s es := by
  rcases h.poll_cases s w with ⟨hp, hl, hc⟩ | ⟨r, hp, hl, hc⟩ | ⟨hp, hl⟩ <;> rw [hp]
  · exact iff_of_false (by simp) fun hno => hno hl
  · exact iff_of_false (by simp) fun hno => hno hl
  · exact iff_of_true rfl hl

theorem countP_delivers_of_live {s : UInt64} (h : Live s es) :
    (epoch s es).countP (Event.delivers s) = 0 := by
  refine countP_eq_zero.mpr fun e he hd => ?_
  have hends := h.2 e he
  cases e with
  | poll s' w p =>
    cases p with
    | ready r =>
      exact absurd (hends.symm.trans hd) (by simp)
    | pending | canceled => cases hd
  | _ => cases hd

theorem Run.delivered_once (h : Run willWake es t) (s : UInt64) :
    (epoch s es).countP (Event.delivers s) ≤ 1 := by
  -- an event that does not deliver adds nothing, wherever the epoch begins
  have hquiet : ∀ (e : Event ρ ω) (es : List (Event ρ ω)), e.delivers s = false →
      (epoch s es).countP (Event.delivers s) ≤ 1 →
      (epoch s (e :: es)).countP (Event.delivers s) ≤ 1 := by
    intro e es hd hle
    cases ha : e.allocates s with
    | true =>
      rw [epoch_alloc ha]
      exact Nat.zero_le _
    | false =>
      rw [epoch_cons ha, countP_cons_of_neg (by simp [hd])]
      exact hle
  induction h with
  | new => exact Nat.zero_le _
  | alloc h hs ih | complete h s' r ih | abandon h s' ih | clear h ih => exact hquiet _ _ rfl ih
  | @poll es t h s' w ih =>
    cases hp : (t.poll willWake s' w).2 with
    | pending | canceled => exact hquiet _ _ rfl ih
    | ready r =>
      by_cases hs : s' = s
      · subst hs
        have hlive := ((h.recorded.1.poll_ready_iff s' w r).mp hp).1
        rw [epoch_cons rfl, countP_cons, countP_delivers_of_live hlive]
        split <;> omega
      · exact hquiet _ _ (beq_false_of_ne hs) ih

/-- **The session table is a finite map from live sessions to an optional result.** After every
history `alloc` returns a number that is not in use as long as there is one, and `complete`, `poll`
and `active` are those of the map; no session is delivered twice. -/
theorem session_table_refines_map (willWake : ω → ω → Bool) (es : List (Event ρ ω)) (t : Table ρ ω)
    (h : Run willWake es t) :
    (t.slots.keys.length < 2 ^ 64 - 1 → t.alloc.isSome = true) ∧
    (∀ t' s, t.alloc = some (t', s) → s ≠ 0 ∧ ¬ Live s es) ∧
    (∀ s r, (t.complete s r).2.1 = true ↔ Live s es ∧ completions s es = []) ∧
    (∀ s r, (t.complete s r).2.1 = false → t.complete s r = (t, false, none)) ∧
    (∀ s r latest, (t.complete s r).2.1 = true → lastWaker s es = some latest →
      ∃ woken, (t.complete s r).2.2 = some woken ∧
        (woken = latest ∨ willWake woken latest = true)) ∧
    (∀ s w, (t.poll willWake s w).2 = .pending ↔ Live s es ∧ completions s es = []) ∧
    (∀ s w r, (t.poll willWake s w).2 = .ready r ↔
      Live s es ∧ (completions s es).head? = some r) ∧
    (∀ s w, (t.poll willWake s w).2 = .canceled ↔ ¬ Live s es) ∧
    (∀ s w, ∀ e ∈ epoch s es, e.ends s = true → (t.poll willWake s w).2 = .canceled) ∧
    (∀ s, (epoch s es).countP (Event.delivers s) ≤ 1) ∧ (∀ s, s ∈ t.slots ↔ Live s es) ∧
    t.pending.toNat = t.slots.keys.length := by
  obtain ⟨hrec, hcount⟩ := h.recorded
  refine ⟨Table.alloc_isSome, ?_, hrec.complete_iff, fun s r => complete_refused,
    fun s r latest => hrec.complete_wakes, hrec.poll_pending_iff, hrec.poll_ready_iff,
    hrec.poll_canceled_iff, ?_, h.delivered_once, hrec.mem_iff, hcount.active_toNat⟩
  · intro t' s hs
    obtain ⟨hne, hfree, -, -⟩ := Table.allocLoop_spec hs
    exact ⟨hne, fun hlive => AList.lookup_eq_none.mp hfree ((hrec.mem_iff s).mpr hlive)⟩
  · intro s w e he hends
    refine (hrec.poll_canceled_iff s w).mpr fun hlive => ?_
    rw [hlive.2 e he] at hends
    cases hends

end Answers

/-- A session is allocated and polled; its completion wakes the waker of the poll. -/
theorem woken_of_pollThenComplete :
    ∃ t : Table ℕ ℕ, Run (fun a b => a == b) [.poll 1 7 .pending, .alloc 1] t ∧
      ∃ woken, (t.complete 1 42).2 = (true, some woken) ∧ woken = 7 := by
  obtain ⟨t, hc⟩ : ∃ t : Table ℕ ℕ, (Table.new : Table ℕ ℕ).alloc = some (t, 1) := ⟨_, rfl⟩
  have halloc : Run (fun a b => a == b) [.alloc 1] t := Run.new.alloc hc
  have hlive : Live 1 [Event.alloc 1 (ρ := ℕ) (ω := ℕ)] := live_alloc rfl
  have hpoll := (session_table_refines_map _ _ t halloc).2.2.2.2.2.1 1 7
  have hpending := hpoll.mpr ⟨hlive, rfl⟩
  have hrun := halloc.poll 1 7
  rw [hpending] at hrun
  obtain ⟨-, -, hyes, -, hwake, -⟩ := session_table_refines_map _ _ _ hrun
  have hdone := (hyes 1 42).mpr ⟨(live_cons rfl).mpr ⟨rfl, hlive⟩, rfl⟩
  obtain ⟨woken, hw, hor⟩ := hwake 1 42 7 hdone rfl
  refine ⟨_, hrun, woken, Prod.ext hdone hw, ?_⟩
  rcases hor with h | h
  · exact h
  · exact eq_of_beq h

end Rskynet.Session
