import Mathlib.Data.List.Basic

/-!
# Histories

A history is a list of events, the newest first. `Since start stop` says that an event of one kind
has happened and none of another kind since.
-/

namespace History

open List

variable {α : Type*} {start stop : α → Prop} {e : α} {es : List α}

/-- An event that meets `start` has happened, and no event that meets `stop` since. -/
def Since (start stop : α → Prop) (es : List α) : Prop :=
  ∃ later e earlier, es = later ++ e :: earlier ∧ start e ∧ ∀ x ∈ later, ¬ stop x

theorem not_since_nil : ¬ Since start stop [] := by
  rintro ⟨later, e, earlier, h, -⟩
  exact absurd h (by simp)

/-- **The rule for one more event.** -/
theorem since_cons : Since start stop (e :: es) ↔ start e ∨ (¬ stop e ∧ Since start stop es) := by
  constructor
  · rintro ⟨later, x, earlier, h, hstart, hstop⟩
    cases later with
    | nil =>
      obtain ⟨rfl, -⟩ := cons.inj h
      exact .inl hstart
    | cons y later =>
      obtain ⟨rfl, rfl⟩ := cons.inj h
      exact .inr ⟨hstop e mem_cons_self, later, x, earlier, rfl, hstart,
        fun z hz => hstop z (mem_cons_of_mem _ hz)⟩
  · rintro (hstart | ⟨hno, later, x, earlier, rfl, hstart, hstop⟩)
    · exact ⟨[], e, es, rfl, hstart, fun z hz => absurd hz not_mem_nil⟩
    · refine ⟨e :: later, x, earlier, rfl, hstart, fun z hz => ?_⟩
      rcases mem_cons.mp hz with rfl | hz
      · exact hno
      · exact hstop z hz

end History
