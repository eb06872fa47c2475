import Mathlib.Algebra.Order.Group.Defs
import Mathlib.Algebra.Order.Sub.Basic
import Mathlib.Data.List.Basic
import Mathlib.Data.List.Count

/-!
# Rate limits over a sliding window

A log of times is limited when each entry was made while fewer than `n` entries lay in the
window of width `w` before it. Then no window of that width holds more than `n` entries:
`Limited.window_le`.
-/

namespace SlidingWindow

variable {α : Type} [AddCommGroup α] [LinearOrder α] [IsOrderedAddMonoid α]

/-- The entries were made one after another, each below the limit. -/
inductive Limited (w : α) (n : ℕ) : List α → Prop
  | nil : Limited w n []
  | concat {log : List α} {now : α} (h : Limited w n log) (hpast : ∀ t ∈ log, t ≤ now)
      (hcount : log.countP (fun t => now - w < t) < n) : Limited w n (log ++ [now])

/-- **The limit** holds of every window. -/
theorem Limited.window_le {w : α} {n : ℕ} {log : List α} (h : Limited w n log) (T : α) :
    log.countP (fun t => T - w < t ∧ t ≤ T) ≤ n := by
  induction h with
  | nil => simp
  | @concat log now h hpast hcount ih =>
    rw [List.countP_append]
    by_cases hnow : T - w < now ∧ now ≤ T
    · -- the new entry is in the window: the others in it lie in the window before the entry
      have hmono : log.countP (fun t => T - w < t ∧ t ≤ T) ≤
          log.countP (fun t => now - w < t) := by
        refine List.countP_mono_left fun t _ ht => ?_
        simp only [decide_eq_true_eq] at ht ⊢
        exact (sub_le_sub_right hnow.2 w).trans_lt ht.1
      simp only [List.countP_singleton, hnow, and_self, decide_true, if_true]
      omega
    · simpa [List.countP_singleton, hnow] using ih

end SlidingWindow
