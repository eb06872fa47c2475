import BioFire.Outcome
import Mathlib.Order.Bounds.Defs
import Mathlib.Data.Nat.Find

/-!
# Loops that search

A loop over the natural numbers that looks for one with a property. A round looks for the next
number with a first property and tests a second one; the search of a round may not end itself,
so a search may be the round of another one.

* `Search`: what a search answers, if there is something to find and if there is not;
* `Search.loop`: a loop whose rounds search is a search.
-/

namespace BioFire

open Outcome

variable {ε β : Type}

theorem Settles.loop_answer {σ : Type} {body : ℕ → σ → Outcome ε (σ ⊕ β)} {s : σ} {b : β}
    (hround : Settles (fun n => body n s) (.returns (.inr b))) :
    Settles (fun n => Outcome.loop (body n) n s) (.returns b) := by
  obtain ⟨n, hn⟩ := hround
  refine Settles.succ ⟨n, fun m hm => ?_⟩
  have hanswer : body (m + 1) s = .returns (.inr b) := hn (m + 1) (by omega)
  change (body (m + 1) s).bind _ = _
  rw [hanswer, bind_returns]

/-- From `k` on, a call finds the first number with `P` and answers with its value; where there
is none it does not end. -/
structure Search (P : ℕ → Prop) (value : ℕ → β) (call : ℕ → ℕ → Outcome ε β) : Prop where
  steady : ∀ k, Steady fun n => call n k
  finds : ∀ {k i}, IsLeast {i | k ≤ i ∧ P i} i → Settles (fun n => call n k) (.returns (value i))
  endless : ∀ {k}, (∀ i, k ≤ i → ¬P i) → Settles (fun n => call n k) .running

namespace Search

variable {P Q : ℕ → Prop} {value : ℕ → β} {call : ℕ → ℕ → Outcome ε β}

/-- There is a first number with the property, or there is none. -/
theorem first_or_none (P : ℕ → Prop) (k : ℕ) :
    (∃ i, IsLeast {i | k ≤ i ∧ P i} i) ∨ ∀ i, k ≤ i → ¬P i := by
  classical
  by_cases h : ∃ i, k ≤ i ∧ P i
  · exact Or.inl ⟨Nat.find h, Nat.find_spec h, fun j hj => Nat.find_min' h hj⟩
  · right
    intro i hi hP
    exact h ⟨i, hi, hP⟩

/-- **What a search returns.** -/
theorem returns_iff (h : Search P value call) {k : ℕ} {b : β} :
    Returns (fun n => call n k) b ↔ ∃ i, IsLeast {i | k ≤ i ∧ P i} i ∧ b = value i := by
  rw [← (h.steady k).settles_returns_iff]
  constructor
  · intro hreturns
    rcases first_or_none P k with ⟨i, hi⟩ | hnone
    · exact ⟨i, hi, Outcome.returns.inj (hreturns.unique (h.finds hi))⟩
    · cases hreturns.unique (h.endless hnone)
  · rintro ⟨i, hi, rfl⟩
    exact h.finds hi

/-- **Searches of searches.** Rounds that search for `P` and test what they find for `Q` search
for both. -/
theorem loop {value : ℕ → β} {body : ℕ → ℕ → Outcome ε (ℕ ⊕ β)} {verdict : ℕ → ℕ ⊕ β}
    (h : Search P verdict body) (hfound : ∀ i, Q i → verdict i = .inr (value i))
    (hnext : ∀ i, ¬Q i → verdict i = .inl (i + 1)) :
    Search (fun i => P i ∧ Q i) value fun n => Outcome.loop (body n) n where
  steady k n m hnm := Below.loop (fun s => h.steady s n m hnm) hnm k
  finds {k i} hi := by
    obtain ⟨⟨hki, hP, hQ⟩, hmin⟩ := hi
    -- the distance to what is found decreases
    generalize hdistance : i - k = distance
    induction distance using Nat.strong_induction_on generalizing k with
    | _ distance ih =>
    rcases first_or_none P k with ⟨j, ⟨hkj, hPj⟩, hfirst⟩ | hnone
    · have hji : j ≤ i := hfirst ⟨hki, hP⟩
      have hround := h.finds ⟨⟨hkj, hPj⟩, hfirst⟩
      by_cases hQj : Q j
      · obtain rfl := Nat.le_antisymm hji (hmin ⟨hkj, hPj, hQj⟩)
        rw [hfound j hQj] at hround
        exact Settles.loop_answer hround
      · have hne : j ≠ i := by
          rintro rfl
          exact hQj hQ
        rw [hnext j hQj] at hround
        refine Settles.loop_next h.steady hround (ih (i - (j + 1)) ?_ ?_ ?_ rfl)
        · omega
        · rintro i' ⟨hi', hPQ⟩
          exact hmin ⟨by omega, hPQ⟩
        · omega
    · exact absurd hP (hnone i hki)
  endless {k} hnone := by
    have hrounds : ∀ m fuel k, (∀ i, k ≤ i → ¬(P i ∧ Q i)) →
        Outcome.loop (body m) fuel k = .running := by
      intro m fuel
      induction fuel with
      | zero => exact fun _ _ => rfl
      | succ fuel ih =>
        intro k hnone
        by_cases hm : body m k = .running
        · rw [Outcome.loop, hm, bind_running]
        rcases first_or_none P k with ⟨j, ⟨hkj, hPj⟩, hfirst⟩ | hnoneP
        · have hround := h.finds ⟨⟨hkj, hPj⟩, hfirst⟩
          rw [hnext j fun hQj => hnone j hkj ⟨hPj, hQj⟩] at hround
          rw [Outcome.loop, ((h.steady k).settles hm).unique hround, bind_returns]
          exact ih (j + 1) fun i hi => hnone i (by omega)
        · exact absurd (((h.steady k).settles hm).unique (h.endless hnoneP)) hm
    exact ⟨0, fun m _ => hrounds m m k hnone⟩

theorem map {γ : Type} {verdict : ℕ → γ} {f : β → Outcome ε γ} (h : Search P value call)
    (hf : ∀ i, f (value i) = .returns (verdict i)) :
    Search P verdict fun n k => (call n k).bind f where
  steady k n m hnm := Below.bind (h.steady k n m hnm) fun b => Below.refl (f b)
  finds {k i} hi := Settles.bind (h.finds hi) (by
    rw [hf]
    exact settles_const _)
  endless {k} hnone := Settles.bind_stop (o := .running) (fun _ => f) (h.endless hnone)

end Search

/-- A round that looks at one number is a search for any number. -/
theorem search_of_rounds {verdict : ℕ → β} {call : ℕ → ℕ → Outcome ε β}
    (hsteady : ∀ k, Steady fun n => call n k)
    (hround : ∀ k, Settles (fun n => call n k) (.returns (verdict k))) :
    Search (fun _ => True) verdict call where
  steady := hsteady
  finds {k i} hi := by
    obtain rfl : i = k := Nat.le_antisymm (hi.2 ⟨le_rfl, trivial⟩) hi.1.1
    exact hround i
  endless {k} hnone := absurd trivial (hnone k le_rfl)

end BioFire
