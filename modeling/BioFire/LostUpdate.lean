import BioFire.Runs
import Mathlib.Data.Finset.Card
import Mathlib.Order.Interval.Finset.Nat

/-!
# A counter that is read and written in separate steps

Operations that overlap read a counter when they start and write the successor of
what they read when they end.

* `filterMap_set_eq`, `filterMap_set_perm`: what a list of operations has written;
* `Counter.lossless_iff`: no update is lost exactly when every operation writes the
  successor of the value that it overwrites.
-/

namespace Runs

section

variable {α : Type} {f : α → Option ℕ} {l : List α} {k : ℕ} {a b : α}

theorem filterMap_set_eq (h : l[k]? = some a) (hab : f b = f a) :
    (l.set k b).filterMap f = l.filterMap f := by
  induction l generalizing k with
  | nil => cases h
  | cons first l ih =>
    cases k with
    | zero =>
      obtain rfl : first = a := Option.some.inj h
      rw [List.set_cons_zero, List.filterMap_cons, List.filterMap_cons, hab]
    | succ k => rw [List.set_cons_succ, List.filterMap_cons, List.filterMap_cons, ih h]

theorem filterMap_set_perm (h : l[k]? = some a) (ha : f a = none) {v : ℕ} (hb : f b = some v) :
    ((l.set k b).filterMap f).Perm (v :: l.filterMap f) := by
  induction l generalizing k with
  | nil => cases h
  | cons first l ih =>
    cases k with
    | zero =>
      obtain rfl : first = a := Option.some.inj h
      rw [List.set_cons_zero, List.filterMap_cons_some hb, List.filterMap_cons_none ha]
    | succ k =>
      rw [List.set_cons_succ]
      cases hfirst : f first with
      | none =>
        rw [List.filterMap_cons_none hfirst, List.filterMap_cons_none hfirst]
        exact ih h
      | some w =>
        rw [List.filterMap_cons_some hfirst, List.filterMap_cons_some hfirst]
        exact ((ih h).cons w).trans (List.Perm.swap v w _)

end

variable {σ ε : Type}

/-- A counter of a system. `Pending s v` says that an operation under way is going to
write `v`, and `written s` lists what was written so far. -/
structure Counter (step : σ → ε → σ) where
  value : σ → ℕ
  written : σ → List ℕ
  Pending : σ → ℕ → Prop
  /-- What an event writes. -/
  writes : σ → ε → Option ℕ
  value_of_none : ∀ {s e}, writes s e = none → value (step s e) = value s
  written_of_none : ∀ {s e}, writes s e = none → written (step s e) = written s
  value_of_some : ∀ {s e v}, writes s e = some v → value (step s e) = v
  written_of_some : ∀ {s e v}, writes s e = some v → (written (step s e)).Perm (v :: written s)
  pending_of_some : ∀ {s e v}, writes s e = some v → Pending s v
  pending_step : ∀ {s e v}, Pending (step s e) v →
    Pending s v ∨ writes s e = none ∧ v = value s + 1

namespace Counter

variable {step : σ → ε → σ} (c : Counter step) {start s : σ} {e : ε}

/-- Every update since the start counts, and no value was written twice. -/
def Lossless (start s : σ) : Prop :=
  c.value s = c.value start + (c.written s).length ∧ (c.written s).Nodup

/-- The bounds that every run keeps. -/
structure Bounded (start s : σ) : Prop where
  le_value : c.value start ≤ c.value s
  value_le : c.value s ≤ c.value start + (c.written s).length
  written_mem : ∀ v ∈ c.written s,
    v ∈ Finset.Ioc (c.value start) (c.value start + (c.written s).length)
  pending_gt : ∀ {v}, c.Pending s v → c.value start < v
  pending_le : ∀ {v}, c.Pending s v → v ≤ c.value start + (c.written s).length ∨
    c.value s = c.value start + (c.written s).length ∧ v = c.value s + 1

variable {c}

theorem Bounded.step_of_none (h : c.Bounded start s) (hw : c.writes s e = none) :
    c.Bounded start (step s e) := by
  have hvalue := c.value_of_none hw
  have hwritten := c.written_of_none hw
  have hle := h.le_value
  have hge := h.value_le
  refine ⟨?_, ?_, ?_, ?_, ?_⟩
  · rw [hvalue]
    exact hle
  · rw [hvalue, hwritten]
    exact hge
  · rw [hwritten]
    exact h.written_mem
  · intro v hv
    rcases c.pending_step hv with hold | ⟨-, rfl⟩
    · exact h.pending_gt hold
    · omega
  · intro v hv
    rw [hvalue, hwritten]
    rcases c.pending_step hv with hold | ⟨-, rfl⟩
    · exact h.pending_le hold
    · omega

theorem Bounded.step_of_some (h : c.Bounded start s) {v : ℕ} (hw : c.writes s e = some v) :
    c.Bounded start (step s e) := by
  have hvalue := c.value_of_some hw
  have hwritten := c.written_of_some hw
  have hlength : (c.written (step s e)).length = (c.written s).length + 1 := hwritten.length_eq
  have hgt := h.pending_gt (c.pending_of_some hw)
  have hle := h.pending_le (c.pending_of_some hw)
  refine ⟨?_, ?_, ?_, ?_, ?_⟩
  · omega
  · omega
  · intro w hmem
    rw [hlength, Finset.mem_Ioc]
    rcases List.mem_cons.mp (hwritten.mem_iff.mp hmem) with rfl | hold
    · omega
    · have := Finset.mem_Ioc.mp (h.written_mem w hold)
      omega
  · intro w hpending
    rcases c.pending_step hpending with hold | ⟨hnone, -⟩
    · exact h.pending_gt hold
    · rw [hw] at hnone
      cases hnone
  · intro w hpending
    rw [hlength]
    rcases c.pending_step hpending with hold | ⟨hnone, -⟩
    · have := h.pending_le hold
      omega
    · rw [hw] at hnone
      cases hnone

theorem Bounded.event (h : c.Bounded start s) (e : ε) : c.Bounded start (step s e) := by
  cases hw : c.writes s e with
  | none => exact h.step_of_none hw
  | some v => exact h.step_of_some hw

/-- Without a value written twice, all values up to the number of updates were written. -/
theorem Bounded.mem_written (h : c.Bounded start s) (hnodup : (c.written s).Nodup) {v : ℕ}
    (hgt : c.value start < v) (hle : v ≤ c.value start + (c.written s).length) :
    v ∈ c.written s := by
  have hsubset : (c.written s).toFinset ⊆
      Finset.Ioc (c.value start) (c.value start + (c.written s).length) := by
    intro w hw
    exact h.written_mem w (List.mem_toFinset.mp hw)
  have heq := Finset.eq_of_subset_of_card_le hsubset (by
    rw [Nat.card_Ioc, List.toFinset_card_of_nodup hnodup]
    omega)
  rw [← List.mem_toFinset, heq, Finset.mem_Ioc]
  exact ⟨hgt, hle⟩

/-- **One event.** An event keeps the updates when what it writes succeeds what it overwrites. -/
theorem Bounded.lossless_step_iff (h : c.Bounded start s) :
    c.Lossless start (step s e) ↔
      c.Lossless start s ∧ ∀ v, c.writes s e = some v → v = c.value s + 1 := by
  cases hw : c.writes s e with
  | none =>
    unfold Lossless
    rw [c.value_of_none hw, c.written_of_none hw]
    simp
  | some v =>
    have hwritten := c.written_of_some hw
    have hlength : (c.written (step s e)).length = (c.written s).length + 1 := hwritten.length_eq
    unfold Lossless
    rw [c.value_of_some hw, hlength, hwritten.nodup_iff, List.nodup_cons]
    constructor
    · rintro ⟨-, hnew, hnodup⟩
      rcases h.pending_le (c.pending_of_some hw) with hle | ⟨hvalue, hsucc⟩
      · exact absurd (h.mem_written hnodup (h.pending_gt (c.pending_of_some hw)) hle) hnew
      · refine ⟨⟨hvalue, hnodup⟩, ?_⟩
        rintro w hvw
        rw [← Option.some.inj hvw, hsucc]
    · rintro ⟨⟨hvalue, hnodup⟩, hsucc⟩
      have hv := hsucc v rfl
      refine ⟨by omega, ?_, hnodup⟩
      intro hmem
      have := Finset.mem_Ioc.mp (h.written_mem v hmem)
      omega

/-- **Lost updates.** From a start without operations, the updates of a run are all kept
exactly when every event writes the successor of the value it meets. -/
theorem lossless_iff (hwritten : c.written start = []) (hpending : ∀ v, ¬ c.Pending start v)
    (events : List ε) :
    c.Lossless start (run step start events) ↔
      Always step start events fun s e => ∀ v, c.writes s e = some v → v = c.value s + 1 := by
  have hbounded : ∀ past, c.Bounded start (run step start past) := by
    apply run_invariant
    · refine ⟨le_rfl, by omega, ?_, fun h => absurd h (hpending _), fun h => absurd h (hpending _)⟩
      simp [hwritten]
    · intro s e h
      exact h.event e
  induction events using List.reverseRecOn with
  | nil => simp [Lossless, hwritten, always_nil]
  | append_singleton events e ih =>
    rw [run_concat, always_concat, (hbounded events).lossless_step_iff]
    exact and_congr_left fun _ => ih

end Counter

end Runs
