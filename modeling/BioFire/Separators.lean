import Mathlib.Data.List.DropRight

/-!
# Lists with separators

Fields that are joined by a separator, and the parts that are read off such a list again.

* `append_cons_inj`, `append_cons_inj_last`, `append_cons_inj_three`: what joined fields determine;
* `takeWhile_append_of_head`, `dropWhile_append_of_head`: a part up to what ends it;
* `rdropWhile_append_cons`: what is cut off at the end;
* `prefix_append_iff`: a mark in front of a list.
-/

namespace Separators

variable {α : Type}

/-! ## Joined fields -/

theorem append_cons_inj {c : α} {a b a' b' : List α} (ha : c ∉ a) (ha' : c ∉ a')
    (h : a ++ c :: b = a' ++ c :: b') : a = a' ∧ b = b' := by
  induction a generalizing a' with
  | nil =>
    cases a' with
    | nil => exact ⟨rfl, (List.cons.inj h).2⟩
    | cons x a' => exact absurd (by rw [(List.cons.inj h).1]; exact List.mem_cons_self) ha'
  | cons x a ih =>
    cases a' with
    | nil => exact absurd (by rw [← (List.cons.inj h).1]; exact List.mem_cons_self) ha
    | cons x' a' =>
      obtain ⟨rfl, hrest⟩ := List.cons.inj h
      obtain ⟨rfl, hb⟩ := ih (fun hc => ha (List.mem_cons_of_mem x hc))
        (fun hc => ha' (List.mem_cons_of_mem x hc)) hrest
      exact ⟨rfl, hb⟩

theorem append_cons_inj_last {c : α} {a b a' b' : List α} (hb : c ∉ b) (hb' : c ∉ b')
    (h : a ++ c :: b = a' ++ c :: b') : a = a' ∧ b = b' := by
  have hreverse := congrArg List.reverse h
  rw [List.reverse_append, List.reverse_append, List.reverse_cons, List.reverse_cons,
    List.append_assoc, List.append_assoc, List.singleton_append, List.singleton_append] at hreverse
  obtain ⟨hlast, hfirst⟩ := append_cons_inj (by rwa [List.mem_reverse]) (by rwa [List.mem_reverse])
    hreverse
  exact ⟨List.reverse_injective hfirst, List.reverse_injective hlast⟩

/-- Three joined fields, when one side has no other separator. -/
theorem append_cons_inj_three [DecidableEq α] {c : α} {x y z x' y' z' : List α} (hx : c ∉ x)
    (hy : c ∉ y) (hz : c ∉ z) (h : x ++ c :: (y ++ c :: z) = x' ++ c :: (y' ++ c :: z')) :
    x = x' ∧ y = y' ∧ z = z' := by
  have hcount := congrArg (List.count c) h
  simp only [List.count_append, List.count_cons_self, List.count_eq_zero_of_not_mem hx,
    List.count_eq_zero_of_not_mem hy, List.count_eq_zero_of_not_mem hz] at hcount
  have hx' : c ∉ x' := List.count_eq_zero.mp (by omega)
  have hy' : c ∉ y' := List.count_eq_zero.mp (by omega)
  obtain ⟨hfirst, hrest⟩ := append_cons_inj hx hx' h
  obtain ⟨hsecond, hthird⟩ := append_cons_inj hy hy' hrest
  exact ⟨hfirst, hsecond, hthird⟩

/-- What stands behind a later separator is a part of what stands behind the first. -/
theorem sublist_of_append_cons {xs ys a b : List α} {c : α} (hc : c ∉ xs)
    (h : xs ++ c :: ys = a ++ c :: b) : List.Sublist b ys := by
  rcases List.append_eq_append_iff.mp h with ⟨middle, -, hrest⟩ | ⟨middle, hxs, hrest⟩
  · cases middle with
    | nil => rw [(List.cons.inj hrest).2]
    | cons u middle =>
      rw [(List.cons.inj hrest).2]
      exact (List.sublist_cons_self c b).trans (List.sublist_append_right middle _)
  · cases middle with
    | nil => rw [(List.cons.inj hrest).2]
    | cons u middle =>
      obtain ⟨rfl, -⟩ := List.cons.inj hrest
      exact absurd (hxs ▸ List.mem_append_right a List.mem_cons_self) hc

/-! ## Parts of a list -/

section

variable {p : α → Bool} {c : α} {xs rest : List α}

theorem takeWhile_append_of_head (hxs : ∀ x ∈ xs, p x = true)
    (hrest : ∀ c ∈ rest.head?, p c = false) : (xs ++ rest).takeWhile p = xs := by
  rw [List.takeWhile_append_of_pos hxs]
  cases rest with
  | nil => simp
  | cons c rest => simp [hrest c rfl]

theorem dropWhile_append_of_head (hxs : ∀ x ∈ xs, p x = true)
    (hrest : ∀ c ∈ rest.head?, p c = false) : (xs ++ rest).dropWhile p = rest := by
  rw [List.dropWhile_append_of_pos hxs]
  cases rest with
  | nil => rfl
  | cons c rest => simp [hrest c rfl]

theorem takeWhile_append_cons (hxs : ∀ x ∈ xs, p x = true) (hc : p c = false) (ys : List α) :
    (xs ++ c :: ys).takeWhile p = xs :=
  takeWhile_append_of_head hxs (by simp [hc])

theorem dropWhile_append_cons (hxs : ∀ x ∈ xs, p x = true) (hc : p c = false) (ys : List α) :
    (xs ++ c :: ys).dropWhile p = c :: ys :=
  dropWhile_append_of_head hxs (by simp [hc])

end

theorem rdropWhile_append_cons {p : α → Bool} {c : α} (hc : p c = false)
    (xs ys : List α) : (xs ++ c :: ys).rdropWhile p = xs ++ c :: ys.rdropWhile p := by
  induction ys using List.reverseRecOn with
  | nil => rw [List.rdropWhile_concat_neg _ _ _ (by simp [hc]), List.rdropWhile_nil]
  | append_singleton ys y ih =>
    rw [← List.cons_append, ← List.append_assoc, List.rdropWhile_concat, List.rdropWhile_concat]
    split
    · exact ih
    · simp

theorem prefix_append_iff {mark text rest : List α} (hrest : ∀ c ∈ rest.head?, c ∉ mark) :
    mark <+: text ++ rest ↔ mark <+: text := by
  refine ⟨fun h => ?_, fun h => h.trans (List.prefix_append _ _)⟩
  by_cases hlength : mark.length ≤ text.length
  · exact List.prefix_of_prefix_length_le h (List.prefix_append _ _) hlength
  · exfalso
    obtain ⟨more, hmore⟩ := List.prefix_of_prefix_length_le (List.prefix_append text rest) h
      (by omega)
    cases more with
    | nil =>
      rw [List.append_nil] at hmore
      rw [hmore] at hlength
      exact hlength le_rfl
    | cons c more =>
      obtain ⟨after, hafter⟩ := h
      rw [← hmore, List.append_assoc, List.append_cancel_left_eq] at hafter
      exact hrest c (by rw [← hafter]; rfl) (by rw [← hmore]; simp)

end Separators
