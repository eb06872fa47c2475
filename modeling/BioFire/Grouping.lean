import BioFire.InsertionMap

/-!
# Values grouped by a key

A map from keys to the values that were seen with them, without repetitions, in the order in
which they were first seen.

* `mem_addNew`, `nodup_addNew`: a set in insertion order;
* `grouped_group`: what is found under a key;
* `exists_group_iff`: a key with more than one value.
-/

variable {κ α : Type} [DecidableEq α]

/-- A set in insertion order, with one more element. -/
def addNew (xs : List α) (x : α) : List α := if x ∈ xs then xs else xs ++ [x]

@[simp] theorem mem_addNew {xs : List α} {x y : α} : y ∈ addNew xs x ↔ y ∈ xs ∨ y = x := by
  rw [addNew]
  split
  next h => exact ⟨Or.inl, fun hy => hy.elim id fun heq => heq ▸ h⟩
  next => simp

theorem nodup_addNew {xs : List α} (h : xs.Nodup) (x : α) : (addNew xs x).Nodup := by
  rw [addNew]
  split
  · exact h
  next hx => exact List.nodup_append.mpr ⟨h, List.nodup_singleton x, by
      rintro a ha b hb rfl
      exact hx (List.mem_singleton.mp hb ▸ ha)⟩

namespace InsertionMap

variable [DecidableEq κ]

/-- The value is added to those of the key. -/
def addTo (m : InsertionMap κ (List α)) (key : κ) (x : α) : InsertionMap κ (List α) :=
  let m := if m.has key then m else m.set key []
  m.set key (addNew ((m.get key).getD []) x)

def group (pairs : List (κ × α)) : InsertionMap κ (List α) :=
  pairs.foldl (fun m pair => m.addTo pair.1 pair.2) empty

theorem get_addTo (m : InsertionMap κ (List α)) (key key' : κ) (x : α) :
    (m.addTo key x).get key' =
      if key' = key then some (addNew ((m.get key).getD []) x) else m.get key' := by
  rw [addTo]
  split
  next => rw [get_set]
  next hkey =>
    have hnone : m.get key = none := by
      rw [has_iff] at hkey
      rw [← Option.not_isSome_iff_eq_none, get_isSome_iff]
      exact hkey
    rw [get_set, get_set_self, hnone]
    split
    · rfl
    next hne => rw [get_set, if_neg hne]

/-- The values under a key are those that were seen with it, once each. -/
structure Grouped (pairs : List (κ × α)) (m : InsertionMap κ (List α)) : Prop where
  nodup : ∀ key xs, m.get key = some xs → xs.Nodup
  mem_iff : ∀ key x, (∃ xs, m.get key = some xs ∧ x ∈ xs) ↔ (key, x) ∈ pairs

theorem Grouped.addTo {pairs : List (κ × α)} {m : InsertionMap κ (List α)} (h : Grouped pairs m)
    (key : κ) (x : α) : Grouped (pairs ++ [(key, x)]) (m.addTo key x) where
  nodup key' xs hget := by
    rw [get_addTo] at hget
    split at hget
    · cases hget
      refine nodup_addNew ?_ x
      cases hold : m.get key with
      | none => exact List.nodup_nil
      | some ys => exact h.nodup key ys hold
    · exact h.nodup key' xs hget
  mem_iff key' y := by
    rw [List.mem_append, ← h.mem_iff, get_addTo]
    split
    next heq =>
      subst heq
      cases hold : m.get key' with
      | none => simp
      | some ys => simp
    next hne => simp [hne]

theorem grouped_foldl {pairs rest : List (κ × α)} {m : InsertionMap κ (List α)}
    (h : Grouped pairs m) :
    Grouped (pairs ++ rest) (rest.foldl (fun m pair => m.addTo pair.1 pair.2) m) := by
  induction rest generalizing pairs m with
  | nil =>
    rw [List.append_nil]
    exact h
  | cons pair rest ih =>
    rw [List.append_cons]
    exact ih (h.addTo pair.1 pair.2)

/-- **Grouping.** -/
theorem grouped_group (pairs : List (κ × α)) : Grouped pairs (group pairs) := by
  have hnone : Grouped ([] : List (κ × α)) empty := ⟨by simp, by simp⟩
  exact grouped_foldl hnone

/-- **A key with two values** is there when two pairs have the same key. -/
theorem exists_group_iff (pairs : List (κ × α)) :
    (∃ e ∈ (group pairs).entries, 1 < e.2.length) ↔
      ∃ p ∈ pairs, ∃ p' ∈ pairs, p.1 = p'.1 ∧ p.2 ≠ p'.2 := by
  have hgroup := grouped_group pairs
  constructor
  · rintro ⟨⟨key, xs⟩, hmem, hlength⟩
    have hget := get_eq_some_iff.mpr hmem
    have hnodup := hgroup.nodup key xs hget
    obtain ⟨x, y, rest, rfl⟩ : ∃ x y rest, xs = x :: y :: rest := by
      match xs, hlength with
      | x :: y :: rest, _ => exact ⟨x, y, rest, rfl⟩
    refine ⟨(key, x), (hgroup.mem_iff key x).mp ⟨_, hget, by simp⟩, (key, y),
      (hgroup.mem_iff key y).mp ⟨_, hget, by simp⟩, rfl, ?_⟩
    rintro rfl
    simp at hnodup
  · rintro ⟨⟨key, x⟩, hx, ⟨key', y⟩, hy, heq, hne⟩
    dsimp only at heq hne
    subst heq
    obtain ⟨xs, hget, hxs⟩ := (hgroup.mem_iff key x).mpr hx
    obtain ⟨ys, hget', hys⟩ := (hgroup.mem_iff key y).mpr hy
    obtain rfl := Option.some.inj (hget.symm.trans hget')
    refine ⟨(key, xs), get_eq_some_iff.mp hget, ?_⟩
    cases xs with
    | nil => cases hxs
    | cons z rest =>
      cases rest with
      | nil => exact absurd ((List.mem_singleton.mp hxs).trans (List.mem_singleton.mp hys).symm) hne
      | cons z' rest => simp

end InsertionMap
