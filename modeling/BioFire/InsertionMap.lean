import Mathlib.Data.List.Nodup
import Mathlib.Data.List.Basic

/-!
# Maps in insertion order

A finite map that remembers the order in which its keys were first set, as a
JavaScript `Map` does. Setting a key that is present keeps its place.

* `get_set`, `get_delete`: reading after writing;
* `entries_set_of_not_mem`: a new key goes to the end;
* `entries_setAll`: setting distinct new keys one after another appends them.
-/

/-- The entries of a map, with distinct keys, in the order of insertion. -/
structure InsertionMap (κ ν : Type) where
  entries : List (κ × ν)
  nodup : (entries.map Prod.fst).Nodup

namespace InsertionMap

variable {κ ν : Type}

def empty : InsertionMap κ ν := ⟨[], List.nodup_nil⟩

def keys (m : InsertionMap κ ν) : List κ := m.entries.map Prod.fst

def values (m : InsertionMap κ ν) : List ν := m.entries.map Prod.snd

def size (m : InsertionMap κ ν) : ℕ := m.entries.length

variable [DecidableEq κ]

def get (m : InsertionMap κ ν) (key : κ) : Option ν := m.entries.lookup key

def has (m : InsertionMap κ ν) (key : κ) : Bool := decide (key ∈ m.keys)

def set (m : InsertionMap κ ν) (key : κ) (value : ν) : InsertionMap κ ν :=
  if h : key ∈ m.keys then
    ⟨m.entries.map fun e => if e.1 = key then (key, value) else e, by
      have hkeys : (m.entries.map fun e => if e.1 = key then (key, value) else e).map Prod.fst =
          m.entries.map Prod.fst := by
        rw [List.map_map]
        refine List.map_congr_left fun e _ => ?_
        simp only [Function.comp]
        split
        next heq => exact heq.symm
        next => rfl
      rw [hkeys]
      exact m.nodup⟩
  else
    ⟨m.entries ++ [(key, value)], by
      rw [List.map_append, List.nodup_append]
      refine ⟨m.nodup, List.nodup_singleton key, ?_⟩
      rintro a ha b hb rfl
      obtain rfl : a = key := by simpa using hb
      exact h ha⟩

def delete (m : InsertionMap κ ν) (key : κ) : InsertionMap κ ν :=
  ⟨m.entries.filter fun e => e.1 ≠ key,
    m.nodup.sublist (List.filter_sublist.map Prod.fst)⟩

/-- Setting the pairs of a list from left to right. -/
def setAll (m : InsertionMap κ ν) (l : List (κ × ν)) : InsertionMap κ ν :=
  l.foldl (fun m e => m.set e.1 e.2) m

/-! ## Reading -/

@[simp] theorem get_empty (key : κ) : (empty : InsertionMap κ ν).get key = none := rfl

theorem lookup_eq_some_iff {l : List (κ × ν)} (h : (l.map Prod.fst).Nodup) {key : κ}
    {value : ν} : l.lookup key = some value ↔ (key, value) ∈ l := by
  induction l with
  | nil => simp
  | cons e l ih =>
    obtain ⟨k, v⟩ := e
    rw [List.map_cons, List.nodup_cons] at h
    by_cases hk : key = k
    · subst hk
      have hnot : (key, value) ∉ l := fun hmem =>
        h.1 (List.mem_map.mpr ⟨(key, value), hmem, rfl⟩)
      simp [hnot, eq_comm]
    · simp [List.lookup_cons, hk, beq_false_of_ne hk, ih h.2]

theorem get_eq_some_iff {m : InsertionMap κ ν} {key : κ} {value : ν} :
    m.get key = some value ↔ (key, value) ∈ m.entries := lookup_eq_some_iff m.nodup

theorem has_iff {m : InsertionMap κ ν} {key : κ} : m.has key = true ↔ key ∈ m.keys :=
  decide_eq_true_iff

theorem get_isSome_iff {m : InsertionMap κ ν} {key : κ} :
    (m.get key).isSome ↔ key ∈ m.keys := by
  rw [Option.isSome_iff_exists, keys, List.mem_map]
  constructor
  · rintro ⟨v, hv⟩
    exact ⟨(key, v), get_eq_some_iff.mp hv, rfl⟩
  · rintro ⟨e, he, rfl⟩
    exact ⟨e.2, get_eq_some_iff.mpr he⟩

theorem get_cons {k key : κ} {v : ν} {l : List (κ × ν)} (h : (((k, v) :: l).map Prod.fst).Nodup) :
    get ⟨(k, v) :: l, h⟩ key =
      if key = k then some v else get ⟨l, (List.nodup_cons.mp h).2⟩ key := by
  unfold get
  split
  next heq => simp [heq]
  next hne => simp [List.lookup_cons, beq_false_of_ne hne]

/-! ## Writing -/

theorem entries_set_of_not_mem {m : InsertionMap κ ν} {key : κ} (h : key ∉ m.keys) (value : ν) :
    (m.set key value).entries = m.entries ++ [(key, value)] := by
  rw [set, dif_neg h]

theorem mem_entries_set {m : InsertionMap κ ν} {key : κ} {value : ν} {e : κ × ν} :
    e ∈ (m.set key value).entries ↔ e = (key, value) ∨ e ∈ m.entries ∧ e.1 ≠ key := by
  by_cases h : key ∈ m.keys
  · obtain ⟨old, hold, hkey⟩ := List.mem_map.mp h
    rw [set, dif_pos h, List.mem_map]
    constructor
    · rintro ⟨e', he', rfl⟩
      split
      · exact Or.inl rfl
      next hne => exact Or.inr ⟨he', hne⟩
    · rintro (rfl | ⟨he, hne⟩)
      · exact ⟨old, hold, if_pos hkey⟩
      · exact ⟨e, he, if_neg hne⟩
  · rw [entries_set_of_not_mem h, List.mem_append, List.mem_singleton, or_comm]
    refine or_congr_right ⟨fun he => ⟨he, ?_⟩, And.left⟩
    rintro rfl
    exact h (List.mem_map_of_mem he)

theorem size_set_of_not_mem {m : InsertionMap κ ν} {key : κ} (h : key ∉ m.keys) (value : ν) :
    (m.set key value).size = m.size + 1 := by
  rw [size, entries_set_of_not_mem h, List.length_append]
  rfl

theorem size_set_of_mem {m : InsertionMap κ ν} {key : κ} (h : key ∈ m.keys) (value : ν) :
    (m.set key value).size = m.size := by
  rw [set, dif_pos h, size, size, List.length_map]

theorem size_set_le (m : InsertionMap κ ν) (key : κ) (value : ν) :
    (m.set key value).size ≤ m.size + 1 := by
  by_cases h : key ∈ m.keys
  · rw [size_set_of_mem h]
    exact Nat.le_succ m.size
  · exact Nat.le_of_eq (size_set_of_not_mem h value)

theorem get_set (m : InsertionMap κ ν) (key key' : κ) (value : ν) :
    (m.set key value).get key' = if key' = key then some value else m.get key' := by
  ext v
  split
  next heq => rw [get_eq_some_iff, mem_entries_set]; simp [heq, eq_comm]
  next hne => rw [get_eq_some_iff, mem_entries_set, get_eq_some_iff]; simp [hne]

@[simp] theorem get_set_self (m : InsertionMap κ ν) (key : κ) (value : ν) :
    (m.set key value).get key = some value := by rw [get_set, if_pos rfl]

/-- Only the value that is there already leaves the map as it is. -/
theorem set_eq_self_iff {m : InsertionMap κ ν} {key : κ} {value : ν} :
    m.set key value = m ↔ m.get key = some value := by
  constructor
  · intro h
    rw [← h, get_set_self]
  · intro h
    have hkey : key ∈ m.keys := get_isSome_iff.mp (by rw [h]; rfl)
    have hentries : (m.set key value).entries = m.entries := by
      rw [set, dif_pos hkey]
      refine List.map_congr_left (fun e he => ?_) |>.trans (List.map_id _)
      split
      next hkey =>
        have hget : m.get key = some e.2 := get_eq_some_iff.mpr (hkey ▸ he)
        exact Prod.ext hkey.symm (Option.some.inj (h.symm.trans hget))
      next => rfl
    obtain ⟨entries, nodup⟩ := m
    generalize hset : set ⟨entries, nodup⟩ key value = m' at hentries
    obtain ⟨entries', nodup'⟩ := m'
    dsimp only at hentries
    subst hentries
    rfl

theorem get_delete (m : InsertionMap κ ν) (key key' : κ) :
    (m.delete key).get key' = if key' = key then none else m.get key' := by
  ext v
  rw [get_eq_some_iff, delete]
  split
  next heq => simp [heq]
  next hne => simp [hne, get_eq_some_iff]

theorem mem_keys_set {m : InsertionMap κ ν} {key key' : κ} {value : ν} :
    key' ∈ (m.set key value).keys ↔ key' = key ∨ key' ∈ m.keys := by
  rw [← get_isSome_iff, ← get_isSome_iff, get_set]
  split <;> simp_all

theorem entries_setAll {m : InsertionMap κ ν} {l : List (κ × ν)} (hl : (l.map Prod.fst).Nodup)
    (hnew : ∀ e ∈ l, e.1 ∉ m.keys) : (m.setAll l).entries = m.entries ++ l := by
  induction l generalizing m with
  | nil => simp [setAll]
  | cons e l ih =>
    rw [List.map_cons, List.nodup_cons] at hl
    have hset := entries_set_of_not_mem (hnew e List.mem_cons_self) e.2
    have hrest : ((m.set e.1 e.2).setAll l).entries = (m.set e.1 e.2).entries ++ l := by
      refine ih hl.2 fun e' he' => ?_
      rw [mem_keys_set, not_or]
      refine ⟨?_, hnew e' (List.mem_cons_of_mem e he')⟩
      intro heq
      exact hl.1 (heq ▸ List.mem_map_of_mem he')
    change ((m.set e.1 e.2).setAll l).entries = m.entries ++ e :: l
    rw [hrest, hset, List.append_assoc]
    rfl

@[simp] theorem entries_setAll_empty {l : List (κ × ν)} (hl : (l.map Prod.fst).Nodup) :
    ((empty : InsertionMap κ ν).setAll l).entries = l :=
  (entries_setAll hl fun _ _ h => by cases h).trans (List.nil_append l)

theorem get_setAll_of_not_mem {m : InsertionMap κ ν} {l : List (κ × ν)} {key : κ}
    (h : key ∉ l.map Prod.fst) : (m.setAll l).get key = m.get key := by
  induction l generalizing m with
  | nil => rfl
  | cons e l ih =>
    rw [List.map_cons, List.mem_cons, not_or] at h
    refine (ih h.2).trans ?_
    rw [get_set, if_neg h.1]

theorem get_setAll_last {m : InsertionMap κ ν} {l : List (κ × ν)} {i : ℕ} {key : κ} {value : ν}
    (hi : l[i]? = some (key, value)) (hlast : ∀ j, i < j → (l.map Prod.fst)[j]? ≠ some key) :
    (m.setAll l).get key = some value := by
  obtain ⟨hlt, hget⟩ := List.getElem?_eq_some_iff.mp hi
  have hcut : l = l.take i ++ (key, value) :: l.drop (i + 1) := by
    rw [← hget, List.getElem_cons_drop, List.take_append_drop]
  have hafter : key ∉ (l.drop (i + 1)).map Prod.fst := by
    intro hmem
    rw [List.map_drop] at hmem
    obtain ⟨j, hj⟩ := List.mem_iff_getElem?.mp hmem
    rw [List.getElem?_drop] at hj
    exact hlast (i + 1 + j) (by omega) hj
  have hsplit : m.setAll l =
      ((m.setAll (l.take i)).set key value).setAll (l.drop (i + 1)) := by
    conv_lhs => rw [hcut, setAll, List.foldl_append]
    rfl
  rw [hsplit, get_setAll_of_not_mem hafter, get_set_self]

end InsertionMap
