import Mathlib.Data.List.Chain
import Mathlib.Data.List.Forall2

/-!
# Hash chains

A list whose elements carry the key of their predecessor.

* `linked_concat`: a chain grows at its end;
* `keys_agree`: two chains of one length with the same last key agree in every key,
  as long as a key determines the predecessor;
* `keys_nodup`: then no key is used twice, unless the first element points into the chain.
-/

namespace HashChain

variable {α κ : Type} (key : α → κ) (prev : α → Option κ)

/-- Every element but the first carries the key of the one before it. -/
def Linked (chain : List α) : Prop := chain.IsChain fun a b => prev b = some (key a)

variable {key prev}

theorem linked_cons_cons {a b : α} {l : List α} :
    Linked key prev (a :: b :: l) ↔ prev b = some (key a) ∧ Linked key prev (b :: l) :=
  List.isChain_cons_cons

theorem linked_concat {chain : List α} {a b : α} (h : Linked key prev chain)
    (hlast : chain.getLast? = some a) (hb : prev b = some (key a)) :
    Linked key prev (chain ++ [b]) := by
  refine List.isChain_append.mpr ⟨h, List.isChain_singleton b, ?_⟩
  rintro x hx y hy
  rw [hlast, Option.mem_def, Option.some.injEq] at hx
  rw [List.head?_cons, Option.mem_def, Option.some.injEq] at hy
  rw [← hx, ← hy, hb]

theorem exists_prev {a b : α} {l : List α} (h : Linked key prev (a :: l)) (hb : b ∈ l) :
    ∃ c ∈ a :: l, prev b = some (key c) := by
  induction l generalizing a with
  | nil => cases hb
  | cons c l ih =>
    obtain ⟨hc, hl⟩ := linked_cons_cons.mp h
    rcases List.mem_cons.mp hb with rfl | hb
    · exact ⟨a, List.mem_cons_self, hc⟩
    · obtain ⟨c', hmem, hprev⟩ := ih hl hb
      exact ⟨c', List.mem_cons_of_mem a hmem, hprev⟩

/-- **Commitment.** The last key fixes every key before it. -/
theorem keys_agree {a a' : α} {l l' : List α} (h : Linked key prev (a :: l))
    (h' : Linked key prev (a' :: l')) (hlength : l.length = l'.length)
    (hlast : (a :: l).getLast?.map key = (a' :: l').getLast?.map key)
    (hdetermines : List.Forall₂ (fun b b' => key b = key b' → prev b = prev b') l l') :
    List.Forall₂ (fun b b' => key b = key b') (a :: l) (a' :: l') := by
  induction l generalizing a a' l' with
  | nil =>
    obtain rfl := List.length_eq_zero_iff.mp hlength.symm
    exact .cons (Option.some.inj hlast) .nil
  | cons b l ih =>
    obtain ⟨b', l', rfl⟩ := List.exists_cons_of_length_eq_add_one hlength.symm
    obtain ⟨hb, hl⟩ := linked_cons_cons.mp h
    obtain ⟨hb', hl'⟩ := linked_cons_cons.mp h'
    obtain ⟨hhead, htail⟩ := List.forall₂_cons.mp hdetermines
    rw [List.getLast?_cons_cons, List.getLast?_cons_cons] at hlast
    have hrest := ih hl hl' (by simpa using hlength) hlast htail
    -- the keys of `b` and `b'` agree, so they have one predecessor
    have hprev := hhead (List.forall₂_cons.mp hrest).1
    rw [hb, hb', Option.some.injEq] at hprev
    exact .cons hprev hrest

/-- **No key twice.** The first element points to no key of the chain, and equal keys
have one predecessor. -/
theorem keys_nodup {chain : List α} (h : Linked key prev chain)
    (hfirst : ∀ a ∈ chain.head?, ∀ b ∈ chain, prev a ≠ some (key b))
    (hdetermines : ∀ b ∈ chain, ∀ b' ∈ chain, key b = key b' → prev b = prev b') :
    (chain.map key).Nodup := by
  have hne : ∀ (i j : ℕ) (hi : i < chain.length) (hj : j < chain.length), i < j →
      key chain[i] ≠ key chain[j] := by
    intro i
    induction i with
    | zero =>
      intro j hi hj hij heq
      obtain ⟨j, rfl⟩ : ∃ k, j = k + 1 := ⟨j - 1, by omega⟩
      have hprev := h.getElem j hj
      rw [← hdetermines _ (List.getElem_mem hi) _ (List.getElem_mem hj) heq] at hprev
      refine hfirst chain[0] ?_ _ (List.getElem_mem _) hprev
      rw [List.head?_eq_getElem?, List.getElem?_eq_getElem hi]
      rfl
    | succ i ih =>
      intro j hi hj hij heq
      obtain ⟨j, rfl⟩ : ∃ k, j = k + 1 := ⟨j - 1, by omega⟩
      have hprev := h.getElem i hi
      rw [hdetermines _ (List.getElem_mem hi) _ (List.getElem_mem hj) heq, h.getElem j hj] at hprev
      exact ih j (by omega) (by omega) (by omega) (Option.some.inj hprev).symm
  rw [List.Nodup, List.pairwise_map, List.pairwise_iff_getElem]
  exact hne

end HashChain
