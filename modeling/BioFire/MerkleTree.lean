import Mathlib.Data.List.Nodup
import Mathlib.Data.Nat.Log
import Mathlib.Data.Set.Function

/-!
# Merkle trees

The root of a list of hashes: each level combines neighbours, and a last hash without
a neighbour is combined with itself.

* `root_inj`: lists of one length with the same root are equal, when `combine` is
  injective on the pairs of their levels;
* `root_inj_of_nodup`: lists of any lengths, when no hash is repeated and no combination
  is a leaf;
* `exists_collision`: lists of different lengths can have the same root.
-/

namespace MerkleTree

variable {α : Type}

/-- The pairs that one level combines. -/
def levelPairs : List α → List (α × α)
  | [] => []
  | [left] => [(left, left)]
  | left :: right :: rest => (left, right) :: levelPairs rest

theorem length_levelPairs (hashes : List α) :
    (levelPairs hashes).length = (hashes.length + 1) / 2 := by
  induction hashes using levelPairs.induct with
  | case1 => simp [levelPairs]
  | case2 left => simp [levelPairs]
  | case3 left right rest ih =>
    rw [levelPairs, List.length_cons, ih, List.length_cons, List.length_cons]
    omega

theorem levelPairs_inj {hashes hashes' : List α} (hlength : hashes.length = hashes'.length)
    (h : levelPairs hashes = levelPairs hashes') : hashes = hashes' := by
  induction hashes using levelPairs.induct generalizing hashes' with
  | case1 => exact (List.length_eq_zero_iff.mp hlength.symm).symm
  | case2 left =>
    obtain ⟨left', rfl⟩ := List.length_eq_one_iff.mp hlength.symm
    rw [(Prod.mk.inj (List.cons.inj h).1).1]
  | case3 left right rest ih =>
    match hashes', hlength with
    | left' :: right' :: rest', hlength =>
      obtain ⟨hpair, hrest⟩ := List.cons.inj h
      obtain ⟨rfl, rfl⟩ := Prod.mk.inj hpair
      rw [ih (by simpa using hlength) hrest]

theorem mem_of_mem_levelPairs {hashes : List α} {p : α × α} (h : p ∈ levelPairs hashes) :
    p.1 ∈ hashes ∧ p.2 ∈ hashes := by
  induction hashes using levelPairs.induct with
  | case1 => cases h
  | case2 left =>
    rw [levelPairs, List.mem_singleton] at h
    simp [h]
  | case3 left right rest ih =>
    rcases List.mem_cons.mp h with rfl | h
    · simp
    · simp [ih h]

variable (combine : α → α → α)

def nextLevel (hashes : List α) : List α := (levelPairs hashes).map (Function.uncurry combine)

theorem length_nextLevel (hashes : List α) :
    (nextLevel combine hashes).length = (hashes.length + 1) / 2 := by
  rw [nextLevel, List.length_map, length_levelPairs]

/-- The loop over the levels; a list without hashes has no root. -/
def root (hashes : List α) : Option α :=
  if 1 < hashes.length then root (nextLevel combine hashes) else hashes.head?
termination_by hashes.length
decreasing_by
  rw [length_nextLevel]
  omega

/-- The pairs that the loop combines, level by level. -/
def hashedPairs (hashes : List α) : List (α × α) :=
  if 1 < hashes.length then levelPairs hashes ++ hashedPairs (nextLevel combine hashes) else []
termination_by hashes.length
decreasing_by
  rw [length_nextLevel]
  omega

theorem root_of_many {hashes : List α} (h : 1 < hashes.length) :
    root combine hashes = root combine (nextLevel combine hashes) := by
  rw [root, if_pos h]

theorem root_of_few {hashes : List α} (h : ¬1 < hashes.length) :
    root combine hashes = hashes.head? := by
  rw [root, if_neg h]

theorem hashedPairs_of_many {hashes : List α} (h : 1 < hashes.length) :
    hashedPairs combine hashes =
      levelPairs hashes ++ hashedPairs combine (nextLevel combine hashes) := by
  rw [hashedPairs, if_pos h]

theorem hashedPairs_two (a b : α) : hashedPairs combine [a, b] = [(a, b)] := by
  simp [hashedPairs, nextLevel, levelPairs]

theorem hashedPairs_three (a b c : α) :
    hashedPairs combine [a, b, c] = [(a, b), (c, c), (combine a b, combine c c)] := by
  simp [hashedPairs, nextLevel, levelPairs]

theorem hashedPairs_four (a b c d : α) :
    hashedPairs combine [a, b, c, d] = [(a, b), (c, d), (combine a b, combine c d)] := by
  simp [hashedPairs, nextLevel, levelPairs]

theorem root_three (a b c : α) : root combine [a, b, c] = root combine [a, b, c, c] := by
  simp [root, nextLevel, levelPairs]

theorem root_eq_none_iff {hashes : List α} : root combine hashes = none ↔ hashes = [] := by
  induction hashes using root.induct combine with
  | case1 hashes h ih =>
    rw [root_of_many combine h, ih, ← List.length_eq_zero_iff, ← List.length_eq_zero_iff,
      length_nextLevel]
    omega
  | case2 hashes h => rw [root_of_few combine h, List.head?_eq_none_iff]

/-! ## Binding -/

variable {combine}

theorem eq_of_map_eq {β γ : Type} {f : β → γ} {l l' : List β}
    (hinj : Set.InjOn f {x | x ∈ l ∨ x ∈ l'}) (h : l.map f = l'.map f) : l = l' := by
  induction l generalizing l' with
  | nil => exact (List.map_eq_nil_iff.mp h.symm).symm
  | cons x l ih =>
    cases l' with
    | nil => cases h
    | cons x' l' =>
      obtain ⟨hx, hrest⟩ := List.cons.inj h
      have htail := ih (hinj.mono fun y hy =>
        hy.imp (List.mem_cons_of_mem x) (List.mem_cons_of_mem x')) hrest
      rw [hinj (Or.inl List.mem_cons_self) (Or.inr List.mem_cons_self) hx, htail]

theorem nextLevel_inj {hashes hashes' : List α} (hlength : hashes.length = hashes'.length)
    (hinj : Set.InjOn (Function.uncurry combine)
      {p | p ∈ levelPairs hashes ∨ p ∈ levelPairs hashes'})
    (h : nextLevel combine hashes = nextLevel combine hashes') : hashes = hashes' :=
  levelPairs_inj hlength (eq_of_map_eq hinj h)

/-- **Binding.** Lists of one length with the same root are equal. -/
theorem root_inj {hashes hashes' : List α} (hlength : hashes.length = hashes'.length)
    (hinj : Set.InjOn (Function.uncurry combine)
      {p | p ∈ hashedPairs combine hashes ∨ p ∈ hashedPairs combine hashes'})
    (h : root combine hashes = root combine hashes') : hashes = hashes' := by
  induction hashes using root.induct combine generalizing hashes' with
  | case1 hashes hmany ih =>
    have hmany' : 1 < hashes'.length := hlength ▸ hmany
    rw [hashedPairs_of_many combine hmany, hashedPairs_of_many combine hmany'] at hinj
    rw [root_of_many combine hmany, root_of_many combine hmany'] at h
    have hnext : nextLevel combine hashes = nextLevel combine hashes' := by
      refine ih (by rw [length_nextLevel, length_nextLevel, hlength]) (hinj.mono ?_) h
      rintro p (hp | hp)
      · exact Or.inl (List.mem_append_right _ hp)
      · exact Or.inr (List.mem_append_right _ hp)
    refine nextLevel_inj hlength (hinj.mono ?_) hnext
    rintro p (hp | hp)
    · exact Or.inl (List.mem_append_left _ hp)
    · exact Or.inr (List.mem_append_left _ hp)
  | case2 hashes hfew =>
    have hfew' : ¬1 < hashes'.length := hlength ▸ hfew
    rw [root_of_few combine hfew, root_of_few combine hfew'] at h
    cases hashes with
    | nil => exact (List.length_eq_zero_iff.mp hlength.symm).symm
    | cons hash rest =>
      obtain rfl : rest = [] := List.length_eq_zero_iff.mp (by simpa using hfew)
      obtain ⟨hash', rfl⟩ := List.length_eq_one_iff.mp hlength.symm
      rw [Option.some.inj h]

/-- What holds of the leaves and of every combination holds of the hashed pairs. -/
theorem forall_hashedPairs {P : α → Prop} (hcombine : ∀ x y, P (combine x y)) {hashes : List α}
    (hleaves : ∀ x ∈ hashes, P x) : ∀ p ∈ hashedPairs combine hashes, P p.1 ∧ P p.2 := by
  intro p hp
  induction hashes using hashedPairs.induct combine with
  | case1 hashes hmany ih =>
    rw [hashedPairs_of_many combine hmany] at hp
    rcases List.mem_append.mp hp with hp | hp
    · obtain ⟨hleft, hright⟩ := mem_of_mem_levelPairs hp
      exact ⟨hleaves _ hleft, hleaves _ hright⟩
    · refine ih ?_ hp
      intro x hx
      obtain ⟨q, -, rfl⟩ := List.mem_map.mp hx
      exact hcombine q.1 q.2
  | case2 hashes hfew =>
    rw [hashedPairs, if_neg hfew] at hp
    cases hp

/-! ## Lists of different lengths -/

section Nodup

variable {hashes hashes' : List α}

theorem levelPairs_nodup (h : hashes.Nodup) : (levelPairs hashes).Nodup := by
  induction hashes using levelPairs.induct with
  | case1 => exact List.nodup_nil
  | case2 left => exact List.nodup_singleton _
  | case3 left right rest ih =>
    obtain ⟨hleft, hrest⟩ := List.nodup_cons.mp h
    refine List.nodup_cons.mpr ⟨fun hmem => ?_, ih (List.nodup_cons.mp hrest).2⟩
    exact hleft (List.mem_cons_of_mem right (mem_of_mem_levelPairs hmem).1)

/-- Without repetitions no hash is taken for the copy of another. -/
theorem levelPairs_inj_of_nodup (hnodup : hashes.Nodup) (hnodup' : hashes'.Nodup)
    (h : levelPairs hashes = levelPairs hashes') : hashes = hashes' := by
  induction hashes using levelPairs.induct generalizing hashes' with
  | case1 =>
    match hashes' with
    | [] => rfl
    | [_] => cases h
    | _ :: _ :: _ => cases h
  | case2 left =>
    match hashes' with
    | [] => cases h
    | [left'] => rw [(Prod.mk.inj (List.cons.inj h).1).1]
    | left' :: right' :: rest' =>
      obtain ⟨hleft, hright⟩ := Prod.mk.inj (List.cons.inj h).1
      rw [← hleft, ← hright] at hnodup'
      exact absurd List.mem_cons_self (List.nodup_cons.mp hnodup').1
  | case3 left right rest ih =>
    match hashes' with
    | [] => cases h
    | [left'] =>
      obtain ⟨hleft, hright⟩ := Prod.mk.inj (List.cons.inj h).1
      rw [hleft, hright] at hnodup
      exact absurd List.mem_cons_self (List.nodup_cons.mp hnodup).1
    | left' :: right' :: rest' =>
      obtain ⟨hpair, hrest⟩ := List.cons.inj h
      obtain ⟨rfl, rfl⟩ := Prod.mk.inj hpair
      rw [ih (List.nodup_cons.mp (List.nodup_cons.mp hnodup).2).2
        (List.nodup_cons.mp (List.nodup_cons.mp hnodup').2).2 hrest]

variable (combine) in
/-- The lists that the loop goes through. -/
inductive Level (hashes : List α) : List α → Prop
  | leaves : Level hashes hashes
  | next {level : List α} : Level hashes level → 1 < level.length →
      Level hashes (nextLevel combine level)

theorem Level.of_next (hmany : 1 < hashes.length) {level : List α}
    (h : Level combine (nextLevel combine hashes) level) : Level combine hashes level := by
  induction h with
  | leaves => exact .next .leaves hmany
  | next _ hlevel ih => exact .next ih hlevel

theorem level_root {r : α} (h : root combine hashes = some r) : Level combine hashes [r] := by
  induction hashes using root.induct combine with
  | case1 hashes hmany ih =>
    rw [root_of_many combine hmany] at h
    exact (ih h).of_next hmany
  | case2 hashes hfew =>
    rw [root_of_few combine hfew] at h
    match hashes with
    | [] => cases h
    | [x] =>
      rw [← Option.some.inj h]
      exact .leaves
    | _ :: _ :: _ => exact absurd (by simp) hfew

theorem nextLevel_nodup (hnodup : hashes.Nodup)
    (hinj : Set.InjOn (Function.uncurry combine) {p | p ∈ levelPairs hashes}) :
    (nextLevel combine hashes).Nodup :=
  (levelPairs_nodup hnodup).map_on fun _ hp _ hq => hinj hp hq

/-- The pairs of a level are combined on the way, and no hash is twice on it. -/
theorem Level.spec (hnodup : hashes.Nodup)
    (hinj : Set.InjOn (Function.uncurry combine) {p | p ∈ hashedPairs combine hashes})
    {level : List α} (h : Level combine hashes level) :
    level.Nodup ∧ ∀ p ∈ hashedPairs combine level, p ∈ hashedPairs combine hashes := by
  induction h with
  | leaves => exact ⟨hnodup, fun _ hp => hp⟩
  | next _ hmany ih =>
    rw [hashedPairs_of_many combine hmany] at ih
    obtain ⟨hlevel, hpairs⟩ := ih
    exact ⟨nextLevel_nodup hlevel (hinj.mono fun p hp => hpairs p (List.mem_append_left _ hp)),
      fun p hp => hpairs p (List.mem_append_right _ hp)⟩

theorem Level.exists_combine {level : List α} (h : Level combine hashes level)
    (hnodup : hashes.Nodup)
    (hinj : Set.InjOn (Function.uncurry combine) {p | p ∈ hashedPairs combine hashes}) :
    level = hashes ∨ ∃ p ∈ hashedPairs combine hashes, Function.uncurry combine p ∈ level := by
  cases h with
  | leaves => exact Or.inl rfl
  | @next level h hmany =>
    match level, h, hmany with
    | left :: right :: rest, h, hmany =>
      have hpairs := (h.spec hnodup hinj).2
      rw [hashedPairs_of_many combine hmany] at hpairs
      exact Or.inr ⟨(left, right), hpairs _ (List.mem_append_left _ List.mem_cons_self),
        List.mem_cons_self⟩

theorem nextLevel_inj_of_nodup (hnodup : hashes.Nodup) (hnodup' : hashes'.Nodup)
    (hinj : Set.InjOn (Function.uncurry combine)
      {p | p ∈ levelPairs hashes ∨ p ∈ levelPairs hashes'})
    (h : nextLevel combine hashes = nextLevel combine hashes') : hashes = hashes' :=
  levelPairs_inj_of_nodup hnodup hnodup' (eq_of_map_eq hinj h)

theorem Level.of_next_next (hnodup : hashes.Nodup) (hnodup' : hashes'.Nodup)
    (hmany : 1 < hashes.length) (hmany' : 1 < hashes'.length)
    (hinj : Set.InjOn (Function.uncurry combine)
      {p | p ∈ hashedPairs combine hashes ∨ p ∈ hashedPairs combine hashes'})
    (h : Level combine (nextLevel combine hashes) (nextLevel combine hashes')) :
    Level combine hashes hashes' := by
  have hpairs : ∀ level : List α, Level combine hashes level → 1 < level.length →
      nextLevel combine level = nextLevel combine hashes' → level = hashes' := by
    intro level hlevel hlong heq
    obtain ⟨hlevelNodup, hsub⟩ := hlevel.spec hnodup (hinj.mono fun p hp => Or.inl hp)
    rw [hashedPairs_of_many combine hlong] at hsub
    rw [hashedPairs_of_many combine hmany'] at hinj
    refine nextLevel_inj_of_nodup hlevelNodup hnodup' (hinj.mono ?_) heq
    rintro p (hp | hp)
    · exact Or.inl (hsub p (List.mem_append_left _ hp))
    · exact Or.inr (List.mem_append_left _ hp)
  generalize hnext : nextLevel combine hashes' = top at h
  cases h with
  | leaves =>
    rw [hpairs hashes .leaves hmany hnext.symm] at hnodup ⊢
    exact .leaves
  | next hlevel hlong =>
    have hfrom := hlevel.of_next hmany
    rw [← hpairs _ hfrom hlong hnext.symm]
    exact hfrom

/-- **Equal roots**: one of the lists is a level of the other. -/
theorem level_of_root_eq (hnodup : hashes.Nodup) (hnodup' : hashes'.Nodup)
    (hinj : Set.InjOn (Function.uncurry combine)
      {p | p ∈ hashedPairs combine hashes ∨ p ∈ hashedPairs combine hashes'})
    (h : root combine hashes = root combine hashes') :
    Level combine hashes hashes' ∨ Level combine hashes' hashes := by
  -- a list of one hash is the last level of every list with this root
  have hfew : ∀ {l l' : List α}, ¬1 < l.length → root combine l = root combine l' →
      Level combine l' l := by
    intro l l' hl hroot
    match l with
    | [] =>
      have hnone : root combine l' = none :=
        hroot.symm.trans ((root_eq_none_iff combine).mpr rfl)
      rw [(root_eq_none_iff combine).mp hnone]
      exact .leaves
    | [x] =>
      refine level_root (hroot.symm.trans ?_)
      rw [root_of_few combine hl]
      rfl
    | _ :: _ :: _ => exact absurd (by simp) hl
  induction hashes using root.induct combine generalizing hashes' with
  | case1 hashes hmany ih =>
    by_cases hmany' : 1 < hashes'.length
    · have hleft : ∀ p ∈ levelPairs hashes, p ∈ hashedPairs combine hashes := fun p hp => by
        rw [hashedPairs_of_many combine hmany]
        exact List.mem_append_left _ hp
      have hright : ∀ p ∈ levelPairs hashes', p ∈ hashedPairs combine hashes' := fun p hp => by
        rw [hashedPairs_of_many combine hmany']
        exact List.mem_append_left _ hp
      rw [root_of_many combine hmany, root_of_many combine hmany'] at h
      have hlevels := ih (nextLevel_nodup hnodup (hinj.mono fun p hp => Or.inl (hleft p hp)))
        (nextLevel_nodup hnodup' (hinj.mono fun p hp => Or.inr (hright p hp))) (hinj.mono ?_) h
      · refine hlevels.imp (.of_next_next hnodup hnodup' hmany hmany' hinj)
          (.of_next_next hnodup' hnodup hmany' hmany (hinj.mono fun p hp => hp.symm))
      · rintro p (hp | hp)
        · left
          rw [hashedPairs_of_many combine hmany]
          exact List.mem_append_right _ hp
        · right
          rw [hashedPairs_of_many combine hmany']
          exact List.mem_append_right _ hp
    · exact Or.inl (hfew hmany' h.symm)
  | case2 hashes hone => exact Or.inr (hfew hone h)

/-- **Binding of all lengths.** Without repetitions, and without a combination among the
leaves, lists with the same root are equal. -/
theorem root_inj_of_nodup (hnodup : hashes.Nodup) (hnodup' : hashes'.Nodup)
    (hinj : Set.InjOn (Function.uncurry combine)
      {p | p ∈ hashedPairs combine hashes ∨ p ∈ hashedPairs combine hashes'})
    (hleaf : ∀ p, (p ∈ hashedPairs combine hashes ∨ p ∈ hashedPairs combine hashes') →
      Function.uncurry combine p ∉ hashes ∧ Function.uncurry combine p ∉ hashes')
    (h : root combine hashes = root combine hashes') : hashes = hashes' := by
  rcases level_of_root_eq hnodup hnodup' hinj h with hlevel | hlevel
  · rcases hlevel.exists_combine hnodup (hinj.mono fun p hp => Or.inl hp) with heq | ⟨p, hp, hmem⟩
    · exact heq.symm
    · exact absurd hmem (hleaf p (Or.inl hp)).2
  · rcases hlevel.exists_combine hnodup' (hinj.mono fun p hp => Or.inr hp) with heq | ⟨p, hp, hmem⟩
    · exact heq
    · exact absurd hmem (hleaf p (Or.inr hp)).1

end Nodup

/-! ## Collisions -/

theorem levelPairs_replicate (n : ℕ) (x : α) :
    levelPairs (List.replicate n x) = List.replicate ((n + 1) / 2) (x, x) := by
  induction n using Nat.twoStepInduction with
  | zero => rfl
  | one => rfl
  | more n ih _ =>
    rw [List.replicate_succ, List.replicate_succ, levelPairs, ih,
      show (n + 2 + 1) / 2 = (n + 1) / 2 + 1 by omega, List.replicate_succ]

/-- The root of copies of one hash combines it with itself at every level. -/
theorem root_replicate {n : ℕ} (hn : 0 < n) (x : α) :
    root combine (List.replicate n x) = some ((fun x => combine x x)^[Nat.clog 2 n] x) := by
  induction n using Nat.strong_induction_on generalizing x with
  | _ n ih =>
    by_cases hmany : 1 < n
    · rw [root_of_many combine (by rwa [List.length_replicate]), nextLevel, levelPairs_replicate,
        List.map_replicate, ih _ (by omega) (by omega), Nat.clog_of_two_le (by decide) hmany,
        Function.iterate_succ_apply]
      rfl
    · obtain rfl : n = 1 := by omega
      rw [root_of_few combine (by simp)]
      rfl

/-- **Collisions.** Any two lengths have lists with the same root. -/
theorem exists_collision {P : α → Prop} (hcombine : ∀ x, P (combine x x)) {m n : ℕ} (hm : 0 < m)
    (hn : 0 < n) {x : α} (hx : P x) : ∃ y z, P y ∧ P z ∧
      root combine (List.replicate m y) = root combine (List.replicate n z) := by
  wlog hdepth : Nat.clog 2 m ≤ Nat.clog 2 n generalizing m n
  · obtain ⟨y, z, hy, hz, h⟩ := this hn hm (by omega)
    exact ⟨z, y, hz, hy, h.symm⟩
  · obtain ⟨k, hk⟩ := Nat.exists_eq_add_of_le hdepth
    refine ⟨(fun x => combine x x)^[k] x, x, ?_, hx, ?_⟩
    · induction k with
      | zero => exact hx
      | succ k ih =>
        rw [Function.iterate_succ_apply']
        exact hcombine _
    · rw [root_replicate hm, root_replicate hn, hk, Function.iterate_add_apply]

end MerkleTree
