import Mathlib.Data.Nat.Bitwise
import Mathlib.Data.List.Basic
import Mathlib.Tactic.Ring

/-!
# Strings of bits

Bits in the order of their weight, the heaviest first, and the numbers that they are. A string
is cut into groups of one width from the left.

* `value_append`, `value_ofNat`: the number of a string, part by part;
* `groups_append`: the groups of a part, and then those of the rest;
* `value_of_mod`, `mod_of_mod`: the first bits and the last ones of the low bits of a number;
* `ofNat_value`, `flatMap_groups`: the bits are read back from the number and from the groups.
-/

namespace BitStrings

/-- The number with these bits. -/
def value : List Bool → ℕ
  | [] => 0
  | b :: bits => b.toNat * 2 ^ bits.length + value bits

/-- The lowest `width` bits of `n`. -/
def ofNat : ℕ → ℕ → List Bool
  | 0, _ => []
  | width + 1, n => n.testBit width :: ofNat width n

/-- The first groups of `width` bits, `count` of them. -/
def takeGroups (width : ℕ) : ℕ → List Bool → List ℕ
  | 0, _ => []
  | count + 1, bits => value (bits.take width) :: takeGroups width count (bits.drop width)

/-- All groups of `width` bits. -/
def groups (width : ℕ) (bits : List Bool) : List ℕ := takeGroups width (bits.length / width) bits

/-! ## Values -/

@[simp] theorem length_ofNat (width n : ℕ) : (ofNat width n).length = width := by
  induction width with
  | zero => rfl
  | succ width ih => rw [ofNat, List.length_cons, ih]

theorem value_append (a b : List Bool) : value (a ++ b) = value a * 2 ^ b.length + value b := by
  induction a with
  | nil => simp [value]
  | cons c a ih =>
    rw [List.cons_append, value, ih, value, List.length_append, pow_add]
    ring

theorem value_lt (bits : List Bool) : value bits < 2 ^ bits.length := by
  induction bits with
  | nil => simp [value]
  | cons b bits ih =>
    have hb : b.toNat * 2 ^ bits.length ≤ 1 * 2 ^ bits.length :=
      Nat.mul_le_mul_right _ (Bool.toNat_le b)
    rw [value, List.length_cons, pow_succ]
    omega

@[simp] theorem value_replicate_false (n : ℕ) : value (List.replicate n false) = 0 := by
  induction n with
  | zero => rfl
  | succ n ih => simp [List.replicate_succ, value, ih]

theorem value_ofNat (width n : ℕ) : value (ofNat width n) = n % 2 ^ width := by
  induction width with
  | zero => simp [ofNat, value, Nat.mod_one]
  | succ width ih =>
    rw [ofNat, value, length_ofNat, ih, Nat.toNat_testBit, Nat.mod_pow_succ]
    ring

/-! ## Low bits of a number -/

theorem value_of_mod {n : ℕ} {a b : List Bool}
    (h : n % 2 ^ (a ++ b).length = value (a ++ b)) :
    n / 2 ^ b.length % 2 ^ a.length = value a := by
  rw [List.length_append, Nat.add_comm, pow_add] at h
  rw [← Nat.mod_mul_right_div_self, h, value_append, Nat.add_comm,
    Nat.add_mul_div_right _ _ (Nat.two_pow_pos _), Nat.div_eq_of_lt (value_lt b), Nat.zero_add]

theorem mod_of_mod {n : ℕ} {a b : List Bool}
    (h : n % 2 ^ (a ++ b).length = value (a ++ b)) : n % 2 ^ b.length = value b := by
  have hdvd : 2 ^ b.length ∣ 2 ^ (a ++ b).length := by
    rw [List.length_append]
    exact pow_dvd_pow 2 (Nat.le_add_left b.length a.length)
  rw [← Nat.mod_mod_of_dvd n hdvd, h, value_append, Nat.mul_add_mod_self_right,
    Nat.mod_eq_of_lt (value_lt b)]

/-! ## Groups -/

theorem length_takeGroups (width count : ℕ) (bits : List Bool) :
    (takeGroups width count bits).length = count := by
  induction count generalizing bits with
  | zero => rfl
  | succ count ih => rw [takeGroups, List.length_cons, ih]

theorem length_groups (width : ℕ) (bits : List Bool) :
    (groups width bits).length = bits.length / width := length_takeGroups _ _ _

theorem groups_append {width : ℕ} (hwidth : 0 < width) {a : List Bool} (ha : a.length = width)
    (b : List Bool) : groups width (a ++ b) = value a :: groups width b := by
  rw [groups, List.length_append, ha, Nat.add_div_left _ hwidth, takeGroups, ← ha,
    List.take_left, List.drop_left, groups]

theorem groups_of_length_lt {width : ℕ} {bits : List Bool} (h : bits.length < width) :
    groups width bits = [] := by
  rw [groups, Nat.div_eq_of_lt h, takeGroups]

/-! ## Bits of a value -/

theorem value_inj {a b : List Bool} (hlength : a.length = b.length) (h : value a = value b) :
    a = b := by
  induction a generalizing b with
  | nil => exact (List.length_eq_zero_iff.mp hlength.symm).symm
  | cons c a ih =>
    obtain ⟨d, b, rfl⟩ := List.exists_cons_of_length_eq_add_one hlength.symm
    have hlength' : a.length = b.length := Nat.succ_injective hlength
    have ha := value_lt a
    have hb := value_lt b
    rw [value, value, hlength'] at h
    rw [hlength'] at ha
    have hcd : c = d := by
      cases c <;> cases d <;> simp at h ⊢ <;> omega
    subst hcd
    rw [ih hlength' (Nat.add_left_cancel h)]

theorem ofNat_value (a : List Bool) : ofNat a.length (value a) = a := by
  apply value_inj (length_ofNat _ _)
  rw [value_ofNat, Nat.mod_eq_of_lt (value_lt a)]

/-- **Groups are read back**, from a string that has whole groups only. -/
theorem flatMap_groups {width : ℕ} (hwidth : 0 < width) {bits : List Bool}
    (h : width ∣ bits.length) : (groups width bits).flatMap (ofNat width) = bits := by
  induction hn : bits.length using Nat.strong_induction_on generalizing bits with
  | _ n ih =>
    rcases Nat.lt_or_ge bits.length width with hshort | hlong
    · obtain rfl : bits = [] :=
        List.length_eq_zero_iff.mp (Nat.eq_zero_of_dvd_of_lt h hshort)
      rw [groups_of_length_lt hshort, List.flatMap_nil]
    · have htake : (bits.take width).length = width := List.length_take_of_le hlong
      have hdrop : (bits.drop width).length = bits.length - width := List.length_drop
      have hrest := ih (bits.drop width).length (by omega) (hdrop ▸ Nat.dvd_sub h (dvd_refl width))
        rfl
      have hfirst := ofNat_value (bits.take width)
      rw [htake] at hfirst
      rw [← List.take_append_drop width bits, groups_append hwidth htake, List.flatMap_cons, hrest,
        hfirst]

end BitStrings
