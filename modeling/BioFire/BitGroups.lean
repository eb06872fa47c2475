import BioFire.Bech32
import BioFire.BitStrings

/-!
# Regrouping bits (`convertBits` of `src/lib/crypto/address_derivation.ts`)

The accumulator of `convertBits` is a signed 32-bit integer that is never masked. The bits
that the loop has not used yet, fewer than five between two bytes, are its lowest ones; what
overflows above them is never read.

* `LowBits.shiftByte`: the next byte in the accumulator;
* `takeGroups_lowBits`: the groups that leave it;
* `convertBits_eq`: the result as groups of the bits of all bytes.
-/

namespace BioFire.AddressDerivation

open BitStrings (groups groups_append groups_of_length_lt)

/-- The bits of the bytes, in their order. -/
def bigEndianBits (data : Bytes) : List Bool := data.flatMap fun b => BitStrings.ofNat 8 b.toNat

/-- The zeros after `length` bits, up to a multiple of five. -/
def padding (length : ℕ) : List Bool := List.replicate ((5 - length % 5) % 5) false

/-- The lowest bits of the accumulator are the pending ones. -/
def LowBits (acc : BitVec 32) (pending : List Bool) : Prop :=
  acc.toNat % 2 ^ pending.length = BitStrings.value pending

theorem length_bigEndianBits (data : Bytes) : (bigEndianBits data).length = 8 * data.length := by
  induction data with
  | nil => rfl
  | cons b data ih =>
    rw [bigEndianBits] at ih ⊢
    rw [List.flatMap_cons, List.length_append, ih, BitStrings.length_ofNat, List.length_cons]
    ring

/-! ## Shifts and masks -/

theorem toNat_and_mask (x : BitVec 32) : (x &&& (shiftLeft 1 5 - 1)).toNat = x.toNat % 2 ^ 5 := by
  rw [BitVec.toNat_and, show (shiftLeft 1 5 - 1 : BitVec 32).toNat = 2 ^ 5 - 1 by decide,
    Nat.and_two_pow_sub_one_eq_mod]

/-- Five bits that are in the accumulator do not depend on its sign. -/
theorem toNat_shiftRight_mod (x : BitVec 32) {s : ℕ} (hs : s + 5 ≤ 32) :
    (shiftRight x s).toNat % 2 ^ 5 = x.toNat / 2 ^ s % 2 ^ 5 := by
  apply Nat.eq_of_testBit_eq
  intro i
  rw [Nat.testBit_mod_two_pow, Nat.testBit_mod_two_pow, Nat.testBit_div_two_pow]
  by_cases hi : i < 5
  · rw [BitVec.testBit_toNat, BitVec.testBit_toNat, shiftRight, Nat.mod_eq_of_lt (by omega),
      BitVec.getLsbD_sshiftRight, if_pos (by omega),
      decide_eq_false (show ¬ 32 ≤ i by omega), Bool.not_false, Bool.true_and, Nat.add_comm]
  · simp [hi]

theorem toNat_shiftLeft_mod (x : BitVec 32) {s m : ℕ} (hs : s < 32) (hm : m ≤ 32) :
    (shiftLeft x s).toNat % 2 ^ m = x.toNat * 2 ^ s % 2 ^ m := by
  rw [shiftLeft, Nat.mod_eq_of_lt hs, BitVec.toNat_shiftLeft, Nat.shiftLeft_eq,
    Nat.mod_mod_of_dvd _ (pow_dvd_pow 2 hm)]

theorem shiftRight_byte (b : UInt8) : shiftRight (BitVec.ofNat 32 b.toNat) 8 = 0 := by
  have hb : b.toNat < 2 ^ 8 := b.toNat_lt
  have hbit : ∀ j, 8 ≤ j → (BitVec.ofNat 32 b.toNat).getLsbD j = false := by
    intro j hj
    have hpow : 2 ^ 8 ≤ 2 ^ j := Nat.pow_le_pow_right (by decide) hj
    rw [BitVec.getLsbD_ofNat, Nat.testBit_lt_two_pow (hb.trans_le hpow), Bool.and_false]
  apply BitVec.eq_of_getLsbD_eq
  intro i hi
  rw [shiftRight, BitVec.getLsbD_sshiftRight, BitVec.msb_eq_getLsbD_last,
    hbit (8 % 32 + i) (by omega), hbit (32 - 1) (by decide)]
  simp

/-- **The next byte.** It comes after the pending bits, whatever overflows. -/
theorem LowBits.shiftByte {acc : BitVec 32} {pending : List Bool} (h : LowBits acc pending)
    (hlen : pending.length + 8 ≤ 32) (b : UInt8) :
    LowBits (shiftLeft acc 8 ||| BitVec.ofNat 32 b.toNat)
      (pending ++ BitStrings.ofNat 8 b.toNat) := by
  have hb : b.toNat < 2 ^ 8 := b.toNat_lt
  have hshift : (shiftLeft acc 8).toNat = 2 ^ 8 * (acc.toNat % 2 ^ 24) := by
    rw [shiftLeft, BitVec.toNat_shiftLeft, Nat.shiftLeft_eq, Nat.mul_comm,
      show (2 : ℕ) ^ 32 = 2 ^ 8 * 2 ^ 24 by norm_num, Nat.mul_mod_mul_left]
  have hor : (shiftLeft acc 8 ||| BitVec.ofNat 32 b.toNat).toNat =
      2 ^ 8 * (acc.toNat % 2 ^ 24) + b.toNat := by
    have hbyte : (BitVec.ofNat 32 b.toNat).toNat = b.toNat := by
      rw [BitVec.toNat_ofNat, Nat.mod_eq_of_lt (hb.trans (by decide))]
    rw [BitVec.toNat_or, hshift, hbyte, Nat.two_pow_add_eq_or_of_lt hb]
  rw [LowBits, hor, BitStrings.value_append, BitStrings.value_ofNat, BitStrings.length_ofNat,
    Nat.mod_eq_of_lt hb, List.length_append, BitStrings.length_ofNat, Nat.add_comm pending.length,
    pow_add, Nat.mod_mul, ← h, Nat.mul_add_mod, Nat.mod_eq_of_lt hb,
    Nat.mul_add_div (Nat.two_pow_pos 8), Nat.div_eq_of_lt hb, Nat.add_zero,
    Nat.mod_mod_of_dvd _ (pow_dvd_pow 2 (by omega))]
  ring

/-! ## The loops -/

/-- **The groups that leave the accumulator.** They are the first ones of the pending bits,
and fewer than five bits stay pending. -/
theorem takeGroups_lowBits {acc : BitVec 32} {rounds : ℕ} {pending : List Bool}
    (h : LowBits acc pending) (hlen : pending.length ≤ 32) (hrounds : pending.length ≤ rounds) :
    ∃ rest, LowBits acc rest ∧ rest.length = pending.length % 5 ∧
      (takeGroups acc 5 (shiftLeft 1 5 - 1) rounds pending.length).2 = rest.length ∧
      ∀ tail, groups 5 (pending ++ tail) =
        (takeGroups acc 5 (shiftLeft 1 5 - 1) rounds pending.length).1 ++
          groups 5 (rest ++ tail) := by
  induction rounds generalizing pending with
  | zero =>
    obtain rfl := List.length_eq_zero_iff.mp (Nat.le_zero.mp hrounds)
    exact ⟨[], h, rfl, rfl, fun tail => rfl⟩
  | succ rounds ih =>
    rw [takeGroups]
    split
    next hfive =>
      have hfirst : (pending.take 5).length = 5 := by rw [List.length_take]; omega
      have hdrop : (pending.drop 5).length = pending.length - 5 := List.length_drop
      rw [LowBits, ← List.take_append_drop 5 pending] at h
      have hgroup := BitStrings.value_of_mod h
      have hlow : LowBits acc (pending.drop 5) := BitStrings.mod_of_mod h
      obtain ⟨rest, hrest, hlength, hbits, htail⟩ := ih hlow (by omega) (by omega)
      rw [hdrop] at hgroup hlength hbits htail
      rw [hfirst] at hgroup
      refine ⟨rest, hrest, by omega, hbits, ?_⟩
      intro tail
      have hcut : pending ++ tail = pending.take 5 ++ (pending.drop 5 ++ tail) := by
        rw [← List.append_assoc, List.take_append_drop]
      rw [hcut, groups_append (by decide) hfirst, htail tail, toNat_and_mask,
        toNat_shiftRight_mod acc (by omega), hgroup]
      rfl
    next hfew => exact ⟨pending, h, (Nat.mod_eq_of_lt (by omega)).symm, rfl, fun tail => rfl⟩

theorem padding_congr {m n : ℕ} (h : m % 5 = n % 5) : padding m = padding n := by
  rw [padding, padding, h]

/-- **The last group.** The pending bits are filled up with zeros. -/
theorem lastGroup_eq {acc : BitVec 32} {pending : List Bool} (h : LowBits acc pending)
    (hpos : 0 < pending.length) (hlen : pending.length < 5) :
    groups 5 (pending ++ padding pending.length) =
      [(shiftLeft acc (5 - pending.length) &&& (shiftLeft 1 5 - 1)).toNat] := by
  have hzeros : padding pending.length = List.replicate (5 - pending.length) false := by
    rw [padding, Nat.mod_eq_of_lt hlen, Nat.mod_eq_of_lt (by omega)]
  have hfive : (pending ++ List.replicate (5 - pending.length) false).length = 5 := by
    rw [List.length_append, List.length_replicate]
    omega
  have hpow : (2 : ℕ) ^ 5 = 2 ^ pending.length * 2 ^ (5 - pending.length) := by
    rw [← pow_add]
    congr 1
    omega
  have hgroup := groups_append (by decide) hfive []
  rw [List.append_nil] at hgroup
  rw [hzeros, hgroup, BitStrings.value_append, BitStrings.value_replicate_false,
    List.length_replicate, toNat_and_mask, toNat_shiftLeft_mod acc (by omega) (by decide), hpow,
    Nat.mul_mod_mul_right, h]
  rfl

/-- **All bytes.** From pending bits on, the loop returns the groups of these bits, of those
of the bytes and of zeros. -/
theorem convertLoop_eq (data : Bytes) {acc : BitVec 32} {pending : List Bool}
    (h : LowBits acc pending) (hlen : pending.length < 5) :
    convertLoop 8 5 true (shiftLeft 1 5 - 1) data acc pending.length =
      some (groups 5 (pending ++ bigEndianBits data ++
        padding (pending.length + 8 * data.length))) := by
  induction data generalizing acc pending with
  | nil =>
    rw [convertLoop, bigEndianBits, List.flatMap_nil, List.append_nil, List.length_nil,
      Nat.mul_zero, Nat.add_zero]
    split
    next hpad => rw [lastGroup_eq h hpad.2 hlen]
    next hnone =>
      obtain rfl : pending = [] := List.length_eq_zero_iff.mp (by simpa using hnone)
      rfl
  | cons b data ih =>
    have hbyte := h.shiftByte (by omega) b
    have hlength : (pending ++ BitStrings.ofNat 8 b.toNat).length = pending.length + 8 := by
      rw [List.length_append, BitStrings.length_ofNat]
    obtain ⟨rest, hrest, hshort, hbits, htail⟩ :=
      takeGroups_lowBits hbyte (by omega) (Nat.le_refl _)
    rw [hlength] at hshort hbits htail
    have hzeros : padding (rest.length + 8 * data.length) =
        padding (pending.length + 8 * (b :: data).length) := by
      apply padding_congr
      rw [List.length_cons]
      omega
    have hcut : pending ++ bigEndianBits (b :: data) =
        pending ++ BitStrings.ofNat 8 b.toNat ++ bigEndianBits data := by
      rw [bigEndianBits, List.flatMap_cons, ← List.append_assoc, bigEndianBits]
    rw [convertLoop]
    dsimp only
    rw [if_neg (not_not.mpr (shiftRight_byte b)), hbits, ih hrest (by omega), hzeros, hcut,
      List.append_assoc (pending ++ BitStrings.ofNat 8 b.toNat), htail, List.append_assoc rest]
    rfl

/-- **Regrouping.** The result is the groups of five bits of the bytes, filled up with zeros. -/
theorem convertBits_eq (data : Bytes) :
    convertBits data 8 5 true =
        groups 5 (bigEndianBits data ++ padding (bigEndianBits data).length) ∧
      (convertBits data 8 5 true).length = (8 * data.length + 4) / 5 := by
  have hstart : LowBits 0 [] := rfl
  have hloop := convertLoop_eq data hstart (by decide)
  rw [List.nil_append, List.length_nil, Nat.zero_add, ← length_bigEndianBits] at hloop
  have hgroups : convertBits data 8 5 true =
      groups 5 (bigEndianBits data ++ padding (bigEndianBits data).length) := by
    rw [convertBits, hloop, Option.getD_some]
  refine ⟨hgroups, ?_⟩
  rw [hgroups, BitStrings.length_groups, List.length_append, padding, List.length_replicate,
    length_bigEndianBits]
  omega

/-- Three bytes have 24 bits; the last group has the bits `1111` and a zero. -/
example : convertBits [0xFF, 0x00, 0xFF] 8 5 true = [31, 28, 0, 15, 30] := by decide

end BioFire.AddressDerivation
