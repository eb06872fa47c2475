import BioFire.JSString
import Mathlib.Data.Set.Card
import Mathlib.Algebra.Order.Ring.Int

/-!
# Byte strings as numbers

`bytesToBigInt` reads a byte string with the most significant byte first. The strings of `n`
bytes are the numbers below `256 ^ n`.

* `bytesToBigInt_inj`, `exists_bytesToBigInt_eq`: each number is written once;
* `ncard_bytes_lt`: the number of strings below a bound.
-/

namespace BioFire

theorem bytesToBigInt_concat (bs : Bytes) (b : UInt8) :
    bytesToBigInt (bs ++ [b]) = bytesToBigInt bs * 256 + b.toNat := by
  rw [bytesToBigInt, bytesToBigInt, List.foldl_append]
  rfl

theorem bytesToBigInt_bounds (bs : Bytes) :
    0 ≤ bytesToBigInt bs ∧ bytesToBigInt bs < 256 ^ bs.length := by
  induction bs using List.reverseRecOn with
  | nil => simp [bytesToBigInt]
  | append_singleton bs b ih =>
    have hb := b.toNat_lt
    rw [bytesToBigInt_concat, List.length_append, List.length_singleton, pow_succ]
    omega

/-- Byte strings of one length are determined by their number. -/
theorem bytesToBigInt_inj {bs bs' : Bytes} (hlen : bs.length = bs'.length)
    (h : bytesToBigInt bs = bytesToBigInt bs') : bs = bs' := by
  induction bs using List.reverseRecOn generalizing bs' with
  | nil => exact (List.length_eq_zero_iff.mp hlen.symm).symm
  | append_singleton bs b ih =>
    cases bs' using List.reverseRecOn with
    | nil => simp at hlen
    | append_singleton bs' b' =>
      have hb := b.toNat_lt
      have hb' := b'.toNat_lt
      rw [bytesToBigInt_concat, bytesToBigInt_concat] at h
      simp only [List.length_append, List.length_singleton, Nat.add_right_cancel_iff] at hlen
      rw [ih hlen (by omega), UInt8.toNat_inj.mp (show b.toNat = b'.toNat by omega)]

theorem exists_bytesToBigInt_eq {n v : ℕ} (h : v < 256 ^ n) :
    ∃ bs : Bytes, bs.length = n ∧ bytesToBigInt bs = v := by
  induction n generalizing v with
  | zero =>
    rw [pow_zero, Nat.lt_one_iff] at h
    exact ⟨[], rfl, by rw [h]; rfl⟩
  | succ n ih =>
    rw [pow_succ] at h
    obtain ⟨bs, hlen, hvalue⟩ := ih (Nat.div_lt_of_lt_mul (by rwa [mul_comm]))
    refine ⟨bs ++ [UInt8.ofNat (v % 256)], by simp [hlen], ?_⟩
    rw [bytesToBigInt_concat, hvalue, UInt8.toNat_ofNat', Nat.mod_eq_of_lt (by omega)]
    omega

theorem ncard_bytes_lt {n m : ℕ} (h : m ≤ 256 ^ n) :
    {bs : Bytes | bs.length = n ∧ bytesToBigInt bs < m}.ncard = m := by
  have hinj : Set.InjOn (fun bs : Bytes => (bytesToBigInt bs).toNat)
      {bs | bs.length = n ∧ bytesToBigInt bs < m} := by
    intro bs hbs bs' hbs' heq
    have h₀ := (bytesToBigInt_bounds bs).1
    have h₀' := (bytesToBigInt_bounds bs').1
    dsimp only at heq
    exact bytesToBigInt_inj (hbs.1.trans hbs'.1.symm) (by omega)
  have himage : (fun bs : Bytes => (bytesToBigInt bs).toNat) ''
      {bs | bs.length = n ∧ bytesToBigInt bs < m} = (Finset.range m : Set ℕ) := by
    ext v
    rw [Finset.mem_coe, Finset.mem_range]
    constructor
    · rintro ⟨bs, ⟨-, hlt⟩, rfl⟩
      have h₀ := (bytesToBigInt_bounds bs).1
      dsimp only
      omega
    · intro hv
      obtain ⟨bs, hlen, hvalue⟩ := exists_bytesToBigInt_eq (hv.trans_le h)
      refine ⟨bs, ⟨hlen, by omega⟩, ?_⟩
      dsimp only
      omega
  rw [← hinj.ncard_image, himage, Set.ncard_coe_finset, Finset.card_range]

end BioFire
