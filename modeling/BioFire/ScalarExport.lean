import BioFire.BigIntText
import BioFire.SecureBuffer

/-!
# Exporting a scalar (`toSecureBuffer` of `src/lib/security/secure_buffer.ts`)

`toSecureBuffer` pads the hexadecimal digits of a value to the length of the buffer. Digits
that are more than that are kept, and `fromHex` reads them in pairs: an odd number of digits
loses the last one.

* `toSecureBuffer_eq`: the buffer of any value that is not negative;
* `exportsExactly_iff`: which values come back from a buffer of the asked length.
-/

namespace BioFire

namespace SecureBigInt

def toSecureBuffer (secret : SecureBigInt) (byteLength : ℕ := 32) :
    Except JSError SecureBuffer := do
  let val ← secret.value
  let hex := padStart (toString16 val) (byteLength * 2)
  return SecureBuffer.fromHex hex

end SecureBigInt

/-- The call throws, or its buffer has the asked length and gives the value back. -/
def ExportsExactly (v : ℤ) (byteLength : ℕ) : Prop :=
  (∃ e, (SecureBigInt.ofInt v).toSecureBuffer byteLength = .error e) ∨
    ∃ buffer bytes, (SecureBigInt.ofInt v).toSecureBuffer byteLength = .ok buffer ∧
      buffer.length = byteLength ∧ buffer.bytes = .ok bytes ∧ bytes.length = byteLength ∧
      (SecureBigInt.fromSecureBuffer buffer >>= SecureBigInt.value) = .ok v

theorem fromHex_digits {ds : List ℕ} (h : ∀ d ∈ ds, d < 16) :
    SecureBuffer.fromHex (ds.map hexDigit) = .ofBytes (parsedBytes (ds.map hexDigit)) := by
  have hx : ∀ d : Fin 16, (120 == hexDigit d) = false := by decide
  have hmark : (js "0x").isPrefixOf (ds.map hexDigit) = false := by
    rw [show js "0x" = [48, 120] from rfl]
    match ds with
    | [] => rfl
    | [_] => simp [List.isPrefixOf]
    | _ :: e :: _ =>
      have he := hx ⟨e, h e (by simp)⟩
      simp only [List.map_cons, List.isPrefixOf, he, Bool.false_and, Bool.and_false]
  rw [SecureBuffer.fromHex, hmark]
  rfl

/-- **Pairs of digits.** The bytes of an even number of digits have their value, and an odd
last digit is lost. -/
theorem parsedBytes_digits {ds : List ℕ} (h : ∀ d ∈ ds, d < 16) :
    (parsedBytes (ds.map hexDigit)).length = ds.length / 2 ∧
      bytesToBigInt (parsedBytes (ds.map hexDigit)) =
        ((ds.foldl (fun value d => value * 16 + d) 0 : ℕ) : ℤ) / 16 ^ (ds.length % 2) := by
  have hpairs : ∀ d ∈ ds.take (2 * (ds.length / 2)), d < 16 :=
    fun d hd => h d (List.mem_of_mem_take hd)
  have hlast : (ds.drop (2 * (ds.length / 2))).length = ds.length % 2 := by
    rw [List.length_drop]
    omega
  obtain ⟨bs, hbs, hhex⟩ := exists_bytesToHex_eq hpairs (n := ds.length / 2) (by
    rw [List.length_take]
    omega)
  have hparsed : parsedBytes (ds.map hexDigit) = bs := by
    rw [← List.take_append_drop (2 * (ds.length / 2)) ds, List.map_append, ← hhex]
    apply parsedBytes_bytesToHex_append
    rw [List.length_map, hlast]
    omega
  rw [hparsed, bytesToBigInt_of_digits hpairs hhex]
  refine ⟨hbs, ?_⟩
  have hsplit : ds.foldl (fun value d => value * 16 + d) 0 =
      (ds.drop (2 * (ds.length / 2))).foldl (fun value d => value * 16 + d)
        ((ds.take (2 * (ds.length / 2))).foldl (fun value d => value * 16 + d) 0) := by
    rw [← List.foldl_append, List.take_append_drop]
  rw [hsplit]
  generalize (ds.take (2 * (ds.length / 2))).foldl (fun value d => value * 16 + d) 0 = value
  rcases Nat.mod_two_eq_zero_or_one ds.length with heven | hodd
  · rw [heven] at hlast ⊢
    rw [List.length_eq_zero_iff.mp hlast, pow_zero, Int.ediv_one]
    rfl
  · rw [hodd] at hlast ⊢
    obtain ⟨d, hd⟩ := List.length_eq_one_iff.mp hlast
    have hsmall : d < 16 := h d (List.mem_of_mem_drop (by rw [hd]; exact List.mem_singleton_self d))
    rw [hd, List.foldl_cons, List.foldl_nil]
    omega

/-- **The buffer of a value.** It has the asked length, or that of the digits when they are
more, and gives the value back without an odd last digit. -/
theorem toSecureBuffer_eq {v : ℤ} (hv : 0 ≤ v) (byteLength : ℕ) :
    ∃ bytes, (SecureBigInt.ofInt v).toSecureBuffer byteLength = .ok (.ofBytes bytes) ∧
      bytes.length = max (byteLength * 2) (toString16 v).length / 2 ∧
      bytesToBigInt bytes = v / 16 ^ (max (byteLength * 2) (toString16 v).length % 2) := by
  obtain ⟨ds, hdigits, hsmall, -, hvalue⟩ := exists_digits_padStart hv (byteLength * 2)
  obtain ⟨hlength, hbytes⟩ := parsedBytes_digits hsmall
  have hcount : ds.length = max (byteLength * 2) (toString16 v).length := by
    rw [← length_padStart, hdigits, List.length_map]
  rw [hcount] at hlength hbytes
  rw [hvalue] at hbytes
  refine ⟨parsedBytes (ds.map hexDigit), ?_, hlength, hbytes⟩
  rw [← fromHex_digits hsmall, ← hdigits]
  rfl

/-- **Export and import.** The values that come back from a buffer of the asked length are
those that fit into it. -/
theorem exportsExactly_iff (v : ℤ) (hv : 0 ≤ v) (byteLength : ℕ) (hpos : 1 ≤ byteLength) :
    ExportsExactly v byteLength ↔ v < 256 ^ byteLength := by
  obtain ⟨bytes, hbuffer, hlength, hbytes⟩ := toSecureBuffer_eq hv byteLength
  have hfits := length_toString16_le_iff hv (k := byteLength * 2) (by omega)
  rw [pow_mul'] at hfits
  norm_num at hfits
  rw [← hfits, ExportsExactly, hbuffer]
  constructor
  · rintro (⟨e, he⟩ | ⟨buffer, bytes', hok, hbufferLength, -, -, hvalue⟩)
    · cases he
    · cases hok
      have hvalue' : bytesToBigInt bytes = v := Except.ok.inj hvalue
      by_contra hmore
      have hodd : max (byteLength * 2) (toString16 v).length = byteLength * 2 + 1 := by
        rw [max_eq_right (by omega)] at hlength ⊢
        change bytes.length = byteLength at hbufferLength
        omega
      rw [hodd, show (byteLength * 2 + 1) % 2 = 1 by omega, hvalue'] at hbytes
      have hzero : v = 0 := by omega
      have hone := (length_toString16_le_iff hv (k := 1) (by decide)).mpr (by rw [hzero]; decide)
      omega
  · intro hle
    rw [max_eq_left hle] at hlength hbytes
    rw [Nat.mul_div_cancel _ (by decide)] at hlength
    rw [Nat.mul_mod_left, pow_zero, Int.ediv_one] at hbytes
    refine Or.inr ⟨.ofBytes bytes, bytes, rfl, hlength, rfl, hlength, ?_⟩
    rw [← hbytes]
    rfl

/-- The number 258 has two bytes. -/
theorem exportsExactly_two_bytes : ExportsExactly 258 2 :=
  (exportsExactly_iff 258 (by decide) 2 (by decide)).mpr (by decide)

/-- The number 256 has three digits, and one byte is made of the first two. -/
theorem last_digit_lost :
    (SecureBigInt.ofInt 256).toSecureBuffer 1 = .ok (.ofBytes [16]) ∧ ¬ ExportsExactly 256 1 := by
  have hbuffer : (SecureBigInt.ofInt 256).toSecureBuffer 1 = .ok (.ofBytes [16]) := by
    have hbytes : parsedBytes (js "100") = [16] := by decide
    rw [← hbytes]
    rfl
  refine ⟨hbuffer, ?_⟩
  rintro (⟨e, he⟩ | ⟨buffer, bytes, hok, -, -, -, hvalue⟩)
  · rw [hbuffer] at he
    cases he
  · rw [hbuffer] at hok
    cases hok
    cases hvalue

end BioFire
