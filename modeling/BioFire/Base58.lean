import BioFire.JSString
import Mathlib.Data.Nat.Digits.Lemmas

/-!
# Base58 (`src/lib/crypto/address_derivation.ts`)

`encodeBase58` keeps the digits of a number in an array, the lowest first, and
multiplies it by 256 for each byte.

* `addByte_digits`: one byte, on the digits of any number;
* `encodeBase58_eq`: the encoder against the standard encoding. It writes a `1` too
  many when there is no byte but zeros;
* `encodeBase58_standard_iff`: elsewhere it is the standard encoding.
-/

namespace BioFire.AddressDerivation

/-! ## The code -/

def BASE58_ALPHABET : JSString := js "123456789ABCDEFGHJKLMNPQRSTUVWXYZabcdefghijkmnopqrstuvwxyz"

/-- The loop over the digits, and the carry past the last one. -/
def carryThrough : List ℕ → ℕ → List ℕ × ℕ
  | [], carry => ([], carry)
  | digit :: digits, carry =>
    let carry := carry + digit * 2 ^ 8
    let rest := carryThrough digits (carry / 58)
    (carry % 58 :: rest.1, rest.2)

/-- `while (carry > 0)`: the digits that are pushed. -/
def pushCarry (carry : ℕ) : List ℕ :=
  if h : 0 < carry then carry % 58 :: pushCarry (carry / 58) else []
termination_by carry
decreasing_by exact Nat.div_lt_self h (by decide)

/-- One byte. -/
def addByte (digits : List ℕ) (carry : ℕ) : List ℕ :=
  let through := carryThrough digits carry
  through.1 ++ pushCarry through.2

def encodeBase58 (bytes : Bytes) : JSString :=
  let zeros := (bytes.takeWhile (· == 0)).length
  let digits := (bytes.drop zeros).foldl (fun digits b => addByte digits b.toNat) [0]
  List.replicate zeros 49 ++ digits.reverse.flatMap (charAt BASE58_ALPHABET)

/-! ## The standard -/

/-- The number with these bytes, the most significant first. -/
def bigEndian (bytes : Bytes) : ℕ := bytes.foldl (fun value b => value * 256 + b.toNat) 0

/-- A `1` for each leading zero byte, then the digits of the number, the highest
first. -/
def standardBase58 (bytes : Bytes) : JSString :=
  List.replicate (bytes.takeWhile (· == 0)).length 49 ++
    (Nat.digits 58 (bigEndian bytes)).reverse.flatMap (charAt BASE58_ALPHABET)

/-- A zero byte for each leading `1`, then the bytes of the number. -/
def decodeBase58 (text : JSString) : Bytes :=
  let ones := (text.takeWhile (· == 49)).length
  let value := (text.drop ones).foldl (fun value c => value * 58 + BASE58_ALPHABET.idxOf c) 0
  List.replicate ones 0 ++ (Nat.digits 256 value).reverse.map UInt8.ofNat

/-! ## Digits -/

theorem pushCarry_eq (carry : ℕ) : pushCarry carry = Nat.digits 58 carry := by
  induction carry using Nat.strong_induction_on with
  | _ carry ih =>
    rw [pushCarry]
    split
    next h => rw [ih _ (Nat.div_lt_self h (by decide)), Nat.digits_def' (by decide) h]
    next h => rw [show carry = 0 by omega, Nat.digits_zero]

/-- **One byte**: the digits of `v` become those of `v * 256 + carry`. -/
theorem addByte_digits (v carry : ℕ) :
    addByte (Nat.digits 58 v) carry = Nat.digits 58 (v * 256 + carry) := by
  induction v using Nat.strong_induction_on generalizing carry with
  | _ v ih =>
    rcases Nat.eq_zero_or_pos v with rfl | hv
    · rw [Nat.digits_zero, addByte, carryThrough, List.nil_append, pushCarry_eq, Nat.zero_mul,
        Nat.zero_add]
    · have hmod : (carry + v % 58 * 2 ^ 8) % 58 = (v * 256 + carry) % 58 := by omega
      have hdiv : v / 58 * 256 + (carry + v % 58 * 2 ^ 8) / 58 = (v * 256 + carry) / 58 := by omega
      have hrest := ih (v / 58) (Nat.div_lt_self hv (by decide)) ((carry + v % 58 * 2 ^ 8) / 58)
      rw [Nat.digits_def' (by decide) hv,
        Nat.digits_def' (by decide) (show 0 < v * 256 + carry by omega), ← hmod, ← hdiv, ← hrest]
      rfl

/-- A digit and a carry of the loop are small, so that `<< 8` and `| 0` do not wrap. -/
theorem carryThrough_lt {digits : List ℕ} (hdigits : ∀ d ∈ digits, d < 58) {carry : ℕ}
    (hcarry : carry < 256) :
    (∀ d ∈ (carryThrough digits carry).1, d < 58) ∧ (carryThrough digits carry).2 < 256 := by
  induction digits generalizing carry with
  | nil => exact ⟨(fun _ hd => nomatch hd), hcarry⟩
  | cons digit digits ih =>
    have hdigit := hdigits digit List.mem_cons_self
    obtain ⟨hrest, hlast⟩ := ih (fun d hd => hdigits d (List.mem_cons_of_mem digit hd))
      (show (carry + digit * 2 ^ 8) / 58 < 256 by omega)
    refine ⟨fun d hd => ?_, hlast⟩
    rcases List.mem_cons.mp hd with rfl | hd
    · exact Nat.mod_lt _ (by decide)
    · exact hrest d hd

theorem foldl_addByte (bytes : Bytes) (v : ℕ) :
    bytes.foldl (fun digits b => addByte digits b.toNat) (Nat.digits 58 v) =
      Nat.digits 58 (bytes.foldl (fun value b => value * 256 + b.toNat) v) := by
  induction bytes generalizing v with
  | nil => rfl
  | cons b bytes ih => rw [List.foldl_cons, addByte_digits, ih, List.foldl_cons]

/-- The first byte that is not zero replaces the digit the array begins with. -/
theorem addByte_zero {b : ℕ} (hb : 0 < b) : addByte [0] b = Nat.digits 58 b := by
  rw [Nat.digits_def' (by decide) hb, ← pushCarry_eq]
  rfl

/-! ## Leading zeros -/

theorem takeWhile_replicate_append {α : Type} [BEq α] [LawfulBEq α] {a : α} (k : ℕ) {rest : List α}
    (hrest : rest.head? ≠ some a) :
    (List.replicate k a ++ rest).takeWhile (· == a) = List.replicate k a := by
  have hstop : rest.takeWhile (· == a) = [] := by
    cases rest with
    | nil => rfl
    | cons b rest =>
      have hne : ¬(b == a) = true := fun h => hrest (by rw [List.head?_cons, eq_of_beq h])
      exact List.takeWhile_cons_of_neg (p := (· == a)) hne
  rw [List.takeWhile_append_of_pos, hstop, List.append_nil]
  intro b hb
  rw [List.eq_of_mem_replicate hb]
  exact beq_self_eq_true a

/-- A byte string is its leading zeros and the rest. -/
theorem exists_zeros (bytes : Bytes) : ∃ (zeros : ℕ) (rest : Bytes),
    rest.head? ≠ some 0 ∧ bytes = List.replicate zeros 0 ++ rest := by
  induction bytes with
  | nil => exact ⟨0, [], (fun h => nomatch h), rfl⟩
  | cons b bytes ih =>
    by_cases hb : b = 0
    · obtain ⟨zeros, rest, hrest, rfl⟩ := ih
      exact ⟨zeros + 1, rest, hrest, by rw [hb]; rfl⟩
    · exact ⟨0, b :: bytes, fun h => hb (Option.some.inj h), rfl⟩

theorem bigEndian_replicate (zeros : ℕ) (bytes : Bytes) :
    bigEndian (List.replicate zeros 0 ++ bytes) = bigEndian bytes := by
  induction zeros with
  | zero => rfl
  | succ zeros ih => exact ih

theorem exists_ne_zero_iff {zeros : ℕ} {rest : Bytes} (hrest : rest.head? ≠ some 0) :
    (∃ b ∈ List.replicate zeros 0 ++ rest, b ≠ 0) ↔ rest ≠ [] := by
  constructor
  · rintro ⟨b, hb, hne⟩ rfl
    rw [List.append_nil] at hb
    exact hne (List.eq_of_mem_replicate hb)
  · intro hne
    obtain ⟨b, rest', rfl⟩ := List.exists_cons_of_ne_nil hne
    exact ⟨b, List.mem_append_right _ List.mem_cons_self, fun h => hrest (by rw [h]; rfl)⟩

/-! ## The two encodings -/

theorem standardBase58_append (zeros : ℕ) {rest : Bytes} (hrest : rest.head? ≠ some 0) :
    standardBase58 (List.replicate zeros 0 ++ rest) = List.replicate zeros 49 ++
      (Nat.digits 58 (bigEndian rest)).reverse.flatMap (charAt BASE58_ALPHABET) := by
  rw [standardBase58, takeWhile_replicate_append zeros hrest, List.length_replicate,
    bigEndian_replicate]

theorem encodeBase58_append (zeros : ℕ) {rest : Bytes} (hrest : rest.head? ≠ some 0) :
    encodeBase58 (List.replicate zeros 0 ++ rest) = List.replicate zeros 49 ++
      (if rest = [] then [0] else Nat.digits 58 (bigEndian rest)).reverse.flatMap
        (charAt BASE58_ALPHABET) := by
  have hdigits : rest.foldl (fun digits b => addByte digits b.toNat) [0] =
      if rest = [] then [0] else Nat.digits 58 (bigEndian rest) := by
    cases rest with
    | nil => rfl
    | cons b rest =>
      have hb : 0 < b.toNat := by
        rw [Nat.pos_iff_ne_zero]
        intro h
        have hzero : b = 0 := UInt8.toNat_inj.mp h
        exact hrest (by rw [hzero]; rfl)
      rw [if_neg (List.cons_ne_nil b rest), List.foldl_cons, addByte_zero hb, foldl_addByte,
        bigEndian, List.foldl_cons, Nat.zero_mul, Nat.zero_add]
  rw [encodeBase58, takeWhile_replicate_append zeros hrest, List.length_replicate,
    List.drop_left' List.length_replicate, hdigits]

/-- **The encoder against the standard**: without a byte other than zero, there is one
`1` more. -/
theorem encodeBase58_eq (bytes : Bytes) :
    encodeBase58 bytes =
      if ∃ b ∈ bytes, b ≠ 0 then standardBase58 bytes else standardBase58 bytes ++ js "1" := by
  obtain ⟨zeros, rest, hrest, rfl⟩ := exists_zeros bytes
  rw [encodeBase58_append zeros hrest, standardBase58_append zeros hrest]
  simp only [exists_ne_zero_iff hrest]
  by_cases hempty : rest = []
  · rw [if_pos hempty, if_neg (not_not.mpr hempty), hempty, List.append_assoc]
    rfl
  · rw [if_neg hempty, if_pos hempty]

/-! ## Decoding -/

theorem idxOf_charAt {d : ℕ} (hd : d < 58) :
    ∃ c, charAt BASE58_ALPHABET d = [c] ∧ BASE58_ALPHABET.idxOf c = d ∧ (c = 49 → d = 0) := by
  have hall : ∀ i : Fin 58, ∃ c, charAt BASE58_ALPHABET i = [c] ∧
      BASE58_ALPHABET.idxOf c = i ∧ (c = 49 → i.1 = 0) := by
    intro i
    have hlt : i.1 < BASE58_ALPHABET.length := i.2
    refine ⟨BASE58_ALPHABET[i.1], ?_, ?_, ?_⟩
    · rw [charAt, List.getElem?_eq_getElem hlt]
    · revert i
      decide
    · revert i
      decide
  exact hall ⟨d, hd⟩

theorem foldl_idxOf {digits : List ℕ} (hdigits : ∀ d ∈ digits, d < 58) :
    (digits.reverse.flatMap (charAt BASE58_ALPHABET)).foldl
      (fun value c => value * 58 + BASE58_ALPHABET.idxOf c) 0 = Nat.ofDigits 58 digits := by
  induction digits with
  | nil => rfl
  | cons d digits ih =>
    obtain ⟨c, hchar, hidx, -⟩ := idxOf_charAt (hdigits d List.mem_cons_self)
    rw [List.reverse_cons, List.flatMap_append, List.foldl_append,
      ih fun d' hd' => hdigits d' (List.mem_cons_of_mem d hd'), List.flatMap_singleton, hchar,
      List.foldl_cons, List.foldl_nil, hidx, Nat.ofDigits_cons]
    ring

theorem head?_digits_ne (n : ℕ) :
    ((Nat.digits 58 n).reverse.flatMap (charAt BASE58_ALPHABET)).head? ≠ some 49 := by
  rcases Nat.eq_zero_or_pos n with rfl | hn
  · exact fun h => nomatch h
  · have hne : Nat.digits 58 n ≠ [] := Nat.digits_ne_nil_iff_ne_zero.mpr hn.ne'
    have hlast := Nat.getLast_digit_ne_zero 58 hn.ne'
    have hlt := Nat.digits_lt_base (b := 58) (by decide) (List.getLast_mem hne)
    obtain ⟨c, hchar, -, hone⟩ := idxOf_charAt hlt
    have hsplit : (Nat.digits 58 n).reverse =
        (Nat.digits 58 n).getLast hne :: (Nat.digits 58 n).dropLast.reverse := by
      conv_lhs => rw [← List.dropLast_append_getLast hne]
      rw [List.reverse_append, List.reverse_singleton, List.singleton_append]
    rw [hsplit, List.flatMap_cons, hchar]
    intro h
    exact hlast (hone (Option.some.inj h))

theorem bigEndian_eq_ofDigits (bytes : Bytes) :
    bigEndian bytes = Nat.ofDigits 256 (bytes.reverse.map UInt8.toNat) := by
  induction bytes using List.reverseRecOn with
  | nil => rfl
  | append_singleton bytes b ih =>
    rw [bigEndian, List.foldl_append, ← bigEndian, List.foldl_cons, List.foldl_nil, ih,
      List.reverse_append, List.reverse_singleton, List.singleton_append, List.map_cons,
      Nat.ofDigits_cons]
    ring

/-- A byte string without a leading zero is read back from its number. -/
theorem bytes_of_bigEndian {bytes : Bytes} (hbytes : bytes.head? ≠ some 0) :
    (Nat.digits 256 (bigEndian bytes)).reverse.map UInt8.ofNat = bytes := by
  have hlt : ∀ d ∈ bytes.reverse.map UInt8.toNat, d < 256 := by
    intro d hd
    obtain ⟨b, -, rfl⟩ := List.mem_map.mp hd
    exact b.toNat_lt
  have hlast : ∀ h : bytes.reverse.map UInt8.toNat ≠ [],
      (bytes.reverse.map UInt8.toNat).getLast h ≠ 0 := by
    intro h hzero
    cases bytes with
    | nil => exact h rfl
    | cons b bytes =>
      simp only [List.reverse_cons, List.map_append, List.map_cons, List.map_nil,
        List.getLast_append_singleton] at hzero
      have hb : b = 0 := UInt8.toNat_inj.mp hzero
      exact hbytes (by rw [hb]; rfl)
  have hid : UInt8.ofNat ∘ UInt8.toNat = id := funext fun b => UInt8.ofNat_toNat
  rw [bigEndian_eq_ofDigits, Nat.digits_ofDigits 256 (by decide) _ hlt hlast, ← List.map_reverse,
    List.map_map, hid, List.map_id, List.reverse_reverse]

theorem decode_standardBase58 (bytes : Bytes) : decodeBase58 (standardBase58 bytes) = bytes := by
  obtain ⟨zeros, rest, hrest, rfl⟩ := exists_zeros bytes
  rw [standardBase58_append zeros hrest, decodeBase58,
    takeWhile_replicate_append zeros (head?_digits_ne _), List.length_replicate,
    List.drop_left' List.length_replicate,
    foldl_idxOf fun d hd => Nat.digits_lt_base (by decide) hd, Nat.ofDigits_digits,
    bytes_of_bigEndian hrest]

/-- **Base58**: the encoder writes the standard encoding, and the standard decoder
reads the bytes back, exactly where some byte is not zero. -/
theorem encodeBase58_standard_iff (bytes : Bytes) :
    (encodeBase58 bytes = standardBase58 bytes ∧ decodeBase58 (encodeBase58 bytes) = bytes) ↔
      ∃ b ∈ bytes, b ≠ 0 := by
  rw [encodeBase58_eq]
  split
  next h => exact ⟨fun _ => h, fun _ => ⟨rfl, decode_standardBase58 bytes⟩⟩
  next h =>
    refine ⟨fun hboth => ?_, fun hne => absurd hne h⟩
    exact absurd (List.append_right_eq_self.mp hboth.1) (by decide)

/-- One zero byte: `11`, which reads back as two. -/
theorem encodeBase58_zero :
    ¬(encodeBase58 [0] = standardBase58 [0] ∧ decodeBase58 (encodeBase58 [0]) = [0]) := by
  have hencode : encodeBase58 [0] = js "11" := by decide
  have hstandard : standardBase58 [0] = js "1" := by decide
  rw [hencode, hstandard]
  exact fun h => absurd h.1 (by decide)

end BioFire.AddressDerivation
