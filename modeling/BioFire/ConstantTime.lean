import BioFire.EvmAddress
import Mathlib.Data.Int.Bitwise

/-!
# Comparison in constant time (`src/lib/security/constant_time.ts`)

The loops visit every byte and collect the differences; the selection masks both values.

* `constantTimeEqual_iff`: the comparison decides equality;
* `constantTimeSelect_eq`: the masks select one value;
* `compareHex_iff`: two spellings compare as equal when they are spellings of the same bytes.
-/

namespace BioFire

open AddressDerivation

/-! ## The code -/

/-- `result |= a[i] ^ b[i]` over all positions. -/
def differences (a b : Bytes) : UInt8 :=
  (a.zip b).foldl (fun result (x, y) => result ||| (x ^^^ y)) 0

def constantTimeEqual (a b : Bytes) : Bool :=
  if a.length ≠ b.length then false else differences a b = 0

/-- `text.startsWith('0x') ? text.slice(2) : text` -/
def cleanDigits (text : JSString) : JSString :=
  if (js "0x").isPrefixOf text then text.drop 2 else text

def constantTimeCompareHex (platform : Platform) (a b : JSString) : Bool :=
  let cleanA := cleanDigits a
  let cleanB := cleanDigits b
  if cleanA.length ≠ cleanB.length then false
  else
    let bufA := textEncode (platform.toLowerCase cleanA)
    let bufB := textEncode (platform.toLowerCase cleanB)
    constantTimeEqual bufA bufB

/-- The mask has all bits of a value, or none of them. -/
def constantTimeSelect (condition : Bool) (a b : ℤ) : ℤ :=
  let mask : ℤ := if condition then -1 else 0
  Int.lor (Int.land a mask) (Int.land b (Int.lnot mask))

/-! ## Comparison -/

theorem foldl_differences_eq_zero (l : List (UInt8 × UInt8)) (result : UInt8) :
    l.foldl (fun result (x, y) => result ||| (x ^^^ y)) result = 0 ↔
      result = 0 ∧ ∀ e ∈ l, e.1 = e.2 := by
  induction l generalizing result with
  | nil => simp
  | cons e l ih =>
    obtain ⟨x, y⟩ := e
    rw [List.foldl_cons, ih, UInt8.or_eq_zero_iff, UInt8.xor_eq_zero_iff, and_assoc,
      List.forall_mem_cons]

theorem forall_mem_zip_eq {a b : Bytes} (hlength : a.length = b.length) :
    (∀ e ∈ a.zip b, e.1 = e.2) ↔ a = b := by
  induction a generalizing b with
  | nil =>
    obtain rfl := List.length_eq_zero_iff.mp hlength.symm
    simp
  | cons x a ih =>
    cases b with
    | nil => simp at hlength
    | cons y b =>
        rw [List.zip_cons_cons, List.forall_mem_cons, ih (Nat.succ.inj hlength), List.cons.injEq]

/-- **The comparison** decides equality. -/
@[simp] theorem constantTimeEqual_iff {a b : Bytes} : constantTimeEqual a b = true ↔ a = b := by
  rw [constantTimeEqual]
  split
  next hlength =>
    refine iff_of_false (by simp) ?_
    rintro rfl
    exact hlength rfl
  next hlength =>
    rw [decide_eq_true_iff, differences, foldl_differences_eq_zero,
      forall_mem_zip_eq (not_not.mp hlength)]
    simp

/-! ## Selection -/

theorem land_allOnes (a : ℤ) : Int.land a (-1) = a := by
  change Int.land a (Int.negSucc 0) = a
  cases a with
  | ofNat n => simp [Int.land, Nat.ldiff]
  | negSucc n => simp [Int.land]

theorem land_zero (a : ℤ) : Int.land a 0 = 0 := by
  cases a with
  | ofNat n => simp [Int.land]
  | negSucc n => simp [Int.land, Nat.ldiff]

theorem lor_zero (a : ℤ) : Int.lor a 0 = a := by
  cases a with
  | ofNat n => simp [Int.lor]
  | negSucc n => simp [Int.lor, Nat.ldiff]

theorem zero_lor (a : ℤ) : Int.lor 0 a = a := by
  cases a with
  | ofNat n => simp [Int.lor]
  | negSucc n => simp [Int.lor, Nat.ldiff]

/-- **The selection** is a case distinction. -/
theorem constantTimeSelect_eq (condition : Bool) (a b : ℤ) :
    constantTimeSelect condition a b = if condition then a else b := by
  cases condition with
  | false =>
    change Int.lor (Int.land a 0) (Int.land b (-1)) = b
    rw [land_zero, zero_lor, land_allOnes]
  | true =>
    change Int.lor (Int.land a (-1)) (Int.land b 0) = a
    rw [land_zero, lor_zero, land_allOnes]

/-! ## Hexadecimal text -/

/-- A text of the digits of these bytes, in any case, with or without a mark in front. -/
def Spells (text : JSString) (bytes : Bytes) : Prop :=
  ∃ digits : JSString, digits.map asciiLower = bytesToHex bytes ∧
    (text = digits ∨ text = js "0x" ++ digits)

theorem Spells.digits {digits : JSString} {bytes : Bytes}
    (h : digits.map asciiLower = bytesToHex bytes) :
    (∀ c ∈ digits, c < 128 ∧ isHexDigit c = true) ∧ cleanDigits digits = digits := by
  have hhex : ∀ c ∈ digits, isHexDigit c = true := by
    intro c hc
    have hlower : asciiLower c ∈ bytesToHex bytes := h ▸ List.mem_map_of_mem hc
    exact isHexDigit_of_lower (isHexDigit_of_mem_bytesToHex hlower)
  refine ⟨fun c hc => ⟨(hexDigit_facts (hhex c hc)).2.1, hhex c hc⟩, ?_⟩
  rw [cleanDigits, if_neg]
  intro hmark
  obtain ⟨rest, rfl⟩ := List.isPrefixOf_iff_prefix.mp hmark
  exact (hexDigit_facts (hhex 120 (by simp [show js "0x" = [48, 120] from rfl]))).2.2.2.1 rfl

theorem cleanDigits_mark (digits : JSString) : cleanDigits (js "0x" ++ digits) = digits := by
  rw [cleanDigits, if_pos (List.isPrefixOf_iff_prefix.mpr (List.prefix_append _ _))]
  rfl

theorem Spells.cleaned {text : JSString} {bytes : Bytes} (h : Spells text bytes)
    (platform : Platform) :
    (cleanDigits text).length = 2 * bytes.length ∧
      platform.toLowerCase (cleanDigits text) = bytesToHex bytes := by
  obtain ⟨digits, hdigits, htext⟩ := h
  obtain ⟨hfacts, hclean⟩ := Spells.digits hdigits
  have hcleaned : cleanDigits text = digits := by
    rcases htext with rfl | rfl
    · exact hclean
    · exact cleanDigits_mark digits
  rw [hcleaned]
  constructor
  · rw [← length_bytesToHex, ← hdigits, List.length_map]
  · rw [platform.toLowerCase_ascii digits fun c hc => (hfacts c hc).1, hdigits]

/-- **Two spellings** compare as equal when they are spellings of the same bytes. -/
theorem compareHex_iff (platform : Platform) {a b : JSString} {bytes bytes' : Bytes}
    (ha : Spells a bytes) (hb : Spells b bytes') :
    constantTimeCompareHex platform a b = true ↔ bytes = bytes' := by
  obtain ⟨hlength, hlower⟩ := ha.cleaned platform
  obtain ⟨hlength', hlower'⟩ := hb.cleaned platform
  rw [constantTimeCompareHex, hlength, hlength', hlower, hlower']
  dsimp only
  split
  next hne =>
    refine iff_of_false (by simp) ?_
    rintro rfl
    exact hne rfl
  next =>
    have hascii : ∀ (bs : Bytes), ∀ c ∈ bytesToHex bs, c < 128 := fun bs c hc =>
      (hexDigit_facts (isHexDigit_of_mem_bytesToHex hc)).2.1
    rw [constantTimeEqual_iff]
    constructor
    · intro h
      exact bytesToHex_injective (textEncode_ascii_inj (hascii bytes) (hascii bytes') h)
    · rintro rfl
      rfl

/-- The text `0xAB12` against `ab12`. -/
theorem compareHex_iff_mark :
    constantTimeCompareHex asciiPlatform (js "0xAB12") (js "ab12") = true ↔
      ([0xAB, 0x12] : Bytes) = [0xAB, 0x12] := by
  have hmark : Spells (js "0xAB12") [0xAB, 0x12] := ⟨js "AB12", by decide, Or.inr rfl⟩
  have hplain : Spells (js "ab12") [0xAB, 0x12] := ⟨js "ab12", by decide, Or.inl rfl⟩
  exact compareHex_iff asciiPlatform hmark hplain

end BioFire
