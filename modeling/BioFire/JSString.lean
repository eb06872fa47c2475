import Mathlib.Data.List.Basic
import Mathlib.Data.Nat.Digits.Defs

/-!
# Strings and byte strings of the source

A string is the list of its UTF-16 code units, so that lone surrogates, which
`TextEncoder` replaces, are values of the model. `textEncode` and `textDecode`
are the two UTF-8 codecs: the encoder replaces lone surrogates by U+FFFD; the
decoder replaces malformed input the same way and drops one leading byte order
mark. A printed number reads back (`digitsValue_decimal`).
-/

namespace BioFire

/-- A string: its UTF-16 code units. -/
abbrev JSString := List UInt16

/-- The contents of a `Uint8Array`. -/
abbrev Bytes := List UInt8

/-- A hash value: 32 bytes. -/
abbrev Digest := { bs : Bytes // bs.length = 32 }

def zeroDigest : Digest := ⟨List.replicate 32 0, List.length_replicate⟩

/-- The digest that is the number 1. -/
def oneDigest : Digest := ⟨List.replicate 31 0 ++ [1], rfl⟩

/-- The code units of one scalar value. -/
def utf16Units (c : Nat) : JSString :=
  if c < 0x10000 then [UInt16.ofNat c]
  else [UInt16.ofNat (0xD800 + (c - 0x10000) / 0x400),
    UInt16.ofNat (0xDC00 + (c - 0x10000) % 0x400)]

/-- A string literal of the source. -/
def js (s : String) : JSString := s.toList.flatMap fun c => utf16Units c.toNat

/-- A number printed in a template string. -/
def decimal (n : Nat) : JSString := js (toString n)

def isHighSurrogate (u : UInt16) : Bool := 0xD800 ≤ u && u < 0xDC00
def isLowSurrogate (u : UInt16) : Bool := 0xDC00 ≤ u && u < 0xE000

/-- The scalar value of a unit that is not half of a pair. -/
def loneScalar (u : UInt16) : Nat :=
  if isHighSurrogate u || isLowSurrogate u then 0xFFFD else u.toNat

/-- The scalar values of a string; a lone surrogate reads as U+FFFD. -/
def scalars : JSString → List Nat
  | [] => []
  | [u] => [loneScalar u]
  | u :: v :: rest =>
    if isHighSurrogate u && isLowSurrogate v then
      (0x10000 + (u.toNat - 0xD800) * 0x400 + (v.toNat - 0xDC00)) :: scalars rest
    else loneScalar u :: scalars (v :: rest)

/-! ## `TextEncoder` -/

/-- The UTF-8 bytes of one scalar value. -/
def utf8Bytes (c : Nat) : Bytes :=
  if c < 0x80 then [UInt8.ofNat c]
  else if c < 0x800 then [UInt8.ofNat (0xC0 + c / 0x40), UInt8.ofNat (0x80 + c % 0x40)]
  else if c < 0x10000 then
    [UInt8.ofNat (0xE0 + c / 0x1000), UInt8.ofNat (0x80 + c / 0x40 % 0x40),
      UInt8.ofNat (0x80 + c % 0x40)]
  else
    [UInt8.ofNat (0xF0 + c / 0x40000), UInt8.ofNat (0x80 + c / 0x1000 % 0x40),
      UInt8.ofNat (0x80 + c / 0x40 % 0x40), UInt8.ofNat (0x80 + c % 0x40)]

/-- `new TextEncoder().encode(s)`. -/
def textEncode (s : JSString) : Bytes := (scalars s).flatMap utf8Bytes

/-! ## `TextDecoder` -/

/-- State of the UTF-8 decoder: the bits collected so far, the bytes still
missing (zero between characters), and the range the next byte must be in. -/
structure Utf8State where
  codePoint : Nat
  needed : Nat
  lower : Nat
  upper : Nat
  deriving DecidableEq, Repr

def Utf8State.start : Utf8State := ⟨0, 0, 0x80, 0xBF⟩

/-- A byte read between characters. -/
def utf8Start (b : Nat) : Utf8State × List Nat :=
  if b < 0x80 then (.start, [b])
  else if 0xC2 ≤ b ∧ b ≤ 0xDF then (⟨b % 0x20, 1, 0x80, 0xBF⟩, [])
  else if 0xE0 ≤ b ∧ b ≤ 0xEF then
    (⟨b % 0x10, 2, if b = 0xE0 then 0xA0 else 0x80, if b = 0xED then 0x9F else 0xBF⟩, [])
  else if 0xF0 ≤ b ∧ b ≤ 0xF4 then
    (⟨b % 0x08, 3, if b = 0xF0 then 0x90 else 0x80, if b = 0xF4 then 0x8F else 0xBF⟩, [])
  else (.start, [0xFFFD])

/-- One byte. A byte out of range ends the character with U+FFFD and is then
read again as a first byte. -/
def utf8Feed (s : Utf8State) (b : Nat) : Utf8State × List Nat :=
  if s.needed = 0 then utf8Start b
  else if b < s.lower ∨ s.upper < b then ((utf8Start b).1, 0xFFFD :: (utf8Start b).2)
  else if s.needed = 1 then (.start, [s.codePoint * 0x40 + b % 0x40])
  else (⟨s.codePoint * 0x40 + b % 0x40, s.needed - 1, 0x80, 0xBF⟩, [])

def utf8Run (s : Utf8State) : Bytes → List Nat
  | [] => if s.needed = 0 then [] else [0xFFFD]
  | b :: bs => (utf8Feed s b.toNat).2 ++ utf8Run (utf8Feed s b.toNat).1 bs

/-- `new TextDecoder().decode(bs)`. -/
def textDecode (bs : Bytes) : JSString :=
  match utf8Run .start bs with
  | 0xFEFF :: cs => cs.flatMap utf16Units
  | cs => cs.flatMap utf16Units

example : textDecode (textEncode (js "é€𝄞")) = js "é€𝄞" := by decide
example : textDecode [0x61, 0xE2, 0x82, 0x62, 0xFF] = [0x61, 0xFFFD, 0x62, 0xFFFD] := by decide

/-- `text[p]` in a concatenation; past the end there is `undefined`. -/
def charAt (text : JSString) (p : ℕ) : JSString :=
  match text[p]? with
  | some c => [c]
  | none => js "undefined"

/-! ## Decimal digits -/

/-- The class `\d` of a regular expression. -/
def isDigit (c : UInt16) : Bool := 48 ≤ c && c ≤ 57

/-- The value of a string of decimal digits. -/
def digitsValue (digits : JSString) : ℕ := digits.foldl (fun v d => v * 10 + (d.toNat - 48)) 0

theorem decimal_eq (n : ℕ) :
    decimal n = (Nat.toDigits 10 n).map fun c => UInt16.ofNat c.toNat := by
  have hunits : ∀ l : List Char, (∀ c ∈ l, c.isDigit) →
      l.flatMap (fun c => utf16Units c.toNat) = l.map fun c => UInt16.ofNat c.toNat := by
    intro l hl
    induction l with
    | nil => rfl
    | cons c l ih =>
      have hc := Char.isDigit_iff_toNat.mp (hl c List.mem_cons_self)
      have hsmall : c.toNat < 0x10000 := hc.2.trans_lt (by decide)
      rw [List.flatMap_cons, List.map_cons, ih fun c' hc' => hl c' (List.mem_cons_of_mem c hc'),
        utf16Units, if_pos hsmall]
      rfl
  rw [decimal, js, show (toString n).toList = Nat.toDigits 10 n from Nat.toList_repr]
  exact hunits _ fun c hc => Nat.isDigit_of_mem_toDigits (by decide) (by decide) hc

theorem isDigit_of_mem_decimal {n : ℕ} {d : UInt16} (h : d ∈ decimal n) : isDigit d := by
  rw [decimal_eq] at h
  obtain ⟨c, hc, rfl⟩ := List.mem_map.mp h
  obtain ⟨hlo, hhi⟩ := Char.isDigit_iff_toNat.mp
    (Nat.isDigit_of_mem_toDigits (by decide) (by decide) hc)
  change 48 ≤ c.toNat at hlo
  change c.toNat ≤ 57 at hhi
  have hmod : c.toNat % 2 ^ 16 = c.toNat := Nat.mod_eq_of_lt (by omega)
  simp only [isDigit, Bool.and_eq_true, decide_eq_true_eq, UInt16.le_iff_toNat_le,
    UInt16.toNat_ofNat', hmod]
  exact ⟨hlo, hhi⟩

theorem digitsValue_decimal (n : ℕ) : digitsValue (decimal n) = n := by
  have hfold : ∀ (l : List Char) (v : ℕ), (∀ c ∈ l, c.isDigit) →
      (l.map fun c => UInt16.ofNat c.toNat).foldl (fun v d => v * 10 + (d.toNat - 48)) v =
        Nat.ofDigitChars 10 l v := by
    intro l
    induction l with
    | nil => intro v _; simp
    | cons c l ih =>
      intro v hl
      have hc := Char.isDigit_iff_toNat.mp (hl c List.mem_cons_self)
      have hsmall : c.toNat < 2 ^ 16 := hc.2.trans_lt (by decide)
      rw [List.map_cons, List.foldl_cons, ih _ fun c' hc' => hl c' (List.mem_cons_of_mem c hc'),
        Nat.ofDigitChars_cons, UInt16.toNat_ofNat', Nat.mod_eq_of_lt hsmall, mul_comm v]
      rfl
  rw [digitsValue, decimal_eq, hfold _ _ fun c hc =>
    Nat.isDigit_of_mem_toDigits (by decide) (by decide) hc, Nat.ofDigitChars_ten_toDigits]

theorem decimal_ne_nil (n : ℕ) : decimal n ≠ [] := by
  rw [decimal_eq, Ne, List.map_eq_nil_iff]
  exact Nat.toDigits_ne_nil

/-! ## Hexadecimal -/

def hexDigit (d : Nat) : UInt16 := if d < 10 then UInt16.ofNat (48 + d) else UInt16.ofNat (87 + d)

/-- `bytesToHex`: two lower-case digits for each byte. -/
def bytesToHex (bs : Bytes) : JSString :=
  bs.flatMap fun b => [hexDigit (b.toNat / 16), hexDigit (b.toNat % 16)]

/-- `n.toString(16)` of a bigint. -/
def toString16 (n : ℤ) : JSString :=
  let digits := ((Nat.digits 16 n.natAbs).map hexDigit).reverse
  if n = 0 then js "0" else if n < 0 then js "-" ++ digits else digits

/-- `s.padStart(64, '0')`. -/
def padStart64 (s : JSString) : JSString := List.replicate (64 - s.length) 48 ++ s

/-- The number with these bytes, the most significant first. -/
def bytesToBigInt (bytes : Bytes) : ℤ := bytes.foldl (fun value b => value * 256 + b.toNat) 0

example : toString16 (-3054) = js "-bee" := by decide

theorem ascii_of_all {text : JSString} (h : text.all (fun c => decide (c < 128)) = true) :
    ∀ c ∈ text, c < 128 :=
  fun c hc => of_decide_eq_true (List.all_eq_true.mp h c hc)

theorem hexDigit_ascii {n : ℕ} (hn : n < 16) : hexDigit n < 128 := by
  have hall : ∀ i : Fin 16, hexDigit i < 128 := by decide
  exact hall ⟨n, hn⟩

theorem hexDigit_inj {m n : ℕ} (hm : m < 16) (hn : n < 16) (h : hexDigit m = hexDigit n) :
    m = n := by
  have hall : ∀ i j : Fin 16, hexDigit i = hexDigit j → i = j := by decide
  exact congrArg Fin.val (hall ⟨m, hm⟩ ⟨n, hn⟩ h)

theorem length_bytesToHex (bs : Bytes) : (bytesToHex bs).length = 2 * bs.length := by
  induction bs with
  | nil => rfl
  | cons b bs ih =>
    rw [bytesToHex, List.flatMap_cons, List.length_append, ← bytesToHex, ih]
    simp only [List.length_cons, List.length_nil]
    omega

theorem bytesToHex_take (bs : Bytes) (n : ℕ) :
    (bytesToHex bs).take (2 * n) = bytesToHex (bs.take n) := by
  induction bs generalizing n with
  | nil => simp [bytesToHex]
  | cons b bs ih =>
    cases n with
    | zero => rfl
    | succ n =>
      rw [List.take_succ_cons, bytesToHex, bytesToHex, List.flatMap_cons, List.flatMap_cons,
        ← bytesToHex, ← bytesToHex, ← ih, show 2 * (n + 1) = 2 * n + 1 + 1 by omega]
      rfl

theorem exists_hexDigit_of_mem {bs : Bytes} {c : UInt16} (hc : c ∈ bytesToHex bs) :
    ∃ i : Fin 16, c = hexDigit i := by
  obtain ⟨b, -, hmem⟩ := List.mem_flatMap.mp hc
  have hb := b.toNat_lt
  simp only [List.mem_cons, List.not_mem_nil, or_false] at hmem
  rcases hmem with hhigh | hlow
  · exact ⟨⟨b.toNat / 16, by omega⟩, hhigh⟩
  · exact ⟨⟨b.toNat % 16, by omega⟩, hlow⟩

theorem bytesToHex_injective : Function.Injective bytesToHex := by
  intro bs
  induction bs with
  | nil =>
    intro bs' h
    cases bs' with
    | nil => rfl
    | cons b' bs' => cases h
  | cons b bs ih =>
    intro bs' h
    cases bs' with
    | nil => cases h
    | cons b' bs' =>
      obtain ⟨hhigh, hrest⟩ := List.cons.inj h
      obtain ⟨hlow, htail⟩ := List.cons.inj hrest
      have hb := b.toNat_lt
      have hb' := b'.toNat_lt
      have hdiv := hexDigit_inj (by omega) (by omega) hhigh
      have hmod := hexDigit_inj (by omega) (by omega) hlow
      have heq : b = b' := UInt8.toNat_inj.mp (by omega)
      rw [heq, ih htail]

/-! ## Fields between separators -/

theorem append_colon (a b : JSString) : a ++ js ":" ++ b = a ++ 58 :: b := by
  rw [List.append_assoc]
  rfl

end BioFire
