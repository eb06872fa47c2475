import BioFire.InputSanitization
import BioFire.ModularArithmetic
import BioFire.TextEncoding
import Mathlib.Data.Nat.Digits.Lemmas

/-!
# Bigints and text

The text of a bigint, and the conversion of numbers and strings to bigints (`BigInt(x)`).

* `bigintString_injective`: the text determines the bigint;
* `bigintOfString_toString16`: what `toString(16)` prints reads back;
* `bigintOfString_bytesToHex`: so do the digits of a hash;
* `padStart64_eq_bytesToHex`: 64 digits are those of 32 bytes.
-/

namespace BioFire

theorem js_append (s t : String) : js (s ++ t) = js s ++ js t := by
  rw [js, js, js, String.toList_append, List.flatMap_append]

theorem bigintString_negSucc (n : ℕ) : bigintString (Int.negSucc n) = js "-" ++ decimal (n + 1) := by
  rw [decimal, ← js_append]
  rfl

theorem bigintString_injective : Function.Injective bigintString := by
  have hdecimal : ∀ {m n : ℕ}, decimal m = decimal n → m = n := by
    intro m n h
    rw [← digitsValue_decimal m, h, digitsValue_decimal]
  have hsign : ∀ m n : ℕ, decimal m ≠ js "-" ++ decimal n := by
    intro m n h
    have hdigit := isDigit_of_mem_decimal (n := m) (d := 45) (by rw [h]; exact List.mem_cons_self)
    cases hdigit
  intro m n h
  cases m with
  | ofNat m =>
    cases n with
    | ofNat n => rw [hdecimal h]
    | negSucc n =>
      rw [bigintString_negSucc] at h
      exact absurd h (hsign m _)
  | negSucc m =>
    rw [bigintString_negSucc] at h
    cases n with
    | ofNat n => exact absurd h.symm (hsign n _)
    | negSucc n =>
      rw [bigintString_negSucc] at h
      rw [Nat.succ.inj (hdecimal (List.append_cancel_left h))]

theorem bigintString_ascii (n : ℤ) : ∀ c ∈ bigintString n, c < 128 := by
  cases n with
  | ofNat n => exact fun c hc => isDigit_ascii (isDigit_of_mem_decimal hc)
  | negSucc n =>
    intro c hc
    rw [bigintString_negSucc] at hc
    rcases List.mem_cons.mp hc with rfl | hc
    · decide
    · exact isDigit_ascii (isDigit_of_mem_decimal hc)

theorem not_mem_bigintString {c : UInt16} (hdigit : isDigit c = false) (hminus : c ≠ 45) (n : ℤ) :
    c ∉ bigintString n := by
  intro hmem
  cases n with
  | ofNat n =>
    rw [isDigit_of_mem_decimal (n := n) hmem] at hdigit
    cases hdigit
  | negSucc n =>
    rw [bigintString_negSucc] at hmem
    rcases List.mem_cons.mp hmem with rfl | hmem
    · exact hminus rfl
    · rw [isDigit_of_mem_decimal hmem] at hdigit
      cases hdigit

/-- `BigInt(x)` of a number. -/
def bigintOfNumber : JSNumber → Except JSError ℤ
  | .finite x =>
    if x.den = 1 then .ok x.num
    else .error ⟨.RangeError, js "The number cannot be converted to a BigInt"⟩
  | _ => .error ⟨.RangeError, js "The number cannot be converted to a BigInt"⟩

/-- The digits of a number in front of which `value` was read. -/
def readDigitsFrom (radix : ℕ) : ℕ → JSString → Option ℕ
  | value, [] => some value
  | value, c :: rest =>
    match hexDigitValue c with
    | some d => if d < radix then readDigitsFrom radix (value * radix + d) rest else none
    | none => none

/-- One digit or more. -/
def readDigits (radix : ℕ) (digits : JSString) : Option ℕ :=
  if digits = [] then none else readDigitsFrom radix 0 digits

/-- A trimmed string: no text is zero, only decimal digits take a sign. -/
def readBigint : JSString → Option ℤ
  | [] => some 0
  | 43 :: digits => (readDigits 10 digits).map Int.ofNat
  | 45 :: digits => (readDigits 10 digits).map fun n => -Int.ofNat n
  | 48 :: c :: digits =>
    if c = 120 ∨ c = 88 then (readDigits 16 digits).map Int.ofNat
    else if c = 111 ∨ c = 79 then (readDigits 8 digits).map Int.ofNat
    else if c = 98 ∨ c = 66 then (readDigits 2 digits).map Int.ofNat
    else (readDigits 10 (48 :: c :: digits)).map Int.ofNat
  | digits => (readDigits 10 digits).map Int.ofNat

/-- `BigInt(s)` of a string. -/
def bigintOfString (s : JSString) : Except JSError ℤ :=
  match readBigint (trim s) with
  | some n => .ok n
  | none => .error ⟨.SyntaxError, js "Cannot convert " ++ s ++ js " to a BigInt"⟩

example : bigintOfString (js " 0x1f ") = .ok 31 := by decide
example : bigintOfString (js "-017") = .ok (-17) := by decide
example : (bigintOfString (js "0x-1f")).toOption = none := by decide

/-! ## Hexadecimal digits -/

theorem readDigitsFrom_map {ds : List ℕ} (h : ∀ d ∈ ds, d < 16) (value : ℕ) :
    readDigitsFrom 16 value (ds.map hexDigit) =
      some (ds.foldl (fun value d => value * 16 + d) value) := by
  induction ds generalizing value with
  | nil => rfl
  | cons d ds ih =>
    have hd : d < 16 := h d List.mem_cons_self
    simp only [List.map_cons, readDigitsFrom, hexDigitValue_hexDigit hd, if_pos hd,
      List.foldl_cons]
    exact ih (fun d' hd' => h d' (List.mem_cons_of_mem d hd')) _

theorem isWhitespace_hexDigit {d : ℕ} (h : d < 16) : isWhitespace (hexDigit d) = false := by
  have hall : ∀ i : Fin 16, isWhitespace (hexDigit i) = false := by decide
  exact hall ⟨d, h⟩

theorem isWhitespace_hexMark : ∀ c ∈ js "0x", isWhitespace c = false := by
  have hall : (js "0x").all (fun c => isWhitespace c = false) = true := by decide
  intro c hc
  exact of_decide_eq_true (List.all_eq_true.mp hall c hc)

theorem trim_eq_self {s : JSString} (h : ∀ c ∈ s, isWhitespace c = false) : trim s = s := by
  have hdrop : s.dropWhile isWhitespace = s := by
    cases s with
    | nil => rfl
    | cons c s => simp [h c List.mem_cons_self]
  rw [trim, hdrop, List.rdropWhile_eq_self_iff]
  intro hne
  simp [h _ (List.getLast_mem hne)]

theorem bigintOfString_hex {ds : List ℕ} (h : ∀ d ∈ ds, d < 16) (hne : ds ≠ []) :
    bigintOfString (js "0x" ++ ds.map hexDigit) =
      .ok (ds.foldl (fun value d => value * 16 + d) 0 : ℕ) := by
  have htrim : trim (js "0x" ++ ds.map hexDigit) = js "0x" ++ ds.map hexDigit := by
    apply trim_eq_self
    intro c hc
    rcases List.mem_append.mp hc with hc | hc
    · exact isWhitespace_hexMark c hc
    · obtain ⟨d, hd, rfl⟩ := List.mem_map.mp hc
      exact isWhitespace_hexDigit (h d hd)
  have hread : readBigint (js "0x" ++ ds.map hexDigit) =
      (readDigits 16 (ds.map hexDigit)).map Int.ofNat := rfl
  rw [bigintOfString, htrim, hread, readDigits, if_neg (by simpa using hne), readDigitsFrom_map h]
  rfl

theorem exists_digits_toString16 {n : ℤ} (h : 0 ≤ n) : ∃ ds : List ℕ,
    toString16 n = ds.map hexDigit ∧ (∀ d ∈ ds, d < 16) ∧ ds ≠ [] ∧
      (ds.foldl (fun value d => value * 16 + d) 0 : ℕ) = n := by
  obtain ⟨k, rfl⟩ := Int.eq_ofNat_of_zero_le h
  rcases Nat.eq_zero_or_pos k with rfl | hk
  · exact ⟨[0], rfl, by simp, by simp, rfl⟩
  refine ⟨(Nat.digits 16 k).reverse, ?_, ?_, ?_, ?_⟩
  · have hpos : ¬ ((k : ℤ) = 0) := by omega
    have hneg : ¬ ((k : ℤ) < 0) := by omega
    rw [toString16, if_neg hpos, if_neg hneg, List.map_reverse]
    rfl
  · intro d hd
    exact Nat.digits_lt_base (by decide) (List.mem_reverse.mp hd)
  · simpa using Nat.digits_ne_nil_iff_ne_zero.mpr hk.ne'
  · congr 1
    conv_rhs => rw [← Nat.ofDigits_digits 16 k, Nat.ofDigits_eq_foldr]
    rw [List.foldl_reverse]
    congr 1
    funext d value
    simp only [Nat.cast_id]
    omega

/-- **Printing and reading** a bigint that is not negative. -/
theorem bigintOfString_toString16 {n : ℤ} (h : 0 ≤ n) :
    bigintOfString (js "0x" ++ toString16 n) = .ok n := by
  obtain ⟨ds, hdigits, hsmall, hne, hvalue⟩ := exists_digits_toString16 h
  rw [hdigits, bigintOfString_hex hsmall hne, hvalue]

/-- `s.padStart(targetLength, '0')`. -/
def padStart (s : JSString) (targetLength : ℕ) : JSString :=
  List.replicate (targetLength - s.length) 48 ++ s

theorem length_padStart (s : JSString) (targetLength : ℕ) :
    (padStart s targetLength).length = max targetLength s.length := by
  rw [padStart, List.length_append, List.length_replicate]
  omega

theorem exists_digits_padStart {n : ℤ} (h : 0 ≤ n) (targetLength : ℕ) : ∃ ds : List ℕ,
    padStart (toString16 n) targetLength = ds.map hexDigit ∧ (∀ d ∈ ds, d < 16) ∧ ds ≠ [] ∧
      (ds.foldl (fun value d => value * 16 + d) 0 : ℕ) = n := by
  obtain ⟨ds, hdigits, hsmall, hne, hvalue⟩ := exists_digits_toString16 h
  have hzeros : ∀ k : ℕ, (List.replicate k 0).foldl (fun value d => value * 16 + d) 0 = 0 := by
    intro k
    induction k with
    | zero => rfl
    | succ k ih => exact ih
  refine ⟨List.replicate (targetLength - (toString16 n).length) 0 ++ ds, ?_, ?_, by simp [hne], ?_⟩
  · rw [padStart, List.map_append, List.map_replicate, ← hdigits]
    rfl
  · intro d hd
    rcases List.mem_append.mp hd with hzero | hd
    · rw [List.eq_of_mem_replicate hzero]
      decide
    · exact hsmall d hd
  · rw [List.foldl_append, hzeros, hvalue]

theorem exists_digits_padStart64 {n : ℤ} (h : 0 ≤ n) : ∃ ds : List ℕ,
    padStart64 (toString16 n) = ds.map hexDigit ∧ (∀ d ∈ ds, d < 16) ∧ ds ≠ [] ∧
      (ds.foldl (fun value d => value * 16 + d) 0 : ℕ) = n := exists_digits_padStart h 64

theorem bigintOfString_padStart64 {n : ℤ} (h : 0 ≤ n) :
    bigintOfString (js "0x" ++ padStart64 (toString16 n)) = .ok n := by
  obtain ⟨ds, hdigits, hsmall, hne, hvalue⟩ := exists_digits_padStart64 h
  rw [hdigits, bigintOfString_hex hsmall hne, hvalue]

theorem length_toString16_le_iff {n : ℤ} (h : 0 ≤ n) {k : ℕ} (hk : 0 < k) :
    (toString16 n).length ≤ k ↔ n < 16 ^ k := by
  obtain ⟨m, rfl⟩ := Int.eq_ofNat_of_zero_le h
  rcases Nat.eq_zero_or_pos m with rfl | hm
  · refine iff_of_true hk ?_
    rw [Nat.cast_zero]
    positivity
  · have hdigits : (toString16 m).length = (Nat.digits 16 m).length := by
      rw [toString16, if_neg (by omega), if_neg (by omega), List.length_reverse, List.length_map,
        Int.natAbs_natCast]
    rw [hdigits, Nat.digits_length_le_iff (by decide)]
    exact_mod_cast Iff.rfl

theorem length_padStart64 {n : ℤ} (h : 0 ≤ n) (hn : n < 16 ^ 64) :
    (padStart64 (toString16 n)).length = 64 :=
  (length_padStart (toString16 n) 64).trans
    (max_eq_left ((length_toString16_le_iff h (by decide)).mpr hn))

theorem exists_bytesToHex_eq {ds : List ℕ} (h : ∀ d ∈ ds, d < 16) {n : ℕ}
    (hlength : ds.length = 2 * n) : ∃ bs : Bytes, bs.length = n ∧ bytesToHex bs = ds.map hexDigit := by
  induction n generalizing ds with
  | zero =>
    obtain rfl := List.length_eq_zero_iff.mp hlength
    exact ⟨[], rfl, rfl⟩
  | succ n ih =>
    match ds, hlength with
    | high :: low :: ds, hlength =>
      simp only [List.forall_mem_cons] at h
      obtain ⟨hhigh, hlow, hrest⟩ := h
      obtain ⟨bs, hbs, hhex⟩ := ih hrest (by simp only [List.length_cons] at hlength; omega)
      refine ⟨UInt8.ofNat (high * 16 + low) :: bs, by simp [hbs], ?_⟩
      have hbyte : (UInt8.ofNat (high * 16 + low)).toNat = high * 16 + low := by
        rw [UInt8.toNat_ofNat']
        omega
      rw [bytesToHex, List.flatMap_cons, ← bytesToHex, hhex, hbyte,
        show (high * 16 + low) / 16 = high by omega, show (high * 16 + low) % 16 = low by omega]
      rfl

/-- A negative bigint prints its sign behind the prefix, where none is read. -/
theorem bigintOfString_toString16_neg {n k : ℤ} (h : n < 0) :
    bigintOfString (js "0x" ++ toString16 n) ≠ .ok k := by
  have hdigits : toString16 n = js "-" ++ ((Nat.digits 16 n.natAbs).map hexDigit).reverse := by
    rw [toString16, if_neg h.ne, if_pos h]
  have htrim : trim (js "0x" ++ toString16 n) = js "0x" ++ toString16 n := by
    apply trim_eq_self
    intro c hc
    rw [hdigits, List.mem_append, List.mem_append, List.mem_reverse] at hc
    rcases hc with hc | hc | hc
    · exact isWhitespace_hexMark c hc
    · obtain rfl := List.mem_singleton.mp hc
      rfl
    · obtain ⟨d, hd, rfl⟩ := List.mem_map.mp hc
      exact isWhitespace_hexDigit (Nat.digits_lt_base (by decide) hd)
  have hread : readBigint (js "0x" ++ toString16 n) = none := by
    rw [hdigits]
    rfl
  rw [bigintOfString, htrim, hread]
  rintro ⟨⟩

theorem bigintOfString_bytesToHex {bs : Bytes} (h : bs ≠ []) :
    bigintOfString (js "0x" ++ bytesToHex bs) = .ok (bytesToBigInt bs) := by
  have hdigits : bytesToHex bs =
      (bs.flatMap fun b => [b.toNat / 16, b.toNat % 16]).map hexDigit := by
    rw [bytesToHex, List.map_flatMap]
    rfl
  have hsmall : ∀ d ∈ bs.flatMap fun b => [b.toNat / 16, b.toNat % 16], d < 16 := by
    intro d hd
    obtain ⟨b, -, hb⟩ := List.mem_flatMap.mp hd
    have hlt := b.toNat_lt
    simp only [List.mem_cons, List.not_mem_nil, or_false] at hb
    omega
  have hvalue : ∀ (l : Bytes) (value : ℕ),
      (((l.flatMap fun b => [b.toNat / 16, b.toNat % 16]).foldl (fun value d => value * 16 + d)
        value : ℕ) : ℤ) = l.foldl (fun (value : ℤ) b => value * 256 + b.toNat) value := by
    intro l
    induction l with
    | nil => simp
    | cons b l ih =>
      intro value
      have hbyte : (value * 16 + b.toNat / 16) * 16 + b.toNat % 16 = value * 256 + b.toNat := by
        omega
      simp only [List.flatMap_cons, List.foldl_append, List.foldl_cons, List.foldl_nil, ih, hbyte]
      push_cast
      rfl
  have hne : bs.flatMap (fun b => [b.toNat / 16, b.toNat % 16]) ≠ [] := by
    cases bs with
    | nil => exact absurd rfl h
    | cons b bs => exact List.cons_ne_nil _ _
  rw [hdigits, bigintOfString_hex hsmall hne, hvalue]
  rfl

theorem bytesToBigInt_of_digits {bs : Bytes} {ds : List ℕ} (h : ∀ d ∈ ds, d < 16)
    (hhex : bytesToHex bs = ds.map hexDigit) :
    bytesToBigInt bs = (ds.foldl (fun value d => value * 16 + d) 0 : ℕ) := by
  rcases eq_or_ne bs [] with rfl | hbs
  · obtain rfl : ds = [] := List.map_eq_nil_iff.mp hhex.symm
    rfl
  · have hds : ds ≠ [] := by
      rintro rfl
      have hlength := length_bytesToHex bs
      rw [hhex] at hlength
      exact hbs (List.length_eq_zero_iff.mp (by simpa using hlength))
    have hread := bigintOfString_bytesToHex hbs
    rw [hhex, bigintOfString_hex h hds] at hread
    exact (Except.ok.inj hread).symm

/-- The padded digits of a bigint of 32 bytes are those of its bytes. -/
theorem padStart64_eq_bytesToHex {n : ℤ} (h : 0 ≤ n) (hn : n < 16 ^ 64) :
    ∃ bs : Bytes, padStart64 (toString16 n) = bytesToHex bs ∧ bytesToBigInt bs = n := by
  obtain ⟨ds, hdigits, hsmall, -, hvalue⟩ := exists_digits_padStart64 h
  have hlength := length_padStart64 h hn
  rw [hdigits, List.length_map] at hlength
  obtain ⟨bs, -, hhex⟩ := exists_bytesToHex_eq (n := 32) hsmall hlength
  exact ⟨bs, hdigits.trans hhex.symm, (bytesToBigInt_of_digits hsmall hhex).trans hvalue⟩

end BioFire
