import BioFire.JSValue
import Mathlib.Data.List.TakeWhile
import Mathlib.Data.List.Induction

/-!
# Numbers as text

`numberString` is the text of a number in a template string: the shortest decimal
that rounds to the number, the closest one of that length, with a point or an
exponent where it is long.

* `readDecimal_toText`: the text of a decimal has the value of the decimal;
* `numberString_injective`: different numbers have different texts.
-/

namespace BioFire

/-- The decimal `digits * 10 ^ exponent`. -/
structure Decimal where
  digits : ℕ
  exponent : ℤ
  deriving DecidableEq

namespace Decimal

def value (d : Decimal) : ℚ := d.digits * 10 ^ d.exponent

/-- The decimal of `k` significant digits at `x` or next below. -/
def below (x : ℚ) (k : ℕ) : Decimal :=
  let exponent := Int.log 10 x + 1 - k
  ⟨⌊x / 10 ^ exponent⌋.toNat, exponent⟩

/-- The decimal of `k` significant digits next above `x`. -/
def above (x : ℚ) (k : ℕ) : Decimal :=
  let low := below x k
  if low.digits + 1 = 10 ^ k then ⟨10 ^ (k - 1), low.exponent + 1⟩
  else ⟨low.digits + 1, low.exponent⟩

/-- The decimal stands for the number `x`. -/
def RoundsTo (d : Decimal) (x : ℚ) : Prop := JSNumber.ofRat d.value = .finite x

instance (d : Decimal) (x : ℚ) : Decidable (RoundsTo d x) :=
  inferInstanceAs (Decidable (_ = _))

/-- The closest decimal of `k` digits that stands for `x`, ties to the even one. -/
def ofLength (x : ℚ) (k : ℕ) : Option Decimal :=
  let low := below x k
  let high := above x k
  if RoundsTo low x then
    if RoundsTo high x ∧ (high.value - x < x - low.value ∨
        high.value - x = x - low.value ∧ low.digits % 2 = 1) then some high
    else some low
  else if RoundsTo high x then some high
  else none

/-- The shortest decimal that stands for `x`. Seventeen digits are enough for
every double. -/
def shortest (x : ℚ) : Option Decimal := (List.range 17).findSome? fun k => ofLength x (k + 1)

/-- The text of a decimal: `n` is the place of the point in its digits. -/
def toText (d : Decimal) : JSString :=
  let s := decimal d.digits
  let n : ℤ := s.length + d.exponent
  if s.length ≤ n ∧ n ≤ 21 then s ++ List.replicate d.exponent.toNat 48
  else if 0 < n ∧ n ≤ 21 then s.take n.toNat ++ js "." ++ s.drop n.toNat
  else if -6 < n ∧ n ≤ 0 then js "0" ++ js "." ++ (List.replicate (-n).toNat 48 ++ s)
  else
    s.take 1 ++ (if s.length = 1 then [] else js "." ++ s.drop 1) ++ js "e" ++
      (if n - 1 < 0 then js "-" else js "+") ++ decimal (n - 1).natAbs

end Decimal

/-- The text of `x`, from its shortest decimal. Every double has one. -/
def textOf (x : ℚ) : Option Decimal → JSString
  | some d => d.toText
  | none => js "/" ++ decimal x.num.toNat ++ js "/" ++ decimal x.den

/-- The text of a positive number. -/
def positiveString (x : ℚ) : JSString := textOf x (Decimal.shortest x)

/-- The number `x` in a template string, `${x}`. -/
def numberString : JSNumber → JSString
  | .nan => js "NaN"
  | .negInfinity => js "-Infinity"
  | .infinity => js "Infinity"
  | .finite x =>
    if x = 0 then js "0" else if x < 0 then js "-" ++ positiveString (-x) else positiveString x

/-! ## Reading back -/

/-- The text in front of the first `c`, and behind it. -/
def cut (c : UInt16) (text : JSString) : JSString × JSString :=
  (text.takeWhile (· != c), (text.dropWhile (· != c)).drop 1)

/-- The exponent after the `e`, zero when there is none. -/
def readExponent : JSString → ℤ
  | [] => 0
  | sign :: digits => if sign = 45 then -digitsValue digits else digitsValue digits

/-- The value of a decimal text. -/
def readDecimal (text : JSString) : ℚ :=
  let (mantissa, exponent) := cut 101 text
  let (whole, fraction) := cut 46 mantissa
  digitsValue (whole ++ fraction) * 10 ^ (readExponent exponent - fraction.length)

/-- The number with a given text. -/
def readPositive (text : JSString) : JSNumber :=
  if text.head? = some 47 then
    let (num, den) := cut 47 (text.drop 1)
    .finite (digitsValue num / digitsValue den)
  else .ofRat (readDecimal text)

def readNumber (text : JSString) : JSNumber :=
  if text = js "NaN" then .nan
  else if text = js "-Infinity" then .negInfinity
  else if text = js "Infinity" then .infinity
  else if text.head? = some 45 then
    match readPositive (text.drop 1) with
    | .finite x => .finite (-x)
    | x => x
  else readPositive text

theorem cut_of_not_mem {c : UInt16} {a : JSString} (h : c ∉ a) : cut c a = (a, []) := by
  have hne : ∀ u ∈ a, (u != c) = true := by
    intro u hu
    rw [bne_iff_ne]
    rintro rfl
    exact h hu
  rw [cut, List.takeWhile_eq_self_iff.mpr hne, List.dropWhile_eq_nil_iff.mpr hne, List.drop_nil]

theorem cut_append {c : UInt16} {a : JSString} (h : c ∉ a) (b : JSString) :
    cut c (a ++ c :: b) = (a, b) := by
  have hne : ∀ u ∈ a, (u != c) = true := by
    intro u hu
    rw [bne_iff_ne]
    rintro rfl
    exact h hu
  rw [cut, List.takeWhile_append_of_pos hne, List.dropWhile_append_of_pos hne]
  simp

theorem digitsValue_append (a b : JSString) :
    digitsValue (a ++ b) = digitsValue a * 10 ^ b.length + digitsValue b := by
  induction b using List.reverseRecOn with
  | nil => simp [digitsValue]
  | append_singleton b d ih =>
    have hlast : ∀ t : JSString, digitsValue (t ++ [d]) = digitsValue t * 10 + (d.toNat - 48) :=
      fun t => List.foldl_concat _ 0 d t
    rw [← List.append_assoc, hlast, hlast, ih, List.length_append, List.length_singleton, pow_succ]
    ring

theorem digitsValue_zeros (n : ℕ) : digitsValue (List.replicate n 48) = 0 := by
  induction n with
  | zero => rfl
  | succ n ih =>
    rw [List.replicate_succ', digitsValue_append, ih]
    rfl

/-! ## The text of a decimal -/

/-- Only digits. -/
def AllDigits (s : JSString) : Prop := ∀ d ∈ s, isDigit d

theorem allDigits_decimal (n : ℕ) : AllDigits (decimal n) := fun _ => isDigit_of_mem_decimal

theorem AllDigits.append {a b : JSString} (ha : AllDigits a) (hb : AllDigits b) :
    AllDigits (a ++ b) := by
  intro d hd
  rcases List.mem_append.mp hd with h | h
  · exact ha d h
  · exact hb d h

theorem allDigits_zeros (n : ℕ) : AllDigits (List.replicate n 48) := by
  intro d hd
  rw [List.eq_of_mem_replicate hd]
  decide

theorem AllDigits.not_mem {a : JSString} (ha : AllDigits a) {c : UInt16} (hc : isDigit c = false) :
    c ∉ a := by
  intro h
  rw [ha c h] at hc
  cases hc

theorem readDecimal_digits {a : JSString} (ha : AllDigits a) : readDecimal a = digitsValue a := by
  rw [readDecimal, cut_of_not_mem (ha.not_mem rfl)]
  simp [cut_of_not_mem (ha.not_mem (c := 46) rfl), readExponent]

theorem readDecimal_point {a b : JSString} (ha : AllDigits a) (hb : AllDigits b) :
    readDecimal (a ++ js "." ++ b) = digitsValue (a ++ b) * 10 ^ (-(b.length : ℤ)) := by
  have he : (101 : UInt16) ∉ a ++ 46 :: b := by
    rw [List.mem_append, List.mem_cons, not_or, not_or]
    exact ⟨ha.not_mem rfl, by decide, hb.not_mem rfl⟩
  rw [show a ++ js "." ++ b = a ++ 46 :: b by simp [show js "." = [46] from rfl], readDecimal,
    cut_of_not_mem he]
  simp [cut_append (ha.not_mem (c := 46) rfl), readExponent]

theorem readDecimal_exponent {m : JSString} (hm : (101 : UInt16) ∉ m) (n : ℤ) :
    readDecimal (m ++ js "e" ++ (if n < 0 then js "-" else js "+") ++ decimal n.natAbs) =
      readDecimal m * 10 ^ n := by
  have hexponent : readExponent ((if n < 0 then js "-" else js "+") ++ decimal n.natAbs) = n := by
    split
    · rw [show js "-" = [45] from rfl, List.singleton_append, readExponent, if_pos rfl,
        digitsValue_decimal]
      omega
    · rw [show js "+" = [43] from rfl, List.singleton_append, readExponent, if_neg (by decide),
        digitsValue_decimal]
      omega
  rw [show ∀ r, m ++ js "e" ++ (if n < 0 then js "-" else js "+") ++ r =
    m ++ 101 :: ((if n < 0 then js "-" else js "+") ++ r) by
      intro r; simp [show js "e" = [101] from rfl]]
  rw [readDecimal, readDecimal, cut_append hm, cut_of_not_mem hm]
  dsimp only
  rw [hexponent, readExponent, zero_sub, sub_eq_add_neg, zpow_add₀ (by norm_num)]
  ring

namespace Decimal

/-- **The text of a decimal has its value.** -/
theorem readDecimal_toText (d : Decimal) : readDecimal d.toText = d.value := by
  have hs := allDigits_decimal d.digits
  have hne := List.length_pos_iff.mpr (decimal_ne_nil d.digits)
  have hvalue := digitsValue_decimal d.digits
  rw [toText, value]
  generalize decimal d.digits = s at *
  split
  next h =>
    rw [readDecimal_digits (hs.append (allDigits_zeros _)), digitsValue_append, digitsValue_zeros,
      hvalue, List.length_replicate]
    push_cast
    rw [add_zero, ← zpow_natCast, Int.toNat_of_nonneg (by omega)]
  next h =>
    split
    next h' =>
      rw [readDecimal_point (fun c hc => hs c (List.mem_of_mem_take hc))
        (fun c hc => hs c (List.mem_of_mem_drop hc)), List.take_append_drop, hvalue,
        List.length_drop]
      congr 2
      omega
    next h' =>
      split
      next h'' =>
        rw [show js "0" = List.replicate 1 48 from rfl,
          readDecimal_point (allDigits_zeros 1) ((allDigits_zeros _).append hs), digitsValue_append,
          digitsValue_append, digitsValue_zeros, hvalue, List.length_append, List.length_replicate]
        rw [digitsValue_zeros, zero_mul, zero_mul, zero_add, zero_add]
        congr 2
        omega
      next h'' =>
        have htake : AllDigits (s.take 1) := fun c hc => hs c (List.mem_of_mem_take hc)
        have hdrop : AllDigits (s.drop 1) := fun c hc => hs c (List.mem_of_mem_drop hc)
        have hm : (101 : UInt16) ∉ s.take 1 ++ if s.length = 1 then [] else js "." ++ s.drop 1 := by
          rw [List.mem_append, not_or]
          refine ⟨htake.not_mem rfl, ?_⟩
          split
          · exact List.not_mem_nil
          · rw [List.mem_append, not_or]
            exact ⟨by decide, hdrop.not_mem rfl⟩
        rw [readDecimal_exponent hm]
        have hmantissa : readDecimal (s.take 1 ++ if s.length = 1 then [] else js "." ++ s.drop 1) =
            d.digits * 10 ^ (1 - (s.length : ℤ)) := by
          split
          next hone =>
            rw [List.append_nil, List.take_of_length_le hone.le, readDecimal_digits hs, hvalue, hone]
            simp
          next hone =>
            rw [← List.append_assoc, readDecimal_point htake hdrop, List.take_append_drop, hvalue,
              List.length_drop]
            congr 2
            omega
        rw [hmantissa, mul_assoc, ← zpow_add₀ (by norm_num)]
        congr 2
        omega

theorem head?_toText (d : Decimal) : ∃ c, d.toText.head? = some c ∧ isDigit c := by
  have hs := allDigits_decimal d.digits
  obtain ⟨c, rest, hcons⟩ := List.exists_cons_of_ne_nil (decimal_ne_nil d.digits)
  have hc : isDigit c := hs c (by rw [hcons]; exact List.mem_cons_self)
  rw [toText, hcons]
  split
  · exact ⟨c, rfl, hc⟩
  · split
    next h =>
      obtain ⟨n, hn⟩ : ∃ n, ((c :: rest).length + d.exponent).toNat = n + 1 :=
        ⟨((c :: rest).length + d.exponent).toNat - 1, by omega⟩
      rw [hn]
      exact ⟨c, rfl, hc⟩
    · split
      · exact ⟨48, rfl, rfl⟩
      · exact ⟨c, rfl, hc⟩

theorem roundsTo_of_ofLength {x : ℚ} {k : ℕ} {d : Decimal} (h : ofLength x k = some d) :
    RoundsTo d x := by
  rw [ofLength] at h
  split at h
  next hlow =>
    split at h
    next hhigh =>
      rw [← Option.some.inj h]
      exact hhigh.1
    · rwa [← Option.some.inj h]
  next =>
    split at h
    next hhigh => rwa [← Option.some.inj h]
    · cases h

theorem roundsTo_of_shortest {x : ℚ} {d : Decimal} (h : shortest x = some d) : RoundsTo d x := by
  obtain ⟨k, -, hk⟩ := List.exists_of_findSome?_eq_some h
  exact roundsTo_of_ofLength hk

end Decimal

/-! ## The text of a number -/

theorem head?_textOf (x : ℚ) (found : Option Decimal) :
    ∃ c, (textOf x found).head? = some c ∧ (isDigit c ∨ c = 47) := by
  cases found with
  | none =>
    rw [textOf, show js "/" = [47] from rfl]
    exact ⟨47, rfl, Or.inr rfl⟩
  | some d =>
    obtain ⟨c, hhead, hc⟩ := d.head?_toText
    exact ⟨c, hhead, Or.inl hc⟩

theorem readPositive_textOf {x : ℚ} (hx : 0 < x) {found : Option Decimal}
    (h : ∀ d, found = some d → d.RoundsTo x) : readPositive (textOf x found) = .finite x := by
  cases found with
  | none =>
    have hnum : ((x.num.toNat : ℕ) : ℚ) = x.num := by
      exact_mod_cast Int.toNat_of_nonneg (Rat.num_nonneg.mpr hx.le)
    rw [textOf, show js "/" = [47] from rfl, List.append_assoc, List.append_assoc,
      List.singleton_append, readPositive, if_pos List.head?_cons, List.drop_one, List.tail_cons,
      List.singleton_append, cut_append ((allDigits_decimal _).not_mem rfl)]
    dsimp only
    rw [digitsValue_decimal, digitsValue_decimal, hnum, Rat.num_div_den]
  | some d =>
    obtain ⟨c, hhead, hc⟩ := d.head?_toText
    have hslash : some c ≠ some 47 := by
      intro h
      rw [Option.some.inj h] at hc
      exact absurd hc (by decide)
    rw [textOf, readPositive, hhead, if_neg hslash, d.readDecimal_toText]
    exact h d rfl

theorem head?_positiveString (x : ℚ) :
    ∃ c, (positiveString x).head? = some c ∧ (isDigit c ∨ c = 47) := head?_textOf x _

theorem readPositive_positiveString {x : ℚ} (hx : 0 < x) :
    readPositive (positiveString x) = .finite x :=
  readPositive_textOf hx fun _ => Decimal.roundsTo_of_shortest

theorem readNumber_numberString (x : JSNumber) : readNumber (numberString x) = x := by
  have hletters : ∀ {text : JSString} {c : UInt16}, text.head? = some c →
      isDigit c ∨ c = 47 ∨ c = 45 ∧ (text.drop 1).head? ≠ some 73 →
      text ≠ js "NaN" ∧ text ≠ js "-Infinity" ∧ text ≠ js "Infinity" := by
    intro text c hhead hc
    refine ⟨?_, ?_, ?_⟩
    all_goals
      rintro rfl
      obtain rfl := Option.some.inj hhead
      revert hc
      decide
  cases x with
  | nan => rfl
  | negInfinity => rfl
  | infinity => rfl
  | finite x =>
    rw [numberString]
    rcases lt_trichotomy x 0 with hneg | rfl | hpos
    · rw [if_neg hneg.ne, if_pos hneg, show js "-" = [45] from rfl, List.singleton_append]
      obtain ⟨c, hhead, hc⟩ := head?_positiveString (-x)
      have hsecond : (positiveString (-x)).head? ≠ some 73 := by
        rw [hhead]
        intro h
        rw [Option.some.inj h] at hc
        exact absurd hc (by decide)
      have hsign : (45 :: positiveString (-x)).head? = some 45 := rfl
      obtain ⟨hnan, hminus, hplus⟩ := hletters hsign (Or.inr (Or.inr ⟨rfl, hsecond⟩))
      rw [readNumber, if_neg hnan, if_neg hminus, if_neg hplus, if_pos List.head?_cons,
        List.drop_one, List.tail_cons, readPositive_positiveString (neg_pos.mpr hneg)]
      dsimp only
      rw [neg_neg]
    · rw [if_pos rfl]
      with_unfolding_all decide
    · obtain ⟨c, hhead, hc⟩ := head?_positiveString x
      obtain ⟨hnan, hminus, hplus⟩ := hletters hhead (hc.imp_right Or.inl)
      have hsign : some c ≠ some 45 := by
        intro h
        rw [Option.some.inj h] at hc
        exact absurd hc (by decide)
      rw [if_neg hpos.ne', if_neg hpos.not_gt, readNumber, if_neg hnan, if_neg hminus,
        if_neg hplus, hhead, if_neg hsign, readPositive_positiveString hpos]

/-- **Different numbers have different texts.** -/
theorem numberString_injective : Function.Injective numberString :=
  Function.LeftInverse.injective readNumber_numberString

/-! ## Leading zeros -/

theorem cut_zeros {c : UInt16} (hc : c ≠ 48) (k : ℕ) (text : JSString) :
    cut c (List.replicate k 48 ++ text) =
      (List.replicate k 48 ++ (cut c text).1, (cut c text).2) := by
  have hzero : ∀ u ∈ List.replicate k (48 : UInt16), (u != c) = true := by
    intro u hu
    rw [List.eq_of_mem_replicate hu, bne_iff_ne]
    exact hc.symm
  rw [cut, List.takeWhile_append_of_pos hzero, List.dropWhile_append_of_pos hzero, cut]

theorem readDecimal_zeros (k : ℕ) (text : JSString) :
    readDecimal (List.replicate k 48 ++ text) = readDecimal text := by
  rw [readDecimal, cut_zeros (by decide), readDecimal]
  dsimp only
  rw [cut_zeros (by decide)]
  dsimp only
  rw [List.append_assoc, digitsValue_append, digitsValue_zeros, zero_mul, zero_add]

theorem Decimal.slash_not_mem_toText (d : Decimal) : 47 ∉ d.toText := by
  have hdigits : ∀ n, (47 : UInt16) ∉ decimal n := fun n => (allDigits_decimal n).not_mem rfl
  have hs := hdigits d.digits
  rw [toText]
  generalize decimal d.digits = s at *
  have htake : ∀ n, (47 : UInt16) ∉ s.take n := fun n h => hs (List.mem_of_mem_take h)
  have hdrop : ∀ n, (47 : UInt16) ∉ s.drop n := fun n h => hs (List.mem_of_mem_drop h)
  have hzeros : ∀ n, (47 : UInt16) ∉ List.replicate n 48 := fun n => (allDigits_zeros n).not_mem rfl
  have hmarks : (47 : UInt16) ∉ js "." ∧ (47 : UInt16) ∉ js "0" ∧ (47 : UInt16) ∉ js "e" ∧
      (47 : UInt16) ∉ js "-" ∧ (47 : UInt16) ∉ js "+" := by decide
  obtain ⟨hpoint, hzero, hexponent, hminus, hplus⟩ := hmarks
  split
  · exact List.not_mem_append hs (hzeros _)
  · split
    · exact List.not_mem_append (List.not_mem_append (htake _) hpoint) (hdrop _)
    · split
      · exact List.not_mem_append (List.not_mem_append hzero hpoint)
          (List.not_mem_append (hzeros _) hs)
      · refine List.not_mem_append (List.not_mem_append (List.not_mem_append
          (List.not_mem_append (htake _) ?_) hexponent) ?_) (hdigits _)
        · split
          · exact List.not_mem_nil
          · exact List.not_mem_append hpoint (hdrop _)
        · split
          · exact hminus
          · exact hplus

/-- The number with a given text behind some zeros. -/
def readPadded (text : JSString) : JSNumber :=
  let digits := text.dropWhile (· == 48)
  if digits.head? = some 47 then readPositive digits else .ofRat (readDecimal digits)

theorem readPadded_zeros (k : ℕ) (text : JSString) :
    readPadded (List.replicate k 48 ++ text) = readPadded text := by
  rw [readPadded, List.dropWhile_append_of_pos, readPadded]
  intro u hu
  rw [List.eq_of_mem_replicate hu]
  rfl

theorem readPadded_numberString {x : ℚ} (hx : 0 ≤ x) :
    readPadded (numberString (.finite x)) = .finite x := by
  rcases hx.eq_or_lt with rfl | hpos
  · with_unfolding_all decide
  · rw [numberString, if_neg hpos.ne', if_neg hpos.not_gt]
    cases hshortest : Decimal.shortest x with
    | none =>
      have hread := readPositive_positiveString hpos
      rw [positiveString, hshortest, textOf, show js "/" = [47] from rfl, List.append_assoc,
        List.append_assoc, List.singleton_append] at hread ⊢
      rw [readPadded, List.dropWhile_cons_of_neg (by decide), if_pos List.head?_cons, hread]
    | some d =>
      have hround := Decimal.roundsTo_of_shortest hshortest
      have hslash := d.slash_not_mem_toText
      have hzeros : d.toText = List.replicate (d.toText.takeWhile (· == 48)).length 48 ++
          d.toText.dropWhile (· == 48) := by
        have hrep : d.toText.takeWhile (· == 48) =
            List.replicate (d.toText.takeWhile (· == 48)).length 48 :=
          List.eq_replicate_of_mem fun u hu =>
            eq_of_beq (List.all_eq_true.mp List.all_takeWhile u hu)
        rw [← hrep, List.takeWhile_append_dropWhile]
      have hhead : (d.toText.dropWhile (· == 48)).head? ≠ some 47 := by
        intro h
        exact hslash (List.dropWhile_suffix _ |>.subset (List.mem_of_mem_head? h))
      have hvalue := d.readDecimal_toText
      rw [hzeros, readDecimal_zeros] at hvalue
      rw [positiveString, hshortest, textOf, readPadded, if_neg hhead, hvalue]
      exact hround

theorem padded_numberString_inj {x y : ℚ} (hx : 0 ≤ x) (hy : 0 ≤ y) {k l : ℕ}
    (h : List.replicate k 48 ++ numberString (.finite x) =
      List.replicate l 48 ++ numberString (.finite y)) : x = y := by
  have hread := congrArg readPadded h
  rw [readPadded_zeros, readPadded_zeros, readPadded_numberString hx, readPadded_numberString hy]
    at hread
  exact JSNumber.finite.inj hread

example : numberString (JSNumber.ofRat (2 ^ 60)) = js "1152921504606847000" := by
  with_unfolding_all decide
example : numberString (JSNumber.ofRat (-15 / 10 ^ 8)) = js "-1.5e-7" := by
  with_unfolding_all decide

end BioFire
