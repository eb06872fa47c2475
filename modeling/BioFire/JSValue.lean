import BioFire.JSString
import BioFire.Rounding
import Mathlib.Data.Rat.Defs
import Mathlib.Algebra.Order.Ring.Rat

/-!
# Values and errors

What the modelled functions read and return: thrown errors, JavaScript values
as far as the wire format knows them, and the elements and bits of a
`Uint8Array`.
-/

namespace BioFire

/-! ## Errors -/

/-- The class of a thrown error. `external` is an error raised by a package
outside the repository, whose text is not modelled. -/
inductive ErrorName where
  | Error | TypeError | RangeError | SyntaxError | SerializationError | CSPRNGError | external
  deriving DecidableEq, Repr

structure JSError where
  name : ErrorName
  message : JSString
  deriving DecidableEq, Repr

/-- An error of a package outside the repository. -/
def externalError : JSError := ⟨.external, []⟩

/-- A sequence fails when its second part fails on every result of the first. -/
theorem exists_error_bind {ε α β : Type} {x : Except ε α} {f : α → Except ε β}
    (h : ∀ a, x = .ok a → ∃ e, f a = .error e) : ∃ e, (x >>= f) = .error e := by
  cases x with
  | error e => exact ⟨e, rfl⟩
  | ok a => exact h a rfl

theorem bind_eq_ok {ε α β : Type} {x : Except ε α} {f : α → Except ε β} {b : β}
    (h : (x >>= f) = .ok b) : ∃ a, x = .ok a ∧ f a = .ok b := by
  cases x with
  | error e => cases h
  | ok a => exact ⟨a, rfl, h⟩

theorem exists_error_iff {ε α : Type} {x : Except ε α} :
    (∃ e, x = .error e) ↔ ∀ a, x ≠ .ok a := by
  cases x with
  | error e => simp
  | ok a => simp

theorem ite_error_eq_ok {ε α : Type} {p : Prop} [Decidable p] {e : ε} {x : Except ε α} {a : α}
    (h : (if p then .error e else x) = .ok a) : ¬ p ∧ x = .ok a := by
  split at h
  · cases h
  next hp => exact ⟨hp, h⟩

theorem toOption_getD_eq_true_iff {ε : Type} {x : Except ε Bool} :
    x.toOption.getD false = true ↔ x = .ok true := by
  cases x with
  | error e => exact iff_of_false Bool.false_ne_true nofun
  | ok b => exact ⟨fun h => congrArg Except.ok h, fun h => Except.ok.inj h⟩

/-! ## Numbers and values -/

/-- Double precision. -/
def binary64 : FloatFormat := ⟨53, -1074, by decide⟩

/-- A number. Every double is one of these; `-0` reads as `0`. -/
inductive JSNumber where
  | nan
  | negInfinity
  | infinity
  | finite (q : ℚ)
  deriving DecidableEq

namespace JSNumber

/-- `x < q` for a finite `q`; false of `NaN`. -/
def ltRat : JSNumber → ℚ → Bool
  | nan, _ => false
  | negInfinity, _ => true
  | infinity, _ => false
  | finite x, q => x < q

/-- `x <= q` for a finite `q`; false of `NaN`. -/
def leRat : JSNumber → ℚ → Bool
  | nan, _ => false
  | negInfinity, _ => true
  | infinity, _ => false
  | finite x, q => x ≤ q

/-- The integer part that `ToInt32` and `ToUint8` keep, zero for the others. -/
def truncate : JSNumber → Int
  | finite x => x.num.tdiv x.den
  | _ => 0

def isInteger : JSNumber → Bool
  | finite x => x.den = 1
  | _ => false

def ofInt (n : Int) : JSNumber := finite n

/-- The number that arithmetic makes of an exact result. -/
def ofRat (x : ℚ) : JSNumber :=
  let rounded := binary64.round x
  if Int.log 2 |rounded| < 1024 then finite rounded
  else if 0 < rounded then infinity
  else negInfinity

/-- `x < y`. -/
def lt : JSNumber → JSNumber → Bool
  | x, finite y => x.ltRat y
  | finite _, infinity => true
  | negInfinity, infinity => true
  | _, _ => false

/-- `x <= y`. -/
def le (x y : JSNumber) : Bool := x.lt y || (x = y && x ≠ nan)

/-- `x + y`. -/
def add : JSNumber → JSNumber → JSNumber
  | finite x, finite y => ofRat (x + y)
  | nan, _ => nan
  | _, nan => nan
  | infinity, negInfinity => nan
  | negInfinity, infinity => nan
  | infinity, _ => infinity
  | _, infinity => infinity
  | negInfinity, _ => negInfinity
  | _, negInfinity => negInfinity

/-- `x * q` for a positive `q`. -/
def mulRat : JSNumber → ℚ → JSNumber
  | finite x, q => ofRat (x * q)
  | x, _ => x

end JSNumber

@[simp] theorem JSNumber.lt_finite (x y : ℚ) : (finite x).lt (finite y) = decide (x < y) := rfl

@[simp] theorem JSNumber.le_finite (x y : ℚ) : (finite x).le (finite y) = decide (x ≤ y) := by
  simp [le, lt_finite, le_iff_lt_or_eq, Bool.decide_or]

theorem JSNumber.le_iff {x y : JSNumber} : x.le y = true ↔ x.lt y = true ∨ x = y ∧ x ≠ .nan := by
  simp [le]

theorem JSNumber.lt_of_natCast_le {m n : ℕ} (hmn : m ≤ n) {x : JSNumber}
    (h : (finite n).lt x = true) : (finite m).lt x = true := by
  cases x with
  | finite q =>
    rw [JSNumber.lt_finite, decide_eq_true_eq] at h ⊢
    exact (Nat.cast_le.mpr hmn).trans_lt h
  | infinity => rfl
  | _ => cases h

theorem JSNumber.le_of_natCast_le {m n : ℕ} (hmn : m ≤ n) {x : JSNumber}
    (h : (finite n).le x = true) : (finite m).le x = true := by
  cases x with
  | finite q =>
    rw [JSNumber.le_finite, decide_eq_true_eq] at h ⊢
    exact (Nat.cast_le.mpr hmn).trans h
  | infinity => rfl
  | _ => cases h

theorem JSNumber.le_antisymm {x y : JSNumber} (hxy : x.le y = true) (hyx : y.le x = true) :
    x = y := by
  rcases JSNumber.le_iff.mp hxy with hlt | ⟨heq, -⟩
  · rcases JSNumber.le_iff.mp hyx with hgt | ⟨heq, -⟩
    · cases x <;> cases y <;> simp_all [lt, ltRat]
      exact absurd hgt (not_lt.mpr hlt.le)
    · exact heq.symm
  · exact heq

theorem JSNumber.le_of_not_le {x y : JSNumber} (hx : x ≠ .nan) (hy : y ≠ .nan)
    (h : ¬ x.le y = true) : y.le x = true := by
  cases x with
  | finite p =>
    cases y with
    | finite q =>
      rw [JSNumber.le_finite, decide_eq_true_eq] at h ⊢
      exact (not_le.mp h).le
    | _ => simp_all [le, lt, ltRat]
  | _ => cases y <;> simp_all [le, lt, ltRat]
theorem JSNumber.ofRat_natCast {n : ℕ} (h : n < 2 ^ 53) : JSNumber.ofRat n = .finite n := by
  have hround : binary64.round n = n := binary64.round_natCast h (by decide)
  have hlog : Int.log 2 |(n : ℚ)| < 1024 := by
    rw [Nat.abs_cast, Int.log_natCast]
    exact_mod_cast (Nat.log_lt_of_lt_pow' (by decide) h).trans (by decide)
  rw [JSNumber.ofRat, hround, if_pos hlog]

/-- Counting by ones is exact up to `2 ^ 53`, and stays there. -/
theorem JSNumber.add_one_natCast {n : ℕ} (h : n ≤ 2 ^ 53) :
    (JSNumber.finite n).add (.finite 1) = .finite (min (n + 1) (2 ^ 53) : ℕ) := by
  rcases lt_trichotomy (n + 1) (2 ^ 53) with hlt | heq | hgt
  · rw [min_eq_left hlt.le, ← JSNumber.ofRat_natCast hlt, JSNumber.add]
    push_cast
    rfl
  · obtain rfl : n = 2 ^ 53 - 1 := by omega
    with_unfolding_all decide
  · obtain rfl : n = 2 ^ 53 := by omega
    with_unfolding_all decide

/-- A value of a record: what `pack` accepts and `unpack` builds. Arrays and
maps list their items and own properties in order. -/
inductive JSValue where
  | undefined
  | null
  | bool (b : Bool)
  | number (x : JSNumber)
  | bigint (n : Int)
  | bytes (bs : Bytes)
  | string (s : JSString)
  | array (items : List JSValue)
  | map (entries : List (JSString × JSValue))

/-- The own properties of an object, in the order of `Object.entries`. -/
abbrev JSRecord := List (JSString × JSValue)

/-- `record[key]`, among the own properties. -/
def JSRecord.get (record : JSRecord) (key : JSString) : Option JSValue :=
  (record.find? fun e => e.1 = key).map Prod.snd

/-- `record[key] = value`. Assigning to `__proto__` sets the prototype and
makes no own property. -/
def JSRecord.assign (record : JSRecord) (key : JSString) (value : JSValue) : JSRecord :=
  if key = js "__proto__" then record
  else if record.any fun e => e.1 = key then
    record.map fun e => if e.1 = key then (key, value) else e
  else record ++ [(key, value)]

/-- Two records have the same own properties. -/
def JSRecord.Same (r₁ r₂ : JSRecord) : Prop := ∀ key, r₁.get key = r₂.get key

/-! ## Typed arrays -/

/-- `bs[i]`; `undefined` (`none`) outside the array. -/
def byteAt (bs : Bytes) (i : Int) : Option UInt8 := if 0 ≤ i then bs[i.toNat]? else none

/-- An index of `slice`, counted from the end when it is negative. -/
def sliceIndex (length : Nat) (i : Int) : Nat :=
  if i < 0 then (length + i).toNat else min i.toNat length

/-- `bs.slice(start, end)`. -/
def slice (bs : Bytes) (start stop : Int) : Bytes :=
  (bs.take (sliceIndex bs.length stop)).drop (sliceIndex bs.length start)

/-- An operand of a bitwise operator; `undefined` counts as zero. -/
def byteBits (b : Option UInt8) : BitVec 32 := (b.getD 0).toBitVec.setWidth 32

/-- `(b0 << 24) | (b1 << 16) | (b2 << 8) | b3` over signed 32-bit integers. -/
def int32 (b0 b1 b2 b3 : Option UInt8) : Int :=
  (byteBits b0 <<< 24 ||| byteBits b1 <<< 16 ||| byteBits b2 <<< 8 ||| byteBits b3).toInt

/-- `(b0 << 8) | b1`. -/
def int16 (b0 b1 : Option UInt8) : Int := (byteBits b0 <<< 8 ||| byteBits b1).toInt

/-- `(n >> k) & 0xFF` over signed 32-bit integers. -/
def byteOf (n : Int) (k : Nat) : UInt8 :=
  UInt8.ofBitVec (((BitVec.ofInt 32 n).sshiftRight k).setWidth 8)

/-! ## Hexadecimal input -/

/-- `s.replace('0x', '')`: the first occurrence only. -/
def removeHexPrefix : JSString → JSString
  | [] => []
  | c :: rest =>
    if (js "0x").isPrefixOf (c :: rest) then rest.drop 1 else c :: removeHexPrefix rest

def hexDigitValue (c : UInt16) : Option ℕ :=
  if 48 ≤ c ∧ c ≤ 57 then some (c.toNat - 48)
  else if 65 ≤ c ∧ c ≤ 70 then some (c.toNat - 55)
  else if 97 ≤ c ∧ c ≤ 102 then some (c.toNat - 87)
  else none

/-- `hexToBytes` of `@noble/hashes`. -/
def hexToBytes : JSString → Except JSError Bytes
  | [] => .ok []
  | [_] => .error externalError
  | c :: d :: rest =>
    match hexDigitValue c, hexDigitValue d with
    | some high, some low => do return UInt8.ofNat (high * 16 + low) :: (← hexToBytes rest)
    | _, _ => .error externalError

example : hexToBytes (removeHexPrefix (js "0x1fA0")) = .ok [0x1f, 0xa0] := by decide

theorem removeHexPrefix_append (s : JSString) : removeHexPrefix (js "0x" ++ s) = s := rfl

theorem hexDigitValue_hexDigit {d : ℕ} (hd : d < 16) : hexDigitValue (hexDigit d) = some d := by
  have hall : ∀ i : Fin 16, hexDigitValue (hexDigit i) = some (i : ℕ) := by decide
  exact hall ⟨d, hd⟩

theorem hexToBytes_bytesToHex (bs : Bytes) : hexToBytes (bytesToHex bs) = .ok bs := by
  induction bs with
  | nil => rfl
  | cons b bs ih =>
    have hb := b.toNat_lt
    rw [bytesToHex, List.flatMap_cons, ← bytesToHex, List.cons_append, List.cons_append,
      List.nil_append, hexToBytes, hexDigitValue_hexDigit (by omega),
      hexDigitValue_hexDigit (by omega), ih]
    dsimp only
    rw [show b.toNat / 16 * 16 + b.toNat % 16 = b.toNat by omega, UInt8.ofNat_toNat]
    rfl

theorem slice_middle {front bs rest : Bytes} {a b : Int} (ha : a = front.length)
    (hb : b = front.length + bs.length) : slice (front ++ (bs ++ rest)) a b = bs := by
  have hstart : sliceIndex (front ++ (bs ++ rest)).length a = front.length := by
    rw [sliceIndex, if_neg (by omega), List.length_append]
    omega
  have hstop : sliceIndex (front ++ (bs ++ rest)).length b = front.length + bs.length := by
    rw [sliceIndex, if_neg (by omega), List.length_append, List.length_append]
    omega
  rw [slice, hstart, hstop, List.take_length_add_append, List.drop_left, List.take_left]

/-! ## Four bytes of a 32-bit integer -/

theorem bytes_reassemble (x : BitVec 32) :
    ((x.sshiftRight 24).setWidth 8).setWidth 32 <<< 24 |||
      ((x.sshiftRight 16).setWidth 8).setWidth 32 <<< 16 |||
      ((x.sshiftRight 8).setWidth 8).setWidth 32 <<< 8 |||
      ((x.sshiftRight 0).setWidth 8).setWidth 32 = x := by
  apply BitVec.eq_of_getLsbD_eq
  intro i hi
  simp only [BitVec.getLsbD_or, BitVec.getLsbD_shiftLeft, BitVec.getLsbD_setWidth,
    BitVec.getLsbD_sshiftRight]
  rcases (by omega : i < 8 ∨ 8 ≤ i ∧ i < 16 ∨ 16 ≤ i ∧ i < 24 ∨ 24 ≤ i) with
    h | ⟨h, h'⟩ | ⟨h, h'⟩ | h
  · simp [hi, h, show i < 24 by omega, show i < 16 by omega]
  · simp [hi, h', show i < 24 by omega, show ¬ i < 8 by omega, show i - 8 < 8 by omega,
      show i - 8 < 32 by omega, show 8 + (i - 8) = i by omega, show ¬ 32 ≤ i - 8 by omega]
  · simp [hi, h', show ¬ i < 16 by omega, show ¬ i < 8 by omega, show i - 16 < 8 by omega,
      show ¬ i - 8 < 8 by omega, show i - 16 < 32 by omega, show 16 + (i - 16) = i by omega,
      show ¬ 32 ≤ i - 16 by omega]
  · simp [hi, show ¬ i < 24 by omega, show ¬ i < 16 by omega, show ¬ i < 8 by omega,
      show i - 24 < 8 by omega, show ¬ i - 16 < 8 by omega, show ¬ i - 8 < 8 by omega,
      show i - 24 < 32 by omega, show 24 + (i - 24) = i by omega, show ¬ 32 ≤ i - 24 by omega]

@[simp] theorem byteBits_byteOf (n : Int) (k : Nat) :
    byteBits (some (byteOf n k)) = (((BitVec.ofInt 32 n).sshiftRight k).setWidth 8).setWidth 32 := rfl

/-- Four bytes written with `>>` and read with `<<` give the number back. -/
theorem int32_byteOf {n : Int} (h₀ : -2 ^ 31 ≤ n) (h₁ : n < 2 ^ 31) :
    int32 (some (byteOf n 24)) (some (byteOf n 16)) (some (byteOf n 8)) (some (byteOf n 0)) = n := by
  simp only [int32, byteBits_byteOf, bytes_reassemble, BitVec.toInt_ofInt]
  rw [Int.bmod_def]
  omega

theorem byteOf_toInt (x : BitVec 32) (k : ℕ) :
    byteOf x.toInt k = UInt8.ofBitVec ((x.sshiftRight k).setWidth 8) := by
  rw [byteOf, BitVec.ofInt_toInt]

/-- Four bytes read with `<<` and written with `>>` are the bytes again. -/
theorem byteOf_int32 (b0 b1 b2 b3 : Option UInt8) :
    byteOf (int32 b0 b1 b2 b3) 24 = b0.getD 0 ∧ byteOf (int32 b0 b1 b2 b3) 16 = b1.getD 0 ∧
      byteOf (int32 b0 b1 b2 b3) 8 = b2.getD 0 ∧ byteOf (int32 b0 b1 b2 b3) 0 = b3.getD 0 := by
  simp only [int32, byteOf_toInt, ← UInt8.toBitVec_inj, byteBits]
  refine ⟨?_, ?_, ?_, ?_⟩
  all_goals
    apply BitVec.eq_of_getLsbD_eq
    intro i hi
    simp only [BitVec.getLsbD_or, BitVec.getLsbD_shiftLeft, BitVec.getLsbD_setWidth,
      BitVec.getLsbD_sshiftRight]
  · simp (disch := omega) [hi, show i < 32 by omega, show 24 + i < 32 by omega]
  · simp (disch := omega) [hi, show i < 32 by omega, show 16 + i < 32 by omega,
      show 16 + i < 24 by omega]
  · simp (disch := omega) [hi, show i < 32 by omega, show 8 + i < 32 by omega,
      show 8 + i < 24 by omega, show 8 + i < 16 by omega]
  · simp [hi, show i < 32 by omega, show i < 24 by omega, show i < 16 by omega]

theorem int16_eq (b0 b1 : Option UInt8) :
    int16 b0 b1 = ((b0.getD 0).toNat * 256 + (b1.getD 0).toNat : ℕ) := by
  have h0 := (b0.getD 0).toNat_lt
  have h1 := (b1.getD 0).toNat_lt
  have hor : (byteBits b0 <<< 8 ||| byteBits b1).toNat =
      (b0.getD 0).toNat * 256 + (b1.getD 0).toNat := by
    rw [BitVec.toNat_or, BitVec.toNat_shiftLeft, byteBits, byteBits, BitVec.toNat_setWidth,
      BitVec.toNat_setWidth, UInt8.toNat_toBitVec, UInt8.toNat_toBitVec,
      Nat.mod_eq_of_lt (by omega : (b0.getD 0).toNat < 2 ^ 32),
      Nat.mod_eq_of_lt (by omega : (b1.getD 0).toNat < 2 ^ 32),
      Nat.mod_eq_of_lt (by rw [Nat.shiftLeft_eq]; omega),
      ← Nat.shiftLeft_add_eq_or_of_lt (by omega : (b1.getD 0).toNat < 2 ^ 8), Nat.shiftLeft_eq]
  rw [int16, BitVec.toInt_eq_toNat_of_lt (by omega), hor]

/-- Two bytes read with `<<` and written with `>>` are the bytes again. -/
theorem byteOf_int16 (b0 b1 : Option UInt8) :
    byteOf (int16 b0 b1) 8 = b0.getD 0 ∧ byteOf (int16 b0 b1) 0 = b1.getD 0 := by
  simp only [int16, byteOf_toInt, ← UInt8.toBitVec_inj, byteBits]
  refine ⟨?_, ?_⟩
  all_goals
    apply BitVec.eq_of_getLsbD_eq
    intro i hi
    simp only [BitVec.getLsbD_or, BitVec.getLsbD_shiftLeft, BitVec.getLsbD_setWidth,
      BitVec.getLsbD_sshiftRight]
  · simp (disch := omega) [hi, show i < 32 by omega, show 8 + i < 32 by omega]
  · simp [hi, show i < 32 by omega]

end BioFire
