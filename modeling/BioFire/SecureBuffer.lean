import BioFire.InputSanitization
import BioFire.ModularArithmetic

/-!
# Zeroized values (`src/lib/security/secure_buffer.ts`)

A `SecureBuffer` or a `SecureBigInt` holds its data until it is released; reading it
afterwards throws. Releasing returns the released object, which takes the place of
the old one wherever the object is stored.

* `parsedBytes_bytesToHex`: the bytes of a hexadecimal text;
* `SecureBigInt.value_release`: a released value cannot be read.
-/

namespace BioFire

/-- `parseInt(s, 16)`, `none` for `NaN`. -/
def parseInt16 (s : JSString) : Option ℤ :=
  let s := s.dropWhile isWhitespace
  let negative := s.head? = some 45
  let s := if s.head? = some 43 ∨ s.head? = some 45 then s.tail else s
  let s := if (js "0x").isPrefixOf s ∨ (js "0X").isPrefixOf s then s.drop 2 else s
  let digits := (s.takeWhile isHexDigit).filterMap hexDigitValue
  if digits = [] then none
  else
    let value : ℤ := digits.foldl (fun value d => value * 16 + d) (0 : ℕ)
    some (if negative then -value else value)

example : parseInt16 (js "-fz") = some (-15) := by decide

/-- A number stored in a `Uint8Array`; `NaN` is stored as zero. -/
def toUint8 (value : Option ℤ) : UInt8 := UInt8.ofNat ((value.getD 0) % 256).toNat

/-- A `Uint8Array` of half the length, filled two characters at a time. `new Uint8Array`
rounds half a byte down, and the write of a single last character is out of bounds. -/
def parsedBytes : JSString → Bytes
  | c :: d :: rest => toUint8 (parseInt16 [c, d]) :: parsedBytes rest
  | _ => []

theorem parseInt16_digits {high low : ℕ} (hhigh : high < 16) (hlow : low < 16) :
    parseInt16 [hexDigit high, hexDigit low] = some ((high * 16 + low : ℕ) : ℤ) := by
  have hall : ∀ i : Fin 16, isWhitespace (hexDigit i) = false ∧ hexDigit i ≠ 43 ∧
      hexDigit i ≠ 45 ∧ hexDigit i ≠ 120 ∧ hexDigit i ≠ 88 ∧ isHexDigit (hexDigit i) = true := by
    decide
  obtain ⟨hspace, hplus, hminus, -, -, hhex⟩ := hall ⟨high, hhigh⟩
  obtain ⟨-, -, -, hx, hX, hhex'⟩ := hall ⟨low, hlow⟩
  have hmark : (js "0x").isPrefixOf [hexDigit high, hexDigit low] = false ∧
      (js "0X").isPrefixOf [hexDigit high, hexDigit low] = false := by
    simp [show js "0x" = [48, 120] from rfl, show js "0X" = [48, 88] from rfl, List.isPrefixOf,
      Ne.symm hx, Ne.symm hX]
  simp [parseInt16, hspace, hplus, hminus, hmark, hhex, hhex', hexDigitValue_hexDigit hhigh,
    hexDigitValue_hexDigit hlow]

/-- The bytes of their digits; a single last character is not stored. -/
theorem parsedBytes_bytesToHex_append (bs : Bytes) (last : JSString) (hlast : last.length ≤ 1) :
    parsedBytes (bytesToHex bs ++ last) = bs := by
  induction bs with
  | nil =>
    match last, hlast with
    | [], _ => rfl
    | [_], _ => rfl
  | cons b bs ih =>
    have hb := b.toNat_lt
    have hbyte : toUint8 (some ((b.toNat / 16 * 16 + b.toNat % 16 : ℕ) : ℤ)) = b := by
      rw [Nat.div_add_mod', toUint8, Option.getD_some, Int.emod_eq_of_lt (by omega) (by omega),
        Int.toNat_natCast, UInt8.ofNat_toNat]
    rw [bytesToHex, List.flatMap_cons, ← bytesToHex, List.append_assoc, List.cons_append,
      List.cons_append, List.nil_append, parsedBytes, ih, parseInt16_digits (by omega) (by omega),
      hbyte]

theorem parsedBytes_bytesToHex (bs : Bytes) : parsedBytes (bytesToHex bs) = bs := by
  have h := parsedBytes_bytesToHex_append bs [] (by decide)
  rwa [List.append_nil] at h

structure SecureBuffer where
  data : Option Bytes
  released : Bool
  length : ℕ
  released_iff : released = data.isNone

namespace SecureBuffer

def ofBytes (data : Bytes) : SecureBuffer := ⟨some data, false, data.length, rfl⟩

/-- `SecureBuffer.fromHex`. -/
def fromHex (hex : JSString) : SecureBuffer :=
  let clean := if (js "0x").isPrefixOf hex then hex.drop 2 else hex
  ofBytes (parsedBytes clean)

def bytes (buffer : SecureBuffer) : Except JSError Bytes :=
  match buffer.data with
  | some data =>
    if buffer.released then
      .error (plainError (js "SecureBuffer: Attempted access after release"))
    else .ok data
  | none => .error (plainError (js "SecureBuffer: Attempted access after release"))

def asBigInt (buffer : SecureBuffer) : Except JSError ℤ := do
  return BioFire.bytesToBigInt (← buffer.bytes)

def release (buffer : SecureBuffer) : SecureBuffer := ⟨none, true, buffer.length, rfl⟩

end SecureBuffer

structure SecureBigInt where
  data : Option ℤ
  released : Bool
  released_iff : released = data.isNone

namespace SecureBigInt

def ofInt (value : ℤ) : SecureBigInt := ⟨some value, false, rfl⟩

def value (secret : SecureBigInt) : Except JSError ℤ :=
  match secret.data with
  | some value =>
    if secret.released then
      .error (plainError (js "SecureBigInt: Attempted access after release"))
    else .ok value
  | none => .error (plainError (js "SecureBigInt: Attempted access after release"))

def release (_ : SecureBigInt) : SecureBigInt := ⟨none, true, rfl⟩

def fromSecureBuffer (buffer : SecureBuffer) : Except JSError SecureBigInt := do
  return ofInt (← buffer.asBigInt)

theorem value_release (secret : SecureBigInt) {value : ℤ} : secret.release.value ≠ .ok value := by
  intro h
  cases h

end SecureBigInt

end BioFire
