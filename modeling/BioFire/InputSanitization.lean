import BioFire.JSValue
import Mathlib.Data.List.DropRight

/-!
# Validation of request fields (`src/lib/security/input_sanitization.ts`)

The validators of the signing request. The regular expressions are written out as
a prefix, a character class and bounds on the length.
-/

namespace BioFire

def asciiLower (c : UInt16) : UInt16 := if 65 ≤ c ∧ c ≤ 90 then c + 32 else c

/-- What the modelled code takes from the platform. -/
structure Platform where
  toLowerCase : JSString → JSString
  toLowerCase_ascii : ∀ s, (∀ c ∈ s, c < 128) → toLowerCase s = s.map asciiLower
  /-- A number in the format of the default locale. -/
  toLocaleString : ℚ → JSString
  /-- `require('@noble/hashes/sha3').keccak_256(bytes)`; loading may throw. -/
  keccak_256 : Bytes → Except JSError Digest

/-- Lower case of ASCII letters, and no other service of the platform. -/
def asciiPlatform : Platform where
  toLowerCase s := s.map asciiLower
  toLowerCase_ascii _ _ := rfl
  toLocaleString _ := []
  keccak_256 _ := .error externalError

/-! ## Strings -/

/-- White space and line terminators, as `trim` removes them. -/
def isWhitespace (c : UInt16) : Bool :=
  [9, 10, 11, 12, 13, 32, 0xA0, 0x1680, 0x2028, 0x2029, 0x202F, 0x205F, 0x3000, 0xFEFF].contains c ||
    (0x2000 ≤ c && c ≤ 0x200A)

def trim (s : JSString) : JSString := (s.dropWhile isWhitespace).rdropWhile isWhitespace

/-- `[a-fA-F0-9]` -/
def isHexDigit (c : UInt16) : Bool := (hexDigitValue c).isSome

/-- `[a-zA-Z0-9]` -/
def isAlphanumeric (c : UInt16) : Bool :=
  isDigit c || (65 ≤ c && c ≤ 90) || (97 ≤ c && c ≤ 122)

/-- `[1-9A-HJ-NP-Za-km-z]`: no `0`, `I`, `O` and `l`. -/
def isBase58 (c : UInt16) : Bool := isAlphanumeric c && !([48, 73, 79, 108].contains c)

/-- `^[class]{low,high}$` -/
def matchesClass (charClass : UInt16 → Bool) (low high : ℕ) (s : JSString) : Bool :=
  low ≤ s.length && s.length ≤ high && s.all charClass

/-! ## Addresses -/

def MAX_ADDRESS_LENGTH : ℕ := 128

/-- A letter whose case does not follow the nibble of the hash. -/
def wrongCase (char nibble : UInt16) : Bool :=
  let hashNibble := (hexDigitValue nibble).getD 0
  (65 ≤ char && char ≤ 70 && hashNibble < 8) || (97 ≤ char && char ≤ 102 && 8 ≤ hashNibble)

def validateEIP55Checksum (platform : Platform) (address : JSString) : Except JSError Bool := do
  let addr := removeHexPrefix (platform.toLowerCase address)
  let hash ← platform.keccak_256 (textEncode addr)
  let hashHex := bytesToHex hash.1
  return ((address.drop 2).zip hashHex).all fun (char, nibble) => !wrongCase char nibble

def isEvmAddress (s : JSString) : Bool :=
  (js "0x").isPrefixOf s && matchesClass isHexDigit 40 40 (s.drop 2)

def isBech32Address (s : JSString) : Bool :=
  ((js "bc1").isPrefixOf s || (js "tb1").isPrefixOf s) &&
    matchesClass isAlphanumeric 38 59 (s.drop 3)

def isLegacyAddress (s : JSString) : Bool :=
  ((js "1").isPrefixOf s || (js "3").isPrefixOf s || (js "m").isPrefixOf s) &&
    matchesClass isBase58 25 34 (s.drop 1)

def validateAddress (platform : Platform) : JSValue → Except JSError Bool
  | .string address =>
    let cleanAddr := trim address
    if address = [] then .ok false
    else if MAX_ADDRESS_LENGTH < cleanAddr.length ∨ cleanAddr.length < 20 then .ok false
    else if isEvmAddress cleanAddr then validateEIP55Checksum platform cleanAddr
    else .ok (isBech32Address cleanAddr || isLegacyAddress cleanAddr ||
      matchesClass isBase58 32 44 cleanAddr || matchesClass isBase58 47 48 cleanAddr)
  | _ => .ok false

/-! ## Amounts -/

structure AmountValidation where
  valid : Bool
  value : Option JSString
  error : Option JSString
  deriving DecidableEq

/-- `^\d+(\.\d+)?$`: the digits before and after the point. -/
def decimalParts (s : JSString) : Option (JSString × JSString) :=
  let whole := s.takeWhile isDigit
  if whole = [] then none
  else
    match s.dropWhile isDigit with
    | [] => some (whole, [])
    | 46 :: fraction =>
      if fraction ≠ [] ∧ fraction.all isDigit then some (whole, fraction) else none
    | _ => none

def validateAmount : JSValue → AmountValidation
  | .string amount =>
    if amount = [] then ⟨false, none, some (js "Amount must be a string")⟩
    else
      match decimalParts (trim amount) with
      | none => ⟨false, none, some (js "Amount must be a positive decimal number")⟩
      | some (_, fraction) =>
        if 18 < fraction.length then
          ⟨false, none, some (js "Amount precision exceeds 18 decimal places")⟩
        else ⟨true, some (trim amount), none⟩
  | _ => ⟨false, none, some (js "Amount must be a string")⟩

/-- `parseFloat(amount)` of an amount that `validateAmount` accepts. A value above the
largest double stays finite. -/
def parseFloat (amount : JSString) : ℚ :=
  match decimalParts (trim amount) with
  | none => 0
  | some (whole, fraction) =>
    binary64.round (digitsValue whole + digitsValue fraction / 10 ^ fraction.length)

/-! ## Chains -/

def validChains : List JSString :=
  [js "ethereum", js "bitcoin", js "solana", js "polygon", js "polkadot", js "avalanche"]

def validateChainId (platform : Platform) : JSValue → Except JSError Bool
  | .string chainId => .ok (validChains.contains (platform.toLowerCase chainId))
  | .undefined =>
    .error ⟨.TypeError, js "Cannot read properties of undefined (reading 'toLowerCase')"⟩
  | .null => .error ⟨.TypeError, js "Cannot read properties of null (reading 'toLowerCase')"⟩
  | _ => .error ⟨.TypeError, js "chainId.toLowerCase is not a function"⟩

example : validateAmount (.string (js " 31.25 ")) = ⟨true, some (js "31.25"), none⟩ := by decide
example : parseFloat (js "31.25") = 125 / 4 := by with_unfolding_all decide

end BioFire
