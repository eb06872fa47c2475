import BioFire.BigIntText
import BioFire.InputSanitization
import BioFire.SessionGuard

/-!
# Addresses of Ethereum (`src/lib/crypto/address_derivation.ts`, `secp256k1.ts`)

The address of a public key: twenty bytes of its hash, in digits whose case carries a
checksum. Keccak is a parameter, and so is the encoding of points.

* `addressOf_accepted`: the validator accepts every derived address;
* `spelling_accepted_iff`: of the spellings of an address it accepts the one that the
  derivation writes;
* `derive_agree_iff`: the two derivations agree but for compressed public keys.
-/

namespace BioFire.AddressDerivation

open SessionGuard (dropHexMark)

/-! ## The code -/

/-- `c.toUpperCase()` of an ASCII unit. -/
def asciiUpper (c : UInt16) : UInt16 := if 97 ≤ c ∧ c ≤ 122 then c - 32 else c

/-- The case of one digit, by the digit of the hash in its place. -/
def checksumCase (digit nibble : UInt16) : UInt16 :=
  if 8 ≤ (hexDigitValue nibble).getD 0 then asciiUpper digit else asciiLower digit

/-- The loop that both derivations end with. -/
def checksummed (keccak_256 : Bytes → Digest) (rawAddrHex : JSString) : JSString :=
  let hashOfAddr := bytesToHex (keccak_256 (textEncode rawAddrHex)).1
  js "0x" ++ List.zipWith checksumCase rawAddrHex hashOfAddr

/-- The encodings of the public keys of `@noble/curves`, which are the points other than
zero: 65 bytes uncompressed and 33 bytes compressed. -/
structure PointEncoding (Point : Type) where
  /-- `ProjectivePoint.fromHex(bytes)`, where it does not throw. -/
  decode : Bytes → Option Point
  /-- `P.toRawBytes(false)` is this behind a byte 4. -/
  coordinates : Point → Bytes
  /-- `P.toRawBytes(true)` -/
  compress : Point → Bytes
  length_coordinates : ∀ P, (coordinates P).length = 64
  length_compress : ∀ P, (compress P).length = 33
  decode_coordinates : ∀ P, decode (4 :: coordinates P) = some P
  decode_compress : ∀ P, decode (compress P) = some P

variable {Point : Type}

def PointEncoding.toRawBytes (encoding : PointEncoding Point) (P : Point)
    (isCompressed : Bool) : Bytes :=
  if isCompressed then encoding.compress P else 4 :: encoding.coordinates P

def PointEncoding.fromHex (encoding : PointEncoding Point) (text : JSString) :
    Except JSError Point := do
  match encoding.decode (← hexToBytes text) with
  | some P => .ok P
  | none => .error externalError

def deriveEVMAddress (encoding : PointEncoding Point) (keccak_256 : Bytes → Digest)
    (pubKeyHex : JSString) : Except JSError JSString := do
  let cleanHex := dropHexMark pubKeyHex
  let pubBytes : Bytes ← (
    if cleanHex.length = 128 then hexToBytes cleanHex
    else if cleanHex.length = 130 ∧ (js "04").isPrefixOf cleanHex then hexToBytes (cleanHex.drop 2)
    else do
      let point ← encoding.fromHex cleanHex
      return (encoding.toRawBytes point false).drop 1)
  let hash := keccak_256 pubBytes
  let rawAddrHex := bytesToHex ((hash.1.take 32).drop 12)
  return checksummed keccak_256 rawAddrHex

/-- The derivation of `secp256k1.ts`. -/
def deriveEthereumAddress (keccak_256 : Bytes → Digest) (publicKeyHex : JSString) :
    Except JSError JSString := do
  let pub ← hexToBytes (removeHexPrefix publicKeyHex)
  let pubNoPrefix := if pub.length = 65 then pub.drop 1 else pub
  let hash := keccak_256 pubNoPrefix
  let rawAddr := bytesToHex (hash.1.drop (hash.1.length - 20))
  return checksummed keccak_256 rawAddr

/-! ## Digits -/

theorem exists_fin_of_isHexDigit {c : UInt16} (hc : isHexDigit c = true) :
    ∃ i : Fin 128, c = UInt16.ofNat i := by
  have hlt : c.toNat < 128 := by
    by_contra hge
    have hnone : hexDigitValue c = none := by
      simp only [hexDigitValue, UInt16.le_iff_toNat_le]
      change (if 48 ≤ c.toNat ∧ c.toNat ≤ 57 then _ else if 65 ≤ c.toNat ∧ c.toNat ≤ 70 then _
        else if 97 ≤ c.toNat ∧ c.toNat ≤ 102 then _ else none) = none
      rw [if_neg (by omega), if_neg (by omega), if_neg (by omega)]
    rw [isHexDigit, hnone] at hc
    cases hc
  exact ⟨⟨c.toNat, hlt⟩, UInt16.ofNat_toNat.symm⟩

/-- Digits are ASCII letters and numbers, and stay digits in lower case. -/
theorem hexDigit_facts {c : UInt16} (hc : isHexDigit c = true) :
    isWhitespace c = false ∧ c < 128 ∧ isHexDigit (asciiLower c) = true ∧
      c ≠ 120 ∧ asciiLower (asciiLower c) = asciiLower c := by
  obtain ⟨i, rfl⟩ := exists_fin_of_isHexDigit hc
  revert i
  decide

theorem checksumCase_hexDigit {c : UInt16} (hc : isHexDigit c = true) (nibble : UInt16) :
    isHexDigit (checksumCase c nibble) = true ∧
      asciiLower (checksumCase c nibble) = asciiLower c := by
  have hcase : ∀ c, isHexDigit c = true → (isHexDigit (asciiUpper c) = true ∧
      asciiLower (asciiUpper c) = asciiLower c) ∧ isHexDigit (asciiLower c) = true ∧
        asciiLower (asciiLower c) = asciiLower c := by
    intro c hc
    obtain ⟨i, rfl⟩ := exists_fin_of_isHexDigit hc
    revert i
    decide
  obtain ⟨hupper, hlower⟩ := hcase c hc
  rw [checksumCase]
  split
  · exact hupper
  · exact hlower

/-- **One digit**: its case is the right one exactly when the derivation writes it so. -/
theorem not_wrongCase_iff {c nibble : UInt16} (hc : isHexDigit c = true) :
    (!wrongCase c nibble) = true ↔ c = checksumCase (asciiLower c) nibble := by
  have hhigh : ∀ c, isHexDigit c = true →
      ((65 ≤ c && c ≤ 70) = true ↔ c ≠ asciiLower (asciiLower c)) ∧
        ((97 ≤ c && c ≤ 102) = true ↔ c ≠ asciiUpper (asciiLower c)) := by
    intro c hc
    obtain ⟨i, rfl⟩ := exists_fin_of_isHexDigit hc
    revert i
    decide
  obtain ⟨hupper, hlower⟩ := hhigh c hc
  generalize hnibble : (hexDigitValue nibble).getD 0 = n
  rw [wrongCase, checksumCase, hnibble]
  by_cases hn : 8 ≤ n
  · rw [if_pos hn, decide_eq_false (by omega : ¬n < 8), decide_eq_true hn, Bool.and_false,
      Bool.false_or, Bool.and_true, Bool.not_eq_true', ← Bool.not_eq_true, hlower, not_not]
  · rw [if_neg hn, decide_eq_true (by omega : n < 8), decide_eq_false hn, Bool.and_false,
      Bool.or_false, Bool.and_true, Bool.not_eq_true', ← Bool.not_eq_true, hupper, not_not]

theorem isHexDigit_of_lower {c : UInt16} (hc : isHexDigit (asciiLower c) = true) :
    isHexDigit c = true := by
  by_cases hcapital : 65 ≤ c ∧ c ≤ 90
  · obtain ⟨hlow, hhigh⟩ := hcapital
    rw [UInt16.le_iff_toNat_le] at hlow hhigh
    change 65 ≤ c.toNat at hlow
    change c.toNat ≤ 90 at hhigh
    have hall : ∀ i : Fin 91, isHexDigit (asciiLower (UInt16.ofNat i)) = true → 65 ≤ i.1 →
        isHexDigit (UInt16.ofNat i) = true := by decide
    have hofNat : UInt16.ofNat c.toNat = c := UInt16.ofNat_toNat
    rw [← hofNat] at hc ⊢
    exact hall ⟨c.toNat, by omega⟩ hc hlow
  · rwa [asciiLower, if_neg hcapital] at hc

/-! ## The validator -/

/-- The platform whose `require` finds this hash function. -/
def withKeccak (platform : Platform) (keccak_256 : Bytes → Digest) : Platform :=
  { platform with keccak_256 := fun bytes => .ok (keccak_256 bytes) }

theorem all_not_wrongCase_iff {address hashHex : JSString}
    (hlength : address.length ≤ hashHex.length)
    (hdigits : ∀ c ∈ address, isHexDigit c = true) :
    ((address.zip hashHex).all fun pair => !wrongCase pair.1 pair.2) = true ↔
      address = List.zipWith checksumCase (address.map asciiLower) hashHex := by
  induction address generalizing hashHex with
  | nil => exact ⟨fun _ => rfl, fun _ => rfl⟩
  | cons c address ih =>
    cases hashHex with
    | nil => exact absurd hlength (Nat.not_succ_le_zero _)
    | cons nibble hashHex =>
      have hrest := ih (Nat.le_of_succ_le_succ hlength)
        fun c' hc' => hdigits c' (List.mem_cons_of_mem c hc')
      rw [List.zip_cons_cons, List.all_cons, Bool.and_eq_true, hrest,
        not_wrongCase_iff (hdigits c List.mem_cons_self), List.map_cons, List.zipWith_cons_cons,
        List.cons.injEq]

variable {platform : Platform} {keccak_256 : Bytes → Digest}

/-- Forty digits behind `0x` are accepted exactly as the derivation writes them. -/
theorem validateAddress_evm_iff {digits : JSString} (hlength : digits.length = 40)
    (hdigits : ∀ c ∈ digits, isHexDigit c = true) :
    validateAddress (withKeccak platform keccak_256) (.string (js "0x" ++ digits)) = .ok true ↔
      js "0x" ++ digits = checksummed keccak_256 (digits.map asciiLower) := by
  have hspaces : ∀ c ∈ js "0x" ++ digits, isWhitespace c = false := by
    intro c hc
    rcases List.mem_append.mp hc with hc | hc
    · exact isWhitespace_hexMark c hc
    · exact (hexDigit_facts (hdigits c hc)).1
  have hascii : ∀ c ∈ js "0x" ++ digits, c < 128 := by
    intro c hc
    rcases List.mem_append.mp hc with hc | hc
    · exact ascii_of_all (by decide) c hc
    · exact (hexDigit_facts (hdigits c hc)).2.1
  have htrim : trim (js "0x" ++ digits) = js "0x" ++ digits := trim_eq_self hspaces
  have htotal : (js "0x" ++ digits).length = 42 := by
    rw [List.length_append, hlength]
    rfl
  have hevm : isEvmAddress (js "0x" ++ digits) = true := by
    rw [isEvmAddress, List.isPrefixOf_iff_prefix.mpr (List.prefix_append _ _), Bool.true_and,
      List.drop_left' (by rfl), matchesClass, hlength, List.all_eq_true.mpr hdigits]
    rfl
  have hne : js "0x" ++ digits ≠ [] := List.cons_ne_nil _ _
  have hlower : platform.toLowerCase (js "0x" ++ digits) = js "0x" ++ digits.map asciiLower := by
    rw [platform.toLowerCase_ascii _ hascii, List.map_append]
    rfl
  have hhash : ∀ bytes, digits.length ≤ (bytesToHex (keccak_256 bytes).1).length := by
    intro bytes
    rw [length_bytesToHex, (keccak_256 bytes).2, hlength]
    decide
  simp only [validateAddress, htrim, htotal, MAX_ADDRESS_LENGTH]
  rw [if_neg hne, if_neg (by omega), if_pos hevm, validateEIP55Checksum]
  simp only [withKeccak, hlower, removeHexPrefix_append, bind, Except.bind, pure, Except.pure,
    Except.ok.injEq]
  rw [List.drop_left' (by rfl), checksummed, List.append_cancel_left_eq]
  exact all_not_wrongCase_iff (hhash _) hdigits

/-! ## Derived addresses -/

theorem map_lower_bytesToHex (bs : Bytes) : (bytesToHex bs).map asciiLower = bytesToHex bs := by
  have hall : ∀ i : Fin 16, asciiLower (hexDigit i) = hexDigit i := by decide
  calc (bytesToHex bs).map asciiLower = (bytesToHex bs).map id := by
        refine List.map_congr_left fun c hc => ?_
        obtain ⟨i, rfl⟩ := exists_hexDigit_of_mem hc
        exact hall i
    _ = bytesToHex bs := List.map_id _

theorem isHexDigit_of_mem_bytesToHex {bs : Bytes} {c : UInt16} (hc : c ∈ bytesToHex bs) :
    isHexDigit c = true := by
  have hall : ∀ i : Fin 16, isHexDigit (hexDigit i) = true := by decide
  obtain ⟨i, rfl⟩ := exists_hexDigit_of_mem hc
  exact hall i

theorem zipWith_checksumCase {digits hashHex : JSString} (hlength : digits.length ≤ hashHex.length)
    (hdigits : ∀ c ∈ digits, isHexDigit c = true) :
    (∀ c ∈ List.zipWith checksumCase digits hashHex, isHexDigit c = true) ∧
      (List.zipWith checksumCase digits hashHex).map asciiLower = digits.map asciiLower := by
  induction digits generalizing hashHex with
  | nil => exact ⟨(fun _ hc => nomatch hc), rfl⟩
  | cons digit digits ih =>
    cases hashHex with
    | nil => exact absurd hlength (Nat.not_succ_le_zero _)
    | cons nibble hashHex =>
      obtain ⟨hdigit, hlower⟩ := checksumCase_hexDigit (hdigits digit List.mem_cons_self) nibble
      obtain ⟨hrest, hmap⟩ := ih (Nat.le_of_succ_le_succ hlength)
        fun c hc => hdigits c (List.mem_cons_of_mem digit hc)
      rw [List.zipWith_cons_cons, List.map_cons, hlower, hmap]
      refine ⟨fun c hc => ?_, rfl⟩
      rcases List.mem_cons.mp hc with rfl | hc
      · exact hdigit
      · exact hrest c hc

theorem checksummed_spelling (keccak_256 : Bytes → Digest) {digits : JSString}
    (hlength : digits.length = 40) (hdigits : ∀ c ∈ digits, isHexDigit c = true) :
    ∃ spelling : JSString, checksummed keccak_256 digits = js "0x" ++ spelling ∧
      spelling.length = 40 ∧ (∀ c ∈ spelling, isHexDigit c = true) ∧
      spelling.map asciiLower = digits.map asciiLower := by
  have hlong : digits.length ≤ (bytesToHex (keccak_256 (textEncode digits)).1).length := by
    rw [length_bytesToHex, (keccak_256 _).2, hlength]
    decide
  obtain ⟨hhex, hmap⟩ := zipWith_checksumCase hlong hdigits
  refine ⟨_, rfl, ?_, hhex, hmap⟩
  rw [List.length_zipWith, min_eq_left hlong, hlength]

theorem spelling_digits {digits other : JSString} (hdigits : ∀ c ∈ digits, isHexDigit c = true)
    (hother : other.map asciiLower = digits.map asciiLower) :
    other.length = digits.length ∧ ∀ c ∈ other, isHexDigit c = true := by
  constructor
  · rw [← List.length_map asciiLower, hother, List.length_map]
  · intro c hc
    have hlower : asciiLower c ∈ digits.map asciiLower := hother ▸ List.mem_map_of_mem hc
    obtain ⟨c', hc', heq⟩ := List.mem_map.mp hlower
    exact isHexDigit_of_lower (heq ▸ (hexDigit_facts (hdigits c' hc')).2.2.1)

/-- **Of the spellings of an address** the validator accepts the one that the derivation
writes. -/
theorem spelling_accepted_iff (platform : Platform) (keccak_256 : Bytes → Digest)
    {digits other : JSString} (hlength : digits.length = 40)
    (hdigits : ∀ c ∈ digits, isHexDigit c = true)
    (hother : other.map asciiLower = digits.map asciiLower) :
    validateAddress (withKeccak platform keccak_256) (.string (js "0x" ++ other)) = .ok true ↔
      js "0x" ++ other = checksummed keccak_256 (digits.map asciiLower) := by
  obtain ⟨hlen, hhex⟩ := spelling_digits hdigits hother
  rw [validateAddress_evm_iff (hlen.trans hlength) hhex, hother]

/-- What the derivation writes for lower-case digits is accepted. -/
theorem checksummed_accepted (platform : Platform) (keccak_256 : Bytes → Digest)
    {digits : JSString} (hlength : digits.length = 40) (hdigits : ∀ c ∈ digits, isHexDigit c = true)
    (hlower : digits.map asciiLower = digits) :
    validateAddress (withKeccak platform keccak_256) (.string (checksummed keccak_256 digits)) =
      .ok true := by
  obtain ⟨spelling, hspelling, -, -, hmap⟩ := checksummed_spelling keccak_256 hlength hdigits
  rw [hspelling, spelling_accepted_iff platform keccak_256 hlength hdigits hmap, hlower, hspelling]

/-! ## Hexadecimal text -/

theorem hexToBytes_digits {c d : UInt16} {rest : JSString} {bytes : Bytes}
    (h : hexToBytes (c :: d :: rest) = .ok bytes) : ∃ high low bytes',
      hexDigitValue c = some high ∧ hexDigitValue d = some low ∧
      hexToBytes rest = .ok bytes' ∧ bytes = UInt8.ofNat (high * 16 + low) :: bytes' := by
  rw [hexToBytes] at h
  split at h
  next high low hc hd =>
    obtain ⟨bytes', hrest, hbytes⟩ := bind_eq_ok h
    exact ⟨high, low, bytes', hc, hd, hrest, (Except.ok.inj hbytes).symm⟩
  next => cases h

theorem hexToBytes_cons {digits : JSString} {b : UInt8} {bytes : Bytes}
    (h : hexToBytes digits = .ok (b :: bytes)) : ∃ c d rest high low, digits = c :: d :: rest ∧
      hexDigitValue c = some high ∧ hexDigitValue d = some low ∧
      b = UInt8.ofNat (high * 16 + low) ∧ hexToBytes rest = .ok bytes := by
  match digits with
  | [] => cases h
  | [_] => cases h
  | c :: d :: rest =>
    obtain ⟨high, low, bytes', hc, hd, hrest, hbytes⟩ := hexToBytes_digits h
    obtain ⟨rfl, rfl⟩ := List.cons.inj hbytes
    exact ⟨c, d, rest, high, low, rfl, hc, hd, rfl, hrest⟩

theorem hexToBytes_nil {digits : JSString} (h : hexToBytes digits = .ok []) : digits = [] := by
  match digits with
  | [] => rfl
  | [_] => cases h
  | c :: d :: rest =>
    obtain ⟨_, _, _, -, -, -, hbytes⟩ := hexToBytes_digits h
    cases hbytes

theorem hexToBytes_facts {digits : JSString} {bytes : Bytes} (h : hexToBytes digits = .ok bytes) :
    digits.length = 2 * bytes.length ∧ 120 ∉ digits := by
  induction bytes generalizing digits with
  | nil =>
    rw [hexToBytes_nil h]
    exact ⟨rfl, List.not_mem_nil⟩
  | cons b bytes ih =>
    obtain ⟨c, d, rest, high, low, rfl, hc, hd, -, hrest⟩ := hexToBytes_cons h
    obtain ⟨hlength, hmark⟩ := ih hrest
    have hmarkValue : hexDigitValue 120 = none := by decide
    refine ⟨?_, fun hmem => ?_⟩
    · simp only [List.length_cons]
      omega
    · rcases List.mem_cons.mp hmem with rfl | hmem
      · rw [hmarkValue] at hc
        cases hc
      · rcases List.mem_cons.mp hmem with rfl | hmem
        · rw [hmarkValue] at hd
          cases hd
        · exact hmark hmem

theorem removeHexPrefix_eq_self {s : JSString} (h : 120 ∉ s) : removeHexPrefix s = s := by
  induction s with
  | nil => rfl
  | cons c s ih =>
    rw [removeHexPrefix, ih fun hmem => h (List.mem_cons_of_mem c hmem), if_neg]
    intro hmark
    have hmem := (List.isPrefixOf_iff_prefix.mp hmark).subset (show 120 ∈ js "0x" by decide)
    exact h hmem

theorem dropHexMark_eq_self {s : JSString} (h : 120 ∉ s) : dropHexMark s = s := by
  rw [dropHexMark, if_neg]
  intro hmark
  exact h ((List.isPrefixOf_iff_prefix.mp hmark).subset (show 120 ∈ js "0x" by decide))

/-- Text of some bytes, with or without `0x`, in any case. -/
def HexText (bytes : Bytes) (text : JSString) : Prop :=
  ∃ digits, hexToBytes digits = .ok bytes ∧ (text = digits ∨ text = js "0x" ++ digits)

theorem HexText.digits {bytes : Bytes} {text : JSString} (h : HexText bytes text) :
    ∃ digits, hexToBytes digits = .ok bytes ∧ dropHexMark text = digits ∧
      removeHexPrefix text = digits := by
  obtain ⟨digits, hdigits, rfl | rfl⟩ := h
  · have hmark := (hexToBytes_facts hdigits).2
    exact ⟨_, hdigits, dropHexMark_eq_self hmark, removeHexPrefix_eq_self hmark⟩
  · refine ⟨digits, hdigits, ?_, removeHexPrefix_append digits⟩
    rw [dropHexMark, if_pos (List.isPrefixOf_iff_prefix.mpr (List.prefix_append _ _))]
    rfl

/-! ## Public keys -/

/-- The three encodings of a public key. -/
inductive Encodes (encoding : PointEncoding Point) (P : Point) : Bytes → Prop
  | raw : Encodes encoding P (encoding.coordinates P)
  | uncompressed : Encodes encoding P (4 :: encoding.coordinates P)
  | compressed : Encodes encoding P (encoding.compress P)

/-- The address whose bytes are the last twenty of the hash. -/
def addressOf (keccak_256 : Bytes → Digest) (pubBytes : Bytes) : JSString :=
  checksummed keccak_256 (bytesToHex ((keccak_256 pubBytes).1.drop 12))

theorem hexDigitValue_facts {c : UInt16} {value : ℕ} (hc : hexDigitValue c = some value) :
    value < 16 ∧ (value = 0 → c = 48) ∧ (value = 4 → c = 52) := by
  have hall : ∀ i : Fin 128, ∀ value ∈ hexDigitValue (UInt16.ofNat i),
      value < 16 ∧ (value = 0 → UInt16.ofNat i = 48) ∧ (value = 4 → UInt16.ofNat i = 52) := by
    decide
  obtain ⟨i, rfl⟩ := exists_fin_of_isHexDigit (by rw [isHexDigit, hc]; rfl)
  exact hall i value hc

theorem isPrefixOf_of_four {digits : JSString} {bytes : Bytes}
    (h : hexToBytes digits = .ok (4 :: bytes)) :
    (js "04").isPrefixOf digits = true ∧ hexToBytes (digits.drop 2) = .ok bytes := by
  obtain ⟨c, d, rest, high, low, rfl, hc, hd, hfour, hrest⟩ := hexToBytes_cons h
  obtain ⟨hhigh, hzero, -⟩ := hexDigitValue_facts hc
  obtain ⟨hlow, -, hfourDigit⟩ := hexDigitValue_facts hd
  have hvalue : high * 16 + low = 4 := by
    have hnat := congrArg UInt8.toNat hfour
    rw [UInt8.toNat_ofNat', Nat.mod_eq_of_lt (by omega)] at hnat
    exact hnat.symm
  rw [hzero (by omega), hfourDigit (by omega)]
  exact ⟨rfl, hrest⟩

variable {encoding : PointEncoding Point} {P : Point} {bytes : Bytes} {pubKeyHex : JSString}

/-- `deriveEVMAddress` hashes the coordinates, whatever the encoding. -/
theorem deriveEVMAddress_eq (keccak_256 : Bytes → Digest) (htext : HexText bytes pubKeyHex)
    (hencodes : Encodes encoding P bytes) :
    deriveEVMAddress encoding keccak_256 pubKeyHex =
      .ok (addressOf keccak_256 (encoding.coordinates P)) := by
  obtain ⟨digits, hdigits, hdrop, -⟩ := htext.digits
  have hlength := (hexToBytes_facts hdigits).1
  have hhash : (keccak_256 (encoding.coordinates P)).1.take 32 =
      (keccak_256 (encoding.coordinates P)).1 :=
      List.take_of_length_le (keccak_256 (encoding.coordinates P)).2.le
  rw [deriveEVMAddress, hdrop]
  cases hencodes with
  | raw =>
    rw [encoding.length_coordinates] at hlength
    rw [if_pos hlength, hdigits]
    simp only [bind, Except.bind, pure, Except.pure, hhash]
    rfl
  | uncompressed =>
    rw [List.length_cons, encoding.length_coordinates] at hlength
    obtain ⟨hmark, hrest⟩ := isPrefixOf_of_four hdigits
    rw [if_neg (by omega), if_pos ⟨hlength, hmark⟩, hrest]
    simp only [bind, Except.bind, pure, Except.pure, hhash]
    rfl
  | compressed =>
    rw [encoding.length_compress] at hlength
    rw [if_neg (by omega), if_neg fun h => absurd h.1 (by omega)]
    simp only [PointEncoding.fromHex, hdigits, encoding.decode_compress, bind, Except.bind, pure,
      Except.pure]
    rw [PointEncoding.toRawBytes, if_neg (by decide), List.drop_one, List.tail_cons, hhash]
    rfl

/-- `deriveEthereumAddress` hashes what stands behind the format byte of 65 bytes, and
everything else as it is. -/
theorem deriveEthereumAddress_eq (keccak_256 : Bytes → Digest) (htext : HexText bytes pubKeyHex) :
    deriveEthereumAddress keccak_256 pubKeyHex =
      .ok (addressOf keccak_256 (if bytes.length = 65 then bytes.drop 1 else bytes)) := by
  obtain ⟨digits, hdigits, -, hremove⟩ := htext.digits
  rw [deriveEthereumAddress, hremove, hdigits]
  simp only [bind, Except.bind, pure, Except.pure, (keccak_256 _).2, addressOf]

/-! ## The derivations and the validator -/

/-- The twenty bytes of an address are the digits of 40 units. -/
theorem length_addressDigits (hash : Digest) : (bytesToHex (hash.1.drop 12)).length = 40 := by
  rw [length_bytesToHex, List.length_drop, hash.2]

theorem addressOf_accepted (platform : Platform) (keccak_256 : Bytes → Digest) (pubBytes : Bytes) :
    validateAddress (withKeccak platform keccak_256) (.string (addressOf keccak_256 pubBytes)) =
      .ok true :=
  checksummed_accepted platform keccak_256 (length_addressDigits _)
    (fun _ hc => isHexDigit_of_mem_bytesToHex hc) (map_lower_bytesToHex _)

theorem addressOf_eq_iff (keccak_256 : Bytes → Digest) (pubBytes pubBytes' : Bytes) :
    addressOf keccak_256 pubBytes = addressOf keccak_256 pubBytes' ↔
      (keccak_256 pubBytes).1.drop 12 = (keccak_256 pubBytes').1.drop 12 := by
  refine ⟨fun h => ?_, fun h => by rw [addressOf, h, addressOf]⟩
  have hlower : ∀ bs : Bytes, ∃ spelling,
      addressOf keccak_256 bs = js "0x" ++ spelling ∧
        spelling.map asciiLower = bytesToHex ((keccak_256 bs).1.drop 12) := by
    intro bs
    obtain ⟨spelling, hspelling, -, -, hmap⟩ := checksummed_spelling keccak_256
      (length_addressDigits (keccak_256 bs)) fun _ hc => isHexDigit_of_mem_bytesToHex hc
    exact ⟨spelling, hspelling, by rw [hmap, map_lower_bytesToHex]⟩
  obtain ⟨spelling, hspelling, hmap⟩ := hlower pubBytes
  obtain ⟨spelling', hspelling', hmap'⟩ := hlower pubBytes'
  rw [hspelling, hspelling', List.append_cancel_left_eq] at h
  exact bytesToHex_injective (by rw [← hmap, ← hmap', h])

/-- **EIP-55**: the validator accepts the address of every public key, and of the
spellings of any forty digits exactly the one that the derivation's loop writes. -/
theorem eip55_agree (platform : Platform) (encoding : PointEncoding Point)
    (keccak_256 : Bytes → Digest) :
    (∀ P bytes pubKeyHex, Encodes encoding P bytes → HexText bytes pubKeyHex →
      ∃ address, deriveEVMAddress encoding keccak_256 pubKeyHex = .ok address ∧
        validateAddress (withKeccak platform keccak_256) (.string address) = .ok true) ∧
    (∀ pubKeyHex address, deriveEVMAddress encoding keccak_256 pubKeyHex = .ok address →
      validateAddress (withKeccak platform keccak_256) (.string address) = .ok true) ∧
    ∀ digits : JSString, digits.length = 40 → (∀ c ∈ digits, isHexDigit c = true) →
      ∃ spelling : JSString, spelling.map asciiLower = digits.map asciiLower ∧
        js "0x" ++ spelling = checksummed keccak_256 (digits.map asciiLower) ∧
        ∀ other : JSString, other.map asciiLower = digits.map asciiLower →
          (validateAddress (withKeccak platform keccak_256) (.string (js "0x" ++ other)) =
            .ok true ↔ other = spelling) := by
  refine ⟨?_, ?_, ?_⟩
  · intro P bytes pubKeyHex hencodes htext
    exact ⟨_, deriveEVMAddress_eq keccak_256 htext hencodes,
      addressOf_accepted platform keccak_256 _⟩
  · intro pubKeyHex address haddress
    rw [deriveEVMAddress] at haddress
    obtain ⟨pubBytes, -, haddress⟩ := bind_eq_ok haddress
    dsimp only at haddress
    rw [List.take_of_length_le (keccak_256 pubBytes).2.le] at haddress
    obtain rfl := Except.ok.inj haddress
    exact addressOf_accepted platform keccak_256 pubBytes
  · intro digits hlength hdigits
    have hlower : ∀ c ∈ digits.map asciiLower, isHexDigit c = true := by
      intro c hc
      obtain ⟨c', hc', rfl⟩ := List.mem_map.mp hc
      exact (hexDigit_facts (hdigits c' hc')).2.2.1
    have htwice : (digits.map asciiLower).map asciiLower = digits.map asciiLower := by
      rw [List.map_map]
      exact List.map_congr_left fun c hc => (hexDigit_facts (hdigits c hc)).2.2.2.2
    obtain ⟨spelling, hspelling, -, -, hmap⟩ := checksummed_spelling keccak_256
      (by rw [List.length_map, hlength]) hlower
    refine ⟨spelling, hmap.trans htwice, hspelling.symm, fun other hother => ?_⟩
    rw [spelling_accepted_iff platform keccak_256 hlength hdigits hother, hspelling,
      List.append_cancel_left_eq]

/-- The coordinates of the base point of secp256k1. -/
def baseCoordinates : Bytes :=
  [0x79, 0xbe, 0x66, 0x7e, 0xf9, 0xdc, 0xbb, 0xac, 0x55, 0xa0, 0x62, 0x95, 0xce, 0x87, 0x0b, 0x07,
    0x02, 0x9b, 0xfc, 0xdb, 0x2d, 0xce, 0x28, 0xd9, 0x59, 0xf2, 0x81, 0x5b, 0x16, 0xf8, 0x17, 0x98,
    0x48, 0x3a, 0xda, 0x77, 0x26, 0xa3, 0xc4, 0x65, 0x5d, 0xa4, 0xfb, 0xfc, 0x0e, 0x11, 0x08, 0xa8,
    0xfd, 0x17, 0xb4, 0x48, 0xa6, 0x85, 0x54, 0x19, 0x9c, 0x47, 0xd0, 0x8f, 0xfb, 0x10, 0xd4, 0xb8]

/-- The base point alone, whose second coordinate is even. -/
def baseEncoding : PointEncoding Unit where
  decode bytes :=
    if bytes = 4 :: baseCoordinates ∨ bytes = 2 :: baseCoordinates.take 32 then some () else none
  coordinates _ := baseCoordinates
  compress _ := 2 :: baseCoordinates.take 32
  length_coordinates _ := rfl
  length_compress _ := rfl
  decode_coordinates _ := if_pos (Or.inl rfl)
  decode_compress _ := if_pos (Or.inr rfl)

theorem hexText_bytesToHex (bytes : Bytes) : HexText bytes (bytesToHex bytes) :=
  ⟨_, hexToBytes_bytesToHex bytes, Or.inl rfl⟩

/-- The base point, compressed, and an address of forty letters. -/
theorem eip55_agree_base :
    (∃ address, deriveEVMAddress baseEncoding (fun _ => zeroDigest)
        (bytesToHex (2 :: baseCoordinates.take 32)) = .ok address ∧
      validateAddress (withKeccak asciiPlatform fun _ => zeroDigest) (.string address) =
        .ok true) ∧
      ∃ spelling : JSString,
        spelling.map asciiLower = (List.replicate 40 65).map asciiLower ∧
        js "0x" ++ spelling =
          checksummed (fun _ => zeroDigest) ((List.replicate 40 65).map asciiLower) ∧
        ∀ other : JSString, other.map asciiLower = (List.replicate 40 65).map asciiLower →
          (validateAddress (withKeccak asciiPlatform fun _ => zeroDigest)
            (.string (js "0x" ++ other)) = .ok true ↔ other = spelling) :=
  ⟨(eip55_agree asciiPlatform baseEncoding fun _ => zeroDigest).1 () _ _ .compressed
      (hexText_bytesToHex _),
    (eip55_agree asciiPlatform baseEncoding fun _ => zeroDigest).2.2 _ List.length_replicate
      fun c hc => by rw [List.eq_of_mem_replicate hc]; decide⟩

/-- For one hash function, the derivations agree on a compressed public key where its
bytes and its coordinates have hashes with the same last twenty bytes. -/
theorem derive_agree_of_keccak (keccak_256 : Bytes → Digest) (htext : HexText bytes pubKeyHex)
    (hencodes : Encodes encoding P bytes) :
    deriveEthereumAddress keccak_256 pubKeyHex = deriveEVMAddress encoding keccak_256 pubKeyHex ↔
      (bytes.length = 33 → (keccak_256 bytes).1.drop 12 =
        (keccak_256 (encoding.coordinates P)).1.drop 12) := by
  rw [deriveEthereumAddress_eq keccak_256 htext, deriveEVMAddress_eq keccak_256 htext hencodes,
    Except.ok.injEq, addressOf_eq_iff]
  cases hencodes with
  | raw =>
    rw [if_neg (by rw [encoding.length_coordinates]; decide)]
    exact ⟨fun h _ => h, fun _ => rfl⟩
  | uncompressed =>
    rw [if_pos (by rw [List.length_cons, encoding.length_coordinates]), List.drop_one,
      List.tail_cons, List.length_cons, encoding.length_coordinates]
    exact ⟨fun _ h => absurd h (by decide), fun _ => rfl⟩
  | compressed =>
    rw [encoding.length_compress, if_neg (by decide)]
    exact ⟨fun h _ => h, fun h => h rfl⟩

/-- **One address per key**: for a text of a public key, the two derivations give the
address of its coordinates under every hash function, exactly when the text is not that
of the compressed key. -/
theorem derive_agree_iff (htext : HexText bytes pubKeyHex) (hencodes : Encodes encoding P bytes) :
    (∀ keccak_256 : Bytes → Digest,
      deriveEthereumAddress keccak_256 pubKeyHex =
          deriveEVMAddress encoding keccak_256 pubKeyHex ∧
        deriveEVMAddress encoding keccak_256 pubKeyHex =
          .ok (addressOf keccak_256 (encoding.coordinates P))) ↔
      bytes.length ≠ 33 := by
  constructor
  · intro hagree hlength
    have hcollide := (derive_agree_of_keccak (fun bs => if bs.length = 33 then oneDigest
      else zeroDigest) htext hencodes).mp (hagree _).1 hlength
    rw [if_pos hlength, if_neg (by rw [encoding.length_coordinates]; decide)] at hcollide
    exact absurd hcollide (by decide)
  · intro hlength keccak_256
    exact ⟨(derive_agree_of_keccak keccak_256 htext hencodes).mpr fun h => absurd h hlength,
      deriveEVMAddress_eq keccak_256 htext hencodes⟩

/-- The base point, uncompressed. -/
theorem derive_agree_iff_base :
    (∀ keccak_256 : Bytes → Digest,
      deriveEthereumAddress keccak_256 (bytesToHex (4 :: baseCoordinates)) =
          deriveEVMAddress baseEncoding keccak_256 (bytesToHex (4 :: baseCoordinates)) ∧
        deriveEVMAddress baseEncoding keccak_256 (bytesToHex (4 :: baseCoordinates)) =
          .ok (addressOf keccak_256 baseCoordinates)) ↔
      (4 :: baseCoordinates).length ≠ 33 :=
  have hencodes : Encodes baseEncoding () (4 :: baseCoordinates) := .uncompressed
  derive_agree_iff (hexText_bytesToHex _) hencodes

/-- The base point, compressed, under a hash function that tells lengths apart. -/
theorem compressed_addresses_differ :
    deriveEthereumAddress (fun bs => if bs.length = 33 then oneDigest else zeroDigest)
        (bytesToHex (2 :: baseCoordinates.take 32)) ≠
      deriveEVMAddress baseEncoding (fun bs => if bs.length = 33 then oneDigest else zeroDigest)
        (bytesToHex (2 :: baseCoordinates.take 32)) := by
  have hcompressed : Encodes baseEncoding () (2 :: baseCoordinates.take 32) := .compressed
  rw [Ne, derive_agree_of_keccak _ (hexText_bytesToHex _) hcompressed]
  decide

end BioFire.AddressDerivation
