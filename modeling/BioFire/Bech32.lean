import BioFire.JSString

/-!
# Bech32 (`src/lib/crypto/address_derivation.ts`)

`encodeBech32` and what it computes with: 32-bit integers, on which `<<`, `>>` and
`^` act.

* `foldl_polymodStep_xor`: the polymod loop is linear;
* `polymod_checksum`: six digits that make any state end in 1;
* `encodeBech32_valid`: the checksum of an address is valid.
-/

namespace BioFire.AddressDerivation

/-! ## 32-bit integers -/

/-- `x << n`: the count is taken modulo 32. -/
def shiftLeft (x : BitVec 32) (n : ℕ) : BitVec 32 := x <<< (n % 32)

/-- `x >> n`, with the sign. -/
def shiftRight (x : BitVec 32) (n : ℕ) : BitVec 32 := x.sshiftRight (n % 32)

/-! ## Regrouping bits -/

/-- `while (bits >= toBits)`: the groups that leave the accumulator, and the bits
left in it. A round takes a bit at least, so that `bits` rounds are enough. -/
def takeGroups (acc : BitVec 32) (toBits : ℕ) (maxv : BitVec 32) : ℕ → ℕ → List ℕ × ℕ
  | 0, bits => ([], bits)
  | rounds + 1, bits =>
    if toBits ≤ bits then
      let rest := takeGroups acc toBits maxv rounds (bits - toBits)
      ((shiftRight acc (bits - toBits) &&& maxv).toNat :: rest.1, rest.2)
    else ([], bits)

/-- The loop over the bytes; `none` where the source returns early. -/
def convertLoop (fromBits toBits : ℕ) (pad : Bool) (maxv : BitVec 32) :
    Bytes → BitVec 32 → ℕ → Option (List ℕ)
  | [], acc, bits =>
    if pad ∧ 0 < bits then some [(shiftLeft acc (toBits - bits) &&& maxv).toNat] else some []
  | b :: data, acc, bits =>
    let value := BitVec.ofNat 32 b.toNat
    if shiftRight value fromBits ≠ 0 then none
    else
      let acc := shiftLeft acc fromBits ||| value
      let groups := takeGroups acc toBits maxv (bits + fromBits) (bits + fromBits)
      (convertLoop fromBits toBits pad maxv data acc groups.2).map (groups.1 ++ ·)

def convertBits (data : Bytes) (fromBits toBits : ℕ) (pad : Bool) : List ℕ :=
  let maxv := shiftLeft 1 toBits - 1
  (convertLoop fromBits toBits pad maxv data 0 0).getD []

/-! ## The code -/

def BECH32_CHARSET : JSString := js "qpzry9x8gf2tvdw0s3jn54khce6mua7l"

def BECH32_GEN : List (BitVec 32) := [0x3b6a57b2, 0x26508e6d, 0x1ea119fa, 0x3d4233dd, 0x2a1462b3]

/-- `for (let i = 0; i < 5; i++) if ((b >> i) & 1) chk ^= BECH32_GEN[i]` -/
def xorGenerators (b chk : BitVec 32) (generators : List (BitVec 32 × ℕ)) : BitVec 32 :=
  generators.foldl (fun chk gen =>
    if shiftRight b gen.2 &&& 1 ≠ 0 then chk ^^^ gen.1 else chk) chk

def polymodStep (chk : BitVec 32) (p : ℕ) : BitVec 32 :=
  let b := shiftRight chk 25
  xorGenerators b (shiftLeft (chk &&& 0x1ffffff) 5 ^^^ BitVec.ofNat 32 p) BECH32_GEN.zipIdx

def bech32Polymod (values : List ℕ) : BitVec 32 := values.foldl polymodStep 1

def hrpExpand (hrp : JSString) : List ℕ :=
  hrp.map (fun c => c.toNat >>> 5) ++ [0] ++ hrp.map (fun c => c.toNat &&& 31)

/-- The six digits of `mod`. -/
def checksumOf (mod : BitVec 32) : List ℕ :=
  (List.range 6).map fun p => (shiftRight mod (5 * (5 - p)) &&& 31).toNat

def encodeBech32 (hrp : JSString) (witnessVersion : ℕ) (witnessProgram : Bytes) : JSString :=
  let data5bit := convertBits witnessProgram 8 5 true
  let combined := witnessVersion :: data5bit
  let checksumInput := hrpExpand hrp ++ combined ++ [0, 0, 0, 0, 0, 0]
  let mod := bech32Polymod checksumInput ^^^ 1
  let checksum := checksumOf mod
  hrp ++ js "1" ++ (combined ++ checksum).flatMap (charAt BECH32_CHARSET)

/-! ## The loop is linear -/

theorem shiftRight_xor (x y : BitVec 32) (n : ℕ) :
    shiftRight (x ^^^ y) n = shiftRight x n ^^^ shiftRight y n :=
  BitVec.sshiftRight_xor_distrib x y _

theorem shiftLeft_xor (x y : BitVec 32) (n : ℕ) :
    shiftLeft (x ^^^ y) n = shiftLeft x n ^^^ shiftLeft y n :=
  BitVec.shiftLeft_xor_distrib x y _

theorem and_xor (x y m : BitVec 32) : (x ^^^ y) &&& m = (x &&& m) ^^^ (y &&& m) := by
  apply BitVec.eq_of_getLsbD_eq
  intro i hi
  simp only [BitVec.getLsbD_and, BitVec.getLsbD_xor, Bool.and_xor_distrib_right]

theorem bit_ne_zero_iff (x : BitVec 32) : x &&& 1 ≠ 0 ↔ x.getLsbD 0 = true := by
  have hbit : x &&& 1 = BitVec.setWidth 32 (BitVec.ofBool (x.getLsbD 0)) :=
    BitVec.and_one_eq_setWidth_ofBool_getLsbD
  rw [hbit]
  cases x.getLsbD 0 <;> decide

/-- A generator enters for one of two summands, for both or for neither. -/
theorem xorGenerators_xor (b b' chk chk' : BitVec 32) (generators : List (BitVec 32 × ℕ)) :
    xorGenerators (b ^^^ b') (chk ^^^ chk') generators =
      xorGenerators b chk generators ^^^ xorGenerators b' chk' generators := by
  induction generators generalizing chk chk' with
  | nil => rfl
  | cons gen generators ih =>
    have hgen : (if shiftRight (b ^^^ b') gen.2 &&& 1 ≠ 0 then chk ^^^ chk' ^^^ gen.1
          else chk ^^^ chk') =
        (if shiftRight b gen.2 &&& 1 ≠ 0 then chk ^^^ gen.1 else chk) ^^^
          (if shiftRight b' gen.2 &&& 1 ≠ 0 then chk' ^^^ gen.1 else chk') := by
      simp only [bit_ne_zero_iff, shiftRight_xor, BitVec.getLsbD_xor]
      cases (shiftRight b gen.2).getLsbD 0 <;> cases (shiftRight b' gen.2).getLsbD 0
      · rfl
      · simp only [Bool.false_xor, ↓reduceIte, Bool.false_eq_true, BitVec.xor_assoc]
      · simp only [Bool.xor_false, ↓reduceIte, Bool.false_eq_true, BitVec.xor_assoc,
          BitVec.xor_comm chk' gen.1]
      · simp only [Bool.xor_self, ↓reduceIte, Bool.false_eq_true]
        rw [BitVec.xor_assoc, BitVec.xor_comm gen.1, BitVec.xor_assoc, BitVec.xor_self,
          BitVec.xor_zero]
    rw [xorGenerators, List.foldl_cons, hgen]
    exact ih _ _

theorem polymodStep_xor (x y : BitVec 32) (p : ℕ) :
    polymodStep (x ^^^ y) p = polymodStep x 0 ^^^ polymodStep y p := by
  rw [polymodStep, polymodStep, polymodStep, ← xorGenerators_xor, shiftRight_xor, and_xor,
    shiftLeft_xor]
  congr 1
  rw [BitVec.ofNat_eq_ofNat, BitVec.xor_zero, BitVec.xor_assoc]

/-- **The loop is linear**: a summand of the state passes through zeros. -/
theorem foldl_polymodStep_xor (x y : BitVec 32) (values : List ℕ) :
    values.foldl polymodStep (x ^^^ y) =
      (values.map fun _ => 0).foldl polymodStep x ^^^ values.foldl polymodStep y := by
  induction values generalizing x y with
  | nil => rfl
  | cons p values ih => rw [List.foldl_cons, polymodStep_xor, ih]; rfl

/-! ## The checksum -/

theorem xorGenerators_zero (chk : BitVec 32) (generators : List (BitVec 32 × ℕ)) :
    xorGenerators 0 chk generators = chk := by
  induction generators generalizing chk with
  | nil => rfl
  | cons gen generators ih =>
    have hzero : shiftRight 0 gen.2 &&& 1 = 0 := by
      rw [shiftRight, BitVec.ofNat_eq_ofNat, BitVec.zero_sshiftRight, BitVec.zero_and]
    rw [xorGenerators, List.foldl_cons, if_neg (not_not.mpr hzero)]
    exact ih chk

theorem shiftRight_ofNat {m : ℕ} (hm : m < 2 ^ 31) (n : ℕ) :
    (shiftRight (BitVec.ofNat 32 m) n).toNat = m / 2 ^ (n % 32) := by
  have htoNat : (BitVec.ofNat 32 m).toNat = m := by
    rw [BitVec.toNat_ofNat, Nat.mod_eq_of_lt (by omega)]
  have hmsb : (BitVec.ofNat 32 m).msb = false := by
    rw [BitVec.msb_eq_false_iff_two_mul_lt, htoNat]
    omega
  rw [shiftRight, BitVec.toNat_sshiftRight_of_msb_false hmsb, htoNat, Nat.shiftRight_eq_div_pow]

theorem mul_xor_eq_add {t p : ℕ} (hp : p < 32) : (t * 32) ^^^ p = t * 32 + p := by
  apply Nat.eq_of_testBit_eq
  intro i
  rw [Nat.testBit_xor, mul_comm t, show (32 : ℕ) = 2 ^ 5 from rfl,
    Nat.testBit_two_pow_mul_add t hp, Nat.testBit_two_pow_mul]
  split
  next h => rw [decide_eq_false (by omega), Bool.false_and, Bool.false_xor]
  next h =>
    have hhigh : p.testBit i = false :=
      Nat.testBit_lt_two_pow
        (hp.trans_le (Nat.pow_le_pow_right (n := 2) (by decide) (not_lt.mp h)))
    rw [hhigh, Bool.xor_false, decide_eq_true (not_lt.mp h), Bool.true_and]

/-- Below 25 bits no generator enters, and the loop shifts a digit in. -/
theorem polymodStep_ofNat {t p : ℕ} (ht : t < 2 ^ 25) (hp : p < 32) :
    polymodStep (BitVec.ofNat 32 t) p = BitVec.ofNat 32 (t * 32 + p) := by
  have hb : shiftRight (BitVec.ofNat 32 t) 25 = 0 := by
    apply BitVec.eq_of_toNat_eq
    rw [shiftRight_ofNat (by omega), Nat.div_eq_of_lt ht]
    rfl
  have hmask : BitVec.ofNat 32 t &&& 0x1ffffff = BitVec.ofNat 32 t := by
    apply BitVec.eq_of_toNat_eq
    rw [BitVec.toNat_and, BitVec.toNat_ofNat, Nat.mod_eq_of_lt (by omega)]
    exact (Nat.and_two_pow_sub_one_eq_mod t 25).trans (Nat.mod_eq_of_lt ht)
  have hshift : shiftLeft (BitVec.ofNat 32 t) 5 = BitVec.ofNat 32 (t * 32) := by
    apply BitVec.eq_of_toNat_eq
    rw [shiftLeft, BitVec.toNat_shiftLeft, BitVec.toNat_ofNat, BitVec.toNat_ofNat,
      Nat.shiftLeft_eq, Nat.mod_eq_of_lt (show t < 2 ^ 32 by omega)]
  rw [polymodStep, hb, xorGenerators_zero, hmask, hshift, ← BitVec.ofNat_xor, mul_xor_eq_add hp]

theorem foldl_polymodStep_ofNat {digits : List ℕ} (hdigits : ∀ p ∈ digits, p < 32) {t : ℕ}
    (ht : (t + 1) * 32 ^ digits.length ≤ 2 ^ 30) :
    digits.foldl polymodStep (BitVec.ofNat 32 t) =
      BitVec.ofNat 32 (digits.foldl (fun t p => t * 32 + p) t) := by
  induction digits generalizing t with
  | nil => rfl
  | cons p digits ih =>
    have hp := hdigits p List.mem_cons_self
    have hpow : 0 < 32 ^ digits.length := Nat.pow_pos (by omega)
    rw [List.length_cons, Nat.pow_succ] at ht
    have hsmall : t < 2 ^ 25 := by nlinarith
    rw [List.foldl_cons, List.foldl_cons, polymodStep_ofNat hsmall hp]
    refine ih (fun p' hp' => hdigits p' (List.mem_cons_of_mem p hp')) ?_
    nlinarith

theorem xorGenerators_lt {generators : List (BitVec 32 × ℕ)} (b : BitVec 32)
    (hgenerators : ∀ gen ∈ generators, gen.1.toNat < 2 ^ 30) {chk : BitVec 32}
    (hchk : chk.toNat < 2 ^ 30) : (xorGenerators b chk generators).toNat < 2 ^ 30 := by
  induction generators generalizing chk with
  | nil => exact hchk
  | cons gen generators ih =>
    have hgen := hgenerators gen List.mem_cons_self
    rw [xorGenerators, List.foldl_cons]
    refine ih (fun gen' h' => hgenerators gen' (List.mem_cons_of_mem gen h')) ?_
    split
    · rw [BitVec.toNat_xor]
      exact Nat.xor_lt_two_pow hchk hgen
    · exact hchk

theorem polymodStep_zero_lt (chk : BitVec 32) : (polymodStep chk 0).toNat < 2 ^ 30 := by
  rw [polymodStep]
  refine xorGenerators_lt _ (by decide) ?_
  have hmask : (chk &&& 0x1ffffff).toNat < 2 ^ 25 := by
    rw [BitVec.toNat_and]
    exact Nat.and_lt_two_pow _ (by decide)
  rw [BitVec.ofNat_eq_ofNat, BitVec.xor_zero, shiftLeft, BitVec.toNat_shiftLeft, Nat.shiftLeft_eq]
  change (chk &&& 0x1ffffff).toNat * 2 ^ 5 % 2 ^ 32 < 2 ^ 30
  omega

/-- The six digits, read as a number, are the number they come from. -/
theorem foldl_checksumOf {m : ℕ} (hm : m < 2 ^ 30) :
    (checksumOf (BitVec.ofNat 32 m)).foldl (fun t p => t * 32 + p) 0 = m := by
  have hdigit : ∀ n, (shiftRight (BitVec.ofNat 32 m) n &&& 31).toNat = m / 2 ^ (n % 32) % 32 := by
    intro n
    rw [BitVec.toNat_and, shiftRight_ofNat (by omega)]
    exact Nat.and_two_pow_sub_one_eq_mod _ 5
  simp only [checksumOf, hdigit, List.range, List.range.loop, List.map_cons, List.map_nil,
    List.foldl_cons, List.foldl_nil, Nat.reduceSub, Nat.reduceMul, Nat.reduceMod]
  omega

theorem lt_of_mem_checksumOf {mod : BitVec 32} {p : ℕ} (hp : p ∈ checksumOf mod) : p < 32 := by
  obtain ⟨i, -, rfl⟩ := List.mem_map.mp hp
  rw [BitVec.toNat_and]
  exact Nat.and_lt_two_pow (n := 5) _ (by decide)

theorem length_checksumOf (mod : BitVec 32) : (checksumOf mod).length = 6 := rfl

/-- **The checksum**: from any state, the digits of what six zeros would lead to,
changed in the last bit, lead to 1. -/
theorem polymod_checksum (chk : BitVec 32) :
    (checksumOf ([0, 0, 0, 0, 0, 0].foldl polymodStep chk ^^^ 1)).foldl polymodStep chk = 1 := by
  generalize hmod : [0, 0, 0, 0, 0, 0].foldl polymodStep chk ^^^ 1 = mod
  have hsmall : mod.toNat < 2 ^ 30 := by
    rw [← hmod, BitVec.toNat_xor]
    exact Nat.xor_lt_two_pow (polymodStep_zero_lt _) (by decide)
  have hdigits : (checksumOf mod).foldl polymodStep (BitVec.ofNat 32 0) = mod := by
    have hpow : (0 + 1) * 32 ^ (checksumOf mod).length ≤ 2 ^ 30 := by
      rw [length_checksumOf]
      decide
    rw [foldl_polymodStep_ofNat (fun p hp => lt_of_mem_checksumOf hp) hpow]
    have hfold := foldl_checksumOf hsmall
    rw [BitVec.ofNat_toNat, BitVec.setWidth_eq] at hfold
    rw [hfold, BitVec.ofNat_toNat, BitVec.setWidth_eq]
  have hzeros : (checksumOf mod).map (fun _ => 0) = [0, 0, 0, 0, 0, 0] := rfl
  have hlinear := foldl_polymodStep_xor chk (BitVec.ofNat 32 0) (checksumOf mod)
  rw [BitVec.xor_zero] at hlinear
  rw [hlinear, hzeros, hdigits, ← hmod, ← BitVec.xor_assoc, BitVec.xor_self, BitVec.zero_xor]

/-! ## Addresses -/

/-- The values of the data part, mapped back through the charset; 32 for a unit that
is not in it. -/
def dataValues (hrp address : JSString) : List ℕ :=
  (address.drop (hrp.length + 1)).map fun c => BECH32_CHARSET.idxOf c

theorem map_idxOf_charAt {p : ℕ} (hp : p < 32) :
    (charAt BECH32_CHARSET p).map (fun c => BECH32_CHARSET.idxOf c) = [p] := by
  have hall : ∀ i : Fin 32,
      (charAt BECH32_CHARSET i).map (fun c => BECH32_CHARSET.idxOf c) = [i.1] := by
    decide
  exact hall ⟨p, hp⟩

theorem map_idxOf_flatMap {values : List ℕ} (h : ∀ v ∈ values, v < 32) :
    (values.flatMap (charAt BECH32_CHARSET)).map (fun c => BECH32_CHARSET.idxOf c) = values := by
  induction values with
  | nil => rfl
  | cons v values ih =>
    rw [List.flatMap_cons, List.map_append, map_idxOf_charAt (h v List.mem_cons_self),
      ih fun v' hv' => h v' (List.mem_cons_of_mem v hv'), List.singleton_append]

theorem toNat_and_lt (x : BitVec 32) : (x &&& (shiftLeft 1 5 - 1)).toNat < 32 := by
  rw [BitVec.toNat_and]
  exact Nat.and_lt_two_pow (n := 5) _ (by decide)

theorem lt_of_mem_takeGroups {acc : BitVec 32} {rounds bits v : ℕ}
    (hv : v ∈ (takeGroups acc 5 (shiftLeft 1 5 - 1) rounds bits).1) : v < 32 := by
  induction rounds generalizing bits with
  | zero => cases hv
  | succ rounds ih =>
    rw [takeGroups] at hv
    split at hv
    · rcases List.mem_cons.mp hv with rfl | hv
      · exact toNat_and_lt _
      · exact ih hv
    · cases hv

theorem lt_of_mem_convertLoop {data : Bytes} {acc : BitVec 32} {bits v : ℕ} {result : List ℕ}
    (hresult : convertLoop 8 5 true (shiftLeft 1 5 - 1) data acc bits = some result)
    (hv : v ∈ result) : v < 32 := by
  induction data generalizing acc bits result with
  | nil =>
    rw [convertLoop] at hresult
    split at hresult
    · obtain rfl := Option.some.inj hresult
      rw [List.mem_singleton] at hv
      rw [hv]
      exact toNat_and_lt _
    · obtain rfl := Option.some.inj hresult
      cases hv
  | cons b data ih =>
    rw [convertLoop] at hresult
    split at hresult
    · cases hresult
    · obtain ⟨rest, hrest, rfl⟩ := Option.map_eq_some_iff.mp hresult
      rcases List.mem_append.mp hv with hv | hv
      · exact lt_of_mem_takeGroups hv
      · exact ih hrest hv

theorem lt_of_mem_convertBits {witnessProgram : Bytes} {v : ℕ}
    (hv : v ∈ convertBits witnessProgram 8 5 true) : v < 32 := by
  rw [convertBits] at hv
  cases hloop : convertLoop 8 5 true (shiftLeft 1 5 - 1) witnessProgram 0 0 with
  | none =>
    rw [hloop] at hv
    cases hv
  | some result =>
    rw [hloop] at hv
    exact lt_of_mem_convertLoop hloop hv

/-- **A Bech32 address has a valid checksum**: behind the prefix and the `1` stand the
version, the program in groups of five bits and six more values, all below 32, and
the polymod of the whole is 1. -/
theorem encodeBech32_valid (hrp : JSString) {witnessVersion : ℕ} (hversion : witnessVersion < 32)
    (witnessProgram : Bytes) :
    let address := encodeBech32 hrp witnessVersion witnessProgram
    ∃ checksum : List ℕ, checksum.length = 6 ∧
      address.take (hrp.length + 1) = hrp ++ js "1" ∧
      dataValues hrp address =
        witnessVersion :: convertBits witnessProgram 8 5 true ++ checksum ∧
      (∀ v ∈ dataValues hrp address, v < 32) ∧
      bech32Polymod (hrpExpand hrp ++ dataValues hrp address) = 1 := by
  intro address
  let combined := witnessVersion :: convertBits witnessProgram 8 5 true
  let chk := (hrpExpand hrp ++ combined).foldl polymodStep 1
  let checksum := checksumOf ([0, 0, 0, 0, 0, 0].foldl polymodStep chk ^^^ 1)
  have haddress : address =
      hrp ++ js "1" ++ (combined ++ checksum).flatMap (charAt BECH32_CHARSET) := by
    have hmod : bech32Polymod (hrpExpand hrp ++ combined ++ [0, 0, 0, 0, 0, 0]) =
        [0, 0, 0, 0, 0, 0].foldl polymodStep chk := List.foldl_append
    change hrp ++ js "1" ++ (combined ++ checksumOf (bech32Polymod
      (hrpExpand hrp ++ combined ++ [0, 0, 0, 0, 0, 0]) ^^^ 1)).flatMap (charAt BECH32_CHARSET) = _
    rw [hmod]
  have hlength : (hrp ++ js "1").length = hrp.length + 1 := List.length_append
  have hsmall : ∀ v ∈ combined ++ checksum, v < 32 := by
    intro v hv
    rcases List.mem_append.mp hv with hv | hv
    · rcases List.mem_cons.mp hv with rfl | hv
      · exact hversion
      · exact lt_of_mem_convertBits hv
    · exact lt_of_mem_checksumOf hv
  have hvalues : dataValues hrp address = combined ++ checksum := by
    rw [dataValues, haddress, List.drop_left' hlength, map_idxOf_flatMap hsmall]
  refine ⟨checksum, length_checksumOf _, ?_, hvalues, hvalues ▸ hsmall, ?_⟩
  · rw [haddress, List.take_left' hlength]
  · rw [hvalues, ← List.append_assoc, bech32Polymod, List.foldl_append]
    exact polymod_checksum chk

/-- The program of twenty bytes that a public key hashes to. -/
theorem encodeBech32_valid_twenty :
    let address := encodeBech32 (js "bc") 0 (List.replicate 20 7)
    ∃ checksum : List ℕ, checksum.length = 6 ∧
      address.take 3 = js "bc1" ∧
      dataValues (js "bc") address = 0 :: convertBits (List.replicate 20 7) 8 5 true ++ checksum ∧
      (∀ v ∈ dataValues (js "bc") address, v < 32) ∧
      bech32Polymod (hrpExpand (js "bc") ++ dataValues (js "bc") address) = 1 :=
  encodeBech32_valid (js "bc") (by decide) (List.replicate 20 7)

end BioFire.AddressDerivation
