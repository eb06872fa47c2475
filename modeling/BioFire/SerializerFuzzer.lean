import BioFire.InsertionMap
import BioFire.PackUnpack
import Mathlib.Algebra.Order.Floor.Semiring
import Mathlib.Data.Rat.Floor
import Mathlib.Tactic.IntervalCases

/-!
# The fuzzer of the wire format (`src/lib/chaos/serializer_fuzzer.ts`)

`BinarySerializerFuzzer` with its eight strategies. Every payload that a strategy makes was packed
before it is corrupted, and what `pack` makes is never unpacked.

* `strategies_rejected`: what `unpack` says of the payloads of each strategy;
* `campaign_report`: the report of a campaign, whatever is drawn and however long a test takes.
-/

namespace BioFire.Chaos

open BinarySerializer

/-! ## The code -/

/-- `Math.random()` -/
abbrev Random := { x : ℚ // 0 ≤ x ∧ x < 1 }

structure Coverage where
  validMagic : Bool
  validVersion : Bool
  validLength : Bool
  validType : Bool
  validFields : Bool
  validCrc : Bool
  deriving DecidableEq

structure FuzzResult where
  totalTests : ℕ
  crashes : ℕ
  hangs : ℕ
  uniqueBugs : InsertionMap JSString ℕ
  coverage : Coverage

def noCoverage : Coverage := ⟨false, false, false, false, false, false⟩

def emptyResult : FuzzResult := ⟨0, 0, 0, .empty, noCoverage⟩

def MAX_TESTS : ℕ := 100000
def TIMEOUT_MS : ℚ := 1000

/-- What one test draws, and the time that `unpack` takes for it. -/
structure TestDraw where
  random : Random
  elapsed : ℚ

section

variable (sha256 : Bytes → Digest)

def validData : JSRecord :=
  [(js "id", .string (js "test-123")), (js "count", .number (.finite 42)),
    (js "active", .bool true), (js "data", .bytes [1, 2, 3, 4]),
    (js "nested", .map [(js "key", .string (js "value")), (js "num", .bigint 100)])]

def generateValidPayload : Except JSError Bytes := do
  return (← pack sha256 (js "FUZZ_TEST") validData).bytes

def fuzzMagicBytes : Except JSError Bytes := do
  let base ← generateValidPayload sha256
  return (((base.set 0 0xDE).set 1 0xAD).set 2 0xBE).set 3 0xEF

def fuzzVersionByte : Except JSError Bytes := do
  let base ← generateValidPayload sha256
  return base.set 4 0xFF

def fuzzLengthFields : Except JSError Bytes := do
  let base ← generateValidPayload sha256
  return (((base.set 5 0xFF).set 6 0xFF).set 7 0xFF).set 8 0xFF

/-- The first byte behind the header that is a field type is replaced. -/
def fuzzFieldTypes : Except JSError Bytes := do
  let base ← generateValidPayload sha256
  let isType := fun i => (base[i]?.map fun b => decide (0x01 ≤ b ∧ b ≤ 0x0A)).getD false
  match (List.range' 10 (base.length - 4 - 10)).find? isType with
  | none => return base
  | some i => return base.set i 0xFF

/-- The objects from level `i` on, `depth` of them below. -/
def nestedLevels (i : ℕ) : ℕ → JSValue
  | 0 => .map [(js "value", .number (.finite i))]
  | depth + 1 =>
    .map [(js "value", .number (.finite i)), (js "nested", nestedLevels (i + 1) depth)]

/-- The `try` of `fuzzNestedDepth`. -/
def packNested (nested : JSRecord) : Except JSError Bytes :=
  match pack sha256 (js "DEEP_NEST") nested with
  | .ok serialized => .ok serialized.bytes
  | .error _ => generateValidPayload sha256

def fuzzNestedDepth : Except JSError Bytes :=
  packNested sha256 [(js "value", .number (.finite 1)), (js "nested", nestedLevels 0 999)]

/-- The product is exact here; in double precision a draw just below a multiple of
`1 / base.length` may cut one byte later. -/
def fuzzTruncation (random : Random) : Except JSError Bytes := do
  let base ← generateValidPayload sha256
  let truncateAt := ⌊random.1 * base.length⌋₊
  return base.take (max 10 truncateAt)

def fuzzCrcCorruption : Except JSError Bytes := do
  let base ← generateValidPayload sha256
  let len := base.length
  return (base.modify (len - 1) (· ^^^ 0xFF)).modify (len - 2) (· ^^^ 0xFF)

def strategies : List (Random → Except JSError Bytes) :=
  [fun _ => fuzzMagicBytes sha256, fun _ => fuzzVersionByte sha256,
    fun _ => fuzzLengthFields sha256, fun _ => fuzzFieldTypes sha256,
    fun _ => fuzzNestedDepth sha256, fuzzTruncation sha256, fun _ => fuzzCrcCorruption sha256,
    fun _ => generateValidPayload sha256]

def updateCoverage (coverage : Coverage) (payload : Bytes) : Coverage :=
  { coverage with
    validMagic := coverage.validMagic || payload.take 4 = MAGIC
    validVersion := coverage.validVersion || payload[4]? = some 0x01 }

/-- `err.message.split(':')[0]` -/
def bugKey (message : JSString) : JSString := message.takeWhile (· ≠ 58)

/-- One round of the loop of `runStrategy`. -/
def runTest (fuel : ℕ) (strategy : Random → Except JSError Bytes) (draw : TestDraw)
    (results : FuzzResult) : Outcome JSError FuzzResult :=
  let results := { results with totalTests := results.totalTests + 1 }
  (Outcome.ofExcept (strategy draw.random)).bind fun payload =>
    match unpack sha256 fuel payload with
    | .running => .running
    | .returns _ => .returns { results with coverage := updateCoverage results.coverage payload }
    | .throws err =>
      if TIMEOUT_MS < draw.elapsed then .returns { results with hangs := results.hangs + 1 }
      else if err.name = .SerializationError then
        let key := bugKey err.message
        .returns { results with
          uniqueBugs := results.uniqueBugs.set key ((results.uniqueBugs.get key).getD 0 + 1) }
      else .returns { results with crashes := results.crashes + 1 }

/-- `runStrategy`, one round for each draw. -/
def runStrategy (fuel : ℕ) (strategy : Random → Except JSError Bytes) :
    List TestDraw → FuzzResult → Outcome JSError FuzzResult
  | [], results => .returns results
  | draw :: draws, results =>
    (runTest sha256 fuel strategy draw results).bind (runStrategy fuel strategy draws)

/-- The loop of `runCampaign` over the strategies that are left, from the one at `i` on. -/
def runStrategies (fuel : ℕ) (draws : ℕ → ℕ → TestDraw) :
    ℕ → List (Random → Except JSError Bytes) → FuzzResult → Outcome JSError FuzzResult
  | _, [], results => .returns results
  | i, strategy :: rest, results =>
    (runStrategy sha256 fuel strategy ((List.range (MAX_TESTS / 8)).map (draws i)) results).bind
      (runStrategies fuel draws (i + 1) rest)

/-- `runCampaign`, with the draws of each test of each strategy. -/
def runCampaign (fuel : ℕ) (draws : ℕ → ℕ → TestDraw) : Outcome JSError FuzzResult :=
  runStrategies sha256 fuel draws 0 (strategies sha256) emptyResult

end

/-! ## One payload -/

section

variable {sha256 : Bytes → Digest}

/-- The first nine bytes of a packed message, and the length that they declare. -/
structure Packed (header tail : Bytes) (total : ℕ) : Prop where
  magic : header.take 5 = MAGIC ++ [VERSION]
  length : header.length = 9
  declared : int32 header[5]? header[6]? header[7]? header[8]? = (total : ℤ) - 9
  total_eq : total = 9 + tail.length
  long : 13 ≤ total
  short : total ≤ MAX_PAYLOAD_SIZE

theorem packed_bytes {type : JSString} {data : JSRecord} {p : SerializedPayload}
    (h : pack sha256 type data = .ok p) :
    ∃ header tail, p.bytes = header ++ tail ∧ Packed header tail p.bytes.length := by
  obtain ⟨body, totalLen, htotal, hmax, hbytes⟩ := pack_ok h
  have hlen : p.bytes.length = totalLen := by
    rw [hbytes, List.length_append, packPrefix_length, List.length_take, (sha256 _).2]
    omega
  refine ⟨p.bytes.take 9, p.bytes.drop 9, (List.take_append_drop 9 p.bytes).symm, ?_, ?_, ?_, ?_,
    by omega, by omega⟩
  · rw [hbytes]
    rfl
  · rw [List.length_take]
    omega
  · rw [hlen, hbytes]
    simp only [MAX_PAYLOAD_SIZE] at hmax
    have hint := int32_byteOf (n := ((totalLen - 4 - 1 - 4 : ℕ) : ℤ)) (by omega) (by omega)
    exact hint.trans (by omega)
  · rw [List.length_drop]
    omega

theorem exists_nine {l : Bytes} (h : 9 ≤ l.length) : ∃ b0 b1 b2 b3 b4 b5 b6 b7 b8 rest,
    l = b0 :: b1 :: b2 :: b3 :: b4 :: b5 :: b6 :: b7 :: b8 :: rest := by
  match l, h with
  | b0 :: b1 :: b2 :: b3 :: b4 :: b5 :: b6 :: b7 :: b8 :: rest, _ =>
    exact ⟨b0, b1, b2, b3, b4, b5, b6, b7, b8, rest, rfl⟩

theorem header_length {payload : Bytes} (hlong : 12 ≤ payload.length)
    (hshort : payload.length ≤ MAX_PAYLOAD_SIZE) (hmagic : payload.take 4 = MAGIC)
    (hversion : byteAt payload 4 = some VERSION)
    (hdeclared : int32 (byteAt payload 5) (byteAt payload 6) (byteAt payload 7)
      (byteAt payload 8) ≠ (payload.length : ℤ) - 13) :
    payloadHeader sha256 payload = .error (serializationError (js "Length mismatch")) := by
  rw [payloadHeader, if_neg (by omega), if_neg (by omega), if_neg (not_not.mpr hmagic),
    if_neg (not_not.mpr hversion), if_pos hdeclared]

/-- **The header.** With the bytes behind it changed or cut off, the length is still wrong. -/
theorem header_mismatch {header tail : Bytes} {total : ℕ} (h : Packed header tail total)
    {other : Bytes} (hlong : 3 ≤ other.length) (hshort : other.length ≤ tail.length) :
    payloadHeader sha256 (header ++ other) =
      .error (serializationError (js "Length mismatch")) := by
  obtain ⟨m0, m1, m2, m3, v, l0, l1, l2, l3, rest, rfl⟩ := exists_nine h.length.ge
  obtain rfl : rest = [] := by simpa using h.length
  have hmagic : [m0, m1, m2, m3, v] = [0x42, 0x46, 0x4D, 0x50, VERSION] := h.magic
  obtain ⟨rfl, rfl, rfl, rfl, rfl⟩ : m0 = 0x42 ∧ m1 = 0x46 ∧ m2 = 0x4D ∧ m3 = 0x50 ∧
      v = VERSION := by simpa using hmagic
  have hdeclared : int32 (some l0) (some l1) (some l2) (some l3) = (total : ℤ) - 9 := h.declared
  have htotal := h.total_eq
  have hmax := h.short
  have hlength : ([0x42, 0x46, 0x4D, 0x50, VERSION, l0, l1, l2, l3] ++ other).length =
      9 + other.length := by
    simp
    omega
  apply header_length (by omega) (by omega) rfl rfl
  rw [hlength, show byteAt _ 5 = some l0 from rfl, show byteAt _ 6 = some l1 from rfl,
    show byteAt _ 7 = some l2 from rfl, show byteAt _ 8 = some l3 from rfl, hdeclared]
  omega

theorem header_short {payload : Bytes} (h : payload.length < 12) :
    payloadHeader sha256 payload = .error (serializationError (js "Payload too small")) := by
  rw [payloadHeader, if_pos h]

/-- The text of the error for the strategy at `i`. -/
def rejection (i : ℕ) (random : Random) : JSString :=
  match i with
  | 0 => js "Invalid magic bytes"
  | 1 => js "Unsupported version: 255"
  | 5 => if max 10 ⌊random.1 * 147⌋₊ < 12 then js "Payload too small" else js "Length mismatch"
  | _ => js "Length mismatch"

/-- The strategy makes a payload that is rejected. -/
def Rejects (sha256 : Bytes → Digest) (strategy : Random → Except JSError Bytes) (i : ℕ) : Prop :=
  ∀ random, ∃ payload, strategy random = .ok payload ∧
    payloadHeader sha256 payload = .error (serializationError (rejection i random))

theorem packFields_validData : ∃ fields : List Bytes,
    packFields 0 validData = .ok fields ∧ fields.flatten.length = 122 := by
  refine ⟨_, rfl, ?_⟩
  decide

theorem validPayload (sha256 : Bytes → Digest) : ∃ header tail,
    generateValidPayload sha256 = .ok (header ++ tail) ∧ Packed header tail 147 := by
  obtain ⟨p, hpack, hlength⟩ : ∃ p, pack sha256 (js "FUZZ_TEST") validData = .ok p ∧
      p.bytes.length = 147 := by
    obtain ⟨fields, hfields, hlength⟩ := packFields_validData
    have htype : (textEncode (js "FUZZ_TEST")).length = 9 := by decide
    let body := packPrefix 138 (textEncode (js "FUZZ_TEST")) validData.length fields.flatten
    refine ⟨⟨body ++ (sha256 body).1.take 4, js "FUZZ_TEST",
      js "0x" ++ bytesToHex (sha256 body).1⟩, ?_, ?_⟩
    · simp only [pack, hfields, bind, Except.bind, htype, hlength]
      rfl
    · rw [List.length_append, packPrefix_length, List.length_take, (sha256 _).2, htype, hlength]
      rfl
  obtain ⟨header, tail, hbytes, hpacked⟩ := packed_bytes hpack
  refine ⟨header, tail, ?_, hlength ▸ hpacked⟩
  rw [generateValidPayload, hpack, ← hbytes]
  rfl

/-- The valid payload, and what is made of it behind the header. -/
structure ValidBase (sha256 : Bytes → Digest) (base : Bytes) : Prop where
  length : base.length = 147
  front : ∃ l0 l1 l2 l3 rest,
    base = 0x42 :: 0x46 :: 0x4D :: 0x50 :: VERSION :: l0 :: l1 :: l2 :: l3 :: rest
  mismatch : ∀ payload, payload.take 9 = base.take 9 → 12 ≤ payload.length →
    payload.length ≤ 147 →
    payloadHeader sha256 payload = .error (serializationError (js "Length mismatch"))

theorem ValidBase.rejected {base : Bytes} (h : ValidBase sha256 base) :
    payloadHeader sha256 base = .error (serializationError (js "Length mismatch")) :=
  h.mismatch base rfl (by rw [h.length]; decide) h.length.le

theorem validBase (sha256 : Bytes → Digest) : ∃ base,
    generateValidPayload sha256 = .ok base ∧ ValidBase sha256 base := by
  obtain ⟨header, tail, hbase, h⟩ := validPayload sha256
  have hheader := h.length
  have htotal := h.total_eq
  have htake : (header ++ tail).take 9 = header := by rw [← hheader, List.take_left]
  refine ⟨header ++ tail, hbase, by rw [List.length_append]; omega, ?_, ?_⟩
  · obtain ⟨m0, m1, m2, m3, v, l0, l1, l2, l3, rest, rfl⟩ := exists_nine hheader.ge
    have hmagic : [m0, m1, m2, m3, v] = [0x42, 0x46, 0x4D, 0x50, VERSION] := h.magic
    obtain ⟨rfl, rfl, rfl, rfl, rfl⟩ : m0 = 0x42 ∧ m1 = 0x46 ∧ m2 = 0x4D ∧ m3 = 0x50 ∧
        v = VERSION := by simpa using hmagic
    exact ⟨l0, l1, l2, l3, rest ++ tail, rfl⟩
  · intro payload hfront hlong hshort
    rw [← List.take_append_drop 9 payload, hfront, htake]
    apply header_mismatch h
    · rw [List.length_drop]
      omega
    · rw [List.length_drop]
      omega

theorem rejects_magic : Rejects sha256 (fun _ => fuzzMagicBytes sha256) 0 := by
  intro random
  obtain ⟨base, hbase, h⟩ := validBase sha256
  refine ⟨_, by rw [fuzzMagicBytes, hbase]; rfl, ?_⟩
  have hlength := h.length
  obtain ⟨l0, l1, l2, l3, rest, rfl⟩ := h.front
  rw [payloadHeader, if_neg (by simp at hlength ⊢; omega),
    if_neg (by simp [MAX_PAYLOAD_SIZE] at hlength ⊢; omega), if_pos (by simp [MAGIC])]
  rfl

theorem rejects_version : Rejects sha256 (fun _ => fuzzVersionByte sha256) 1 := by
  intro random
  obtain ⟨base, hbase, h⟩ := validBase sha256
  refine ⟨_, by rw [fuzzVersionByte, hbase]; rfl, ?_⟩
  have hlength := h.length
  obtain ⟨l0, l1, l2, l3, rest, rfl⟩ := h.front
  have hversion : byteAt ((0x42 :: 0x46 :: 0x4D :: 0x50 :: VERSION :: l0 :: l1 :: l2 :: l3 ::
      rest : Bytes).set 4 0xFF) 4 = some 0xFF := rfl
  rw [payloadHeader, if_neg (by simp at hlength ⊢; omega),
    if_neg (by simp [MAX_PAYLOAD_SIZE] at hlength ⊢; omega), if_neg (by simp [MAGIC]), hversion,
    if_pos (by decide), rejection]
  exact congrArg (fun text => Except.error (serializationError text)) (by decide)

theorem rejects_length : Rejects sha256 (fun _ => fuzzLengthFields sha256) 2 := by
  intro random
  obtain ⟨base, hbase, h⟩ := validBase sha256
  refine ⟨_, by rw [fuzzLengthFields, hbase]; rfl, ?_⟩
  have hlength := h.length
  obtain ⟨l0, l1, l2, l3, rest, rfl⟩ := h.front
  have hdeclared : int32 (some 0xFF) (some 0xFF) (some 0xFF) (some 0xFF) = -1 := by decide
  change payloadHeader sha256
    (0x42 :: 0x46 :: 0x4D :: 0x50 :: VERSION :: 0xFF :: 0xFF :: 0xFF :: 0xFF :: rest) = _
  apply header_length
  · simp at hlength ⊢
    omega
  · simp [MAX_PAYLOAD_SIZE] at hlength ⊢
    omega
  · rfl
  · rfl
  · change int32 (some 0xFF) (some 0xFF) (some 0xFF) (some 0xFF) ≠ _
    rw [hdeclared]
    simp at hlength ⊢
    omega

theorem rejects_types : Rejects sha256 (fun _ => fuzzFieldTypes sha256) 3 := by
  intro random
  obtain ⟨base, hbase, h⟩ := validBase sha256
  simp only [fuzzFieldTypes, hbase, bind, Except.bind]
  split
  · exact ⟨base, rfl, h.rejected⟩
  · rename_i i hfind
    have hi : 10 ≤ i := (List.mem_range'_1.mp (List.mem_of_find?_eq_some hfind)).1
    refine ⟨base.set i 0xFF, rfl, h.mismatch _ ?_ ?_ ?_⟩
    · apply List.take_set_of_le
      omega
    · rw [List.length_set, h.length]
      decide
    · rw [List.length_set, h.length]

/-- Whether the nested data is packed or not, what is made of it is rejected. -/
theorem rejects_packNested (nested : JSRecord) :
    Rejects sha256 (fun _ => packNested sha256 nested) 4 := by
  intro random
  cases hpack : pack sha256 (js "DEEP_NEST") nested with
  | ok serialized =>
    obtain ⟨header, tail, hbytes, h⟩ := packed_bytes hpack
    have hlong := h.long
    have htotal := h.total_eq
    refine ⟨serialized.bytes, by rw [packNested, hpack], ?_⟩
    rw [hbytes]
    exact header_mismatch h (by omega) le_rfl
  | error err =>
    obtain ⟨base, hbase, h⟩ := validBase sha256
    exact ⟨base, by rw [packNested, hpack]; exact hbase, h.rejected⟩

theorem rejects_nested : Rejects sha256 (fun _ => fuzzNestedDepth sha256) 4 :=
  rejects_packNested _

theorem rejects_truncation : Rejects sha256 (fuzzTruncation sha256) 5 := by
  intro random
  obtain ⟨base, hbase, h⟩ := validBase sha256
  refine ⟨_, by rw [fuzzTruncation, hbase]; rfl, ?_⟩
  have hlength := h.length
  have hfloor : ⌊random.1 * 147⌋₊ < 147 := by
    rw [Nat.floor_lt (mul_nonneg random.2.1 (by norm_num))]
    have hlt := random.2.2
    push_cast
    linarith
  have htaken : (base.take (max 10 ⌊random.1 * (base.length : ℚ)⌋₊)).length =
      max 10 ⌊random.1 * 147⌋₊ := by
    rw [List.length_take, hlength]
    push_cast
    omega
  rw [rejection]
  split
  · exact header_short (by omega)
  · apply h.mismatch
    · rw [List.take_take, min_eq_left (by omega)]
    · omega
    · omega

theorem rejects_crc : Rejects sha256 (fun _ => fuzzCrcCorruption sha256) 6 := by
  intro random
  obtain ⟨base, hbase, h⟩ := validBase sha256
  refine ⟨_, by rw [fuzzCrcCorruption, hbase]; rfl, ?_⟩
  have hlength := h.length
  apply h.mismatch
  · rw [hlength, List.take_modify, List.take_modify, List.modify_eq_self, List.modify_eq_self]
    all_goals simp [hlength]
  · rw [List.length_modify, List.length_modify, hlength]
    decide
  · rw [List.length_modify, List.length_modify, hlength]

theorem rejects_valid : Rejects sha256 (fun _ => generateValidPayload sha256) 7 := by
  intro random
  obtain ⟨base, hbase, h⟩ := validBase sha256
  exact ⟨base, hbase, h.rejected⟩

/-- Every strategy of the campaign, the one for valid payloads among them. -/
theorem strategies_rejected {i : ℕ} {strategy : Random → Except JSError Bytes}
    (h : (strategies sha256)[i]? = some strategy) : Rejects sha256 strategy i := by
  have hi : i < 8 := (List.getElem?_eq_some_iff.mp h).1
  interval_cases i <;> obtain rfl := Option.some.inj h
  · exact rejects_magic
  · exact rejects_version
  · exact rejects_length
  · exact rejects_types
  · exact rejects_nested
  · exact rejects_truncation
  · exact rejects_crc
  · exact rejects_valid

/-! ## The campaign -/

/-- A test: the place of its strategy, and what it draws. -/
abbrev Test := ℕ × TestDraw

def Late (test : Test) : Prop := TIMEOUT_MS < test.2.elapsed

instance (test : Test) : Decidable (Late test) :=
  inferInstanceAs (Decidable (TIMEOUT_MS < test.2.elapsed))

/-- The key under which a test is counted. -/
def reported (test : Test) : JSString :=
  bugKey (serializationError (rejection test.1 test.2.random)).message

/-- The four keys of a report. -/
def reportTexts : List JSString :=
  [js "[BinarySerializer] Invalid magic bytes", js "[BinarySerializer] Unsupported version",
    js "[BinarySerializer] Payload too small", js "[BinarySerializer] Length mismatch"]

theorem reported_mem (test : Test) : reported test ∈ reportTexts := by
  obtain ⟨i, draw⟩ := test
  unfold reported rejection
  dsimp only
  split
  · decide
  · decide
  · split
    · decide
    · decide
  · decide

/-- The results are those of the tests so far. -/
structure Tally (results : FuzzResult) (tests : List Test) : Prop where
  totalTests : results.totalTests = tests.length
  crashes : results.crashes = 0
  coverage : results.coverage = noCoverage
  hangs : results.hangs = tests.countP (Late ·)
  bugs : ∀ key : JSString, (results.uniqueBugs.get key).getD 0 =
    tests.countP fun test => ¬ Late test ∧ reported test = key
  keys : ∀ key ∈ results.uniqueBugs.keys, key ∈ reportTexts

theorem Tally.empty : Tally emptyResult [] :=
  ⟨rfl, rfl, rfl, rfl, fun _ => rfl, fun _ h => absurd h List.not_mem_nil⟩

/-- **A test.** Nothing that is rejected in the header reaches the coverage or is a crash. -/
theorem runTest_tally {strategy : Random → Except JSError Bytes} {i : ℕ}
    (hstrategy : Rejects sha256 strategy i) {results : FuzzResult} {tests : List Test}
    (h : Tally results tests) (fuel : ℕ) (draw : TestDraw) : ∃ results',
    runTest sha256 fuel strategy draw results = .returns results' ∧
      Tally results' (tests ++ [(i, draw)]) := by
  obtain ⟨payload, hpayload, hheader⟩ := hstrategy draw.random
  have hunpack : unpack sha256 fuel payload =
      .throws (serializationError (rejection i draw.random)) := by
    rw [unpack, hheader]
    rfl
  have htotal : results.totalTests + 1 = (tests ++ [(i, draw)]).length := by
    rw [h.totalTests, List.length_append, List.length_singleton]
  simp only [runTest, hpayload, Outcome.ofExcept, Outcome.bind_returns, hunpack]
  by_cases hlate : TIMEOUT_MS < draw.elapsed
  · rw [if_pos hlate]
    refine ⟨_, rfl, htotal, h.crashes, h.coverage, ?_, ?_, h.keys⟩
    · have hcount : [(i, draw)].countP (Late ·) = 1 := by simp [Late, hlate]
      rw [List.countP_append, hcount, ← h.hangs]
    · intro key
      have hcount : [(i, draw)].countP (fun test => ¬ Late test ∧ reported test = key) = 0 := by
        simp [Late, hlate]
      rw [List.countP_append, hcount, ← h.bugs key]
      rfl
  · have hname : (serializationError (rejection i draw.random)).name = .SerializationError := rfl
    rw [if_neg hlate, if_pos hname]
    refine ⟨_, rfl, htotal, h.crashes, h.coverage, ?_, ?_, ?_⟩
    · have hcount : [(i, draw)].countP (Late ·) = 0 := by simp [Late, hlate]
      rw [List.countP_append, hcount, ← h.hangs]
      rfl
    · intro key
      have hreported : bugKey (serializationError (rejection i draw.random)).message =
        reported (i, draw) := rfl
      rw [List.countP_append, ← h.bugs key, InsertionMap.get_set, hreported]
      by_cases hkey : key = reported (i, draw)
      · subst hkey
        have hcount : [(i, draw)].countP
            (fun test => ¬ Late test ∧ reported test = reported (i, draw)) = 1 := by
          simp [Late, hlate]
        rw [hcount, if_pos rfl]
        rfl
      · have hcount : [(i, draw)].countP (fun test => ¬ Late test ∧ reported test = key) = 0 := by
          simp [Ne.symm hkey]
        rw [hcount, if_neg hkey, Nat.add_zero]
    · intro key hmem
      obtain rfl | hmem := InsertionMap.mem_keys_set.mp hmem
      · exact reported_mem (i, draw)
      · exact h.keys key hmem

/-- **The tests of one strategy.** -/
theorem runStrategy_tally {strategy : Random → Except JSError Bytes} {i : ℕ}
    (hstrategy : Rejects sha256 strategy i) (fuel : ℕ) (draws : List TestDraw)
    {results : FuzzResult} {tests : List Test} (h : Tally results tests) : ∃ results',
    runStrategy sha256 fuel strategy draws results = .returns results' ∧
      Tally results' (tests ++ draws.map (i, ·)) := by
  induction draws generalizing results tests with
  | nil =>
    refine ⟨results, rfl, ?_⟩
    rw [List.map_nil, List.append_nil]
    exact h
  | cons draw draws ih =>
    obtain ⟨results', htest, h'⟩ := runTest_tally hstrategy h fuel draw
    obtain ⟨results'', hrest, h''⟩ := ih h'
    refine ⟨results'', ?_, ?_⟩
    · rw [runStrategy, htest]
      exact hrest
    · rw [List.map_cons, List.append_cons]
      exact h''

/-- The tests of the strategy at `i`. -/
def testsOf (draws : ℕ → ℕ → TestDraw) (i : ℕ) : List Test :=
  ((List.range (MAX_TESTS / 8)).map (draws i)).map (i, ·)

/-- **The strategies from the one at `i` on.** -/
theorem runStrategies_tally (fuel : ℕ) (draws : ℕ → ℕ → TestDraw)
    (rest : List (Random → Except JSError Bytes)) {i : ℕ} {results : FuzzResult}
    {tests : List Test} (h : Tally results tests)
    (hrest : ∀ (k : ℕ) (strategy : Random → Except JSError Bytes), rest[k]? = some strategy →
      Rejects sha256 strategy (i + k)) : ∃ results',
    runStrategies sha256 fuel draws i rest results = .returns results' ∧
      Tally results' (tests ++ (List.range' i rest.length).flatMap (testsOf draws)) := by
  induction rest generalizing i results tests with
  | nil =>
    refine ⟨results, rfl, ?_⟩
    rw [List.length_nil, List.range'_zero, List.flatMap_nil, List.append_nil]
    exact h
  | cons strategy rest ih =>
    obtain ⟨results', hrun, h'⟩ := runStrategy_tally (hrest 0 strategy rfl) fuel
      ((List.range (MAX_TESTS / 8)).map (draws i)) h
    obtain ⟨results'', hruns, h''⟩ := ih (i := i + 1) h' fun k s hk => by
      rw [Nat.add_right_comm]
      exact hrest (k + 1) s hk
    refine ⟨results'', ?_, ?_⟩
    · rw [runStrategies, hrun]
      exact hruns
    · rw [List.length_cons, List.range'_succ, List.flatMap_cons, ← List.append_assoc]
      exact h''

/-- The tests of a campaign. -/
def campaignTests (draws : ℕ → ℕ → TestDraw) : List Test :=
  (List.range' 0 8).flatMap (testsOf draws)

theorem length_campaignTests (draws : ℕ → ℕ → TestDraw) :
    (campaignTests draws).length = MAX_TESTS := by
  have hof : ∀ i : ℕ, (testsOf draws i).length = 12500 := by
    intro i
    rw [testsOf, List.length_map, List.length_map, List.length_range]
    rfl
  rw [campaignTests, List.length_flatMap, List.map_congr_left fun i _ => hof i]
  rfl

/-- **The report of a campaign.** Whatever is drawn and however long the tests take, it ends
without a crash. Nothing is ever covered, and of a test that was not late the report holds one of
four texts, none of which is about a field or the checksum. -/
theorem campaign_report (sha256 : Bytes → Digest) (fuel : ℕ) (draws : ℕ → ℕ → TestDraw) :
    ∃ results, runCampaign sha256 fuel draws = .returns results ∧
      results.totalTests = MAX_TESTS ∧ results.crashes = 0 ∧ results.coverage = noCoverage ∧
      results.hangs = (campaignTests draws).countP (Late ·) ∧
      (∀ key : JSString, (results.uniqueBugs.get key).getD 0 =
        (campaignTests draws).countP fun test => ¬ Late test ∧ reported test = key) ∧
      ∀ key ∈ results.uniqueBugs.keys, key ∈ reportTexts := by
  obtain ⟨results, hrun, h⟩ := runStrategies_tally fuel draws (strategies sha256) (i := 0)
    Tally.empty fun k strategy hk => by
      rw [Nat.zero_add]
      exact strategies_rejected hk
  have hlength : (strategies sha256).length = 8 := rfl
  have htests : Tally results (campaignTests draws) := by
    rw [List.nil_append, hlength] at h
    exact h
  refine ⟨results, hrun, ?_, htests.crashes, htests.coverage, htests.hangs, htests.bugs,
    htests.keys⟩
  exact htests.totalTests.trans (length_campaignTests draws)

end

end BioFire.Chaos
