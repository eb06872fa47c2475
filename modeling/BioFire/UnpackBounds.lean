import BioFire.UnpackErrors

/-!
# The bytes that `unpack` reads

The field count is read without a bound check, and a negative length passes the
check of a value's end, so an accepted message may have its count read from the
checksum, or its fields from bytes that were read before.

* `accepted_calls_top_level`: in an accepted message no field is nested;
* `content_in_bounds_iff`: when an accepted message is read between the length
  header and the checksum, one field after another;
* `count_read_from_checksum`: a message of 17 bytes whose field count is the first
  two bytes of its checksum.
-/

namespace BioFire.BinarySerializer

open Outcome

/-! ## Regions -/

/-- The fields of a message from `offset` on, as far as their headers pass the checks. -/
def fieldHeaders (payload : Bytes) : ℕ → Int → List (Int × FieldHeader)
  | 0, _ => []
  | count + 1, offset =>
    match fieldHeader payload offset with
    | .error _ => []
    | .ok h => (offset, h) :: fieldHeaders payload count h.newOffset

/-- Where the header of a field ends and its value begins. -/
def valueStart (field : Int × FieldHeader) : Int := field.1 + 6 + field.2.keyLen

/-- `decodeField` reads the byte at `i`: in the header of the field, or in the slice
that is its value. -/
def FieldReads (payload : Bytes) (field : Int × FieldHeader) (i : Int) : Prop :=
  (field.1 ≤ i ∧ i < valueStart field) ∨
    (sliceIndex payload.length (valueStart field) ≤ i ∧
      i < sliceIndex payload.length field.2.newOffset)

/-- Everything that is read for `field` lies in front of what is read for `next`. -/
def InFront (payload : Bytes) (field next : Int × FieldHeader) : Prop :=
  ∀ i j, FieldReads payload field i → FieldReads payload next j → i < j

/-- What `unpack` reads as content lies behind the length header and in front of the
checksum, one field behind the other. -/
structure ContentInBounds (sha256 : Bytes → Digest) (payload : Bytes) (h : PayloadHeader) :
    Prop where
  topLevel : ∀ buffer offset, UnpackCall sha256 payload buffer offset → buffer = payload ∧
    ∃ field, (offset, field) ∈ fieldHeaders payload h.fieldCount h.offset
  -- the length of the type, the type and the field count
  header : ∀ i, 9 ≤ i → i < h.offset → i < payload.length - 4
  fields : ∀ field ∈ fieldHeaders payload h.fieldCount h.offset, ∀ i,
    FieldReads payload field i → 9 ≤ i ∧ i < payload.length - 4
  inOrder : (fieldHeaders payload h.fieldCount h.offset).IsChain (InFront payload)

/-- The last length may be negative as long as the end of the value, counted from the
end of the message, is not in the checksum. -/
def LastInBounds (payload : Bytes) (field : Int × FieldHeader) : Prop :=
  valueStart field ≤ payload.length - 4 ∧
    (valueStart field + field.2.valueLen ≤ -4 ∨ 0 ≤ valueStart field + field.2.valueLen)

/-- What the lengths of an accepted message have to keep to. -/
structure LengthsInBounds (payload : Bytes) (h : PayloadHeader) : Prop where
  header : h.offset ≤ payload.length - 4
  nonneg : ∀ field ∈ (fieldHeaders payload h.fieldCount h.offset).dropLast, 0 ≤ field.2.valueLen
  last : ∀ field ∈ (fieldHeaders payload h.fieldCount h.offset).getLast?, LastInBounds payload field

/-! ## Nothing is nested -/

/-- A container with something in it is never read to its end: its last field would have
to end four bytes before it does. -/
theorem LoopCall.not_returns {buffer items : Bytes} {offset o : Int} {d : DecodedField}
    (hloop : LoopCall items o) (hopen : Opens buffer offset items) :
    ¬ FieldReturns buffer offset d := by
  intro hd
  have hlength : 0 < items.length := by
    cases hloop with
    | first hlength => exact hlength
    | next _ hmove _ =>
      obtain ⟨d', hd', -⟩ := hmove
      obtain ⟨h, hh, -⟩ := fieldReturns_iff.mp hd'
      have hstart := (fieldHeader_ok hh).1
      have hend := (fieldHeader_bounds hh).1
      omega
  obtain ⟨inner, o', s, hwithin, hstops⟩ :
      ∃ inner o' s, CallWithin buffer offset inner o' ∧ Stops inner o' s := by
    by_cases hcircles : Circles items
    · exact ⟨buffer, offset, .running, .self buffer offset, items, hopen, hcircles⟩
    · obtain ⟨last, hreach, hlast⟩ := exists_last_cursor hcircles
      rcases decodeField_cases items last with ⟨d', hd'⟩ | ⟨inner, o', s, hwithin, hstops⟩
      · exact absurd ⟨d'.newOffset, d', hd', rfl⟩ hlast
      · exact ⟨inner, o', s, .nested hopen (LoopCall.of_reach hlength hreach) hwithin, hstops⟩
  have hreturns := (decodeField_steady buffer offset).settles_returns_iff.mpr hd
  exact stop_ne_returns s d ((hwithin.settles hstops).unique hreturns)

section Accepted

variable {sha256 : Bytes → Digest} {payload : Bytes} {u : UnpackedPayload}

theorem FieldCall.returns (hu : Returns (fun fuel => unpack sha256 fuel payload) u)
    {h : PayloadHeader} (hh : payloadHeader sha256 payload = .ok h) {o : Int}
    (hfield : FieldCall payload h.fieldCount h.offset o) : ∃ d, FieldReturns payload o d := by
  rcases decodeField_cases payload o with hreturns | ⟨inner, o', s, hwithin, hstops⟩
  · exact hreturns
  · have hcall : UnpackCall sha256 payload inner o' := ⟨h, o, hh, hfield, hwithin⟩
    exact absurd hstops (hcall.not_stops hu s)

/-- **Accepted messages are flat.** -/
theorem accepted_calls_top_level (hu : Returns (fun fuel => unpack sha256 fuel payload) u)
    {h : PayloadHeader} (hh : payloadHeader sha256 payload = .ok h) {buffer : Bytes} {offset : Int}
    (hcall : UnpackCall sha256 payload buffer offset) :
    buffer = payload ∧ FieldCall payload h.fieldCount h.offset offset := by
  obtain ⟨h', o, hh', hfield, hwithin⟩ := hcall
  obtain rfl := Except.ok.inj (hh'.symm.trans hh)
  cases hwithin with
  | self => exact ⟨rfl, hfield⟩
  | nested hopen hloop _ =>
    obtain ⟨d, hd⟩ := FieldCall.returns hu hh hfield
    exact absurd hd (LoopCall.not_returns hloop hopen)

end Accepted

theorem FieldCall.mem_fieldHeaders {payload : Bytes} {count : ℕ} {offset o : Int}
    (hfield : FieldCall payload count offset o) {h : FieldHeader}
    (hh : fieldHeader payload o = .ok h) : (o, h) ∈ fieldHeaders payload count offset := by
  induction hfield with
  | first count offset =>
    rw [fieldHeaders, hh]
    exact List.mem_cons_self
  | next hmove _ ih =>
    obtain ⟨d, hd, rfl⟩ := hmove
    obtain ⟨h', hh', -, hoffset, -⟩ := fieldReturns_iff.mp hd
    rw [fieldHeaders, hh']
    rw [hoffset] at ih
    exact List.mem_cons_of_mem _ (ih hh)

/-! ## Lengths and regions -/

theorem sliceIndex_of_nonneg (length : ℕ) {i : Int} (h : 0 ≤ i) :
    (sliceIndex length i : Int) = min i length := by
  rw [sliceIndex, if_neg (by omega)]
  omega

theorem sliceIndex_of_neg (length : ℕ) {i : Int} (h : i < 0) :
    (sliceIndex length i : Int) = max 0 (length + i) := by
  rw [sliceIndex, if_pos h]
  omega

section Regions

variable {payload : Bytes} {offset : Int} {h : FieldHeader}

theorem valueStart_add_valueLen (hh : fieldHeader payload offset = .ok h) :
    valueStart (offset, h) + h.valueLen = h.newOffset := by
  rw [(fieldHeader_ok hh).2.1, valueStart]

/-- What is read for a field whose end is not below the start of its value. -/
theorem fieldReads_bounds (hh : fieldHeader payload offset = .ok h) (hlen : 0 ≤ h.valueLen)
    {i : Int} (hi : FieldReads payload (offset, h) i) : offset ≤ i ∧ i < h.newOffset := by
  have hstart := (fieldHeader_ok hh).1
  have hend := (fieldHeader_bounds hh).2
  have hvalue := valueStart_add_valueLen hh
  simp only [FieldReads, valueStart] at hi hvalue
  rcases hi with hi | hi
  · omega
  · rw [sliceIndex_of_nonneg _ (by omega), sliceIndex_of_nonneg _ (by omega)] at hi
    omega

theorem lastReads_bounds (hh : fieldHeader payload offset = .ok h)
    (hlast : LastInBounds payload (offset, h)) {i : Int} (hi : FieldReads payload (offset, h) i) :
    offset ≤ i ∧ i < payload.length - 4 := by
  have hstart := (fieldHeader_ok hh).1
  have hend := (fieldHeader_bounds hh).2
  have hvalue := valueStart_add_valueLen hh
  simp only [FieldReads, LastInBounds, valueStart] at hi hvalue hlast
  rcases hi with hi | hi
  · omega
  · rw [sliceIndex_of_nonneg _ (by omega)] at hi
    rcases lt_or_ge h.newOffset 0 with hneg | hpos
    · rw [sliceIndex_of_neg _ hneg] at hi
      omega
    · rw [sliceIndex_of_nonneg _ hpos] at hi
      omega

theorem fieldReads_first (payload : Bytes) (field : Int × FieldHeader) :
    FieldReads payload field field.1 := by
  left
  rw [valueStart]
  omega

theorem fieldReads_headerEnd (payload : Bytes) (field : Int × FieldHeader) :
    FieldReads payload field (valueStart field - 1) := by
  left
  rw [valueStart]
  omega

/-- A field in front of another one has a length that is not negative. -/
theorem InFront.valueLen_nonneg (hh : fieldHeader payload offset = .ok h) {next : FieldHeader}
    (hfront : InFront payload (offset, h) (h.newOffset, next)) : 0 ≤ h.valueLen := by
  have hlt := hfront _ _ (fieldReads_headerEnd payload (offset, h)) (fieldReads_first payload _)
  have hvalue := valueStart_add_valueLen hh
  simp only at hlt
  omega

theorem lastInBounds_of_reads (hh : fieldHeader payload offset = .ok h)
    (hreads : ∀ i, FieldReads payload (offset, h) i → i < payload.length - 4) :
    LastInBounds payload (offset, h) := by
  have hstart := (fieldHeader_ok hh).1
  have hheader := hreads _ (fieldReads_headerEnd payload (offset, h))
  have hvalue := valueStart_add_valueLen hh
  simp only [LastInBounds, valueStart] at hheader hvalue ⊢
  refine ⟨by omega, ?_⟩
  by_contra hneither
  have hslice := hreads (payload.length + h.newOffset - 1) (Or.inr ?_)
  · omega
  · have hneg : h.newOffset < 0 := by omega
    rw [valueStart, sliceIndex_of_nonneg _ (by simp only; omega), sliceIndex_of_neg _ hneg]
    simp only
    omega

end Regions

theorem fieldHeaders_cons {payload : Bytes} {count : ℕ} {offset : Int}
    {field : Int × FieldHeader} {rest : List (Int × FieldHeader)}
    (hfields : fieldHeaders payload count offset = field :: rest) :
    ∃ h, field = (offset, h) ∧ fieldHeader payload offset = .ok h ∧
      ∃ n, rest = fieldHeaders payload n h.newOffset := by
  cases count with
  | zero => cases hfields
  | succ count =>
    rw [fieldHeaders] at hfields
    split at hfields
    · cases hfields
    next h hh =>
      obtain ⟨rfl, rfl⟩ := List.cons.inj hfields
      exact ⟨h, rfl, hh, count, rfl⟩

/-- Fields that are read in bounds and one behind the other have lengths in bounds. -/
theorem lengths_of_reads {payload : Bytes} {count : ℕ} {offset : Int}
    {fields : List (Int × FieldHeader)} (hfields : fieldHeaders payload count offset = fields)
    (hreads : ∀ field ∈ fields, ∀ i, FieldReads payload field i → i < payload.length - 4)
    (hchain : fields.IsChain (InFront payload)) :
    (∀ field ∈ fields.dropLast, 0 ≤ field.2.valueLen) ∧
      ∀ field ∈ fields.getLast?, LastInBounds payload field := by
  induction fields generalizing count offset with
  | nil => simp
  | cons field rest ih =>
    obtain ⟨h, rfl, hh, n, hrest⟩ := fieldHeaders_cons hfields
    cases rest with
    | nil => simpa using lastInBounds_of_reads hh (hreads _ List.mem_cons_self)
    | cons next rest =>
      obtain ⟨h', rfl, -⟩ := fieldHeaders_cons hrest.symm
      obtain ⟨hfront, hchain⟩ := List.isChain_cons_cons.mp hchain
      obtain ⟨hnonneg, hlast⟩ := ih hrest.symm
        (fun field hfield => hreads field (List.mem_cons_of_mem _ hfield)) hchain
      rw [List.dropLast_cons_cons, List.getLast?_cons_cons]
      exact ⟨List.forall_mem_cons.mpr ⟨hfront.valueLen_nonneg hh, hnonneg⟩, hlast⟩

/-- **Run.** Fields with lengths in bounds are read in bounds and one behind the other. -/
theorem reads_of_lengths {payload : Bytes} {count : ℕ} {offset : Int}
    {fields : List (Int × FieldHeader)} (hfields : fieldHeaders payload count offset = fields)
    (hnonneg : ∀ field ∈ fields.dropLast, 0 ≤ field.2.valueLen)
    (hlast : ∀ field ∈ fields.getLast?, LastInBounds payload field) :
    (∀ field ∈ fields, ∀ i, FieldReads payload field i → offset ≤ i ∧ i < payload.length - 4) ∧
      fields.IsChain (InFront payload) := by
  induction fields generalizing count offset with
  | nil => simp
  | cons field rest ih =>
    obtain ⟨h, rfl, hh, n, hrest⟩ := fieldHeaders_cons hfields
    cases rest with
    | nil =>
      have hlast : LastInBounds payload (offset, h) := by simpa using hlast
      simpa using fun i hi => lastReads_bounds hh hlast hi
    | cons next rest =>
      obtain ⟨h', rfl, -⟩ := fieldHeaders_cons hrest.symm
      rw [List.dropLast_cons_cons] at hnonneg
      rw [List.getLast?_cons_cons] at hlast
      obtain ⟨hlen, hnonneg⟩ := List.forall_mem_cons.mp hnonneg
      change 0 ≤ h.valueLen at hlen
      obtain ⟨hreads, hchain⟩ := ih hrest.symm hnonneg hlast
      have hend := (fieldHeader_bounds hh).2
      have hvalue := valueStart_add_valueLen hh
      simp only [valueStart] at hvalue
      refine ⟨List.forall_mem_cons.mpr ⟨fun i hi => ?_, fun field hfield i hi => ?_⟩,
        List.isChain_cons_cons.mpr ⟨fun i j hi hj => ?_, hchain⟩⟩
      · have := fieldReads_bounds hh hlen hi
        omega
      · have := hreads field hfield i hi
        omega
      · have hbefore := (fieldReads_bounds hh hlen hi).2
        have hbehind := (hreads _ List.mem_cons_self j hj).1
        omega

theorem payloadHeader_eq {sha256 : Bytes → Digest} {payload : Bytes} {h : PayloadHeader}
    (hh : payloadHeader sha256 payload = .ok h) :
    payload.take 4 = MAGIC ∧ byteAt payload 4 = some VERSION ∧
      int32 (byteAt payload 5) (byteAt payload 6) (byteAt payload 7) (byteAt payload 8) =
        (payload.length : Int) - 13 ∧
      slice payload (payload.length - 4) payload.length =
        (sha256 (slice payload 0 (payload.length - 4))).1.take 4 ∧
      12 ≤ payload.length ∧ h.offset - 2 ≤ payload.length - 4 ∧
      h.type = textDecode (slice payload 10 (h.offset - 2)) ∧
      h.fieldCount =
        (int16 (byteAt payload (h.offset - 2)) (byteAt payload (h.offset - 2 + 1))).toNat ∧
      h.offset = 12 + ((byteAt payload 9).getD 0).toNat := by
  unfold payloadHeader at hh
  obtain ⟨hsmall, hh⟩ := ite_error_eq_ok hh
  obtain ⟨-, hh⟩ := ite_error_eq_ok hh
  obtain ⟨hmagic, hh⟩ := ite_error_eq_ok hh
  obtain ⟨hversion, hh⟩ := ite_error_eq_ok hh
  obtain ⟨hlength, hh⟩ := ite_error_eq_ok hh
  obtain ⟨hcrc, hh⟩ := ite_error_eq_ok hh
  obtain ⟨htype, hh⟩ := ite_error_eq_ok hh
  cases hh
  dsimp only at htype ⊢
  rw [show (12 + ((byteAt payload 9).getD 0).toNat : Int) - 2 =
    10 + ((byteAt payload 9).getD 0).toNat by ring, show
    (10 + ((byteAt payload 9).getD 0).toNat : Int) + 1 = 11 + ((byteAt payload 9).getD 0).toNat by
    ring]
  exact ⟨not_not.mp hmagic, not_not.mp hversion, not_not.mp hlength, not_not.mp hcrc, by omega,
    by omega, rfl, rfl, rfl⟩

/-- **Reading in bounds.** An accepted message is read between its length header and its
checksum, one field behind the other, exactly when its field count lies in front of the
checksum, every field but the last declares a length that is not negative, and the last
one ends neither behind the start of the checksum nor, counted back from the end, in it. -/
theorem content_in_bounds_iff {sha256 : Bytes → Digest} {payload : Bytes} {u : UnpackedPayload}
    (hu : Returns (fun fuel => unpack sha256 fuel payload) u) {h : PayloadHeader}
    (hh : payloadHeader sha256 payload = .ok h) :
    ContentInBounds sha256 payload h ↔ LengthsInBounds payload h := by
  obtain ⟨-, -, -, -, -, -, -, -, hoffset⟩ := payloadHeader_eq hh
  constructor
  · intro hbounds
    obtain ⟨hnonneg, hlast⟩ := lengths_of_reads rfl
      (fun field hfield i hi => (hbounds.fields field hfield i hi).2) hbounds.inOrder
    have hcount := hbounds.header (h.offset - 1) (by omega) (by omega)
    exact ⟨by omega, hnonneg, hlast⟩
  · intro hlengths
    obtain ⟨hreads, hchain⟩ := reads_of_lengths rfl hlengths.nonneg hlengths.last
    have hheader := hlengths.header
    refine ⟨fun buffer offset hcall => ?_, fun i _ hi => by omega, fun field hfield i hi => ?_,
      hchain⟩
    · obtain ⟨rfl, hfield⟩ := accepted_calls_top_level hu hh hcall
      obtain ⟨d, hd⟩ := FieldCall.returns hu hh hfield
      obtain ⟨h', hh', -⟩ := fieldReturns_iff.mp hd
      exact ⟨rfl, h', hfield.mem_fieldHeaders hh'⟩
    · have := hreads field hfield i hi
      exact ⟨by omega, this.2⟩

/-! ## A field count in the checksum -/

/-- No field, and the field count left out. -/
def uncountedBody : Bytes := MAGIC ++ [VERSION, 0, 0, 0, 4, 3, 0x67, 0x34, 0x34]

/-- SHA-256 of `uncountedBody`. -/
def uncountedDigest : Digest :=
  ⟨[0x00, 0x00, 0xD3, 0x6F, 0xA0, 0xBE, 0x68, 0x45, 0xC1, 0x2B, 0xE0, 0x18,
    0x3B, 0x91, 0xFF, 0x79, 0x0C, 0xB3, 0x99, 0x91, 0xDC, 0xED, 0x76, 0xC3,
    0x26, 0x34, 0xB2, 0x88, 0x8B, 0x02, 0x3B, 0xC9], rfl⟩

/-- One boolean field. -/
def flagBody : Bytes :=
  MAGIC ++ [VERSION, 0, 0, 0, 11, 0, 0, 1] ++ [1, 0x6F, FIELD_TYPES.BOOL, 0, 0, 0, 1, 1]

/-- SHA-256 of `flagBody`. -/
def flagDigest : Digest :=
  ⟨[0xF8, 0x2A, 0xBC, 0x54, 0x3B, 0x0B, 0xF2, 0x63, 0xAC, 0xFB, 0x00, 0x9E,
    0xDB, 0x69, 0x88, 0x36, 0xB8, 0xAF, 0xAE, 0x1E, 0x0D, 0xF9, 0x0F, 0xF6,
    0xA4, 0xF5, 0x88, 0xAD, 0x13, 0x7D, 0xFB, 0xB5], rfl⟩

theorem content_in_bounds_iff_flag :
    ∃ h, payloadHeader (fun _ => flagDigest) (checksummed (fun _ => flagDigest) flagBody) = .ok h ∧
      (ContentInBounds (fun _ => flagDigest) (checksummed (fun _ => flagDigest) flagBody) h ↔
        LengthsInBounds (checksummed (fun _ => flagDigest) flagBody) h) :=
  ⟨_, rfl, content_in_bounds_iff (u := ⟨[], [(js "o", .bool true)], _⟩) ⟨1, rfl⟩ rfl⟩

/-- The two bytes of the field count are the first bytes of the checksum. -/
theorem count_read_from_checksum :
    (∃ u, Returns (fun fuel => unpack (fun _ => uncountedDigest) fuel
        (checksummed (fun _ => uncountedDigest) uncountedBody)) u) ∧
      ∃ h, payloadHeader (fun _ => uncountedDigest)
          (checksummed (fun _ => uncountedDigest) uncountedBody) = .ok h ∧
        ¬ ContentInBounds (fun _ => uncountedDigest)
          (checksummed (fun _ => uncountedDigest) uncountedBody) h := by
  refine ⟨⟨_, 0, rfl⟩, _, rfl, fun hbounds => ?_⟩
  have hcount := hbounds.header 14 (by decide) (by decide)
  revert hcount
  decide

end BioFire.BinarySerializer
