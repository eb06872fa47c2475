import BioFire.PackUnpack
import Mathlib.Data.Int.Interval

/-!
# Termination of `unpack`

A length whose top bit is set reads as a negative number and passes the bound
check, so a field may send the cursor back to where it began.

* `progress_iff`: a call of `decodeField` that returns moves forward unless its
  field stalls, that is, declares a length of at most `-6 - keyLen`;
* `decodeField_cases`, `CallWithin.settles`: a call returns, or one of the calls behind it
  throws or enters a loop that comes back to where it was, and then so does the whole;
* `unpack_finishes_iff`: when `unpack` ends;
* `unpack_progress_iff_stalls`: `unpack` ends with every call moving forward exactly
  when no call stalls;
* `unpack_looping`: a message of 29 bytes on which `unpack` never ends.
-/

namespace BioFire.BinarySerializer

open Outcome

/-! ## Header arithmetic -/

theorem byteAt_some {bs : Bytes} {i : Int} {b : UInt8} (h : byteAt bs i = some b) : 0 ≤ i := by
  unfold byteAt at h
  split at h
  · assumption
  · cases h

theorem slice_length_le {bs : Bytes} {start stop : Int} (h : 0 ≤ start) :
    (slice bs start stop).length ≤ bs.length - start.toNat := by
  simp only [slice, List.length_drop, List.length_take, sliceIndex, if_neg (not_lt.mpr h)]
  omega

/-- Where the parts of a header that passes the checks are read. -/
structure HeaderAt (payload : Bytes) (offset : Int) (h : FieldHeader) : Prop where
  starts : offset < payload.length - 6
  keyLen : byteAt payload offset = some (UInt8.ofNat h.keyLen)
  keyLen_lt : h.keyLen < 256
  key : h.key = textDecode (slice payload (offset + 1) (offset + 1 + h.keyLen))
  typeByte : h.typeByte = byteAt payload (offset + 1 + h.keyLen)
  valueLen : h.valueLen = int32 (byteAt payload (offset + 2 + h.keyLen))
    (byteAt payload (offset + 2 + h.keyLen + 1)) (byteAt payload (offset + 2 + h.keyLen + 2))
    (byteAt payload (offset + 2 + h.keyLen + 3))
  newOffset : h.newOffset = offset + 6 + h.keyLen + h.valueLen
  ends : h.newOffset ≤ payload.length - 4
  valueBytes : h.valueBytes = slice payload (offset + 6 + h.keyLen) h.newOffset

theorem headerAt_of_ok {payload : Bytes} {offset : Int} {h : FieldHeader}
    (hh : fieldHeader payload offset = .ok h) : HeaderAt payload offset h := by
  unfold fieldHeader at hh
  split at hh
  · cases hh
  next hstarts =>
    split at hh
    · cases hh
    next keyLen hkeyLen =>
      simp only at hh
      split at hh
      · cases hh
      · split at hh
        · cases hh
        next hends =>
          cases hh
          have htype : offset + 1 + keyLen.toNat + 1 = offset + 2 + keyLen.toNat := by ring
          have hvalue : offset + 1 + keyLen.toNat + 1 + 4 = offset + 6 + keyLen.toNat := by ring
          exact {
            starts := not_le.mp hstarts
            keyLen := by simpa using hkeyLen
            keyLen_lt := keyLen.toNat_lt
            key := rfl
            typeByte := rfl
            valueLen := by simp only [htype]
            newOffset := by simp only [hvalue]
            ends := not_lt.mp hends
            valueBytes := by simp only [hvalue] }

/-- A header that passes the checks: where it puts the cursor, and that its
value is shorter than the buffer. -/
theorem fieldHeader_ok {payload : Bytes} {offset : Int} {h : FieldHeader}
    (hh : fieldHeader payload offset = .ok h) :
    0 ≤ offset ∧ h.newOffset = offset + 6 + h.keyLen + h.valueLen ∧
      h.valueBytes.length < payload.length := by
  have hat := headerAt_of_ok hh
  have hstarts := hat.starts
  have hoffset := byteAt_some hat.keyLen
  refine ⟨hoffset, hat.newOffset, ?_⟩
  rw [hat.valueBytes]
  exact lt_of_le_of_lt (slice_length_le (by omega)) (by omega)

theorem fieldHeader_bounds {payload : Bytes} {offset : Int} {h : FieldHeader}
    (hh : fieldHeader payload offset = .ok h) :
    offset < payload.length - 6 ∧ h.newOffset ≤ payload.length - 4 :=
  ⟨(headerAt_of_ok hh).starts, (headerAt_of_ok hh).ends⟩

/-! ## Fuel -/

theorem containerRound_below {σ : Type} (collect : σ → DecodedField → σ) (value : σ → JSValue)
    {decode decode' : Bytes → Int → Outcome JSError DecodedField}
    (hd : ∀ bs o, Below (decode bs o) (decode' bs o)) (items : Bytes) (s : Int × σ) :
    Below (containerRound collect value decode items s)
      (containerRound collect value decode' items s) := by
  unfold containerRound
  split
  · exact Below.bind (hd _ _) fun _ => Below.refl _
  · exact Below.refl _

theorem decodeValue_below {decode decode' : Bytes → Int → Outcome JSError DecodedField}
    (hd : ∀ bs o, Below (decode bs o) (decode' bs o)) {n m : Nat} (hnm : n ≤ m)
    (typeByte : Option UInt8) (valueBytes : Bytes) :
    Below (decodeValue decode n typeByte valueBytes)
      (decodeValue decode' m typeByte valueBytes) := by
  unfold decodeValue
  split
  · exact Below.refl _
  · split
    · exact Below.loop (containerRound_below _ _ hd _) hnm _
    · exact Below.loop (containerRound_below _ _ hd _) hnm _

theorem decodeField_below {n m : Nat} (hnm : n ≤ m) (payload : Bytes) (offset : Int) :
    Below (decodeField n payload offset) (decodeField m payload offset) := by
  induction n generalizing m payload offset with
  | zero => exact fun h => absurd rfl h
  | succ n ih =>
    obtain ⟨m, rfl⟩ : ∃ k, m = k + 1 := ⟨m - 1, by omega⟩
    exact Below.bind (Below.refl _) fun h =>
      Below.bind (decodeValue_below (ih (by omega)) (by omega) _ _) fun _ => Below.refl _

theorem decodeField_steady (payload : Bytes) (offset : Int) :
    Steady fun fuel => decodeField fuel payload offset :=
  fun _ _ hnm => decodeField_below hnm payload offset

theorem unpackFields_steady (payload : Bytes) (count : Nat) (offset : Int) (data : JSRecord) :
    Steady fun fuel => unpackFields fuel payload count offset data := by
  intro n m hnm
  induction count generalizing offset data with
  | zero => exact Below.refl _
  | succ count ih => exact Below.bind (decodeField_below hnm _ _) fun _ => ih _ _

theorem containerRound_steady {σ : Type} (collect : σ → DecodedField → σ) (value : σ → JSValue)
    (items : Bytes) (s : Int × σ) :
    Steady fun fuel => containerRound collect value (decodeField fuel) items s :=
  fun _ _ hnm => containerRound_below collect value (fun _ _ => decodeField_below hnm _ _) items s

/-! ## The calls of one run -/

/-- `decodeField(buffer, offset)` enters the loop over the container `items`. -/
def Opens (buffer : Bytes) (offset : Int) (items : Bytes) : Prop :=
  ∃ h, fieldHeader buffer offset = .ok h ∧ h.valueBytes = items ∧
    (h.typeByte = some FIELD_TYPES.ARRAY ∨ h.typeByte = some FIELD_TYPES.MAP)

/-- `decodeField(buffer, offset)` returns `d`. -/
def FieldReturns (buffer : Bytes) (offset : Int) (d : DecodedField) : Prop :=
  Returns (fun fuel => decodeField fuel buffer offset) d

section Walk

variable (Moves : Bytes → Int → Int → Prop)

/-- Offsets of the container `items` that are come to from its start by `Moves`. -/
inductive WalkTo (items : Bytes) : Int → Prop
  | first : 0 < items.length → WalkTo items 0
  | next {o o' : Int} : WalkTo items o → Moves items o o' → o' < items.length → WalkTo items o'

/-- The fields inside the field at an offset, itself included. -/
inductive FieldIn : Bytes → Int → Bytes → Int → Prop
  | self (buffer : Bytes) (offset : Int) : FieldIn buffer offset buffer offset
  | nested {buffer items inner : Bytes} {offset start o : Int} : Opens buffer offset items →
      WalkTo Moves items start → FieldIn items start inner o → FieldIn buffer offset inner o

/-- Offsets of `count` fields, the first of them at `offset`. -/
inductive FieldFrom (payload : Bytes) : Nat → Int → Int → Prop
  | first (count : Nat) (offset : Int) : FieldFrom payload (count + 1) offset offset
  | next {count : Nat} {offset offset' o : Int} : Moves payload offset offset' →
      FieldFrom payload count offset' o → FieldFrom payload (count + 1) offset o

variable {Moves}

theorem FieldIn.trans {buffer inner inner' : Bytes} {offset o o' : Int}
    (h : FieldIn Moves buffer offset inner o) (h' : FieldIn Moves inner o inner' o') :
    FieldIn Moves buffer offset inner' o' := by
  induction h with
  | self => exact h'
  | nested hopen hloop _ ih => exact .nested hopen hloop (ih h')

end Walk

/-- A call of `decodeField` at `o` moves the cursor to `o'`. -/
def CursorMove (items : Bytes) (o o' : Int) : Prop :=
  ∃ d, FieldReturns items o d ∧ d.newOffset = o'

/-- Offsets at which the loop over a container calls `decodeField`. -/
abbrev LoopCall : Bytes → Int → Prop := WalkTo CursorMove

/-- The calls that `decodeField(buffer, offset)` gives rise to, itself included. -/
abbrev CallWithin : Bytes → Int → Bytes → Int → Prop := FieldIn CursorMove

/-- Offsets at which the field loop of `unpack` calls `decodeField`, with
`count` fields to read from `offset` on. -/
abbrev FieldCall : Bytes → Nat → Int → Int → Prop := FieldFrom CursorMove

/-- The calls of `decodeField` that `unpack` makes on `payload`. -/
def UnpackCall (sha256 : Bytes → Digest) (payload : Bytes) (buffer : Bytes) (offset : Int) :
    Prop :=
  ∃ h o, payloadHeader sha256 payload = .ok h ∧ FieldCall payload h.fieldCount h.offset o ∧
    CallWithin payload o buffer offset

theorem UnpackCall.nested {sha256 : Bytes → Digest} {payload buffer items : Bytes}
    {offset o : Int} (hcall : UnpackCall sha256 payload buffer offset)
    (hopen : Opens buffer offset items) (hloop : LoopCall items o) :
    UnpackCall sha256 payload items o := by
  obtain ⟨h, o', hh, hfield, hwithin⟩ := hcall
  exact ⟨h, o', hh, hfield, hwithin.trans (.nested hopen hloop (.self items o))⟩

/-- The loop over the container comes to an offset at which it was before. Its cursor moves when
an item is returned. -/
def Circles (items : Bytes) : Prop :=
  ∃ o, Relation.ReflTransGen (CursorMove items) 0 o ∧ Relation.TransGen (CursorMove items) o o

/-- The call itself throws: a check of the header fails, or the branch of the type byte throws. -/
def Rejects (buffer : Bytes) (offset : Int) (e : JSError) : Prop :=
  fieldHeader buffer offset = .error e ∨
    ∃ h, fieldHeader buffer offset = .ok h ∧
      decodeScalar h.typeByte h.valueBytes = some (.error e)

/-- The call itself is where the run comes to `o`, an error or no end. -/
def Stops (buffer : Bytes) (offset : Int) : Outcome JSError Empty → Prop
  | .running => ∃ items, Opens buffer offset items ∧ Circles items
  | .throws e => Rejects buffer offset e
  | .returns a => a.elim

/-- The call moves forward if it returns. -/
def Progress (buffer : Bytes) (offset : Int) : Prop :=
  ∀ d, FieldReturns buffer offset d → offset < d.newOffset

/-- A field that is read to its end but declares, as a signed 32-bit number, a
length that takes the cursor back to the start of the field or before it. -/
def Stalls (buffer : Bytes) (offset : Int) : Prop :=
  ∃ h, fieldHeader buffer offset = .ok h ∧ h.keyLen + h.valueLen ≤ -6 ∧
    ∃ value, Returns (fun fuel => decodeValue (decodeField fuel) fuel h.typeByte h.valueBytes) value

theorem fieldReturns_iff {buffer : Bytes} {offset : Int} {d : DecodedField} :
    FieldReturns buffer offset d ↔ ∃ h, fieldHeader buffer offset = .ok h ∧
      d.key = h.key ∧ d.newOffset = h.newOffset ∧
      Returns (fun fuel => decodeValue (decodeField fuel) fuel h.typeByte h.valueBytes) d.value := by
  constructor
  · rintro ⟨fuel, hf⟩
    cases fuel with
    | zero => cases hf
    | succ fuel =>
      obtain ⟨h, hh, hv⟩ := bind_eq_returns hf
      obtain ⟨value, hval, hd⟩ := bind_eq_returns hv
      cases hd
      exact ⟨h, ofExcept_eq_returns hh, rfl, rfl, fuel, hval⟩
  · rintro ⟨h, hh, hkey, hoff, fuel, hval⟩
    refine ⟨fuel + 1, ?_⟩
    cases d
    simp only at hkey hoff hval
    subst hkey hoff
    simp only [decodeField, hh, ofExcept_ok, bind_returns, hval]

/-- The spec of one call: it moves forward exactly when it does not stall. -/
theorem progress_iff (buffer : Bytes) (offset : Int) :
    Progress buffer offset ↔ ¬ Stalls buffer offset := by
  constructor
  · rintro hp ⟨h, hh, hle, value, hval⟩
    have hlt := hp ⟨h.key, value, h.newOffset⟩ (fieldReturns_iff.mpr ⟨h, hh, rfl, rfl, hval⟩)
    have := (fieldHeader_ok hh).2.1
    simp only at hlt
    omega
  · intro hs d hd
    obtain ⟨h, hh, _, hoff, hval⟩ := fieldReturns_iff.mp hd
    have hnew := (fieldHeader_ok hh).2.1
    by_contra hle
    exact hs ⟨h, hh, by omega, d.value, hval⟩

/-! ## What a call comes to -/

theorem decodeScalar_eq_none_iff {typeByte : Option UInt8} {valueBytes : Bytes} :
    decodeScalar typeByte valueBytes = none ↔
      typeByte = some FIELD_TYPES.ARRAY ∨ typeByte = some FIELD_TYPES.MAP := by
  constructor
  · intro hnone
    by_contra hne
    simp only [decodeScalar] at hnone
    repeat' split at hnone
    all_goals contradiction
  · rintro (rfl | rfl)
    · rfl
    · rfl

section Container

variable {σ : Type} (collect : σ → DecodedField → σ) (value : σ → JSValue) {items : Bytes}

/-- A field of the container that is read: the loop goes on behind it. -/
theorem containerRound_next {o : Int} {d : DecodedField} (hd : FieldReturns items o d) (acc : σ) :
    Settles (fun fuel => containerRound collect value (decodeField fuel) items (o, acc))
      (.returns (.inl (d.newOffset, collect acc d))) := by
  obtain ⟨h, hh, -⟩ := fieldReturns_iff.mp hd
  have ho : o < items.length := by
    have := (fieldHeader_bounds hh).1
    omega
  simp only [containerRound, ho, if_true]
  exact Settles.bind ((decodeField_steady items o).settles_returns_iff.mpr hd) (settles_const _)

theorem containerRound_stop {o : Int} {s : Outcome JSError Empty} (ho : o < items.length)
    (hstop : Settles (fun fuel => decodeField fuel items o) s.stop) (acc : σ) :
    Settles (fun fuel => containerRound collect value (decodeField fuel) items (o, acc)) s.stop := by
  simp only [containerRound, ho, if_true]
  exact Settles.bind_stop _ hstop

theorem containerLoop_reach {o o' : Int} (hreach : Relation.ReflTransGen (CursorMove items) o o')
    (acc : σ) : ∃ acc', ∀ out,
      Settles (fun fuel => loop (containerRound collect value (decodeField fuel) items) fuel
        (o', acc')) out →
      Settles (fun fuel => loop (containerRound collect value (decodeField fuel) items) fuel
        (o, acc)) out := by
  induction hreach with
  | refl => exact ⟨acc, fun _ h => h⟩
  | tail _ hmove ih =>
    obtain ⟨acc', hacc'⟩ := ih
    obtain ⟨d, hd, rfl⟩ := hmove
    exact ⟨collect acc' d, fun out h => hacc' out
      (Settles.loop_next (containerRound_steady collect value items)
        (containerRound_next collect value hd acc') h)⟩

theorem containerLoop_circles (hcircles : Circles items) (acc : σ) :
    Settles (fun fuel => loop (containerRound collect value (decodeField fuel) items) fuel
      (0, acc)) .running := by
  obtain ⟨o, hreach, hcycle⟩ := hcircles
  -- invariant: the offset that is met again lies ahead
  refine loop_endless (containerRound_steady collect value items)
    (fun s => Relation.ReflTransGen (CursorMove items) s.1 o) ?_ hreach
  rintro ⟨o', acc'⟩ hahead
  have hmoves : Relation.TransGen (CursorMove items) o' o :=
    Relation.TransGen.trans_right hahead hcycle
  obtain ⟨o'', ⟨d, hd, rfl⟩, hrest⟩ := Relation.TransGen.head'_iff.mp hmoves
  exact ⟨(d.newOffset, collect acc' d), hrest, containerRound_next collect value hd acc'⟩

end Container

theorem decodeValue_stops {buffer items : Bytes} {offset : Int} {h : FieldHeader}
    (hh : fieldHeader buffer offset = .ok h) (hopen : Opens buffer offset items)
    {s : Outcome JSError Empty}
    (hloop : ∀ {σ : Type} (collect : σ → DecodedField → σ) (value : σ → JSValue) (acc : σ),
      Settles (fun fuel => loop (containerRound collect value (decodeField fuel) items) fuel
        (0, acc)) s.stop) :
    Settles (fun fuel => decodeValue (decodeField fuel) fuel h.typeByte h.valueBytes) s.stop := by
  obtain ⟨h', hh', rfl, htype⟩ := hopen
  obtain rfl := Except.ok.inj (hh'.symm.trans hh)
  unfold decodeValue
  rw [decodeScalar_eq_none_iff.mpr htype]
  simp only
  split
  · exact hloop _ _ _
  · exact hloop _ _ _

theorem decodeField_stop_of_value {buffer : Bytes} {offset : Int} {h : FieldHeader}
    (hh : fieldHeader buffer offset = .ok h) {s : Outcome JSError Empty}
    (hvalue : Settles (fun fuel => decodeValue (decodeField fuel) fuel h.typeByte h.valueBytes)
      s.stop) : Settles (fun fuel => decodeField fuel buffer offset) s.stop := by
  refine Settles.succ ?_
  simp only [decodeField, hh, ofExcept_ok, bind_returns]
  exact Settles.bind_stop _ hvalue

theorem Stops.settles {buffer : Bytes} {offset : Int} {s : Outcome JSError Empty}
    (hstops : Stops buffer offset s) :
    Settles (fun fuel => decodeField fuel buffer offset) s.stop := by
  cases s with
  | running =>
    obtain ⟨items, ⟨h, hh, rfl, htype⟩, hcircles⟩ := hstops
    exact decodeField_stop_of_value hh (decodeValue_stops hh ⟨h, hh, rfl, htype⟩
      fun collect value acc => containerLoop_circles collect value hcircles acc)
  | throws e =>
    rcases hstops with herror | ⟨h, hh, herror⟩
    · refine Settles.succ ?_
      simp only [decodeField, herror, ofExcept_error, bind_throws]
      exact settles_const _
    · refine decodeField_stop_of_value hh ?_
      simp only [decodeValue, herror, ofExcept_error]
      exact settles_const _
  | returns a => exact a.elim

theorem LoopCall.reach {items : Bytes} {o : Int} (h : LoopCall items o) :
    o < items.length ∧ Relation.ReflTransGen (CursorMove items) 0 o := by
  induction h with
  | first hlength => exact ⟨by omega, .refl⟩
  | next _ hmove hlt ih => exact ⟨hlt, ih.2.tail hmove⟩

theorem LoopCall.of_reach {items : Bytes} {o : Int} (hlength : 0 < items.length)
    (h : Relation.ReflTransGen (CursorMove items) 0 o) : LoopCall items o := by
  induction h with
  | refl => exact .first hlength
  | tail _ hmove ih =>
    obtain ⟨d, hd, rfl⟩ := hmove
    obtain ⟨h, hh, -, hoffset, -⟩ := fieldReturns_iff.mp hd
    have := (fieldHeader_bounds hh).2
    exact .next ih ⟨d, hd, rfl⟩ (by omega)

/-- **Calls behind a call.** The whole call comes to what one of them comes to. -/
theorem CallWithin.settles {buffer inner : Bytes} {offset o : Int} {s : Outcome JSError Empty}
    (hcall : CallWithin buffer offset inner o) (hstops : Stops inner o s) :
    Settles (fun fuel => decodeField fuel buffer offset) s.stop := by
  induction hcall with
  | self => exact hstops.settles
  | nested hopen hloop _ ih =>
    obtain ⟨h, hh, rfl, htype⟩ := hopen
    refine decodeField_stop_of_value hh (decodeValue_stops hh ⟨h, hh, rfl, htype⟩ ?_)
    intro σ collect value acc
    obtain ⟨hlt, hreach⟩ := LoopCall.reach hloop
    obtain ⟨acc', hacc'⟩ := containerLoop_reach collect value hreach acc
    exact hacc' _ (Settles.loop_stop (containerRound_stop collect value hlt (ih hstops) acc'))

/-- A walk of the cursor that does not circle ends at a field that does not return. -/
theorem exists_last_cursor {items : Bytes} (hcircles : ¬ Circles items) :
    ∃ o, Relation.ReflTransGen (CursorMove items) 0 o ∧ ¬ ∃ o', CursorMove items o o' := by
  by_contra hgoes
  push Not at hgoes
  refine hcircles (exists_cycle (Set.finite_Ico 0 (items.length : Int)) ?_)
  intro x hx
  obtain ⟨o', d, hd, rfl⟩ := hgoes x hx
  obtain ⟨h, hh, -⟩ := fieldReturns_iff.mp hd
  have hstart := (fieldHeader_ok hh).1
  have hend := (fieldHeader_bounds hh).1
  exact ⟨⟨hstart, by omega⟩, _, d, hd, rfl⟩

/-- **Every call returns, or some call behind it stops.** The induction is on the
buffer: a nested one is shorter. -/
theorem decodeField_cases (buffer : Bytes) (offset : Int) :
    (∃ d, FieldReturns buffer offset d) ∨
      ∃ inner o s, CallWithin buffer offset inner o ∧ Stops inner o s := by
  induction hlen : buffer.length using Nat.strong_induction_on generalizing buffer offset with
  | _ k ih =>
    cases hh : fieldHeader buffer offset with
    | error e => exact Or.inr ⟨buffer, offset, .throws e, .self _ _, Or.inl hh⟩
    | ok h =>
      cases hscalar : decodeScalar h.typeByte h.valueBytes with
      | some r =>
        cases r with
        | error e => exact Or.inr ⟨buffer, offset, .throws e, .self _ _, Or.inr ⟨h, hh, hscalar⟩⟩
        | ok v =>
          refine Or.inl ⟨⟨h.key, v, h.newOffset⟩, fieldReturns_iff.mpr ⟨h, hh, rfl, rfl, 0, ?_⟩⟩
          simp only [decodeValue, hscalar, ofExcept_ok]
      | none =>
        have hopen : Opens buffer offset h.valueBytes :=
          ⟨h, hh, rfl, decodeScalar_eq_none_iff.mp hscalar⟩
        by_cases hempty : h.valueBytes = []
        · obtain ⟨v, hv⟩ : ∃ v, Returns
              (fun fuel => decodeValue (decodeField fuel) fuel h.typeByte h.valueBytes) v := by
            simp only [decodeValue, hscalar]
            split
            · exact ⟨.array [], 1, by simp [loop, arrayRound, containerRound, hempty]⟩
            · exact ⟨.map [], 1, by simp [loop, mapRound, containerRound, hempty]⟩
          exact Or.inl ⟨⟨h.key, v, h.newOffset⟩, fieldReturns_iff.mpr ⟨h, hh, rfl, rfl, hv⟩⟩
        · refine Or.inr ?_
          have hlength : 0 < h.valueBytes.length := List.length_pos_iff.mpr hempty
          by_cases hcircles : Circles h.valueBytes
          · exact ⟨buffer, offset, .running, .self _ _, h.valueBytes, hopen, hcircles⟩
          · obtain ⟨o, hreach, hlast⟩ := exists_last_cursor hcircles
            have hloop := LoopCall.of_reach hlength hreach
            rcases ih _ (hlen ▸ (fieldHeader_ok hh).2.2) h.valueBytes o rfl with
              ⟨d, hd⟩ | ⟨inner, o', s, hcall, hstops⟩
            · exact absurd ⟨d.newOffset, d, hd, rfl⟩ hlast
            · exact ⟨inner, o', s, .nested hopen hloop hcall, hstops⟩

/-- **The field loop** returns, or some call that it gives rise to stops. -/
theorem unpackFields_cases (payload : Bytes) (count : Nat) (offset : Int) (data : JSRecord) :
    (∃ r, Returns (fun fuel => unpackFields fuel payload count offset data) r) ∨
      ∃ o inner o' s, FieldCall payload count offset o ∧ CallWithin payload o inner o' ∧
        Stops inner o' s := by
  induction count generalizing offset data with
  | zero => exact Or.inl ⟨data, 0, rfl⟩
  | succ count ih =>
    rcases decodeField_cases payload offset with ⟨d, hd⟩ | ⟨inner, o', s, hcall, hstops⟩
    · rcases ih d.newOffset (data.assign d.key d.value) with
        ⟨r, hr⟩ | ⟨o, inner, o', s, hfield, hcall, hstops⟩
      · refine Or.inl ⟨r, ?_⟩
        rw [← (unpackFields_steady payload _ _ _).settles_returns_iff] at hr ⊢
        exact Settles.bind ((decodeField_steady payload offset).settles_returns_iff.mpr hd) hr
      · exact Or.inr ⟨o, inner, o', s, .next ⟨d, hd, rfl⟩ hfield, hcall, hstops⟩
    · exact Or.inr ⟨offset, inner, o', s, .first count offset, hcall, hstops⟩

theorem FieldCall.settles {payload inner : Bytes} {count : Nat} {offset o o' : Int}
    {s : Outcome JSError Empty} (hfield : FieldCall payload count offset o)
    (hcall : CallWithin payload o inner o') (hstops : Stops inner o' s) (data : JSRecord) :
    Settles (fun fuel => unpackFields fuel payload count offset data) s.stop := by
  induction hfield generalizing data with
  | first count offset => exact Settles.bind_stop _ (hcall.settles hstops)
  | next hmove _ ih =>
    obtain ⟨d, hd, rfl⟩ := hmove
    exact Settles.bind ((decodeField_steady _ _).settles_returns_iff.mpr hd) (ih hcall _)

/-! ## What `unpack` comes to -/

theorem unpack_steady (sha256 : Bytes → Digest) (payload : Bytes) :
    Steady fun fuel => unpack sha256 fuel payload :=
  fun _ _ hnm => Below.bind (Below.refl _) fun _ =>
    Below.bind (unpackFields_steady _ _ _ _ _ _ hnm) fun _ => Below.refl _

/-- A call at which the run stops decides what `unpack` comes to. -/
theorem UnpackCall.settles {sha256 : Bytes → Digest} {payload buffer : Bytes} {offset : Int}
    {s : Outcome JSError Empty} (hcall : UnpackCall sha256 payload buffer offset)
    (hstops : Stops buffer offset s) :
    Settles (fun fuel => unpack sha256 fuel payload) s.stop := by
  obtain ⟨h, o, hh, hfield, hwithin⟩ := hcall
  simp only [unpack, hh, ofExcept_ok, bind_returns]
  exact Settles.bind_stop _ (hfield.settles hwithin hstops [])

/-- **`unpack`** rejects the header, returns, or some call stops. -/
theorem unpack_cases (sha256 : Bytes → Digest) (payload : Bytes) :
    (∃ e, payloadHeader sha256 payload = .error e) ∨
      (∃ u, Returns (fun fuel => unpack sha256 fuel payload) u) ∨
      ∃ buffer offset s, UnpackCall sha256 payload buffer offset ∧ Stops buffer offset s := by
  cases hh : payloadHeader sha256 payload with
  | error e => exact Or.inl ⟨e, rfl⟩
  | ok h =>
    refine Or.inr ?_
    rcases unpackFields_cases payload h.fieldCount h.offset [] with
      ⟨data, n, hn⟩ | ⟨o, inner, o', s, hfield, hcall, hstops⟩
    · exact Or.inl ⟨⟨h.type, data, h.hash⟩, n, by simp [unpack, hh, hn]⟩
    · exact Or.inr ⟨inner, o', s, ⟨h, o, hh, hfield, hcall⟩, hstops⟩

theorem unpack_rejected {sha256 : Bytes → Digest} {payload : Bytes} {e : JSError}
    (h : payloadHeader sha256 payload = .error e) :
    Settles (fun fuel => unpack sha256 fuel payload) (.throws e) := by
  simp only [unpack, h, ofExcept_error, bind_throws]
  exact settles_const _

/-- **When `unpack` ends**: exactly when no loop over a container that it reads
comes back to an offset at which it was. -/
theorem unpack_finishes_iff (sha256 : Bytes → Digest) (payload : Bytes) :
    (Finishes fun fuel => unpack sha256 fuel payload) ↔
      ∀ buffer offset, UnpackCall sha256 payload buffer offset →
        ¬ Stops buffer offset .running := by
  constructor
  · intro hfin buffer offset hcall hstops
    exact (unpack_steady sha256 payload).settles_running_iff.mp (hcall.settles hstops) hfin
  · intro hends
    rcases unpack_cases sha256 payload with ⟨e, he⟩ | ⟨u, n, hn⟩ | ⟨buffer, offset, s, hcall, hstops⟩
    · obtain ⟨n, hn⟩ := unpack_rejected he
      exact ⟨n, by rw [hn n (Nat.le_refl n)]; simp⟩
    · exact ⟨n, by rw [hn]; simp⟩
    · cases s with
      | running => exact absurd hstops (hends buffer offset hcall)
      | throws e =>
        obtain ⟨n, hn⟩ := hcall.settles hstops
        exact ⟨n, by rw [hn n (Nat.le_refl n)]; simp⟩
      | returns a => exact a.elim

theorem not_circles_of_progress {items : Bytes}
    (hprog : ∀ o, LoopCall items o → Progress items o) : ¬ Circles items := by
  rintro ⟨o, hreach, hcycle⟩
  obtain ⟨_, ⟨d, hd, -⟩, -⟩ := Relation.TransGen.head'_iff.mp hcycle
  obtain ⟨h, hh, -⟩ := fieldReturns_iff.mp hd
  have hlength : 0 < items.length := by
    have hstart := (fieldHeader_ok hh).1
    have hend := (fieldHeader_bounds hh).1
    omega
  have hforward : ∀ o', Relation.TransGen (CursorMove items) o o' → o < o' := by
    intro o' hpath
    induction hpath with
    | single hmove =>
      obtain ⟨d', hd', rfl⟩ := hmove
      exact hprog o (LoopCall.of_reach hlength hreach) d' hd'
    | tail hpath hmove ih =>
      obtain ⟨d', hd', rfl⟩ := hmove
      have hloop := LoopCall.of_reach hlength (hreach.trans hpath.to_reflTransGen)
      exact ih.trans (hprog _ hloop d' hd')
  exact lt_irrefl o (hforward o hcycle)

/-- `unpack` ends with every call that returns moving forward exactly when no call stalls. -/
theorem unpack_progress_iff_stalls (sha256 : Bytes → Digest) (payload : Bytes) :
    ((Finishes fun fuel => unpack sha256 fuel payload) ∧
        ∀ buffer offset, UnpackCall sha256 payload buffer offset → Progress buffer offset) ↔
      ∀ buffer offset, UnpackCall sha256 payload buffer offset → ¬ Stalls buffer offset := by
  constructor
  · rintro ⟨-, hprog⟩ buffer offset hcall
    exact (progress_iff buffer offset).mp (hprog buffer offset hcall)
  · intro hstall
    have hprog : ∀ buffer offset, UnpackCall sha256 payload buffer offset →
        Progress buffer offset :=
      fun buffer offset hcall => (progress_iff buffer offset).mpr (hstall buffer offset hcall)
    refine ⟨(unpack_finishes_iff sha256 payload).mpr ?_, hprog⟩
    rintro buffer offset hcall ⟨items, hopen, hcircles⟩
    exact not_circles_of_progress (fun o hloop => hprog items o (hcall.nested hopen hloop)) hcircles

/-! ## A message that is never read to its end -/

/-- A message body followed by its checksum. -/
def checksummed (sha256 : Bytes → Digest) (body : Bytes) : Bytes :=
  body ++ (sha256 body).1.take 4

theorem checksummed_length (sha256 : Bytes → Digest) (body : Bytes) :
    (checksummed sha256 body).length = body.length + 4 := by
  rw [checksummed, List.length_append, List.length_take, (sha256 body).2]
  rfl

theorem slice_checksummed_body (sha256 : Bytes → Digest) (body : Bytes) :
    slice (checksummed sha256 body) 0 ((checksummed sha256 body).length - 4) = body := by
  have hstop : sliceIndex (body.length + 4) (((body.length + 4 : Nat) : Int) - 4) =
      body.length := by
    rw [sliceIndex, if_neg (by omega)]
    omega
  rw [slice, checksummed_length, hstop]
  simp [checksummed, sliceIndex]

theorem slice_checksummed_crc (sha256 : Bytes → Digest) (body : Bytes) :
    slice (checksummed sha256 body) ((checksummed sha256 body).length - 4)
      (checksummed sha256 body).length = (sha256 body).1.take 4 := by
  have hstart : sliceIndex (body.length + 4) (((body.length + 4 : Nat) : Int) - 4) =
      body.length := by
    rw [sliceIndex, if_neg (by omega)]
    omega
  have hstop : sliceIndex (body.length + 4) ((body.length + 4 : Nat) : Int) =
      (checksummed sha256 body).length := by
    rw [sliceIndex, if_neg (by omega), checksummed_length]
    omega
  rw [slice, checksummed_length, hstart, hstop, List.take_length]
  simp [checksummed]

/-- One array whose only item declares the length -6. -/
def loopingBody : Bytes :=
  MAGIC ++ [VERSION, 0, 0, 0, 16, 0, 0, 1] ++ [0, 9, 0, 0, 0, 7] ++
    [0, 1, 0xFF, 0xFF, 0xFF, 0xFA, 0]

/-- The item returns `undefined` and leaves the cursor at the start of the array. -/
theorem decodeField_looping (fuel : Nat) :
    decodeField (fuel + 1) [0, 1, 0xFF, 0xFF, 0xFF, 0xFA, 0] 0 =
      .returns ⟨[], .undefined, 0⟩ := rfl

theorem arrayLoop_looping (m n : Nat) (arr : List JSValue) :
    loop (arrayRound (decodeField m) [0, 1, 0xFF, 0xFF, 0xFF, 0xFA, 0]) n (0, arr) =
      .running := by
  cases m with
  | zero => cases n <;> rfl
  | succ m =>
    have hround : ∀ arr, arrayRound (decodeField (m + 1)) [0, 1, 0xFF, 0xFF, 0xFF, 0xFA, 0]
        (0, arr) = .returns (.inl (0, arr ++ [.undefined])) := by
      intro arr
      simp [arrayRound, containerRound, decodeField_looping]
    induction n generalizing arr with
    | zero => rfl
    | succ n ih => simp only [loop, hround, bind_returns, ih]

theorem unpack_looping_running (sha256 : Bytes → Digest) (fuel : Nat) :
    unpack sha256 fuel (checksummed sha256 loopingBody) = .running := by
  have hcrc : ∃ b₀ b₁ b₂ b₃ : UInt8,
      checksummed sha256 loopingBody = loopingBody ++ [b₀, b₁, b₂, b₃] := by
    have hlen : ((sha256 loopingBody).1.take 4).length = 4 := by
      rw [List.length_take, (sha256 loopingBody).2]
      rfl
    match h : (sha256 loopingBody).1.take 4, hlen with
    | [b₀, b₁, b₂, b₃], _ => exact ⟨b₀, b₁, b₂, b₃, by rw [checksummed, h]⟩
  obtain ⟨b₀, b₁, b₂, b₃, hpayload⟩ := hcrc
  have hheader : payloadHeader sha256 (checksummed sha256 loopingBody) =
      .ok ⟨[], 1, 12, js "0x" ++ bytesToHex (sha256 loopingBody).1⟩ := by
    unfold payloadHeader
    simp only [slice_checksummed_body, slice_checksummed_crc, ne_eq, not_true_eq_false, if_false]
    rw [hpayload]
    simp [loopingBody, MAGIC, VERSION, MAX_PAYLOAD_SIZE, byteAt]
    rfl
  have hfield : fieldHeader (checksummed sha256 loopingBody) 12 =
      .ok ⟨[], 0, some FIELD_TYPES.ARRAY, 7, [0, 1, 0xFF, 0xFF, 0xFF, 0xFA, 0], 25⟩ := by
    rw [hpayload]
    simp [loopingBody, MAGIC, VERSION, fieldHeader, byteAt]
    rfl
  have hdecode : decodeField fuel (checksummed sha256 loopingBody) 12 = .running := by
    cases fuel with
    | zero => rfl
    | succ fuel =>
      have harray : decodeScalar (some FIELD_TYPES.ARRAY) [0, 1, 0xFF, 0xFF, 0xFF, 0xFA, 0] =
          none := rfl
      simp only [decodeField, hfield, ofExcept_ok, bind_returns, decodeValue, harray, if_true,
        arrayLoop_looping, bind_running]
  simp [unpack, hheader, unpackFields, hdecode]

/-- SHA-256 of `loopingBody`. -/
def loopingDigest : Digest :=
  ⟨[0x93, 0x05, 0x36, 0xE7, 0x29, 0x8B, 0x26, 0x80, 0x90, 0xCF, 0xFE, 0x95,
    0x3E, 0xBC, 0xFC, 0x35, 0x4F, 0x30, 0xD1, 0x4E, 0xC2, 0xAF, 0x7E, 0x2D,
    0x89, 0xCD, 0x4E, 0x3B, 0xC2, 0x1B, 0x4D, 0x99], rfl⟩

/-- `unpack` of this message of 29 bytes never ends. -/
theorem unpack_looping :
    (checksummed (fun _ => loopingDigest) loopingBody).length ≤ MAX_PAYLOAD_SIZE ∧
      ¬ Finishes fun fuel => unpack (fun _ => loopingDigest) fuel
        (checksummed (fun _ => loopingDigest) loopingBody) := by
  refine ⟨by decide, ?_⟩
  rintro ⟨fuel, h⟩
  exact h (unpack_looping_running _ fuel)

end BioFire.BinarySerializer
