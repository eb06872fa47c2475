import BioFire.CanonicalForm
import Mathlib.Tactic.LinearCombination

/-!
# Fields read back

`decodeField` on what `encodeField` wrote. The reader keeps four bytes free behind every
value, the length of the checksum; inside a container there is no checksum.

* `fieldReturns_placed_iff`: what is read where a field stands in a buffer;
* `decodesBack_iff`: which trees come back, among the containers the empty ones only;
* `numbers_survive_iff`: which numbers come back.
-/

namespace BioFire

/-! ## A part of a buffer -/

theorem byteAt_append {front bs : Bytes} {i : Int} {j : ℕ} (hi : i = front.length + j) :
    byteAt (front ++ bs) i = bs[j]? := by
  rw [byteAt, if_pos (by omega), List.getElem?_append_right (by omega)]
  congr 1
  omega

namespace BinarySerializer

open Outcome

/-! ## A field in a buffer -/

theorem fieldHeader_placed {before after k v : Bytes} {t : UInt8} (hk : k.length ≤ 255)
    (hv : v.length < 2 ^ 31) (hafter : 4 ≤ after.length) :
    fieldHeader (before ++ frameField k t v ++ after) before.length =
      .ok ⟨textDecode k, k.length, some t, v.length, v,
        before.length + (frameField k t v).length⟩ := by
  have hkeyLen : (UInt8.ofNat k.length).toNat = k.length := by
    rw [UInt8.toNat_ofNat', Nat.mod_eq_of_lt (by omega)]
  rw [frameField_length]
  generalize hpayload : before ++ frameField k t v ++ after = payload
  have hlength : (payload.length : Int) =
      before.length + (k.length + v.length + 6) + after.length := by
    rw [← hpayload, List.length_append, List.length_append, frameField_length]
    omega
  have hkeyBytes : slice payload (before.length + 1) (before.length + 1 + k.length) = k := by
    have hcut : payload = (before ++ [UInt8.ofNat k.length]) ++ (k ++ ([t] ++
        [byteOf v.length 24, byteOf v.length 16, byteOf v.length 8, byteOf v.length 0] ++
          v ++ after)) := by
      simp [← hpayload, frameField]
    rw [hcut]
    exact slice_middle (by simp) (by simp)
  have hbyte : ∀ {i : Int} (j : ℕ), i = before.length + 1 + k.length + j →
      byteAt payload i = (t :: byteOf v.length 24 :: byteOf v.length 16 ::
        byteOf v.length 8 :: byteOf v.length 0 :: (v ++ after))[j]? := by
    intro i j hi
    have hcut : payload = (before ++ [UInt8.ofNat k.length] ++ k) ++ (t ::
        byteOf v.length 24 :: byteOf v.length 16 :: byteOf v.length 8 :: byteOf v.length 0 ::
          (v ++ after)) := by
      simp [← hpayload, frameField]
    rw [hcut]
    exact byteAt_append (by simp [hi]; ring)
  have hvalueBytes : slice payload (before.length + 1 + k.length + 1 + 4)
      (before.length + 1 + k.length + 1 + 4 + v.length) = v := by
    have hcut : payload = (before ++ [UInt8.ofNat k.length] ++ k ++
        [t, byteOf v.length 24, byteOf v.length 16, byteOf v.length 8, byteOf v.length 0]) ++
          (v ++ after) := by
      simp [← hpayload, frameField]
    rw [hcut]
    exact slice_middle (by simp; ring) (by simp; ring)
  have hkeyAt : byteAt payload before.length = some (UInt8.ofNat k.length) := by
    rw [← hpayload, List.append_assoc, byteAt_append (j := 0) (by simp)]
    rfl
  have hvalueLen : int32 (byteAt payload (before.length + 1 + k.length + 1))
      (byteAt payload (before.length + 1 + k.length + 1 + 1))
      (byteAt payload (before.length + 1 + k.length + 1 + 2))
      (byteAt payload (before.length + 1 + k.length + 1 + 3)) = v.length := by
    rw [hbyte 1 (by omega), hbyte 2 (by omega), hbyte 3 (by omega), hbyte 4 (by omega)]
    exact int32_byteOf (by omega) (by omega)
  rw [fieldHeader, if_neg (by omega), hkeyAt]
  simp only [hkeyLen]
  rw [if_neg (by omega), hkeyBytes, hvalueLen, if_neg (by omega), hvalueBytes, hbyte 0 (by omega)]
  simp only [List.getElem?_cons_zero, Except.ok.injEq, FieldHeader.mk.injEq, true_and]
  omega

/-- **A field is read where it stands**: its key as text, its value by its type byte, and
the cursor goes to its end. -/
theorem fieldReturns_placed_iff {before after k v : Bytes} {t : UInt8} {d : DecodedField}
    (hk : k.length ≤ 255) (hv : v.length < 2 ^ 31) (hafter : 4 ≤ after.length) :
    FieldReturns (before ++ frameField k t v ++ after) before.length d ↔
      d.key = textDecode k ∧ d.newOffset = before.length + (frameField k t v).length ∧
        Returns (fun fuel => decodeValue (decodeField fuel) fuel (some t) v) d.value := by
  rw [fieldReturns_iff]
  constructor
  · rintro ⟨h, hh, hd⟩
    rw [fieldHeader_placed hk hv hafter] at hh
    cases hh
    exact hd
  · exact fun hd => ⟨_, fieldHeader_placed hk hv hafter, hd⟩

/-- Below a length of `2 ^ 31` only does the cursor go to the end of the field. -/
theorem length_lt_of_returns {before after k v : Bytes} {t : UInt8} {d : DecodedField}
    (hk : k.length ≤ 255)
    (hd : FieldReturns (before ++ frameField k t v ++ after) before.length d)
    (hend : d.newOffset = before.length + (frameField k t v).length) : v.length < 2 ^ 31 := by
  obtain ⟨h, hh, -, hoffset, -⟩ := fieldReturns_iff.mp hd
  obtain ⟨hkeyAt, hlt, -, -, hvalueLen, -⟩ := fieldHeader_eq hh
  have hnew := (fieldHeader_ok hh).2.1
  have hkeyLen : h.keyLen = k.length := by
    rw [List.append_assoc, byteAt_append (j := 0) (by simp)] at hkeyAt
    have hbyte := congrArg UInt8.toNat (Option.some.inj hkeyAt)
    rw [UInt8.toNat_ofNat', UInt8.toNat_ofNat'] at hbyte
    omega
  have hsigned : h.valueLen < 2 ^ 31 := by
    rw [hvalueLen, int32]
    exact BitVec.toInt_lt
  rw [frameField_length] at hend
  omega

theorem returns_scalar_iff {t : UInt8} {v : Bytes} {value w : JSValue}
    (h : decodeScalar (some t) v = some (.ok value)) :
    Returns (fun fuel => decodeValue (decodeField fuel) fuel (some t) v) w ↔ w = value := by
  simp only [decodeValue, h, ofExcept_ok]
  constructor
  · rintro ⟨n, hn⟩
    exact (returns.inj hn).symm
  · rintro rfl
    exact ⟨0, rfl⟩

/-! ## Bigints -/

theorem bigOfBytes_bigIntToBytes (n : Int) (k : ℕ) :
    bigOfBytes (bigIntToBytes n k) = n % 256 ^ k := by
  induction k generalizing n with
  | zero => rw [pow_zero, Int.emod_one]; rfl
  | succ k ih =>
    have hlow : ((lowByte n).toNat : Int) = n % 256 := by
      rw [lowByte, UInt8.toNat_ofNat']
      omega
    have hconcat : bigOfBytes (bigIntToBytes (n >>> (8 : ℕ)) k ++ [lowByte n]) =
        bigOfBytes (bigIntToBytes (n >>> (8 : ℕ)) k) * 256 + (lowByte n).toNat :=
      List.foldl_concat _ 0 _ _
    have hdiv : n >>> (8 : ℕ) = n / 256 := by
      rw [Int.shiftRight_eq_div_pow]
      rfl
    rw [bigIntToBytes, hconcat, ih, hlow, hdiv, pow_succ']
    have hquotient := Int.emod_add_mul_ediv (n / 256) (256 ^ k)
    have hwhole := Int.emod_add_mul_ediv n 256
    have hpos : (0 : Int) < 256 ^ k := by positivity
    have hnonneg := Int.emod_nonneg (n / 256) hpos.ne'
    have hlt := Int.emod_lt_of_pos (n / 256) hpos
    symm
    rw [Int.emod_eq_iff (by positivity), Int.natAbs_of_nonneg (by positivity)]
    refine ⟨by omega, by omega, -(n / 256 / 256 ^ k), ?_⟩
    linear_combination hquotient * 256 + hwhole

theorem length_bigIntToBytes (n : Int) (k : ℕ) : (bigIntToBytes n k).length = k := by
  induction k generalizing n with
  | zero => rfl
  | succ k ih => rw [bigIntToBytes, List.length_append, ih, List.length_singleton]

/-- Thirty-two bytes hold the bigints from `0` to `2 ^ 256 - 1`. -/
theorem bigOfBytes_word_iff {n : Int} :
    bigOfBytes (bigIntToBytes n 32) = n ↔ 0 ≤ n ∧ n < 2 ^ 256 := by
  rw [bigOfBytes_bigIntToBytes, show (256 : Int) ^ 32 = 2 ^ 256 by norm_num]
  constructor
  · intro h
    rw [← h]
    exact ⟨Int.emod_nonneg n (by norm_num), Int.emod_lt_of_pos n (by norm_num)⟩
  · exact fun h => Int.emod_eq_of_lt h.1 h.2

/-! ## Trees -/

/-- Arrays and maps over booleans, byte strings, well-formed strings of at most 4096 bytes
and bigints of 32 bytes. The keys of a map are distinct, and `__proto__` is none of them. -/
inductive Tree : JSValue → Prop where
  | bool (b : Bool) : Tree (.bool b)
  | bytes (bs : Bytes) : Tree (.bytes bs)
  | string {s : JSString} : WellFormed s → (textEncode s).length ≤ 4096 → Tree (.string s)
  | bigint {n : Int} : 0 ≤ n → n < 2 ^ 256 → Tree (.bigint n)
  | array {items : List JSValue} : (∀ item ∈ items, Tree item) → Tree (.array items)
  | map {entries : JSRecord} : (entries.map Prod.fst).Nodup →
      (∀ e ∈ entries, e.1 ≠ js "__proto__") → (∀ e ∈ entries, Tree e.2) → Tree (.map entries)

mutual

/-- The keys within a tree. -/
def treeKeys : JSValue → List JSString
  | .array items => itemKeys items
  | .map entries => entryKeys entries
  | _ => []

def itemKeys : List JSValue → List JSString
  | [] => []
  | item :: items => treeKeys item ++ itemKeys items

def entryKeys : List (JSString × JSValue) → List JSString
  | [] => []
  | (key, value) :: entries => key :: treeKeys value ++ entryKeys entries

end

/-- A key that one byte can give the length of. -/
def ShortKey (key : JSString) : Prop := (textEncode key).length ≤ 255

/-- What `encodeField` writes for the tree is read back, wherever it stands in a buffer
that goes on for four bytes. -/
def DecodesBack (key : JSString) (tree : JSValue) : Prop :=
  ∀ bytes, encodeField key tree = .ok bytes → ∀ before after : Bytes, 4 ≤ after.length →
    FieldReturns (before ++ bytes ++ after) before.length
      ⟨key, tree, before.length + bytes.length⟩

/-- A tree without branches, in a form that the reader keeps: byte strings whose length is a
signed 32-bit number, strings that do not begin with a byte order mark, empty containers. -/
def KeptFlat : JSValue → Prop
  | .bytes bs => bs.length < 2 ^ 31
  | .string s => s.head? ≠ some 0xFEFF
  | .array items => items = []
  | .map entries => entries = []
  | _ => True

/-- A key that the reader keeps. -/
def KeptKey (key : JSString) : Prop := WellFormed key ∧ key.head? ≠ some 0xFEFF

theorem encodeField_isOk {key : JSString} {value : JSValue} :
    (∃ bytes, encodeField key value = .ok bytes) ↔
      ShortKey key ∧ ∃ t v, encodeValue value = .ok (t, v) := by
  constructor
  · rintro ⟨bytes, h⟩
    obtain ⟨hkey, t, v, hvalue, -⟩ := encodeKeyed_eq_ok.mp h
    exact ⟨hkey, t, v, hvalue⟩
  · rintro ⟨hkey, t, v, hvalue⟩
    exact ⟨_, encodeKeyed_eq_ok.mpr ⟨hkey, t, v, hvalue, rfl⟩⟩

theorem encodeEntries_isOk {entries : JSRecord}
    (h : ∀ e ∈ entries, (∃ t v, encodeValue e.2 = .ok (t, v)) ↔ ∀ k ∈ treeKeys e.2, ShortKey k) :
    (∃ bytes, encodeEntries entries = .ok bytes) ↔ ∀ k ∈ entryKeys entries, ShortKey k := by
  induction entries with
  | nil => exact iff_of_true ⟨[], rfl⟩ fun k hk => absurd hk List.not_mem_nil
  | cons e entries ih =>
    obtain ⟨key, value⟩ := e
    have hentry : (∃ bytes, encodeField key value = .ok bytes) ↔
        ∀ k ∈ key :: treeKeys value, ShortKey k := by
      rw [encodeField_isOk, List.forall_mem_cons]
      exact and_congr_right fun _ => h (key, value) List.mem_cons_self
    rw [entryKeys, List.forall_mem_append, ← hentry,
      ← ih fun e' he' => h e' (List.mem_cons_of_mem (key, value) he')]
    constructor
    · rintro ⟨bytes, hbytes⟩
      obtain ⟨part, parts, hpart, hparts, -⟩ := encodeEntries_cons_eq_ok.mp hbytes
      exact ⟨⟨part, hpart⟩, parts, hparts⟩
    · rintro ⟨⟨part, hpart⟩, parts, hparts⟩
      exact ⟨_, encodeEntries_cons_eq_ok.mpr ⟨part, parts, hpart, hparts, rfl⟩⟩

theorem shortKeys_items (items : List JSValue) :
    (∀ k ∈ entryKeys (items.map fun item => ([], item)), ShortKey k) ↔
      ∀ k ∈ itemKeys items, ShortKey k := by
  induction items with
  | nil => exact Iff.rfl
  | cons item items ih =>
    have hempty : ShortKey [] := Nat.zero_le 255
    rw [List.map_cons, entryKeys, itemKeys, List.cons_append, List.forall_mem_cons,
      and_iff_right hempty, List.forall_mem_append, List.forall_mem_append, ih]

/-- **A tree is encoded** exactly when all keys within it are short. -/
theorem Tree.encodeValue_isOk {tree : JSValue} (h : Tree tree) :
    (∃ t v, encodeValue tree = .ok (t, v)) ↔ ∀ k ∈ treeKeys tree, ShortKey k := by
  induction h with
  | bool b => exact iff_of_true ⟨_, _, rfl⟩ fun k hk => absurd hk List.not_mem_nil
  | bytes bs => exact iff_of_true ⟨_, _, rfl⟩ fun k hk => absurd hk List.not_mem_nil
  | bigint => exact iff_of_true ⟨_, _, rfl⟩ fun k hk => absurd hk List.not_mem_nil
  | string _ hlength =>
    exact iff_of_true ⟨_, _, encodeValue_string_eq_ok.mpr ⟨hlength, rfl, rfl⟩⟩
      fun k hk => absurd hk List.not_mem_nil
  | array _ ih =>
    rw [treeKeys, ← shortKeys_items, ← encodeEntries_isOk (List.forall_mem_map.mpr ih),
      ← encodeItems_eq]
    constructor
    · rintro ⟨t, v, hv⟩
      exact ⟨v, (encodeValue_array_eq_ok.mp hv).2⟩
    · rintro ⟨v, hv⟩
      exact ⟨_, v, encodeValue_array_eq_ok.mpr ⟨rfl, hv⟩⟩
  | map _ _ _ ih =>
    rw [treeKeys, ← encodeEntries_isOk ih]
    constructor
    · rintro ⟨t, v, hv⟩
      exact ⟨v, (encodeValue_map_eq_ok.mp hv).2⟩
    · rintro ⟨v, hv⟩
      exact ⟨_, v, encodeValue_map_eq_ok.mpr ⟨rfl, hv⟩⟩

theorem encodeEntries_eq_nil {entries : JSRecord} (h : encodeEntries entries = .ok []) :
    entries = [] := by
  cases entries with
  | nil => rfl
  | cons e entries =>
    obtain ⟨part, parts, hpart, -, heq⟩ := encodeEntries_cons_eq_ok.mp h
    obtain ⟨-, t, v, -, rfl⟩ := encodeKeyed_eq_ok.mp hpart
    cases heq

theorem encodeItems_eq_nil {items : List JSValue} (h : encodeItems items = .ok []) :
    items = [] := by
  rw [encodeItems_eq] at h
  exact List.map_eq_nil_iff.mp (encodeEntries_eq_nil h)

/-- A container is read only when there is nothing in it: its last field would have to end
four bytes before it does. -/
theorem eq_nil_of_returns {t : UInt8} {v : Bytes} {value : JSValue}
    (ht : t = FIELD_TYPES.ARRAY ∨ t = FIELD_TYPES.MAP) (hv : v.length < 2 ^ 31)
    (h : Returns (fun fuel => decodeValue (decodeField fuel) fuel (some t) v) value) : v = [] := by
  by_contra hne
  have hkey : ([] : Bytes).length ≤ 255 := Nat.zero_le 255
  have hafter : 4 ≤ ([0, 0, 0, 0] : Bytes).length := le_rfl
  have hd : FieldReturns ([] ++ frameField [] t v ++ [0, 0, 0, 0]) (([] : Bytes).length : ℕ)
      ⟨textDecode [], value, (([] : Bytes).length : ℕ) + (frameField [] t v).length⟩ :=
    (fieldReturns_placed_iff hkey hv hafter).mpr ⟨rfl, rfl, h⟩
  refine LoopCall.not_returns (.first (List.length_pos_iff.mpr hne))
    ⟨_, fieldHeader_placed hkey hv hafter, rfl, ?_⟩ hd
  exact ht.imp (congrArg some) (congrArg some)

/-- **The value of a tree**: it is read back when the tree has no branches. -/
theorem Tree.returns_iff {tree : JSValue} (h : Tree tree) {t : UInt8} {v : Bytes}
    (hvalue : encodeValue tree = .ok (t, v)) (hv : v.length < 2 ^ 31) :
    Returns (fun fuel => decodeValue (decodeField fuel) fuel (some t) v) tree ↔ KeptFlat tree := by
  cases h with
  | bool b =>
    cases hvalue
    have hscalar : decodeScalar (some FIELD_TYPES.BOOL) [if b then 1 else 0] =
        some (.ok (.bool b)) := by
      cases b <;> rfl
    exact iff_of_true ((returns_scalar_iff hscalar).mpr rfl) trivial
  | bytes bs =>
    cases hvalue
    exact iff_of_true ((returns_scalar_iff rfl).mpr rfl) hv
  | bigint hnonneg hlt =>
    cases hvalue
    refine iff_of_true ((returns_scalar_iff rfl).mpr ?_) trivial
    rw [bigOfBytes_word_iff.mpr ⟨hnonneg, hlt⟩]
  | @string s hwell _ =>
    obtain ⟨-, rfl, rfl⟩ := encodeValue_string_eq_ok.mp hvalue
    have hscalar : decodeScalar (some FIELD_TYPES.STRING) (textEncode s) =
        some (.ok (.string (textDecode (textEncode s)))) := rfl
    rw [returns_scalar_iff hscalar, JSValue.string.injEq, eq_comm, textDecode_textEncode_iff]
    exact and_iff_right hwell
  | array _ =>
    obtain ⟨rfl, hitems⟩ := encodeValue_array_eq_ok.mp hvalue
    constructor
    · intro hreturns
      obtain rfl := eq_nil_of_returns (Or.inl rfl) hv hreturns
      exact encodeItems_eq_nil hitems
    · rintro rfl
      cases hitems
      exact ⟨1, rfl⟩
  | map _ _ _ =>
    obtain ⟨rfl, hentries⟩ := encodeValue_map_eq_ok.mp hvalue
    constructor
    · intro hreturns
      obtain rfl := eq_nil_of_returns (Or.inr rfl) hv hreturns
      exact encodeEntries_eq_nil hentries
    · rintro rfl
      cases hentries
      exact ⟨1, rfl⟩

theorem Tree.length_lt {tree : JSValue} (h : Tree tree) (hflat : KeptFlat tree) {t : UInt8}
    {v : Bytes} (hvalue : encodeValue tree = .ok (t, v)) : v.length < 2 ^ 31 := by
  cases h with
  | bool b =>
    cases hvalue
    rw [List.length_singleton]
    decide
  | bytes bs =>
    cases hvalue
    exact hflat
  | bigint =>
    cases hvalue
    rw [length_bigIntToBytes]
    decide
  | string _ hlength =>
    obtain ⟨-, -, rfl⟩ := encodeValue_string_eq_ok.mp hvalue
    omega
  | array _ =>
    obtain rfl : _ = [] := hflat
    cases hvalue
    decide
  | map _ _ _ =>
    obtain rfl : _ = [] := hflat
    cases hvalue
    decide

/-- **Trees read back.** When the encoder takes the tree, its field is read back exactly when
the key is kept and the tree is a kept leaf or an empty container. -/
theorem decodesBack_iff {key : JSString} {tree : JSValue} (h : Tree tree) :
    DecodesBack key tree ↔
      (∃ k ∈ key :: treeKeys tree, ¬ ShortKey k) ∨ KeptKey key ∧ KeptFlat tree := by
  constructor
  · intro hback
    by_cases hshort : ∀ k ∈ key :: treeKeys tree, ShortKey k
    · obtain ⟨hkey, hkeys⟩ := List.forall_mem_cons.mp hshort
      obtain ⟨t, v, hvalue⟩ := h.encodeValue_isOk.mpr hkeys
      have hd := hback _ (encodeKeyed_eq_ok.mpr ⟨hkey, t, v, hvalue, rfl⟩) [] [0, 0, 0, 0] le_rfl
      have hv := length_lt_of_returns hkey hd rfl
      obtain ⟨hdecoded, -, hreturns⟩ := (fieldReturns_placed_iff hkey hv le_rfl).mp hd
      exact Or.inr ⟨textDecode_textEncode_iff.mp hdecoded.symm,
        (h.returns_iff hvalue hv).mp hreturns⟩
    · simp only [not_forall] at hshort
      obtain ⟨k, hk, hlong⟩ := hshort
      exact Or.inl ⟨k, hk, hlong⟩
  · rintro (⟨k, hk, hlong⟩ | ⟨hkept, hflat⟩) bytes hbytes before after hafter
    · obtain ⟨hkey, hvalue⟩ := encodeField_isOk.mp ⟨bytes, hbytes⟩
      exact absurd (List.forall_mem_cons.mpr ⟨hkey, h.encodeValue_isOk.mp hvalue⟩ k hk) hlong
    · obtain ⟨hkey, t, v, hvalue, rfl⟩ := encodeKeyed_eq_ok.mp hbytes
      have hv := h.length_lt hflat hvalue
      exact (fieldReturns_placed_iff hkey hv hafter).mpr
        ⟨(textDecode_textEncode_iff.mpr hkept).symm, rfl, (h.returns_iff hvalue hv).mpr hflat⟩

theorem decodesBack_iff_flag : DecodesBack (js "o") (.bool true) :=
  (decodesBack_iff (.bool true)).mpr
    (Or.inr ⟨⟨wellFormed_js (by decide), by decide⟩, trivial⟩)

/-- `[true]` is written in fourteen bytes and rejected by the reader. -/
theorem nested_flag_rejected :
    Tree (.array [.bool true]) ∧
      encodeField (js "o") (.array [.bool true]) =
        .ok [1, 0x6F, FIELD_TYPES.ARRAY, 0, 0, 0, 7, 0, FIELD_TYPES.BOOL, 0, 0, 0, 1, 1] ∧
      Throws (fun fuel => decodeField fuel
          ([1, 0x6F, FIELD_TYPES.ARRAY, 0, 0, 0, 7, 0, FIELD_TYPES.BOOL, 0, 0, 0, 1, 1] ++
            [0, 0, 0, 0]) 0)
        (serializationError (js "Value out of bounds for field ''")) ∧
      ¬ DecodesBack (js "o") (.array [.bool true]) := by
  have htree : Tree (.array [.bool true]) := by
    refine .array fun item hitem => ?_
    rw [List.mem_singleton.mp hitem]
    exact .bool true
  have hencode : encodeField (js "o") (.array [.bool true]) =
      .ok [1, 0x6F, FIELD_TYPES.ARRAY, 0, 0, 0, 7, 0, FIELD_TYPES.BOOL, 0, 0, 0, 1, 1] := by
    rfl
  have hthrows : Throws (fun fuel => decodeField fuel
      ([1, 0x6F, FIELD_TYPES.ARRAY, 0, 0, 0, 7, 0, FIELD_TYPES.BOOL, 0, 0, 0, 1, 1] ++
        [0, 0, 0, 0]) 0) (serializationError (js "Value out of bounds for field ''")) :=
    ⟨2, by rfl⟩
  refine ⟨htree, hencode, hthrows, fun hback => ?_⟩
  have hreturns := hback _ hencode [] [0, 0, 0, 0] le_rfl
  have hsteady := decodeField_steady
    ([1, 0x6F, FIELD_TYPES.ARRAY, 0, 0, 0, 7, 0, FIELD_TYPES.BOOL, 0, 0, 0, 1, 1] ++
      [0, 0, 0, 0]) 0
  cases (hsteady.settles_throws_iff.mpr hthrows).unique (hsteady.settles_returns_iff.mpr hreturns)

/-! ## Numbers -/

/-- The encoder refuses the value by a `SerializationError`, or the reader returns it from
the field, wherever that stands in a buffer that goes on for four bytes. -/
def Survives (key : JSString) (value : JSValue) : Prop :=
  (∃ e, encodeField key value = .error e ∧ e.name = .SerializationError) ∨
    ∃ bytes, encodeField key value = .ok bytes ∧ ∀ before after : Bytes, 4 ≤ after.length →
      ∃ d, FieldReturns (before ++ bytes ++ after) before.length d ∧ d.value = value

theorem survives_of_long {key : JSString} (hkey : ¬ ShortKey key) (value : JSValue) :
    Survives key value := by
  refine Or.inl ⟨serializationError (js "Key too long"), ?_, rfl⟩
  rw [encodeField, encodeKeyed, if_pos (not_le.mp hkey)]

theorem survives_of_error {key : JSString} {value : JSValue} {e : JSError} (hkey : ShortKey key)
    (h : encodeValue value = .error e) :
    Survives key value ↔ e.name = .SerializationError := by
  have hencode : encodeField key value = .error e := by
    rw [encodeField, encodeKeyed, if_neg (not_lt.mpr hkey), h]
    rfl
  constructor
  · rintro (⟨e', he', hname⟩ | ⟨bytes, hbytes, -⟩)
    · rw [hencode] at he'
      cases he'
      exact hname
    · rw [hencode] at hbytes
      cases hbytes
  · exact fun hname => Or.inl ⟨e, hencode, hname⟩

theorem survives_of_scalar {key : JSString} {value value' : JSValue} {t : UInt8} {v : Bytes}
    (hkey : ShortKey key) (h : encodeValue value = .ok (t, v)) (hv : v.length < 2 ^ 31)
    (hscalar : decodeScalar (some t) v = some (.ok value')) :
    Survives key value ↔ value = value' := by
  have hencode : encodeField key value = .ok (frameField (textEncode key) t v) :=
    encodeKeyed_eq_ok.mpr ⟨hkey, t, v, h, rfl⟩
  constructor
  · rintro (⟨e, he, -⟩ | ⟨bytes, hbytes, hback⟩)
    · rw [hencode] at he
      cases he
    · rw [hencode] at hbytes
      cases hbytes
      obtain ⟨d, hd, hvalue⟩ := hback [] [0, 0, 0, 0] le_rfl
      obtain ⟨-, -, hreturns⟩ := (fieldReturns_placed_iff hkey hv le_rfl).mp hd
      rw [← hvalue]
      exact (returns_scalar_iff hscalar).mp hreturns
  · rintro rfl
    refine Or.inr ⟨_, hencode, fun before after hafter => ?_⟩
    exact ⟨⟨_, value, _⟩, (fieldReturns_placed_iff hkey hv hafter).mpr
      ⟨rfl, rfl, (returns_scalar_iff hscalar).mpr rfl⟩, rfl⟩

/-- Negative numbers are refused; every other error is a `TypeError` or a `RangeError`. -/
theorem encodeNumber_error {x : JSNumber} {e : JSError} (h : encodeNumber x = .error e) :
    (e.name = .SerializationError ↔ x.ltRat 0 = true) ∧
      ∀ n : ℕ, n < 2 ^ 31 → x ≠ .finite n := by
  unfold encodeNumber at h
  split at h
  next hnegative =>
    cases h
    refine ⟨iff_of_true rfl hnegative, ?_⟩
    rintro n - rfl
    simp only [JSNumber.ltRat, decide_eq_true_eq] at hnegative
    exact absurd hnegative (not_lt.mpr (Nat.cast_nonneg n))
  next hnegative =>
    have hlarge : x.leRat 0xFFFFFFFF = false → ∀ n : ℕ, n < 2 ^ 31 → x ≠ .finite n := by
      rintro hle n hn rfl
      simp only [JSNumber.leRat, decide_eq_false_iff_not] at hle
      exact hle (by exact_mod_cast (by omega : n ≤ 0xFFFFFFFF))
    split at h
    · cases h
    · split at h
      · cases h
      · split at h
        · cases h
        next hle =>
          have hle' : x.leRat 0xFFFFFFFF = false := Bool.eq_false_iff.mpr hle
          split at h
          · cases h
            exact ⟨iff_of_false (by simp) hnegative, hlarge hle'⟩
          · cases h
            exact ⟨iff_of_false (by simp) hnegative, hlarge hle'⟩

/-- **What a written number is read as**: an integer below `2 ^ 31`, which is the integer
part of the number when that is below `2 ^ 31` itself. -/
theorem decodeScalar_encodeNumber {x : JSNumber} {t : UInt8} {v : Bytes}
    (h : encodeNumber x = .ok (t, v)) :
    ∃ (q : ℚ) (m : Int), x = .finite q ∧ 0 ≤ q ∧ v.length < 2 ^ 31 ∧
      decodeScalar (some t) v = some (.ok (.number (.ofInt m))) ∧ m < 2 ^ 31 ∧
      (⌊q⌋₊ < 2 ^ 31 → m = ⌊q⌋₊) := by
  obtain ⟨q, rfl, hq, -, hcases⟩ := encodeNumber_eq_ok h
  have hlow := byteOf_toNat ⌊q⌋₊ (Nat.zero_le 24)
  rcases hcases with ⟨hn, rfl, rfl⟩ | ⟨hn, rfl, rfl⟩ | ⟨hn, rfl, rfl⟩
  · have hbyte : ((byteOf ⌊q⌋₊ 0).toNat : ℤ) = ⌊q⌋₊ := by omega
    exact ⟨q, _, rfl, hq, by simp, rfl, by omega, fun _ => hbyte⟩
  · have hbytes : int16 (some (byteOf ⌊q⌋₊ 8)) (some (byteOf ⌊q⌋₊ 0)) = ⌊q⌋₊ := by
      have hhigh := byteOf_toNat ⌊q⌋₊ (by decide : 8 ≤ 24)
      rw [int16_eq, Option.getD_some, Option.getD_some]
      omega
    exact ⟨q, _, rfl, hq, by simp, rfl, hbytes.trans_lt (by omega), fun _ => hbytes⟩
  · refine ⟨q, _, rfl, hq, by simp, rfl, BitVec.toInt_lt, fun hlt => ?_⟩
    exact int32_byteOf (by omega) (by omega)

/-- **Numbers read back**: the integers from `0` to `2 ^ 31 - 1`. Negative numbers are refused,
all others are changed or end in another error. -/
theorem number_survives_iff {key : JSString} (hkey : ShortKey key) (x : JSNumber) :
    Survives key (.number x) ↔
      x.ltRat 0 = true ∨ ∃ n : ℕ, n < 2 ^ 31 ∧ x = .finite n := by
  cases hx : encodeNumber x with
  | error e =>
    obtain ⟨hname, hnot⟩ := encodeNumber_error hx
    rw [survives_of_error hkey (by rw [encodeValue, hx]), hname]
    constructor
    · exact Or.inl
    · rintro (hnegative | ⟨n, hn, heq⟩)
      · exact hnegative
      · exact absurd heq (hnot n hn)
  | ok r =>
    obtain ⟨t, v⟩ := r
    obtain ⟨q, m, rfl, hq, hv, hscalar, hm, hfloor⟩ := decodeScalar_encodeNumber hx
    rw [survives_of_scalar hkey (by rw [encodeValue, hx]) hv hscalar, JSValue.number.injEq,
      JSNumber.ofInt, JSNumber.finite.injEq]
    constructor
    · rintro rfl
      lift m to ℕ using by exact_mod_cast hq
      exact Or.inr ⟨m, by exact_mod_cast hm, by simp⟩
    · rintro (hnegative | ⟨n, hn, heq⟩)
      · simp only [JSNumber.ltRat, decide_eq_true_eq] at hnegative
        exact absurd hnegative (not_lt.mpr hq)
      · cases heq
        rw [hfloor (by simpa using hn)]
        simp

/-- **Which numbers survive** the codec: those of a field whose key is too long and the
negative ones, which are refused, integers below `2 ^ 31` and bigints of 32 bytes. -/
theorem numbers_survive_iff (key : JSString) :
    (∀ x, Survives key (.number x) ↔ ¬ ShortKey key ∨ x.ltRat 0 = true ∨
      ∃ n : ℕ, n < 2 ^ 31 ∧ x = .finite n) ∧
    ∀ n, Survives key (.bigint n) ↔ ¬ ShortKey key ∨ 0 ≤ n ∧ n < 2 ^ 256 := by
  by_cases hkey : ShortKey key
  · refine ⟨fun x => ?_, fun n => ?_⟩
    · rw [number_survives_iff hkey, or_iff_right (not_not.mpr hkey)]
    · have hv : (bigIntToBytes n 32).length < 2 ^ 31 := by
        rw [length_bigIntToBytes]
        decide
      rw [survives_of_scalar hkey rfl hv rfl, JSValue.bigint.injEq, eq_comm, bigOfBytes_word_iff,
        or_iff_right (not_not.mpr hkey)]
  · exact ⟨fun x => iff_of_true (survives_of_long hkey _) (Or.inl hkey),
      fun n => iff_of_true (survives_of_long hkey _) (Or.inl hkey)⟩

/-- `1.5` is read back as `1`, `2 ^ 31` as `-2 ^ 31`, `2 ^ 32` ends in a `TypeError`, and the
bigint `-1` is read back as `2 ^ 256 - 1`. -/
theorem numbers_changed :
    ¬ Survives [] (.number (.finite (3 / 2))) ∧ ¬ Survives [] (.number (.finite (2 ^ 31))) ∧
      ¬ Survives [] (.number (.finite (2 ^ 32))) ∧ ¬ Survives [] (.bigint (-1)) := by
  have hkey : ShortKey [] := Nat.zero_le 255
  have hnot : ∀ q : ℚ, 0 ≤ q → (∀ n : ℕ, n < 2 ^ 31 → q ≠ n) →
      ¬ Survives [] (.number (.finite q)) := by
    intro q hq hq' hsurvives
    rcases (number_survives_iff hkey (.finite q)).mp hsurvives with hnegative | ⟨n, hn, heq⟩
    · simp only [JSNumber.ltRat, decide_eq_true_eq] at hnegative
      exact absurd hnegative (not_lt.mpr hq)
    · cases heq
      exact hq' n hn rfl
  refine ⟨hnot _ (by norm_num) ?_, hnot _ (by norm_num) ?_, hnot _ (by norm_num) ?_, ?_⟩
  · intro n _ heq
    have hdouble : (3 : ℚ) = 2 * n := by
      rw [← heq]
      norm_num
    exact absurd (by exact_mod_cast hdouble : 3 = 2 * n) (by omega)
  · intro n hn heq
    exact absurd (by exact_mod_cast heq : 2 ^ 31 = n) (by omega)
  · intro n hn heq
    exact absurd (by exact_mod_cast heq : 2 ^ 32 = n) (by omega)
  · have hv : (bigIntToBytes (-1) 32).length < 2 ^ 31 := by decide
    rw [survives_of_scalar hkey rfl hv rfl, JSValue.bigint.injEq, eq_comm, bigOfBytes_word_iff]
    omega

end BinarySerializer

end BioFire
