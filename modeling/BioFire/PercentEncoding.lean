import BioFire.TextEncoding
import BioFire.Transport

/-!
# Percent encoding

What `new URL` writes as `%XX`, and what `decodeURIComponent` makes of it.

* `decodeRounds_percentEncode`: encoded text is read back, when it has no percent sign of its own;
* `length_of_decodeRounds`: the bytes of what is read, against the text it is read from;
* `percentEncode_eq_append_cons`: encoded text is cut where the text is cut.
-/

namespace BioFire.Transport

def upperHexDigit (d : ℕ) : UInt16 := UInt16.ofNat (if d < 10 then 48 + d else 55 + d)

def percentEncodeByte (b : UInt8) : JSString :=
  [37, upperHexDigit (b.toNat / 16), upperHexDigit (b.toNat % 16)]

/-- `UTF-8 percent-encode` with a percent-encode set. -/
def percentEncode (inSet : ℕ → Bool) (cs : List ℕ) : JSString :=
  cs.flatMap fun c =>
    if inSet c then (utf8Bytes c).flatMap percentEncodeByte else [UInt16.ofNat c]

@[simp] theorem percentEncode_cons (inSet : ℕ → Bool) (c : ℕ) (cs : List ℕ) :
    percentEncode inSet (c :: cs) =
      (if inSet c then (utf8Bytes c).flatMap percentEncodeByte else [UInt16.ofNat c]) ++
        percentEncode inSet cs := rfl

theorem percentEncode_append (inSet : ℕ → Bool) (a b : List ℕ) :
    percentEncode inSet (a ++ b) = percentEncode inSet a ++ percentEncode inSet b :=
  List.flatMap_append

/-- The set holds all characters behind `~`, and no percent sign. -/
structure EncodeSet (inSet : ℕ → Bool) : Prop where
  ascii : ∀ {c}, inSet c = false → c < 0x7F
  percent : inSet 37 = false

/-! ## Escapes -/

theorem hexDigitValue_upperHexDigit {d : ℕ} (hd : d < 16) :
    hexDigitValue (upperHexDigit d) = some d := by
  have hall : ∀ i : Fin 16, hexDigitValue (upperHexDigit i) = some (i : ℕ) := by decide
  exact hall ⟨d, hd⟩

theorem percentByte_percentEncodeByte (b : UInt8) (rest : JSString) :
    percentByte (percentEncodeByte b ++ rest) = some (b, rest) := by
  have hb := b.toNat_lt
  rw [percentEncodeByte, List.cons_append, List.cons_append, List.singleton_append]
  simp only [percentByte, hexDigitValue_upperHexDigit (show b.toNat / 16 < 16 by omega),
    hexDigitValue_upperHexDigit (show b.toNat % 16 < 16 by omega), Option.bind_eq_bind,
    Option.bind_some, show b.toNat / 16 * 16 + b.toNat % 16 = b.toNat by omega, UInt8.ofNat_toNat]
  rfl

theorem percentBytes_flatMap (bs : Bytes) (rest : JSString) :
    percentBytes bs.length (bs.flatMap percentEncodeByte ++ rest) = some (bs, rest) := by
  induction bs with
  | nil => rfl
  | cons b bs ih =>
    rw [List.length_cons, percentBytes, List.flatMap_cons, List.append_assoc,
      percentByte_percentEncodeByte]
    simp only [Option.bind_eq_bind, Option.bind_some, ih]
    rfl

theorem utf8Length_ofNat {n : ℕ} (hn : n < 256) : utf8Length (UInt8.ofNat n) =
    if n < 0x80 then 1 else if n < 0xE0 then 2 else if n < 0xF0 then 3 else 4 := by
  simp only [utf8Length, UInt8.lt_iff_toNat_lt, UInt8.toNat_ofNat', Nat.mod_eq_of_lt hn]
  rfl

theorem utf8Length_utf8Bytes {c : ℕ} (hc : IsScalar c) :
    ∃ b bs, utf8Bytes c = b :: bs ∧ utf8Length b = (utf8Bytes c).length := by
  have hmax : c < 0x110000 := by
    rcases hc with h | h <;> omega
  unfold utf8Bytes
  split
  next h₁ =>
    refine ⟨_, _, rfl, ?_⟩
    rw [utf8Length_ofNat (by omega), if_pos h₁, List.length_singleton]
  split
  next h₁ h₂ =>
    refine ⟨_, _, rfl, ?_⟩
    rw [utf8Length_ofNat (by omega), if_neg (by omega), if_pos (by omega)]
    rfl
  split
  next h₁ h₂ h₃ =>
    refine ⟨_, _, rfl, ?_⟩
    rw [utf8Length_ofNat (by omega), if_neg (by omega), if_neg (by omega), if_pos (by omega)]
    rfl
  next h₁ h₂ h₃ =>
    refine ⟨_, _, rfl, ?_⟩
    rw [utf8Length_ofNat (by omega), if_neg (by omega), if_neg (by omega), if_neg (by omega)]
    rfl

theorem utf8Character_utf8Bytes {c : ℕ} (hc : IsScalar c) :
    utf8Character (utf8Bytes c) = some c := by
  have hrun := utf8Run_utf8Bytes hc []
  rw [List.append_nil] at hrun
  rw [utf8Character, hrun]
  exact if_pos rfl

theorem utf8Character_eq_some {bs : Bytes} {c : ℕ} (h : utf8Character bs = some c) :
    IsScalar c ∧ utf8Bytes c = bs := by
  unfold utf8Character at h
  split at h
  next c' hrun =>
    split at h
    next heq =>
      cases h
      refine ⟨?_, heq⟩
      exact isScalar_of_mem_utf8Run sound_start (by rw [hrun]; exact List.mem_singleton_self _)
    · cases h
  · cases h

theorem upperHexDigit_ne_percent {d : ℕ} (hd : d < 16) : upperHexDigit d ≠ 37 := by
  have hall : ∀ i : Fin 16, upperHexDigit i ≠ 37 := by decide
  exact hall ⟨d, hd⟩

theorem upperHexDigit_ascii {d : ℕ} (hd : d < 16) : upperHexDigit d < 128 := by
  have hall : ∀ i : Fin 16, upperHexDigit i < 128 := by decide
  exact hall ⟨d, hd⟩

/-- An escape has three units, the first of them a percent sign. -/
theorem escapes_length (bs : Bytes) : (bs.flatMap percentEncodeByte).length = 3 * bs.length ∧
    (bs.flatMap percentEncodeByte).count 37 = bs.length := by
  induction bs with
  | nil => exact ⟨rfl, rfl⟩
  | cons b bs ih =>
    have hb := b.toNat_lt
    have hhigh := upperHexDigit_ne_percent (show b.toNat / 16 < 16 by omega)
    have hlow := upperHexDigit_ne_percent (show b.toNat % 16 < 16 by omega)
    rw [List.flatMap_cons, List.length_append, List.count_append, ih.1, ih.2, percentEncodeByte,
      List.count_cons_self, List.count_cons_of_ne hhigh, List.count_cons_of_ne hlow]
    simp only [List.length_cons, List.length_nil, List.count_nil]
    omega

/-! ## The round trip -/

theorem utf16Units_ascii {c : ℕ} (hc : c < 0x7F) : utf16Units c = [UInt16.ofNat c] :=
  if_pos (by omega)

theorem decodeRounds_encoded {c : ℕ} (hc : IsScalar c) (n : ℕ) (rest : JSString) :
    decodeRounds (n + 1) ((utf8Bytes c).flatMap percentEncodeByte ++ rest) =
      (decodeRounds n rest).map (utf16Units c ++ ·) := by
  obtain ⟨b, bs, hbytes, hlength⟩ := utf8Length_utf8Bytes hc
  have hall := percentBytes_flatMap (utf8Bytes c) rest
  have hchar := utf8Character_utf8Bytes hc
  rw [← hlength] at hall
  rw [hbytes] at hall hchar ⊢
  have hfirst := percentByte_percentEncodeByte b (bs.flatMap percentEncodeByte ++ rest)
  rw [List.flatMap_cons, List.append_assoc] at hall ⊢
  rw [percentEncodeByte, List.cons_append] at hall hfirst ⊢
  rw [decodeRounds, if_pos rfl]
  simp only [Option.bind_eq_bind, hfirst, Option.bind_some, hall, hchar]
  cases decodeRounds n rest <;> rfl

theorem decodeRounds_plain {u : UInt16} (hu : u ≠ 37) (n : ℕ) (rest : JSString) :
    decodeRounds (n + 1) (u :: rest) = (decodeRounds n rest).map (u :: ·) := by
  rw [decodeRounds, if_neg hu]
  cases decodeRounds n rest <;> rfl

theorem ofNat_inj_ascii {c k : ℕ} (hc : c < 0x7F) (hk : k < 0x7F) :
    UInt16.ofNat c = UInt16.ofNat k ↔ c = k := by
  rw [← UInt16.toNat_inj, UInt16.toNat_ofNat_of_lt' (hc.trans (by decide)),
    UInt16.toNat_ofNat_of_lt' (hk.trans (by decide))]

theorem ofNat_ne_percent {c : ℕ} (hc : c < 0x7F) (hne : c ≠ 37) : UInt16.ofNat c ≠ 37 :=
  fun h => hne ((ofNat_inj_ascii hc (by decide)).mp h)

/-- **Encoded text is read back**, when it has no percent sign of its own. -/
theorem decodeRounds_percentEncode {inSet : ℕ → Bool} (hset : EncodeSet inSet) {cs : List ℕ}
    (hscalar : ∀ c ∈ cs, IsScalar c) (hpercent : 37 ∉ cs) {n : ℕ}
    (hn : (percentEncode inSet cs).length ≤ n) :
    decodeRounds n (percentEncode inSet cs) = some (cs.flatMap utf16Units) := by
  induction cs generalizing n with
  | nil => cases n <;> rfl
  | cons c cs ih =>
    rw [List.forall_mem_cons] at hscalar
    rw [List.mem_cons, not_or] at hpercent
    rw [percentEncode_cons, List.length_append] at hn
    rw [percentEncode_cons, List.flatMap_cons]
    cases hin : inSet c with
    | true =>
      obtain ⟨b, bs, hbytes, -⟩ := utf8Length_utf8Bytes hscalar.1
      have hblock := (escapes_length (utf8Bytes c)).1
      rw [hbytes, List.length_cons, ← hbytes] at hblock
      rw [hin, if_pos rfl] at hn
      obtain ⟨m, rfl⟩ : ∃ m, n = m + 1 := ⟨n - 1, by omega⟩
      rw [if_pos rfl, decodeRounds_encoded hscalar.1, ih hscalar.2 hpercent.2 (by omega)]
      rfl
    | false =>
      rw [hin, if_neg (by decide), List.length_singleton] at hn
      obtain ⟨m, rfl⟩ : ∃ m, n = m + 1 := ⟨n - 1, by omega⟩
      rw [if_neg (by decide), List.singleton_append,
        decodeRounds_plain (ofNat_ne_percent (hset.ascii hin) (Ne.symm hpercent.1)),
        ih hscalar.2 hpercent.2 (by omega), utf16Units_ascii (hset.ascii hin)]
      rfl

/-! ## Lengths -/

theorem percentByte_eq_some {s rest : JSString} {b : UInt8}
    (h : percentByte s = some (b, rest)) :
    ∃ c d, s = 37 :: c :: d :: rest ∧ c ≠ 37 ∧ d ≠ 37 := by
  unfold percentByte at h
  split at h
  next c d rest' =>
    simp only [Option.bind_eq_bind, Option.bind_eq_some_iff] at h
    obtain ⟨high, hhigh, low, hlow, heq⟩ := h
    cases heq
    have hnone : hexDigitValue 37 = none := by decide
    refine ⟨c, d, rfl, ?_, ?_⟩
    · rintro rfl
      rw [hnone] at hhigh
      cases hhigh
    · rintro rfl
      rw [hnone] at hlow
      cases hlow
  · cases h

theorem percentBytes_eq_some {n : ℕ} {s rest : JSString} {bs : Bytes}
    (h : percentBytes n s = some (bs, rest)) :
    bs.length = n ∧ ∃ x, s = x ++ rest ∧ x.length = 3 * n ∧ x.count 37 = n := by
  induction n generalizing s bs with
  | zero =>
    cases h
    exact ⟨rfl, [], rfl, rfl, rfl⟩
  | succ n ih =>
    rw [percentBytes] at h
    simp only [Option.bind_eq_bind, Option.bind_eq_some_iff] at h
    obtain ⟨⟨b, rest'⟩, hfirst, ⟨bs', rest''⟩, hmore, heq⟩ := h
    cases heq
    obtain ⟨c, d, rfl, hc, hd⟩ := percentByte_eq_some hfirst
    obtain ⟨hlength, x, rfl, hx, hcount⟩ := ih hmore
    refine ⟨by rw [List.length_cons, hlength], 37 :: c :: d :: x, rfl, ?_, ?_⟩
    · simp only [List.length_cons, hx]
      omega
    · rw [List.count_cons_self, List.count_cons_of_ne hc, List.count_cons_of_ne hd, hcount]

/-- The bytes of what is read: one for each escape, and one for each other unit. -/
theorem length_of_decodeRounds {n : ℕ} {s text : JSString} (hs : ∀ u ∈ s, u < 128)
    (h : decodeRounds n s = some text) :
    WellFormed text ∧ (textEncode text).length + 2 * s.count 37 = s.length := by
  induction n generalizing s text with
  | zero =>
    cases s with
    | nil =>
      cases h
      exact ⟨.nil, rfl⟩
    | cons u s => cases h
  | succ n ih =>
    cases s with
    | nil =>
      cases h
      exact ⟨.nil, rfl⟩
    | cons u s =>
      rw [decodeRounds] at h
      split at h
      next hpercent =>
        simp only [Option.bind_eq_bind, Option.bind_eq_some_iff] at h
        obtain ⟨⟨b, _⟩, -, ⟨bs, rest⟩, hbytes, c, hchar, text', hrest, heq⟩ := h
        cases heq
        dsimp only at hchar hrest
        obtain ⟨hlength, x, hx, hxlength, hxcount⟩ := percentBytes_eq_some hbytes
        obtain ⟨hscalar, hc⟩ := utf8Character_eq_some hchar
        rw [hx] at hs ⊢
        obtain ⟨hwell, hih⟩ := ih (fun v hv => hs v (List.mem_append_right x hv)) hrest
        refine ⟨(wellFormed_utf16Units hscalar).append hwell, ?_⟩
        rw [textEncode, scalars_utf16Units hscalar, List.flatMap_cons, List.length_append, hc,
          List.length_append, List.count_append]
        rw [textEncode] at hih
        omega
      next hplain =>
        simp only [Option.bind_eq_bind, Option.bind_eq_some_iff] at h
        obtain ⟨text', hrest, heq⟩ := h
        cases heq
        rw [List.forall_mem_cons] at hs
        obtain ⟨hwell, hih⟩ := ih hs.2 hrest
        refine ⟨.unit (isSurrogate_ascii hs.1) hwell, ?_⟩
        rw [textEncode_cons hs.1, List.length_cons, List.length_cons,
          List.count_cons_of_ne hplain]
        omega

theorem length_percentEncode {inSet : ℕ → Bool} (hset : EncodeSet inSet) (cs : List ℕ) :
    (cs.flatMap utf8Bytes).length + 2 * (percentEncode inSet cs).count 37 =
      (percentEncode inSet cs).length + 2 * cs.count 37 := by
  induction cs with
  | nil => rfl
  | cons c cs ih =>
    rw [percentEncode_cons, List.flatMap_cons, List.length_append, List.length_append,
      List.count_append]
    cases hin : inSet c with
    | true =>
      have hne : c ≠ 37 := by
        rintro rfl
        rw [hset.percent] at hin
        cases hin
      obtain ⟨hlength, hcount⟩ := escapes_length (utf8Bytes c)
      rw [if_pos rfl, hlength, hcount, List.count_cons_of_ne hne]
      omega
    | false =>
      have hlt := hset.ascii hin
      rw [if_neg (by decide), utf8Bytes, if_pos (by omega)]
      by_cases hpercent : c = 37
      · subst hpercent
        rw [List.count_cons_self]
        simp only [List.length_singleton]
        have hone : List.count 37 [UInt16.ofNat 37] = 1 := by decide
        omega
      · rw [List.count_cons_of_ne hpercent, List.count_cons_of_ne (ofNat_ne_percent hlt hpercent)]
        simp only [List.length_singleton, List.count_nil]
        omega

theorem percentEncode_ascii {inSet : ℕ → Bool} (hset : EncodeSet inSet) (cs : List ℕ) :
    ∀ u ∈ percentEncode inSet cs, u < 128 := by
  intro u hmem
  obtain ⟨c, -, hu⟩ := List.mem_flatMap.mp hmem
  cases hin : inSet c with
  | true =>
    rw [hin, if_pos rfl] at hu
    obtain ⟨b, -, hu⟩ := List.mem_flatMap.mp hu
    have hb := b.toNat_lt
    simp only [percentEncodeByte, List.mem_cons, List.not_mem_nil, or_false] at hu
    rcases hu with rfl | rfl | rfl
    · decide
    · exact upperHexDigit_ascii (by omega)
    · exact upperHexDigit_ascii (by omega)
  | false =>
    have hlt := hset.ascii hin
    rw [hin, if_neg (by decide)] at hu
    rw [List.mem_singleton.mp hu, UInt16.lt_iff_toNat_lt, UInt16.toNat_ofNat',
      Nat.mod_eq_of_lt (by omega)]
    exact hlt.trans (by decide)

/-! ## Cuts -/

/-- A unit that no escape has. -/
def NotEscape (u : UInt16) : Prop := u ≠ 37 ∧ ∀ d < 16, u ≠ upperHexDigit d

theorem not_mem_escapes {u : UInt16} (hu : NotEscape u) (bs : Bytes) :
    u ∉ bs.flatMap percentEncodeByte := by
  intro hmem
  obtain ⟨b, -, hmem⟩ := List.mem_flatMap.mp hmem
  have hb := b.toNat_lt
  simp only [percentEncodeByte, List.mem_cons, List.not_mem_nil, or_false] at hmem
  rcases hmem with h | h | h
  · exact hu.1 h
  · exact hu.2 _ (by omega) h
  · exact hu.2 _ (by omega) h

/-- **Encoded text is cut where the text is cut**, at a unit that no escape has. -/
theorem percentEncode_eq_append_cons {inSet : ℕ → Bool} {cs : List ℕ} {x y : JSString}
    {u : UInt16} (hu : NotEscape u) (h : percentEncode inSet cs = x ++ u :: y) :
    ∃ a c b, cs = a ++ c :: b ∧ x = percentEncode inSet a ∧ u = UInt16.ofNat c ∧
      inSet c = false ∧ y = percentEncode inSet b := by
  induction cs generalizing x with
  | nil => cases x <;> cases h
  | cons c cs ih =>
    rw [percentEncode_cons] at h
    cases hin : inSet c with
    | true =>
      rw [hin, if_pos rfl] at h
      rcases List.append_eq_append_iff.mp h with ⟨x', rfl, hrest⟩ | ⟨block, hblock, hrest⟩
      · obtain ⟨a, c', b, rfl, rfl, hunit, hout, hy⟩ := ih hrest
        refine ⟨c :: a, c', b, rfl, ?_, hunit, hout, hy⟩
        rw [percentEncode_cons, hin, if_pos rfl]
      · cases block with
        | nil =>
          obtain ⟨a, c', b, rfl, hx, hunit, hout, hy⟩ := ih (x := []) hrest.symm
          refine ⟨c :: a, c', b, rfl, ?_, hunit, hout, hy⟩
          rw [percentEncode_cons, hin, if_pos rfl, ← hx, hblock, List.append_nil, List.append_nil]
        | cons v block =>
          obtain ⟨rfl, -⟩ := List.cons.inj hrest
          exact absurd (hblock ▸ List.mem_append_right x List.mem_cons_self)
            (not_mem_escapes hu (utf8Bytes c))
    | false =>
      rw [hin, if_neg (by decide), List.singleton_append] at h
      cases x with
      | nil =>
        obtain ⟨rfl, rfl⟩ := List.cons.inj h
        exact ⟨[], c, cs, rfl, rfl, rfl, hin, rfl⟩
      | cons v x =>
        obtain ⟨rfl, hrest⟩ := List.cons.inj h
        obtain ⟨a, c', b, rfl, rfl, hunit, hout, hy⟩ := ih hrest
        refine ⟨c :: a, c', b, rfl, ?_, hunit, hout, hy⟩
        rw [percentEncode_cons, hin, if_neg (by decide)]
        rfl

theorem takeWhile_percentEncode {inSet : ℕ → Bool} (hset : EncodeSet inSet) {k : ℕ}
    (hk : NotEscape (UInt16.ofNat k)) (hout : inSet k = false) (cs : List ℕ) :
    (percentEncode inSet cs).takeWhile (· ≠ UInt16.ofNat k) =
      percentEncode inSet (cs.takeWhile (· ≠ k)) := by
  have hklt := hset.ascii hout
  induction cs with
  | nil => rfl
  | cons c cs ih =>
    rw [percentEncode_cons]
    cases hin : inSet c with
    | true =>
      have hne : c ≠ k := by
        rintro rfl
        rw [hout] at hin
        cases hin
      have hblock : ∀ u ∈ (utf8Bytes c).flatMap percentEncodeByte,
          decide (u ≠ UInt16.ofNat k) = true := by
        intro u hmem
        rw [decide_eq_true_eq]
        rintro rfl
        exact not_mem_escapes hk (utf8Bytes c) hmem
      rw [if_pos rfl, List.takeWhile_append_of_pos hblock, ih,
        List.takeWhile_cons_of_pos (by simpa), percentEncode_cons, hin, if_pos rfl]
    | false =>
      have hclt := hset.ascii hin
      rw [if_neg (by decide), List.singleton_append]
      by_cases hck : c = k
      · subst hck
        rw [List.takeWhile_cons_of_neg (by simp), List.takeWhile_cons_of_neg (by simp)]
        rfl
      · have hne : UInt16.ofNat c ≠ UInt16.ofNat k := by
          rwa [Ne, ofNat_inj_ascii hclt hklt]
        rw [List.takeWhile_cons_of_pos (by simpa), List.takeWhile_cons_of_pos (by simpa), ih,
          percentEncode_cons, hin, if_neg (by decide)]
        rfl

end BioFire.Transport
