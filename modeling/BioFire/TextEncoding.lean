import BioFire.JSString
import BioFire.Separators

/-!
# What the UTF-8 encoder keeps

`TextEncoder` replaces every lone surrogate by U+FFFD and loses nothing else.

* `utf8Run_flatMap`, `isScalar_of_mem_utf8Run`: the decoder reads encoded scalar values back,
  and yields no other values;
* `textEncode_inj`: equal bytes come from strings with the same scalar values;
* `eq_of_textEncode`: a string is determined by its bytes and its lone surrogates;
* `WellFormed.eq_of_textEncode`: a string without lone surrogates, by its bytes alone;
* `textDecode_textEncode_iff`: which strings the decoder reads back.
-/

namespace BioFire

open Separators

/-- A Unicode scalar value. -/
def IsScalar (c : ℕ) : Prop := c < 0xD800 ∨ 0xE000 ≤ c ∧ c < 0x110000

/-! ## The decoder on encoded text -/

theorem utf8Feed_start (b : ℕ) : utf8Feed .start b = utf8Start b := rfl

/-- A continuation byte in range that does not end its character. -/
theorem utf8Feed_more {s : Utf8State} {b : ℕ} (hneeded : 1 < s.needed) (hlower : s.lower ≤ b)
    (hupper : b ≤ s.upper) :
    utf8Feed s b = (⟨s.codePoint * 0x40 + b % 0x40, s.needed - 1, 0x80, 0xBF⟩, []) := by
  rw [utf8Feed, if_neg (by omega), if_neg (by omega), if_neg (by omega)]

theorem utf8Feed_last {s : Utf8State} {b : ℕ} (hneeded : s.needed = 1) (hlower : s.lower ≤ b)
    (hupper : b ≤ s.upper) : utf8Feed s b = (.start, [s.codePoint * 0x40 + b % 0x40]) := by
  rw [utf8Feed, if_neg (by omega), if_neg (by omega), if_pos hneeded]

theorem utf8Run_utf8Bytes {c : ℕ} (hc : IsScalar c) (rest : Bytes) :
    utf8Run .start (utf8Bytes c ++ rest) = c :: utf8Run .start rest := by
  have hmax : c < 0x110000 := by
    rcases hc with h | h <;> omega
  have hbyte : ∀ {n : ℕ}, n < 256 → (UInt8.ofNat n).toNat = n := UInt8.toNat_ofNat_of_lt'
  rw [utf8Bytes]
  split
  next h₁ =>
    rw [List.cons_append, utf8Run, hbyte (by omega), utf8Feed_start, utf8Start, if_pos h₁]
    rfl
  next h₁ =>
    split
    next h₂ =>
      simp only [List.cons_append, List.nil_append, utf8Run,
        hbyte (show 0xC0 + c / 0x40 < 256 by omega), hbyte (show 0x80 + c % 0x40 < 256 by omega),
        utf8Feed_start]
      rw [utf8Start, if_neg (by omega), if_pos (by omega)]
      rw [utf8Feed_last rfl (by dsimp only; omega) (by dsimp only; omega)]
      simp only [List.nil_append, List.cons_append]
      rw [show (0xC0 + c / 0x40) % 0x20 * 0x40 + (0x80 + c % 0x40) % 0x40 = c by omega]
    next h₂ =>
      split
      next h₃ =>
        simp only [List.cons_append, List.nil_append, utf8Run,
          hbyte (show 0xE0 + c / 0x1000 < 256 by omega),
          hbyte (show 0x80 + c / 0x40 % 0x40 < 256 by omega),
          hbyte (show 0x80 + c % 0x40 < 256 by omega), utf8Feed_start]
        rw [utf8Start, if_neg (by omega), if_neg (by omega), if_pos (by omega)]
        have hlower : (if 0xE0 + c / 0x1000 = 0xE0 then 0xA0 else 0x80) ≤
            0x80 + c / 0x40 % 0x40 := by
          split <;> omega
        have hupper : 0x80 + c / 0x40 % 0x40 ≤ if 0xE0 + c / 0x1000 = 0xED then 0x9F else 0xBF := by
          rcases hc with h | h <;> split <;> omega
        rw [utf8Feed_more (show 1 < 2 by omega) hlower hupper,
          utf8Feed_last rfl (by dsimp only; omega) (by dsimp only; omega)]
        simp only [List.nil_append, List.cons_append]
        rw [show ((0xE0 + c / 0x1000) % 0x10 * 0x40 + (0x80 + c / 0x40 % 0x40) % 0x40) * 0x40 +
          (0x80 + c % 0x40) % 0x40 = c by omega]
      next h₃ =>
        simp only [List.cons_append, List.nil_append, utf8Run,
          hbyte (show 0xF0 + c / 0x40000 < 256 by omega),
          hbyte (show 0x80 + c / 0x1000 % 0x40 < 256 by omega),
          hbyte (show 0x80 + c / 0x40 % 0x40 < 256 by omega),
          hbyte (show 0x80 + c % 0x40 < 256 by omega), utf8Feed_start]
        rw [utf8Start, if_neg (by omega), if_neg (by omega), if_neg (by omega), if_pos (by omega)]
        have hlower : (if 0xF0 + c / 0x40000 = 0xF0 then 0x90 else 0x80) ≤
            0x80 + c / 0x1000 % 0x40 := by
          split <;> omega
        have hupper : 0x80 + c / 0x1000 % 0x40 ≤
            if 0xF0 + c / 0x40000 = 0xF4 then 0x8F else 0xBF := by
          split <;> omega
        rw [utf8Feed_more (show 1 < 3 by omega) hlower hupper,
          utf8Feed_more (by dsimp only; omega) (by dsimp only; omega) (by dsimp only; omega),
          utf8Feed_last rfl (by dsimp only; omega) (by dsimp only; omega)]
        simp only [List.nil_append, List.cons_append]
        rw [show (((0xF0 + c / 0x40000) % 0x08 * 0x40 + (0x80 + c / 0x1000 % 0x40) % 0x40) * 0x40 +
          (0x80 + c / 0x40 % 0x40) % 0x40) * 0x40 + (0x80 + c % 0x40) % 0x40 = c by omega]

/-- **Encoded text decodes** to its scalar values. -/
theorem utf8Run_flatMap {cs : List ℕ} (h : ∀ c ∈ cs, IsScalar c) :
    utf8Run .start (cs.flatMap utf8Bytes) = cs := by
  induction cs with
  | nil => rfl
  | cons c cs ih =>
    rw [List.flatMap_cons, utf8Run_utf8Bytes (h c List.mem_cons_self),
      ih fun c' hc' => h c' (List.mem_cons_of_mem c hc')]

/-! ## What the decoder reads -/

/-- Every code point that `n` continuation bytes can complete is a scalar value. -/
def ScalarAfter : ℕ → ℕ → Prop
  | 0, c => IsScalar c
  | n + 1, c => ∀ d < 0x40, ScalarAfter n (c * 0x40 + d)

/-- Whatever byte in range comes next, the character becomes a scalar value. -/
def Utf8State.Sound (s : Utf8State) : Prop :=
  ∀ n, s.needed = n + 1 → ∀ b, s.lower ≤ b → b ≤ s.upper →
    ScalarAfter n (s.codePoint * 0x40 + b % 0x40)

theorem sound_start : Utf8State.start.Sound := fun _ hneeded => nomatch hneeded

theorem sound_utf8Start (b : ℕ) : (utf8Start b).1.Sound ∧ ∀ c ∈ (utf8Start b).2, IsScalar c := by
  unfold utf8Start
  split
  next h =>
    refine ⟨sound_start, ?_⟩
    rw [List.forall_mem_singleton]
    exact Or.inl (by omega)
  split
  next h =>
    refine ⟨?_, by simp⟩
    rintro n hneeded b' hlower hupper
    obtain rfl : n = 0 := by simpa using hneeded.symm
    simp only [ScalarAfter, IsScalar] at *
    omega
  split
  next h =>
    refine ⟨?_, by simp⟩
    rintro n hneeded b' hlower hupper
    obtain rfl : n = 1 := by simpa using hneeded.symm
    simp only [ScalarAfter, IsScalar] at *
    intro d hd
    split at hlower <;> split at hupper <;> omega
  split
  next h =>
    refine ⟨?_, by simp⟩
    rintro n hneeded b' hlower hupper
    obtain rfl : n = 2 := by simpa using hneeded.symm
    simp only [ScalarAfter, IsScalar] at *
    intro d hd d' hd'
    split at hlower <;> split at hupper <;> omega
  next =>
    refine ⟨sound_start, ?_⟩
    rw [List.forall_mem_singleton]
    exact Or.inr (by omega)

theorem sound_utf8Feed {s : Utf8State} (h : s.Sound) (b : ℕ) :
    (utf8Feed s b).1.Sound ∧ ∀ c ∈ (utf8Feed s b).2, IsScalar c := by
  unfold utf8Feed
  split
  next => exact sound_utf8Start b
  split
  next =>
    refine ⟨(sound_utf8Start b).1, ?_⟩
    rw [List.forall_mem_cons]
    exact ⟨Or.inr (by omega), (sound_utf8Start b).2⟩
  next hneeded hrange =>
    split
    next hone =>
      refine ⟨sound_start, ?_⟩
      rw [List.forall_mem_singleton]
      exact h 0 hone b (by omega) (by omega)
    next hmore =>
      refine ⟨?_, by simp⟩
      intro n hn b' _ _
      have hafter := h (n + 1) (by dsimp only at hn; omega) b (by omega) (by omega)
      exact hafter (b' % 0x40) (by omega)

/-- **The decoder yields scalar values.** -/
theorem isScalar_of_mem_utf8Run {s : Utf8State} (h : s.Sound) {bs : Bytes} {c : ℕ}
    (hc : c ∈ utf8Run s bs) : IsScalar c := by
  induction bs generalizing s with
  | nil =>
    rw [utf8Run] at hc
    split at hc
    · cases hc
    · rw [List.mem_singleton.mp hc]
      exact Or.inr (by omega)
  | cons b bs ih =>
    obtain ⟨hsound, hout⟩ := sound_utf8Feed h b.toNat
    rw [utf8Run] at hc
    rcases List.mem_append.mp hc with hc | hc
    · exact hout c hc
    · exact ih hsound hc
/-! ## Lone surrogates -/

/-- For each scalar value of a string, the lone surrogate that it stands for, if any. -/
def loneSurrogates : JSString → List (Option UInt16)
  | [] => []
  | [u] => [if isHighSurrogate u || isLowSurrogate u then some u else none]
  | u :: v :: rest =>
    if isHighSurrogate u && isLowSurrogate v then none :: loneSurrogates rest
    else (if isHighSurrogate u || isLowSurrogate u then some u else none) ::
      loneSurrogates (v :: rest)

/-- The code units behind one scalar value. -/
def restoreUnits (c : ℕ) (lone : Option UInt16) : JSString :=
  match lone with
  | some u => [u]
  | none => utf16Units c

theorem isSurrogate_iff {u : UInt16} :
    (isHighSurrogate u || isLowSurrogate u) = true ↔ 0xD800 ≤ u.toNat ∧ u.toNat < 0xE000 := by
  simp only [isHighSurrogate, isLowSurrogate, Bool.or_eq_true, Bool.and_eq_true, decide_eq_true_eq,
    UInt16.le_iff_toNat_le, UInt16.lt_iff_toNat_lt]
  change (0xD800 ≤ u.toNat ∧ u.toNat < 0xDC00) ∨ (0xDC00 ≤ u.toNat ∧ u.toNat < 0xE000) ↔ _
  omega

def isSurrogate (u : UInt16) : Bool := isHighSurrogate u || isLowSurrogate u

theorem isSurrogate_ascii {u : UInt16} (h : u < 128) : isSurrogate u = false := by
  rw [UInt16.lt_iff_toNat_lt] at h
  change u.toNat < 128 at h
  rw [isSurrogate, Bool.eq_false_iff, Ne, isSurrogate_iff]
  omega

theorem isHighSurrogate_ascii {u : UInt16} (h : u < 128) : isHighSurrogate u = false :=
  (Bool.or_eq_false_iff.mp (isSurrogate_ascii h)).1

theorem isLowSurrogate_ascii {u : UInt16} (h : u < 128) : isLowSurrogate u = false :=
  (Bool.or_eq_false_iff.mp (isSurrogate_ascii h)).2

theorem isScalar_loneScalar (u : UInt16) : IsScalar (loneScalar u) := by
  have hu := u.toNat_lt
  rw [loneScalar]
  split
  · exact Or.inr (by omega)
  next h =>
    rw [isSurrogate_iff] at h
    rw [IsScalar]
    omega

/-- The unit of a single scalar is restored. -/
theorem restoreUnits_single (u : UInt16) :
    restoreUnits (loneScalar u) (if isHighSurrogate u || isLowSurrogate u then some u else none) =
      [u] := by
  have hu := u.toNat_lt
  by_cases h : (isHighSurrogate u || isLowSurrogate u) = true
  · rw [if_pos h]
    rfl
  · rw [if_neg h, loneScalar, if_neg h, restoreUnits, utf16Units, if_pos (by omega),
      UInt16.ofNat_toNat]

theorem pair_bounds {u v : UInt16} (h : (isHighSurrogate u && isLowSurrogate v) = true) :
    0xD800 ≤ u.toNat ∧ u.toNat < 0xDC00 ∧ 0xDC00 ≤ v.toNat ∧ v.toNat < 0xE000 := by
  simp only [isHighSurrogate, isLowSurrogate, Bool.and_eq_true, decide_eq_true_eq,
    UInt16.le_iff_toNat_le, UInt16.lt_iff_toNat_lt] at h
  exact ⟨h.1.1, h.1.2, h.2.1, h.2.2⟩

theorem restoreUnits_pair {u v : UInt16} (h : (isHighSurrogate u && isLowSurrogate v) = true) :
    restoreUnits (0x10000 + (u.toNat - 0xD800) * 0x400 + (v.toNat - 0xDC00)) none = [u, v] := by
  obtain ⟨hu₀, hu, hv₀, hv⟩ := pair_bounds h
  rw [restoreUnits, utf16Units, if_neg (by omega)]
  rw [show 0xD800 + (0x10000 + (u.toNat - 0xD800) * 0x400 + (v.toNat - 0xDC00) - 0x10000) / 0x400 =
      u.toNat by omega,
    show 0xDC00 + (0x10000 + (u.toNat - 0xD800) * 0x400 + (v.toNat - 0xDC00) - 0x10000) % 0x400 =
      v.toNat by omega, UInt16.ofNat_toNat, UInt16.ofNat_toNat]

theorem isScalar_of_mem_scalars {s : JSString} {c : ℕ} (h : c ∈ scalars s) : IsScalar c := by
  induction s using scalars.induct with
  | case1 => cases h
  | case2 u =>
    rw [scalars, List.mem_singleton] at h
    rw [h]
    exact isScalar_loneScalar u
  | case3 u v rest hpair ih =>
    rw [scalars, if_pos hpair, List.mem_cons] at h
    rcases h with hhead | hrest
    · obtain ⟨hu₀, hu, hv₀, hv⟩ := pair_bounds hpair
      rw [hhead, IsScalar]
      omega
    · exact ih hrest
  | case4 u v rest hpair ih =>
    rw [scalars, if_neg hpair] at h
    rcases List.mem_cons.mp h with rfl | hrest
    · exact isScalar_loneScalar u
    · exact ih hrest

/-- **A string is its scalar values and its lone surrogates.** -/
theorem restore_scalars (s : JSString) :
    (List.zipWith restoreUnits (scalars s) (loneSurrogates s)).flatten = s := by
  induction s using scalars.induct with
  | case1 => rfl
  | case2 u =>
    rw [scalars, loneSurrogates, List.zipWith_cons_cons, restoreUnits_single]
    rfl
  | case3 u v rest hpair ih =>
    rw [scalars, if_pos hpair, loneSurrogates, if_pos hpair, List.zipWith_cons_cons,
      List.flatten_cons, ih, restoreUnits_pair hpair]
    rfl
  | case4 u v rest hpair ih =>
    rw [scalars, if_neg hpair, loneSurrogates, if_neg hpair, List.zipWith_cons_cons,
      List.flatten_cons, ih, restoreUnits_single]
    rfl

/-! ## The encoder -/

theorem textEncode_inj {s s' : JSString} :
    textEncode s = textEncode s' ↔ scalars s = scalars s' := by
  constructor
  · intro h
    rw [← utf8Run_flatMap fun c hc => isScalar_of_mem_scalars (s := s) hc,
      ← utf8Run_flatMap fun c hc => isScalar_of_mem_scalars (s := s') hc]
    exact congrArg (utf8Run .start) h
  · intro h
    rw [textEncode, textEncode, h]

/-- The scalar value of an ASCII unit stands for nothing else. -/
theorem loneScalar_eq_ascii {u v : UInt16} (hv : v < 128) : loneScalar u = v.toNat ↔ u = v := by
  rw [UInt16.lt_iff_toNat_lt] at hv
  change v.toNat < 128 at hv
  rw [loneScalar, ← UInt16.toNat_inj]
  split
  next h =>
    rw [isSurrogate_iff] at h
    omega
  next => rfl

theorem scalars_cons {u : UInt16} (h : isHighSurrogate u = false) (s : JSString) :
    scalars (u :: s) = loneScalar u :: scalars s := by
  cases s with
  | nil => rfl
  | cons v s => simp [scalars, h]

theorem scalars_ascii_append {a : JSString} (h : ∀ u ∈ a, u < 128) (s : JSString) :
    scalars (a ++ s) = a.map UInt16.toNat ++ scalars s := by
  induction a with
  | nil => rfl
  | cons u a ih =>
    rw [List.forall_mem_cons] at h
    rw [List.cons_append, scalars_cons (isHighSurrogate_ascii h.1), ih h.2,
      (loneScalar_eq_ascii h.1).mpr rfl]
    rfl
theorem scalars_ascii {s : JSString} (h : ∀ c ∈ s, c < 128) : scalars s = s.map UInt16.toNat := by
  simpa [scalars] using scalars_ascii_append h []

theorem mem_scalars_ascii {c : UInt16} (hc : c < 128) (s : JSString) :
    c.toNat ∈ scalars s ↔ c ∈ s := by
  induction s using scalars.induct with
  | case1 => simp [scalars]
  | case2 u => rw [scalars, List.mem_singleton, List.mem_singleton, eq_comm, loneScalar_eq_ascii hc,
      eq_comm]
  | case3 u v rest hpair ih =>
    obtain ⟨hu, -, hv, -⟩ := pair_bounds hpair
    rw [UInt16.lt_iff_toNat_lt] at hc
    change c.toNat < 128 at hc
    rw [scalars, if_pos hpair, List.mem_cons, ih, List.mem_cons, List.mem_cons, ← UInt16.toNat_inj,
      ← UInt16.toNat_inj]
    constructor
    · rintro (h | h)
      · omega
      · exact Or.inr (Or.inr h)
    · rintro (h | h | h)
      · omega
      · omega
      · exact Or.inr h
  | case4 u v rest hpair ih =>
    rw [scalars, if_neg hpair, List.mem_cons, ih, eq_comm, loneScalar_eq_ascii hc,
      List.mem_cons (b := u), eq_comm]

theorem ascii_of_scalars {s : JSString} (h : ∀ c ∈ scalars s, c < 128) : ∀ u ∈ s, u < 128 := by
  induction s using scalars.induct with
  | case1 => exact fun _ hu => nomatch hu
  | case2 u =>
    have hu := h (loneScalar u) (List.mem_singleton_self _)
    rw [List.forall_mem_singleton, UInt16.lt_iff_toNat_lt]
    rw [loneScalar] at hu
    split at hu
    · exact absurd hu (by decide)
    · exact hu
  | case3 u v rest hpair ih =>
    rw [scalars, if_pos hpair] at h
    have hhead := h _ List.mem_cons_self
    omega
  | case4 u v rest hpair ih =>
    rw [scalars, if_neg hpair, List.forall_mem_cons] at h
    rw [List.forall_mem_cons]
    refine ⟨?_, ih h.2⟩
    have hu := h.1
    rw [loneScalar] at hu
    rw [UInt16.lt_iff_toNat_lt]
    split at hu
    · exact absurd hu (by decide)
    · exact hu

/-- Text is cut in front of a unit that is not the second half of a pair. -/
theorem scalars_append {u : UInt16} (h : isLowSurrogate u = false) (a s : JSString) :
    scalars (a ++ u :: s) = scalars a ++ scalars (u :: s) := by
  induction a using scalars.induct with
  | case1 => rfl
  | case2 v => simp [scalars, h]
  | case3 v w rest hpair ih => simpa [scalars, hpair] using ih
  | case4 v w rest hpair ih =>
    rw [List.cons_append, List.cons_append, scalars, if_neg hpair, scalars, if_neg hpair,
      ← List.cons_append, ih]
    rfl

theorem textEncode_append {u : UInt16} (h : isLowSurrogate u = false) (a s : JSString) :
    textEncode (a ++ u :: s) = textEncode a ++ textEncode (u :: s) := by
  rw [textEncode, scalars_append h, List.flatMap_append]
  rfl

theorem textEncode_cons {u : UInt16} (hu : u < 128) (s : JSString) :
    textEncode (u :: s) = UInt8.ofNat u.toNat :: textEncode s := by
  have hlt : u.toNat < 0x80 := UInt16.lt_iff_toNat_lt.mp hu
  rw [textEncode, scalars_cons (isHighSurrogate_ascii hu), (loneScalar_eq_ascii hu).mpr rfl,
    List.flatMap_cons, utf8Bytes, if_pos hlt]
  rfl

theorem utf8Bytes_length_pos (c : ℕ) : 0 < (utf8Bytes c).length := by
  unfold utf8Bytes
  split_ifs <;> simp

theorem utf8Bytes_length_of_le {c : ℕ} (h : 0x10000 ≤ c) : (utf8Bytes c).length = 4 := by
  rw [utf8Bytes, if_neg (by omega), if_neg (by omega), if_neg (by omega)]
  rfl

theorem length_le_length_textEncode (s : JSString) : s.length ≤ (textEncode s).length := by
  unfold textEncode
  induction s using scalars.induct with
  | case1 => simp
  | case2 u =>
    rw [scalars, List.flatMap_cons, List.flatMap_nil, List.append_nil]
    exact utf8Bytes_length_pos _
  | case3 u v rest hpair ih =>
    rw [scalars, if_pos hpair, List.flatMap_cons, List.length_append,
      utf8Bytes_length_of_le (by omega), List.length_cons, List.length_cons]
    omega
  | case4 u v rest hpair ih =>
    have hpos := utf8Bytes_length_pos (loneScalar u)
    rw [scalars, if_neg hpair, List.flatMap_cons, List.length_append, List.length_cons]
    omega

theorem textEncode_ascii_inj {s s' : JSString} (hs : ∀ c ∈ s, c < 128) (hs' : ∀ c ∈ s', c < 128)
    (h : textEncode s = textEncode s') : s = s' := by
  rw [textEncode_inj, scalars_ascii hs, scalars_ascii hs'] at h
  exact List.map_injective_iff.mpr (fun _ _ => UInt16.toNat_inj.mp) h

/-- The bytes fix the parts before and behind the last separator. -/
theorem textEncode_last_inj {c : UInt16} (hc : c < 128) {a a' s s' : JSString}
    (hs : ∀ u ∈ s, u < 128) (hs' : ∀ u ∈ s', u < 128) (hcs : c ∉ s) (hcs' : c ∉ s')
    (h : textEncode (a ++ c :: s) = textEncode (a' ++ c :: s')) :
    textEncode a = textEncode a' ∧ s = s' := by
  have hlow := isLowSurrogate_ascii hc
  have hmem : ∀ {t : JSString}, c ∉ t → c.toNat ∉ t.map UInt16.toNat := by
    intro t ht hin
    obtain ⟨u, hu, hunit⟩ := List.mem_map.mp hin
    obtain rfl : u = c := UInt16.toNat_inj.mp hunit
    exact ht hu
  rw [textEncode_inj, scalars_append hlow, scalars_append hlow,
    scalars_ascii (List.forall_mem_cons.mpr ⟨hc, hs⟩),
    scalars_ascii (List.forall_mem_cons.mpr ⟨hc, hs'⟩), List.map_cons, List.map_cons] at h
  obtain ⟨hstart, hlast⟩ := append_cons_inj_last (hmem hcs) (hmem hcs') h
  exact ⟨textEncode_inj.mpr hstart,
    List.map_injective_iff.mpr (fun _ _ => UInt16.toNat_inj.mp) hlast⟩

theorem isDigit_ascii {c : UInt16} (h : isDigit c) : c < 128 := by
  simp only [isDigit, Bool.and_eq_true, decide_eq_true_eq] at h
  have hle : c.toNat ≤ 57 := UInt16.le_iff_toNat_le.mp h.2
  exact UInt16.lt_iff_toNat_lt.mpr (by change c.toNat < 128; omega)

/-- **The encoder loses the lone surrogates only.** -/
theorem eq_of_textEncode {s s' : JSString} (h : textEncode s = textEncode s')
    (hlone : loneSurrogates s = loneSurrogates s') : s = s' := by
  rw [← restore_scalars s, ← restore_scalars s', textEncode_inj.mp h, hlone]

/-! ## Well-formed strings -/

/-- Every surrogate belongs to a pair (`isWellFormed`). -/
inductive WellFormed : JSString → Prop where
  | nil : WellFormed []
  | unit {u : UInt16} {rest : JSString} : isSurrogate u = false → WellFormed rest →
      WellFormed (u :: rest)
  | pair {u v : UInt16} {rest : JSString} : (isHighSurrogate u && isLowSurrogate v) = true →
      WellFormed rest → WellFormed (u :: v :: rest)

theorem WellFormed.append {s s' : JSString} (h : WellFormed s) (h' : WellFormed s') :
    WellFormed (s ++ s') := by
  induction h with
  | nil => exact h'
  | unit hu _ ih => exact .unit hu ih
  | pair hpair _ ih => exact .pair hpair ih

theorem WellFormed.ascii {s : JSString} (h : ∀ c ∈ s, c < 128) : WellFormed s := by
  induction s with
  | nil => exact .nil
  | cons u rest ih =>
    exact .unit (isSurrogate_ascii (h u List.mem_cons_self))
      (ih fun c hc => h c (List.mem_cons_of_mem u hc))

theorem wellFormed_js {text : JSString} (h : text.all (fun c => decide (c < 128)) = true) :
    WellFormed text :=
  .ascii (ascii_of_all h)

theorem WellFormed.loneSurrogates_eq {s : JSString} (h : WellFormed s) :
    loneSurrogates s = (scalars s).map fun _ => none := by
  induction h with
  | nil => rfl
  | @unit u rest hu _ ih =>
    have hhigh : isHighSurrogate u = false := (Bool.or_eq_false_iff.mp hu).1
    have hlone : (isHighSurrogate u || isLowSurrogate u) = false := hu
    cases rest with
    | nil => simp [loneSurrogates, scalars, hlone]
    | cons v rest =>
      have hpair : ¬(isHighSurrogate u && isLowSurrogate v) = true := by simp [hhigh]
      rw [loneSurrogates, scalars, if_neg hpair, if_neg hpair, hlone, ih]
      rfl
  | pair hpair _ ih =>
    rw [loneSurrogates, scalars, if_pos hpair, if_pos hpair, ih, List.map_cons]

/-- **The encoder loses nothing** of a well-formed string. -/
theorem WellFormed.eq_of_textEncode {s s' : JSString} (hs : WellFormed s) (hs' : WellFormed s')
    (h : textEncode s = textEncode s') : s = s' := by
  apply BioFire.eq_of_textEncode h
  rw [hs.loneSurrogates_eq, hs'.loneSurrogates_eq, textEncode_inj.mp h]

/-! ## The decoder behind the encoder -/

theorem wellFormed_utf16Units {c : ℕ} (hc : IsScalar c) : WellFormed (utf16Units c) := by
  have hmax : c < 0x110000 := by
    rcases hc with h | h <;> omega
  have hunit : ∀ {n : ℕ}, n < 0x10000 → (UInt16.ofNat n).toNat = n := UInt16.toNat_ofNat_of_lt'
  rw [utf16Units]
  split
  next hlt =>
    refine .unit ?_ .nil
    rw [isSurrogate, Bool.eq_false_iff, Ne, isSurrogate_iff, hunit hlt]
    rcases hc with h | h <;> omega
  next hle =>
    refine .pair ?_ .nil
    simp only [isHighSurrogate, isLowSurrogate, Bool.and_eq_true, decide_eq_true_eq,
      UInt16.le_iff_toNat_le, UInt16.lt_iff_toNat_lt]
    rw [hunit (by omega), hunit (by omega)]
    change (0xD800 ≤ _ ∧ _ < 0xDC00) ∧ 0xDC00 ≤ _ ∧ _ < 0xE000
    omega

theorem wellFormed_flatMap {cs : List ℕ} (h : ∀ c ∈ cs, IsScalar c) :
    WellFormed (cs.flatMap utf16Units) := by
  induction cs with
  | nil => exact .nil
  | cons c cs ih =>
    rw [List.flatMap_cons]
    exact (wellFormed_utf16Units (h c List.mem_cons_self)).append
      (ih fun c' hc' => h c' (List.mem_cons_of_mem c hc'))

/-- Every unit of a string has a unit behind it when it is read back. -/
theorem length_flatMap_scalars (s : JSString) :
    ((scalars s).flatMap utf16Units).length = s.length := by
  have hsingle : ∀ u : UInt16, (utf16Units (loneScalar u)).length = 1 := by
    intro u
    have hu := u.toNat_lt
    have hlt : loneScalar u < 0x10000 := by
      rw [loneScalar]
      split <;> omega
    rw [utf16Units, if_pos hlt, List.length_singleton]
  induction s using scalars.induct with
  | case1 => rfl
  | case2 u => rw [scalars, List.flatMap_singleton, hsingle, List.length_singleton]
  | case3 u v rest hpair ih =>
    rw [scalars, if_pos hpair, List.flatMap_cons, List.length_append, ih, utf16Units,
      if_neg (by omega), List.length_cons, List.length_cons, List.length_cons, List.length_cons,
      List.length_nil]
    omega
  | case4 u v rest hpair ih =>
    rw [scalars, if_neg hpair, List.flatMap_cons, List.length_append, ih, hsingle,
      List.length_cons (a := u)]
    omega

theorem WellFormed.flatMap_scalars {s : JSString} (h : WellFormed s) :
    (scalars s).flatMap utf16Units = s := by
  conv_rhs => rw [← restore_scalars s, h.loneSurrogates_eq]
  rw [List.zipWith_map_right, List.zipWith_self, List.flatMap]
  rfl

theorem scalars_utf16Units {c : ℕ} (hc : IsScalar c) (s : JSString) :
    scalars (utf16Units c ++ s) = c :: scalars s := by
  have hunit : ∀ {n : ℕ}, n < 0x10000 → (UInt16.ofNat n).toNat = n := UInt16.toNat_ofNat_of_lt'
  have hmax : c < 0x110000 := by
    rcases hc with h | h <;> omega
  rw [utf16Units]
  split
  next hlt =>
    have hnot : (isHighSurrogate (UInt16.ofNat c) || isLowSurrogate (UInt16.ofNat c)) = false := by
      rw [Bool.eq_false_iff, Ne, isSurrogate_iff, hunit hlt]
      rcases hc with h | h <;> omega
    rw [List.singleton_append, scalars_cons (Bool.or_eq_false_iff.mp hnot).1, loneScalar, hnot,
      if_neg (by decide), hunit hlt]
  next hle =>
    have hhigh := hunit (show 0xD800 + (c - 0x10000) / 0x400 < 0x10000 by omega)
    have hlow := hunit (show 0xDC00 + (c - 0x10000) % 0x400 < 0x10000 by omega)
    rw [List.cons_append, List.singleton_append, scalars, if_pos, hhigh, hlow]
    · rw [show 0x10000 + (0xD800 + (c - 0x10000) / 0x400 - 0xD800) * 0x400 +
        (0xDC00 + (c - 0x10000) % 0x400 - 0xDC00) = c by omega]
    · simp only [isHighSurrogate, isLowSurrogate, Bool.and_eq_true, decide_eq_true_eq,
        UInt16.le_iff_toNat_le, UInt16.lt_iff_toNat_lt, hhigh, hlow]
      change (0xD800 ≤ _ ∧ _ < 0xDC00) ∧ 0xDC00 ≤ _ ∧ _ < 0xE000
      omega

theorem scalars_byteOrderMark (rest : JSString) :
    scalars (0xFEFF :: rest) = 0xFEFF :: scalars rest := by
  cases rest with
  | nil => rfl
  | cons v rest => rfl

/-- **Which strings the decoder reads back**: those without lone surrogates that do not
begin with a byte order mark, which the decoder drops. -/
theorem textDecode_textEncode_iff {s : JSString} :
    textDecode (textEncode s) = s ↔ WellFormed s ∧ s.head? ≠ some 0xFEFF := by
  have hrun : utf8Run .start (textEncode s) = scalars s :=
    utf8Run_flatMap fun c hc => isScalar_of_mem_scalars hc
  rw [textDecode, hrun]
  split
  next cs hcs =>
    constructor
    · intro heq
      have hlength := length_flatMap_scalars s
      rw [hcs, List.flatMap_cons, List.length_append, heq] at hlength
      change 1 + s.length = s.length at hlength
      omega
    · rintro ⟨hwell, hhead⟩
      have hback := hwell.flatMap_scalars
      rw [hcs, List.flatMap_cons] at hback
      exact absurd (by rw [← hback]; rfl) hhead
  next cs hnot =>
    constructor
    · intro heq
      refine ⟨?_, ?_⟩
      · rw [← heq]
        exact wellFormed_flatMap fun c hc => isScalar_of_mem_scalars hc
      · intro hhead
        obtain ⟨rest, rfl⟩ := List.head?_eq_some_iff.mp hhead
        exact hnot _ (scalars_byteOrderMark rest)
    · exact fun h => h.1.flatMap_scalars

end BioFire
