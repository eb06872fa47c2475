import BioFire.NumberString
import BioFire.TextEncoding

/-!
# `JSON.stringify`

JSON values and their text, without white space. `undefined` properties are left
out by the caller; a number that is not finite is written as `null`.

* `quote_append_inj`: a quoted string ends at its first unescaped quotation mark;
* `stringify_injective`: the text determines the value;
* `textEncode_stringify_injective`: so do its UTF-8 bytes, for the text has no lone
  surrogates.
-/

namespace BioFire

inductive Json where
  | null
  | bool (b : Bool)
  | number (x : ℚ)
  | string (s : JSString)
  | array (items : List Json)
  | object (members : List (JSString × Json))

/-- A number as `JSON.stringify` sees it. -/
def jsonNumber : JSNumber → Json
  | .finite x => .number x
  | _ => .null

/-! ## Text -/

/-- `\uXXXX`, with lower-case digits. -/
def unicodeEscape (u : UInt16) : JSString :=
  js "\\u" ++ [hexDigit (u.toNat / 0x1000), hexDigit (u.toNat / 0x100 % 0x10),
    hexDigit (u.toNat / 0x10 % 0x10), hexDigit (u.toNat % 0x10)]

/-- The units that have an escape of two units, and the letter behind its backslash. -/
def shortEscapes : List (UInt16 × UInt16) :=
  [(0x08, 98), (0x09, 116), (0x0A, 110), (0x0C, 102), (0x0D, 114), (0x22, 0x22), (0x5C, 0x5C)]

def shortEscape (u : UInt16) : Option UInt16 :=
  (shortEscapes.find? fun e => e.1 = u).map Prod.snd

/-- A unit that is not half of a surrogate pair. -/
def quoteUnit (u : UInt16) : JSString :=
  match shortEscape u with
  | some letter => [0x5C, letter]
  | none =>
    if u < 0x20 || isHighSurrogate u || isLowSurrogate u then unicodeEscape u else [u]

/-- What stands between the quotation marks. -/
def quoteUnits : JSString → JSString
  | [] => []
  | [u] => quoteUnit u
  | u :: v :: rest =>
    if isHighSurrogate u && isLowSurrogate v then u :: v :: quoteUnits rest
    else quoteUnit u ++ quoteUnits (v :: rest)

/-- `QuoteJSONString`. -/
def quote (s : JSString) : JSString := js "\"" ++ quoteUnits s ++ js "\""

mutual

/-- `JSON.stringify(value)`. -/
def Json.stringify : Json → JSString
  | .null => js "null"
  | .bool b => if b then js "true" else js "false"
  | .number x => numberString (.finite x)
  | .string s => quote s
  | .array items => js "[" ++ stringifyItems items ++ js "]"
  | .object members => js "\x7b" ++ stringifyMembers members ++ js "\x7d"

/-- The items of an array, joined by commas. -/
def stringifyItems : List Json → JSString
  | [] => []
  | [item] => item.stringify
  | item :: next :: items => item.stringify ++ js "," ++ stringifyItems (next :: items)

/-- The members of an object, joined by commas. -/
def stringifyMembers : List (JSString × Json) → JSString
  | [] => []
  | [(key, value)] => quote key ++ js ":" ++ value.stringify
  | (key, value) :: next :: members =>
    quote key ++ js ":" ++ value.stringify ++ js "," ++ stringifyMembers (next :: members)

end

example : (Json.object [(js "a", .array [.number 1, .null]), (js "b", .string (js "x\ny"))]).stringify =
    js "\x7b\"a\":[1,null],\"b\":\"x\\ny\"\x7d" := by with_unfolding_all decide

/-! ## Strings -/

/-- The texts under which a unit may stand between quotation marks. -/
def Written (u : UInt16) (text : JSString) : Prop :=
  text = [u] ∧ u ≠ 0x22 ∧ u ≠ 0x5C ∨ text = unicodeEscape u ∨
    ∃ letter, shortEscape u = some letter ∧ text = [0x5C, letter]

theorem written_quoteUnit (u : UInt16) : Written u (quoteUnit u) := by
  unfold quoteUnit
  cases h : shortEscape u with
  | some letter => exact Or.inr (Or.inr ⟨letter, h, rfl⟩)
  | none =>
    dsimp only
    split
    · exact Or.inr (Or.inl rfl)
    · refine Or.inl ⟨rfl, ?_, ?_⟩
      · rintro rfl
        cases h
      · rintro rfl
        cases h

theorem ne_of_isSurrogate {u : UInt16} (h : (isHighSurrogate u || isLowSurrogate u) = true) :
    u ≠ 0x22 ∧ u ≠ 0x5C := by
  constructor
  · rintro rfl
    cases h
  · rintro rfl
    cases h

theorem exists_written (s : JSString) :
    ∃ texts, List.Forall₂ Written s texts ∧ quoteUnits s = texts.flatten := by
  induction s using quoteUnits.induct with
  | case1 => exact ⟨[], .nil, rfl⟩
  | case2 u => exact ⟨[quoteUnit u], .cons (written_quoteUnit u) .nil, (List.append_nil _).symm⟩
  | case3 u v rest hpair ih =>
    obtain ⟨texts, hwritten, htext⟩ := ih
    have hboth := Bool.and_eq_true_iff.mp hpair
    have hu := ne_of_isSurrogate (Bool.or_eq_true_iff.mpr (Or.inl hboth.1))
    have hv := ne_of_isSurrogate (Bool.or_eq_true_iff.mpr (Or.inr hboth.2))
    refine ⟨[u] :: [v] :: texts, .cons (Or.inl ⟨rfl, hu⟩) (.cons (Or.inl ⟨rfl, hv⟩) hwritten), ?_⟩
    rw [quoteUnits, if_pos hpair, htext]
    rfl
  | case4 u v rest hpair ih =>
    obtain ⟨texts, hwritten, htext⟩ := ih
    refine ⟨quoteUnit u :: texts, .cons (written_quoteUnit u) hwritten, ?_⟩
    rw [quoteUnits, if_neg hpair, htext]
    rfl

theorem unicodeEscape_inj {u u' : UInt16} {r r' : JSString}
    (h : unicodeEscape u ++ r = unicodeEscape u' ++ r') : u = u' ∧ r = r' := by
  have hu := u.toNat_lt
  have hu' := u'.toNat_lt
  obtain ⟨hunits, hr⟩ := List.append_inj h rfl
  have hdigits := List.append_cancel_left hunits
  simp only [List.cons.injEq, and_true] at hdigits
  obtain ⟨h0, h1, h2, h3⟩ := hdigits
  have e0 := hexDigit_inj (by omega) (by omega) h0
  have e1 := hexDigit_inj (by omega) (by omega) h1
  have e2 := hexDigit_inj (by omega) (by omega) h2
  have e3 := hexDigit_inj (by omega) (by omega) h3
  exact ⟨UInt16.toNat_inj.mp (by omega), hr⟩

theorem mem_shortEscapes {u letter : UInt16} (h : shortEscape u = some letter) :
    (u, letter) ∈ shortEscapes := by
  obtain ⟨e, he, rfl⟩ := Option.map_eq_some_iff.mp h
  have hu : e.1 = u := by simpa using List.find?_some he
  rw [← hu]
  exact List.mem_of_find?_eq_some he

/-- The letter determines the unit. -/
theorem shortEscape_inj {u u' letter : UInt16} (h : shortEscape u = some letter)
    (h' : shortEscape u' = some letter) : u = u' := by
  have hall : ∀ e ∈ shortEscapes, ∀ e' ∈ shortEscapes, e.2 = e'.2 → e.1 = e'.1 := by
    simp [shortEscapes]
  exact hall _ (mem_shortEscapes h) _ (mem_shortEscapes h') rfl

theorem shortEscape_ne {u : UInt16} : shortEscape u ≠ some 117 := by
  intro h
  have hall : ∀ e ∈ shortEscapes, e.2 ≠ 117 := by simp [shortEscapes]
  exact hall _ (mem_shortEscapes h) rfl

theorem Written.append_inj {u u' : UInt16} {t t' r r' : JSString} (h : Written u t)
    (h' : Written u' t') (htext : t ++ r = t' ++ r') : u = u' ∧ r = r' := by
  have hlong : ∀ u : UInt16, ∃ rest, unicodeEscape u = 0x5C :: 117 :: rest := fun u => ⟨_, rfl⟩
  rcases h with ⟨rfl, hquote, hslash⟩ | rfl | ⟨letter, hletter, rfl⟩
  · rcases h' with ⟨rfl, -, -⟩ | rfl | ⟨letter', -, rfl⟩
    · exact List.cons.inj htext
    · obtain ⟨rest, hrest⟩ := hlong u'
      rw [hrest] at htext
      exact absurd (List.cons.inj htext).1 hslash
    · exact absurd (List.cons.inj htext).1 hslash
  · rcases h' with ⟨rfl, -, hslash⟩ | rfl | ⟨letter', hletter', rfl⟩
    · obtain ⟨rest, hrest⟩ := hlong u
      rw [hrest] at htext
      exact absurd (List.cons.inj htext).1.symm hslash
    · exact unicodeEscape_inj htext
    · obtain ⟨rest, hrest⟩ := hlong u
      rw [hrest] at htext
      obtain ⟨hu, -⟩ := List.cons.inj (List.cons.inj htext).2
      exact absurd (hu ▸ hletter') shortEscape_ne
  · rcases h' with ⟨rfl, -, hslash⟩ | rfl | ⟨letter', hletter', rfl⟩
    · exact absurd (List.cons.inj htext).1.symm hslash
    · obtain ⟨rest, hrest⟩ := hlong u'
      rw [hrest] at htext
      obtain ⟨hu, -⟩ := List.cons.inj (List.cons.inj htext).2
      exact absurd (hu ▸ hletter) shortEscape_ne
    · obtain ⟨hu, hr⟩ := List.cons.inj (List.cons.inj htext).2
      exact ⟨shortEscape_inj (hu ▸ hletter) hletter', hr⟩

theorem Written.ne_quotationMark {u : UInt16} {t r r' : JSString} (h : Written u t) :
    t ++ r ≠ 0x22 :: r' := by
  intro htext
  rcases h with ⟨rfl, hquote, -⟩ | rfl | ⟨letter, -, rfl⟩
  · exact hquote (List.cons.inj htext).1
  · cases (List.cons.inj htext).1
  · cases (List.cons.inj htext).1

/-- **Quoted strings.** A quoted string is read off the front of a text. -/
theorem quote_append_inj {s s' r r' : JSString} (h : quote s ++ r = quote s' ++ r') :
    s = s' ∧ r = r' := by
  obtain ⟨texts, hwritten, hs⟩ := exists_written s
  obtain ⟨texts', hwritten', hs'⟩ := exists_written s'
  rw [quote, quote, hs, hs'] at h
  simp only [List.append_assoc] at h
  replace h := List.append_cancel_left h
  clear hs hs'
  induction hwritten generalizing s' texts' with
  | nil =>
    cases hwritten' with
    | nil => exact ⟨rfl, List.append_cancel_left h⟩
    | cons hu _ =>
      rw [List.flatten_cons, List.append_assoc] at h
      exact absurd h.symm hu.ne_quotationMark
  | cons hu _ ih =>
    cases hwritten' with
    | nil =>
      rw [List.flatten_cons, List.append_assoc] at h
      exact absurd h hu.ne_quotationMark
    | cons hu' hrest' =>
      rw [List.flatten_cons, List.flatten_cons, List.append_assoc, List.append_assoc] at h
      obtain ⟨rfl, hrest⟩ := hu.append_inj hu' h
      obtain ⟨rfl, hr⟩ := ih _ hrest' hrest
      exact ⟨rfl, hr⟩

/-! ## Numbers -/

/-- The units of the text of a finite number. -/
def isNumberUnit (c : UInt16) : Bool :=
  isDigit c || c = 43 || c = 45 || c = 46 || c = 47 || c = 101

theorem isNumberUnit_digits {a : JSString} (h : AllDigits a) : ∀ c ∈ a, isNumberUnit c := by
  intro c hc
  have hdigit := h c hc
  simp [isNumberUnit, hdigit]

theorem isNumberUnit_toText (d : Decimal) : ∀ c ∈ d.toText, isNumberUnit c := by
  have hdigits := isNumberUnit_digits (allDigits_decimal d.digits)
  have hzeros : ∀ n : ℕ, ∀ c ∈ List.replicate n (48 : UInt16), isNumberUnit c :=
    fun n => isNumberUnit_digits (allDigits_zeros n)
  have hconst : ∀ {t : JSString}, t.all isNumberUnit = true → ∀ c ∈ t, isNumberUnit c :=
    fun ht => List.all_eq_true.mp ht
  rw [Decimal.toText]
  split
  · exact List.forall_mem_append.mpr ⟨hdigits, hzeros _⟩
  · split
    · exact List.forall_mem_append.mpr ⟨List.forall_mem_append.mpr
        ⟨fun c hc => hdigits c (List.mem_of_mem_take hc), hconst rfl⟩,
        fun c hc => hdigits c (List.mem_of_mem_drop hc)⟩
    · split
      · exact List.forall_mem_append.mpr ⟨hconst rfl,
          List.forall_mem_append.mpr ⟨hzeros _, hdigits⟩⟩
      · have hfraction : ∀ c ∈ (if (decimal d.digits).length = 1 then []
            else js "." ++ (decimal d.digits).drop 1), isNumberUnit c := by
          split
          · simp
          · exact List.forall_mem_append.mpr ⟨hconst rfl,
              fun c hc => hdigits c (List.mem_of_mem_drop hc)⟩
        have hsign : ∀ c ∈ (if (decimal d.digits).length + d.exponent - 1 < 0 then js "-"
            else js "+"), isNumberUnit c := by
          split
          · exact hconst rfl
          · exact hconst rfl
        simp only [List.forall_mem_append]
        exact ⟨⟨⟨⟨fun c hc => hdigits c (List.mem_of_mem_take hc), hfraction⟩, hconst rfl⟩, hsign⟩,
          isNumberUnit_digits (allDigits_decimal _)⟩

theorem isNumberUnit_positiveString (x : ℚ) : ∀ c ∈ positiveString x, isNumberUnit c := by
  unfold positiveString
  cases Decimal.shortest x with
  | some d => exact isNumberUnit_toText d
  | none =>
    have hslash : ∀ c ∈ js "/", isNumberUnit c :=
      List.all_eq_true.mp (by decide : (js "/").all isNumberUnit = true)
    exact List.forall_mem_append.mpr ⟨List.forall_mem_append.mpr ⟨List.forall_mem_append.mpr
      ⟨hslash, isNumberUnit_digits (allDigits_decimal _)⟩, hslash⟩,
      isNumberUnit_digits (allDigits_decimal _)⟩

theorem isNumberUnit_numberString (x : ℚ) : ∀ c ∈ numberString (.finite x), isNumberUnit c := by
  rw [numberString]
  split
  · exact List.all_eq_true.mp (by decide : (js "0").all isNumberUnit = true)
  · split
    · exact List.forall_mem_append.mpr
        ⟨List.all_eq_true.mp (by decide : (js "-").all isNumberUnit = true),
          isNumberUnit_positiveString _⟩
    · exact isNumberUnit_positiveString x

theorem numberString_ne_nil (x : ℚ) : numberString (.finite x) ≠ [] := by
  intro h
  rw [numberString] at h
  split at h
  · cases h
  · split at h
    · cases h
    · obtain ⟨c, hc, -⟩ := head?_positiveString x
      rw [h] at hc
      cases hc

/-- What may follow a value: nothing, a comma or a closing bracket. -/
def Delimited (r : JSString) : Prop := ∀ c ∈ r.head?, isNumberUnit c = false

/-- **Numbers.** A number is read off the front of a text. -/
theorem numberString_append_inj {x x' : ℚ} {r r' : JSString} (hr : Delimited r)
    (hr' : Delimited r') (h : numberString (.finite x) ++ r = numberString (.finite x') ++ r') :
    x = x' ∧ r = r' := by
  have htake : ∀ {x : ℚ} {r : JSString}, Delimited r →
      (numberString (.finite x) ++ r).takeWhile isNumberUnit = numberString (.finite x) := by
    intro x r hr
    rw [List.takeWhile_append_of_pos (isNumberUnit_numberString x)]
    cases r with
    | nil => exact List.append_nil _
    | cons c r =>
      have hc : isNumberUnit c = false := hr c rfl
      rw [List.takeWhile_cons_of_neg (by simp [hc]), List.append_nil]
  have htext : numberString (.finite x) = numberString (.finite x') := by
    rw [← htake (x := x) hr, h, htake hr']
  rw [htext] at h
  exact ⟨JSNumber.finite.inj (numberString_injective htext), List.append_cancel_left h⟩

/-! ## Values -/

/-- The kinds of values, told apart by the first unit of their text. -/
def Json.kind : Json → ℕ
  | .null => 0
  | .bool _ => 1
  | .number _ => 2
  | .string _ => 3
  | .array _ => 4
  | .object _ => 5

def kindOfUnit (c : UInt16) : ℕ :=
  if c = 110 then 0
  else if c = 116 ∨ c = 102 then 1
  else if c = 0x22 then 3
  else if c = 91 then 4
  else if c = 123 then 5
  else if isNumberUnit c then 2
  else 6

theorem Json.kind_lt (v : Json) : v.kind < 6 := by
  cases v <;> simp [kind]

theorem kindOfUnit_number {c : UInt16} (h : isNumberUnit c) : kindOfUnit c = 2 := by
  have hne : ∀ d : UInt16, isNumberUnit d = false → c ≠ d := by
    rintro d hd rfl
    rw [h] at hd
    cases hd
  simp [kindOfUnit, h, hne 110 (by decide), hne 116 (by decide), hne 102 (by decide),
    hne 0x22 (by decide), hne 91 (by decide), hne 123 (by decide)]

theorem Json.exists_head (v : Json) : ∃ c rest, v.stringify = c :: rest ∧ kindOfUnit c = v.kind := by
  cases v with
  | null => exact ⟨_, _, rfl, rfl⟩
  | bool b =>
    cases b with
    | false => exact ⟨_, _, rfl, rfl⟩
    | true => exact ⟨_, _, rfl, rfl⟩
  | number x =>
    obtain ⟨c, rest, hcons⟩ := List.exists_cons_of_ne_nil (numberString_ne_nil x)
    refine ⟨c, rest, by rw [stringify, hcons], kindOfUnit_number ?_⟩
    exact isNumberUnit_numberString x c (by rw [hcons]; exact List.mem_cons_self)
  | string s => exact ⟨_, _, by rw [stringify, quote]; rfl, rfl⟩
  | array items => exact ⟨_, _, by rw [stringify]; rfl, rfl⟩
  | object members => exact ⟨_, _, by rw [stringify]; rfl, rfl⟩

/-- The items behind the first one, with their commas. -/
def itemsTail : List Json → JSString
  | [] => []
  | item :: items => js "," ++ stringifyItems (item :: items)

theorem stringifyItems_cons (item : Json) (items : List Json) :
    stringifyItems (item :: items) = item.stringify ++ itemsTail items := by
  cases items with
  | nil => rw [stringifyItems, itemsTail, List.append_nil]
  | cons next items => rw [stringifyItems, itemsTail, List.append_assoc]

/-- The members behind the first one, with their commas. -/
def membersTail : List (JSString × Json) → JSString
  | [] => []
  | member :: members => js "," ++ stringifyMembers (member :: members)

theorem stringifyMembers_cons (key : JSString) (value : Json) (members : List (JSString × Json)) :
    stringifyMembers ((key, value) :: members) =
      quote key ++ (js ":" ++ (value.stringify ++ membersTail members)) := by
  cases members with
  | nil =>
    rw [stringifyMembers, membersTail, List.append_nil]
    simp only [List.append_assoc]
  | cons next members =>
    rw [stringifyMembers, membersTail]
    simp only [List.append_assoc]

theorem sum_keys_le (members : List (JSString × Json)) :
    (members.map fun member => (quote member.1).length + 2).sum ≤
      (stringifyMembers members).length := by
  induction members with
  | nil => simp
  | cons member members ih =>
    obtain ⟨key, value⟩ := member
    obtain ⟨c, rest, hvalue, -⟩ := value.exists_head
    have htail : (stringifyMembers members).length ≤ (membersTail members).length := by
      cases members with
      | nil => exact le_rfl
      | cons next members =>
        rw [membersTail, List.length_append]
        exact Nat.le_add_left _ _
    rw [stringifyMembers_cons, hvalue, List.map_cons, List.sum_cons]
    simp only [List.length_append, List.length_cons]
    have hcolon : (js ":").length = 1 := rfl
    omega

theorem delimited_tail {tail : JSString} (closing : UInt16) (r : JSString)
    (hclosing : isNumberUnit closing = false) (htail : ∀ c ∈ tail.head?, c = 44) :
    Delimited (tail ++ closing :: r) := by
  intro c hc
  cases tail with
  | nil =>
    obtain rfl : closing = c := Option.some.inj hc
    exact hclosing
  | cons d tail =>
    obtain rfl : d = c := Option.some.inj hc
    rw [htail d rfl]
    rfl

theorem head_itemsTail (items : List Json) : ∀ c ∈ (itemsTail items).head?, c = 44 := by
  intro c hc
  cases items with
  | nil => cases hc
  | cons item items => exact (Option.some.inj hc).symm

theorem head_membersTail (members : List (JSString × Json)) :
    ∀ c ∈ (membersTail members).head?, c = 44 := by
  intro c hc
  cases members with
  | nil => cases hc
  | cons member members => exact (Option.some.inj hc).symm

theorem stringifyItems_ne_bracket {item : Json} {items : List Json} {r r' : JSString} :
    stringifyItems (item :: items) ++ r ≠ js "]" ++ r' := by
  intro heq
  obtain ⟨c, rest, hc, hkind⟩ := item.exists_head
  rw [stringifyItems_cons, hc] at heq
  obtain rfl : c = 93 := (List.cons.inj heq).1
  have hlt := item.kind_lt
  rw [← hkind] at hlt
  exact absurd hlt (by decide)

theorem stringifyMembers_ne_brace {member : JSString × Json} {members : List (JSString × Json)}
    {r r' : JSString} : stringifyMembers (member :: members) ++ r ≠ js "\x7d" ++ r' := by
  intro heq
  obtain ⟨key, value⟩ := member
  rw [stringifyMembers_cons, quote] at heq
  cases (List.cons.inj heq).1

mutual

/-- **Values.** A value is read off the front of a text. -/
theorem Json.stringify_append_inj (v v' : Json) {r r' : JSString} (hr : Delimited r)
    (hr' : Delimited r') (h : v.stringify ++ r = v'.stringify ++ r') : v = v' ∧ r = r' := by
  have hkind : v.kind = v'.kind := by
    obtain ⟨c, rest, hc, hkind⟩ := v.exists_head
    obtain ⟨c', rest', hc', hkind'⟩ := v'.exists_head
    rw [hc, hc'] at h
    rw [← hkind, ← hkind', (List.cons.inj h).1]
  cases v with
  | null =>
    cases v' with
    | null => exact ⟨rfl, List.append_cancel_left h⟩
    | _ => cases hkind
  | bool b =>
    cases v' with
    | bool b' =>
      rw [Json.stringify, Json.stringify] at h
      cases b <;> cases b'
      · exact ⟨rfl, List.append_cancel_left h⟩
      · cases (List.cons.inj h).1
      · cases (List.cons.inj h).1
      · exact ⟨rfl, List.append_cancel_left h⟩
    | _ => cases hkind
  | number x =>
    cases v' with
    | number x' =>
      rw [Json.stringify, Json.stringify] at h
      obtain ⟨rfl, hrest⟩ := numberString_append_inj hr hr' h
      exact ⟨rfl, hrest⟩
    | _ => cases hkind
  | string s =>
    cases v' with
    | string s' =>
      rw [Json.stringify, Json.stringify] at h
      obtain ⟨rfl, hrest⟩ := quote_append_inj h
      exact ⟨rfl, hrest⟩
    | _ => cases hkind
  | array items =>
    cases v' with
    | array items' =>
      rw [Json.stringify, Json.stringify] at h
      simp only [List.append_assoc] at h
      obtain ⟨rfl, hrest⟩ := stringifyItems_append_inj items items' (List.append_cancel_left h)
      exact ⟨rfl, hrest⟩
    | _ => cases hkind
  | object members =>
    cases v' with
    | object members' =>
      rw [Json.stringify, Json.stringify] at h
      simp only [List.append_assoc] at h
      obtain ⟨rfl, hrest⟩ := stringifyMembers_append_inj members members'
        (List.append_cancel_left h)
      exact ⟨rfl, hrest⟩
    | _ => cases hkind

theorem stringifyItems_append_inj (items items' : List Json) {r r' : JSString}
    (h : stringifyItems items ++ (js "]" ++ r) = stringifyItems items' ++ (js "]" ++ r')) :
    items = items' ∧ r = r' := by
  cases items with
  | nil =>
    cases items' with
    | nil => exact ⟨rfl, List.append_cancel_left h⟩
    | cons item' items' => exact absurd h.symm stringifyItems_ne_bracket
  | cons item items =>
    cases items' with
    | nil => exact absurd h stringifyItems_ne_bracket
    | cons item' items' =>
      rw [stringifyItems_cons, stringifyItems_cons, List.append_assoc, List.append_assoc] at h
      obtain ⟨rfl, htail⟩ := Json.stringify_append_inj item item'
        (delimited_tail 93 r rfl (head_itemsTail items))
        (delimited_tail 93 r' rfl (head_itemsTail items')) h
      cases items with
      | nil =>
        cases items' with
        | nil => exact ⟨rfl, (List.cons.inj htail).2⟩
        | cons next' items' => cases (List.cons.inj htail).1
      | cons next items =>
        cases items' with
        | nil => cases (List.cons.inj htail).1
        | cons next' items' =>
          rw [itemsTail, itemsTail, List.append_assoc, List.append_assoc] at htail
          obtain ⟨hitems, hrest⟩ := stringifyItems_append_inj (next :: items) (next' :: items')
            (List.append_cancel_left htail)
          exact ⟨by rw [hitems], hrest⟩

theorem stringifyMembers_append_inj (members members' : List (JSString × Json)) {r r' : JSString}
    (h : stringifyMembers members ++ (js "\x7d" ++ r) =
      stringifyMembers members' ++ (js "\x7d" ++ r')) : members = members' ∧ r = r' := by
  cases members with
  | nil =>
    cases members' with
    | nil => exact ⟨rfl, List.append_cancel_left h⟩
    | cons member' members' => exact absurd h.symm stringifyMembers_ne_brace
  | cons member members =>
    cases members' with
    | nil => exact absurd h stringifyMembers_ne_brace
    | cons member' members' =>
      obtain ⟨key, value⟩ := member
      obtain ⟨key', value'⟩ := member'
      rw [stringifyMembers_cons, stringifyMembers_cons] at h
      simp only [List.append_assoc] at h
      obtain ⟨rfl, hvalue⟩ := quote_append_inj h
      obtain ⟨rfl, htail⟩ := Json.stringify_append_inj value value'
        (delimited_tail 125 r rfl (head_membersTail members))
        (delimited_tail 125 r' rfl (head_membersTail members')) (List.append_cancel_left hvalue)
      cases members with
      | nil =>
        cases members' with
        | nil => exact ⟨rfl, (List.cons.inj htail).2⟩
        | cons next' members' => cases (List.cons.inj htail).1
      | cons next members =>
        cases members' with
        | nil => cases (List.cons.inj htail).1
        | cons next' members' =>
          rw [membersTail, membersTail, List.append_assoc, List.append_assoc] at htail
          obtain ⟨hmembers, hrest⟩ := stringifyMembers_append_inj (next :: members)
            (next' :: members') (List.append_cancel_left htail)
          exact ⟨by rw [hmembers], hrest⟩

end

/-- **The text determines the value.** -/
theorem stringify_injective : Function.Injective Json.stringify := by
  intro v v' h
  have hdelimited : Delimited [] := fun c hc => by cases hc
  exact (Json.stringify_append_inj v v' hdelimited hdelimited (by rw [h])).1

/-! ## Bytes -/

theorem wellFormed_unicodeEscape (u : UInt16) : WellFormed (unicodeEscape u) := by
  have hu := u.toNat_lt
  apply WellFormed.ascii
  intro c hc
  rw [unicodeEscape, List.mem_append] at hc
  rcases hc with hc | hc
  · exact ascii_of_all (by decide : (js "\\u").all (fun c => decide (c < 128)) = true) c hc
  · simp only [List.mem_cons, List.not_mem_nil, or_false] at hc
    rcases hc with rfl | rfl | rfl | rfl
    · exact hexDigit_ascii (by omega)
    · exact hexDigit_ascii (by omega)
    · exact hexDigit_ascii (by omega)
    · exact hexDigit_ascii (by omega)

theorem wellFormed_quoteUnit (u : UInt16) : WellFormed (quoteUnit u) := by
  unfold quoteUnit
  cases h : shortEscape u with
  | some letter =>
    have hall : ∀ e ∈ shortEscapes, e.2 < 128 := by simp [shortEscapes]
    apply WellFormed.ascii
    intro c hc
    simp only [List.mem_cons, List.not_mem_nil, or_false] at hc
    rcases hc with rfl | rfl
    · decide
    · exact hall _ (mem_shortEscapes h)
  | none =>
    dsimp only
    split
    · exact wellFormed_unicodeEscape u
    next hplain =>
      have hu : isSurrogate u = false := by
        rw [isSurrogate]
        simp only [Bool.or_eq_true, not_or, Bool.not_eq_true] at hplain
        rw [hplain.1.2, hplain.2]
        rfl
      exact .unit hu .nil

theorem wellFormed_quoteUnits (s : JSString) : WellFormed (quoteUnits s) := by
  induction s using quoteUnits.induct with
  | case1 => exact .nil
  | case2 u => exact wellFormed_quoteUnit u
  | case3 u v rest hpair ih =>
    rw [quoteUnits, if_pos hpair]
    exact .pair hpair ih
  | case4 u v rest hpair ih =>
    rw [quoteUnits, if_neg hpair]
    exact (wellFormed_quoteUnit u).append ih

theorem wellFormed_quote (s : JSString) : WellFormed (quote s) :=
  ((wellFormed_js (by decide)).append (wellFormed_quoteUnits s)).append (wellFormed_js (by decide))

theorem numberString_ascii (x : ℚ) : ∀ c ∈ numberString (.finite x), c < 128 := by
  intro c hc
  have hunit := isNumberUnit_numberString x c hc
  simp only [isNumberUnit, Bool.or_eq_true, decide_eq_true_eq] at hunit
  rcases hunit with ((((hdigit | rfl) | rfl) | rfl) | rfl) | rfl
  · exact isDigit_ascii hdigit
  all_goals decide

theorem colon_not_mem_numberString (x : JSNumber) : 58 ∉ numberString x := by
  cases x with
  | finite x =>
    intro hcolon
    cases isNumberUnit_numberString x 58 hcolon
  | nan => decide
  | negInfinity => decide
  | infinity => decide

theorem ascii_numberString (x : JSNumber) : ∀ c ∈ numberString x, c < 128 := by
  cases x with
  | finite x => exact numberString_ascii x
  | nan => exact ascii_of_all (by decide)
  | negInfinity => exact ascii_of_all (by decide)
  | infinity => exact ascii_of_all (by decide)

mutual

theorem Json.wellFormed_stringify (v : Json) : WellFormed v.stringify := by
  cases v with
  | null => exact wellFormed_js (by decide)
  | bool b =>
    cases b with
    | false => exact wellFormed_js (by decide)
    | true => exact wellFormed_js (by decide)
  | number x => exact WellFormed.ascii (numberString_ascii x)
  | string s => exact wellFormed_quote s
  | array items =>
    rw [Json.stringify]
    exact ((wellFormed_js (by decide)).append (wellFormed_items items)).append
      (wellFormed_js (by decide))
  | object members =>
    rw [Json.stringify]
    exact ((wellFormed_js (by decide)).append (wellFormed_members members)).append
      (wellFormed_js (by decide))

theorem wellFormed_items (items : List Json) : WellFormed (stringifyItems items) := by
  cases items with
  | nil => exact .nil
  | cons item items =>
    rw [stringifyItems_cons]
    apply (Json.wellFormed_stringify item).append
    cases items with
    | nil => exact .nil
    | cons next items => exact (wellFormed_js (by decide)).append (wellFormed_items (next :: items))

theorem wellFormed_members (members : List (JSString × Json)) :
    WellFormed (stringifyMembers members) := by
  cases members with
  | nil => exact .nil
  | cons member members =>
    obtain ⟨key, value⟩ := member
    rw [stringifyMembers_cons]
    apply (wellFormed_quote key).append
    apply (wellFormed_js (by decide)).append
    apply (Json.wellFormed_stringify value).append
    cases members with
    | nil => exact .nil
    | cons next members =>
      exact (wellFormed_js (by decide)).append (wellFormed_members (next :: members))

end

/-- **The bytes determine the value.** -/
theorem textEncode_stringify_injective : Function.Injective fun v : Json => textEncode v.stringify :=
  fun v v' h => stringify_injective (v.wellFormed_stringify.eq_of_textEncode
    v'.wellFormed_stringify h)

end BioFire
