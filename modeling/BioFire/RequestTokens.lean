import BioFire.InputSanitization
import BioFire.SessionGuard
import BioFire.Separators

/-!
# Tokens of a request (`src/lib/security/session_guard.ts`)

`validateRequestAuthTokens`: the bearer token of the authorization header, and the session
cookie, which a substring test and a pattern look for in the cookie header.

* `validate_iff`: when a request is accepted;
* `matchCookie_append`, `matchCookie_eq_some_iff`: what the pattern captures;
* `cookieMark_infix_append`: where the substring test looks.
-/

namespace BioFire.SessionGuard

open Separators

/-! ## Strings -/

/-- `s.includes(pattern)` -/
def includes (s pattern : JSString) : Bool := s.tails.any pattern.isPrefixOf

/-- `s.replace(pattern, '')` -/
def removeFirst (pattern : JSString) : JSString → JSString
  | [] => []
  | c :: s =>
    if pattern.isPrefixOf (c :: s) then (c :: s).drop pattern.length
    else c :: removeFirst pattern s

def bearerMark : JSString := js "Bearer "

def cookieMark : JSString := js "biofire_session_auth="

/-- `s.match(/biofire_session_auth=([^;]+)/)`, its group. -/
def matchCookie : JSString → Option JSString
  | [] => none
  | c :: s =>
    let value := ((c :: s).drop cookieMark.length).takeWhile (· != 59)
    if cookieMark.isPrefixOf (c :: s) && !value.isEmpty then some value else matchCookie s

/-! ## Requests -/

structure RequestVerdict where
  isValid : Bool
  jwtToken : Option JSString
  cookieFingerprint : Option JSString
  reason : Option JSString
  deriving DecidableEq

def refuse (reason : JSString) : RequestVerdict := ⟨false, none, none, some reason⟩

/-- `validateRequestAuthTokens` at the time `now`; an omitted argument is `none`. -/
def validateRequestAuthTokens (state : GuardState)
    (authHeader cookieHeader sessionId : Option JSString) (now : ℤ) : RequestVerdict :=
  let authHeader := authHeader.getD []
  let cookieHeader := cookieHeader.getD []
  let sessionId := sessionId.getD []
  if !bearerMark.isPrefixOf authHeader then
    refuse (js "Missing or malformed Authorization Bearer token header")
  else if !includes cookieHeader cookieMark then
    refuse (js "Missing or invalid httpOnly biofire_session_auth cookie")
  else
    let jwtToken := trim (removeFirst bearerMark authHeader)
    let cookieFingerprint := ((matchCookie cookieHeader).map trim).getD []
    let accept := ⟨true, some jwtToken, some cookieFingerprint, none⟩
    if sessionId.isEmpty then accept
    else
      match (state.activeSessions.get sessionId).filter fun active =>
        active.jwtToken == jwtToken && active.cookieFingerprint == cookieFingerprint with
      | none => refuse (js "Session token or cookie fingerprint mismatch")
      | some active => if active.expiresAt < now then refuse (js "Session expired") else accept

/-- The checks of a request whose headers are there. -/
def SessionMatches (state : GuardState) (sessionId jwtToken cookieFingerprint : JSString)
    (now : ℤ) : Prop :=
  sessionId = [] ∨ ∃ active, state.activeSessions.get sessionId = some active ∧
    active.jwtToken = jwtToken ∧ active.cookieFingerprint = cookieFingerprint ∧
    now ≤ active.expiresAt

theorem includes_iff {s pattern : JSString} : includes s pattern = true ↔ pattern <:+: s := by
  simp [includes, List.infix_iff_prefix_suffix, List.isPrefixOf_iff_prefix, and_comm]

/-- **Accepted requests**: both headers are there, and the session matches. -/
theorem validate_iff {state : GuardState} {authHeader cookieHeader sessionId : Option JSString}
    {now : ℤ} :
    (validateRequestAuthTokens state authHeader cookieHeader sessionId now).isValid = true ↔
      bearerMark <+: authHeader.getD [] ∧ cookieMark <:+: cookieHeader.getD [] ∧
        SessionMatches state (sessionId.getD [])
          (trim (removeFirst bearerMark (authHeader.getD [])))
          (((matchCookie (cookieHeader.getD [])).map trim).getD []) now := by
  rw [← List.isPrefixOf_iff_prefix, ← includes_iff]
  simp only [validateRequestAuthTokens, SessionMatches]
  cases bearerMark.isPrefixOf (authHeader.getD []) with
  | false => simp [refuse]
  | true =>
    cases includes (cookieHeader.getD []) cookieMark with
    | false => simp [refuse]
    | true =>
      cases hid : sessionId.getD [] with
      | nil => simp
      | cons c id =>
        simp only [Bool.not_true, Bool.false_eq_true, if_false, List.isEmpty_cons, true_and,
          reduceCtorEq, false_or]
        split
        next hnone =>
          refine iff_of_false Bool.false_ne_true ?_
          rintro ⟨active, hget, hjwt, hcookie, -⟩
          rw [hget, Option.filter_some, if_pos (by simp [hjwt, hcookie])] at hnone
          cases hnone
        next active hsome =>
          obtain ⟨hget, hmatch⟩ := Option.filter_eq_some_iff.mp hsome
          rw [Bool.and_eq_true, beq_iff_eq, beq_iff_eq] at hmatch
          rw [hget]
          split
          next hexpired => simp [refuse, hexpired]
          next hfresh => simp [hmatch, not_lt.mp hfresh]

/-! ## The pattern -/

theorem cookieMark_ne {c : UInt16} (h : c ∈ cookieMark) : c ≠ 59 ∧ c ≠ 32 := by
  have hall : cookieMark.all (fun c => c != 59 && c != 32) = true := by decide
  simpa using List.all_eq_true.mp hall c h

theorem cookieMark_prefix_append {text rest : JSString} (hrest : ∀ c ∈ rest.head?, c = 59) :
    cookieMark <+: text ++ rest ↔ cookieMark <+: text := by
  refine prefix_append_iff fun c hc hmem => ?_
  exact (cookieMark_ne hmem).1 (hrest c hc)

/-- **What the pattern captures** of a text and a separator behind it. -/
theorem matchCookie_append {text rest : JSString} (htext : 59 ∉ text)
    (hrest : ∀ c ∈ rest.head?, c = 59) :
    matchCookie (text ++ rest) = (matchCookie text).or (matchCookie rest) := by
  induction text with
  | nil => rfl
  | cons c text ih =>
    rw [List.mem_cons, not_or] at htext
    have hunits : ∀ l : JSString, 59 ∉ l → ∀ d ∈ l, (d != 59) = true := by
      intro l hl d hd
      rw [bne_iff_ne]
      rintro rfl
      exact hl hd
    have hcut : ∀ l : JSString, 59 ∉ l → (l ++ rest).takeWhile (· != 59) = l :=
      fun l hl => takeWhile_append_of_head (hunits l hl) fun d hd => by simp [hrest d hd]
    have hself : ∀ l : JSString, 59 ∉ l → l.takeWhile (· != 59) = l :=
      fun l hl => List.takeWhile_eq_self_iff.mpr (hunits l hl)
    rw [List.cons_append, matchCookie, matchCookie, ← List.cons_append]
    by_cases hmark : cookieMark <+: c :: text
    · obtain ⟨value, hvalue⟩ := hmark
      have hfree : 59 ∉ value := by
        intro hmem
        have hcons : 59 ∈ c :: text := hvalue ▸ List.mem_append_right _ hmem
        rcases List.mem_cons.mp hcons with hc | hmem
        · exact htext.1 hc
        · exact htext.2 hmem
      have hmarked : cookieMark.isPrefixOf (cookieMark ++ value) = true := by simp
      have hmarked' : cookieMark.isPrefixOf (cookieMark ++ (value ++ rest)) = true := by simp
      rw [← hvalue, List.append_assoc, List.drop_left, List.drop_left, hcut value hfree,
        hself value hfree, hmarked, hmarked']
      split
      · rfl
      · exact ih htext.2
    · have hmarked : cookieMark.isPrefixOf (c :: text) = false := by
        rwa [← Bool.not_eq_true, List.isPrefixOf_iff_prefix]
      have hmarked' : cookieMark.isPrefixOf (c :: text ++ rest) = false := by
        rwa [← Bool.not_eq_true, List.isPrefixOf_iff_prefix, cookieMark_prefix_append hrest]
      rw [hmarked, hmarked']
      exact ih htext.2

/-- The substring test finds the mark on one side of a separator. -/
theorem cookieMark_infix_append {text rest : JSString} (hrest : ∀ c ∈ rest.head?, c = 59) :
    cookieMark <:+: text ++ rest ↔ cookieMark <:+: text ∨ cookieMark <:+: rest := by
  induction text with
  | nil =>
    have hnil : ¬ cookieMark <:+: [] := by
      rw [List.infix_nil]
      decide
    simp [hnil]
  | cons c text ih =>
    rw [List.cons_append, List.infix_cons_iff, ih, List.infix_cons_iff, ← List.cons_append,
      cookieMark_prefix_append hrest, or_assoc]

/-- The text ends with the mark and a value. -/
def Carries (text value : JSString) : Prop := value ≠ [] ∧ cookieMark ++ value <:+ text

/-- Of the values that a text carries, the longest one. -/
def CarriesFirst (text value : JSString) : Prop :=
  Carries text value ∧ ∀ value', Carries text value' → value'.length ≤ value.length

theorem CarriesFirst.unique {text value value' : JSString} (h : CarriesFirst text value)
    (h' : CarriesFirst text value') : value = value' := by
  have hlength : value.length = value'.length :=
    le_antisymm (h'.2 value h.1) (h.2 value' h'.1)
  have hsuffix := List.suffix_of_suffix_length_le h.1.2 h'.1.2 (by simp [hlength])
  exact List.append_cancel_left (hsuffix.eq_of_length (by simp [hlength]))

theorem carries_cons {c : UInt16} {text value : JSString} :
    Carries (c :: text) value ↔
      value ≠ [] ∧ cookieMark ++ value = c :: text ∨ Carries text value := by
  rw [Carries, Carries, List.suffix_cons_iff, and_or_left]

/-- **What the pattern captures** of a text without separators. -/
theorem matchCookie_spec {text : JSString} (htext : 59 ∉ text) :
    match matchCookie text with
    | some value => CarriesFirst text value
    | none => ∀ value, ¬ Carries text value := by
  induction text with
  | nil =>
    intro value h
    have hnil := List.suffix_nil.mp h.2
    exact h.1 (List.append_eq_nil_iff.mp hnil).2
  | cons c text ih =>
    have htail : 59 ∉ text := fun hmem => htext (List.mem_cons_of_mem c hmem)
    rw [matchCookie]
    by_cases hmark : ∃ value, value ≠ [] ∧ cookieMark ++ value = c :: text
    · obtain ⟨value, hne, hvalue⟩ := hmark
      have hfree : value.takeWhile (· != 59) = value := by
        rw [List.takeWhile_eq_self_iff]
        intro d hd
        rw [bne_iff_ne]
        rintro rfl
        exact htext (hvalue ▸ List.mem_append_right _ hd)
      have hmarked : cookieMark.isPrefixOf (cookieMark ++ value) = true := by simp
      rw [← hvalue, List.drop_left, hfree, hmarked]
      simp only [Bool.true_and, Bool.not_eq_true', List.isEmpty_eq_false_iff.mpr hne, if_true]
      refine ⟨⟨hne, List.suffix_rfl⟩, fun value' h' => ?_⟩
      have hle := h'.2.length_le
      simp only [List.length_append] at hle
      omega
    · have hskip : (cookieMark.isPrefixOf (c :: text) &&
          !(((c :: text).drop cookieMark.length).takeWhile (· != 59)).isEmpty) = false := by
        by_contra htrue
        rw [Bool.not_eq_false, Bool.and_eq_true, List.isPrefixOf_iff_prefix] at htrue
        obtain ⟨⟨value, hvalue⟩, hvalueNe⟩ := htrue
        refine hmark ⟨value, ?_, hvalue⟩
        rintro rfl
        rw [← hvalue, List.drop_left] at hvalueNe
        cases hvalueNe
      rw [hskip]
      have hsame : ∀ value, Carries (c :: text) value ↔ Carries text value := by
        intro value
        rw [carries_cons, or_iff_right fun h => hmark ⟨value, h⟩]
      have hrest := ih htail
      simp only [CarriesFirst, hsame]
      exact hrest

theorem matchCookie_eq_some_iff {text value : JSString} (htext : 59 ∉ text) :
    matchCookie text = some value ↔ CarriesFirst text value := by
  have hspec := matchCookie_spec htext
  constructor
  · intro h
    rw [h] at hspec
    exact hspec
  · intro h
    split at hspec
    next value' hvalue =>
      rw [hvalue, hspec.unique h]
    next => exact absurd h.1 (hspec value)

theorem matchCookie_eq_none_iff {text : JSString} (htext : 59 ∉ text) :
    matchCookie text = none ↔ ∀ value, ¬ Carries text value := by
  have hspec := matchCookie_spec htext
  constructor
  · intro h
    rw [h] at hspec
    exact hspec
  · intro h
    split at hspec
    next value hvalue => exact absurd hspec.1 (h value)
    next hnone => exact hnone

end BioFire.SessionGuard
