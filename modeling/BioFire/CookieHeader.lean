import BioFire.BigIntText
import BioFire.RequestTokens

/-!
# Cookie headers (`src/lib/security/session_guard.ts`)

A cookie header is a list of pairs. The check of a request reads the first text that stands
behind the name of the session cookie anywhere in a pair, whatever the name of that pair.

* `matchCookie_cookieHeader`, `cookieMark_infix_cookieHeader`: what is found in a header;
* `cookies_parsed_iff`: the headers that are read as their pairs say.
-/

namespace BioFire.SessionGuard

open Runs

structure Cookie where
  name : JSString
  value : JSString
  name_free : 59 ∉ name ∧ 61 ∉ name
  value_free : 59 ∉ value

def Cookie.text (cookie : Cookie) : JSString := cookie.name ++ js "=" ++ cookie.value

/-- The cookies of a request. -/
structure CookieJar where
  cookies : List Cookie
  distinct : (cookies.map Cookie.name).Nodup

/-- The pairs, separated by `; `. -/
def headerText : List Cookie → JSString
  | [] => []
  | [cookie] => cookie.text
  | cookie :: cookies => cookie.text ++ js "; " ++ headerText cookies

def CookieJar.header (jar : CookieJar) : JSString := headerText jar.cookies

def sessionCookie : JSString := js "biofire_session_auth"

/-! ## What is found in a header -/

theorem Cookie.text_free (cookie : Cookie) : 59 ∉ cookie.text := by
  have hsign : 59 ∉ js "=" := by decide
  simp [Cookie.text, cookie.name_free.1, cookie.value_free, hsign]

theorem headerText_cons_cons (cookie cookie' : Cookie) (cookies : List Cookie) :
    headerText (cookie :: cookie' :: cookies) =
      cookie.text ++ 59 :: 32 :: headerText (cookie' :: cookies) := by
  have hseparator : js "; " = [59, 32] := by decide
  rw [headerText, hseparator, List.append_assoc]
  · rfl
  · simp

theorem not_cookieMark_separator {c : UInt16} (h : c = 59 ∨ c = 32) (s : JSString) :
    ¬ cookieMark <+: c :: s := by
  rintro ⟨rest, hrest⟩
  have hmark : cookieMark = 98 :: js "iofire_session_auth=" := by decide
  rw [hmark] at hrest
  obtain ⟨rfl, -⟩ := List.cons.inj hrest
  rcases h with h | h
  · exact absurd h (by decide)
  · exact absurd h (by decide)

theorem matchCookie_skip {c : UInt16} (h : c = 59 ∨ c = 32) (s : JSString) :
    matchCookie (c :: s) = matchCookie s := by
  have hmarked : cookieMark.isPrefixOf (c :: s) = false := by
    rw [← Bool.not_eq_true, List.isPrefixOf_iff_prefix]
    exact not_cookieMark_separator h s
  rw [matchCookie, hmarked]
  rfl

/-- **The captured text of a header** is that of the first pair with one. -/
theorem matchCookie_cookieHeader (cookies : List Cookie) :
    matchCookie (headerText cookies) = cookies.findSome? fun cookie => matchCookie cookie.text := by
  induction cookies with
  | nil => rfl
  | cons cookie cookies ih =>
    rw [List.findSome?_cons, ← ih]
    cases cookies with
    | nil =>
      rw [headerText, headerText, matchCookie]
      cases matchCookie cookie.text <;> rfl
    | cons cookie' cookies =>
      rw [headerText_cons_cons, matchCookie_append cookie.text_free (by simp),
        matchCookie_skip (Or.inl rfl), matchCookie_skip (Or.inr rfl)]
      cases matchCookie cookie.text <;> rfl

theorem cookieMark_infix_cookieHeader (cookies : List Cookie) :
    cookieMark <:+: headerText cookies ↔ ∃ cookie ∈ cookies, cookieMark <:+: cookie.text := by
  induction cookies with
  | nil =>
    have hne : cookieMark ≠ [] := by decide
    simp [headerText, hne]
  | cons cookie cookies ih =>
    rw [List.exists_mem_cons_iff, ← ih]
    cases cookies with
    | nil =>
      have hne : cookieMark ≠ [] := by decide
      simp [headerText, hne]
    | cons cookie' cookies =>
      rw [headerText_cons_cons, cookieMark_infix_append (by simp), List.infix_cons_iff,
        List.infix_cons_iff, or_iff_right (not_cookieMark_separator (Or.inl rfl) _),
        or_iff_right (not_cookieMark_separator (Or.inr rfl) _)]

/-! ## Headers read as their pairs say -/

/-- The value is the first one that a pair of the header carries. -/
def CookieJar.CarriesFirst (jar : CookieJar) (value : JSString) : Prop :=
  ∃ before cookie after, jar.cookies = before ++ cookie :: after ∧
    (∀ earlier ∈ before, ∀ value', ¬ Carries earlier.text value') ∧
    SessionGuard.CarriesFirst cookie.text value

theorem matchCookie_header_iff {jar : CookieJar} {value : JSString} :
    matchCookie jar.header = some value ↔ jar.CarriesFirst value := by
  rw [CookieJar.header, matchCookie_cookieHeader, List.findSome?_eq_some_iff]
  simp only [CookieJar.CarriesFirst, matchCookie_eq_some_iff (Cookie.text_free _),
    matchCookie_eq_none_iff (Cookie.text_free _)]
  constructor
  · rintro ⟨before, cookie, after, hcut, hcarries, hearlier⟩
    exact ⟨before, cookie, after, hcut, hearlier, hcarries⟩
  · rintro ⟨before, cookie, after, hcut, hearlier, hcarries⟩
    exact ⟨before, cookie, after, hcut, hcarries, hearlier⟩

/-- The fingerprint of some binding. -/
def IssuedFingerprint (value : JSString) : Prop :=
  ∃ rawCookie : Digest, value = js "bf_cookie_" ++ bytesToHex rawCookie.1

/-- With a session cookie in the header, a request with the other token of an active session
is accepted, and the value of the cookie is returned. -/
def AcceptsSessionCookie (jar : CookieJar) : Prop :=
  ∀ (past : List GuardEvent) (binding : SessionBindingTokens) (now : ℤ)
    (sessionId : Option JSString),
    (run step newGuard past).activeSessions.get binding.sessionId = some binding →
    now ≤ binding.expiresAt →
    (∃ cookie ∈ jar.cookies, cookie.name = sessionCookie ∧
      cookie.value = binding.cookieFingerprint) →
    sessionId = none ∨ sessionId = some binding.sessionId →
    validateRequestAuthTokens (run step newGuard past) (some (bearerMark ++ binding.jwtToken))
      (some jar.header) sessionId now =
        ⟨true, some binding.jwtToken, some binding.cookieFingerprint, none⟩

/-- Without a session cookie in the header, no request is accepted. -/
def RefusesOtherCookies (jar : CookieJar) : Prop :=
  (∀ cookie ∈ jar.cookies, cookie.name ≠ sessionCookie) →
    ∀ (past : List GuardEvent) (authHeader sessionId : Option JSString) (now : ℤ),
      (validateRequestAuthTokens (run step newGuard past) authHeader (some jar.header) sessionId
        now).isValid = false

theorem removeFirst_append {pattern : JSString} (hne : pattern ≠ []) (s : JSString) :
    removeFirst pattern (pattern ++ s) = s := by
  obtain ⟨c, rest, rfl⟩ := List.exists_cons_of_ne_nil hne
  rw [List.cons_append, removeFirst, if_pos (by simp)]
  exact List.drop_left

theorem trim_token {mark : JSString} (hmark : ∀ c ∈ mark, isWhitespace c = false)
    (raw : Digest) : trim (mark ++ bytesToHex raw.1) = mark ++ bytesToHex raw.1 := by
  have hdigit : ∀ i : Fin 16, isWhitespace (hexDigit i) = false := by decide
  refine trim_eq_self (List.forall_mem_append.mpr ⟨hmark, fun c hc => ?_⟩)
  obtain ⟨i, rfl⟩ := exists_hexDigit_of_mem hc
  exact hdigit i

theorem trim_jwtToken {past : List GuardEvent} {binding : SessionBindingTokens}
    (h : binding ∈ (run step newGuard past).issued) : trim binding.jwtToken = binding.jwtToken := by
  obtain ⟨_, rawJwt, _, _, rfl⟩ := exists_newBinding h
  have hmark : (js "bf_jwt_").all (fun c => !isWhitespace c) = true := by decide
  exact trim_token (fun c hc => by simpa using List.all_eq_true.mp hmark c hc) rawJwt

theorem validate_accepted {state : GuardState} {jwtToken header : JSString}
    {sessionId : Option JSString} {now : ℤ}
    (h : (validateRequestAuthTokens state (some (bearerMark ++ jwtToken)) (some header) sessionId
      now).isValid = true) :
    validateRequestAuthTokens state (some (bearerMark ++ jwtToken)) (some header) sessionId now =
      ⟨true, some (trim jwtToken), some (((matchCookie header).map trim).getD []), none⟩ := by
  have hremove : removeFirst bearerMark (bearerMark ++ jwtToken) = jwtToken :=
    removeFirst_append (by decide) jwtToken
  generalize hverdict : validateRequestAuthTokens state (some (bearerMark ++ jwtToken))
    (some header) sessionId now = verdict at h ⊢
  simp only [validateRequestAuthTokens, Option.getD_some, hremove] at hverdict
  split at hverdict
  · subst hverdict
    cases h
  · split at hverdict
    · subst hverdict
      cases h
    · split at hverdict
      · exact hverdict.symm
      · split at hverdict
        · subst hverdict
          cases h
        · split at hverdict
          · subst hverdict
            cases h
          · exact hverdict.symm

/-- The value of the session cookie is the first one that the header carries. -/
def CookieJar.ReadsSessionCookie (jar : CookieJar) : Prop :=
  ∀ cookie ∈ jar.cookies, cookie.name = sessionCookie → IssuedFingerprint cookie.value →
    ∃ value, jar.CarriesFirst value ∧ trim value = cookie.value

theorem acceptsSessionCookie_iff (jar : CookieJar) :
    AcceptsSessionCookie jar ↔ jar.ReadsSessionCookie := by
  refine ⟨fun h => ?_, fun h => ?_⟩
  · rintro cookie hmem hname ⟨rawCookie, hvalue⟩
    have haccept := h [.createSessionBinding (js "session") zeroDigest rawCookie 0]
      (newBinding (js "session") zeroDigest rawCookie 0) 0 none rfl
      (by simp [newBinding, SESSION_TTL_MS]) ⟨cookie, hmem, hname, hvalue⟩ (Or.inl rfl)
    have hreturned := validate_accepted (congrArg RequestVerdict.isValid haccept)
    rw [haccept] at hreturned
    have hfingerprint := Option.some.inj (RequestVerdict.mk.inj hreturned).2.2.1
    rw [hvalue]
    cases hmatch : matchCookie jar.header with
    | none =>
      rw [hmatch] at hfingerprint
      cases hfingerprint
    | some value =>
      rw [hmatch] at hfingerprint
      exact ⟨value, matchCookie_header_iff.mp hmatch, hfingerprint.symm⟩
  · rintro past binding now sessionId hactive hexpires ⟨cookie, hmem, hname, hvalue⟩ hsession
    have hissued := (active_session_issued hactive).mem_issued
    have hfingerprint : IssuedFingerprint cookie.value := by
      obtain ⟨_, _, rawCookie, _, rfl⟩ := exists_newBinding hissued
      exact ⟨rawCookie, hvalue⟩
    obtain ⟨value, hfirst, htrim⟩ := h cookie hmem hname hfingerprint
    have hmatch : ((matchCookie jar.header).map trim).getD [] = binding.cookieFingerprint := by
      rw [matchCookie_header_iff.mpr hfirst, ← hvalue, ← htrim]
      rfl
    have hjwt := trim_jwtToken hissued
    have hremove : removeFirst bearerMark (bearerMark ++ binding.jwtToken) = binding.jwtToken :=
      removeFirst_append (by decide) _
    have hvalid : (validateRequestAuthTokens (run step newGuard past)
        (some (bearerMark ++ binding.jwtToken)) (some jar.header) sessionId now).isValid =
          true := by
      rw [validate_iff]
      simp only [Option.getD_some, hremove, hjwt, hmatch]
      refine ⟨List.prefix_append _ _, ?_, ?_⟩
      · obtain ⟨before, carrier, after, hcut, -, hcarries, -⟩ := hfirst
        refine (cookieMark_infix_cookieHeader _).mpr ⟨carrier, by simp [hcut], ?_⟩
        exact (List.prefix_append _ _).isInfix.trans hcarries.2.isInfix
      · rcases hsession with rfl | rfl
        · exact Or.inl rfl
        · exact Or.inr ⟨binding, hactive, rfl, rfl, hexpires⟩
    rw [validate_accepted hvalid, hjwt, hmatch]

theorem refusesOtherCookies_iff (jar : CookieJar) :
    RefusesOtherCookies jar ↔ ((∀ cookie ∈ jar.cookies, cookie.name ≠ sessionCookie) →
      ∀ cookie ∈ jar.cookies, ¬ cookieMark <:+: cookie.text) := by
  refine imp_congr_right fun hother => ⟨fun h => ?_, fun h => ?_⟩
  · intro cookie hmem hmark
    have hrefused := h [] (some (bearerMark ++ [])) none 0
    rw [← Bool.not_eq_true, validate_iff] at hrefused
    exact hrefused ⟨List.prefix_append _ _,
      (cookieMark_infix_cookieHeader _).mpr ⟨cookie, hmem, hmark⟩, Or.inl rfl⟩
  · intro past authHeader sessionId now
    rw [← Bool.not_eq_true, validate_iff]
    rintro ⟨-, hmark, -⟩
    obtain ⟨cookie, hmem, hcookie⟩ := (cookieMark_infix_cookieHeader _).mp hmark
    exact h cookie hmem hcookie

/-- **Cookie headers.** A header is read as its pairs say exactly when the first value that
a pair carries behind the mark is that of the session cookie, and, without a session cookie,
no pair has the mark. -/
theorem cookies_parsed_iff (jar : CookieJar) :
    AcceptsSessionCookie jar ∧ RefusesOtherCookies jar ↔
      jar.ReadsSessionCookie ∧
        ((∀ cookie ∈ jar.cookies, cookie.name ≠ sessionCookie) →
          ∀ cookie ∈ jar.cookies, ¬ cookieMark <:+: cookie.text) :=
  and_congr (acceptsSessionCookie_iff jar) (refusesOtherCookies_iff jar)

/-- Another cookie, whose name ends like that of the session cookie. -/
def otherCookieJar : CookieJar where
  cookies := [⟨js "x_biofire_session_auth", js "v", by decide, by decide⟩]
  distinct := List.nodup_singleton _

/-- A request with that cookie alone is accepted. -/
theorem other_cookie_accepted :
    ¬(AcceptsSessionCookie otherCookieJar ∧ RefusesOtherCookies otherCookieJar) := by
  rintro ⟨-, hrefuses⟩
  have hname : ∀ cookie ∈ otherCookieJar.cookies, cookie.name ≠ sessionCookie := by
    intro cookie hmem
    rw [List.mem_singleton.mp hmem]
    decide
  have hvalid := hrefuses hname [] (some (bearerMark ++ js "t")) none 0
  have htrue : (validateRequestAuthTokens (run step newGuard []) (some (bearerMark ++ js "t"))
      (some otherCookieJar.header) none 0).isValid = true := by decide
  rw [htrue] at hvalid
  cases hvalid

end BioFire.SessionGuard
