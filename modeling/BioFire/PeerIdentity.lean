import BioFire.InputSanitization
import BioFire.PercentEncoding
import BioFire.Separators

/-!
# The node id in the url of a connection (`src/lib/network/transport.ts`)

`connect` appends its node id to the url as it is. `new URL` then cuts the text at `#`, drops
blanks and escapes characters, and `extractPeerId` takes what stands behind the first `nodeId=`
up to the next `&` and removes the escapes.

* `requestTarget_connectAddress`: the path and query that the server is sent;
* `matchNodeId_own`, `matchNodeId_eq_some`: the text that the pattern takes for the id;
* `eq_scalars_of_decode`: what is read from a part of an id;
* `peer_identity_iff`: for which urls and node ids the server reads the right id.
-/

namespace BioFire.Transport

open Separators

/-! ## `new URL` -/

/-- The special-query percent-encode set. -/
def specialQuerySet (c : ℕ) : Bool :=
  c ≤ 0x20 || 0x7E < c || [0x22, 0x23, 0x27, 0x3C, 0x3E].contains c

def pathSet (c : ℕ) : Bool :=
  c ≤ 0x20 || 0x7E < c || [0x22, 0x23, 0x3C, 0x3E, 0x3F, 0x5E, 0x60, 0x7B, 0x7D].contains c

/-- A C0 control or a space, which `new URL` drops at both ends. -/
def isBlank (c : ℕ) : Bool := c ≤ 0x20

/-- Tabs and line ends, which it drops everywhere. -/
def isTabOrNewline (c : ℕ) : Bool := [0x09, 0x0A, 0x0D].contains c

def isSlash (c : ℕ) : Bool := c = 0x2F || c = 0x5C

def endsPath (c : ℕ) : Bool := c = 0x3F || c = 0x23

def isSingleDot (segment : JSString) : Bool :=
  [js ".", js "%2e"].any (· == segment.map asciiLower)

def isDoubleDot (segment : JSString) : Bool :=
  [js "..", js ".%2e", js "%2e.", js "%2e%2e"].any (· == segment.map asciiLower)

/-- The segments of a path behind the ones already there. -/
def pathSegments : List JSString → List JSString → List JSString
  | path, [] => path
  | path, [last] =>
    if isDoubleDot last then path.dropLast ++ [[]]
    else if isSingleDot last then path ++ [[]]
    else path ++ [last]
  | path, segment :: rest =>
    if isDoubleDot segment then pathSegments path.dropLast rest
    else if isSingleDot segment then pathSegments path rest
    else pathSegments (path ++ [segment]) rest

/-- `url.pathname` -/
def pathname (path : List ℕ) : JSString :=
  let segments := match path with
    | [] => [[]]
    | c :: rest => if isSlash c then rest.splitOnP isSlash else path.splitOnP isSlash
  (pathSegments [] (segments.map (percentEncode pathSet))).flatMap (47 :: ·)

/-- `url.search`, from where the path ends. -/
def search : List ℕ → JSString
  | 63 :: rest =>
    let query := percentEncode specialQuerySet (rest.takeWhile (· ≠ 0x23))
    if query = [] then [] else 63 :: query
  | _ => []

/-- What `new URL` reads of a text. -/
def urlInput (address : JSString) : List ℕ :=
  (((scalars address).dropWhile isBlank).rdropWhile isBlank).filter (! isTabOrNewline ·)

/-- `url.pathname + url.search` of a `ws` address, which the client asks the server for. -/
def requestTarget (address : JSString) : JSString :=
  let rest := (((urlInput address).dropWhile (· ≠ 0x3A)).drop 1).dropWhile isSlash
  let rest := rest.dropWhile fun c => !(isSlash c || endsPath c)
  pathname (rest.takeWhile (! endsPath ·)) ++ search (rest.dropWhile (! endsPath ·))

example : requestTarget (js "WS://h:1/a/./%2E%2e/é?q='#x") = js "/%C3%A9?q=%27" := by decide

/-! ## Urls of peers -/

/-- A character of a valid url, which has no blanks, fragments and backslashes. -/
def IsUrlCharacter (c : ℕ) : Prop := 0x20 < c ∧ c ≠ 0x23 ∧ c ≠ 0x5C

instance : DecidablePred IsUrlCharacter := fun c =>
  inferInstanceAs (Decidable (0x20 < c ∧ c ≠ 0x23 ∧ c ≠ 0x5C))

/-- A valid `ws` url. -/
structure WsUrl where
  scheme : JSString
  /-- The host and the port. -/
  authority : JSString
  path : JSString
  query : Option JSString
  scheme_ws : scheme.map asciiLower = js "ws" ∨ scheme.map asciiLower = js "wss"
  authority_ne_nil : authority ≠ []
  authority_valid : ∀ c ∈ scalars authority, IsUrlCharacter c ∧ c ≠ 0x2F ∧ c ≠ 0x3F
  path_slash : path = [] ∨ path.head? = some 47
  path_valid : ∀ c ∈ scalars path, IsUrlCharacter c ∧ c ≠ 0x3F
  query_valid : ∀ q ∈ query, ∀ c ∈ scalars q, IsUrlCharacter c

def WsUrl.text (url : WsUrl) : JSString :=
  url.scheme ++ js "://" ++ url.authority ++ url.path ++ url.query.elim [] (63 :: ·)

/-- The path and query of the url, as they stand in front of what is appended. -/
def WsUrl.ownTarget (url : WsUrl) : JSString :=
  pathname (scalars url.path) ++
    url.query.elim [] fun q => 63 :: percentEncode specialQuerySet (scalars q)

/-- What `new URL` keeps of a node id at the end of an address. -/
def keptId (nodeId : JSString) : List ℕ :=
  (((scalars nodeId).rdropWhile isBlank).filter (! isTabOrNewline ·)).takeWhile (· ≠ 0x23)

/-- What stands behind the first `nodeId=` of a path and query, when it begins with another
character than `&`; what is appended begins with one. -/
def ownValue : JSString → Option JSString
  | [] => none
  | c :: rest =>
    if (c = 63 ∨ c = 38) ∧ (js "nodeId=").isPrefixOf rest ∧ (rest.drop 7).head? ≠ some 38 then
      some (rest.drop 7)
    else ownValue rest

/-- An id that is read back as it was appended. -/
structure PlainId (nodeId : JSString) : Prop where
  ne_nil : nodeId ≠ []
  wellFormed : WellFormed nodeId
  /-- No hash, percent sign, ampersand, tab or line end. -/
  unreserved : ∀ c ∈ scalars nodeId, c ∉ [0x23, 0x25, 0x26, 0x09, 0x0A, 0x0D]
  /-- No blank at the end. -/
  last : ∀ c, (scalars nodeId).getLast? = some c → 0x20 < c

/-- The url has no node id of its own and the appended one is plain, or the one of the url, with
what is appended to it, is the id. -/
def Identifies (url : WsUrl) (nodeId : JSString) : Prop :=
  match ownValue url.ownTarget with
  | none => PlainId nodeId
  | some value =>
    decodeURIComponent ((value ++ js "?nodeId=" ++ percentEncode specialQuerySet
      (keptId nodeId)).takeWhile (· ≠ 38)) = .ok nodeId

/-! ## The target of a connection -/

theorem specialQuerySet_encodes : EncodeSet specialQuerySet where
  ascii {c} h := by
    simp only [specialQuerySet, Bool.or_eq_false_iff, decide_eq_false_iff_not] at h
    omega
  percent := by decide

theorem urlInput_append {address : JSString} {front : List ℕ} {nodeId : JSString}
    (h : scalars address = front ++ 0x3D :: scalars nodeId) (hfront : ∀ c ∈ front, 0x20 < c) :
    urlInput address = front ++ 0x3D ::
      ((scalars nodeId).rdropWhile isBlank).filter (! isTabOrNewline ·) := by
  have hkept : ∀ c ∈ front, (! isTabOrNewline c) = true := by
    intro c hc
    have hlt := hfront c hc
    simp [isTabOrNewline]
    omega
  have hstart : (front ++ 0x3D :: scalars nodeId).dropWhile isBlank =
      front ++ 0x3D :: scalars nodeId := by
    cases front with
    | nil => rfl
    | cons c front =>
      have hlt := hfront c List.mem_cons_self
      exact List.dropWhile_cons_of_neg (by simp [isBlank]; omega)
  rw [urlInput, h, hstart, rdropWhile_append_cons (by decide), List.filter_append,
    List.filter_eq_self.mpr hkept, List.filter_cons_of_pos (by decide)]

theorem requestTarget_of_urlInput {address : JSString} {scheme authority path query : List ℕ}
    (h : urlInput address =
      scheme ++ 0x3A :: 0x2F :: 0x2F :: (authority ++ (path ++ 0x3F :: query)))
    (hscheme : 0x3A ∉ scheme) (hne : authority ≠ [])
    (hauthority : ∀ c ∈ authority, isSlash c = false ∧ endsPath c = false)
    (hslash : path = [] ∨ path.head? = some 0x2F) (hpath : ∀ c ∈ path, endsPath c = false) :
    requestTarget address = pathname path ++ search (0x3F :: query) := by
  have hcolon : (urlInput address).dropWhile (· ≠ 0x3A) =
      0x3A :: 0x2F :: 0x2F :: (authority ++ (path ++ 0x3F :: query)) := by
    rw [h]
    refine dropWhile_append_cons ?_ (by decide) _
    intro c hc
    rw [decide_eq_true_eq]
    rintro rfl
    exact hscheme hc
  have hslashes : (0x2F :: 0x2F :: (authority ++ (path ++ 0x3F :: query))).dropWhile isSlash =
      authority ++ (path ++ 0x3F :: query) := by
    obtain ⟨c, authority, rfl⟩ := List.exists_cons_of_ne_nil hne
    have hc := (hauthority c List.mem_cons_self).1
    rw [List.dropWhile_cons_of_pos (by decide), List.dropWhile_cons_of_pos (by decide)]
    exact List.dropWhile_cons_of_neg (by simp [hc])
  have hhost : (authority ++ (path ++ 0x3F :: query)).dropWhile
      (fun c => !(isSlash c || endsPath c)) = path ++ 0x3F :: query := by
    have hall : ∀ c ∈ authority, (!(isSlash c || endsPath c)) = true := by
      intro c hc
      simp [hauthority c hc]
    rcases hslash with rfl | hhead
    · exact dropWhile_append_cons hall (by decide) _
    · obtain ⟨path', rfl⟩ := List.head?_eq_some_iff.mp hhead
      exact dropWhile_append_cons hall (by decide) _
  have hpaths : ∀ c ∈ path, (! endsPath c) = true := by
    intro c hc
    rw [hpath c hc]
    rfl
  unfold requestTarget
  dsimp only
  rw [hcolon, List.drop_one, List.tail_cons, hslashes, hhost,
    takeWhile_append_cons hpaths (by decide), dropWhile_append_cons hpaths (by decide)]

/-- The text of a query with an id appended, up to the last `=`. -/
def idQuery (query : Option JSString) : List ℕ :=
  let name := (js "nodeId").map UInt16.toNat
  query.elim name fun q => scalars q ++ 0x3F :: name

theorem scalars_idQuery (query : Option JSString) (nodeId : JSString) :
    scalars (query.elim [] (63 :: ·) ++ js "?nodeId=" ++ nodeId) =
      0x3F :: (idQuery query ++ 0x3D :: scalars nodeId) := by
  have hid : ∀ u ∈ js "?nodeId=", u < 128 := ascii_of_all (by decide)
  cases query with
  | none =>
    rw [Option.elim_none, List.nil_append, scalars_ascii_append hid]
    rfl
  | some q =>
    have hmark : js "?nodeId=" ++ nodeId = 63 :: (js "nodeId=" ++ nodeId) := rfl
    rw [Option.elim_some, List.cons_append, List.cons_append, scalars_cons (by decide),
      List.append_assoc, hmark, scalars_append (by decide), ← hmark, scalars_ascii_append hid,
      idQuery]
    simp only [Option.elim_some, List.append_assoc, List.cons_append]
    rfl

theorem WsUrl.scheme_ascii (url : WsUrl) : ∀ c ∈ url.scheme, 32 < c ∧ c < 128 ∧ c ≠ 58 := by
  intro c hc
  have hlower : asciiLower c = 119 ∨ asciiLower c = 115 := by
    have hmem : asciiLower c ∈ url.scheme.map asciiLower := List.mem_map_of_mem hc
    rcases url.scheme_ws with h | h
    · rw [h] at hmem
      simpa [js, utf16Units] using hmem
    · rw [h] at hmem
      simpa [js, utf16Units] using hmem
  unfold asciiLower at hlower
  split at hlower
  · rcases hlower with h | h
    · obtain rfl : c = 119 - 32 := UInt16.eq_sub_iff_add_eq.mpr h
      decide
    · obtain rfl : c = 115 - 32 := UInt16.eq_sub_iff_add_eq.mpr h
      decide
  · rcases hlower with rfl | rfl
    · decide
    · decide

theorem scalars_connectAddress (config : TransportConfig) (url : WsUrl) :
    scalars (connectAddress config url.text) =
      url.scheme.map UInt16.toNat ++ 0x3A :: 0x2F :: 0x2F :: (scalars url.authority ++
        (scalars url.path ++ 0x3F :: (idQuery url.query ++ 0x3D :: scalars config.nodeId))) := by
  have hscheme : ∀ c ∈ url.scheme ++ js "://", c < 128 := by
    intro c hc
    rcases List.mem_append.mp hc with hc | hc
    · exact (url.scheme_ascii c hc).2.1
    · exact ascii_of_all (by decide) c hc
  have hquery := scalars_idQuery url.query config.nodeId
  obtain ⟨tail, htail⟩ : ∃ tail, url.query.elim [] (63 :: ·) ++ js "?nodeId=" ++ config.nodeId =
      63 :: tail := by
    cases url.query with
    | none => exact ⟨_, rfl⟩
    | some q => exact ⟨_, rfl⟩
  have hpath : scalars (url.authority ++ (url.path ++ 63 :: tail)) =
      scalars url.authority ++ (scalars url.path ++ scalars (63 :: tail)) := by
    rw [← scalars_append (by decide)]
    rcases url.path_slash with hnil | hhead
    · rw [hnil]
      exact scalars_append (by decide) _ _
    · obtain ⟨path, hpath⟩ := List.head?_eq_some_iff.mp hhead
      rw [hpath]
      exact scalars_append (by decide) _ _
  rw [connectAddress, WsUrl.text]
  simp only [List.append_assoc] at htail hquery ⊢
  rw [← List.append_assoc, scalars_ascii_append hscheme, htail, hpath, ← htail, hquery,
    List.map_append, List.append_assoc]
  rfl

theorem search_append (query kept : List ℕ) (hquery : ∀ c ∈ query, c ≠ 0x23) :
    search (0x3F :: (query ++ 0x3D :: kept)) =
      63 :: percentEncode specialQuerySet (query ++ 0x3D :: kept.takeWhile (· ≠ 0x23)) := by
  have hall : ∀ c ∈ query, decide (c ≠ 0x23) = true := by
    intro c hc
    exact decide_eq_true (hquery c hc)
  have hne : percentEncode specialQuerySet (query ++ 0x3D :: kept.takeWhile (· ≠ 0x23)) ≠ [] := by
    rw [percentEncode_append, percentEncode_cons]
    simp [specialQuerySet]
  rw [search, List.takeWhile_append_of_pos hall, List.takeWhile_cons_of_pos (by decide)]
  exact if_neg hne

/-- **The target of a connection** is the one of the url, and behind it what is kept of the node
id. -/
theorem requestTarget_connectAddress (config : TransportConfig) (url : WsUrl) :
    requestTarget (connectAddress config url.text) =
      url.ownTarget ++ (js "?nodeId=" ++ percentEncode specialQuerySet (keptId config.nodeId)) := by
  have hname : ∀ c ∈ (js "nodeId").map UInt16.toNat, 0x20 < c ∧ c ≠ 0x23 := by decide
  have hquery : ∀ c ∈ idQuery url.query, 0x20 < c ∧ c ≠ 0x23 := by
    intro c hc
    unfold idQuery at hc
    cases hq : url.query with
    | none =>
      rw [hq] at hc
      exact hname c hc
    | some q =>
      rw [hq] at hc
      rcases List.mem_append.mp hc with hc | hc
      · have hvalid := url.query_valid q hq c hc
        exact ⟨hvalid.1, hvalid.2.1⟩
      · rcases List.mem_cons.mp hc with rfl | hc
        · decide
        · exact hname c hc
  have hinput : urlInput (connectAddress config url.text) =
      url.scheme.map UInt16.toNat ++ 0x3A :: 0x2F :: 0x2F :: (scalars url.authority ++
        (scalars url.path ++ 0x3F :: (idQuery url.query ++ 0x3D ::
          ((scalars config.nodeId).rdropWhile isBlank).filter (! isTabOrNewline ·)))) := by
    have hcut : scalars (connectAddress config url.text) =
        (url.scheme.map UInt16.toNat ++ 0x3A :: 0x2F :: 0x2F :: (scalars url.authority ++
          (scalars url.path ++ 0x3F :: idQuery url.query))) ++ 0x3D :: scalars config.nodeId := by
      rw [scalars_connectAddress]
      simp
    rw [urlInput_append hcut]
    · simp
    · intro c hc
      simp only [List.mem_append, List.mem_cons] at hc
      rcases hc with hc | rfl | rfl | rfl | hc | hc | rfl | hc
      · obtain ⟨u, hu, rfl⟩ := List.mem_map.mp hc
        exact UInt16.lt_iff_toNat_lt.mp (url.scheme_ascii u hu).1
      · decide
      · decide
      · decide
      · exact (url.authority_valid c hc).1.1
      · exact (url.path_valid c hc).1.1
      · decide
      · exact (hquery c hc).1
  rw [requestTarget_of_urlInput hinput, search_append _ _ fun c hc => (hquery c hc).2]
  · rw [WsUrl.ownTarget, idQuery, keptId]
    cases url.query with
    | none =>
      rw [Option.elim_none, Option.elim_none, percentEncode_append, List.append_nil]
      rfl
    | some q =>
      rw [Option.elim_some, Option.elim_some, percentEncode_append, percentEncode_append,
        List.append_assoc, List.append_assoc]
      rfl
  · intro hmem
    obtain ⟨u, hu, hcolon⟩ := List.mem_map.mp hmem
    exact (url.scheme_ascii u hu).2.2 (UInt16.toNat_inj.mp hcolon)
  · intro hnil
    have hlength := length_flatMap_scalars url.authority
    rw [hnil] at hlength
    exact url.authority_ne_nil (List.length_eq_zero_iff.mp hlength.symm)
  · intro c hc
    obtain ⟨⟨-, hhash, hbackslash⟩, hslash, hquestion⟩ := url.authority_valid c hc
    simp [isSlash, endsPath, hhash, hbackslash, hslash, hquestion]
  · rcases url.path_slash with hnil | hhead
    · rw [hnil]
      exact Or.inl rfl
    · obtain ⟨path, hpath⟩ := List.head?_eq_some_iff.mp hhead
      rw [hpath, scalars_cons (by decide)]
      exact Or.inr rfl
  · intro c hc
    obtain ⟨⟨-, hhash, -⟩, hquestion⟩ := url.path_valid c hc
    simp [endsPath, hhash, hquestion]

/-! ## The pattern -/

theorem eq_append_of_isPrefixOf {rest : JSString} (h : (js "nodeId=").isPrefixOf rest = true) :
    rest = js "nodeId=" ++ rest.drop 7 := by
  obtain ⟨tail, rfl⟩ := List.isPrefixOf_iff_prefix.mp h
  rfl

theorem takeWhile_ne_nil_iff {s : JSString} (hs : s ≠ []) :
    s.takeWhile (· ≠ 38) ≠ [] ↔ s.head? ≠ some 38 := by
  cases s with
  | nil => exact absurd rfl hs
  | cons c s => by_cases hc : c = 38 <;> simp [hc]

/-- **The first parameter of the url** is taken, when it has one. -/
theorem matchNodeId_own (own text : JSString) : matchNodeId (own ++ (js "?nodeId=" ++ text)) =
    match ownValue own with
    | some value => some ((value ++ (js "?nodeId=" ++ text)).takeWhile (· ≠ 38))
    | none => matchNodeId (js "?nodeId=" ++ text) := by
  induction own with
  | nil => rfl
  | cons c rest ih =>
    have hmarked : (js "nodeId=").isPrefixOf (rest ++ (js "?nodeId=" ++ text)) =
        (js "nodeId=").isPrefixOf rest := by
      rw [Bool.eq_iff_iff, List.isPrefixOf_iff_prefix, List.isPrefixOf_iff_prefix]
      refine prefix_append_iff fun c hc => ?_
      cases hc
      decide
    rw [List.cons_append, matchNodeId, ownValue, hmarked]
    by_cases hname : (js "nodeId=").isPrefixOf rest = true
    · obtain ⟨value, rfl⟩ := List.isPrefixOf_iff_prefix.mp hname
      have hdrop : (js "nodeId=" ++ value ++ (js "?nodeId=" ++ text)).drop 7 =
          value ++ (js "?nodeId=" ++ text) := by
        rw [List.append_assoc]
        rfl
      have hgroup : (value ++ (js "?nodeId=" ++ text)).takeWhile (· ≠ 38) ≠ [] ↔
          value.head? ≠ some 38 := by
        cases value with
        | nil => exact iff_of_true (List.cons_ne_nil _ _) nofun
        | cons u value => exact takeWhile_ne_nil_iff (List.cons_ne_nil _ _)
      have hvalue : (js "nodeId=" ++ value).drop 7 = value := rfl
      rw [hdrop, hvalue]
      by_cases hmatch : (c = 63 ∨ c = 38) ∧ value.head? ≠ some 38
      · rw [if_pos ⟨hmatch.1, hname, hgroup.mpr hmatch.2⟩, if_pos ⟨hmatch.1, hname, hmatch.2⟩]
      · rw [if_neg fun h => hmatch ⟨h.1, hgroup.mp h.2.2⟩, if_neg fun h => hmatch ⟨h.1, h.2.2⟩]
        exact ih
    · rw [if_neg fun h => hname h.2.1, if_neg fun h => hname h.2.1]
      exact ih

theorem matchNodeId_eq_some {s group : JSString} (h : matchNodeId s = some group) :
    group ≠ [] ∧ ∃ x y, s = x ++ 61 :: y ∧ group = y.takeWhile (· ≠ 38) := by
  induction s with
  | nil => cases h
  | cons c rest ih =>
    rw [matchNodeId] at h
    split at h
    next hmatch =>
      cases h
      refine ⟨hmatch.2.2, c :: js "nodeId", rest.drop 7, ?_, rfl⟩
      rw [eq_append_of_isPrefixOf hmatch.2.1]
      rfl
    · obtain ⟨hne, x, y, rfl, hgroup⟩ := ih h
      exact ⟨hne, c :: x, y, rfl, hgroup⟩

theorem matchNodeId_appended {text : JSString} (h : text.takeWhile (· ≠ 38) ≠ []) :
    matchNodeId (js "?nodeId=" ++ text) = some (text.takeWhile (· ≠ 38)) := by
  rw [show js "?nodeId=" ++ text = 63 :: (js "nodeId=" ++ text) from rfl, matchNodeId]
  exact if_pos ⟨Or.inl rfl, by simp [List.isPrefixOf_iff_prefix], h⟩

/-! ## Plain ids -/

theorem decodeURIComponent_eq_ok_iff {s text : JSString} :
    decodeURIComponent s = .ok text ↔ decodeRounds s.length s = some text := by
  unfold decodeURIComponent
  split
  next h => simp [h]
  next h => simp [h]

theorem map_some_eq_ok_iff {result : Except JSError JSString} {text : JSString} :
    result.map some = .ok (some text) ↔ result = .ok text := by
  cases result with
  | error e => exact iff_of_false nofun nofun
  | ok text' => simp [Except.map]

theorem PlainId.keptId_eq {nodeId : JSString} (h : PlainId nodeId) :
    keptId nodeId = scalars nodeId := by
  have hlast : (scalars nodeId).rdropWhile isBlank = scalars nodeId := by
    rw [List.rdropWhile_eq_self_iff]
    intro hne hblank
    have hlt := h.last _ (List.getLast?_eq_some_getLast hne)
    simp only [isBlank, decide_eq_true_eq] at hblank
    omega
  have hfilter : (scalars nodeId).filter (! isTabOrNewline ·) = scalars nodeId := by
    rw [List.filter_eq_self]
    intro c hc
    have hc := h.unreserved c hc
    simp at hc
    simp [isTabOrNewline, hc]
  rw [keptId, hlast, hfilter, List.takeWhile_eq_self_iff]
  intro c hc
  have hc := h.unreserved c hc
  simp at hc
  simp [hc]

theorem takeWhile_ampersand (cs : List ℕ) :
    (percentEncode specialQuerySet cs).takeWhile (· ≠ 38) =
      percentEncode specialQuerySet (cs.takeWhile (· ≠ 38)) :=
  takeWhile_percentEncode specialQuerySet_encodes ⟨by decide, by decide⟩ (by decide) cs

theorem PlainId.extractPeerId_eq {nodeId : JSString} (h : PlainId nodeId) :
    extractPeerId (js "?nodeId=" ++ percentEncode specialQuerySet (keptId nodeId)) =
      .ok (some nodeId) := by
  have hscalar : ∀ c ∈ scalars nodeId, IsScalar c := fun c hc => isScalar_of_mem_scalars hc
  have hreserved : ∀ {k}, k ∈ [0x23, 0x25, 0x26, 0x09, 0x0A, 0x0D] → k ∉ scalars nodeId :=
    fun hk hmem => h.unreserved _ hmem hk
  have hwhole : (percentEncode specialQuerySet (scalars nodeId)).takeWhile (· ≠ 38) =
      percentEncode specialQuerySet (scalars nodeId) := by
    rw [takeWhile_ampersand, List.takeWhile_eq_self_iff.mpr]
    intro c hc
    rw [decide_eq_true_eq]
    rintro rfl
    exact hreserved (by decide) hc
  have hdecode : decodeURIComponent (percentEncode specialQuerySet (scalars nodeId)) =
      .ok nodeId := by
    rw [decodeURIComponent_eq_ok_iff, decodeRounds_percentEncode specialQuerySet_encodes hscalar
      (hreserved (by decide)) le_rfl, h.wellFormed.flatMap_scalars]
  have hne : percentEncode specialQuerySet (scalars nodeId) ≠ [] := by
    intro hnil
    rw [hnil] at hdecode
    exact h.ne_nil (Except.ok.inj hdecode).symm
  rw [h.keptId_eq, extractPeerId, matchNodeId_appended (by rw [hwhole]; exact hne), hwhole]
  dsimp only
  rw [hdecode]
  rfl

theorem length_flatMap_utf8Bytes {part cs : List ℕ} (h : List.Sublist part cs) :
    (part.flatMap utf8Bytes).length + (cs.length - part.length) ≤
      (cs.flatMap utf8Bytes).length := by
  induction h with
  | slnil => exact le_rfl
  | @cons part cs c h ih =>
    have hc := utf8Bytes_length_pos c
    have hle := h.length_le
    rw [List.flatMap_cons, List.length_append, List.length_cons]
    omega
  | @cons_cons part cs c h ih =>
    rw [List.flatMap_cons, List.flatMap_cons, List.length_append, List.length_append,
      List.length_cons, List.length_cons]
    omega

/-- **Bytes of an id.** What is read from an encoded part of an id has no more bytes than the
part; with all the bytes of the id, the part is the whole of it and has no percent sign. -/
theorem eq_scalars_of_decode {nodeId : JSString} {part : List ℕ}
    (hpart : List.Sublist part (scalars nodeId))
    (h : decodeURIComponent (percentEncode specialQuerySet part) = .ok nodeId) :
    part = scalars nodeId ∧ 37 ∉ part ∧ WellFormed nodeId := by
  obtain ⟨hwell, hread⟩ := length_of_decodeRounds
    (percentEncode_ascii specialQuerySet_encodes part) (decodeURIComponent_eq_ok_iff.mp h)
  have hwritten := length_percentEncode specialQuerySet_encodes part
  have hbytes := length_flatMap_utf8Bytes hpart
  rw [textEncode] at hread
  refine ⟨hpart.eq_of_length (le_antisymm hpart.length_le (by omega)), ?_, hwell⟩
  rw [← List.count_eq_zero]
  have hle := hpart.length_le
  omega

theorem keptId_sublist (nodeId : JSString) : List.Sublist (keptId nodeId) (scalars nodeId) :=
  (List.takeWhile_sublist _).trans (List.filter_sublist.trans
    (List.rdropWhile_prefix _ _).sublist)

theorem facts_of_keptId_eq {nodeId : JSString} (h : keptId nodeId = scalars nodeId) :
    (∀ c ∈ scalars nodeId, c ≠ 0x23 ∧ isTabOrNewline c = false) ∧
      ∀ c, (scalars nodeId).getLast? = some c → 0x20 < c := by
  have htake : List.Sublist (keptId nodeId)
      (((scalars nodeId).rdropWhile isBlank).filter (! isTabOrNewline ·)) :=
    List.takeWhile_sublist _
  have hlast : (scalars nodeId).rdropWhile isBlank = scalars nodeId := by
    refine ((List.rdropWhile_prefix _ _).sublist).antisymm ?_
    rw [h] at htake
    exact htake.trans List.filter_sublist
  constructor
  · intro c hc
    rw [← h] at hc
    have hhash := List.mem_takeWhile_imp hc
    have hkept := (List.mem_filter.mp (htake.subset hc)).2
    exact ⟨by simpa using hhash, by simpa using hkept⟩
  · intro c hc
    have hne : scalars nodeId ≠ [] := by
      intro hnil
      rw [hnil] at hc
      cases hc
    rw [List.getLast?_eq_some_getLast hne] at hc
    cases hc
    have hblank := List.rdropWhile_eq_self_iff.mp hlast hne
    simp only [isBlank, decide_eq_true_eq] at hblank
    omega

theorem plainId_of_extractPeerId {nodeId : JSString}
    (h : extractPeerId (js "?nodeId=" ++ percentEncode specialQuerySet (keptId nodeId)) =
      .ok (some nodeId)) : PlainId nodeId := by
  unfold extractPeerId at h
  split at h
  next group hgroup =>
    obtain ⟨hne, x, y, hcut, rfl⟩ := matchNodeId_eq_some hgroup
    have hdecode := map_some_eq_ok_iff.mp h
    have hencode : percentEncode specialQuerySet
        ((js "?nodeId").map UInt16.toNat ++ 61 :: keptId nodeId) = x ++ 61 :: y := by
      rw [← hcut, percentEncode_append, percentEncode_cons]
      rfl
    obtain ⟨a, c, b, hcs, -, hunit, hout, rfl⟩ :=
      percentEncode_eq_append_cons ⟨by decide, by decide⟩ hencode
    obtain rfl : c = 61 :=
      ((ofNat_inj_ascii (by decide) (specialQuerySet_encodes.ascii hout)).mp hunit).symm
    have hpart : List.Sublist (b.takeWhile (· ≠ 38)) (keptId nodeId) :=
      (List.takeWhile_sublist _).trans (sublist_of_append_cons (by decide) hcs)
    rw [takeWhile_ampersand] at hdecode hne
    obtain ⟨hwhole, hpercent, hwell⟩ :=
      eq_scalars_of_decode (hpart.trans (keptId_sublist nodeId)) hdecode
    obtain ⟨hfacts, hlast⟩ := facts_of_keptId_eq ((keptId_sublist nodeId).antisymm (hwhole ▸ hpart))
    refine ⟨?_, hwell, ?_, hlast⟩
    · rintro rfl
      rw [hwhole] at hne
      exact hne rfl
    · intro c hc
      obtain ⟨hhash, htab⟩ := hfacts c hc
      rw [← hwhole] at hc
      have hampersand := List.mem_takeWhile_imp hc
      have hne : c ≠ 0x25 := by
        rintro rfl
        exact hpercent hc
      simp only [isTabOrNewline, List.contains_eq_mem, decide_eq_false_iff_not, List.mem_cons,
        List.not_mem_nil, or_false, decide_eq_true_eq] at htab hampersand ⊢
      tauto
  · cases h

/-- The server reads the id, when the url has none of its own. -/
theorem extractPeerId_appended_iff (nodeId : JSString) :
    extractPeerId (js "?nodeId=" ++ percentEncode specialQuerySet (keptId nodeId)) =
      .ok (some nodeId) ↔ PlainId nodeId :=
  ⟨plainId_of_extractPeerId, PlainId.extractPeerId_eq⟩

/-- **Peer identity.** The server reads the node id of the connecting transport exactly when
the url has no node id of its own and the one of the transport is plain, or the one of the url,
with what is appended to it, is read as that id. -/
theorem peer_identity_iff (config : TransportConfig) (url : WsUrl) :
    extractPeerId (requestTarget (connectAddress config url.text)) = .ok (some config.nodeId) ↔
      Identifies url config.nodeId := by
  rw [requestTarget_connectAddress, extractPeerId, matchNodeId_own, Identifies]
  cases hown : ownValue url.ownTarget with
  | none => exact extractPeerId_appended_iff config.nodeId
  | some value =>
    dsimp only
    rw [List.append_assoc]
    exact map_some_eq_ok_iff

def bobUrl : WsUrl where
  scheme := js "ws"
  authority := js "bob"
  path := []
  query := none
  scheme_ws := Or.inl (by decide)
  authority_ne_nil := by decide
  authority_valid := by decide
  path_slash := Or.inl rfl
  path_valid := by decide
  query_valid := nofun

/-- What stands behind an ampersand in the id is lost. -/
theorem ampersand_cuts_id :
    extractPeerId (requestTarget (connectAddress (defaultConfig (js "al&ice")) bobUrl.text)) =
        .ok (some (js "al")) ∧
      js "al" ≠ (defaultConfig (js "al&ice")).nodeId := by
  constructor <;> decide

end BioFire.Transport
