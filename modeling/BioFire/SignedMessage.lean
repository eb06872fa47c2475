import BioFire.BigIntText
import BioFire.InputSanitization
import BioFire.Signing
import BioFire.Separators

/-!
# The signed message (`src/lib/protocol/mpc_cmp.ts`)

`executeThresholdSigning` joins the fields of a request with colons. The symbol may have colons
of its own; the validators keep them out of the other fields.

* `colon_not_mem_amount`, `colon_not_mem_address`, `colon_not_mem_chainId`: what the validators let
  through, white space included, has no colon;
* `signingMessage_inj`: the message determines the request.
-/

namespace BioFire.Mpc

open Separators

theorem mem_trim {s : JSString} {c : UInt16} (h : c ∈ s) (hc : isWhitespace c = false) :
    c ∈ trim s := by
  have hdrop : ∀ {l : JSString}, c ∈ l → c ∈ l.dropWhile isWhitespace := by
    intro l hl
    rw [← List.takeWhile_append_dropWhile (p := isWhitespace) (l := l), List.mem_append] at hl
    rcases hl with hspace | hrest
    · rw [List.mem_takeWhile_imp hspace] at hc
      cases hc
    · exact hrest
  rw [trim, List.rdropWhile, List.mem_reverse]
  exact hdrop (List.mem_reverse.mpr (hdrop h))

theorem not_mem_of_trim {s : JSString} (h : 58 ∉ trim s) : 58 ∉ s :=
  fun hmem => h (mem_trim hmem (by decide))

/-! ## Amounts -/

theorem colon_not_mem_digits {s : JSString} (h : s.all isDigit = true) : 58 ∉ s := by
  intro hmem
  cases List.all_eq_true.mp h 58 hmem

theorem colon_not_mem_decimalParts {s : JSString} {parts : JSString × JSString}
    (h : decimalParts s = some parts) : 58 ∉ s := by
  have hwhole : 58 ∉ s.takeWhile isDigit := by
    intro hmem
    cases List.mem_takeWhile_imp hmem
  rw [← List.takeWhile_append_dropWhile (p := isDigit) (l := s), List.mem_append, not_or]
  refine ⟨hwhole, ?_⟩
  rw [decimalParts] at h
  split at h
  · cases h
  · split at h
    next hnil =>
      rw [hnil]
      exact List.not_mem_nil
    next fraction hrest =>
      split at h
      next hfraction =>
        rw [hrest, List.mem_cons, not_or]
        exact ⟨by decide, colon_not_mem_digits hfraction.2⟩
      · cases h
    · cases h

theorem colon_not_mem_amount {amount : JSString}
    (h : (validateAmount (.string amount)).valid = true) : 58 ∉ amount := by
  refine not_mem_of_trim ?_
  rw [validateAmount] at h
  split at h
  · cases h
  · split at h
    · cases h
    next hparts => exact colon_not_mem_decimalParts hparts

/-! ## Addresses -/

theorem colon_not_mem_matchesClass {charClass : UInt16 → Bool} {low high n : ℕ} {s : JSString}
    (hclass : charClass 58 = false) (hstart : 58 ∉ s.take n)
    (h : matchesClass charClass low high (s.drop n) = true) : 58 ∉ s := by
  rw [← List.take_append_drop n s, List.mem_append, not_or]
  refine ⟨hstart, fun hmem => ?_⟩
  simp only [matchesClass, Bool.and_eq_true, List.all_eq_true] at h
  rw [h.2 58 hmem] at hclass
  cases hclass

theorem colon_not_mem_take {start s : JSString} (hstart : 58 ∉ start)
    (h : start.isPrefixOf s = true) : 58 ∉ s.take start.length := by
  rwa [List.prefix_iff_eq_take.mp (List.isPrefixOf_iff_prefix.mp h)] at hstart

theorem colon_not_mem_address {platform : Platform} {address : JSString}
    (h : validateAddress platform (.string address) = .ok true) : 58 ∉ address := by
  refine not_mem_of_trim ?_
  rw [validateAddress] at h
  split at h
  · cases h
  · split at h
    · cases h
    · split at h
      next hevm =>
        rw [isEvmAddress, Bool.and_eq_true] at hevm
        exact colon_not_mem_matchesClass (by decide) (colon_not_mem_take (by decide) hevm.1) hevm.2
      · simp only [Except.ok.injEq, Bool.or_eq_true] at h
        rcases h with ((hbech | hlegacy) | hsolana) | hpolkadot
        · rw [isBech32Address, Bool.and_eq_true, Bool.or_eq_true] at hbech
          refine colon_not_mem_matchesClass (by decide) ?_ hbech.2
          rcases hbech.1 with hstart | hstart
          · exact colon_not_mem_take (by decide) hstart
          · exact colon_not_mem_take (by decide) hstart
        · rw [isLegacyAddress, Bool.and_eq_true, Bool.or_eq_true, Bool.or_eq_true] at hlegacy
          refine colon_not_mem_matchesClass (by decide) ?_ hlegacy.2
          rcases hlegacy.1 with (hstart | hstart) | hstart
          · exact colon_not_mem_take (by decide) hstart
          · exact colon_not_mem_take (by decide) hstart
          · exact colon_not_mem_take (by decide) hstart
        · exact colon_not_mem_matchesClass (n := 0) (by decide) List.not_mem_nil hsolana
        · exact colon_not_mem_matchesClass (n := 0) (by decide) List.not_mem_nil hpolkadot

/-! ## The message -/

/-- The three validators of the signing endpoint pass. -/
structure Validated (platform : Platform) (chainId amount toAddress : JSString) : Prop where
  chainId : validateChainId platform (.string chainId) = .ok true
  amount : (validateAmount (.string amount)).valid = true
  toAddress : validateAddress platform (.string toAddress) = .ok true

theorem colon_not_mem_chainId {platform : Platform}
    (hcolon : ∀ s, 58 ∈ s → 58 ∈ platform.toLowerCase s) {chainId : JSString}
    (h : validateChainId platform (.string chainId) = .ok true) : 58 ∉ chainId := by
  intro hmem
  have hchain := Except.ok.inj h
  rw [List.contains_iff_mem] at hchain
  have hnone : ∀ chain ∈ validChains, 58 ∉ chain := by decide
  exact hnone _ hchain (hcolon _ hmem)

theorem colon_not_mem_bigintString (n : ℤ) : 58 ∉ bigintString n :=
  not_mem_bigintString (by decide) (by decide) n

/-- **The signed message determines the request.** -/
theorem signingMessage_inj (platform : Platform)
    (hcolon : ∀ s, 58 ∈ s → 58 ∈ platform.toLowerCase s)
    {chainId amount symbol toAddress chainId' amount' symbol' toAddress' : JSString} {now now' : ℤ}
    (h : Validated platform chainId amount toAddress)
    (h' : Validated platform chainId' amount' toAddress')
    (heq : signingMessage chainId amount symbol toAddress now =
      signingMessage chainId' amount' symbol' toAddress' now') :
    chainId = chainId' ∧ amount = amount' ∧ symbol = symbol' ∧ toAddress = toAddress' ∧
      now = now' := by
  simp only [signingMessage, append_colon] at heq
  obtain ⟨heq, htime⟩ := append_cons_inj_last (colon_not_mem_bigintString now)
    (colon_not_mem_bigintString now') heq
  obtain ⟨heq, haddress⟩ := append_cons_inj_last (colon_not_mem_address h.toAddress)
    (colon_not_mem_address h'.toAddress) heq
  simp only [List.append_assoc, List.cons_append] at heq
  obtain ⟨hchain, heq⟩ := append_cons_inj (colon_not_mem_chainId hcolon h.chainId)
    (colon_not_mem_chainId hcolon h'.chainId) heq
  obtain ⟨hamount, hsymbol⟩ := append_cons_inj (colon_not_mem_amount h.amount)
    (colon_not_mem_amount h'.amount) heq
  exact ⟨hchain, hamount, hsymbol, haddress, bigintString_injective htime⟩

/-- The address of a payment to a public key hash. -/
def legacyAddress : JSString := js "1A1zP1eP5QGefi2DMPTfTL5SLmv7DivfNa"

theorem asciiPlatform_colon (s : JSString) (h : 58 ∈ s) : 58 ∈ asciiPlatform.toLowerCase s :=
  List.mem_map.mpr ⟨58, h, rfl⟩

theorem validated_bitcoin :
    Validated asciiPlatform (js "Bitcoin") (js " 0.5") (legacyAddress ++ js "\n") where
  chainId := by decide
  amount := by decide
  toAddress := by decide

/-- A request in capitals and with white space, whose symbol has a colon. -/
theorem signingMessage_inj_bitcoin :
    js "Bitcoin" = js "Bitcoin" ∧ js " 0.5" = js " 0.5" ∧ js "BTC:1" = js "BTC:1" ∧
      legacyAddress ++ js "\n" = legacyAddress ++ js "\n" ∧ (1767225600000 : ℤ) = 1767225600000 :=
  signingMessage_inj asciiPlatform asciiPlatform_colon validated_bitcoin validated_bitcoin rfl

end BioFire.Mpc
