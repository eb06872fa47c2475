import BioFire.LicenseKernel

/-!
# License expiry

The times of a license are compared once, in `initializeLicense`. With a clock that
only advances, the start of the window stays behind; the end does not stay ahead.

* `started_run`: every license in use was valid at the time of an earlier event;
* `inTime_iff`: such a license is used in time as long as it has not expired;
* `expiry_enforced_iff`: calls are served in time exactly when no entitled call comes
  after the expiry.
-/

namespace BioFire.Licensing

open Runs

variable {oracles : LicenseOracles}

/-- The time is inside the validity window or the grace period. -/
def InTime (terms : LicenseTerms) (now : ℤ) : Prop :=
  terms.validityWindow.notBefore.le (.ofInt now) = true ∧
    ((JSNumber.ofInt now).le terms.validityWindow.notAfter = true ∨
      (JSNumber.ofInt now).lt (graceEnd terms) = true)

/-- The time is after the window and the grace period. -/
def Expired (terms : LicenseTerms) (now : ℤ) : Prop :=
  terms.validityWindow.notAfter.lt (.ofInt now) = true ∧
    (JSNumber.ofInt now).lt (graceEnd terms) = false

/-- The call returns `true` or records its transaction. -/
def Serves (kernel : KernelState) : KernelEvent → Prop
  | .checkFeature feature _ => checkFeature kernel feature = true
  | .recordTransaction volumeUSD _ => (recordTransaction kernel volumeUSD).2 = .ok ()
  | _ => False

/-- The license has the feature of the call, or quota left for its transaction. -/
def Entitled (license : LicenseState) : KernelEvent → Prop
  | .checkFeature feature _ => hasFeature license.blob feature = true
  | .recordTransaction volumeUSD _ => quotaFree license volumeUSD = true
  | _ => False

/-- A call is served inside the window or the grace period only. -/
def ServedInTime (kernel : KernelState) (event : KernelEvent) : Prop :=
  Serves kernel event → ∀ license ∈ kernel.state, InTime license.blob.toLicenseTerms event.now

/-- No call that the license entitles to comes after the expiry. -/
def NotAfterExpiry (kernel : KernelState) (event : KernelEvent) : Prop :=
  ∀ license ∈ kernel.state, Entitled license event →
    ¬ Expired license.blob.toLicenseTerms event.now

/-- The clock advances. -/
def ClockAdvances (events : List KernelEvent) : Prop :=
  events.Pairwise fun e e' => e.now ≤ e'.now

/-- **What is served** is what the license entitles to, at whatever time. -/
theorem serves_iff {kernel : KernelState} {event : KernelEvent} :
    Serves kernel event ↔ ∃ license ∈ kernel.state, Entitled license event := by
  cases event with
  | initializeLicense blob now => exact ⟨False.elim, fun ⟨_, _, h⟩ => h⟩
  | finishInitialization k hardware now => exact ⟨False.elim, fun ⟨_, _, h⟩ => h⟩
  | recordCeremony type now => exact ⟨False.elim, fun ⟨_, _, h⟩ => h⟩
  | checkFeature feature now =>
    rw [Serves, checkFeature]
    cases kernel.state with
    | none => exact ⟨fun h => absurd h Bool.false_ne_true, fun ⟨_, hmem, _⟩ => by cases hmem⟩
    | some license =>
      constructor
      · intro h
        exact ⟨license, rfl, h⟩
      · rintro ⟨license', ⟨rfl⟩, h⟩
        exact h
  | recordTransaction volumeUSD now =>
    rw [Serves]
    rcases recordTransaction_cases kernel volumeUSD with
      ⟨⟨e, herror⟩, hstopped⟩ | ⟨license, hstate, hfree, hrecord⟩
    · rw [herror]
      constructor
      · intro h
        cases h
      · rintro ⟨license, hmem, hfree⟩
        rw [Entitled, hstopped license hmem] at hfree
        cases hfree
    · rw [hrecord]
      exact iff_of_true rfl ⟨license, hstate, hfree⟩

/-! ## Licenses in use -/

/-- Every license of the kernel was valid at the time of an earlier event. -/
def Started (oracles : LicenseOracles) (past : List KernelEvent) (kernel : KernelState) : Prop :=
  ∀ blob, ((∃ license ∈ kernel.state, license.blob = blob) ∨
      ∃ init, some init ∈ kernel.pending ∧ init.blob = blob) →
    ∃ event ∈ past, (verifyLicenseBlob oracles blob (.ofInt event.now)).valid = true

theorem Started.concat {past : List KernelEvent} {kernel : KernelState}
    (h : Started oracles past kernel) (event : KernelEvent) :
    Started oracles (past ++ [event]) kernel := by
  intro blob hblob
  obtain ⟨e, he, hvalid⟩ := h blob hblob
  exact ⟨e, List.mem_append_left _ he, hvalid⟩

/-- **Step.** A license comes into use through the check of `initializeLicense`. -/
theorem started_step {past : List KernelEvent} {kernel : KernelState}
    (h : Started oracles past kernel) (event : KernelEvent) :
    Started oracles (past ++ [event]) (step oracles kernel event) := by
  cases event with
  | initializeLicense blob now =>
    rcases initializeLicense_cases oracles kernel blob now with hsame | ⟨hvalid, hnew⟩
    · rw [step, hsame]
      exact h.concat _
    · rw [step, hnew]
      rintro blob' (hlicense | ⟨init, hinit, rfl⟩)
      · exact h.concat _ blob' (Or.inl hlicense)
      · rcases List.mem_append.mp hinit with hmem | hlast
        · exact h.concat _ init.blob (Or.inr ⟨init, hmem, rfl⟩)
        · obtain rfl := Option.some.inj (List.mem_singleton.mp hlast)
          exact ⟨_, List.mem_append_right _ (List.mem_singleton_self _), hvalid⟩
  | finishInitialization k hardware now =>
    have hset : ∀ init, some init ∈ kernel.pending.set k none → some init ∈ kernel.pending := by
      intro init hinit
      rcases List.mem_or_eq_of_mem_set hinit with hmem | heq
      · exact hmem
      · cases heq
    rcases finishInitialization_cases kernel k hardware now with
      hsame | hwaiting | ⟨init, check, hinit, -, -, hnew⟩
    · rw [step, hsame]
      exact h.concat _
    · rw [step, hwaiting]
      rintro blob (hlicense | ⟨init, hinit, rfl⟩)
      · exact h.concat _ blob (Or.inl hlicense)
      · exact h.concat _ init.blob (Or.inr ⟨init, hset init hinit, rfl⟩)
    · rw [step, hnew]
      rintro blob (⟨license, ⟨rfl⟩, rfl⟩ | ⟨init', hinit', rfl⟩)
      · exact h.concat _ init.blob (Or.inr ⟨init, List.mem_of_getElem? hinit, rfl⟩)
      · exact h.concat _ init'.blob (Or.inr ⟨init', hset init' hinit', rfl⟩)
  | checkFeature feature now => exact h.concat _
  | recordTransaction volumeUSD now =>
    rcases recordTransaction_cases kernel volumeUSD with
      ⟨⟨e, herror⟩, -⟩ | ⟨license, hstate, -, hrecord⟩
    · rw [step, herror]
      exact h.concat _
    · rw [step, hrecord]
      rintro blob (⟨license', ⟨rfl⟩, rfl⟩ | hinit)
      · exact h.concat _ license.blob (Or.inl ⟨license, hstate, rfl⟩)
      · exact h.concat _ blob (Or.inr hinit)
  | recordCeremony type now =>
    rintro blob (⟨license', hlicense, rfl⟩ | hinit)
    · obtain ⟨license, hstate, rfl⟩ := Option.map_eq_some_iff.mp hlicense
      exact h.concat _ license.blob (Or.inl ⟨license, hstate, rfl⟩)
    · exact h.concat _ blob (Or.inr hinit)

/-- **Run.** Every license in use was valid at the time of an earlier event. -/
theorem started_run (events : List KernelEvent) :
    Started oracles events (run (step oracles) newKernel events) := by
  induction events using List.reverseRecOn with
  | nil =>
    rintro blob (⟨license, hlicense, -⟩ | ⟨init, hinit, -⟩)
    · cases hlicense
    · cases hinit
  | append_singleton events event ih =>
    rw [run_concat]
    exact started_step ih event

/-! ## Expiry -/

/-- After a time at which it was valid, a license is in time until it expires. -/
theorem inTime_iff {blob : LicenseBlob} {start now : ℤ}
    (hvalid : (verifyLicenseBlob oracles blob (.ofInt start)).valid = true) (hle : start ≤ now) :
    InTime blob.toLicenseTerms now ↔ ¬ Expired blob.toLicenseTerms now := by
  obtain ⟨⟨bytes, hbytes⟩, hwindow⟩ := checks_of_valid hvalid
  have hnumbers := finite_of_serialized hbytes
  obtain ⟨first, hfirst, -⟩ := hnumbers blob.validityWindow.notBefore (by simp [LicenseTerms.numbers])
  obtain ⟨last, hlast, -⟩ := hnumbers blob.validityWindow.notAfter (by simp [LicenseTerms.numbers])
  have hfirst_le : first ≤ start := by
    rw [checkWindow, hfirst, JSNumber.ofInt, JSNumber.lt_finite] at hwindow
    by_contra hlt
    rw [if_pos (decide_eq_true (not_le.mp hlt))] at hwindow
    cases hwindow
  have hbegun : blob.validityWindow.notBefore.le (.ofInt now) = true := by
    rw [hfirst, JSNumber.ofInt, JSNumber.le_finite, decide_eq_true_eq]
    exact hfirst_le.trans (by exact_mod_cast hle)
  have hend : (JSNumber.ofInt now).le blob.validityWindow.notAfter = true ↔
      ¬ blob.validityWindow.notAfter.lt (.ofInt now) = true := by
    rw [hlast, JSNumber.ofInt, JSNumber.le_finite, JSNumber.lt_finite, decide_eq_true_eq,
      decide_eq_true_eq, not_lt]
  rw [InTime, Expired, hend, not_and, Bool.not_eq_false]
  constructor
  · rintro ⟨-, hopen | hgrace⟩
    · intro hafter
      exact absurd hafter hopen
    · exact fun _ => hgrace
  · intro h
    refine ⟨hbegun, ?_⟩
    by_cases hafter : blob.validityWindow.notAfter.lt (.ofInt now) = true
    · exact Or.inr (h hafter)
    · exact Or.inl hafter

/-- **Expiry at use.** Over a run, the calls are served in time exactly when no entitled
call comes after the expiry. -/
theorem expiry_enforced_iff {events : List KernelEvent} (hclock : ClockAdvances events) :
    Always (step oracles) newKernel events ServedInTime ↔
      Always (step oracles) newKernel events NotAfterExpiry := by
  have hpoint : ∀ past event rest, events = past ++ event :: rest →
      (ServedInTime (run (step oracles) newKernel past) event ↔
        NotAfterExpiry (run (step oracles) newKernel past) event) := by
    rintro past event rest rfl
    have hinTime : ∀ license ∈ (run (step oracles) newKernel past).state,
        (InTime license.blob.toLicenseTerms event.now ↔
          ¬ Expired license.blob.toLicenseTerms event.now) := by
      intro license hlicense
      obtain ⟨earlier, hearlier, hvalid⟩ :=
        started_run past license.blob (Or.inl ⟨license, hlicense, rfl⟩)
      have hle := (List.pairwise_append.mp hclock).2.2 earlier hearlier event List.mem_cons_self
      exact inTime_iff hvalid hle
    constructor
    · intro hserved license hlicense hentitled
      exact (hinTime license hlicense).mp
        (hserved (serves_iff.mpr ⟨license, hlicense, hentitled⟩) license hlicense)
    · intro hexpiry hserves license hlicense
      obtain ⟨license', hlicense', hentitled⟩ := serves_iff.mp hserves
      obtain rfl := Option.some.inj (hlicense'.symm.trans hlicense)
      exact (hinTime license' hlicense).mpr (hexpiry license' hlicense hentitled)
  constructor
  · intro h past event rest hcut
    exact (hpoint past event rest hcut).mp (h past event rest hcut)
  · intro h past event rest hcut
    exact (hpoint past event rest hcut).mpr (h past event rest hcut)

theorem expiry_enforced_iff_two :
    Always (step sampleOracles) newKernel twoTransactions ServedInTime ↔
      Always (step sampleOracles) newKernel twoTransactions NotAfterExpiry :=
  expiry_enforced_iff (by simp [ClockAdvances, twoTransactions, KernelEvent.now])

/-- The sample license ends with the milliseconds of 32 bits; this run uses it later
than its grace period of 72 hours. -/
def lateUse : List KernelEvent :=
  [.initializeLicense sampleBlob 1000, .finishInitialization 0 (some ⟨true, none⟩) 1001,
    .checkFeature (js "mpc") 5000000000, .recordTransaction (.finite 1) 5000000001]

/-- The kernel serves calls after the expiry. -/
theorem served_after_expiry :
    ClockAdvances lateUse ∧
      checkFeature (run (step sampleOracles) newKernel (lateUse.take 2)) (js "mpc") = true ∧
      (recordTransaction (run (step sampleOracles) newKernel (lateUse.take 3)) (.finite 1)).2 =
        .ok () ∧
      Expired sampleTerms 5000000000 ∧
      ¬ Always (step sampleOracles) newKernel lateUse ServedInTime := by
  obtain ⟨hfeature, hblob, haccepted⟩ :
      checkFeature (run (step sampleOracles) newKernel (lateUse.take 2)) (js "mpc") = true ∧
      (run (step sampleOracles) newKernel (lateUse.take 2)).state.map LicenseState.blob =
        some sampleBlob ∧
      (recordTransaction (run (step sampleOracles) newKernel (lateUse.take 3)) (.finite 1)).2 =
        .ok () := by decide +kernel
  refine ⟨by simp [ClockAdvances, lateUse, KernelEvent.now], hfeature, haccepted,
    ⟨by with_unfolding_all decide, by with_unfolding_all decide⟩, ?_⟩
  intro h
  obtain ⟨license, hlicense, hsame⟩ := Option.map_eq_some_iff.mp hblob
  obtain ⟨-, hlast⟩ := h (lateUse.take 2) (.checkFeature (js "mpc") 5000000000)
    [.recordTransaction (.finite 1) 5000000001] rfl hfeature license hlicense
  rw [hsame] at hlast
  revert hlast
  with_unfolding_all decide

end BioFire.Licensing
