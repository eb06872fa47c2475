import BioFire.SerializerFuzzer
import Mathlib.Tactic.FinCases

/-!
# The fuzzer of protocol states (`src/lib/chaos/state_machine_fuzzer.ts`)

`StateMachineFuzzer` walks at random over a table of transitions.

* `guard_passes`: in the states that a walk can be in, no guard ever rejects;
* `state_campaign`: what the reports of its campaigns have in common.
-/

namespace BioFire.StateFuzzing

/-! ## The code -/

inductive MPCState where
  | IDLE
  | DKG_COMMIT
  | DKG_SHARE
  | DKG_COMPLETE
  | SIGN_COMMIT
  | SIGN_MTA
  | SIGN_PARTIAL
  | SIGN_COMPLETE
  | REFRESH
  | ABORTED
  deriving DecidableEq

inductive MPCAction where
  | START_DKG
  | COMMIT_RECEIVED
  | SHARE_RECEIVED
  | DKG_DONE
  | START_SIGN
  | NONCE_COMMIT
  | MTA_COMPLETE
  | SIGN_DONE
  | START_REFRESH
  | REFRESH_DONE
  | ABORT
  | RECOVER
  deriving DecidableEq

structure StateContext where
  dkgComplete : Bool
  signInProgress : Bool
  refreshInProgress : Bool
  currentEpoch : ℕ
  activeSigners : ℕ
  threshold : ℕ

structure Transition where
  source : MPCState
  action : MPCAction
  target : MPCState
  guard : Option (StateContext → Bool)

def transitions : List Transition :=
  [⟨.IDLE, .START_DKG, .DKG_COMMIT, none⟩,
    ⟨.DKG_COMMIT, .COMMIT_RECEIVED, .DKG_SHARE, none⟩,
    ⟨.DKG_SHARE, .SHARE_RECEIVED, .DKG_COMPLETE, none⟩,
    ⟨.DKG_COMPLETE, .START_SIGN, .SIGN_COMMIT, none⟩,
    ⟨.SIGN_COMMIT, .NONCE_COMMIT, .SIGN_MTA, none⟩,
    ⟨.SIGN_MTA, .MTA_COMPLETE, .SIGN_PARTIAL, none⟩,
    ⟨.SIGN_PARTIAL, .SIGN_DONE, .SIGN_COMPLETE, none⟩,
    ⟨.DKG_COMPLETE, .START_REFRESH, .REFRESH, none⟩,
    ⟨.REFRESH, .REFRESH_DONE, .DKG_COMPLETE, none⟩,
    ⟨.SIGN_COMMIT, .ABORT, .ABORTED, none⟩,
    ⟨.ABORTED, .RECOVER, .IDLE, none⟩,
    ⟨.IDLE, .START_SIGN, .IDLE, some fun ctx => !ctx.dkgComplete⟩,
    ⟨.DKG_COMMIT, .START_SIGN, .DKG_COMMIT, some fun ctx => !ctx.dkgComplete⟩,
    ⟨.SIGN_COMMIT, .START_DKG, .SIGN_COMMIT, some fun ctx => ctx.signInProgress⟩,
    ⟨.REFRESH, .START_REFRESH, .REFRESH, some fun ctx => ctx.refreshInProgress⟩,
    ⟨.SIGN_PARTIAL, .START_REFRESH, .SIGN_PARTIAL, some fun ctx => ctx.signInProgress⟩]

/-- `!t.guard || t.guard(ctx)` -/
def Transition.allows (t : Transition) (ctx : StateContext) : Bool := t.guard.all (· ctx)

structure StateFuzzReport where
  totalTransitions : ℕ
  invalidTransitions : ℕ
  deadlocks : ℕ
  livelocks : ℕ
  /-- The keys, each a state and an action. -/
  uncoveredTransitions : List (MPCState × MPCAction)
  crashes : ℕ

def getAllPossibleTransitions : List (MPCState × MPCAction) :=
  [MPCState.IDLE, .DKG_COMMIT, .DKG_SHARE, .DKG_COMPLETE, .SIGN_COMMIT, .SIGN_MTA, .SIGN_PARTIAL,
    .SIGN_COMPLETE, .REFRESH, .ABORTED].flatMap fun s =>
    [.START_DKG, .START_SIGN, .START_REFRESH, .ABORT, .RECOVER].map fun a => (s, a)

/-- The two calls of `Math.random()` of a step. -/
structure StepDraw where
  choice : Chaos.Random
  index : Chaos.Random

/-- The variables of `runRandomSequence`, and the report. -/
structure Walk where
  state : MPCState
  context : StateContext
  sequence : List (MPCState × MPCAction)
  report : StateFuzzReport

/-- What a step ends with. -/
inductive Step where
  | continues (walk : Walk)
  | breaks (walk : Walk)

def getValidActions (table : List Transition) (state : MPCState) (context : StateContext) :
    List MPCAction :=
  (table.filter fun t => t.source = state ∧ t.allows context).map Transition.action

theorem floor_lt (random : Chaos.Random) {n : ℕ} (h : 0 < n) : ⌊random.1 * n⌋₊ < n := by
  have hn : (0 : ℚ) < n := by exact_mod_cast h
  rw [Nat.floor_lt (mul_nonneg random.2.1 hn.le)]
  exact mul_lt_of_lt_one_left hn random.2.2

/-- `actions[Math.floor(Math.random() * actions.length)]`. The product is exact here; in
double precision a draw just below a multiple of `1 / actions.length` may give the next
index. -/
def pick (actions : List MPCAction) (h : actions ≠ []) (random : Chaos.Random) : MPCAction :=
  actions.get ⟨⌊random.1 * actions.length⌋₊, floor_lt random (List.length_pos_iff.mpr h)⟩

def getRandomAction (random : Chaos.Random) : MPCAction :=
  pick [.START_DKG, .COMMIT_RECEIVED, .SHARE_RECEIVED, .DKG_DONE, .START_SIGN, .NONCE_COMMIT,
    .MTA_COMPLETE, .SIGN_DONE, .START_REFRESH, .REFRESH_DONE, .ABORT, .RECOVER]
    (List.cons_ne_nil _ _) random

def updateContext (ctx : StateContext) : MPCAction → StateContext
  | .DKG_DONE => { ctx with dkgComplete := true }
  | .START_SIGN => { ctx with signInProgress := true }
  | .SIGN_DONE => { ctx with signInProgress := false }
  | .START_REFRESH => { ctx with refreshInProgress := true }
  | .REFRESH_DONE => { ctx with refreshInProgress := false, currentEpoch := ctx.currentEpoch + 1 }
  | .ABORT => { ctx with signInProgress := false }
  | .RECOVER =>
    { ctx with dkgComplete := false, signInProgress := false, refreshInProgress := false }
  | _ => ctx

/-- More than twenty transitions, of which the last ten are one. -/
def isLooping (sequence : List (MPCState × MPCAction)) : Bool :=
  let recent := sequence.drop (sequence.length - 10)
  20 < sequence.length && recent.all fun s => recent.head? = some s

/-- The part of a step behind the choice of the action. -/
def attempt (table : List Transition) (walk : Walk) (action : MPCAction) : Step :=
  let key := (walk.state, action)
  let report := { walk.report with
    uncoveredTransitions := walk.report.uncoveredTransitions.filter (· ≠ key)
    totalTransitions := walk.report.totalTransitions + 1 }
  let rejected := { report with invalidTransitions := report.invalidTransitions + 1 }
  match table.find? fun t => t.source = walk.state ∧ t.action = action with
  | none => .continues { walk with report := rejected }
  | some transition =>
    if transition.allows walk.context then
      let state := transition.target
      let sequence := walk.sequence ++ [(state, action)]
      let context := updateContext walk.context action
      if isLooping sequence then
        .breaks ⟨state, context, sequence, { report with livelocks := report.livelocks + 1 }⟩
      else .continues ⟨state, context, sequence, report⟩
    else .continues { walk with report := rejected }

/-- One step of the loop of `runRandomSequence`. -/
def sequenceStep (table : List Transition) (walk : Walk) (draw : StepDraw) : Step :=
  if h : getValidActions table walk.state walk.context = [] then
    .breaks { walk with report := { walk.report with deadlocks := walk.report.deadlocks + 1 } }
  else
    attempt table walk <|
      if draw.choice.1 < 9 / 10 then pick _ h draw.index else getRandomAction draw.index

def runSteps (table : List Transition) : List StepDraw → Walk → Walk
  | [], walk => walk
  | draw :: draws, walk =>
    match sequenceStep table walk draw with
    | .breaks walk => walk
    | .continues walk => runSteps table draws walk

theorem runSteps_of_continues {table : List Transition} {walk walk' : Walk} {draw : StepDraw}
    (h : sequenceStep table walk draw = .continues walk') (draws : List StepDraw) :
    runSteps table (draw :: draws) walk = runSteps table draws walk' := by
  rw [runSteps, h]

theorem runSteps_of_breaks {table : List Transition} {walk walk' : Walk} {draw : StepDraw}
    (h : sequenceStep table walk draw = .breaks walk') (draws : List StepDraw) :
    runSteps table (draw :: draws) walk = walk' := by
  rw [runSteps, h]

def newWalk (report : StateFuzzReport) : Walk :=
  ⟨.IDLE, ⟨false, false, false, 1, 0, 2⟩, [], report⟩

def runRandomSequence (table : List Transition) (draws : ℕ → StepDraw) (report : StateFuzzReport) :
    StateFuzzReport :=
  (runSteps table ((List.range 100).map draws) (newWalk report)).report

/-- `runCampaign`, with the draws of each step of each sequence. -/
def runCampaign (table : List Transition) (draws : ℕ → ℕ → StepDraw) (iterations : ℕ) :
    StateFuzzReport :=
  (List.range iterations).foldl (fun report i => runRandomSequence table (draws i) report)
    ⟨0, 0, 0, 0, getAllPossibleTransitions, 0⟩

/-! ## Where a walk can be -/

/-- What the context and the sequence of a walk say in its state. -/
structure Tracked (walk : Walk) : Prop where
  dkg : walk.context.dkgComplete = false
  signing : walk.state ∈ [MPCState.SIGN_COMMIT, .SIGN_MTA, .SIGN_PARTIAL] →
    walk.context.signInProgress = true
  refreshing : walk.state = .REFRESH → walk.context.refreshInProgress = true
  last : ∀ s : MPCState × MPCAction, walk.sequence.getLast? = some s → s.1 = walk.state

theorem Tracked.new (report : StateFuzzReport) : Tracked (newWalk report) :=
  ⟨rfl, by simp [newWalk], by simp [newWalk], by simp [newWalk]⟩

/-- A walk with another report. -/
def Walk.withReport (walk : Walk) (report : StateFuzzReport) : Walk :=
  { walk with report := report }

theorem Tracked.withReport {walk : Walk} (h : Tracked walk) (report : StateFuzzReport) :
    Tracked (walk.withReport report) :=
  ⟨h.dkg, h.signing, h.refreshing, h.last⟩

/-- The walk after a transition of the table. -/
def Walk.after (walk : Walk) (t : Transition) (report : StateFuzzReport) : Walk :=
  ⟨t.target, updateContext walk.context t.action, walk.sequence ++ [(t.target, t.action)], report⟩

theorem Tracked.after {walk : Walk} (h : Tracked walk) {t : Transition} (ht : t ∈ transitions)
    (hsource : t.source = walk.state) (report : StateFuzzReport) :
    Tracked (walk.after t report) := by
  have hdkg := h.dkg
  have hsigning := h.signing
  have hrefreshing := h.refreshing
  rw [← hsource] at hsigning hrefreshing
  clear hsource
  refine ⟨?_, ?_, ?_, by simp [Walk.after]⟩
  · fin_cases ht <;> simp [Walk.after, updateContext, hdkg]
  · fin_cases ht <;> simp_all [Walk.after, updateContext]
  · fin_cases ht <;> simp_all [Walk.after, updateContext]

/-- **The guards.** In a state that has a guarded transition the guard holds. -/
theorem guard_passes {walk : Walk} (h : Tracked walk) {t : Transition} (ht : t ∈ transitions)
    (hsource : t.source = walk.state) : t.allows walk.context = true := by
  have hdkg := h.dkg
  have hsigning := h.signing
  have hrefreshing := h.refreshing
  rw [← hsource] at hsigning hrefreshing
  fin_cases ht <;> simp_all [Transition.allows]

theorem getValidActions_eq_nil_iff (state : MPCState) (context : StateContext) :
    getValidActions transitions state context = [] ↔ state = .SIGN_COMPLETE := by
  cases state <;> simp [getValidActions, transitions, Transition.allows]

/-- A transition that is taken ten times in a row leads back to its state. -/
theorem target_of_isLooping {walk : Walk} (h : Tracked walk) {s : MPCState × MPCAction}
    (hloop : isLooping (walk.sequence ++ [s]) = true) : s.1 = walk.state := by
  obtain ⟨hlong, hall⟩ : 20 < (walk.sequence ++ [s]).length ∧
      ∀ x ∈ (walk.sequence ++ [s]).drop ((walk.sequence ++ [s]).length - 10),
        ((walk.sequence ++ [s]).drop ((walk.sequence ++ [s]).length - 10)).head? = some x := by
    simpa [isLooping] using hloop
  rw [List.length_append, List.length_singleton] at hlong hall
  have hdrop : (walk.sequence ++ [s]).drop (walk.sequence.length + 1 - 10) =
      walk.sequence.drop (walk.sequence.length + 1 - 10) ++ [s] :=
    List.drop_append_of_le_length (by omega)
  rw [hdrop] at hall
  have hne : walk.sequence.drop (walk.sequence.length + 1 - 10) ≠ [] := by
    rw [Ne, List.drop_eq_nil_iff]
    omega
  have hlast := hall _ (List.mem_append_left _ (List.getLast_mem hne))
  rw [hall s (by simp)] at hlast
  apply h.last
  rw [Option.some.inj hlast, ← List.getLast?_eq_getLast_of_ne_nil hne, List.getLast?_drop,
    if_neg (by omega)]

/-- The report with an attempt of the action in it. -/
def tried (walk : Walk) (action : MPCAction) : StateFuzzReport :=
  { walk.report with
    uncoveredTransitions :=
      walk.report.uncoveredTransitions.filter (· ≠ (walk.state, action))
    totalTransitions := walk.report.totalTransitions + 1 }

theorem attempt_none {table : List Transition} {walk : Walk} {action : MPCAction}
    (h : table.find? (fun t => t.source = walk.state ∧ t.action = action) = none) :
    attempt table walk action = .continues (walk.withReport { tried walk action with
      invalidTransitions := walk.report.invalidTransitions + 1 }) := by
  rw [attempt, h]
  rfl

theorem attempt_some {table : List Transition} {walk : Walk} {action : MPCAction} {t : Transition}
    (h : table.find? (fun t => t.source = walk.state ∧ t.action = action) = some t) :
    attempt table walk action =
      if t.allows walk.context then
        if isLooping (walk.sequence ++ [(t.target, t.action)]) then
          .breaks (walk.after t { tried walk action with
            livelocks := walk.report.livelocks + 1 })
        else .continues (walk.after t (tried walk action))
      else .continues (walk.withReport { tried walk action with
        invalidTransitions := walk.report.invalidTransitions + 1 }) := by
  obtain ⟨-, rfl⟩ : t.source = walk.state ∧ t.action = action := by simpa using List.find?_some h
  rw [attempt, h]
  rfl

/-- **An attempt.** It is rejected without a transition of the table only, and otherwise the walk
goes on from the target, unless it is looping. -/
theorem attempt_cases {walk : Walk} (h : Tracked walk) (action : MPCAction) :
    attempt transitions walk action = .continues (walk.withReport { tried walk action with
        invalidTransitions := walk.report.invalidTransitions + 1 }) ∨
      ∃ t ∈ transitions, t.source = walk.state ∧ t.action = action ∧
        (attempt transitions walk action = .continues (walk.after t (tried walk action)) ∨
          t.target = walk.state ∧
            attempt transitions walk action = .breaks (walk.after t { tried walk action with
              livelocks := walk.report.livelocks + 1 })) := by
  cases hfind : transitions.find? fun t => t.source = walk.state ∧ t.action = action with
  | none => exact Or.inl (attempt_none hfind)
  | some t =>
    right
    have ht := List.mem_of_find?_eq_some hfind
    have hattempt := attempt_some hfind
    obtain ⟨hsource, rfl⟩ : t.source = walk.state ∧ t.action = action := by
      simpa using List.find?_some hfind
    rw [if_pos (guard_passes h ht hsource)] at hattempt
    refine ⟨t, ht, hsource, rfl, ?_⟩
    by_cases hloop : isLooping (walk.sequence ++ [(t.target, t.action)]) = true
    · right
      exact ⟨target_of_isLooping h hloop, hattempt.trans (if_pos hloop)⟩
    · left
      exact hattempt.trans (if_neg hloop)

/-- **A step.** It is a deadlock when a signature is finished, and an attempt otherwise. -/
theorem sequenceStep_cases (walk : Walk) (draw : StepDraw) :
    walk.state = .SIGN_COMPLETE ∧ sequenceStep transitions walk draw =
        .breaks (walk.withReport { walk.report with deadlocks := walk.report.deadlocks + 1 }) ∨
      walk.state ≠ .SIGN_COMPLETE ∧
        ∃ action, sequenceStep transitions walk draw = attempt transitions walk action := by
  by_cases hstate : walk.state = .SIGN_COMPLETE
  · left
    exact ⟨hstate, dif_pos ((getValidActions_eq_nil_iff _ _).mpr hstate)⟩
  · right
    exact ⟨hstate, _, dif_neg fun hnil => hstate ((getValidActions_eq_nil_iff _ _).mp hnil)⟩

/-! ## The guards are never needed -/

/-- The transition without its guard. -/
def Transition.unguarded (t : Transition) : Transition := { t with guard := none }

@[simp] theorem source_unguarded (t : Transition) : t.unguarded.source = t.source := rfl

@[simp] theorem allows_unguarded (t : Transition) (ctx : StateContext) :
    t.unguarded.allows ctx = true := rfl

theorem getValidActions_unguarded {walk : Walk} (h : Tracked walk) :
    getValidActions (transitions.map Transition.unguarded) walk.state walk.context =
      getValidActions transitions walk.state walk.context := by
  rw [getValidActions, getValidActions, List.filter_map, List.map_map]
  have hfilter : transitions.filter ((fun t : Transition =>
      decide (t.source = walk.state ∧ t.allows walk.context = true)) ∘ Transition.unguarded) =
      transitions.filter fun t => t.source = walk.state ∧ t.allows walk.context = true := by
    apply List.filter_congr
    intro t ht
    by_cases hsource : t.source = walk.state
    · simp [hsource, guard_passes h ht hsource]
    · simp [hsource]
  rw [hfilter]
  rfl

theorem attempt_unguarded {walk : Walk} (h : Tracked walk) (action : MPCAction) :
    attempt (transitions.map Transition.unguarded) walk action =
      attempt transitions walk action := by
  have hfind : (transitions.map Transition.unguarded).find?
      (fun t => t.source = walk.state ∧ t.action = action) =
      (transitions.find? fun t => t.source = walk.state ∧ t.action = action).map
        Transition.unguarded := List.find?_map ..
  rw [attempt, attempt, hfind]
  cases hfound : transitions.find? fun t => t.source = walk.state ∧ t.action = action with
  | none => rfl
  | some t =>
    obtain ⟨hsource, -⟩ : t.source = walk.state ∧ t.action = action := by
      simpa using List.find?_some hfound
    have hallows := guard_passes h (List.mem_of_find?_eq_some hfound) hsource
    dsimp only [Option.map_some]
    rw [if_pos hallows, if_pos (allows_unguarded t walk.context)]
    rfl

theorem sequenceStep_unguarded {walk : Walk} (h : Tracked walk) (draw : StepDraw) :
    sequenceStep (transitions.map Transition.unguarded) walk draw =
      sequenceStep transitions walk draw := by
  rw [sequenceStep, sequenceStep, getValidActions_unguarded h]
  split
  · rfl
  · exact attempt_unguarded h _

theorem Tracked.step {walk walk' : Walk} (h : Tracked walk) {draw : StepDraw}
    (hstep : sequenceStep transitions walk draw = .continues walk') : Tracked walk' := by
  obtain ⟨-, hbreaks⟩ | ⟨-, action, hattempt⟩ := sequenceStep_cases walk draw
  · rw [hbreaks] at hstep
    cases hstep
  · rw [hattempt] at hstep
    obtain hrejected | ⟨t, ht, hsource, -, hmoves | ⟨-, hbreaks⟩⟩ := attempt_cases h action
    · obtain rfl := Step.continues.inj (hrejected.symm.trans hstep)
      exact h.withReport _
    · obtain rfl := Step.continues.inj (hmoves.symm.trans hstep)
      exact h.after ht hsource _
    · rw [hbreaks] at hstep
      cases hstep

theorem runSteps_unguarded (draws : List StepDraw) {walk : Walk} (h : Tracked walk) :
    runSteps (transitions.map Transition.unguarded) draws walk =
      runSteps transitions draws walk := by
  induction draws generalizing walk with
  | nil => rfl
  | cons draw draws ih =>
    rw [runSteps, runSteps, sequenceStep_unguarded h]
    cases hstep : sequenceStep transitions walk draw with
    | breaks walk' => rfl
    | continues walk' => exact ih (h.step hstep)

/-! ## The report -/

def Step.withReport : Step → StateFuzzReport → Step
  | .continues walk, report => .continues (walk.withReport report)
  | .breaks walk, report => .breaks (walk.withReport report)

theorem attempt_withReport (table : List Transition) (walk : Walk) (report : StateFuzzReport)
    (action : MPCAction) : ∃ report',
    attempt table (walk.withReport report) action =
      (attempt table walk action).withReport report' := by
  cases hfind : table.find? fun t => t.source = walk.state ∧ t.action = action with
  | none =>
    have hfind' : table.find? (fun t => t.source = (walk.withReport report).state ∧
        t.action = action) = none := hfind
    rw [attempt_none hfind, attempt_none hfind']
    exact ⟨_, rfl⟩
  | some t =>
    have hfind' : table.find? (fun t => t.source = (walk.withReport report).state ∧
        t.action = action) = some t := hfind
    rw [attempt_some hfind, attempt_some hfind']
    by_cases hallows : t.allows walk.context = true
    · have hallows' : t.allows (walk.withReport report).context = true := hallows
      rw [if_pos hallows, if_pos hallows']
      by_cases hloop : isLooping (walk.sequence ++ [(t.target, t.action)]) = true
      · have hloop' : isLooping ((walk.withReport report).sequence ++ [(t.target, t.action)]) =
          true := hloop
        rw [if_pos hloop, if_pos hloop']
        exact ⟨_, rfl⟩
      · have hloop' : ¬ isLooping ((walk.withReport report).sequence ++ [(t.target, t.action)]) =
          true := hloop
        rw [if_neg hloop, if_neg hloop']
        exact ⟨_, rfl⟩
    · have hallows' : ¬ t.allows (walk.withReport report).context = true := hallows
      rw [if_neg hallows, if_neg hallows']
      exact ⟨_, rfl⟩

theorem sequenceStep_withReport (table : List Transition) (walk : Walk) (report : StateFuzzReport)
    (draw : StepDraw) : ∃ report',
    sequenceStep table (walk.withReport report) draw =
      (sequenceStep table walk draw).withReport report' := by
  by_cases hnil : getValidActions table walk.state walk.context = []
  · rw [sequenceStep, sequenceStep, dif_pos hnil, dif_pos (show getValidActions table
      (walk.withReport report).state (walk.withReport report).context = [] from hnil)]
    exact ⟨_, rfl⟩
  · rw [sequenceStep, sequenceStep, dif_neg hnil, dif_neg (show ¬ getValidActions table
      (walk.withReport report).state (walk.withReport report).context = [] from hnil)]
    exact attempt_withReport table walk report _

theorem runSteps_withReport (table : List Transition) (draws : List StepDraw) (walk : Walk)
    (report : StateFuzzReport) : ∃ report',
    runSteps table draws (walk.withReport report) =
      (runSteps table draws walk).withReport report' := by
  induction draws generalizing walk report with
  | nil => exact ⟨report, rfl⟩
  | cons draw draws ih =>
    obtain ⟨report', hstep⟩ := sequenceStep_withReport table walk report draw
    rw [runSteps, runSteps, hstep]
    cases sequenceStep table walk draw with
    | breaks walk' => exact ⟨report', rfl⟩
    | continues walk' => exact ih walk' report'

/-- What no step changes, and how many breaks of a walk the report counts. -/
structure Kept (before after : StateFuzzReport) (breaks : ℕ) : Prop where
  crashes : after.crashes = before.crashes
  ended : after.deadlocks + after.livelocks = before.deadlocks + before.livelocks + breaks
  uncovered : ∀ action : MPCAction,
    (MPCState.SIGN_COMPLETE, action) ∈ before.uncoveredTransitions →
      (MPCState.SIGN_COMPLETE, action) ∈ after.uncoveredTransitions

theorem Kept.refl (report : StateFuzzReport) : Kept report report 0 :=
  ⟨rfl, rfl, fun _ h => h⟩

theorem Kept.trans {r₁ r₂ r₃ : StateFuzzReport} {m n : ℕ} (h : Kept r₁ r₂ m) (h' : Kept r₂ r₃ n) :
    Kept r₁ r₃ (m + n) := by
  refine ⟨h'.crashes.trans h.crashes, ?_, fun action hmem => h'.uncovered _ (h.uncovered _ hmem)⟩
  have hended := h.ended
  have hended' := h'.ended
  omega

/-- An attempt in another state than that of a finished signature. -/
theorem uncovered_tried {walk : Walk} (hstate : walk.state ≠ .SIGN_COMPLETE) (tried' : MPCAction)
    (action : MPCAction) (h : (MPCState.SIGN_COMPLETE, action) ∈ walk.report.uncoveredTransitions) :
    (MPCState.SIGN_COMPLETE, action) ∈ (tried walk tried').uncoveredTransitions := by
  apply List.mem_filter.mpr
  refine ⟨h, ?_⟩
  simp [Ne.symm hstate]

/-- **One step**, and what it makes of the report. -/
theorem sequenceStep_report {walk : Walk} (h : Tracked walk) (draw : StepDraw) :
    (∃ walk', sequenceStep transitions walk draw = .continues walk' ∧ Tracked walk' ∧
      walk.state ≠ .SIGN_COMPLETE ∧ Kept walk.report walk'.report 0 ∧
      walk'.report.deadlocks = walk.report.deadlocks) ∨
    ∃ walk', sequenceStep transitions walk draw = .breaks walk' ∧
      Kept walk.report walk'.report 1 ∧
      walk'.report.deadlocks =
        walk.report.deadlocks + (if walk.state = .SIGN_COMPLETE then 1 else 0) ∧
      (walk'.state = .SIGN_COMPLETE ↔ walk.state = .SIGN_COMPLETE) := by
  obtain ⟨hstate, hstep⟩ | ⟨hstate, action, hattempt⟩ := sequenceStep_cases walk draw
  · right
    refine ⟨_, hstep, ⟨rfl, ?_, fun _ hmem => hmem⟩, ?_, Iff.rfl⟩
    · simp only [Walk.withReport]
      omega
    · rw [if_pos hstate]
      rfl
  · rw [hattempt]
    obtain hrejected | ⟨t, ht, hsource, -, hmoves | ⟨htarget, hbreaks⟩⟩ := attempt_cases h action
    · left
      exact ⟨_, hrejected, h.withReport _, hstate,
        ⟨rfl, rfl, uncovered_tried hstate action⟩, rfl⟩
    · left
      exact ⟨_, hmoves, h.after ht hsource _, hstate,
        ⟨rfl, rfl, uncovered_tried hstate action⟩, rfl⟩
    · right
      refine ⟨_, hbreaks, ⟨rfl, rfl, uncovered_tried hstate action⟩, ?_, ?_⟩
      · rw [if_neg hstate]
        rfl
      · rw [← htarget]
        rfl

/-- **A sequence.** At most one break is counted, and a deadlock when there is a step left after a
finished signature. -/
theorem runSteps_report (draws : List StepDraw) (draw : StepDraw) {walk : Walk} (h : Tracked walk) :
    (∃ breaks ≤ 1, Kept walk.report (runSteps transitions (draws ++ [draw]) walk).report breaks) ∧
      (runSteps transitions (draws ++ [draw]) walk).report.deadlocks = walk.report.deadlocks +
        if (runSteps transitions draws walk).state = .SIGN_COMPLETE then 1 else 0 := by
  induction draws generalizing walk with
  | nil =>
    rw [List.nil_append]
    obtain ⟨walk', hstep, -, hstate, hkept, hdeadlocks⟩ | ⟨walk', hstep, hkept, hdeadlocks, -⟩ :=
      sequenceStep_report h draw
    · rw [runSteps_of_continues hstep]
      have hnil : (runSteps transitions [] walk).state ≠ .SIGN_COMPLETE := hstate
      rw [if_neg hnil]
      exact ⟨⟨0, by omega, hkept⟩, hdeadlocks⟩
    · rw [runSteps_of_breaks hstep]
      exact ⟨⟨1, le_rfl, hkept⟩, hdeadlocks⟩
  | cons first draws ih =>
    rw [List.cons_append]
    obtain ⟨walk', hstep, h', -, hkept, hdeadlocks⟩ | ⟨walk', hstep, hkept, hdeadlocks, hstate⟩ :=
      sequenceStep_report h first
    · rw [runSteps_of_continues hstep, runSteps_of_continues hstep]
      obtain ⟨⟨breaks, hle, hkept'⟩, hrest⟩ := ih h'
      refine ⟨⟨0 + breaks, by omega, hkept.trans hkept'⟩, ?_⟩
      rw [← hdeadlocks]
      exact hrest
    · rw [runSteps_of_breaks hstep, runSteps_of_breaks hstep]
      refine ⟨⟨1, le_rfl, hkept⟩, hdeadlocks.trans ?_⟩
      exact congrArg _ (if_congr hstate.symm rfl rfl)

/-- The sequence finishes a signature and has a step left. -/
def Completes (draws : ℕ → StepDraw) : Prop :=
  (runSteps transitions ((List.range 99).map draws)
    (newWalk ⟨0, 0, 0, 0, getAllPossibleTransitions, 0⟩)).state = .SIGN_COMPLETE

instance (draws : ℕ → StepDraw) : Decidable (Completes draws) :=
  inferInstanceAs (Decidable (_ = MPCState.SIGN_COMPLETE))

example : Completes fun _ => ⟨⟨0, by simp⟩, ⟨0, by simp⟩⟩ := by decide +kernel

theorem completes_iff (draws : ℕ → StepDraw) (report : StateFuzzReport) :
    (runSteps transitions ((List.range 99).map draws) (newWalk report)).state = .SIGN_COMPLETE ↔
      Completes draws := by
  obtain ⟨report', hrun⟩ := runSteps_withReport transitions ((List.range 99).map draws)
    (newWalk ⟨0, 0, 0, 0, getAllPossibleTransitions, 0⟩) report
  have hwalk : newWalk report =
      (newWalk ⟨0, 0, 0, 0, getAllPossibleTransitions, 0⟩).withReport report := rfl
  rw [hwalk, hrun]
  exact Iff.rfl

theorem runRandomSequence_report (draws : ℕ → StepDraw) (report : StateFuzzReport) :
    (∃ breaks ≤ 1, Kept report (runRandomSequence transitions draws report) breaks) ∧
      (runRandomSequence transitions draws report).deadlocks =
        report.deadlocks + if Completes draws then 1 else 0 := by
  have hdraws : (List.range 100).map draws = (List.range 99).map draws ++ [draws 99] := by
    rw [List.range_succ, List.map_append]
    rfl
  obtain ⟨hkept, hdeadlocks⟩ :=
    runSteps_report ((List.range 99).map draws) (draws 99) (Tracked.new report)
  rw [← hdraws] at hkept hdeadlocks
  refine ⟨hkept, hdeadlocks.trans ?_⟩
  exact congrArg _ (if_congr (completes_iff draws report) rfl rfl)

theorem runCampaign_succ (table : List Transition) (draws : ℕ → ℕ → StepDraw) (n : ℕ) :
    runCampaign table draws (n + 1) =
      runRandomSequence table (draws n) (runCampaign table draws n) := by
  rw [runCampaign, List.range_succ, List.foldl_append]
  rfl

theorem possible_afterSignature :
    ∀ action ∈ [MPCAction.START_DKG, .START_SIGN, .START_REFRESH, .ABORT, .RECOVER],
      (MPCState.SIGN_COMPLETE, action) ∈ getAllPossibleTransitions := by decide

/-- **The reports of the campaigns.** The guards could be left out of the table. A deadlock is
reported for each sequence that finishes a signature with a step left and for no other, what could
be tried behind a finished signature stays uncovered, and nothing is ever reported as a crash. -/
theorem state_campaign (draws : ℕ → ℕ → StepDraw) (iterations : ℕ) :
    runCampaign (transitions.map Transition.unguarded) draws iterations =
        runCampaign transitions draws iterations ∧
      (runCampaign transitions draws iterations).deadlocks =
        (List.range iterations).countP (fun i => Completes (draws i)) ∧
      (runCampaign transitions draws iterations).deadlocks +
        (runCampaign transitions draws iterations).livelocks ≤ iterations ∧
      (runCampaign transitions draws iterations).crashes = 0 ∧
      ∀ action ∈ [MPCAction.START_DKG, .START_SIGN, .START_REFRESH, .ABORT, .RECOVER],
        (MPCState.SIGN_COMPLETE, action) ∈
          (runCampaign transitions draws iterations).uncoveredTransitions := by
  induction iterations with
  | zero => exact ⟨rfl, rfl, le_rfl, rfl, possible_afterSignature⟩
  | succ n ih =>
    obtain ⟨hsame, hdeadlocks, hended, hcrashes, huncovered⟩ := ih
    obtain ⟨⟨breaks, hle, hkept⟩, hstep⟩ :=
      runRandomSequence_report (draws n) (runCampaign transitions draws n)
    rw [← runCampaign_succ] at hkept hstep
    refine ⟨?_, ?_, ?_, hkept.crashes.trans hcrashes, fun action hmem =>
      hkept.uncovered action (huncovered action hmem)⟩
    · rw [runCampaign_succ, runCampaign_succ, hsame, runRandomSequence, runRandomSequence,
        runSteps_unguarded _ (Tracked.new _)]
    · rw [hstep, hdeadlocks, List.range_succ, List.countP_append, List.countP_singleton]
      simp only [decide_eq_true_eq]
    · have hcount := hkept.ended
      omega

end BioFire.StateFuzzing
