import Mathlib.Data.List.Basic
import Mathlib.Data.List.Induction

/-!
# Runs of a system over a list of events

The state after a list of events, and what can be said of the events met on the
way, each in the state it met.

* `occurs_concat`, `occurs_cons`, `always_concat`, `always_cons`: one event more;
* `since_concat`: what happened, and what has not happened since;
* `run_induction`: an invariant of the past events and the state;
* `throughout_induction`, `run_invariant`, `always_congr`: an invariant of the state alone;
* `run_related`, `observe_run`: what the first and the last state have in common;
* `observe_run_filter`, `always_filter`: events that an observer does not see can be left out;
* `getElem?_concat_eq_some`, `getElem?_set_eq_some`: objects that are named by their position in
  a list that grows and changes.
-/

namespace Runs

variable {σ ε : Type} (step : σ → ε → σ) (start : σ)

/-- The state after the events. -/
def run (events : List ε) : σ := events.foldl step start

/-- Some event satisfied `p` in the state it met. -/
def Occurs (events : List ε) (p : σ → ε → Prop) : Prop :=
  ∃ past event rest, events = past ++ event :: rest ∧ p (run step start past) event

/-- Every event satisfied `p` in the state it met. -/
def Always (events : List ε) (p : σ → ε → Prop) : Prop :=
  ∀ past event rest, events = past ++ event :: rest → p (run step start past) event

/-- Every state on the way satisfied `p`, the first and the last one too. -/
def Throughout (events : List ε) (p : σ → Prop) : Prop :=
  ∀ past rest, events = past ++ rest → p (run step start past)

/-- Some event satisfied `q`, and every one behind it satisfied `p`. -/
def Since (events : List ε) (p q : σ → ε → Prop) : Prop :=
  ∃ past event rest, events = past ++ event :: rest ∧ q (run step start past) event ∧
    Always step (step (run step start past) event) rest p

variable {step start}

@[simp] theorem run_nil : run step start [] = start := rfl

@[simp] theorem run_concat (events : List ε) (event : ε) :
    run step start (events ++ [event]) = step (run step start events) event :=
  List.foldl_concat step start event events

theorem run_append (past events : List ε) :
    run step start (past ++ events) = run step (run step start past) events :=
  List.foldl_append

theorem concat_eq_iff {events past rest : List ε} {event last : ε} :
    events ++ [last] = past ++ event :: rest ↔
      (rest = [] ∧ past = events ∧ event = last) ∨
        ∃ rest', rest = rest' ++ [last] ∧ events = past ++ event :: rest' := by
  rcases rest.eq_nil_or_concat with rfl | ⟨rest', last', rfl⟩
  · constructor
    · intro h
      obtain ⟨hpast, hlast⟩ := List.append_inj' h rfl
      exact Or.inl ⟨rfl, hpast.symm, (List.singleton_inj.mp hlast).symm⟩
    · rintro (⟨-, rfl, rfl⟩ | ⟨rest', hrest, -⟩)
      · rfl
      · simp at hrest
  · rw [List.concat_eq_append, ← List.cons_append, ← List.append_assoc]
    constructor
    · intro h
      obtain ⟨hevents, hlast⟩ := List.append_inj' h rfl
      obtain rfl := List.singleton_inj.mp hlast
      exact Or.inr ⟨rest', rfl, hevents⟩
    · rintro (⟨hrest, -⟩ | ⟨rest'', hrest, hevents⟩)
      · simp at hrest
      · obtain ⟨rfl, hlast⟩ := List.append_inj' hrest rfl
        rw [hevents, List.singleton_inj.mp hlast]

theorem occurs_concat {events : List ε} {event : ε} {p : σ → ε → Prop} :
    Occurs step start (events ++ [event]) p ↔
      Occurs step start events p ∨ p (run step start events) event := by
  constructor
  · rintro ⟨past, e, rest, hcut, hp⟩
    rcases concat_eq_iff.mp hcut with ⟨-, rfl, rfl⟩ | ⟨rest', -, hevents⟩
    · exact Or.inr hp
    · exact Or.inl ⟨past, e, rest', hevents, hp⟩
  · rintro (⟨past, e, rest, rfl, hp⟩ | hp)
    · exact ⟨past, e, rest ++ [event], by simp, hp⟩
    · exact ⟨events, event, [], rfl, hp⟩

theorem not_occurs_nil {p : σ → ε → Prop} : ¬ Occurs step start [] p := by
  rintro ⟨past, event, rest, hcut, -⟩
  simp at hcut

theorem occurs_cons {events : List ε} {event : ε} {p : σ → ε → Prop} :
    Occurs step start (event :: events) p ↔
      p start event ∨ Occurs step (step start event) events p := by
  constructor
  · rintro ⟨past, e, rest, hcut, hp⟩
    cases past with
    | nil =>
      obtain ⟨rfl, -⟩ := List.cons.inj hcut
      exact Or.inl hp
    | cons first past =>
      obtain ⟨rfl, hrest⟩ := List.cons.inj hcut
      exact Or.inr ⟨past, e, rest, hrest, hp⟩
  · rintro (hp | ⟨past, e, rest, rfl, hp⟩)
    · exact ⟨[], event, events, rfl, hp⟩
    · exact ⟨event :: past, e, rest, rfl, hp⟩

theorem always_concat {events : List ε} {event : ε} {p : σ → ε → Prop} :
    Always step start (events ++ [event]) p ↔
      Always step start events p ∧ p (run step start events) event := by
  constructor
  · intro h
    refine ⟨fun past e rest hcut => h past e (rest ++ [event]) ?_, h events event [] rfl⟩
    rw [hcut]
    simp
  · rintro ⟨h, hp⟩ past e rest hcut
    rcases concat_eq_iff.mp hcut with ⟨-, rfl, rfl⟩ | ⟨rest', -, hevents⟩
    · exact hp
    · exact h past e rest' hevents

theorem always_nil {p : σ → ε → Prop} : Always step start [] p := by
  intro past e rest hcut
  simp at hcut

theorem always_cons {events : List ε} {event : ε} {p : σ → ε → Prop} :
    Always step start (event :: events) p ↔
      p start event ∧ Always step (step start event) events p := by
  constructor
  · intro h
    refine ⟨h [] event events rfl, fun past e rest hcut => h (event :: past) e rest ?_⟩
    rw [hcut, List.cons_append]
  · rintro ⟨hp, h⟩ past e rest hcut
    cases past with
    | nil =>
      obtain ⟨rfl, -⟩ := List.cons.inj hcut
      exact hp
    | cons first past =>
      obtain ⟨rfl, hrest⟩ := List.cons.inj hcut
      exact h past e rest hrest

theorem not_since_nil {p q : σ → ε → Prop} : ¬ Since step start [] p q := by
  rintro ⟨past, event, rest, hcut, -⟩
  simp at hcut

theorem since_concat {events : List ε} {event : ε} {p q : σ → ε → Prop} :
    Since step start (events ++ [event]) p q ↔
      q (run step start events) event ∨
        p (run step start events) event ∧ Since step start events p q := by
  constructor
  · rintro ⟨past, e, rest, hcut, hq, hp⟩
    rcases concat_eq_iff.mp hcut with ⟨-, rfl, rfl⟩ | ⟨rest', rfl, rfl⟩
    · exact Or.inl hq
    · obtain ⟨hbefore, hlast⟩ := always_concat.mp hp
      refine Or.inr ⟨?_, past, e, rest', rfl, hq, hbefore⟩
      rw [run_append]
      exact hlast
  · rintro (hq | ⟨hlast, past, e, rest, rfl, hq, hp⟩)
    · exact ⟨events, event, [], rfl, hq, always_nil⟩
    · refine ⟨past, e, rest ++ [event], by simp, hq, always_concat.mpr ⟨hp, ?_⟩⟩
      rw [run_append] at hlast
      exact hlast

/-- **Invariants of runs.** What holds at the start and is kept by every event that
satisfies `p` holds after every run whose events all satisfy `p`. -/
theorem run_induction {p : σ → ε → Prop} (Inv : List ε → σ → Prop) (hstart : Inv [] start)
    (hstep : ∀ past event, Inv past (run step start past) → p (run step start past) event →
      Inv (past ++ [event]) (step (run step start past) event))
    {events : List ε} (h : Always step start events p) : Inv events (run step start events) := by
  induction events using List.reverseRecOn with
  | nil => exact hstart
  | append_singleton events event ih =>
    obtain ⟨hpast, hevent⟩ := always_concat.mp h
    rw [run_concat]
    exact hstep events event (ih hpast) hevent

theorem Always.left {past rest : List ε} {p : σ → ε → Prop}
    (h : Always step start (past ++ rest) p) : Always step start past p := by
  intro before event after hcut
  exact h before event (after ++ rest) (by simp [hcut])

/-- The states on the way of a run whose events all satisfy `p`. -/
theorem throughout_induction {p : σ → ε → Prop} (Inv : σ → Prop) (hstart : Inv start)
    (hstep : ∀ state event, Inv state → p state event → Inv (step state event)) {events : List ε}
    (h : Always step start events p) : Throughout step start events Inv := by
  rintro past rest rfl
  exact run_induction (fun _ => Inv) hstart (fun _ event => hstep _ event) h.left

theorem run_invariant (Inv : σ → Prop) (hstart : Inv start)
    (hstep : ∀ state event, Inv state → Inv (step state event)) (events : List ε) :
    Inv (run step start events) := by
  induction events using List.reverseRecOn with
  | nil => exact hstart
  | append_singleton events event ih =>
    rw [run_concat]
    exact hstep _ event ih

/-- A run is a chain of its events: what relates the states of one event relates its ends. -/
theorem run_related {R : σ → σ → Prop} (hrefl : ∀ state, R state state)
    (htrans : ∀ {state state' state''}, R state state' → R state' state'' → R state state'')
    (hstep : ∀ state event, R state (step state event)) (events : List ε) (state : σ) :
    R state (run step state events) := by
  induction events using List.reverseRecOn with
  | nil => exact hrefl state
  | append_singleton events event ih =>
    rw [run_concat]
    exact htrans ih (hstep _ event)

theorem observe_run {τ : Type} (observe : σ → τ)
    (hstep : ∀ state event, observe (step state event) = observe state) (events : List ε)
    (state : σ) : observe (run step state events) = observe state :=
  run_related (R := fun state state' => observe state' = observe state) (fun _ => rfl)
    (fun h h' => h'.trans h) hstep events state

/-- What is the same under an invariant is the same in every run. -/
theorem always_congr {p q : σ → ε → Prop} (Inv : σ → Prop) (hstart : Inv start)
    (hstep : ∀ state event, Inv state → Inv (step state event))
    (hiff : ∀ state event, Inv state → (p state event ↔ q state event)) {events : List ε} :
    Always step start events p ↔ Always step start events q :=
  forall₄_congr fun past event _ _ => hiff _ event (run_invariant Inv hstart hstep past)

section Filter

variable {τ : Type} (observe : σ → τ) (keep : ε → Bool)

theorem observe_run_filter
    (hskip : ∀ state event, keep event = false → observe (step state event) = observe state)
    (hkeep : ∀ state state' event, observe state = observe state' →
      observe (step state event) = observe (step state' event)) (events : List ε) :
    observe (run step start (events.filter keep)) = observe (run step start events) := by
  induction events using List.reverseRecOn with
  | nil => rfl
  | append_singleton events event ih =>
    rw [List.filter_append, run_concat]
    cases hevent : keep event with
    | false => rw [List.filter_singleton, hevent, cond_false, List.append_nil, ih, hskip _ _ hevent]
    | true => rw [List.filter_singleton, hevent, cond_true, run_concat, hkeep _ _ event ih]

/-- What is observed of the other events does not change when they are left out. -/
theorem always_filter {p : σ → ε → Prop}
    (hskip : ∀ state event, keep event = false → observe (step state event) = observe state)
    (hkeep : ∀ state state' event, observe state = observe state' →
      observe (step state event) = observe (step state' event))
    (hp : ∀ state state' event, observe state = observe state' → (p state event ↔ p state' event))
    (hfree : ∀ state event, keep event = false → p state event) (events : List ε) :
    Always step start (events.filter keep) p ↔ Always step start events p := by
  induction events using List.reverseRecOn with
  | nil => rfl
  | append_singleton events event ih =>
    rw [List.filter_append, always_concat]
    cases hevent : keep event with
    | false =>
      rw [List.filter_singleton, hevent, cond_false, List.append_nil, ih]
      exact (and_iff_left (hfree _ event hevent)).symm
    | true =>
      rw [List.filter_singleton, hevent, cond_true, always_concat, ih,
        hp _ _ event (observe_run_filter observe keep hskip hkeep events)]

end Filter

theorem getElem?_concat_eq_some {α : Type} {l : List α} {new a : α} {k : ℕ}
    (h : (l ++ [new])[k]? = some a) : l[k]? = some a ∨ k = l.length ∧ a = new := by
  rw [List.getElem?_append] at h
  split at h
  · exact Or.inl h
  next hge =>
    have hlast := (List.getElem?_eq_some_iff.mp h).1
    rw [List.length_singleton] at hlast
    exact Or.inr ⟨by omega, List.mem_singleton.mp (List.mem_of_getElem? h)⟩

/-- What stands at a position of a list with one entry replaced. -/
theorem getElem?_set_eq_some {α : Type} {l : List α} {new a : α} {j k : ℕ}
    (h : (l.set j new)[k]? = some a) : k = j ∧ a = new ∨ k ≠ j ∧ l[k]? = some a := by
  rw [List.getElem?_set] at h
  split at h
  next hjk =>
    split at h
    · exact Or.inl ⟨hjk.symm, (Option.some.inj h).symm⟩
    · cases h
  next hjk => exact Or.inr ⟨Ne.symm hjk, h⟩

theorem map_modify_eq {α β : Type} {change : α → α} {observe : α → β}
    (h : ∀ a, observe (change a) = observe a) (l : List α) (k : ℕ) :
    (l.modify k change).map observe = l.map observe := by
  apply List.ext_getElem?
  intro j
  rw [List.getElem?_map, List.getElem?_map, List.getElem?_modify]
  cases l[j]? with
  | none => simp
  | some a =>
    by_cases hj : k = j
    · simp [hj, h]
    · simp [hj]

/-- One entry in place of another that a map does not tell from it. -/
theorem map_set_eq {α β : Type} {observe : α → β} {l : List α} {k : ℕ} {old new : α}
    (hget : l[k]? = some old) (h : observe new = observe old) :
    (l.set k new).map observe = l.map observe := by
  apply List.ext_getElem?
  intro j
  rw [List.getElem?_map, List.getElem?_map]
  by_cases hj : k = j
  · subst hj
    have hlt := (List.getElem?_eq_some_iff.mp hget).1
    rw [List.getElem?_set_self hlt, hget]
    exact congrArg some h
  · rw [List.getElem?_set_ne hj]

/-- One entry in place of another: what is counted goes out and comes in. -/
theorem countP_set_add {α : Type} (p : α → Bool) {l : List α} {k : ℕ} {old : α}
    (hget : l[k]? = some old) (new : α) :
    (l.set k new).countP p + (if p old then 1 else 0) =
      l.countP p + if p new then 1 else 0 := by
  obtain ⟨hlt, rfl⟩ := List.getElem?_eq_some_iff.mp hget
  have hold : (if p l[k] then 1 else 0) ≤ l.countP p := by
    split
    next h => exact List.countP_pos_iff.mpr ⟨l[k], List.getElem_mem hlt, h⟩
    next => exact Nat.zero_le _
  rw [List.countP_set hlt]
  omega

end Runs
