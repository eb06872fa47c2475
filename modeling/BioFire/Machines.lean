import BioFire.Runs

/-!
# Machines that answer

A call changes the state of a machine and answers. One machine implements another when no
list of calls tells them apart.

* `answers`: the answers to a list of calls;
* `simulation`: a relation that the calls keep, with equal answers, holds after every run;
* `collected_answers`: a log to which every call adds its answer;
* `answers_filter`: calls that change nothing can be left out;
* `log_transcript`, `count_transcript`: what every call adds to a log or to a counter;
* `mem_transcript`: where an answer of a transcript was given.
-/

namespace Runs

variable {σ τ ε α : Type}

/-- The answers to the calls, in their order. -/
def answers (call : σ → ε → σ × α) : σ → List ε → List α
  | _, [] => []
  | s, event :: events => (call s event).2 :: answers call (call s event).1 events

/-- The state after the calls. -/
abbrev finalState (call : σ → ε → σ × α) (s : σ) (events : List ε) : σ :=
  run (fun s event => (call s event).1) s events

/-- **Simulation.** States that are related stay related, and answer alike. -/
theorem simulation {call : σ → ε → σ × α} {call' : τ → ε → τ × α} (R : σ → τ → Prop)
    (hcall : ∀ s t event, R s t →
      R (call s event).1 (call' t event).1 ∧ (call s event).2 = (call' t event).2)
    {s : σ} {t : τ} (h : R s t) (events : List ε) :
    R (finalState call s events) (finalState call' t events) ∧
      answers call s events = answers call' t events := by
  induction events generalizing s t with
  | nil => exact ⟨h, rfl⟩
  | cons event events ih =>
    obtain ⟨hnext, hanswer⟩ := hcall s t event h
    obtain ⟨hend, hanswers⟩ := ih hnext
    exact ⟨hend, by rw [answers, answers, hanswer, hanswers]⟩

/-- A log to which every call adds its answer is the list of the answers. -/
theorem collected_answers {call : σ → ε → σ × List α} (log : σ → List α)
    (hcall : ∀ s event, log (call s event).1 = log s ++ (call s event).2) (s : σ)
    (events : List ε) :
    log (finalState call s events) = log s ++ (answers call s events).flatten := by
  induction events generalizing s with
  | nil => exact (List.append_nil _).symm
  | cons event events ih =>
    have hrest := ih (call s event).1
    rw [hcall, List.append_assoc] at hrest
    rw [answers, List.flatten_cons]
    exact hrest

/-- The calls with their answers. -/
def transcript (call : σ → ε → σ × α) (s : σ) (events : List ε) : List (ε × α) :=
  events.zip (answers call s events)

theorem transcript_cons (call : σ → ε → σ × α) (s : σ) (event : ε) (events : List ε) :
    transcript call s (event :: events) =
      (event, (call s event).2) :: transcript call (call s event).1 events := rfl

/-- Calls that change nothing can be left out: the others are answered as before. -/
theorem answers_filter {call : σ → ε → σ × α} {keep : ε → Bool}
    (hskip : ∀ s event, keep event = false → (call s event).1 = s) (s : σ) (events : List ε) :
    finalState call s (events.filter keep) = finalState call s events ∧
      transcript call s (events.filter keep) =
        (transcript call s events).filter fun entry => keep entry.1 := by
  induction events generalizing s with
  | nil => exact ⟨rfl, rfl⟩
  | cons event events ih =>
    obtain ⟨hend, htranscript⟩ := ih (call s event).1
    rw [transcript_cons]
    cases hkeep : keep event with
    | true =>
      rw [List.filter_cons_of_pos hkeep, List.filter_cons_of_pos (by exact hkeep), transcript_cons,
        htranscript]
      exact ⟨hend, rfl⟩
    | false =>
      rw [List.filter_cons_of_neg (by simp [hkeep]), List.filter_cons_of_neg (by simp [hkeep])]
      rw [hskip s event hkeep] at hend htranscript ⊢
      exact ⟨hend.trans (congrArg (finalState call · events) (hskip s event hkeep).symm),
        htranscript⟩

theorem log_transcript {call : σ → ε → σ × α} {β : Type} (log : σ → List β)
    (records : ε → α → List β)
    (hcall : ∀ s event, log (call s event).1 = log s ++ records event (call s event).2) (s : σ)
    (events : List ε) :
    log (finalState call s events) =
      log s ++ (transcript call s events).flatMap fun entry => records entry.1 entry.2 := by
  induction events generalizing s with
  | nil => exact (List.append_nil _).symm
  | cons event events ih =>
    have hrest := ih (call s event).1
    rw [hcall, List.append_assoc] at hrest
    rw [transcript_cons, List.flatMap_cons]
    exact hrest

theorem count_transcript {call : σ → ε → σ × α} (count : σ → ℕ) (p : ε → α → Bool)
    (hcall : ∀ s event, count (call s event).1 =
      count s + if p event (call s event).2 then 1 else 0) (s : σ) (events : List ε) :
    count (finalState call s events) =
      count s + (transcript call s events).countP fun entry => p entry.1 entry.2 := by
  induction events generalizing s with
  | nil => exact (Nat.add_zero _).symm
  | cons event events ih =>
    have hrest := ih (call s event).1
    rw [hcall, Nat.add_assoc, Nat.add_comm (ite _ _ _)] at hrest
    rw [transcript_cons, List.countP_cons]
    exact hrest

/-- An answer of a transcript was given in the state that the calls before it left. -/
theorem mem_transcript {call : σ → ε → σ × α} {s : σ} {events : List ε} {event : ε} {answer : α}
    (h : (event, answer) ∈ transcript call s events) :
    ∃ before after, events = before ++ event :: after ∧
      answer = (call (finalState call s before) event).2 := by
  induction events generalizing s with
  | nil => cases h
  | cons first events ih =>
    rw [transcript_cons, List.mem_cons] at h
    rcases h with hfirst | hrest
    · obtain ⟨rfl, rfl⟩ := Prod.mk.inj hfirst
      exact ⟨[], events, rfl, rfl⟩
    · obtain ⟨before, after, hevents, hanswer⟩ := ih hrest
      exact ⟨first :: before, after, congrArg (first :: ·) hevents, hanswer⟩

end Runs
