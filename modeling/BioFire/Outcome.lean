import Mathlib.Order.Lattice
import Mathlib.Data.Nat.Init
import Mathlib.Data.Fintype.Pigeonhole
import Mathlib.Data.Set.Finite.Basic
import Mathlib.Logic.Relation
import Mathlib.Order.Monotone.Basic

/-!
# Fuelled computations that may throw

A computation whose loops may not end is a family of runs indexed by fuel.
`Below o o'` says that `o'` is `o` unless `o` ran out of fuel.

* `Below.bind`, `Below.loop`: sequences and loops respect `Below`, so a family
  built from them is `Steady`: more fuel does not change a result;
* `Settles`: what a family answers with enough fuel, a value, an exception or
  no end; for sequences and loops it is found part by part;
* `loop_endless`: a loop whose rounds keep an invariant and all go on;
* `loop_counter_returns_iff`: a loop whose state is the number of the round;
* `exists_cycle`: a walk in a finite set that can always go on comes back.
-/

namespace BioFire

/-- Result of a fuelled call: out of fuel, an exception, or a value. -/
inductive Outcome (ε α : Type) where
  | running
  | throws (e : ε)
  | returns (a : α)

namespace Outcome

variable {ε α β σ : Type}

def bind (o : Outcome ε α) (f : α → Outcome ε β) : Outcome ε β :=
  match o with
  | running => running
  | throws e => throws e
  | returns a => f a

/-- A step without loops. -/
def ofExcept : Except ε α → Outcome ε α
  | .error e => throws e
  | .ok a => returns a

/-- Rounds of `body` until it answers with a result; one unit of fuel each. -/
def loop (body : σ → Outcome ε (σ ⊕ β)) : Nat → σ → Outcome ε β
  | 0, _ => running
  | n + 1, s => (body s).bind fun
    | .inl s' => loop body n s'
    | .inr b => returns b

/-- An outcome without a value, as an outcome of any call. -/
def stop (o : Outcome ε Empty) : Outcome ε α := o.bind Empty.elim

@[simp] theorem bind_running (f : α → Outcome ε β) : bind running f = running := rfl
@[simp] theorem bind_throws (e : ε) (f : α → Outcome ε β) : bind (throws e) f = throws e := rfl
@[simp] theorem bind_returns (a : α) (f : α → Outcome ε β) : bind (returns a) f = f a := rfl
@[simp] theorem ofExcept_error (e : ε) : ofExcept (.error e : Except ε α) = throws e := rfl
@[simp] theorem ofExcept_ok (a : α) : ofExcept (.ok a : Except ε α) = returns a := rfl

@[simp] theorem stop_running : (stop running : Outcome ε α) = running := rfl
@[simp] theorem stop_throws (e : ε) : (stop (throws e) : Outcome ε α) = throws e := rfl

@[simp] theorem bind_stop (o : Outcome ε Empty) (f : α → Outcome ε β) :
    bind o.stop f = o.stop := by
  cases o with
  | running => rfl
  | throws e => rfl
  | returns a => exact a.elim

theorem stop_ne_returns (o : Outcome ε Empty) (a : α) : o.stop ≠ returns a := by
  cases o with
  | running => simp
  | throws e => simp
  | returns a => exact a.elim

theorem bind_eq_returns {o : Outcome ε α} {f : α → Outcome ε β} {b : β}
    (h : o.bind f = returns b) : ∃ a, o = returns a ∧ f a = returns b := by
  cases o with
  | running => cases h
  | throws e => cases h
  | returns a => exact ⟨a, rfl, h⟩

theorem ofExcept_eq_returns {x : Except ε α} {a : α} (h : ofExcept x = returns a) :
    x = .ok a := by
  cases x with
  | error e => cases h
  | ok b => cases h; rfl

/-- `o'` is `o`, unless `o` ran out of fuel. -/
def Below (o o' : Outcome ε α) : Prop := o ≠ running → o' = o

theorem Below.refl (o : Outcome ε α) : Below o o := fun _ => rfl

theorem Below.bind {o o' : Outcome ε α} {f f' : α → Outcome ε β} (ho : Below o o')
    (hf : ∀ a, Below (f a) (f' a)) : Below (o.bind f) (o'.bind f') := by
  intro h
  cases o with
  | running => exact absurd rfl h
  | throws e => rw [ho (by simp)]; rfl
  | returns a => rw [ho (by simp)]; exact hf a h

theorem Below.loop {body body' : σ → Outcome ε (σ ⊕ β)} (hb : ∀ s, Below (body s) (body' s))
    {n m : Nat} (hnm : n ≤ m) (s : σ) : Below (loop body n s) (loop body' m s) := by
  induction n generalizing m s with
  | zero => exact fun h => absurd rfl h
  | succ n ih =>
    obtain ⟨m, rfl⟩ : ∃ k, m = k + 1 := ⟨m - 1, by omega⟩
    refine Below.bind (hb s) ?_
    rintro (s' | b)
    · exact ih (by omega) s'
    · exact Below.refl _

end Outcome

open Outcome

variable {ε α β σ : Type}

/-- More fuel does not change a result. -/
def Steady (run : Nat → Outcome ε α) : Prop := ∀ n m, n ≤ m → Below (run n) (run m)

/-- Some amount of fuel ends the call, by a value or by an exception. -/
def Finishes (run : Nat → Outcome ε α) : Prop := ∃ n, run n ≠ .running

/-- The call returns `a`. -/
def Returns (run : Nat → Outcome ε α) (a : α) : Prop := ∃ n, run n = .returns a

/-- The call throws `e`. -/
def Throws (run : Nat → Outcome ε α) (e : ε) : Prop := ∃ n, run n = .throws e

/-- With enough fuel the answer is `o`: a value, an exception, or no end. -/
def Settles (run : Nat → Outcome ε α) (o : Outcome ε α) : Prop := ∃ n, ∀ m, n ≤ m → run m = o

theorem Settles.unique {run : Nat → Outcome ε α} {o o' : Outcome ε α} (h : Settles run o)
    (h' : Settles run o') : o = o' := by
  obtain ⟨n, hn⟩ := h
  obtain ⟨n', hn'⟩ := h'
  rw [← hn _ (Nat.le_max_left n n'), hn' _ (Nat.le_max_right n n')]

theorem settles_const (o : Outcome ε α) : Settles (fun _ => o) o := ⟨0, fun _ _ => rfl⟩

theorem Settles.succ {run : Nat → Outcome ε α} {o : Outcome ε α}
    (h : Settles (fun n => run (n + 1)) o) : Settles run o := by
  obtain ⟨n, hn⟩ := h
  refine ⟨n + 1, fun m hm => ?_⟩
  obtain ⟨k, rfl⟩ : ∃ k, m = k + 1 := ⟨m - 1, by omega⟩
  exact hn k (by omega)

namespace Steady

variable {run : Nat → Outcome ε α}

theorem settles (h : Steady run) {n : Nat} (hn : run n ≠ .running) : Settles run (run n) :=
  ⟨n, fun m hm => h n m hm hn⟩

theorem settles_iff (h : Steady run) {o : Outcome ε α} (ho : o ≠ .running) :
    Settles run o ↔ ∃ n, run n = o := by
  constructor
  · rintro ⟨n, hn⟩
    exact ⟨n, hn n (Nat.le_refl n)⟩
  · rintro ⟨n, rfl⟩
    exact h.settles ho

theorem settles_returns_iff (h : Steady run) {a : α} : Settles run (.returns a) ↔ Returns run a :=
  h.settles_iff (by simp)

theorem settles_throws_iff (h : Steady run) {e : ε} : Settles run (.throws e) ↔ Throws run e :=
  h.settles_iff (by simp)

theorem settles_running_iff (h : Steady run) : Settles run .running ↔ ¬ Finishes run := by
  constructor
  · rintro hrunning ⟨n, hn⟩
    exact hn ((h.settles hn).unique hrunning)
  · intro hfin
    exact ⟨0, fun m _ => not_not.mp fun hm => hfin ⟨m, hm⟩⟩

end Steady

/-! ## Sequences and loops -/

theorem Settles.bind {f : Nat → Outcome ε α} {g : Nat → α → Outcome ε β} {a : α}
    {o : Outcome ε β} (hf : Settles f (.returns a)) (hg : Settles (fun n => g n a) o) :
    Settles (fun n => (f n).bind (g n)) o := by
  obtain ⟨n, hn⟩ := hf
  obtain ⟨n', hn'⟩ := hg
  refine ⟨max n n', fun m hm => ?_⟩
  simp only [hn m (by omega), bind_returns, hn' m (by omega)]

theorem Settles.bind_stop {f : Nat → Outcome ε α} {o : Outcome ε Empty}
    (g : Nat → α → Outcome ε β) (hf : Settles f o.stop) :
    Settles (fun n => (f n).bind (g n)) o.stop := by
  obtain ⟨n, hn⟩ := hf
  exact ⟨n, fun m hm => by simp only [hn m hm, Outcome.bind_stop]⟩

section Loop

variable {body : Nat → σ → Outcome ε (σ ⊕ β)}

theorem settles_loop_pred (hb : ∀ s, Steady fun n => body n s) {s : σ} {o : Outcome ε β}
    (h : Settles (fun n => loop (body n) n s) o) :
    Settles (fun n => loop (body (n + 1)) n s) o := by
  obtain ⟨n, hn⟩ := h
  refine ⟨n, fun m hm => ?_⟩
  change loop (body (m + 1)) m s = o
  have hless : loop (body m) m s = o := hn m hm
  have hfewer : Below (loop (body m) m s) (loop (body (m + 1)) m s) :=
    Below.loop (fun t => hb t _ _ (by omega)) (Nat.le_refl m) s
  have hmore : Below (loop (body (m + 1)) m s) (loop (body (m + 1)) (m + 1) s) :=
    Below.loop (fun t => Below.refl _) (by omega) s
  by_cases hrunning : o = .running
  · subst hrunning
    by_contra hne
    have hlast : loop (body (m + 1)) (m + 1) s = .running := hn (m + 1) (by omega)
    exact hne ((hmore hne).symm.trans hlast)
  · rw [hfewer (by rwa [hless]), hless]

theorem Settles.loop_next (hb : ∀ s, Steady fun n => body n s) {s s' : σ} {o : Outcome ε β}
    (hround : Settles (fun n => body n s) (.returns (.inl s')))
    (hrest : Settles (fun n => loop (body n) n s') o) :
    Settles (fun n => loop (body n) n s) o := by
  refine Settles.succ (Settles.bind (a := Sum.inl s') ?_ (settles_loop_pred hb hrest))
  obtain ⟨n, hn⟩ := hround
  exact ⟨n, fun m hm => hn (m + 1) (by omega)⟩

theorem Settles.loop_stop {s : σ} {o : Outcome ε Empty}
    (hround : Settles (fun n => body n s) o.stop) :
    Settles (fun n => loop (body n) n s) o.stop := by
  refine Settles.succ (Settles.bind_stop _ ?_)
  obtain ⟨n, hn⟩ := hround
  exact ⟨n, fun m hm => hn (m + 1) (by omega)⟩

/-- **Endless loops.** Every round keeps the invariant `P` and goes on. -/
theorem loop_endless (hb : ∀ s, Steady fun n => body n s) (P : σ → Prop)
    (hstep : ∀ s, P s → ∃ s', P s' ∧ Settles (fun n => body n s) (.returns (.inl s'))) {s : σ}
    (hs : P s) : Settles (fun n => loop (body n) n s) .running := by
  refine ⟨0, fun m _ => ?_⟩
  have hall : ∀ k s, P s → loop (body m) k s = .running := by
    intro k
    induction k with
    | zero => exact fun _ _ => rfl
    | succ k ih =>
      intro s hs
      obtain ⟨s', hs', hround⟩ := hstep s hs
      by_cases hm : body m s = .running
      · rw [loop, hm, Outcome.bind_running]
      · rw [loop, ((hb s).settles hm).unique hround, bind_returns]
        exact ih s' hs'
  exact hall m s hs

/-- **Counting loops.** A loop that goes on by counting returns in its first round with a
result. -/
theorem loop_counter_returns_iff {body : ℕ → Outcome ε (ℕ ⊕ β)}
    (hcount : ∀ {k k'}, body k = .returns (.inl k') → k' = k + 1) {fuel k : ℕ} {b : β} :
    loop body fuel k = .returns b ↔
      ∃ n < fuel, (∀ j < n, body (k + j) = .returns (.inl (k + j + 1))) ∧
        body (k + n) = .returns (.inr b) := by
  induction fuel generalizing k with
  | zero => simp [Outcome.loop]
  | succ fuel ih =>
    rw [Outcome.loop]
    constructor
    · intro h
      obtain ⟨next, hround, h⟩ := Outcome.bind_eq_returns h
      cases next with
      | inl k' =>
        obtain rfl := hcount hround
        obtain ⟨n, hn, hbefore, hlast⟩ := ih.mp h
        refine ⟨n + 1, by omega, ?_, ?_⟩
        · intro j hj
          cases j with
          | zero => exact hround
          | succ j =>
            have hround' := hbefore j (by omega)
            rwa [show k + 1 + j = k + (j + 1) by omega] at hround'
        · rwa [show k + 1 + n = k + (n + 1) by omega] at hlast
      | inr b' =>
        cases h
        exact ⟨0, by omega, fun j hj => absurd hj (Nat.not_lt_zero j), hround⟩
    · rintro ⟨n, hn, hbefore, hlast⟩
      cases n with
      | zero =>
        rw [Nat.add_zero] at hlast
        rw [hlast]
        rfl
      | succ n =>
        have hround := hbefore 0 (by omega)
        rw [Nat.add_zero] at hround
        rw [hround]
        refine ih.mpr ⟨n, by omega, fun j hj => ?_, ?_⟩
        · have hround' := hbefore (j + 1) (by omega)
          rwa [show k + (j + 1) = k + 1 + j by omega] at hround'
        · rwa [show k + (n + 1) = k + 1 + n by omega] at hlast

end Loop

/-- **Walks in a finite set.** A walk that can always go on comes back to where it was. -/
theorem exists_cycle {α : Type} {R : α → α → Prop} {points : Set α} (hfinite : points.Finite)
    {a : α} (hnext : ∀ x, Relation.ReflTransGen R a x → x ∈ points ∧ ∃ y, R x y) :
    ∃ c, Relation.ReflTransGen R a c ∧ Relation.TransGen R c c := by
  choose hmem next hR using hnext
  let walk : ℕ → {x // Relation.ReflTransGen R a x} :=
    Nat.rec ⟨a, .refl⟩ fun _ x => ⟨next x.1 x.2, x.2.tail (hR x.1 x.2)⟩
  have hwalk : ∀ n, R (walk n).1 (walk (n + 1)).1 := fun n => hR (walk n).1 (walk n).2
  have := hfinite.to_subtype
  obtain ⟨i, j, hij, heq⟩ := Finite.exists_ne_map_eq_of_infinite
    fun n => (⟨(walk n).1, hmem _ (walk n).2⟩ : points)
  have hcycle : ∀ {i j}, i < j → (walk i).1 = (walk j).1 →
      Relation.TransGen R (walk i).1 (walk i).1 := by
    intro i j hlt heq
    have hpath := Nat.rel_of_forall_rel_succ_of_lt (Relation.TransGen R)
      (fun n => Relation.TransGen.single (hwalk n)) hlt
    rwa [← heq] at hpath
  replace heq : (walk i).1 = (walk j).1 := congrArg (fun p : points => p.1) heq
  rcases Nat.lt_or_gt_of_ne hij with hlt | hlt
  · exact ⟨_, (walk i).2, hcycle hlt heq⟩
  · exact ⟨_, (walk j).2, hcycle hlt heq.symm⟩

end BioFire
