import VirtualFS.Framework.Prog

/-! # Runs of a Transition System

    A system is an initial predicate and a labelled step relation. This file
    has its finite runs and reachable states, the invariant rule, the
    simulation rule with stuttering, and the system whose steps are the
    program of each operation, ending in any status.

    * `Reachable.invariant`: what holds at the start and is kept by steps.
    * `Reachable.simulates`: a step of one system is matched by some of the other.
    * `Prog.system`: operations with a precondition, run as programs. An operation
      that faults has no step, so a run is a run without undefined behaviour.
    * `Prog.runAll`: runs that can be computed, with `exists_of_run` to state what
      a computed run reaches.
-/

namespace Framework

/-- A transition system with labelled steps. -/
structure System (σ Op : Type) where
  /-- The states that a run may start in. -/
  init : σ → Prop
  /-- What a step with a label may do. -/
  step : σ → Op → σ → Prop

namespace System

variable {σ τ Op Op' : Type}

/-! ## Section 1: Runs and reachable states -/

inductive Steps (sys : System σ Op) : σ → List Op → σ → Prop where
  | nil  : ∀ s, Steps sys s [] s
  | cons : ∀ {s s' s'' : σ} (op : Op) (ops : List Op),
             sys.step s op s' → Steps sys s' ops s'' → Steps sys s (op :: ops) s''

inductive Reachable (sys : System σ Op) : σ → Prop where
  | init : ∀ {s}, sys.init s → Reachable sys s
  | step : ∀ {s s'} op, Reachable sys s → sys.step s op s' → Reachable sys s'

/-- Runs are joined. -/
theorem Steps.append {sys : System σ Op} {s s' s'' : σ} {ops ops' : List Op}
    (h : sys.Steps s ops s') (h' : sys.Steps s' ops' s'') : sys.Steps s (ops ++ ops') s'' := by
  induction h with
  | nil s => exact h'
  | cons op ops hstep _ ih => exact Steps.cons op _ hstep (ih h')

/-- A run from a reachable state ends in a reachable state. -/
theorem Steps.reachable {sys : System σ Op} {s s' : σ} {ops : List Op}
    (h : sys.Steps s ops s') (h₀ : sys.Reachable s) : sys.Reachable s' := by
  induction h with
  | nil s => exact h₀
  | cons op ops hstep _ ih => exact ih (h₀.step op hstep)

/-! ## Section 2: Proof rules -/

/-- **Invariant rule.** The step may use that its start state is reachable. -/
theorem Reachable.invariant {sys : System σ Op} {I : σ → Prop}
    (hinit : ∀ s, sys.init s → I s)
    (hstep : ∀ s op s', sys.Reachable s → I s → sys.step s op s' → I s')
    {s : σ} (h : sys.Reachable s) : I s := by
  -- On the run: it holds at the start, and every step keeps it.
  induction h with
  | init h₀ => exact hinit _ h₀
  | step op hreach hs ih => exact hstep _ op _ hreach ih hs

/-- **Simulation rule.** If every step of a reachable concrete state is, through
    `f`, an abstract step or a stutter, then `f` maps reachable states to
    reachable states. -/
theorem Reachable.simulates {sys : System σ Op} {abs : System τ Op'} {f : σ → τ}
    (hinit : ∀ s, sys.init s → abs.Reachable (f s))
    (hstep : ∀ s op s', sys.Reachable s → abs.Reachable (f s) → sys.step s op s' →
      f s' = f s ∨ ∃ op', abs.step (f s) op' (f s'))
    {s : σ} (h : sys.Reachable s) : abs.Reachable (f s) := by
  refine h.invariant (I := fun s => abs.Reachable (f s)) hinit ?_
  intro s op s' hreach hf hs
  rcases hstep s op s' hreach hf hs with heq | ⟨op', hop⟩
  · rw [heq]; exact hf
  · exact hf.step op' hop

end System

/-! ## Section 3: Systems of programs -/

section programs

variable {ε φ σ Op α : Type}

/-- The system whose steps run the program of an admissible operation to a
    defined end, successful or not. -/
def Prog.system (init : σ → Prop) (admissible : σ → Op → Prop)
    (exec : Op → Prog ε φ σ α) : System σ Op where
  init := init
  step := fun s op s' => admissible s op ∧ (exec op s).final = some s'

/-- Run a list of operations, each of them admissible and run to a defined end. -/
def Prog.runAll (admissible : σ → Op → Prop) [∀ s op, Decidable (admissible s op)]
    (exec : Op → Prog ε φ σ α) : List Op → σ → Option σ
  | [], s => some s
  | op :: ops, s =>
    if admissible s op then (exec op s).final.bind (Prog.runAll admissible exec ops) else none

/-- A computed run is a run. -/
theorem Prog.steps_of_runAll {init : σ → Prop} {admissible : σ → Op → Prop}
    [∀ s op, Decidable (admissible s op)] {exec : Op → Prog ε φ σ α} {ops : List Op}
    {s s' : σ} (h : Prog.runAll admissible exec ops s = some s') :
    (Prog.system init admissible exec).Steps s ops s' := by
  -- Each operation run is a step of the system, because its precondition has been tested.
  induction ops generalizing s with
  | nil => cases h; exact System.Steps.nil _
  | cons op ops ih =>
    unfold Prog.runAll at h
    split at h
    · next hop =>
      obtain ⟨s₁, h₁, h₂⟩ := Option.bind_eq_some_iff.mp h
      exact System.Steps.cons op ops ⟨hop, h₁⟩ (ih h₂)
    · cases h

/-- A fact about the final state of a run that follows from what can be evaluated. -/
theorem exists_of_run {run : Option σ} {Q R : σ → Prop} [DecidablePred Q]
    (hrun : run.any (fun s => decide (Q s)) = true) (h : ∀ s, run = some s → Q s → R s) :
    ∃ s, run = some s ∧ R s := by
  obtain ⟨s, hs, hQ⟩ := (Option.any_eq_true _ _).mp hrun
  exact ⟨s, hs, h s hs (of_decide_eq_true hQ)⟩

end programs

end Framework
