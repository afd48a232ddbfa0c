import Mathlib.Data.List.Forall2
import VirtualFS.Framework.Runs

/-! # Forward Simulation

    One system refines another one if its runs are runs of the other one, with
    the same labels. Labels carry what can be observed of a step, so that
    nothing an observer sees tells the two systems apart.

    * `Refines`: initial states are related, and single steps are matched.
    * `Refines.steps`: so are whole runs.
    * `Steps.matched`: the same for labels that are related, not equal.
-/

namespace Framework

namespace System

variable {σ τ Op : Type} {sys : System σ Op} {abs : System τ Op} {R : σ → τ → Prop}

/-- Initial states are related, and each step is matched by one with the same label. -/
structure Refines (sys : System σ Op) (abs : System τ Op) (R : σ → τ → Prop) : Prop where
  /-- Every initial state has a partner. -/
  init : ∀ s, sys.init s → ∃ t, abs.init t ∧ R s t
  /-- A step from related reachable states has a partner with the same label. -/
  step : ∀ s t op s', sys.Reachable s → abs.Reachable t → R s t → sys.step s op s' →
    ∃ t', abs.step t op t' ∧ R s' t'

namespace Refines

/-- **Runs are matched** from related states on. -/
theorem steps (h : Refines sys abs R) {s s' : σ} {t : τ} {ops : List Op}
    (hrun : sys.Steps s ops s') (hs : sys.Reachable s) (ht : abs.Reachable t) (hR : R s t) :
    ∃ t', abs.Steps t ops t' ∧ abs.Reachable t' ∧ R s' t' := by
  -- The abstract run is built step by step, the relation carried along.
  induction hrun generalizing t with
  | nil s => exact ⟨t, Steps.nil t, ht, hR⟩
  | cons op ops hstep _ ih =>
    obtain ⟨t₁, hstep', hR₁⟩ := h.step _ t op _ hs ht hR hstep
    have ht₁ := ht.step op hstep'
    obtain ⟨t', hrun', ht', hR'⟩ := ih (hs.step op hstep) ht₁ hR₁
    exact ⟨t', Steps.cons op ops hstep' hrun', ht', hR'⟩

end Refines

/-- **Runs are matched up to labels**: steps with good labels are matched from related states
    on, by steps with related labels. -/
theorem Steps.matched {Good : Op → Prop} {L : Op → Op → Prop}
    (hmatch : ∀ s t op s', sys.Reachable s → abs.Reachable t → R s t → Good op →
      sys.step s op s' → ∃ op' t', L op op' ∧ abs.step t op' t' ∧ R s' t')
    {s s' : σ} {t : τ} {ops : List Op} (hrun : sys.Steps s ops s') (hs : sys.Reachable s)
    (ht : abs.Reachable t) (hR : R s t) (hgood : ∀ op ∈ ops, Good op) :
    ∃ ops' t', List.Forall₂ L ops ops' ∧ abs.Steps t ops' t' ∧ R s' t' := by
  -- As above, with a label of its own for each step of the second run.
  induction hrun generalizing t with
  | nil s => exact ⟨[], t, List.Forall₂.nil, Steps.nil t, hR⟩
  | cons op ops hstep _ ih =>
    have hop := hgood op (List.mem_cons_self ..)
    obtain ⟨op', t₁, hL, hstep', hR₁⟩ := hmatch _ t op _ hs ht hR hop hstep
    obtain ⟨ops', t', hLs, hrun', hR'⟩ := ih (hs.step op hstep) (ht.step op' hstep') hR₁
      fun op₁ h₁ => hgood op₁ (List.mem_cons_of_mem op h₁)
    exact ⟨op' :: ops', t', List.Forall₂.cons hL hLs, Steps.cons op' ops' hstep' hrun', hR'⟩

end System

end Framework
