import VirtualFS.Framework.Runs

/-! # Two Runs of One Program

    Statements about two runs of the same program from states that are
    related: both runs end alike, with the same result, in related states.
    Such programs compose, and a list of operations shows the same results
    from related states. This is the shape of "what is not related is never
    seen".

    * `Outcome.Agrees`: two outcomes look the same and end in related states.
    * `Prog.Agreeing`: a program agrees with itself from related states; there is
      one rule for each construct of `Prog`.
    * `Prog.runs_agree`: the same for lists of operations.
-/

namespace Framework

variable {ε φ σ τ α β ι Op : Type} {R : σ → σ → Prop}

/-! ## Section 1: Outcomes that agree -/

namespace Outcome

/-- What the caller of a program gets to know. -/
inductive Seen (ε φ α : Type) where
  | returned (a : α)
  | failed (e : ε)
  | undefined (x : φ)
  deriving DecidableEq

/-- What the caller sees of an outcome, without the state. -/
def seen : Outcome ε φ σ α → Seen ε φ α
  | ok a _ => .returned a
  | fail e _ => .failed e
  | fault x => .undefined x

/-- The same result in related states. -/
inductive Agrees (R : σ → σ → Prop) : Outcome ε φ σ α → Outcome ε φ σ α → Prop where
  | ok (a : α) {s t : σ} (h : R s t) : Agrees R (.ok a s) (.ok a t)
  | fail (e : ε) {s t : σ} (h : R s t) : Agrees R (.fail e s) (.fail e t)
  | fault (x : φ) : Agrees R (.fault x) (.fault x)

variable {o o' : Outcome ε φ σ α}

/-- Agreeing outcomes look the same. -/
theorem Agrees.seen_eq (h : Agrees R o o') : o.seen = o'.seen := by
  cases h with
  | ok a h => rfl
  | fail e h => rfl
  | fault x => rfl

/-- Agreeing outcomes end in related states. -/
theorem Agrees.final_rel (h : Agrees R o o') : Option.Rel R o.final o'.final := by
  cases h with
  | ok a h => exact Option.Rel.some h
  | fail e h => exact Option.Rel.some h
  | fault x => exact Option.Rel.none

/-- Outcomes that look the same and end in related states agree. -/
theorem agrees_of_seen (hseen : o.seen = o'.seen) (hfinal : Option.Rel R o.final o'.final) :
    Agrees R o o' := by
  cases o with
  | ok a s =>
    cases o' with
    | ok b t =>
      cases hseen
      cases hfinal with
      | some h => exact Agrees.ok a h
    | fail e t => cases hseen
    | fault x => cases hseen
  | fail e s =>
    cases o' with
    | ok b t => cases hseen
    | fail e' t =>
      cases hseen
      cases hfinal with
      | some h => exact Agrees.fail e h
    | fault x => cases hseen
  | fault x =>
    cases o' with
    | ok b t => cases hseen
    | fail e t => cases hseen
    | fault y =>
      cases hseen
      exact Agrees.fault x

/-- Agreement is kept by sequencing. -/
theorem Agrees.bind {f g : α → σ → Outcome ε φ σ β} (h : Agrees R o o')
    (hf : ∀ a s t, R s t → Agrees R (f a s) (g a t)) : Agrees R (o.bind f) (o'.bind g) := by
  cases h with
  | ok a h => exact hf a _ _ h
  | fail e h => exact Agrees.fail e h
  | fault x => exact Agrees.fault x

/-- Outcomes on a part of the state, in states that differ elsewhere as well. -/
theorem Agrees.mapState {R' : τ → τ → Prop} {f g : σ → τ} (h : Agrees R o o')
    (hfg : ∀ s t, R s t → R' (f s) (g t)) : Agrees R' (o.mapState f) (o'.mapState g) := by
  cases h with
  | ok a h => exact Agrees.ok a (hfg _ _ h)
  | fail e h => exact Agrees.fail e (hfg _ _ h)
  | fault x => exact Agrees.fault x

end Outcome

open Outcome

/-! ## Section 2: Programs that agree with themselves -/

/-- From related states, the program ends alike. -/
def Prog.Agreeing (R : σ → σ → Prop) (p : Prog ε φ σ α) : Prop :=
  ∀ s t, R s t → Agrees R (p s) (p t)

namespace Prog.Agreeing

variable {p q : Prog ε φ σ α} {f : α → Prog ε φ σ β}

theorem pure (a : α) : Agreeing R (Pure.pure a : Prog ε φ σ α) :=
  fun _ _ h => Agrees.ok a h

theorem returnStatus (e : ε) : Agreeing R (Prog.returnStatus e : Prog ε φ σ α) :=
  fun _ _ h => Agrees.fail e h

theorem undefinedBehaviour (x : φ) : Agreeing R (Prog.undefinedBehaviour x : Prog ε φ σ α) :=
  fun _ _ _ => Agrees.fault x

theorem ofExcept (x : Except ε α) : Agreeing R (Prog.ofExcept x : Prog ε φ σ α) := by
  cases x with
  | ok a => exact pure a
  | error e => exact returnStatus e

theorem bind (hp : Agreeing R p) (hf : ∀ a, Agreeing R (f a)) : Agreeing R (p >>= f) := by
  intro s t hst
  rw [bind_run, bind_run]
  exact (hp s t hst).bind fun a s' t' h => hf a s' t' h

/-- What is known of the value that is returned may be used from there on. -/
theorem bind_returned {P : α → Prop} (hp : Agreeing R p)
    (hP : ∀ s t, R s t → Prog.Returns P p s)
    (hf : ∀ a, P a → Agreeing R (f a)) : Agreeing R (p >>= f) := by
  intro s t hst
  have hagrees := hp s t hst
  have hreturned : (p s).Sat (fun a _ => P a) (fun _ _ => True) (fun _ => True) := hP s t hst
  rw [bind_run, bind_run]
  generalize p s = o at hagrees hreturned ⊢
  generalize p t = o' at hagrees ⊢
  cases hagrees with
  | ok a h => exact hf a hreturned _ _ h
  | fail e h => exact Agrees.fail e h
  | fault x => exact Agrees.fault x

/-- A caller that looks at the status sees the same one. -/
theorem attempt {δ : Type} (hp : Agreeing R p) :
    Agreeing R (Prog.attempt p : Prog δ φ σ (Except ε α)) := by
  intro s t hst
  have hagrees := hp s t hst
  unfold Prog.attempt
  generalize p s = o at hagrees ⊢
  generalize p t = o' at hagrees ⊢
  cases hagrees with
  | ok a h => exact Agrees.ok _ h
  | fail e h => exact Agrees.ok _ h
  | fault x => exact Agrees.fault x

theorem ite {c : Prop} [Decidable c] (hp : Agreeing R p) (hq : Agreeing R q) :
    Agreeing R (if c then p else q) := by
  split
  · exact hp
  · exact hq

/-- An early return in front of a program that relies on the condition being false. -/
theorem guard_neg {c : Prop} [Decidable c] {e : ε} (hp : ¬ c → Agreeing R p) :
    Agreeing R (if c then (Prog.returnStatus e : Prog ε φ σ β) >>= fun _ => p else p) := by
  split
  · exact fun _ _ h => Agrees.fail e h
  · next hc => exact hp hc

/-- An early return in front of the rest of the program. -/
theorem guard {c : Prop} [Decidable c] {e : ε} (hp : Agreeing R p) :
    Agreeing R (if c then (Prog.returnStatus e : Prog ε φ σ β) >>= fun _ => p else p) :=
  guard_neg fun _ => hp

/-- **Read rule.** What is read decides what is done next: that must be the same
    in related states. -/
theorem read {f : σ → Prog ε φ σ α} (hf : ∀ s, Agreeing R (f s))
    (hsame : ∀ s t, R s t → f t = f s) : Agreeing R (readState >>= f) := by
  intro s t hst
  rw [bind_run, bind_run, readState_run, readState_run, bind_ok, bind_ok, hsame s t hst]
  exact hf s s t hst

/-- A change that respects the relation agrees with itself. -/
theorem modifyState {g : σ → σ} (hg : ∀ s t, R s t → R (g s) (g t)) :
    Agreeing R (Prog.modifyState g : Prog ε φ σ Unit) :=
  fun s t hst => Agrees.ok () (hg s t hst)

/-- **Loop rule.** -/
theorem forEach {body : ι → Prog ε φ σ Unit} (hbody : ∀ i, Agreeing R (body i)) (is : List ι) :
    Agreeing R (Prog.forEach is body) := by
  induction is with
  | nil => exact pure ()
  | cons i is ih => exact (hbody i).bind fun _ => ih

/-- A program on a part of the state. -/
theorem zoom {R' : τ → τ → Prop} {get : σ → τ} {put : σ → τ → σ} {p : Prog ε φ τ α}
    (hp : Agreeing R' p) (hget : ∀ s t, R s t → R' (get s) (get t))
    (hput : ∀ s t u v, R s t → R' u v → R (put s u) (put t v)) :
    Agreeing R (Prog.zoom get put p) := by
  intro s t hst
  rw [zoom_run, zoom_run]
  exact (hp _ _ (hget s t hst)).mapState fun u v huv => hput s t u v hst huv

/-- Every program agrees with itself on equal states. -/
theorem of_eq (p : Prog ε φ σ α) : Agreeing Eq p := by
  intro s t hst
  subst hst
  cases p s with
  | ok a s' => exact Agrees.ok a rfl
  | fail e s' => exact Agrees.fail e rfl
  | fault x => exact Agrees.fault x

end Prog.Agreeing

/-! ## Section 3: Runs -/

/-- What the caller sees of a list of operations. The run goes on after a failing
    status, and stops at undefined behaviour. -/
def Prog.seenAll (exec : Op → Prog ε φ σ α) : List Op → σ → List (Seen ε φ α)
  | [], _ => []
  | op :: ops, s =>
    (exec op s).seen :: (exec op s).final.elim [] (Prog.seenAll exec ops)

/-- **Two-run rule.** Operations that end alike from related states, as long as the
    first one is well-formed, show the same in whole runs. -/
theorem Prog.runs_agree {exec : Op → Prog ε φ σ α} {I : σ → Prop}
    (hagree : ∀ op s t, I s → R s t → Agrees R (exec op s) (exec op t))
    (hstep : ∀ op s s', I s → (exec op s).final = some s' → I s')
    (ops : List Op) {s t : σ} (hs : I s) (hst : R s t) :
    Prog.seenAll exec ops s = Prog.seenAll exec ops t ∧
      Option.Rel R (Prog.runAll (fun _ _ => True) exec ops s)
        (Prog.runAll (fun _ _ => True) exec ops t) := by
  induction ops generalizing s t with
  | nil => exact ⟨rfl, Option.Rel.some hst⟩
  | cons op ops ih =>
    -- one operation shows the same, and then both runs go on or both stop
    have hop := hagree op s t hs hst
    have hseen := hop.seen_eq
    have hfinal := hop.final_rel
    simp only [Prog.seenAll, Prog.runAll, if_true]
    rw [hseen]
    generalize hos : (exec op s).final = os at hfinal ⊢
    generalize (exec op t).final = ot at hfinal ⊢
    cases hfinal with
    | none => exact ⟨rfl, Option.Rel.none⟩
    | some hst' =>
      obtain ⟨htail, hlast⟩ := ih (hstep op s _ hs hos) hst'
      exact ⟨congrArg _ htail, hlast⟩

end Framework
