import Mathlib.Logic.Function.Basic

/-! # Programs with Status Codes and Undefined Behaviour

    A shallow embedding of imperative code that changes a state, may stop
    early with an error status, and may run into undefined behaviour.

    The state is kept when a program fails: what a failing call has already
    written stays written. A fault has no final state.

    * `Prog`: the monad, with loops and a lens for parts of the state.
    * `Outcome.Sat`: postconditions, one rule per construct.
    * `ReadOnly`, `Keeps`: programs that leave the state or a part of it alone.
    * `Preserves`: programs that keep an invariant, however they end.
-/

namespace Framework

/-! ## Section 1: Outcomes -/

/-- The result of running a program: a normal return, an early return of
    an error status, or undefined behaviour. -/
inductive Outcome (ε φ σ α : Type) where
  /-- A normal return with a value. -/
  | ok (a : α) (s : σ)
  /-- An early return with an error status; the state stays as it is then. -/
  | fail (e : ε) (s : σ)
  /-- There is no final state. -/
  | fault (f : φ)

namespace Outcome

variable {ε φ σ τ α β : Type}

def bind (o : Outcome ε φ σ α) (f : α → σ → Outcome ε φ σ β) : Outcome ε φ σ β :=
  match o with
  | ok a s => f a s
  | fail e s => fail e s
  | fault x => fault x

@[simp] theorem bind_ok (a : α) (s : σ) (f : α → σ → Outcome ε φ σ β) :
    (ok a s).bind f = f a s := rfl

@[simp] theorem bind_fail (e : ε) (s : σ) (f : α → σ → Outcome ε φ σ β) :
    (fail e s).bind f = fail e s := rfl

@[simp] theorem bind_fault (x : φ) (f : α → σ → Outcome ε φ σ β) :
    (fault x).bind f = fault x := rfl

/-- The state a program stops in, if its behaviour is defined. -/
def final : Outcome ε φ σ α → Option σ
  | ok _ s => some s
  | fail _ s => some s
  | fault _ => none

@[simp] theorem final_ok (a : α) (s : σ) :
    (ok a s : Outcome ε φ σ α).final = some s := rfl

@[simp] theorem final_fail (e : ε) (s : σ) :
    (fail e s : Outcome ε φ σ α).final = some s := rfl

@[simp] theorem final_fault (x : φ) :
    (fault x : Outcome ε φ σ α).final = none := rfl

/-- The call returned a value. -/
def succeeded : Outcome ε φ σ α → Bool
  | ok _ _ => true
  | fail _ _ => false
  | fault _ => false

@[simp] theorem succeeded_ok (a : α) (s : σ) :
    (ok a s : Outcome ε φ σ α).succeeded = true := rfl

/-- A call that succeeded has a value and a final state. -/
theorem exists_of_succeeded {o : Outcome ε φ σ α} (h : o.succeeded = true) :
    ∃ a s, o = ok a s := by
  cases o with
  | ok a s => exact ⟨a, s, rfl⟩
  | fail e s => cases h
  | fault x => cases h

/-- The undefined behaviour a program runs into. -/
def faulted : Outcome ε φ σ α → Option φ
  | ok _ _ => none
  | fail _ _ => none
  | fault x => some x

/-- An outcome that shows a fault is that fault. -/
theorem eq_fault_of_faulted {o : Outcome ε φ σ α} {x : φ} (h : o.faulted = some x) :
    o = fault x := by
  cases o with
  | ok a s => cases h
  | fail e s => cases h
  | fault y => rw [Option.some.inj h]

/-- A sequence succeeds if both of its parts do. -/
theorem exists_of_bind {o : Outcome ε φ σ α} {f : α → σ → Outcome ε φ σ β} {b : β} {t : σ}
    (h : o.bind f = ok b t) : ∃ a s, o = ok a s ∧ f a s = ok b t := by
  match o, h with
  | ok a s, h => exact ⟨a, s, rfl, h⟩

/-- Apply a function to the final state. -/
def mapState (f : σ → τ) : Outcome ε φ σ α → Outcome ε φ τ α
  | ok a s => ok a (f s)
  | fail e s => fail e (f s)
  | fault x => fault x

@[simp] theorem mapState_ok (f : σ → τ) (a : α) (s : σ) :
    (ok a s : Outcome ε φ σ α).mapState f = ok a (f s) := rfl

@[simp] theorem mapState_fail (f : σ → τ) (e : ε) (s : σ) :
    (fail e s : Outcome ε φ σ α).mapState f = fail e (f s) := rfl

@[simp] theorem mapState_fault (f : σ → τ) (x : φ) :
    (fault x : Outcome ε φ σ α).mapState f = fault x := rfl

/-- Success of a call on a part of the state is success of the call itself. -/
theorem exists_of_mapState {f : σ → τ} {o : Outcome ε φ σ α} {a : α} {t : τ}
    (h : o.mapState f = ok a t) : ∃ s, o = ok a s ∧ f s = t := by
  match o, h with
  | ok a s, rfl => exact ⟨s, rfl, rfl⟩

/-- Postcondition of an outcome: `Q` on normal return, `E` on a failing
    status, `F` on undefined behaviour. -/
def Sat (Q : α → σ → Prop) (E : ε → σ → Prop) (F : φ → Prop) :
    Outcome ε φ σ α → Prop
  | ok a s => Q a s
  | fail e s => E e s
  | fault x => F x

@[simp] theorem sat_ok {Q : α → σ → Prop} {E : ε → σ → Prop} {F : φ → Prop}
    {a : α} {s : σ} : (ok a s).Sat Q E F ↔ Q a s := Iff.rfl

@[simp] theorem sat_fail {Q : α → σ → Prop} {E : ε → σ → Prop} {F : φ → Prop}
    {e : ε} {s : σ} : (fail e s).Sat Q E F ↔ E e s := Iff.rfl

@[simp] theorem sat_fault {Q : α → σ → Prop} {E : ε → σ → Prop} {F : φ → Prop}
    {x : φ} : (fault x).Sat Q E F ↔ F x := Iff.rfl

/-- The rule of sequencing: the first part establishes what the second one needs. -/
theorem Sat.bind {o : Outcome ε φ σ α} {f : α → σ → Outcome ε φ σ β}
    {R : α → σ → Prop} {Q : β → σ → Prop} {E : ε → σ → Prop} {F : φ → Prop}
    (ho : o.Sat R E F) (hf : ∀ a s, R a s → (f a s).Sat Q E F) :
    (o.bind f).Sat Q E F := by
  cases o with
  | ok a s => exact hf a s ho
  | fail e s => exact ho
  | fault x => exact ho

/-- **Consequence rule** for postconditions. -/
theorem Sat.mono {o : Outcome ε φ σ α} {Q Q' : α → σ → Prop}
    {E E' : ε → σ → Prop} {F F' : φ → Prop} (ho : o.Sat Q E F)
    (hQ : ∀ a s, Q a s → Q' a s) (hE : ∀ e s, E e s → E' e s)
    (hF : ∀ x, F x → F' x) : o.Sat Q' E' F' := by
  cases o with
  | ok a s => exact hQ a s ho
  | fail e s => exact hE e s ho
  | fault x => exact hF x ho

/-- Two postconditions at once. -/
theorem Sat.and {o : Outcome ε φ σ α} {Q Q' : α → σ → Prop} {E E' : ε → σ → Prop}
    {F F' : φ → Prop} (h : o.Sat Q E F) (h' : o.Sat Q' E' F') :
    o.Sat (fun a s => Q a s ∧ Q' a s) (fun e s => E e s ∧ E' e s) (fun x => F x ∧ F' x) := by
  cases o with
  | ok a s => exact ⟨h, h'⟩
  | fail e s => exact ⟨h, h'⟩
  | fault x => exact ⟨h, h'⟩

/-- Every outcome is of one of the three kinds. -/
theorem not_sat_false (o : Outcome ε φ σ α) :
    ¬ o.Sat (fun _ _ => False) (fun _ _ => False) (fun _ => False) := by
  cases o with
  | ok a s => exact fun h => h
  | fail e s => exact fun h => h
  | fault x => exact fun h => h

/-- Without undefined behaviour a program returns or fails. -/
theorem Sat.ok_or_fail {o : Outcome ε φ σ α} {Q : α → σ → Prop} {E : ε → σ → Prop}
    (h : o.Sat Q E fun _ => False) :
    (∃ a s, o = ok a s ∧ Q a s) ∨ ∃ e s, o = fail e s ∧ E e s := by
  match o, h with
  | ok a s, h => exact Or.inl ⟨a, s, rfl, h⟩
  | fail e s, h => exact Or.inr ⟨e, s, rfl, h⟩

/-- The condition for success is what a return shows and a failure refutes. -/
theorem Sat.succeeded_iff {o : Outcome ε φ σ α} {Q : α → σ → Prop} {E : ε → σ → Prop} {P : Prop}
    (h : o.Sat Q E fun _ => False) (hok : ∀ a s, Q a s → P) (hfail : ∀ e s, E e s → ¬ P) :
    o.succeeded = true ↔ P := by
  rcases h.ok_or_fail with ⟨a, s, rfl, hQ⟩ | ⟨e, s, rfl, hE⟩
  · exact ⟨fun _ => hok a s hQ, fun _ => rfl⟩
  · exact ⟨fun h => absurd h Bool.false_ne_true, fun hP => absurd hP (hfail e s hE)⟩

/-- A call that never faults has no fault. -/
theorem Sat.faulted_eq_none {o : Outcome ε φ σ α} {Q : α → σ → Prop} {E : ε → σ → Prop}
    (h : o.Sat Q E fun _ => False) : o.faulted = none := by
  rcases h.ok_or_fail with ⟨a, s, rfl, -⟩ | ⟨e, s, rfl, -⟩
  · rfl
  · rfl

/-- A call that never faults has a final state. -/
theorem Sat.final_ne_none {o : Outcome ε φ σ α} {Q : α → σ → Prop} {E : ε → σ → Prop}
    (h : o.Sat Q E fun _ => False) : o.final ≠ none := by
  rcases h.ok_or_fail with ⟨a, s, rfl, -⟩ | ⟨e, s, rfl, -⟩
  · exact nofun
  · exact nofun

/-- The final state of a call on a part of the state. -/
theorem final_mapState (f : σ → τ) (o : Outcome ε φ σ α) :
    (o.mapState f).final = o.final.map f := by
  cases o with
  | ok a s => rfl
  | fail e s => rfl
  | fault x => rfl

/-- A postcondition that does not mention the result is one on the final state. -/
theorem Sat.final {o : Outcome ε φ σ α} {P : σ → Prop} {F : φ → Prop} {s : σ}
    (ho : o.Sat (fun _ => P) (fun _ => P) F) (hs : o.final = some s) : P s := by
  cases o with
  | ok a s' => cases hs; exact ho
  | fail e s' => cases hs; exact ho
  | fault x => cases hs

end Outcome

/-! ## Section 2: Programs -/

/-- A program over the state `σ`. -/
def Prog (ε φ σ α : Type) : Type := σ → Outcome ε φ σ α

namespace Prog

variable {ε φ σ τ α β ι : Type}

instance : Monad (Prog ε φ σ) where
  pure a := fun s => .ok a s
  bind p f := fun s => (p s).bind f

@[simp] theorem pure_run (a : α) (s : σ) :
    (pure a : Prog ε φ σ α) s = .ok a s := rfl

@[simp] theorem bind_run (p : Prog ε φ σ α) (f : α → Prog ε φ σ β) (s : σ) :
    (p >>= f) s = (p s).bind fun a s' => f a s' := rfl

theorem bind_pure_eq (p : Prog ε φ σ α) : (p >>= fun a => pure a) = p := by
  funext s
  rw [bind_run]
  cases p s with
  | ok a s' => rfl
  | fail e s' => rfl
  | fault x => rfl

@[simp] theorem ite_run (c : Prop) [Decidable c] (p q : Prog ε φ σ α) (s : σ) :
    (if c then p else q) s = if c then p s else q s := by
  split <;> rfl

/-- The current state. -/
def readState : Prog ε φ σ σ := fun s => .ok s s

/-- Replace the state by its image. -/
def modifyState (f : σ → σ) : Prog ε φ σ Unit := fun s => .ok () (f s)

/-- Return early with a failing status. -/
def returnStatus (e : ε) : Prog ε φ σ α := fun s => .fail e s

/-- Undefined behaviour. -/
def undefinedBehaviour (x : φ) : Prog ε φ σ α := fun _ => .fault x

/-- A call that only reads: its failing status is returned to the caller. -/
def ofExcept : Except ε α → Prog ε φ σ α
  | .ok a => pure a
  | .error e => returnStatus e

@[simp] theorem readState_run (s : σ) :
    (readState : Prog ε φ σ σ) s = .ok s s := rfl

@[simp] theorem modifyState_run (f : σ → σ) (s : σ) :
    (modifyState f : Prog ε φ σ Unit) s = .ok () (f s) := rfl

@[simp] theorem returnStatus_run (e : ε) (s : σ) :
    (returnStatus e : Prog ε φ σ α) s = .fail e s := rfl

@[simp] theorem undefinedBehaviour_run (x : φ) (s : σ) :
    (undefinedBehaviour x : Prog ε φ σ α) s = .fault x := rfl

@[simp] theorem ofExcept_ok_run (a : α) (s : σ) :
    (ofExcept (.ok a) : Prog ε φ σ α) s = .ok a s := rfl

@[simp] theorem ofExcept_error_run (e : ε) (s : σ) :
    (ofExcept (.error e) : Prog ε φ σ α) s = .fail e s := rfl

/-- Run a program on a part of the state. -/
def zoom (get : σ → τ) (put : σ → τ → σ) (p : Prog ε φ τ α) : Prog ε φ σ α :=
  fun s => (p (get s)).mapState (put s)

@[simp] theorem zoom_run (get : σ → τ) (put : σ → τ → σ) (p : Prog ε φ τ α) (s : σ) :
    zoom get put p s = (p (get s)).mapState (put s) := rfl

/-- `for` loop: the body runs for every index in order, and a failing
    status leaves the loop. -/
def forEach : List ι → (ι → Prog ε φ σ Unit) → Prog ε φ σ Unit
  | [], _ => pure ()
  | i :: is, body => do
    body i
    forEach is body

@[simp] theorem forEach_nil_run (body : ι → Prog ε φ σ Unit) (s : σ) :
    forEach [] body s = .ok () s := rfl

@[simp] theorem forEach_cons_run (i : ι) (is : List ι) (body : ι → Prog ε φ σ Unit)
    (s : σ) :
    forEach (i :: is) body s = (body i s).bind fun _ s' => forEach is body s' := rfl

/-- Run `p`; if it returns a failing status, run `cleanup`, whose own
    status is ignored, and return that status. -/
def onFailure (p : Prog ε φ σ α) (cleanup : Prog ε φ σ Unit) : Prog ε φ σ α :=
  fun s =>
    match p s with
    | .ok a s' => .ok a s'
    | .fault x => .fault x
    | .fail e s' =>
        match cleanup s' with
        | .ok _ s'' => .fail e s''
        | .fail _ s'' => .fail e s''
        | .fault x => .fault x

/-- The clean-up does not run after success. -/
theorem onFailure_of_ok {p cleanup} {a : α} {s s' : σ}
    (h : (p : Prog ε φ σ α) s = .ok a s') : onFailure p cleanup s = .ok a s' := by
  simp [onFailure, h]

/-- Run `p` and go on with its status, as a caller does that looks at it. -/
def attempt {δ : Type} (p : Prog ε φ σ α) : Prog δ φ σ (Except ε α) :=
  fun s =>
    match p s with
    | .ok a s' => .ok (.ok a) s'
    | .fail e s' => .ok (.error e) s'
    | .fault x => .fault x

/-- The status of a call that succeeded is taken. -/
theorem attempt_of_ok {δ : Type} {p : Prog ε φ σ α} {a : α} {s s' : σ} (h : p s = .ok a s') :
    (attempt p : Prog δ φ σ _) s = .ok (.ok a) s' := by
  simp [attempt, h]

/-- The status of a call that failed is taken, and its state kept. -/
theorem attempt_of_fail {δ : Type} {p : Prog ε φ σ α} {e : ε} {s s' : σ}
    (h : p s = .fail e s') : (attempt p : Prog δ φ σ _) s = .ok (.error e) s' := by
  simp [attempt, h]

/-- Undefined behaviour cannot be caught. -/
theorem attempt_of_fault {δ : Type} {p : Prog ε φ σ α} {x : φ} {s : σ} (h : p s = .fault x) :
    (attempt p : Prog δ φ σ (Except ε α)) s = .fault x := by
  simp [attempt, h]

/-! ### Loops and postconditions -/

/-- **Loop rule**: an assertion on the remaining indices that every
    iteration passes on to the next one. -/
theorem forEach_sat {body : ι → Prog ε φ σ Unit} {E : ε → σ → Prop} {F : φ → Prop}
    (I : List ι → σ → Prop)
    (hbody : ∀ i is s, I (i :: is) s → (body i s).Sat (fun _ => I is) E F)
    (is : List ι) (s : σ) (h : I is s) :
    (forEach is body s).Sat (fun _ => I []) E F := by
  -- The invariant is threaded through the rounds; a round that fails ends the loop.
  induction is generalizing s with
  | nil => exact h
  | cons i is ih =>
    rw [forEach_cons_run]
    exact (hbody i is s h).bind fun _ s' hs' => ih s' hs'

/-- A program's postcondition carries over to the larger state. -/
theorem zoom_sat {get : σ → τ} {put : σ → τ → σ} {p : Prog ε φ τ α} {s : σ}
    {Q : α → σ → Prop} {E : ε → σ → Prop} {F : φ → Prop}
    (h : (p (get s)).Sat (fun a t => Q a (put s t)) (fun e t => E e (put s t)) F) :
    (zoom get put p s).Sat Q E F := by
  rw [zoom_run]
  cases hp : p (get s) with
  | ok a t => rw [hp] at h; exact h
  | fail e t => rw [hp] at h; exact h
  | fault x => rw [hp] at h; exact h

/-! ### Programs that only read -/

/-- The program leaves the state alone, and its behaviour is defined. -/
def ReadOnly (p : Prog ε φ σ α) : Prop :=
  ∀ s, (p s).Sat (fun _ s' => s' = s) (fun _ s' => s' = s) (fun _ => False)

namespace ReadOnly

variable {p : Prog ε φ σ α} {f : α → Prog ε φ σ β}

theorem pure (a : α) : ReadOnly (Pure.pure a : Prog ε φ σ α) := fun _ => rfl

theorem readState : ReadOnly (Prog.readState : Prog ε φ σ σ) := fun _ => rfl

theorem returnStatus (e : ε) : ReadOnly (Prog.returnStatus e : Prog ε φ σ α) := fun _ => rfl

theorem ofExcept (x : Except ε α) : ReadOnly (Prog.ofExcept x : Prog ε φ σ α) := by
  cases x with
  | ok a => exact pure a
  | error e => exact returnStatus e

theorem bind (hp : ReadOnly p) (hf : ∀ a, ReadOnly (f a)) : ReadOnly (p >>= f) := by
  intro s
  rw [bind_run]
  apply (hp s).bind
  intro a s' hs'
  subst hs'
  exact hf a s'

theorem ite {c : Prop} [Decidable c] {q : Prog ε φ σ α} (hp : ReadOnly p) (hq : ReadOnly q) :
    ReadOnly (if c then p else q) := by
  split
  · exact hp
  · exact hq

/-- An early return in front of the rest of the program. -/
theorem guard {c : Prop} [Decidable c] {e : ε} (hp : ReadOnly p) :
    ReadOnly (if c then (Prog.returnStatus e : Prog ε φ σ β) >>= fun _ => p else p) :=
  ((returnStatus e).bind fun _ => hp).ite hp

/-- A part that is put back unchanged changes nothing. -/
theorem zoom {get : σ → τ} {put : σ → τ → σ} {p : Prog ε φ τ α} (hp : ReadOnly p)
    (hput : ∀ s, put s (get s) = s) : ReadOnly (Prog.zoom get put p) := by
  intro s
  apply zoom_sat
  apply (hp (get s)).mono
  · intro a t ht
    rw [ht, hput]
  · intro e t ht
    rw [ht, hput]
  · exact fun _ hF => hF

end ReadOnly

/-! ### Programs that keep an invariant -/

/-- Every state the program ends in satisfies the invariant if its first state does. -/
def Preserves (I : σ → Prop) (p : Prog ε φ σ α) : Prop :=
  ∀ s, I s → (p s).Sat (fun _ => I) (fun _ => I) (fun _ => True)

namespace Preserves

variable {I : σ → Prop} {p : Prog ε φ σ α} {f : α → Prog ε φ σ β}

theorem final {s s' : σ} (h : Preserves I p) (hs : I s) (hfinal : (p s).final = some s') :
    I s' := (h s hs).final hfinal

theorem of_readOnly (h : ReadOnly p) : Preserves I p := by
  intro s hs
  apply (h s).mono
  · intro a s' heq
    rw [heq]
    exact hs
  · intro e s' heq
    rw [heq]
    exact hs
  · exact fun _ _ => trivial

theorem pure (a : α) : Preserves I (Pure.pure a : Prog ε φ σ α) := of_readOnly (ReadOnly.pure a)

theorem returnStatus (e : ε) : Preserves I (Prog.returnStatus e : Prog ε φ σ α) :=
  of_readOnly (ReadOnly.returnStatus e)

theorem undefinedBehaviour (x : φ) : Preserves I (Prog.undefinedBehaviour x : Prog ε φ σ α) :=
  fun _ _ => trivial

theorem modifyState {g : σ → σ} (h : ∀ s, I s → I (g s)) :
    Preserves I (Prog.modifyState g : Prog ε φ σ Unit) := h

theorem bind (hp : Preserves I p) (hf : ∀ a, Preserves I (f a)) : Preserves I (p >>= f) :=
  fun s hs => (hp s hs).bind fun a s' hs' => hf a s' hs'

/-- The rest of the program after the state has been read. -/
theorem readState {f : σ → Prog ε φ σ β} (hf : ∀ s, Preserves I (f s)) :
    Preserves I (Prog.readState >>= f) := (of_readOnly ReadOnly.readState).bind hf

theorem ofExcept {x : Except ε α} (hf : ∀ a, Preserves I (f a)) :
    Preserves I (Prog.ofExcept x >>= f) := (of_readOnly (ReadOnly.ofExcept x)).bind hf

theorem ite {c : Prop} [Decidable c] {q : Prog ε φ σ α} (hp : Preserves I p)
    (hq : Preserves I q) : Preserves I (if c then p else q) := by
  split
  · exact hp
  · exact hq

/-- An early return in front of the rest of the program. -/
theorem guard {c : Prop} [Decidable c] {e : ε} (hp : Preserves I p) :
    Preserves I (if c then (Prog.returnStatus e : Prog ε φ σ β) >>= fun _ => p else p) :=
  ((returnStatus e).bind fun _ => hp).ite hp

theorem forEach {body : ι → Prog ε φ σ Unit} (h : ∀ i, Preserves I (body i)) (is : List ι) :
    Preserves I (Prog.forEach is body) :=
  fun s hs => forEach_sat (fun _ => I) (fun i _ s hs => h i s hs) is s hs

/-- A program on a part of the state keeps what its final states there satisfy. -/
theorem zoom {get : σ → τ} {put : σ → τ → σ} {p : Prog ε φ τ α}
    (h : ∀ s t, I s → (p (get s)).final = some t → I (put s t)) :
    Preserves I (Prog.zoom get put p) := by
  intro s hs
  apply zoom_sat
  cases hp : p (get s) with
  | ok a t => exact h s t hs (by rw [hp]; rfl)
  | fail e t => exact h s t hs (by rw [hp]; rfl)
  | fault x => trivial

end Preserves

/-! ### What programs return -/

/-- The value that the program returns from this state, if it returns one. -/
def Returns (P : α → Prop) (p : Prog ε φ σ α) (s : σ) : Prop :=
  (p s).Sat (fun a _ => P a) (fun _ _ => True) (fun _ => True)

namespace Returns

variable {P Q : α → Prop} {R : β → Prop} {p q : Prog ε φ σ α} {f : α → Prog ε φ σ β} {s : σ}

theorem mono (hp : Returns P p s) (h : ∀ a, P a → Q a) : Returns Q p s :=
  Outcome.Sat.mono hp (fun a _ => h a) (fun _ _ h => h) fun _ h => h

theorem of_forall (h : ∀ a, P a) (p : Prog ε φ σ α) (s : σ) : Returns P p s := by
  unfold Returns
  cases p s with
  | ok a s' => exact h a
  | fail e s' => trivial
  | fault x => trivial

theorem bind (hp : Returns P p s) (hf : ∀ a s', P a → Returns R (f a) s') :
    Returns R (p >>= f) s :=
  Outcome.Sat.bind hp hf

/-- The rest of the program, whatever the first part returns. -/
theorem after (p : Prog ε φ σ α) (hf : ∀ a s', Returns R (f a) s') : Returns R (p >>= f) s :=
  bind (of_forall (fun _ => trivial) p s) fun a s' (_ : True) => hf a s'

theorem ite {c : Prop} [Decidable c] (hp : c → Returns P p s) (hq : ¬ c → Returns P q s) :
    Returns P (if c then p else q) s := by
  split
  · next hc => exact hp hc
  · next hc => exact hq hc

/-- An early return in front of the rest of the program. -/
theorem guard {c : Prop} [Decidable c] {e : ε} (hp : ¬ c → Returns P p s) :
    Returns P (if c then (Prog.returnStatus e : Prog ε φ σ β) >>= fun _ => p else p) s :=
  ite (fun _ => trivial) hp

end Returns

end Prog

end Framework
