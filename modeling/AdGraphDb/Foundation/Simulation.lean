import Mathlib.Data.List.Forall2

/-!
# Runs of a machine and of a relation

A machine answers every input and moves on. It refines a transition relation when a
relation between its states and the relation's states, which may also speak of the
inputs to come, is kept by every step.
-/

namespace AdGraphDb

namespace Machine

variable {S I O A : Type*}

/-- The answers to a list of inputs, and the last state. -/
def run (step : I → S → O × S) : List I → S → List O × S
  | [], s => ([], s)
  | i :: inputs, s =>
    ((step i s).1 :: (run step inputs (step i s).2).1, (run step inputs (step i s).2).2)

/-- Every step of the run meets a condition on its input and on the state before it. -/
def Along (P : I → S → Prop) (step : I → S → O × S) : List I → S → Prop
  | [], _ => True
  | i :: inputs, s => P i s ∧ Along P step inputs (step i s).2

instance decidableAlong {P : I → S → Prop} [∀ i s, Decidable (P i s)] (step : I → S → O × S) :
    ∀ inputs s, Decidable (Along P step inputs s)
  | [], _ => .isTrue trivial
  | i :: inputs, s =>
    have := decidableAlong (P := P) step inputs (step i s).2
    inferInstanceAs (Decidable (P i s ∧ Along P step inputs (step i s).2))

/-- What is seen before each step. -/
def trace {B : Type*} (f : I → S → B) (step : I → S → O × S) : List I → S → List B
  | [], _ => []
  | i :: inputs, s => f i s :: trace f step inputs (step i s).2

/-- The runs of a relation, with the inputs and the outputs of their steps. -/
inductive Runs (Step : A → I → O → A → Prop) : A → List I → List O → A → Prop
  | nil (a : A) : Runs Step a [] [] a
  | cons {a b c : A} {i : I} {o : O} {inputs : List I} {outputs : List O} :
    Step a i o b → Runs Step b inputs outputs c → Runs Step a (i :: inputs) (o :: outputs) c

/-- What every transition keeps holds at the end of a run. -/
theorem Runs.keeps {Step : A → I → O → A → Prop} {P : I → Prop} {Inv : A → Prop}
    (hstep : ∀ a i o b, Step a i o b → P i → Inv a → Inv b) {a b : A} {inputs : List I}
    {outputs : List O} (h : Runs Step a inputs outputs b) (hP : ∀ i ∈ inputs, P i) (ha : Inv a) :
    Inv b := by
  induction h with
  | nil => exact ha
  | cons hfirst hrest ih =>
    have hnext := hstep _ _ _ _ hfirst (hP _ List.mem_cons_self) ha
    exact ih (fun i hi => hP i (List.mem_cons_of_mem _ hi)) hnext

theorem length_run (step : I → S → O × S) (inputs : List I) (s : S) :
    (run step inputs s).1.length = inputs.length := by
  induction inputs generalizing s with
  | nil => rfl
  | cons i inputs ih => exact congrArg (· + 1) (ih _)

/-- What the steps keep under a condition holds at the end of a run that meets it. -/
theorem run_keeps {step : I → S → O × S} {P : I → S → Prop} {Inv : S → Prop}
    (hstep : ∀ i s, Inv s → P i s → Inv (step i s).2) {inputs : List I} {s : S} (hs : Inv s)
    (h : Along P step inputs s) : Inv (run step inputs s).2 := by
  induction inputs generalizing s with
  | nil => exact hs
  | cons i inputs ih => exact ih (hstep i s hs h.1) h.2

/-- What every step keeps holds at the end. -/
theorem run_preserves {step : I → S → O × S} {Inv : S → Prop}
    (hstep : ∀ i s, Inv s → Inv (step i s).2) (inputs : List I) {s : S} (hs : Inv s) :
    Inv (run step inputs s).2 := by
  induction inputs generalizing s with
  | nil => exact hs
  | cons i inputs ih => exact ih (hstep i s hs)

/-- A step-wise simulation is one of whole runs. -/
theorem runs_of_simulation {step : I → S → O × S} {Step : A → I → O → A → Prop}
    {R : List I → S → A → Prop}
    (hstep : ∀ i inputs s a, R (i :: inputs) s a →
      ∃ b, Step a i (step i s).1 b ∧ R inputs (step i s).2 b)
    {inputs : List I} {s : S} {a : A} (h : R inputs s a) :
    ∃ b, Runs Step a inputs (run step inputs s).1 b ∧ R [] (run step inputs s).2 b := by
  induction inputs generalizing s a with
  | nil => exact ⟨a, .nil a, h⟩
  | cons i inputs ih =>
    obtain ⟨b, hb, hr⟩ := hstep i inputs s a h
    obtain ⟨c, hc, hend⟩ := ih hr
    exact ⟨c, .cons hb hc, hend⟩

/-- What the states of a simulation grant holds before every step. -/
theorem along_of_simulation {step : I → S → O × S} {P : I → S → Prop} {R : List I → S → A → Prop}
    (hstep : ∀ i inputs s a, R (i :: inputs) s a → P i s ∧ ∃ b, R inputs (step i s).2 b)
    {inputs : List I} {s : S} {a : A} (h : R inputs s a) : Along P step inputs s := by
  induction inputs generalizing s a with
  | nil => trivial
  | cons i inputs ih =>
    obtain ⟨hi, b, hb⟩ := hstep i inputs s a h
    exact ⟨hi, ih hb⟩

/-- Two machines whose states stay related give the same answers. -/
theorem run_eq_of_simulation {T : Type*} {step : I → S → O × S} {step' : I → T → O × T}
    {R : List I → S → T → Prop}
    (hstep : ∀ i inputs s t, R (i :: inputs) s t →
      (step i s).1 = (step' i t).1 ∧ R inputs (step i s).2 (step' i t).2)
    {inputs : List I} {s : S} {t : T} (h : R inputs s t) :
    (run step inputs s).1 = (run step' inputs t).1 ∧
      R [] (run step inputs s).2 (run step' inputs t).2 := by
  induction inputs generalizing s t with
  | nil => exact ⟨rfl, h⟩
  | cons i inputs ih =>
    obtain ⟨ho, hr⟩ := hstep i inputs s t h
    obtain ⟨hos, hend⟩ := ih hr
    refine ⟨?_, hend⟩
    rw [run, run, ho, hos]

/-- Two machines on matching inputs, whose answers match at every step. -/
theorem run_forall₂ {J T O' : Type*} {step : I → S → O × S} {step' : J → T → O' × T}
    {P : I → J → Prop} {Q : O → O' → Prop} {R : List I → List J → S → T → Prop}
    (hstep : ∀ i j inputs inputs' s t, P i j → R (i :: inputs) (j :: inputs') s t →
      Q (step i s).1 (step' j t).1 ∧ R inputs inputs' (step i s).2 (step' j t).2)
    {inputs : List I} {inputs' : List J} (hin : List.Forall₂ P inputs inputs') {s : S} {t : T}
    (h : R inputs inputs' s t) :
    List.Forall₂ Q (run step inputs s).1 (run step' inputs' t).1 ∧
      R [] [] (run step inputs s).2 (run step' inputs' t).2 := by
  induction hin generalizing s t with
  | nil => exact ⟨.nil, h⟩
  | cons hij _ ih =>
    obtain ⟨ho, hr⟩ := hstep _ _ _ _ s t hij h
    obtain ⟨hos, hend⟩ := ih hr
    exact ⟨.cons ho hos, hend⟩

end Machine

end AdGraphDb
