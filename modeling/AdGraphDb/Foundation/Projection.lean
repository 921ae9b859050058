import AdGraphDb.Foundation.Action
import AdGraphDb.Foundation.Simulation

/-!
# Two versions of a method

A method that runs on two kinds of states does the same on both if a projection from
one kind to the other commutes with it.
-/

namespace AdGraphDb
namespace Action

variable {ε S T U α β : Type}

/-- The second action does on the image of the state what the first does on the state. -/
def Projects (π : S → T) (a : Action ε S α) (b : Action ε T α) (s : S) : Prop :=
  b (π s) = ((a s).1, π (a s).2)

namespace Projects

variable {π : S → T} {s : S}

theorem pure (v : α) : Projects π (Pure.pure v : Action ε S α) (Pure.pure v) s := rfl

theorem throw (e : ε) : Projects π (Action.throw e : Action ε S α) (Action.throw e) s := rfl

theorem read {f : S → α} {g : T → α} (h : g (π s) = f s) :
    Projects π (Action.read f : Action ε S α) (Action.read g) s :=
  congrArg (fun v => (Except.ok v, π s)) h

theorem modify {f : S → S} {g : T → T} (h : g (π s) = π (f s)) :
    Projects π (Action.modify f : Action ε S Unit) (Action.modify g) s :=
  congrArg (Prod.mk (Except.ok ())) h

/-- A method of a field that both kinds of states have. -/
theorem on {p : Field S U} {q : Field T U} (hget : q.get (π s) = p.get s)
    (hset : ∀ t, q.set t (π s) = π (p.set t s)) (a : Action ε U α) :
    Projects π (Action.on p a) (Action.on q a) s := by
  unfold Projects Action.on
  rw [hget, hset]

theorem attempt {a : Action ε S α} {b : Action ε T α} (h : Projects π a b s) :
    Projects π (Action.attempt a) (Action.attempt b) s :=
  congrArg (fun p : Except ε α × T => (Except.ok (), p.2)) h

/-- What the first step does may be used for the second. -/
theorem bind {a : Action ε S α} {b : Action ε T α} {f : α → Action ε S β} {g : α → Action ε T β}
    (ha : Projects π a b s) (hf : ∀ v s', a s = (.ok v, s') → Projects π (f v) (g v) s') :
    Projects π (a >>= f) (b >>= g) s := by
  unfold Projects at ha ⊢
  rw [bind_apply, bind_apply, ha]
  cases h : a s with
  | mk r s' =>
    cases r with
    | ok v => exact hf v s' h
    | error e => rfl

/-- What is read may be of two kinds, too. -/
theorem bind_read {γ : Type} {f : S → α} {g : T → γ} {k : α → Action ε S β}
    {l : γ → Action ε T β} (h : Projects π (k (f s)) (l (g (π s))) s) :
    Projects π (Action.read f >>= k) (Action.read g >>= l) s := h

theorem bind_modify {f : S → S} {g : T → T} {k : Unit → Action ε S β} {l : Unit → Action ε T β}
    (hf : g (π s) = π (f s)) (h : Projects π (k ()) (l ()) (f s)) :
    Projects π (Action.modify f >>= k) (Action.modify g >>= l) s := by
  unfold Projects
  change l () (g (π s)) = _
  rw [hf]
  exact h

theorem bind_update {f : S → α × S} {g : T → α × T} {k : α → Action ε S β}
    {l : α → Action ε T β} (hf : g (π s) = ((f s).1, π (f s).2))
    (h : Projects π (k (f s).1) (l (f s).1) (f s).2) :
    Projects π (Action.update f >>= k) (Action.update g >>= l) s := by
  unfold Projects
  change l (g (π s)).1 (g (π s)).2 = _
  rw [hf]
  exact h

theorem forEach {ι : Type*} {f : ι → Action ε S Unit} {g : ι → Action ε T Unit}
    (hf : ∀ x s, Projects π (f x) (g x) s) (l : List ι) (s : S) :
    Projects π (Action.forEach f l) (Action.forEach g l) s := by
  induction l generalizing s with
  | nil => exact .pure ()
  | cons x l ih => exact (hf x s).bind fun _ s' _ => ih s'

end Projects

end Action

namespace Machine

variable {S T I O : Type*}

/-- A machine whose steps, from the states of an invariant and on the inputs of a
condition, another machine does on the images of the states. -/
theorem run_project {step : I → S → O × S} {step' : I → T → O × T} {π : S → T}
    {Inv : S → Prop} {P : I → T → Prop}
    (hstep : ∀ i s, Inv s → P i (π s) →
      step' i (π s) = ((step i s).1, π (step i s).2) ∧ Inv (step i s).2)
    {inputs : List I} {s : S} (hs : Inv s) (h : Along P step' inputs (π s)) :
    run step' inputs (π s) = ((run step inputs s).1, π (run step inputs s).2) ∧
      Inv (run step inputs s).2 := by
  induction inputs generalizing s with
  | nil => exact ⟨rfl, hs⟩
  | cons i inputs ih =>
    obtain ⟨heq, hinv⟩ := hstep i s hs h.1
    have htail := h.2
    rw [heq] at htail
    obtain ⟨hrun, hend⟩ := ih hinv htail
    refine ⟨?_, hend⟩
    rw [run, run, heq, hrun]

end Machine

end AdGraphDb
