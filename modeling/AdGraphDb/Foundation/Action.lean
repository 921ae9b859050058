import Mathlib.Tactic

/-!
# Fallible actions on a state

A method with `&mut self` that returns a `Result` is a function from states to a
result and a state; what it changed before an error stays changed. `Returns` is the
total-correctness triple of such methods.
-/

namespace AdGraphDb

def Action (ε S α : Type) : Type := S → Except ε α × S

namespace Action

variable {ε S T α β : Type}

protected def bind (a : Action ε S α) (f : α → Action ε S β) : Action ε S β := fun s =>
  match a s with
  | (.ok v, s') => f v s'
  | (.error e, s') => (.error e, s')

instance : Monad (Action ε S) where
  pure v := fun s => (.ok v, s)
  bind := Action.bind

def throw (e : ε) : Action ε S α := fun s => (.error e, s)

def modify (f : S → S) : Action ε S Unit := fun s => (.ok (), f s)

/-- A method with `&self`. -/
def read (f : S → α) : Action ε S α := fun s => (.ok (f s), s)

def tryRead (f : S → Except ε α) : Action ε S α := fun s => (f s, s)

/-- A method with `&mut self` that cannot fail. -/
def update (f : S → α × S) : Action ε S α := fun s => (.ok (f s).1, (f s).2)

/-- Drops an error, as `.ok()` does; the changes stay. -/
def attempt (a : Action ε S α) : Action ε S Unit := fun s => (.ok (), (a s).2)

/-- A field of a record. -/
structure Field (S T : Type) where
  get : S → T
  set : T → S → S

/-- A method of a field. -/
def on (p : Field S T) (a : Action ε T α) : Action ε S α := fun s =>
  ((a (p.get s)).1, p.set (a (p.get s)).2 s)

/-- `for x in l { f(x)?; }` -/
def forEach {ι : Type*} (f : ι → Action ε S Unit) : List ι → Action ε S Unit
  | [] => pure ()
  | x :: l => do
    f x
    forEach f l

/-- `for x in l { if let Some(y) = f(x)? { out.push(y); } }` -/
def filterMap {ι : Type*} (f : ι → Action ε S (Option β)) : List ι → Action ε S (List β)
  | [] => pure []
  | x :: l => do
    let y? ← f x
    let ys ← filterMap f l
    return y?.toList ++ ys

theorem pure_apply (v : α) (s : S) : (pure v : Action ε S α) s = (.ok v, s) := rfl

theorem bind_apply (a : Action ε S α) (f : α → Action ε S β) (s : S) :
    (a >>= f) s = match a s with
      | (.ok v, s') => f v s'
      | (.error e, s') => (.error e, s') := rfl

theorem bind_ok {a : Action ε S α} {f : α → Action ε S β} {s s' : S} {v : α}
    (h : a s = (.ok v, s')) : (a >>= f) s = f v s' := by
  rw [bind_apply, h]

theorem bind_error {a : Action ε S α} {f : α → Action ε S β} {s s' : S} {e : ε}
    (h : a s = (.error e, s')) : (a >>= f) s = (.error e, s') := by
  rw [bind_apply, h]

/-- Rewrapping the result leaves the state. -/
theorem snd_bind_return (a : Action ε S α) (r : α → β) (s : S) :
    ((do return r (← a) : Action ε S β) s).2 = (a s).2 := by
  rw [bind_apply]
  cases a s with
  | mk v s' => cases v <;> rfl

theorem on_ok {p : Field S T} {a : Action ε T α} {s : S} {v : α} {t : T}
    (h : a (p.get s) = (.ok v, t)) : on p a s = (.ok v, p.set t s) := by
  rw [on, h]

/-- A method of a field either fails or hands over to the rest. -/
theorem bind_on_cases (p : Field S T) (a : Action ε T α) (f : α → Action ε S β) (s : S) :
    (∃ v t, a (p.get s) = (.ok v, t) ∧ (on p a >>= f) s = f v (p.set t s)) ∨
      ∃ e t, a (p.get s) = (.error e, t) ∧ (on p a >>= f) s = (.error e, p.set t s) := by
  cases h : a (p.get s) with
  | mk r t =>
    cases r with
    | ok v => exact .inl ⟨v, t, rfl, bind_ok (by rw [on, h])⟩
    | error e => exact .inr ⟨e, t, rfl, bind_error (by rw [on, h])⟩

theorem bind_tryRead {f : S → Except ε α} {g : α → Action ε S β} {s : S} {v : α}
    (h : f s = .ok v) : (tryRead f >>= g) s = g v s := by
  apply bind_ok
  rw [tryRead, h]

/-! ## Triples -/

/-- From `s` the action succeeds, with a result and a state that satisfy `Q`. -/
def Returns (a : Action ε S α) (s : S) (Q : α → S → Prop) : Prop :=
  ∃ v s', a s = (.ok v, s') ∧ Q v s'

theorem Returns.pure {v : α} {s : S} {Q : α → S → Prop} (h : Q v s) :
    Returns (ε := ε) (pure v) s Q := ⟨v, s, rfl, h⟩

theorem Returns.bind {a : Action ε S α} {f : α → Action ε S β} {s : S} {P : α → S → Prop}
    {Q : β → S → Prop} (ha : Returns a s P) (hf : ∀ v s', P v s' → Returns (f v) s' Q) :
    Returns (a >>= f) s Q := by
  obtain ⟨v, s', h, hp⟩ := ha
  obtain ⟨w, s'', h', hq⟩ := hf v s' hp
  exact ⟨w, s'', by rw [bind_ok h, h'], hq⟩

theorem Returns.mono {a : Action ε S α} {s : S} {P Q : α → S → Prop} (ha : Returns a s P)
    (h : ∀ v s', P v s' → Q v s') : Returns a s Q := by
  obtain ⟨v, s', he, hp⟩ := ha
  exact ⟨v, s', he, h v s' hp⟩

/-- The result of an action that returns is the one its triple speaks of. -/
theorem Returns.of_eq {a : Action ε S α} {s s' : S} {v : α} {Q : α → S → Prop}
    (h : Returns a s Q) (heq : a s = (.ok v, s')) : Q v s' := by
  obtain ⟨w, t, hrun, hq⟩ := h
  cases hrun.symm.trans heq
  exact hq

theorem Returns.modify {f : S → S} {s : S} {Q : Unit → S → Prop} (h : Q () (f s)) :
    Returns (ε := ε) (modify f) s Q := ⟨(), f s, rfl, h⟩

theorem Returns.read {f : S → α} {s : S} {Q : α → S → Prop} (h : Q (f s) s) :
    Returns (ε := ε) (read f) s Q := ⟨f s, s, rfl, h⟩

theorem Returns.attempt {a : Action ε S α} {s : S} {P : α → S → Prop} {Q : Unit → S → Prop}
    (ha : Returns a s P) (h : ∀ v s', P v s' → Q () s') : Returns (attempt a) s Q := by
  obtain ⟨v, s', he, hp⟩ := ha
  exact ⟨(), s', by rw [Action.attempt, he], h v s' hp⟩

/-! The steps of a method, one at a time. -/

theorem Returns.bind_modify {f : S → S} {g : Unit → Action ε S β} {s : S} {Q : β → S → Prop}
    (h : Returns (g ()) (f s) Q) : Returns (Action.modify f >>= g) s Q := h

theorem Returns.bind_read {f : S → α} {g : α → Action ε S β} {s : S} {Q : β → S → Prop}
    (h : Returns (g (f s)) s Q) : Returns (Action.read f >>= g) s Q := h

theorem Returns.bind_update {f : S → α × S} {g : α → Action ε S β} {s : S} {Q : β → S → Prop}
    (h : Returns (g (f s).1) (f s).2 Q) : Returns (Action.update f >>= g) s Q := h

theorem Returns.bind_on_update {p : Field S T} {f : T → α × T} {g : α → Action ε S β} {s : S}
    {Q : β → S → Prop} (h : Returns (g (f (p.get s)).1) (p.set (f (p.get s)).2 s) Q) :
    Returns (Action.on p (Action.update f) >>= g) s Q := h

theorem Returns.bind_tryRead {f : S → Except ε α} {g : α → Action ε S β} {s : S} {v : α}
    {Q : β → S → Prop} (hf : f s = .ok v) (h : Returns (g v) s Q) :
    Returns (Action.tryRead f >>= g) s Q := by
  obtain ⟨w, s', hg, hq⟩ := h
  exact ⟨w, s', (Action.bind_tryRead hf).trans hg, hq⟩

theorem Returns.bind_on {p : Field S T} {a : Action ε T α} {g : α → Action ε S β} {s : S}
    {P : α → T → Prop} {Q : β → S → Prop} (ha : Returns a (p.get s) P)
    (h : ∀ v t, P v t → Returns (g v) (p.set t s) Q) : Returns (Action.on p a >>= g) s Q := by
  obtain ⟨v, t, he, hp⟩ := ha
  obtain ⟨w, s', hg, hq⟩ := h v t hp
  exact ⟨w, s', by rw [bind_ok (v := v) (by rw [Action.on, he]), hg], hq⟩

/-- A collecting loop whose body answers `g` on every element. -/
theorem Returns.filterMap {ι : Type*} {f : ι → Action ε S (Option β)} {g : ι → Option β}
    {l : List ι} {s : S} {I : S → Prop} (h0 : I s)
    (hf : ∀ x ∈ l, ∀ s, I s → Returns (f x) s fun v s' => v = g x ∧ I s') :
    Returns (filterMap f l) s fun v s' => v = l.filterMap g ∧ I s' := by
  induction l generalizing s with
  | nil => exact .pure ⟨rfl, h0⟩
  | cons x l ih =>
    refine (hf x List.mem_cons_self s h0).bind ?_
    rintro v s' ⟨rfl, hs'⟩
    refine (ih hs' fun y hy => hf y (List.mem_cons_of_mem x hy)).bind ?_
    rintro w s'' ⟨rfl, hs''⟩
    refine .pure ⟨?_, hs''⟩
    cases hg : g x <;> simp [hg]

/-- The loop keeps what its body keeps. -/
theorem Returns.filterMap_inv {ι : Type*} {f : ι → Action ε S (Option β)} {I : S → Prop}
    (hf : ∀ x s, I s → Returns (f x) s fun _ s' => I s') (l : List ι) {s : S} (h0 : I s) :
    Returns (Action.filterMap f l) s fun _ s' => I s' := by
  induction l generalizing s with
  | nil => exact .pure h0
  | cons x l ih =>
    apply (hf x s h0).bind
    intro y? s' h
    apply (ih h).bind
    intro ys s'' h'
    exact .pure h'

/-! ## Failures -/

/-- What holds when the action fails. -/
def Raises (a : Action ε S α) (s : S) (Q : ε → S → Prop) : Prop :=
  ∀ e s', a s = (.error e, s') → Q e s'

namespace Raises

variable {s : S} {Q : ε → S → Prop}

theorem pure (v : α) : Raises (Pure.pure v : Action ε S α) s Q := fun _ _ h => by cases h

theorem of_ok {a : Action ε S α} {v : α} {s' : S} (h : a s = (.ok v, s')) : Raises a s Q := by
  intro e t he
  cases h.symm.trans he

theorem iff_of_error {a : Action ε S α} {e : ε} {s' : S} (h : a s = (.error e, s')) :
    Raises a s Q ↔ Q e s' := by
  refine ⟨fun hr => hr e s' h, fun hq e' t he => ?_⟩
  cases h.symm.trans he
  exact hq

theorem throw {e : ε} (h : Q e s) : Raises (Action.throw e : Action ε S α) s Q := by
  intro e' s' he
  cases he
  exact h

theorem attempt (a : Action ε S α) : Raises (Action.attempt a) s Q := fun _ _ h => by cases h

theorem bind {a : Action ε S α} {f : α → Action ε S β} (ha : Raises a s Q)
    (hf : ∀ v s', a s = (.ok v, s') → Raises (f v) s' Q) : Raises (a >>= f) s Q := by
  intro e s' h
  rw [bind_apply] at h
  cases hr : a s with
  | mk r t =>
    rw [hr] at h
    cases r with
    | ok v => exact hf v t hr e s' h
    | error e' =>
      cases h
      exact ha e s' hr

theorem bind_modify {f : S → S} {g : Unit → Action ε S β} (h : Raises (g ()) (f s) Q) :
    Raises (Action.modify f >>= g) s Q := h

theorem bind_read {f : S → α} {g : α → Action ε S β} (h : Raises (g (f s)) s Q) :
    Raises (Action.read f >>= g) s Q := h

theorem bind_update {f : S → α × S} {g : α → Action ε S β} (h : Raises (g (f s).1) (f s).2 Q) :
    Raises (Action.update f >>= g) s Q := h

theorem bind_on {p : Field S T} {a : Action ε T α} {g : α → Action ε S β}
    (ha : Raises a (p.get s) fun e t => Q e (p.set t s))
    (hg : ∀ v t, a (p.get s) = (.ok v, t) → Raises (g v) (p.set t s) Q) :
    Raises (Action.on p a >>= g) s Q := by
  intro e s' h
  rcases bind_on_cases p a g s with ⟨v, t, hr, hrun⟩ | ⟨e', t, hr, hrun⟩
  · rw [hrun] at h
    exact hg v t hr e s' h
  · rw [hrun] at h
    cases h
    exact ha e t hr

end Raises

/-! ## Frames -/

/-- Whatever it returns, the action leaves a part of the state alone. -/
def Keeps (a : Action ε S α) (part : S → β) : Prop := ∀ s, part (a s).2 = part s

namespace Keeps

variable {part : S → β} {γ : Type}

theorem pure (v : α) : Keeps (Pure.pure v : Action ε S α) part := fun _ => rfl

theorem read (f : S → α) : Keeps (Action.read f : Action ε S α) part := fun _ => rfl

theorem tryRead (f : S → Except ε α) : Keeps (Action.tryRead f) part := fun _ => rfl

theorem modify {f : S → S} (h : ∀ s, part (f s) = part s) :
    Keeps (Action.modify f : Action ε S Unit) part := h

theorem on {p : Field S T} (h : ∀ t s, part (p.set t s) = part s) (a : Action ε T α) :
    Keeps (Action.on p a) part := fun s => h _ s

theorem attempt {a : Action ε S α} (h : Keeps a part) : Keeps (Action.attempt a) part := h

theorem bind {a : Action ε S α} {f : α → Action ε S γ} (ha : Keeps a part)
    (hf : ∀ v, Keeps (f v) part) : Keeps (a >>= f) part := by
  intro s
  have h := ha s
  rw [bind_apply]
  cases hr : a s with
  | mk r s' =>
    rw [hr] at h
    cases r with
    | ok v => exact (hf v s').trans h
    | error e => exact h

theorem bind_modify {f : S → S} {g : Unit → Action ε S γ} (hf : ∀ s, part (f s) = part s)
    (hg : Keeps (g ()) part) : Keeps (Action.modify f >>= g) part :=
  (modify hf).bind fun _ => hg

theorem bind_on {p : Field S T} {a : Action ε T α} {g : α → Action ε S γ}
    (h : ∀ t s, part (p.set t s) = part s) (hg : ∀ v, Keeps (g v) part) :
    Keeps (Action.on p a >>= g) part := (on h a).bind hg

theorem forEach {ι : Type*} {f : ι → Action ε S Unit} (hf : ∀ x, Keeps (f x) part) (l : List ι) :
    Keeps (Action.forEach f l) part := by
  induction l with
  | nil => exact pure ()
  | cons x l ih => exact (hf x).bind fun _ => ih

end Keeps

/-! ## Invariants -/

/-- Whatever it returns, the action leads from good states to good ones. -/
def Preserves (a : Action ε S α) (I : S → Prop) : Prop := ∀ s, I s → I (a s).2

namespace Preserves

variable {I : S → Prop} {γ : Type}

theorem pure (v : α) : Preserves (Pure.pure v : Action ε S α) I := fun _ h => h

theorem read (f : S → α) : Preserves (Action.read f : Action ε S α) I := fun _ h => h

theorem tryRead (f : S → Except ε α) : Preserves (Action.tryRead f) I := fun _ h => h

theorem throw (e : ε) : Preserves (Action.throw e : Action ε S α) I := fun _ h => h

theorem modify {f : S → S} (h : ∀ s, I s → I (f s)) :
    Preserves (Action.modify f : Action ε S Unit) I := h

theorem update {f : S → α × S} (h : ∀ s, I s → I (f s).2) :
    Preserves (Action.update f : Action ε S α) I := h

theorem on {p : Field S T} (h : ∀ t s, I s → I (p.set t s)) (a : Action ε T α) :
    Preserves (Action.on p a) I := fun s hs => h _ s hs

theorem attempt {a : Action ε S α} (h : Preserves a I) : Preserves (Action.attempt a) I := h

theorem bind {a : Action ε S α} {f : α → Action ε S γ} (ha : Preserves a I)
    (hf : ∀ v, Preserves (f v) I) : Preserves (a >>= f) I := by
  intro s hs
  have h := ha s hs
  rw [bind_apply]
  cases hr : a s with
  | mk r s' =>
    rw [hr] at h
    cases r with
    | ok v => exact hf v s' h
    | error e => exact h

theorem bind_read {f : S → α} {g : α → Action ε S γ} (hg : ∀ v, Preserves (g v) I) :
    Preserves (Action.read f >>= g) I := (read f).bind hg

theorem bind_modify {f : S → S} {g : Unit → Action ε S γ} (hf : ∀ s, I s → I (f s))
    (hg : Preserves (g ()) I) : Preserves (Action.modify f >>= g) I :=
  (modify hf).bind fun _ => hg

theorem bind_update {f : S → α × S} {g : α → Action ε S γ} (hf : ∀ s, I s → I (f s).2)
    (hg : ∀ v, Preserves (g v) I) : Preserves (Action.update f >>= g) I := (update hf).bind hg

theorem bind_on {p : Field S T} {a : Action ε T α} {g : α → Action ε S γ}
    (h : ∀ t s, I s → I (p.set t s)) (hg : ∀ v, Preserves (g v) I) :
    Preserves (Action.on p a >>= g) I := (on h a).bind hg

theorem forEach {ι : Type*} {f : ι → Action ε S Unit} (hf : ∀ x, Preserves (f x) I) (l : List ι) :
    Preserves (Action.forEach f l) I := by
  induction l with
  | nil => exact pure ()
  | cons x l ih => exact (hf x).bind fun _ => ih

theorem filterMap {ι : Type*} {f : ι → Action ε S (Option β)} (hf : ∀ x, Preserves (f x) I)
    (l : List ι) : Preserves (Action.filterMap f l) I := by
  induction l with
  | nil => exact pure []
  | cons x l ih => exact (hf x).bind fun _ => ih.bind fun _ => pure _

/-- An action that returns leads to a good state, too. -/
theorem returns {a : Action ε S α} {s : S} {Q : α → S → Prop} (h : Preserves a I) (hs : I s)
    (ha : Returns a s Q) : Returns a s fun v s' => Q v s' ∧ I s' := by
  obtain ⟨v, s', hrun, hq⟩ := ha
  have hi := h s hs
  rw [hrun] at hi
  exact ⟨v, s', hrun, hq, hi⟩

end Preserves

/-- If the action returns, it returns this. -/
def Yields (a : Action ε S α) (v : α) : Prop := ∀ s w, (a s).1 = .ok w → w = v

theorem Yields.pure (v : α) : Yields (Pure.pure v : Action ε S α) v := fun _ _ h =>
  (Except.ok.inj h).symm

theorem Yields.bind {a : Action ε S α} {f : α → Action ε S β} {v : β}
    (hf : ∀ u, Yields (f u) v) : Yields (a >>= f) v := by
  intro s w h
  rw [bind_apply] at h
  cases hr : a s with
  | mk r s' =>
    rw [hr] at h
    cases r with
    | ok u => exact hf u s' w h
    | error e => cases h

end Action

end AdGraphDb
