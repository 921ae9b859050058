import Mathlib.Data.Fintype.BigOperators
import Mathlib.Logic.Function.Basic
import Mathlib.Logic.Relation
import Mathlib.Tactic
import AdGraphDb.Foundation.Simulation

/-!
# Threads behind a mutex

Each thread makes its calls one after the other, and holds the lock during a call. A call
that panics poisons the lock, and whoever asks for it later panics too. Every interleaving is
a run of the machine alone on the calls in the order in which they were let in.
-/

namespace AdGraphDb

namespace Mutex

variable {T S I O : Type*}

structure State (T S I O : Type*) where
  value : S
  poisoned : Bool
  holder : Option T
  /-- What a thread still has to call; a thread that panicked calls nothing any more. -/
  calls : T → List I
  answers : T → List O

namespace State

/-- All threads before their first call. -/
def init (value : S) (calls : T → List I) : State T S I O :=
  ⟨value, false, none, calls, fun _ => []⟩

/-- The lock is held for a call, and not when it is poisoned. -/
structure Sane (σ : State T S I O) : Prop where
  calling : ∀ t, σ.holder = some t → σ.calls t ≠ []
  clean : σ.poisoned = true → σ.holder = none

theorem sane_init (value : S) (calls : T → List I) : (init value calls : State T S I O).Sane :=
  ⟨fun _ h => (by cases h), fun h => (by cases h)⟩

end State

variable [DecidableEq T] {call : I → S → Option O × S}

/-- What can happen next. The result `none` of a call is a panic. -/
inductive Step (call : I → S → Option O × S) (σ : State T S I O) : State T S I O → Prop
  | acquire {t : T} {i : I} {is : List I} (hfree : σ.holder = none) (hclean : σ.poisoned = false)
    (hcalls : σ.calls t = i :: is) : Step call σ { σ with holder := some t }
  | answer {t : T} {i : I} {is : List I} {o : O} {s : S} (hheld : σ.holder = some t)
    (hcalls : σ.calls t = i :: is) (hcall : call i σ.value = (some o, s)) :
    Step call σ { σ with
      value := s
      holder := none
      calls := Function.update σ.calls t is
      answers := Function.update σ.answers t (σ.answers t ++ [o]) }
  | panic {t : T} {i : I} {is : List I} {s : S} (hheld : σ.holder = some t)
    (hcalls : σ.calls t = i :: is) (hcall : call i σ.value = (none, s)) :
    Step call σ { σ with
      value := s
      holder := none
      poisoned := true
      calls := Function.update σ.calls t [] }
  | refuse {t : T} {i : I} {is : List I} (hfree : σ.holder = none) (hpoisoned : σ.poisoned = true)
    (hcalls : σ.calls t = i :: is) :
    Step call σ { σ with calls := Function.update σ.calls t [] }

abbrev Steps (call : I → S → Option O × S) : State T S I O → State T S I O → Prop :=
  Relation.ReflTransGen (Step call)

variable {σ τ : State T S I O}

/-- The lock is as it should be after every step. -/
theorem Step.sane (h : Step call σ τ) : τ.Sane := by
  cases h with
  | acquire hfree hclean hcalls =>
    constructor
    · intro t ht
      rw [← Option.some.inj ht, hcalls]
      exact List.cons_ne_nil _ _
    · intro hp
      cases hclean.symm.trans hp
  | answer hheld hcalls hcall => exact ⟨fun _ ht => (by cases ht), fun _ => rfl⟩
  | panic hheld hcalls hcall => exact ⟨fun _ ht => (by cases ht), fun _ => rfl⟩
  | refuse hfree hpoisoned hcalls =>
    exact ⟨fun _ ht => (by cases hfree.symm.trans ht), fun _ => hfree⟩

/-! ## The run that an interleaving amounts to -/

/-- The calls of several threads, served one after the other. -/
def tagged (call : I → S → Option O × S) (c : T × I) (s : S) : (T × Option O) × S :=
  ((c.1, (call c.2 s).1), (call c.2 s).2)

/-- The calls of one thread among those served. -/
def callsOf (t : T) (served : List (T × I)) : List I :=
  served.filterMap fun c => if c.1 = t then some c.2 else none

/-- The answers to one thread. -/
def answersTo (t : T) (outcomes : List (T × Option O)) : List O :=
  outcomes.filterMap fun o => if o.1 = t then o.2 else none

theorem callsOf_cons_self (t : T) (i : I) (served : List (T × I)) :
    callsOf t ((t, i) :: served) = i :: callsOf t served := List.filterMap_cons_some (if_pos rfl)

theorem callsOf_cons_of_ne {t t' : T} (h : t' ≠ t) (i : I) (served : List (T × I)) :
    callsOf t' ((t, i) :: served) = callsOf t' served :=
  List.filterMap_cons_none (if_neg (Ne.symm h))

theorem answersTo_cons_self (t : T) (o : O) (outcomes : List (T × Option O)) :
    answersTo t ((t, some o) :: outcomes) = o :: answersTo t outcomes :=
  List.filterMap_cons_some (if_pos rfl)

theorem answersTo_cons_of_ne {t t' : T} (h : t' ≠ t) (o : Option O)
    (outcomes : List (T × Option O)) : answersTo t' ((t, o) :: outcomes) = answersTo t' outcomes :=
  List.filterMap_cons_none (if_neg (Ne.symm h))

theorem answersTo_cons_none (t t' : T) (outcomes : List (T × Option O)) :
    answersTo t' ((t, none) :: outcomes) = answersTo t' outcomes :=
  List.filterMap_cons_none (ite_self none)

/-- Between two states these calls were served, in this order and with these outcomes. A thread
is served in the order of its calls; a call that panics is the last one. -/
structure Serves (call : I → S → Option O × S) (σ τ : State T S I O) (served : List (T × I))
    (outcomes : List (T × Option O)) : Prop where
  run : Machine.run (tagged call) served σ.value = (outcomes, τ.value)
  answers : ∀ t, τ.answers t = σ.answers t ++ answersTo t outcomes
  calls : ∀ t, ∃ rest, σ.calls t = callsOf t served ++ rest ∧
    (τ.calls t = rest ∨ τ.poisoned = true ∧ τ.calls t = [])
  halted : σ.poisoned = true → served = [] ∧ τ.poisoned = true
  clean : τ.poisoned = false → ∀ o ∈ outcomes, o.2.isSome
  poisoned : σ.poisoned = false → τ.poisoned = true →
    ∃ before t, outcomes = before ++ [(t, none)] ∧ ∀ o ∈ before, o.2.isSome

theorem Serves.refl (σ : State T S I O) : Serves call σ σ [] [] where
  run := rfl
  answers := fun _ => (List.append_nil _).symm
  calls := fun t => ⟨σ.calls t, rfl, .inl rfl⟩
  halted := fun h => ⟨rfl, h⟩
  clean := fun _ => List.forall_mem_nil _
  poisoned := fun h h' => (by cases h.symm.trans h')

variable {ρ : State T S I O} {served : List (T × I)} {outcomes : List (T × Option O)}

theorem Serves.outcomes_of_halted (h : Serves call σ τ served outcomes) (hp : σ.poisoned = true) :
    outcomes = [] := by
  have hrun := h.run
  rw [(h.halted hp).1] at hrun
  exact (congrArg Prod.fst hrun).symm

/-- A thread without calls gets none. -/
theorem Serves.calls_eq_nil (h : Serves call σ τ served outcomes) {t : T} (ht : σ.calls t = []) :
    τ.calls t = [] := by
  obtain ⟨rest, hσ, hτ⟩ := h.calls t
  rw [ht] at hσ
  rcases hτ with hτ | ⟨-, hτ⟩
  · rw [hτ]
    exact (List.append_eq_nil_iff.mp hσ.symm).2
  · exact hτ

theorem Serves.acquire {t : T}
    (h : Serves call { σ with holder := some t } τ served outcomes) :
    Serves call σ τ served outcomes :=
  ⟨h.run, h.answers, h.calls, h.halted, h.clean, h.poisoned⟩

theorem Serves.answer {t : T} {i : I} {is : List I} {o : O} {s : S} (hclean : σ.poisoned = false)
    (hcalls : σ.calls t = i :: is) (hcall : call i σ.value = (some o, s))
    (h : Serves call { σ with
      value := s
      holder := none
      calls := Function.update σ.calls t is
      answers := Function.update σ.answers t (σ.answers t ++ [o]) } τ served outcomes) :
    Serves call σ τ ((t, i) :: served) ((t, some o) :: outcomes) where
  run := by
    rw [Machine.run, tagged, hcall, h.run]
  answers := fun t' => by
    have hτ := h.answers t'
    dsimp only at hτ
    by_cases ht : t' = t
    · subst ht
      rw [hτ, Function.update_self, answersTo_cons_self, List.append_assoc]
      rfl
    · rw [hτ, Function.update_of_ne ht, answersTo_cons_of_ne ht]
  calls := fun t' => by
    obtain ⟨rest, hσ, hτ⟩ := h.calls t'
    dsimp only at hσ
    refine ⟨rest, ?_, hτ⟩
    by_cases ht : t' = t
    · subst ht
      rw [Function.update_self] at hσ
      rw [hcalls, hσ, callsOf_cons_self]
      rfl
    · rw [Function.update_of_ne ht] at hσ
      rw [hσ, callsOf_cons_of_ne ht]
  halted := fun hp => (by cases hclean.symm.trans hp)
  clean := fun hp => List.forall_mem_cons.mpr ⟨rfl, h.clean hp⟩
  poisoned := fun _ hp => by
    obtain ⟨before, t', rfl, hbefore⟩ := h.poisoned hclean hp
    exact ⟨(t, some o) :: before, t', rfl, List.forall_mem_cons.mpr ⟨rfl, hbefore⟩⟩

theorem Serves.panic {t : T} {i : I} {is : List I} {s : S} (hclean : σ.poisoned = false)
    (hcalls : σ.calls t = i :: is) (hcall : call i σ.value = (none, s))
    (h : Serves call { σ with
      value := s
      holder := none
      poisoned := true
      calls := Function.update σ.calls t [] } τ served outcomes) :
    Serves call σ τ [(t, i)] [(t, none)] := by
  have hp := (h.halted rfl).2
  have hserved := (h.halted rfl).1
  have hout := h.outcomes_of_halted rfl
  subst hserved hout
  constructor
  · have hvalue : s = τ.value := congrArg Prod.snd h.run
    rw [Machine.run, tagged, hcall, Machine.run, hvalue]
  · intro t'
    rw [h.answers t', answersTo_cons_none]
  · intro t'
    by_cases ht : t' = t
    · subst ht
      refine ⟨is, ?_, .inr ⟨hp, h.calls_eq_nil (Function.update_self ..)⟩⟩
      rw [hcalls, callsOf_cons_self]
      rfl
    · obtain ⟨rest, hσ, hτ⟩ := h.calls t'
      dsimp only at hσ
      rw [Function.update_of_ne ht] at hσ
      refine ⟨rest, ?_, hτ⟩
      rw [hσ, callsOf_cons_of_ne ht]
  · exact fun hp => (by cases hclean.symm.trans hp)
  · exact fun hc => (by cases hc.symm.trans hp)
  · exact fun _ _ => ⟨[], t, rfl, List.forall_mem_nil _⟩

theorem Serves.refuse {t : T} (hpoisoned : σ.poisoned = true)
    (h : Serves call { σ with calls := Function.update σ.calls t [] } τ served outcomes) :
    Serves call σ τ served outcomes where
  run := h.run
  answers := h.answers
  calls := fun t' => by
    by_cases ht : t' = t
    · subst ht
      rw [(h.halted hpoisoned).1]
      exact ⟨_, rfl, .inr ⟨(h.halted hpoisoned).2, h.calls_eq_nil (Function.update_self ..)⟩⟩
    · obtain ⟨rest, hσ, hτ⟩ := h.calls t'
      dsimp only at hσ
      rw [Function.update_of_ne ht] at hσ
      exact ⟨rest, hσ, hτ⟩
  halted := h.halted
  clean := h.clean
  poisoned := h.poisoned

omit [DecidableEq T] in
theorem State.Sane.not_poisoned (hs : σ.Sane) {t : T} (h : σ.holder = some t) :
    σ.poisoned = false := by
  cases hp : σ.poisoned with
  | false => rfl
  | true => cases h.symm.trans (hs.clean hp)

theorem Step.sane_serves (h : Step call σ ρ) (hs : σ.Sane) (hr : Serves call ρ τ served outcomes) :
    ∃ served outcomes, Serves call σ τ served outcomes := by
  cases h with
  | acquire hfree hclean hcalls => exact ⟨_, _, hr.acquire⟩
  | answer hheld hcalls hcall => exact ⟨_, _, hr.answer (hs.not_poisoned hheld) hcalls hcall⟩
  | panic hheld hcalls hcall => exact ⟨_, _, hr.panic (hs.not_poisoned hheld) hcalls hcall⟩
  | refuse hfree hpoisoned hcalls => exact ⟨_, _, hr.refuse hpoisoned⟩

theorem Steps.sane (h : Steps call σ τ) (hs : σ.Sane) : τ.Sane := by
  cases h with
  | refl => exact hs
  | tail _ hstep => exact hstep.sane

/-- Between any two states of any interleaving the calls are served one after the other. -/
theorem Steps.serves (h : Steps call σ τ) (hs : σ.Sane) :
    ∃ served outcomes, Serves call σ τ served outcomes := by
  induction h using Relation.ReflTransGen.head_induction_on with
  | refl => exact ⟨[], [], .refl τ⟩
  | head hstep _ ih =>
    obtain ⟨served, outcomes, hr⟩ := ih hstep.sane
    exact hstep.sane_serves hs hr

omit [DecidableEq T] in
/-- Without their threads the calls are a run of the machine alone. -/
theorem run_tagged (call : I → S → Option O × S) (served : List (T × I)) (s : S) :
    ((Machine.run (tagged call) served s).1.map Prod.snd, (Machine.run (tagged call) served s).2) =
      Machine.run call (served.map Prod.snd) s := by
  induction served generalizing s with
  | nil => rfl
  | cons c served ih =>
    have hrest := ih (call c.2 s).2
    rw [List.map_cons, Machine.run, Machine.run, ← hrest]
    rfl

theorem Serves.run_untagged (h : Serves call σ τ served outcomes) :
    Machine.run call (served.map Prod.snd) σ.value = (outcomes.map Prod.snd, τ.value) := by
  rw [← run_tagged, h.run]

/-- A call that is served is one of its thread. -/
theorem Serves.mem_calls (h : Serves call σ τ served outcomes) {c : T × I} (hc : c ∈ served) :
    c.2 ∈ σ.calls c.1 := by
  obtain ⟨rest, hσ, -⟩ := h.calls c.1
  rw [hσ]
  exact List.mem_append_left _ (List.mem_filterMap.mpr ⟨c, hc, if_pos rfl⟩)

omit [DecidableEq T] in
/-- Every outcome is that of a call served. -/
theorem exists_of_mem_run {served : List (T × I)} {s : S} {o : T × Option O}
    (h : o ∈ (Machine.run (tagged call) served s).1) :
    ∃ i s', (o.1, i) ∈ served ∧ (call i s').1 = o.2 := by
  induction served generalizing s with
  | nil => cases h
  | cons c served ih =>
    rcases List.mem_cons.mp h with rfl | h
    · exact ⟨c.2, s, List.mem_cons_self, rfl⟩
    · obtain ⟨i, s', hi, ho⟩ := ih h
      exact ⟨i, s', List.mem_cons_of_mem c hi, ho⟩

/-- The lock is poisoned by a call of some thread. -/
theorem Serves.exists_panic (h : Serves call σ τ served outcomes) (hσ : σ.poisoned = false)
    (hτ : τ.poisoned = true) : ∃ t, ∃ i ∈ σ.calls t, ∃ s, (call i s).1 = none := by
  obtain ⟨before, t, hout, -⟩ := h.poisoned hσ hτ
  have hmem : (t, none) ∈ (Machine.run (tagged call) served σ.value).1 := by
    rw [h.run, hout]
    exact List.mem_append_right _ List.mem_cons_self
  obtain ⟨i, s, hi, hnone⟩ := exists_of_mem_run hmem
  exact ⟨t, i, h.mem_calls hi, s, hnone⟩

/-- Nobody is answered behind a poisoned lock. -/
theorem Steps.answers_of_poisoned (h : Steps call σ τ) (hs : σ.Sane) (hp : σ.poisoned = true) :
    τ.answers = σ.answers := by
  obtain ⟨served, outcomes, hr⟩ := h.serves hs
  funext t
  rw [hr.answers t, hr.outcomes_of_halted hp]
  exact List.append_nil _

/-- Only the last outcome can be a panic. -/
theorem Serves.isSome_of_mem_dropLast (h : Serves call σ τ served outcomes) :
    ∀ o ∈ outcomes.dropLast, o.2.isSome := by
  cases hσ : σ.poisoned with
  | true =>
    rw [h.outcomes_of_halted hσ]
    exact List.forall_mem_nil _
  | false =>
    cases hτ : τ.poisoned with
    | false => exact fun o ho => h.clean hτ o (List.mem_of_mem_dropLast ho)
    | true =>
      obtain ⟨before, t, rfl, hbefore⟩ := h.poisoned hσ hτ
      rwa [List.dropLast_concat]

/-! ## What the threads are answered -/

section

variable {Inv : S → Prop} {R : I → O → Prop}

/-- The answers to a thread fit its calls, one by one, if every call keeps the invariant and
answers to it. -/
theorem forall₂_answersTo (hcall : ∀ i s, Inv s → Inv (call i s).2 ∧ ∀ o ∈ (call i s).1, R i o)
    (served : List (T × I)) {s : S} (hs : Inv s)
    (hsome : ∀ o ∈ (Machine.run (tagged call) served s).1.dropLast, o.2.isSome) (t : T) :
    ∃ done, done <+: callsOf t served ∧
      List.Forall₂ R done (answersTo t (Machine.run (tagged call) served s).1) ∧
      ((∀ o ∈ (Machine.run (tagged call) served s).1, o.2.isSome) → done = callsOf t served) := by
  induction served generalizing s with
  | nil => exact ⟨[], List.nil_prefix, .nil, fun _ => rfl⟩
  | cons c served ih =>
    obtain ⟨t', i⟩ := c
    obtain ⟨hinv, hR⟩ := hcall i s hs
    rw [Machine.run, tagged] at hsome ⊢
    dsimp only at hsome ⊢
    cases ho : (call i s).1 with
    | none =>
      -- a panic: nothing was served behind it
      rw [ho] at hsome
      have hnil : (Machine.run (tagged call) served (call i s).2).1 = [] := by
        by_contra hne
        rw [List.dropLast_cons_of_ne_nil hne] at hsome
        cases hsome _ List.mem_cons_self
      rw [hnil]
      refine ⟨[], List.nil_prefix, ?_, fun hall => ?_⟩
      · rw [answersTo_cons_none]
        exact .nil
      · cases hall _ List.mem_cons_self
    | some o =>
      obtain ⟨done, hpre, hdone, hall⟩ := ih hinv fun o' ho' => by
        apply hsome
        rw [List.dropLast_cons_of_ne_nil (List.ne_nil_of_mem (List.mem_of_mem_dropLast ho'))]
        exact List.mem_cons_of_mem _ ho'
      by_cases ht : t = t'
      · subst ht
        rw [callsOf_cons_self, answersTo_cons_self]
        refine ⟨i :: done, (List.prefix_cons_inj i).mpr hpre, .cons (hR o ho) hdone, fun h => ?_⟩
        rw [hall fun o' ho' => h o' (List.mem_cons_of_mem _ ho')]
      · rw [callsOf_cons_of_ne ht, answersTo_cons_of_ne ht]
        exact ⟨done, hpre, hdone, fun h => hall fun o' ho' => h o' (List.mem_cons_of_mem _ ho')⟩

end

/-! ## No call waits for ever -/

/-- Some thread can go on as long as one has something to call. -/
theorem exists_step (call : I → S → Option O × S) (hs : σ.Sane) {t : T} (ht : σ.calls t ≠ []) :
    ∃ τ, Step call σ τ := by
  cases hheld : σ.holder with
  | some t' =>
    cases hcalls : σ.calls t' with
    | nil => exact absurd hcalls (hs.calling t' hheld)
    | cons i is =>
      cases hcall : call i σ.value with
      | mk o s =>
        cases o with
        | some o => exact ⟨_, .answer hheld hcalls hcall⟩
        | none => exact ⟨_, .panic hheld hcalls hcall⟩
  | none =>
    cases hcalls : σ.calls t with
    | nil => exact absurd hcalls ht
    | cons i is =>
      cases hp : σ.poisoned with
      | false => exact ⟨_, .acquire hheld hp hcalls⟩
      | true => exact ⟨_, .refuse hheld hp hcalls⟩

/-- Where an interleaving ends, every call is answered, or the lock is poisoned and its thread
has given up. -/
theorem Serves.all_served (h : Serves call σ τ served outcomes) (hs : τ.Sane)
    (hend : ∀ ρ, ¬ Step call τ ρ) (hclean : τ.poisoned = false) (t : T) :
    σ.calls t = callsOf t served := by
  obtain ⟨rest, hσ, hτ⟩ := h.calls t
  have hnone : τ.calls t = [] := by
    by_contra ht
    obtain ⟨ρ, hρ⟩ := exists_step call hs ht
    exact hend ρ hρ
  rcases hτ with hτ | ⟨hp, -⟩
  · rw [hσ, ← hτ, hnone, List.append_nil]
  · cases hclean.symm.trans hp

variable [Fintype T]

/-- Two steps for each call that is still to come, less the one that has been taken. -/
def State.remaining (σ : State T S I O) : Nat :=
  2 * ∑ t, (σ.calls t).length + if σ.holder.isSome then 0 else 1

theorem length_eq_sum_callsOf (served : List (T × I)) :
    served.length = ∑ t, (callsOf t served).length := by
  induction served with
  | nil => exact (Finset.sum_eq_zero fun _ _ => rfl).symm
  | cons c served ih =>
    have hcons (t : T) : (callsOf t (c :: served)).length =
        (if c.1 = t then 1 else 0) + (callsOf t served).length := by
      rw [callsOf, List.filterMap_cons]
      split_ifs
      · exact Nat.add_comm _ _
      · exact (Nat.zero_add _).symm
    rw [List.length_cons, ih, Finset.sum_congr rfl fun t _ => hcons t, Finset.sum_add_distrib,
      Finset.sum_ite_eq, if_pos (Finset.mem_univ _), Nat.add_comm]

/-- No more calls are served than there are. -/
theorem Serves.length_le (h : Serves call σ τ served outcomes) :
    served.length ≤ ∑ t, (σ.calls t).length := by
  rw [length_eq_sum_callsOf]
  apply Finset.sum_le_sum
  intro t _
  obtain ⟨rest, hσ, -⟩ := h.calls t
  rw [hσ, List.length_append]
  exact Nat.le_add_right _ _

theorem sum_length_update (calls : T → List I) (t : T) (is : List I) :
    ∑ t', (Function.update calls t is t').length + (calls t).length =
      ∑ t', (calls t').length + is.length := by
  have hlength (t' : T) : (Function.update calls t is t').length =
      Function.update (fun t' => (calls t').length) t is.length t' :=
    Function.apply_update (fun _ => List.length) calls t is t'
  rw [Finset.sum_congr rfl fun t' _ => hlength t', Finset.sum_update_of_mem (Finset.mem_univ t),
    ← Finset.add_sum_erase Finset.univ (fun t' => (calls t').length) (Finset.mem_univ t),
    Finset.sdiff_singleton_eq_erase]
  omega

/-- Every interleaving ends. -/
theorem Step.remaining_lt (h : Step call σ τ) : τ.remaining < σ.remaining := by
  unfold State.remaining
  cases h with
  | acquire hfree hclean hcalls =>
    rw [hfree]
    exact Nat.lt_succ_self _
  | @answer t i is o s hheld hcalls hcall =>
    have hsum := sum_length_update σ.calls t is
    rw [hcalls, List.length_cons] at hsum
    rw [hheld]
    simp only [Option.isSome_none, Option.isSome_some, if_true, Bool.false_eq_true, if_false]
    omega
  | @panic t i is s hheld hcalls hcall =>
    have hsum := sum_length_update σ.calls t []
    rw [hcalls, List.length_cons, List.length_nil] at hsum
    rw [hheld]
    simp only [Option.isSome_none, Option.isSome_some, if_true, Bool.false_eq_true, if_false]
    omega
  | @refuse t i is hfree hpoisoned hcalls =>
    have hsum := sum_length_update σ.calls t []
    rw [hcalls, List.length_cons, List.length_nil] at hsum
    simp only
    omega

/-- From everywhere an interleaving comes to an end. -/
theorem exists_end (call : I → S → Option O × S) (σ : State T S I O) :
    ∃ τ, Steps call σ τ ∧ ∀ ρ, ¬ Step call τ ρ := by
  induction hn : σ.remaining using Nat.strong_induction_on generalizing σ with
  | h n ih =>
    by_cases hstep : ∃ ρ, Step call σ ρ
    · obtain ⟨ρ, hρ⟩ := hstep
      obtain ⟨τ, hsteps, hend⟩ := ih _ (hn ▸ hρ.remaining_lt) ρ rfl
      exact ⟨τ, hsteps.head hρ, hend⟩
    · exact ⟨σ, .refl, not_exists.mp hstep⟩

end Mutex

end AdGraphDb
