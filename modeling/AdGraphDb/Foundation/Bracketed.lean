import Mathlib.Tactic

/-!
# Logs with transaction brackets

The entries behind an opening marker wait for the next marker: a commit of the same
transaction applies them, every other marker and the end of the log drop them.
Whether an entry is applied therefore depends on the two markers around it only.
-/

namespace AdGraphDb

inductive LogEvent (T A : Type) where
  | opens (t : T)
  | commits (t : T)
  | aborts
  | entry (a : A)

/-- The applied entries in order, and those that wait. -/
structure Bracketed (T A : Type) where
  applied : List A
  pending : Option (T × List A)

namespace Bracketed

variable {T A : Type} [DecidableEq T]

/-- `arrange` orders the entries of a transaction. -/
def step (arrange : List A → List A) (s : Bracketed T A) : LogEvent T A → Bracketed T A
  | .opens t => { s with pending := some (t, []) }
  | .commits t => match s.pending with
    | some (open_, waiting) =>
      if open_ = t then ⟨s.applied ++ arrange waiting, none⟩ else ⟨s.applied, none⟩
    | none => s
  | .aborts => ⟨s.applied, none⟩
  | .entry a => match s.pending with
    | some (open_, waiting) => ⟨s.applied, some (open_, waiting ++ [a])⟩
    | none => ⟨s.applied ++ [a], none⟩

def run (arrange : List A → List A) (s : Bracketed T A) (es : List (LogEvent T A)) :
    Bracketed T A := es.foldl (step arrange) s

def empty : Bracketed T A := ⟨[], none⟩

/-- The transaction that is open behind the events. -/
def openAfter : Option T → List (LogEvent T A) → Option T
  | o, [] => o
  | o, .entry _ :: es => openAfter o es
  | _, .opens t :: es => openAfter (some t) es
  | _, _ :: es => openAfter none es

/-- The first marker commits `t`. -/
def commitsNext (t : T) : List (LogEvent T A) → Bool
  | [] => false
  | .entry _ :: es => commitsNext t es
  | .commits u :: _ => u = t
  | _ :: _ => false

/-- No transaction is open between the events, or one that the next marker commits. -/
def TakesEffect (before after : List (LogEvent T A)) : Prop :=
  ∀ t ∈ openAfter none before, commitsNext t after

instance (before after : List (LogEvent T A)) : Decidable (TakesEffect before after) :=
  inferInstanceAs (Decidable (∀ t ∈ openAfter none before, commitsNext t after))

variable {arrange : List A → List A}

@[simp] theorem run_cons (s : Bracketed T A) (e : LogEvent T A) (es : List (LogEvent T A)) :
    run arrange s (e :: es) = run arrange (step arrange s e) es := rfl

theorem run_append (s : Bracketed T A) (es es' : List (LogEvent T A)) :
    run arrange s (es ++ es') = run arrange (run arrange s es) es' := List.foldl_append

theorem step_pending (s : Bracketed T A) (e : LogEvent T A) :
    (step arrange s e).pending.map Prod.fst = openAfter (s.pending.map Prod.fst) [e] := by
  obtain ⟨applied, pending⟩ := s
  cases pending with
  | none => cases e <;> rfl
  | some p =>
    cases e with
    | commits t =>
      simp only [step, openAfter]
      split_ifs <;> rfl
    | _ => rfl

omit [DecidableEq T] in
theorem openAfter_append (o : Option T) (es es' : List (LogEvent T A)) :
    openAfter o (es ++ es') = openAfter (openAfter o es) es' := by
  induction es generalizing o with
  | nil => rfl
  | cons e es ih => cases e <;> exact ih _

theorem run_pending (arrange : List A → List A) (s : Bracketed T A) (es : List (LogEvent T A)) :
    (run arrange s es).pending.map Prod.fst = openAfter (s.pending.map Prod.fst) es := by
  induction es generalizing s with
  | nil => rfl
  | cons e es ih => rw [run_cons, ih, step_pending, ← openAfter_append, List.singleton_append]

/-- Applied entries stay applied. -/
theorem mem_applied_run {a : A} {s : Bracketed T A} (h : a ∈ s.applied)
    (es : List (LogEvent T A)) : a ∈ (run arrange s es).applied := by
  induction es generalizing s with
  | nil => exact h
  | cons e es ih =>
    apply ih
    cases e with
    | opens t => exact h
    | aborts => exact h
    | commits t =>
      simp only [step]
      split
      · split_ifs
        · exact List.mem_append_left _ h
        · exact h
      · exact h
    | entry b =>
      simp only [step]
      split
      · exact h
      · exact List.mem_append_left _ h

/-- Applied, or waiting for a commit. -/
def Holds (s : Bracketed T A) (a : A) : Prop := a ∈ s.applied ∨ ∃ p ∈ s.pending, a ∈ p.2

omit [DecidableEq T] in
theorem not_holds_empty (a : A) : ¬ (empty : Bracketed T A).Holds a := by
  rintro (h | ⟨p, hp, -⟩)
  · cases h
  · cases hp

section Logged

variable (harr : ∀ l, ∀ a ∈ arrange l, a ∈ l)

include harr

theorem holds_step {a : A} {s : Bracketed T A} {e : LogEvent T A}
    (h : (step arrange s e).Holds a) : s.Holds a ∨ e = .entry a := by
  obtain ⟨applied, pending⟩ := s
  cases pending with
  | none =>
    revert h
    cases e <;> simp only [step, Holds] <;> simp +contextual [eq_comm]
  | some p =>
    revert h
    cases e with
    | commits t =>
      simp only [step]
      split_ifs
      · rintro (ha | ⟨p, hp, -⟩)
        · rcases List.mem_append.mp ha with ha | ha
          · exact .inl (.inl ha)
          · exact .inl (.inr ⟨p, rfl, harr _ a ha⟩)
        · cases hp
      · simp +contextual [Holds]
    | _ =>
      simp only [step, Holds]
      simp +contextual [eq_comm, or_assoc]

/-- Nothing is applied or waits that was not logged. -/
theorem holds_run {a : A} {s : Bracketed T A} {es : List (LogEvent T A)}
    (h : (run arrange s es).Holds a) : s.Holds a ∨ .entry a ∈ es := by
  induction es generalizing s with
  | nil => exact .inl h
  | cons e es ih =>
    rcases ih h with ha | ha
    · rcases holds_step harr ha with ha | rfl
      · exact .inl ha
      · exact .inr List.mem_cons_self
    · exact .inr (List.mem_cons_of_mem e ha)

theorem logged_of_applied {a : A} {es : List (LogEvent T A)}
    (h : a ∈ (run arrange empty es).applied) : .entry a ∈ es :=
  (holds_run harr (.inl h)).resolve_left (not_holds_empty a)

end Logged

variable (harr : ∀ l a, a ∈ arrange l ↔ a ∈ l)

include harr in
/-- A waiting entry is applied exactly when the next marker commits. -/
theorem waiting_applied_iff {a : A} {s : Bracketed T A} {t : T} {waiting : List A}
    (hs : s.pending = some (t, waiting)) (ha : a ∈ waiting) (hnew : a ∉ s.applied)
    {es : List (LogEvent T A)} (hes : .entry a ∉ es) :
    a ∈ (run arrange s es).applied ↔ commitsNext t es := by
  induction es generalizing s waiting with
  | nil => exact iff_of_false hnew (Bool.false_ne_true)
  | cons e es ih =>
    have hrest : .entry a ∉ es := fun h => hes (List.mem_cons_of_mem e h)
    have hdropped (s' : Bracketed T A) (happ : s'.applied = s.applied)
        (hpend : ∀ p ∈ s'.pending, p.2 = []) : a ∉ (run arrange s' es).applied := by
      intro h
      rcases holds_run (fun l b hb => (harr l b).mp hb) (.inl h) with (h | ⟨p, hp, h⟩) | h
      · exact hnew (happ ▸ h)
      · rw [hpend p hp] at h
        cases h
      · exact hrest h
    rw [run_cons]
    cases e with
    | opens u =>
      exact iff_of_false (hdropped _ rfl fun p hp => by cases hp; rfl) Bool.false_ne_true
    | aborts => exact iff_of_false (hdropped _ rfl nofun) Bool.false_ne_true
    | commits u =>
      have hstep : step arrange s (.commits u) =
          if t = u then ⟨s.applied ++ arrange waiting, none⟩ else ⟨s.applied, none⟩ := by
        rw [step, hs]
      rw [hstep]
      by_cases hu : t = u
      · rw [if_pos hu]
        apply iff_of_true
        · exact mem_applied_run (List.mem_append_right _ ((harr waiting a).mpr ha)) es
        · exact decide_eq_true hu.symm
      · rw [if_neg hu]
        exact iff_of_false (hdropped _ rfl nofun) fun h => hu (of_decide_eq_true h).symm
    | entry b =>
      have hstep : step arrange s (.entry b) = ⟨s.applied, some (t, waiting ++ [b])⟩ := by
        rw [step, hs]
      rw [hstep]
      exact ih rfl (List.mem_append_left _ ha) hnew hrest

include harr in
/-- The markers around an entry decide whether it is applied. -/
theorem entry_applied_iff {a : A} {before after : List (LogEvent T A)} (hb : .entry a ∉ before)
    (ha : .entry a ∉ after) :
    a ∈ (run arrange empty (before ++ .entry a :: after)).applied ↔ TakesEffect before after := by
  have hnew : a ∉ (run arrange (empty : Bracketed T A) before).applied := fun h =>
    hb (logged_of_applied (fun l b hb => (harr l b).mp hb) h)
  have hopen := run_pending arrange (empty : Bracketed T A) before
  rw [run_append, run_cons, TakesEffect, ← show _ = openAfter none before from hopen]
  generalize run arrange (empty : Bracketed T A) before = s at hnew
  obtain ⟨applied, pending⟩ := s
  cases pending with
  | none =>
    apply iff_of_true
    · exact mem_applied_run (List.mem_append_right _ List.mem_cons_self) after
    · rintro t ⟨⟩
  | some p =>
    obtain ⟨t, waiting⟩ := p
    have hstep : step arrange ⟨applied, some (t, waiting)⟩ (.entry a) =
        ⟨applied, some (t, waiting ++ [a])⟩ := rfl
    have hiff := waiting_applied_iff harr (s := ⟨applied, some (t, waiting ++ [a])⟩) rfl
      (List.mem_append_right _ List.mem_cons_self) hnew ha
    rw [hstep, hiff]
    simp

end Bracketed

end AdGraphDb
