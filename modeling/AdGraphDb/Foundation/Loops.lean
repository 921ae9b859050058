import Mathlib.Order.WellFounded

/-!
# Loops

The body of a loop either stops with a result or goes on from a new state. A computation that
may not end is a function of the number of rounds that it is given.
-/

namespace AdGraphDb
namespace Loop

/-- What a round of a loop does. -/
inductive Round (σ ρ : Type) where
  | stop (r : ρ)
  | next (s : σ)

variable {σ ρ : Type}

/-- From some number of rounds on there is a result. -/
def Yields (f : Nat → Option ρ) (r : ρ) : Prop := ∃ n, ∀ m, n ≤ m → f m = some r

def Ends (f : Nat → Option ρ) : Prop := ∃ r, Yields f r

theorem yields_some (r : ρ) : Yields (fun _ => some r) r := ⟨0, fun _ _ => rfl⟩

theorem Yields.unique {f : Nat → Option ρ} {r r' : ρ} (h : Yields f r) (h' : Yields f r') :
    r = r' := by
  obtain ⟨n, hn⟩ := h
  obtain ⟨n', hn'⟩ := h'
  have heq := (hn _ (le_max_left n n')).symm.trans (hn' _ (le_max_right n n'))
  exact Option.some.inj heq

/-- One computation after the other. -/
theorem Yields.bind {τ : Type} {f : Nat → Option ρ} {g : ρ → Nat → Option τ} {r : ρ} {t : τ}
    (h : Yields f r) (h' : Yields (g r) t) : Yields (fun n => (f n).bind fun r => g r n) t := by
  obtain ⟨n, hn⟩ := h
  obtain ⟨n', hn'⟩ := h'
  refine ⟨max n n', fun m hm => ?_⟩
  dsimp only
  rw [hn m (le_trans (le_max_left n n') hm), Option.bind_some]
  exact hn' m (le_trans (le_max_right n n') hm)

theorem Yields.map {τ : Type} {f : Nat → Option ρ} {r : ρ} (h : Yields f r) (g : ρ → τ) :
    Yields (fun n => (f n).map g) (g r) := by
  obtain ⟨n, hn⟩ := h
  refine ⟨n, fun m hm => ?_⟩
  dsimp only
  rw [hn m hm, Option.map_some]

variable (body : σ → Round σ ρ)

/-- The result of a loop, if it stops within a number of rounds. -/
def run (s : σ) : Nat → Option ρ
  | 0 => none
  | n + 1 =>
    match body s with
    | .stop r => some r
    | .next s => run s n

variable {body} {s s' : σ} {r : ρ}

theorem run_mono {n : Nat} (h : run body s n = some r) {m : Nat} (hm : n ≤ m) :
    run body s m = some r := by
  induction n generalizing s m with
  | zero => cases h
  | succ n ih =>
    obtain ⟨m, rfl⟩ := Nat.exists_eq_succ_of_ne_zero (Nat.ne_zero_of_lt hm)
    rw [run] at h ⊢
    cases hb : body s with
    | stop r' =>
      rw [hb] at h
      exact h
    | next s' =>
      rw [hb] at h
      exact ih h (Nat.le_of_succ_le_succ hm)

theorem yields_run_iff : Yields (run body s) r ↔ ∃ n, run body s n = some r :=
  ⟨fun ⟨n, h⟩ => ⟨n, h n le_rfl⟩, fun ⟨n, h⟩ => ⟨n, fun _ hm => run_mono h hm⟩⟩

theorem yields_of_stop (h : body s = .stop r) : Yields (run body s) r :=
  yields_run_iff.mpr ⟨1, by rw [run, h]⟩

theorem yields_next_iff (h : body s = .next s') :
    Yields (run body s) r ↔ Yields (run body s') r := by
  rw [yields_run_iff, yields_run_iff]
  constructor
  · rintro ⟨n, hn⟩
    cases n with
    | zero => cases hn
    | succ n =>
      rw [run, h] at hn
      exact ⟨n, hn⟩
  · rintro ⟨n, hn⟩
    exact ⟨n + 1, by rwa [run, h]⟩

/-- Total correctness: an invariant, and a measure that gets smaller in every round. -/
theorem yields_of_measure {α : Type} {lt : α → α → Prop} (hwf : WellFounded lt) (measure : σ → α)
    (Inv : σ → Prop) {Post : ρ → Prop} (hstop : ∀ s r, Inv s → body s = .stop r → Post r)
    (hnext : ∀ s s', Inv s → body s = .next s' → Inv s' ∧ lt (measure s') (measure s))
    (h : Inv s) : ∃ r, Yields (run body s) r ∧ Post r := by
  generalize hm : measure s = m
  induction m using hwf.induction generalizing s with
  | _ m ih =>
    cases hb : body s with
    | stop r => exact ⟨r, yields_of_stop hb, hstop s r h hb⟩
    | next s' =>
      obtain ⟨hs', hlt⟩ := hnext s s' h hb
      obtain ⟨r, hr, hpost⟩ := ih _ (hm ▸ hlt) hs' rfl
      exact ⟨r, (yields_next_iff hb).mpr hr, hpost⟩

/-- A measure in the natural numbers bounds the rounds. -/
theorem run_of_measure (measure : σ → Nat) (Inv : σ → Prop) {Post : ρ → Prop}
    (hstop : ∀ s r, Inv s → body s = .stop r → Post r)
    (hnext : ∀ s s', Inv s → body s = .next s' → Inv s' ∧ measure s' < measure s) (h : Inv s) :
    ∃ r, run body s (measure s + 1) = some r ∧ Post r := by
  generalize hm : measure s = m
  induction m using Nat.strong_induction_on generalizing s with
  | _ m ih =>
    rw [run]
    cases hb : body s with
    | stop r => exact ⟨r, rfl, hstop s r h hb⟩
    | next s' =>
      obtain ⟨hs', hlt⟩ := hnext s s' h hb
      rw [hm] at hlt
      obtain ⟨r, hr, hpost⟩ := ih _ hlt hs' rfl
      exact ⟨r, run_mono hr hlt, hpost⟩

/-- Partial correctness. -/
theorem post_of_run {n : Nat} (hr : run body s n = some r) (Inv : σ → Prop) {Post : ρ → Prop}
    (hstop : ∀ s r, Inv s → body s = .stop r → Post r)
    (hnext : ∀ s s', Inv s → body s = .next s' → Inv s') (h : Inv s) : Post r := by
  induction n generalizing s with
  | zero => cases hr
  | succ n ih =>
    rw [run] at hr
    cases hb : body s with
    | stop r' =>
      rw [hb] at hr
      exact Option.some.inj hr ▸ hstop s r' h hb
    | next s' =>
      rw [hb] at hr
      exact ih hr (hnext s s' h hb)

end Loop
end AdGraphDb
