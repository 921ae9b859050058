import Mathlib.Data.List.Nodup
import Mathlib.Tactic
import AdGraphDb.Foundation.Simulation

/-!
# Counters that several parties draw from

The first counter is the owner's; a party starts with a copy of it, and the owner's can
be raised up to any counter. Everything between the first value and the largest counter
has then been drawn, so what is drawn is new exactly when no other counter is ahead.
-/

namespace AdGraphDb

namespace Counters

/-- One step of one party, with the value that it draws. -/
inductive Step : List ℕ → Option ℕ → List ℕ → Prop
  | skip (cs : List ℕ) : Step cs none cs
  | draw {cs : List ℕ} {i c : ℕ} (hc : cs[i]? = some c) : Step cs (some c) (cs.set i (c + 1))
  | clone {cs : List ℕ} {c : ℕ} (hc : cs[0]? = some c) : Step cs none (cs ++ [c])
  | raise {cs : List ℕ} {c c' : ℕ} (hc : cs[0]? = some c) (hle : c ≤ c')
    (hmax : ∃ d ∈ cs, c' ≤ d) : Step cs none (cs.set 0 c')

/-- No counter is ahead of the one that is drawn from. -/
def Leads (cs : List ℕ) (o : Option ℕ) : Prop := ∀ c, o = some c → ∀ d ∈ cs, d ≤ c

instance (cs : List ℕ) (o : Option ℕ) : Decidable (Leads cs o) :=
  inferInstanceAs (Decidable (∀ c ∈ o, ∀ d ∈ cs, d ≤ c))

variable {cs cs' : List ℕ} {o : Option ℕ}

/-- Replacing a counter by a larger one keeps what lies below some counter. -/
theorem exists_lt_set {i c c' x : ℕ} (h : ∃ d ∈ cs, x < d) (hc : cs[i]? = some c) (hle : c ≤ c') :
    ∃ d ∈ cs.set i c', x < d := by
  have hi := (List.getElem?_eq_some_iff.mp hc).1
  obtain ⟨d, hd, hxd⟩ := h
  obtain ⟨j, hj⟩ := List.mem_iff_getElem?.mp hd
  by_cases hij : i = j
  · subst hij
    obtain rfl := Option.some.inj (hc.symm.trans hj)
    exact ⟨c', List.mem_iff_getElem?.mpr ⟨i, List.getElem?_set_self hi⟩, by omega⟩
  · exact ⟨d, List.mem_iff_getElem?.mpr ⟨j, by rwa [List.getElem?_set_ne hij]⟩, hxd⟩

/-- The largest counter grows by at most what is drawn. -/
theorem Step.bound {n : ℕ} (hs : Step cs o cs') (h : ∀ c ∈ cs, c ≤ n) :
    ∀ c ∈ cs', c ≤ n + o.toList.length := by
  intro c hc
  cases hs with
  | skip => exact h c hc
  | draw hd =>
    rcases List.mem_or_eq_of_mem_set hc with hc | rfl
    · exact Nat.le_succ_of_le (h c hc)
    · exact Nat.succ_le_succ (h _ (List.mem_of_getElem? hd))
  | clone hd =>
    rcases List.mem_append.mp hc with hc | hc
    · exact h c hc
    · exact List.mem_singleton.mp hc ▸ h _ (List.mem_of_getElem? hd)
  | raise hd hle hmax =>
    obtain ⟨d, hdm, hd⟩ := hmax
    rcases List.mem_or_eq_of_mem_set hc with hc | rfl
    · exact h c hc
    · exact Nat.le_trans hd (h d hdm)

/-- What has been drawn since all counters were at `a`: everything up to the largest
counter. -/
structure Covers (a : ℕ) (cs drawn : List ℕ) : Prop where
  le : ∀ d ∈ cs, a ≤ d
  mem_iff : ∀ x, x ∈ drawn ↔ a ≤ x ∧ ∃ d ∈ cs, x < d

variable {a : ℕ} {drawn : List ℕ}

theorem Covers.start (a : ℕ) : Covers a [a] [] where
  le d hd := (List.mem_singleton.mp hd).ge
  mem_iff x := by simp

/-- Raising a counter up to another one, or copying it, uncovers nothing. -/
theorem Covers.of_le (h : Covers a cs drawn) (hle : ∀ d ∈ cs', a ≤ d ∧ ∃ d' ∈ cs, d ≤ d')
    (hlt : ∀ x, (∃ d ∈ cs, x < d) → ∃ d ∈ cs', x < d) : Covers a cs' drawn where
  le d hd := (hle d hd).1
  mem_iff x := by
    rw [h.mem_iff x]
    refine and_congr_right fun _ => ⟨hlt x, ?_⟩
    rintro ⟨d, hd, hxd⟩
    obtain ⟨d', hd', hdd'⟩ := (hle d hd).2
    exact ⟨d', hd', hxd.trans_le hdd'⟩

theorem Covers.draw {i c : ℕ} (h : Covers a cs drawn) (hc : cs[i]? = some c) :
    Covers a (cs.set i (c + 1)) (drawn ++ [c]) where
  le d hd := by
    rcases List.mem_or_eq_of_mem_set hd with hd | rfl
    · exact h.le d hd
    · exact Nat.le_succ_of_le (h.le c (List.mem_of_getElem? hc))
  mem_iff x := by
    have hi := (List.getElem?_eq_some_iff.mp hc).1
    have hmem : c + 1 ∈ cs.set i (c + 1) :=
      List.mem_iff_getElem?.mpr ⟨i, List.getElem?_set_self hi⟩
    rw [List.mem_append, List.mem_singleton, h.mem_iff x]
    constructor
    · rintro (⟨hax, hx⟩ | rfl)
      · exact ⟨hax, exists_lt_set hx hc (Nat.le_succ c)⟩
      · exact ⟨h.le x (List.mem_of_getElem? hc), x + 1, hmem, Nat.lt_succ_self x⟩
    · rintro ⟨hax, d, hd, hxd⟩
      rcases List.mem_or_eq_of_mem_set hd with hd | rfl
      · exact .inl ⟨hax, d, hd, hxd⟩
      · by_cases hxc : x = c
        · exact .inr hxc
        · exact .inl ⟨hax, c, List.mem_of_getElem? hc, by omega⟩

theorem Covers.step (h : Covers a cs drawn) (hs : Step cs o cs') :
    Covers a cs' (drawn ++ o.toList) := by
  cases hs with
  | draw hc => exact h.draw hc
  | skip => rwa [Option.toList_none, List.append_nil]
  | @clone c hc =>
    rw [Option.toList_none, List.append_nil]
    have hmem := List.mem_of_getElem? hc
    apply h.of_le
    · intro d hd
      rcases List.mem_append.mp hd with hd | hd
      · exact ⟨h.le d hd, d, hd, le_rfl⟩
      · obtain rfl := List.mem_singleton.mp hd
        exact ⟨h.le d hmem, d, hmem, le_rfl⟩
    · rintro x ⟨d, hd, hxd⟩
      exact ⟨d, List.mem_append_left _ hd, hxd⟩
  | @raise c c' hc hle hmax =>
    rw [Option.toList_none, List.append_nil]
    apply h.of_le
    · intro d hd
      rcases List.mem_or_eq_of_mem_set hd with hd | rfl
      · exact ⟨h.le d hd, d, hd, le_rfl⟩
      · exact ⟨(h.le c (List.mem_of_getElem? hc)).trans hle, hmax⟩
    · intro x hx
      exact exists_lt_set hx hc hle

/-- A draw is new if and only if no counter is ahead. -/
theorem Covers.nodup_append_iff (h : Covers a cs drawn) (hs : Step cs o cs') :
    (drawn ++ o.toList).Nodup ↔ drawn.Nodup ∧ Leads cs o := by
  cases o with
  | none => simp [Leads]
  | some c =>
    have hac : a ≤ c := by
      cases hs with
      | draw hc => exact h.le c (List.mem_of_getElem? hc)
    have hnew : c ∉ drawn ↔ Leads cs (some c) := by
      rw [h.mem_iff c]
      constructor
      · rintro hnot c' hc' d hd
        obtain rfl := Option.some.inj hc'
        exact not_lt.mp fun hlt => hnot ⟨hac, d, hd, hlt⟩
      · rintro hl ⟨-, d, hd, hlt⟩
        exact absurd (hl c rfl d hd) (not_le.mpr hlt)
    rw [Option.toList_some, ← hnew, ← List.concat_eq_append, List.nodup_concat]
    exact and_comm

/-! ## Runs of a machine -/

variable {S I O : Type*} {step : I → S → O × S} {counters : S → List ℕ} {draw : I → S → Option ℕ}

/-- What a run draws. -/
def draws (draw : I → S → Option ℕ) (step : I → S → O × S) (inputs : List I) (s : S) : List ℕ :=
  (Machine.trace draw step inputs s).filterMap id

theorem draws_cons (i : I) (inputs : List I) (s : S) : draws draw step (i :: inputs) s =
    (draw i s).toList ++ draws draw step inputs (step i s).2 := by
  unfold draws
  rw [Machine.trace]
  cases draw i s <;> rfl

theorem Covers.nodup_run_iff {earlier : List ℕ} {inputs : List I} {s : S}
    (h : Covers a (counters s) earlier)
    (hs : Machine.Along (fun i s => Step (counters s) (draw i s) (counters (step i s).2)) step
      inputs s) :
    (earlier ++ draws draw step inputs s).Nodup ↔
      earlier.Nodup ∧ Machine.Along (fun i s => Leads (counters s) (draw i s)) step inputs s := by
  induction inputs generalizing earlier s with
  | nil => simp [draws, Machine.trace, Machine.Along]
  | cons i inputs ih =>
    rw [draws_cons, ← List.append_assoc, ih (h.step hs.1) hs.2, h.nodup_append_iff hs.1, and_assoc]
    rfl

/-- From a single counter on, a run draws distinct values if and only if it only ever
draws from a counter that no other one is ahead of. -/
theorem nodup_draws_iff {inputs : List I} {s : S} (h : counters s = [a])
    (hs : Machine.Along (fun i s => Step (counters s) (draw i s) (counters (step i s).2)) step
      inputs s) :
    (draws draw step inputs s).Nodup ↔
      Machine.Along (fun i s => Leads (counters s) (draw i s)) step inputs s := by
  have := Covers.nodup_run_iff (h ▸ Covers.start a) hs
  rwa [List.nil_append, and_iff_right List.nodup_nil] at this

end Counters

end AdGraphDb
