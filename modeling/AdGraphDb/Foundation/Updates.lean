import AdGraphDb.Foundation.HashMap

/-!
# Sequences of keyed updates

A log of puts and deletes acts on a map key by key: the last update of a key
decides, and a key without an update keeps its entry. Consequently a sequence of
updates leaves a map as it was exactly when the last update of every key in it
agrees with the map.
-/

namespace AdGraphDb

/-- One change to a keyed store. -/
inductive Update (K V : Type) where
  | put (k : K) (v : V)
  | del (k : K)

namespace Update

variable {K V : Type}

def key : Update K V → K
  | put k _ => k
  | del k => k

/-- What the update leaves under its key. -/
def image : Update K V → Option V
  | put _ v => some v
  | del _ => none

/-- What the last update of `k` in the sequence leaves, if there is one. -/
def last? [DecidableEq K] (k : K) : List (Update K V) → Option (Option V)
  | [] => none
  | u :: us => (last? k us).or (if u.key = k then some u.image else none)

section

variable [DecidableEq K]

theorem last?_isSome {k : K} {us : List (Update K V)} (h : (last? k us).isSome) :
    ∃ u ∈ us, u.key = k := by
  induction us with
  | nil => simp [last?] at h
  | cons u us ih =>
    by_cases hk : u.key = k
    · exact ⟨u, List.mem_cons_self, hk⟩
    · rw [last?, if_neg hk, Option.or_none] at h
      obtain ⟨v, hv, e⟩ := ih h
      exact ⟨v, List.mem_cons_of_mem _ hv, e⟩

theorem last?_of_mem {u : Update K V} {us : List (Update K V)} (h : u ∈ us) :
    (last? u.key us).isSome := by
  induction us with
  | nil => cases h
  | cons v us ih =>
    rw [last?, Option.isSome_or, Bool.or_eq_true]
    rcases List.mem_cons.mp h with rfl | h
    · exact .inr (by simp)
    · exact .inl (ih h)

end

section

variable [Ord K] [Std.TransOrd K]

def apply (m : HashMap K V) : Update K V → HashMap K V
  | put k v => m.insert k v
  | del k => m.erase k

def applyAll (m : HashMap K V) (us : List (Update K V)) : HashMap K V := us.foldl apply m

@[simp] theorem applyAll_nil (m : HashMap K V) : applyAll m [] = m := rfl

@[simp] theorem applyAll_cons (m : HashMap K V) (u : Update K V) (us : List (Update K V)) :
    applyAll m (u :: us) = applyAll (apply m u) us := rfl

theorem applyAll_append (m : HashMap K V) (us vs : List (Update K V)) :
    applyAll m (us ++ vs) = applyAll (applyAll m us) vs := List.foldl_append

variable [Std.LawfulEqOrd K] [DecidableEq K]

theorem getElem?_apply (m : HashMap K V) (u : Update K V) (k : K) :
    (apply m u)[k]? = if u.key = k then u.image else m[k]? := by
  cases u with
  | put j v => exact HashMap.getElem?_insert' m j k v
  | del j => exact HashMap.getElem?_erase' m j k

/-- The last update of a key decides; without one the entry stays. -/
theorem getElem?_applyAll (m : HashMap K V) (us : List (Update K V)) (k : K) :
    (applyAll m us)[k]? = (last? k us).getD m[k]? := by
  induction us generalizing m with
  | nil => rfl
  | cons u us ih =>
    rw [applyAll_cons, ih, getElem?_apply, last?]
    cases last? k us with
    | some r => rfl
    | none => split_ifs <;> rfl

/-- A property of the entries that all puts have is kept. -/
theorem applyAll_entries {P : K → V → Prop} {m : HashMap K V} {us : List (Update K V)}
    (hm : ∀ k v, m[k]? = some v → P k v) (hu : ∀ k v, put k v ∈ us → P k v) (k : K) (v : V)
    (h : (applyAll m us)[k]? = some v) : P k v := by
  induction us generalizing m with
  | nil => exact hm k v h
  | cons u us ih =>
    refine ih ?_ (fun k v hk => hu k v (List.mem_cons_of_mem u hk)) h
    intro k v hk
    rw [getElem?_apply] at hk
    split_ifs at hk with he
    · cases u with
      | put j w =>
        cases Option.some.inj hk
        subst he
        exact hu j v List.mem_cons_self
      | del j => cases hk
    · exact hm k v hk

/-- The last update of every key in `us` is what `m` holds already. -/
def Settled (m : HashMap K V) (us : List (Update K V)) : Prop :=
  ∀ u ∈ us, last? u.key us = some m[u.key]?

instance [DecidableEq V] (m : HashMap K V) (us : List (Update K V)) : Decidable (Settled m us) :=
  inferInstanceAs (Decidable (∀ u ∈ us, last? u.key us = some m[u.key]?))

theorem applyAll_eq_self_iff (m : HashMap K V) (us : List (Update K V)) :
    applyAll m us = m ↔ Settled m us := by
  constructor
  · intro h u hu
    obtain ⟨r, hr⟩ := Option.isSome_iff_exists.mp (last?_of_mem hu)
    have hk := getElem?_applyAll m us u.key
    rw [h, hr, Option.getD_some] at hk
    rw [hr, hk]
  · intro h
    refine HashMap.ext fun k => ?_
    rw [getElem?_applyAll]
    cases hl : last? k us with
    | none => rfl
    | some r =>
      obtain ⟨u, hu, rfl⟩ := last?_isSome (by rw [hl]; rfl)
      have hs := h u hu
      rw [hl] at hs
      exact Option.some.inj hs

end

/-! ## Insertions first -/

def isDel : Update K V → Bool
  | put _ _ => false
  | del _ => true

@[simp] theorem isDel_put (k : K) (v : V) : (put k v).isDel = false := rfl

@[simp] theorem isDel_del (k : K) : (del (V := V) k).isDel = true := rfl

/-- The puts in their order, then the deletions in theirs. -/
def grouped (us : List (Update K V)) : List (Update K V) :=
  us.filter (fun u => !u.isDel) ++ us.filter isDel

/-- A key that is deleted at all is deleted by its last update. -/
def DeletesLast [DecidableEq K] (us : List (Update K V)) : Prop :=
  ∀ u ∈ us, u.isDel → last? u.key us = some none

instance [DecidableEq K] [DecidableEq V] (us : List (Update K V)) : Decidable (DeletesLast us) :=
  inferInstanceAs (Decidable (∀ u ∈ us, u.isDel → last? u.key us = some none))

theorem image_of_isDel {u : Update K V} (h : u.isDel) : u.image = none := by
  cases u with
  | put k v => cases h
  | del k => rfl

section

variable [DecidableEq K]

theorem last?_append (k : K) (us vs : List (Update K V)) :
    last? k (us ++ vs) = (last? k vs).or (last? k us) := by
  induction us with
  | nil => exact (Option.or_none).symm
  | cons u us ih => rw [List.cons_append, last?, last?, ih, Option.or_assoc]

theorem last?_eq_none {k : K} {us : List (Update K V)} (h : ∀ u ∈ us, u.key ≠ k) :
    last? k us = none := by
  rw [← Option.not_isSome_iff_eq_none]
  intro hs
  obtain ⟨u, hu, hk⟩ := last?_isSome hs
  exact h u hu hk

/-- Updates of other keys do not matter. -/
theorem last?_filter {k : K} {p : Update K V → Bool} {us : List (Update K V)}
    (h : ∀ u ∈ us, u.key = k → p u) : last? k (us.filter p) = last? k us := by
  induction us with
  | nil => rfl
  | cons u us ih =>
    have htail := ih fun v hv => h v (List.mem_cons_of_mem u hv)
    by_cases hp : p u
    · rw [List.filter_cons_of_pos hp, last?, last?, htail]
    · have hk : u.key ≠ k := fun e => hp (h u List.mem_cons_self e)
      rw [List.filter_cons_of_neg hp, last?, if_neg hk, Option.or_none, htail]

theorem last?_dels {u : Update K V} {us : List (Update K V)} (hu : u ∈ us) (hd : u.isDel) :
    last? u.key (us.filter isDel) = some none := by
  have hmem : u ∈ us.filter isDel := List.mem_filter.mpr ⟨hu, hd⟩
  have hall : ∀ v ∈ us.filter isDel, v.isDel := fun v hv => (List.mem_filter.mp hv).2
  have hsome := last?_of_mem hmem
  revert hall hsome
  generalize us.filter isDel = ds
  intro hall hsome
  clear hmem
  induction ds with
  | nil => cases hsome
  | cons v ds ih =>
    rw [last?]
    cases hl : last? u.key ds with
    | some r =>
      have hr := ih (fun w hw => hall w (List.mem_cons_of_mem v hw)) (by rw [hl]; rfl)
      rw [hl] at hr
      rw [hr]
      rfl
    | none =>
      rw [last?, hl, Option.none_or] at hsome
      split_ifs at hsome ⊢ with hk
      · rw [image_of_isDel (hall v List.mem_cons_self)]
        rfl
      · cases hsome

/-- Grouping makes a deletion the last word on its key. -/
theorem last?_grouped (k : K) (us : List (Update K V)) :
    last? k (grouped us) = if ∃ u ∈ us, u.isDel ∧ u.key = k then some none else last? k us := by
  rw [grouped, last?_append]
  split_ifs with h
  · obtain ⟨u, hu, hd, rfl⟩ := h
    rw [last?_dels hu hd]
    rfl
  · have hnone : last? k (us.filter isDel) = none := by
      apply last?_eq_none
      intro u hu hk
      obtain ⟨hu, hd⟩ := List.mem_filter.mp hu
      exact h ⟨u, hu, hd, hk⟩
    rw [hnone, Option.none_or]
    apply last?_filter
    intro u hu hk
    rw [Bool.not_eq_true']
    by_contra hd
    exact h ⟨u, hu, Bool.eq_true_of_not_eq_false hd, hk⟩

end

section

variable [Ord K] [Std.TransOrd K] [Std.LawfulEqOrd K] [DecidableEq K]

/-- Grouping the updates of a map is harmless exactly when every deletion is the last
update of its key. -/
theorem applyAll_grouped_iff (m : HashMap K V) (us : List (Update K V)) :
    applyAll m (grouped us) = applyAll m us ↔ DeletesLast us := by
  constructor
  · intro h u hu hd
    obtain ⟨r, hr⟩ := Option.isSome_iff_exists.mp (last?_of_mem hu)
    have hk := getElem?_applyAll m (grouped us) u.key
    rw [h, getElem?_applyAll, last?_grouped, if_pos ⟨u, hu, hd, rfl⟩, hr] at hk
    rw [hr]
    exact congrArg some hk
  · intro h
    refine HashMap.ext fun k => ?_
    rw [getElem?_applyAll, getElem?_applyAll, last?_grouped]
    split_ifs with hdel
    · obtain ⟨u, hu, hd, rfl⟩ := hdel
      rw [h u hu hd]
    · rfl

end

end Update

end AdGraphDb
