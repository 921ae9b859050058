import Mathlib.Tactic
import Mathlib.Data.List.Perm.Basic
import Mathlib.Data.List.Nodup
import Mathlib.Data.Nat.Pairing

/-!
# Hash maps with an unspecified iteration order

A hash map is its finite set of entries: two maps with the same entries are the
same value. The order in which a loop meets the entries is not part of the map;
every function that iterates takes a `HashOrder`, an arbitrary rearrangement of
the entries.
-/

namespace AdGraphDb
open Std

abbrev HashMap (K V : Type) [Ord K] := ExtTreeMap K V compare

/-- One possible behaviour of the iteration order of hash maps. The number tells maps
with the same entries apart. -/
structure HashOrder where
  order : Nat → {α : Type} → List α → List α
  perm : ∀ (n : Nat) {α : Type} (l : List α), (order n l).Perm l

namespace HashOrder

/-- The order of the keys. -/
def sorted : HashOrder := ⟨fun _ => id, fun _ _ => .refl⟩

/-- The opposite order. -/
def reversed : HashOrder := ⟨fun _ => List.reverse, fun _ _ l => l.reverse_perm⟩

/-- The behaviour of the `n`-th of several maps. -/
def nth (ord : HashOrder) (n : Nat) : HashOrder := ⟨fun _ => ord.order n, fun _ => ord.perm n⟩

/-- The behaviours left for the `n`-th of several calls that enumerate maps themselves. -/
def sub (ord : HashOrder) (n : Nat) : HashOrder :=
  ⟨fun k => ord.order (Nat.pair n k), fun k => ord.perm (Nat.pair n k)⟩

@[simp] theorem mem_order (ord : HashOrder) {n : Nat} {α : Type} {l : List α} {a : α} :
    a ∈ ord.order n l ↔ a ∈ l := (ord.perm n l).mem_iff

@[simp] theorem length_order (ord : HashOrder) (n : Nat) {α : Type} (l : List α) :
    (ord.order n l).length = l.length := (ord.perm n l).length_eq

end HashOrder

namespace HashMap

variable {K V : Type} [Ord K]

/-- The entries, in the order a loop over the map meets them. -/
def iter (ord : HashOrder) (m : HashMap K V) [TransOrd K] : List (K × V) := ord.order 0 m.toList

def keysIter (ord : HashOrder) (m : HashMap K V) [TransOrd K] : List K :=
  (iter ord m).map Prod.fst

def valuesIter (ord : HashOrder) (m : HashMap K V) [TransOrd K] : List V :=
  (iter ord m).map Prod.snd

/-- The values, as a multiset listed in key order. -/
def vals (m : HashMap K V) [TransOrd K] : List V := m.toList.map Prod.snd

variable [TransOrd K]

theorem valuesIter_perm (ord : HashOrder) (m : HashMap K V) : (valuesIter ord m).Perm (vals m) :=
  (ord.perm 0 _).map _

theorem keysIter_perm (ord : HashOrder) (m : HashMap K V) :
    (keysIter ord m).Perm (m.toList.map Prod.fst) := (ord.perm 0 _).map _

/-- `Iterator::min_by_key`: the first of the smallest elements. -/
def minByKey {α β : Type} [LT β] [DecidableLT β] (f : α → β) : List α → Option α
  | [] => none
  | a :: l => some (l.foldl (fun best x => if f x < f best then x else best) a)

omit [TransOrd K] in
theorem mem_of_minByKey {α β : Type} [LT β] [DecidableLT β] {f : α → β} {l : List α} {a : α}
    (h : minByKey f l = some a) : a ∈ l := by
  have best_mem (l : List α) (b : α) :
      l.foldl (fun best x => if f x < f best then x else best) b ∈ b :: l := by
    induction l generalizing b with
    | nil => exact List.mem_singleton.mpr rfl
    | cons x l ih =>
      rw [List.foldl_cons]
      rcases List.mem_cons.mp (ih (if f x < f b then x else b)) with hb | hb
      · rw [hb]
        split_ifs
        · exact List.mem_cons_of_mem b List.mem_cons_self
        · exact List.mem_cons_self
      · exact List.mem_cons_of_mem b (List.mem_cons_of_mem x hb)
  cases l with
  | nil => cases h
  | cons b l =>
    obtain rfl := Option.some.inj h
    exact best_mem l b

omit [TransOrd K] in
/-- The least element is kept once it has been met. -/
theorem foldl_best_eq {α β : Type} [LT β] [DecidableLT β] {f : α → β} {l : List α} {a b : α}
    (hasymm : ∀ x y : β, x < y → ¬ y < x) (ha : a ∈ b :: l)
    (hleast : ∀ x ∈ b :: l, x ≠ a → f a < f x) :
    l.foldl (fun best x => if f x < f best then x else best) b = a := by
  induction l generalizing b with
  | nil => exact (List.mem_singleton.mp ha).symm
  | cons x l ih =>
    have hb : b ≠ a → f a < f b := hleast b List.mem_cons_self
    have hx : x ≠ a → f a < f x := hleast x (List.mem_cons_of_mem b List.mem_cons_self)
    rw [List.foldl_cons]
    apply ih
    · -- of the best so far and the next element the least is taken on, if it is one of them
      rcases List.mem_cons.mp ha with rfl | ha
      · split_ifs with hlt
        · by_cases hxa : x = a
          · exact hxa ▸ List.mem_cons_self
          · exact absurd hlt (hasymm _ _ (hx hxa))
        · exact List.mem_cons_self
      · rcases List.mem_cons.mp ha with rfl | ha
        · split_ifs with hlt
          · exact List.mem_cons_self
          · by_cases hba : b = a
            · exact hba ▸ List.mem_cons_self
            · exact absurd (hb hba) hlt
        · exact List.mem_cons_of_mem _ ha
    · intro y hy
      rcases List.mem_cons.mp hy with rfl | hy
      · split_ifs
        · exact hx
        · exact hb
      · exact hleast y (List.mem_cons_of_mem b (List.mem_cons_of_mem x hy))

omit [TransOrd K] in
/-- An element below all others is found wherever it stands. -/
theorem minByKey_of_least {α β : Type} [LT β] [DecidableLT β] {f : α → β} {l : List α} {a : α}
    (hasymm : ∀ x y : β, x < y → ¬ y < x) (ha : a ∈ l) (hleast : ∀ b ∈ l, b ≠ a → f a < f b) :
    minByKey f l = some a := by
  cases l with
  | nil => cases ha
  | cons b l => exact congrArg some (foldl_best_eq hasymm ha hleast)

section
variable {α β : Type} [LinearOrder β] {f : α → β} {l : List α} {a : α}

omit [TransOrd K] in
/-- What is found stands behind larger elements and in front of elements that are no smaller. -/
theorem exists_of_minByKey (h : minByKey f l = some a) : ∃ pre post, l = pre ++ a :: post ∧
    (∀ x ∈ pre, f a < f x) ∧ ∀ x ∈ post, f a ≤ f x := by
  have loop (l : List α) (b : α) :
      l.foldl (fun best x => if f x < f best then x else best) b = a →
        ∃ pre post, b :: l = pre ++ a :: post ∧ (∀ x ∈ pre, f a < f x) ∧ ∀ x ∈ post, f a ≤ f x := by
    induction l generalizing b with
    | nil =>
      rintro rfl
      exact ⟨[], [], rfl, nofun, nofun⟩
    | cons x l ih =>
      intro hl
      rw [List.foldl_cons] at hl
      obtain ⟨pre, post, heq, hpre, hpost⟩ := ih _ hl
      split_ifs at heq with hx
      · refine ⟨b :: pre, post, by rw [heq]; rfl, fun y hy => ?_, hpost⟩
        rcases List.mem_cons.mp hy with rfl | hy
        · cases pre with
          | nil => exact (List.cons.inj heq).1 ▸ hx
          | cons z pre => exact ((List.cons.inj heq).1 ▸ hpre z List.mem_cons_self).trans hx
        · exact hpre y hy
      · cases pre with
        | nil =>
          obtain ⟨rfl, rfl⟩ := List.cons.inj heq
          refine ⟨[], x :: l, rfl, nofun, fun y hy => ?_⟩
          rcases List.mem_cons.mp hy with rfl | hy
          · exact le_of_not_gt hx
          · exact hpost y hy
        | cons z pre =>
          obtain ⟨rfl, rfl⟩ := List.cons.inj heq
          refine ⟨b :: x :: pre, post, rfl, fun y hy => ?_, hpost⟩
          rcases List.mem_cons.mp hy with rfl | hy
          · exact hpre _ List.mem_cons_self
          · rcases List.mem_cons.mp hy with rfl | hy
            · exact (hpre b List.mem_cons_self).trans_le (le_of_not_gt hx)
            · exact hpre y (List.mem_cons_of_mem b hy)
  cases l with
  | nil => cases h
  | cons b l => exact loop l b (Option.some.inj h)

omit [TransOrd K] in
theorem le_of_minByKey (h : minByKey f l = some a) {b : α} (hb : b ∈ l) : f a ≤ f b := by
  obtain ⟨pre, post, rfl, hpre, hpost⟩ := exists_of_minByKey h
  rcases List.mem_append.mp hb with hb | hb
  · exact (hpre b hb).le
  rcases List.mem_cons.mp hb with rfl | hb
  · exact le_rfl
  · exact hpost b hb

omit [TransOrd K] in
theorem minByKey_append {pre post : List α} (hpre : ∀ x ∈ pre, f a < f x)
    (hpost : ∀ x ∈ post, f a ≤ f x) : minByKey f (pre ++ a :: post) = some a := by
  have kept (l : List α) (hl : ∀ x ∈ l, f a ≤ f x) :
      l.foldl (fun best x => if f x < f best then x else best) a = a := by
    induction l with
    | nil => rfl
    | cons x l ih =>
      rw [List.foldl_cons, if_neg (hl x List.mem_cons_self).not_gt,
        ih fun y hy => hl y (List.mem_cons_of_mem x hy)]
  have taken (l : List α) (b : α) (hl : ∀ x ∈ b :: l, f a < f x) :
      (l ++ a :: post).foldl (fun best x => if f x < f best then x else best) b = a := by
    induction l generalizing b with
    | nil =>
      rw [List.nil_append, List.foldl_cons, if_pos (hl b List.mem_cons_self), kept post hpost]
    | cons x l ih =>
      rw [List.cons_append, List.foldl_cons]
      refine ih _ fun y hy => ?_
      rcases List.mem_cons.mp hy with rfl | hy
      · split_ifs
        · exact hl x (List.mem_cons_of_mem b List.mem_cons_self)
        · exact hl b List.mem_cons_self
      · exact hl y (List.mem_cons_of_mem b (List.mem_cons_of_mem x hy))
  cases pre with
  | nil => exact congrArg some (kept post hpost)
  | cons b pre => exact congrArg some (taken pre b hpre)

omit [TransOrd K] in
/-- Fewer candidates leave the choice if it is one of them. -/
theorem minByKey_filter {p q : α → Bool} (hpq : ∀ x, p x = true → q x = true)
    (h : minByKey f (l.filter q) = some a) (ha : p a = true) :
    minByKey f (l.filter p) = some a := by
  obtain ⟨pre, post, heq, hpre, hpost⟩ := exists_of_minByKey h
  have hfilter : l.filter p = (l.filter q).filter p := by
    rw [List.filter_filter]
    apply List.filter_congr
    intro x _
    cases hp : p x with
    | false => rfl
    | true => rw [hpq x hp, Bool.true_and]
  rw [hfilter, heq, List.filter_append, List.filter_cons_of_pos ha]
  exact minByKey_append (fun x hx => hpre x (List.mem_filter.mp hx).1)
    fun x hx => hpost x (List.mem_filter.mp hx).1

end

variable [LawfulEqOrd K]

omit [TransOrd K] in
theorem compare_eq_iff {a b : K} : compare a b = .eq ↔ a = b :=
  ⟨fun h => LawfulEqOrd.eq_of_compare h, fun h => h ▸ ReflOrd.compare_self⟩

@[simp] theorem getElem?_insert' [DecidableEq K] (m : HashMap K V) (k a : K) (v : V) :
    (m.insert k v)[a]? = if k = a then some v else m[a]? := by
  rw [ExtTreeMap.getElem?_insert]
  simp only [compare_eq_iff]

@[simp] theorem getElem?_erase' [DecidableEq K] (m : HashMap K V) (k a : K) :
    (m.erase k)[a]? = if k = a then none else m[a]? := by
  rw [ExtTreeMap.getElem?_erase]
  simp only [compare_eq_iff]

theorem ext {m m' : HashMap K V} (h : ∀ k : K, m[k]? = m'[k]?) : m = m' :=
  ExtTreeMap.ext_getElem? h

theorem mem_toList {m : HashMap K V} {p : K × V} : p ∈ m.toList ↔ m[p.1]? = some p.2 :=
  ExtTreeMap.mem_toList_iff_getElem?_eq_some

theorem mem_vals {m : HashMap K V} {v : V} : v ∈ vals m ↔ ∃ k : K, m[k]? = some v := by
  simp only [vals, List.mem_map, mem_toList, Prod.exists]
  exact ⟨fun ⟨k, _, h, e⟩ => ⟨k, e ▸ h⟩, fun ⟨k, h⟩ => ⟨k, v, h, rfl⟩⟩

theorem nodup_keys (m : HashMap K V) : (m.toList.map Prod.fst).Nodup := by
  refine List.pairwise_map.mpr ?_
  exact (ExtTreeMap.distinct_keys_toList (t := m)).imp fun h e => h (compare_eq_iff.mpr e)

theorem nodup_toList (m : HashMap K V) : m.toList.Nodup := (nodup_keys m).of_map

/-- The values of a map whose values know their keys have distinct keys. -/
theorem nodup_valuesIter (ord : HashOrder) {m : HashMap K V} {key : V → K}
    (h : ∀ (k : K) (v : V), m[k]? = some v → key v = k) :
    ((m.valuesIter ord).map key).Nodup := by
  have he : (m.valuesIter ord).map key = (m.iter ord).map Prod.fst := by
    rw [valuesIter, List.map_map]
    refine List.map_congr_left fun p hp => ?_
    exact h p.1 p.2 (mem_toList.mp (ord.mem_order.mp hp))
  rw [he]
  exact (keysIter_perm ord m).nodup_iff.mpr (nodup_keys m)

theorem nodup_vals {m : HashMap K V} {key : V → K}
    (h : ∀ (k : K) (v : V), m[k]? = some v → key v = k) : m.vals.Nodup :=
  (valuesIter_perm .sorted m).nodup_iff.mp (nodup_valuesIter .sorted h).of_map

theorem mem_keys {m : HashMap K V} {k : K} : k ∈ m.toList.map Prod.fst ↔ m[k]?.isSome := by
  simp only [List.mem_map, mem_toList, Prod.exists, exists_and_right, exists_eq_right,
    Option.isSome_iff_exists]

/-- Looking up every key gives the values. -/
theorem filterMap_keys (m : HashMap K V) :
    (m.toList.map Prod.fst).filterMap (fun k => m[k]?) = vals m := by
  have h (l : List (K × V)) (hl : ∀ p ∈ l, p ∈ m.toList) :
      (l.map Prod.fst).filterMap (fun k => m[k]?) = l.map Prod.snd := by
    induction l with
    | nil => rfl
    | cons p l ih =>
      rw [List.map_cons, List.filterMap_cons_some (mem_toList.mp (hl p List.mem_cons_self)),
        ih fun q hq => hl q (List.mem_cons_of_mem p hq), List.map_cons]
  exact h m.toList fun _ hp => hp

/-- Maps with the same keys list them alike. -/
theorem keys_perm {W : Type} {m : HashMap K V} {m' : HashMap K W}
    (h : ∀ k : K, m[k]?.isSome = m'[k]?.isSome) :
    (m.toList.map Prod.fst).Perm (m'.toList.map Prod.fst) := by
  apply (List.perm_ext_iff_of_nodup (nodup_keys m) (nodup_keys m')).mpr
  intro k
  rw [mem_keys, mem_keys, h k]

theorem size_eq {W : Type} {m : HashMap K V} {m' : HashMap K W}
    (h : ∀ k : K, m[k]?.isSome = m'[k]?.isSome) : m.size = m'.size := by
  have := (keys_perm h).length_eq
  rwa [List.length_map, List.length_map, ExtTreeMap.length_toList, ExtTreeMap.length_toList] at this

variable [DecidableEq K]

theorem toList_insert_perm {m : HashMap K V} {k : K} (h : m[k]? = none) (v : V) :
    (m.insert k v).toList.Perm ((k, v) :: m.toList) := by
  have hk : (k, v) ∉ m.toList := by simp [mem_toList, h]
  refine (List.perm_ext_iff_of_nodup (nodup_toList _) (List.nodup_cons.mpr ⟨hk, nodup_toList m⟩)).mpr ?_
  rintro ⟨a, w⟩
  simp only [mem_toList, getElem?_insert', List.mem_cons, Prod.mk.injEq]
  by_cases ha : k = a
  · subst ha
    simp [h, eq_comm]
  · simp [ha, Ne.symm ha]

theorem toList_erase_perm {m : HashMap K V} {k : K} {v : V} (h : m[k]? = some v) :
    m.toList.Perm ((k, v) :: (m.erase k).toList) := by
  have hk : (k, v) ∉ (m.erase k).toList := by simp [mem_toList]
  refine (List.perm_ext_iff_of_nodup (nodup_toList m)
    (List.nodup_cons.mpr ⟨hk, nodup_toList _⟩)).mpr ?_
  rintro ⟨a, w⟩
  simp only [mem_toList, getElem?_erase', List.mem_cons, Prod.mk.injEq]
  by_cases ha : k = a
  · subst ha
    simp [h, eq_comm]
  · simp [ha, Ne.symm ha]

/-- Erasing a key takes its entry out of the list. -/
theorem toList_erase_filter (m : HashMap K V) (k : K) :
    (m.erase k).toList.Perm (m.toList.filter fun p => p.1 ≠ k) := by
  refine (List.perm_ext_iff_of_nodup (nodup_toList _) ((nodup_toList m).filter _)).mpr ?_
  rintro ⟨a, w⟩
  simp only [mem_toList, getElem?_erase', List.mem_filter, decide_eq_true_eq]
  by_cases ha : k = a
  · subst ha
    simp
  · simp [ha, Ne.symm ha]

theorem vals_insert_perm {m : HashMap K V} {k : K} (h : m[k]? = none) (v : V) :
    (vals (m.insert k v)).Perm (v :: vals m) := (toList_insert_perm h v).map Prod.snd

theorem vals_erase_perm {m : HashMap K V} {k : K} {v : V} (h : m[k]? = some v) :
    (vals m).Perm (v :: vals (m.erase k)) := (toList_erase_perm h).map Prod.snd

theorem erase_eq_self {m : HashMap K V} {k : K} (h : m[k]? = none) : m.erase k = m := by
  refine ext fun a => ?_
  rw [getElem?_erase']
  split_ifs with ha
  · rw [← ha, h]
  · rfl

/-- Inserting a list of entries, the first one first. -/
def insertAll (m : HashMap K V) (l : List (K × V)) : HashMap K V :=
  l.foldl (fun m p => m.insert p.1 p.2) m

omit [TransOrd K] [LawfulEqOrd K] [DecidableEq K] in
@[simp] theorem insertAll_nil [TransOrd K] (m : HashMap K V) : insertAll m [] = m := rfl

omit [LawfulEqOrd K] [DecidableEq K] in
@[simp] theorem insertAll_cons (m : HashMap K V) (p : K × V) (l : List (K × V)) :
    insertAll m (p :: l) = insertAll (m.insert p.1 p.2) l := rfl

/-- With distinct keys the order of the insertions does not matter. -/
theorem getElem?_insertAll {l : List (K × V)} (h : (l.map Prod.fst).Nodup) (m : HashMap K V)
    (k : K) : (insertAll m l)[k]? = ((l.find? fun p => decide (p.1 = k)).map Prod.snd).or m[k]? := by
  induction l generalizing m with
  | nil => simp
  | cons p l ih =>
    rw [List.map_cons, List.nodup_cons] at h
    rw [insertAll_cons, ih h.2, getElem?_insert', List.find?_cons]
    by_cases hp : p.1 = k
    · have hl : l.find? (fun q => decide (q.1 = k)) = none := by
        refine List.find?_eq_none.mpr fun q hq e => h.1 ?_
        rw [hp, ← of_decide_eq_true e]
        exact List.mem_map_of_mem hq
      simp [hp, hl]
    · simp [hp]

theorem insertAll_iter (ord : HashOrder) (m : HashMap K V) : insertAll ∅ (m.iter ord) = m := by
  have hn : ((m.iter ord).map Prod.fst).Nodup :=
    (keysIter_perm ord m).nodup_iff.mpr (nodup_keys m)
  refine ext fun k => ?_
  rw [getElem?_insertAll hn]
  cases hf : (m.iter ord).find? fun p => decide (p.1 = k) with
  | some p =>
    have hp := ord.mem_order.mp (List.mem_of_find?_eq_some hf)
    have hk : p.1 = k := by simpa using List.find?_some hf
    rw [mem_toList, hk] at hp
    simp [hp]
  | none =>
    cases hm : m[k]? with
    | none => simp
    | some v =>
      have hp : (k, v) ∈ m.iter ord := ord.mem_order.mpr (mem_toList.mpr hm)
      simpa using List.find?_eq_none.mp hf _ hp

/-! ## Entries changed in place -/

/-- `m.entry(k).or_default()`, changed by `f`. -/
def entryOrDefault (m : HashMap K V) (k : K) (default : V) (f : V → V) : HashMap K V :=
  m.insert k (f (m[k]?.getD default))

theorem getElem?_entryOrDefault (m : HashMap K V) (k a : K) (d : V) (f : V → V) :
    (entryOrDefault m k d f)[a]? = if k = a then some (f (m[k]?.getD d)) else m[a]? :=
  getElem?_insert' m k a _

theorem getElem?_modify' (m : HashMap K V) (k a : K) (f : V → V) :
    (m.modify k f)[a]? = if k = a then m[k]?.map f else m[a]? := by
  rw [ExtTreeMap.getElem?_modify]
  simp only [compare_eq_iff]

omit [DecidableEq K] in
theorem getElem?_filter (m : HashMap K V) (p : K → V → Bool) (k : K) :
    (m.filter p)[k]? = m[k]?.filter (p k) := ExtTreeMap.getElem?_filter'

omit [LawfulEqOrd K] in
/-- A loop over pairs with different keys that changes a map under each key it meets. -/
theorem getElem?_foldl {W : Type} {step : HashMap K W → K × V → HashMap K W}
    (change : V → Option W → Option W)
    (hstep : ∀ m p (k : K), (step m p)[k]? = if p.1 = k then change p.2 m[k]? else m[k]?)
    {l : List (K × V)} (hl : (l.map Prod.fst).Nodup) (m : HashMap K W) (k : K) :
    (∀ v, (k, v) ∈ l → (l.foldl step m)[k]? = change v m[k]?) ∧
      ((∀ v, (k, v) ∉ l) → (l.foldl step m)[k]? = m[k]?) := by
  induction l generalizing m with
  | nil => simp
  | cons p l ih =>
    rw [List.map_cons, List.nodup_cons] at hl
    obtain ⟨ih₁, ih₂⟩ := ih hl.2 (step m p)
    rw [List.foldl_cons]
    constructor
    · intro v hv
      rcases List.mem_cons.mp hv with rfl | hv
      · rw [ih₂ fun w hw => hl.1 (List.mem_map.mpr ⟨_, hw, rfl⟩), hstep, if_pos rfl]
      · rw [ih₁ v hv, hstep, if_neg]
        intro hp
        exact hl.1 (List.mem_map.mpr ⟨_, hv, hp.symm⟩)
    · intro h
      rw [ih₂ fun w hw => h w (List.mem_cons_of_mem p hw), hstep, if_neg]
      intro hp
      exact h p.2 (hp ▸ List.mem_cons_self)

/-- A loop over one map that changes another under each key it meets. -/
theorem getElem?_foldl_iter {W : Type} {step : HashMap K W → K × V → HashMap K W}
    (change : V → Option W → Option W)
    (hstep : ∀ m p (k : K), (step m p)[k]? = if p.1 = k then change p.2 m[k]? else m[k]?)
    (ord : HashOrder) (src : HashMap K V) (m : HashMap K W) (k : K) :
    ((src.iter ord).foldl step m)[k]? = src[k]?.elim m[k]? fun v => change v m[k]? := by
  have hn : ((src.iter ord).map Prod.fst).Nodup :=
    (keysIter_perm ord src).nodup_iff.mpr (nodup_keys src)
  obtain ⟨hmet, hunmet⟩ := getElem?_foldl change hstep hn m k
  have hmem (v : V) : (k, v) ∈ src.iter ord ↔ src[k]? = some v :=
    ord.mem_order.trans mem_toList
  cases ho : src[k]? with
  | some v => exact hmet v ((hmem v).mpr ho)
  | none =>
    apply hunmet
    intro v hv
    rw [(hmem v).mp hv] at ho
    cases ho

/-- The map that a loop over its keys builds. -/
def ofKeys (ks : List K) (f : K → V) : HashMap K V := ks.foldl (fun m k => m.insert k (f k)) ∅

theorem getElem?_ofKeys (ks : List K) (f : K → V) (a : K) :
    (ofKeys ks f)[a]? = if a ∈ ks then some (f a) else none := by
  have loop (ks : List K) (m : HashMap K V) :
      (ks.foldl (fun m k => m.insert k (f k)) m)[a]? = if a ∈ ks then some (f a) else m[a]? := by
    induction ks generalizing m with
    | nil => simp
    | cons k ks ih =>
      rw [List.foldl_cons, ih, getElem?_insert']
      by_cases hk : k = a
      · subst hk
        simp
      · simp [hk, Ne.symm hk]
  rw [ofKeys, loop, ExtTreeMap.getElem?_empty]

/-- Removing the keys of a list. -/
def eraseAll (m : HashMap K V) (ks : List K) : HashMap K V := ks.foldl (fun m k => m.erase k) m

theorem getElem?_eraseAll (m : HashMap K V) (ks : List K) (a : K) :
    (eraseAll m ks)[a]? = if a ∈ ks then none else m[a]? := by
  induction ks generalizing m with
  | nil => rfl
  | cons k ks ih =>
    rw [eraseAll, List.foldl_cons, ← eraseAll, ih, getElem?_erase']
    by_cases hk : k = a
    · simp [hk]
    · simp [hk, Ne.symm hk]

end HashMap

end AdGraphDb
