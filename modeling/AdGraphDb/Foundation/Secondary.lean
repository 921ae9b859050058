import Mathlib.Tactic
import Mathlib.Data.List.Perm.Basic

/-!
# Secondary indexes

A secondary index groups a collection of values by a partial key and keeps of each value
a projection. Adding a value appends to one bucket, removing one filters its bucket.
-/

namespace AdGraphDb

/-- Under every key the bucket holds, up to order, what is kept of the values with that key. -/
def Grouped {K V P : Type} [DecidableEq K] (key : V → Option K) (kept : V → P)
    (bucket : K → List P) (l : List V) : Prop :=
  ∀ k, (bucket k).Perm ((l.filter fun v => key v = some k).map kept)

namespace Grouped

variable {K V P : Type} [DecidableEq K] {key : V → Option K} {kept : V → P} {bucket : K → List P}
  {l l' : List V}

theorem empty (h : ∀ k, bucket k = []) : Grouped key kept bucket [] := by
  intro k
  rw [h k]
  rfl

theorem perm (h : Grouped key kept bucket l) (hl : l.Perm l') : Grouped key kept bucket l' :=
  fun k => (h k).trans ((hl.filter _).map _)

theorem congr {bucket' : K → List P} (h : Grouped key kept bucket l)
    (hb : ∀ k, bucket' k = bucket k) : Grouped key kept bucket' l := by
  intro k
  rw [hb k]
  exact h k

theorem filter_cons_map (v : V) (l : List V) (k : K) :
    ((v :: l).filter fun v => key v = some k).map kept =
      if key v = some k then kept v :: (l.filter fun v => key v = some k).map kept
      else (l.filter fun v => key v = some k).map kept := by
  rw [List.filter_cons]
  by_cases h : key v = some k <;> simp [h]

theorem insert (h : Grouped key kept bucket l) (v : V) :
    Grouped key kept (fun k => if key v = some k then bucket k ++ [kept v] else bucket k)
      (v :: l) := by
  intro k
  rw [filter_cons_map]
  dsimp only
  split_ifs
  · apply List.perm_append_comm.trans
    exact (h k).cons _
  · exact h k

/-- The filter that removes a value must keep all the others. -/
theorem remove {v : V} {p : P → Bool} (h : Grouped key kept bucket (v :: l))
    (hv : p (kept v) = false) (hl : ∀ w ∈ l, p (kept w) = true) :
    Grouped key kept (fun k => if key v = some k then (bucket k).filter p else bucket k) l := by
  intro k
  have hk := h k
  rw [filter_cons_map] at hk
  dsimp only
  split_ifs at hk ⊢
  · have hf := hk.filter p
    rw [List.filter_cons_of_neg (by rw [hv]; exact Bool.false_ne_true)] at hf
    have hself : ((l.filter fun v => key v = some k).map kept).filter p =
        (l.filter fun v => key v = some k).map kept := by
      apply List.filter_eq_self.mpr
      intro q hq
      obtain ⟨w, hw, rfl⟩ := List.mem_map.mp hq
      exact hl w (List.mem_filter.mp hw).1
    rwa [hself] at hf
  · exact hk

/-- Filtering some of the buckets must take nothing away. -/
theorem filter_iff (h : Grouped key kept bucket l) (c : K → Prop) [DecidablePred c] (p : P → Bool) :
    Grouped key kept (fun k => if c k then (bucket k).filter p else bucket k) l ↔
      ∀ k, c k → ∀ q ∈ bucket k, p q = true := by
  constructor
  · intro hf k hc
    have hk := (hf k).trans (h k).symm
    dsimp only at hk
    rw [if_pos hc] at hk
    exact List.length_filter_eq_length_iff.mp hk.length_eq
  · intro hall
    apply h.congr
    intro k
    split_ifs with hc
    · exact List.filter_eq_self.mpr (hall k hc)
    · rfl

theorem mem_iff (h : Grouped key kept bucket l) {k : K} {q : P} :
    q ∈ bucket k ↔ ∃ v ∈ l, key v = some k ∧ kept v = q := by
  rw [(h k).mem_iff]
  simp only [List.mem_map, List.mem_filter, decide_eq_true_eq, and_assoc]

/-- Every value is in one bucket. -/
theorem sum_length (h : Grouped key kept bucket l) {ks : List K} (hks : ks.Nodup)
    (hl : ∀ v ∈ l, ∃ k ∈ ks, key v = some k) : (ks.map fun k => (bucket k).length).sum = l.length := by
  have hlength (k : K) : (bucket k).length = l.countP fun v => key v = some k := by
    rw [(h k).length_eq, List.length_map, List.countP_eq_length_filter]
  simp only [hlength]
  clear h hlength
  induction l with
  | nil => simp
  | cons v l ih =>
    obtain ⟨k, hk, hv⟩ := hl v List.mem_cons_self
    have hcount (ks : List K) : (ks.map fun j => if k = j then 1 else 0).sum = ks.count k := by
      induction ks with
      | nil => rfl
      | cons j ks ihk =>
        rw [List.map_cons, List.sum_cons, ihk, List.count_cons, Nat.add_comm]
        by_cases hj : k = j <;> simp [hj, Ne.symm]
    simp only [List.countP_cons, hv, Option.some.injEq, decide_eq_true_eq, List.sum_map_add, hcount,
      List.count_eq_one_of_mem hks hk, ih fun w hw => hl w (List.mem_cons_of_mem v hw),
      List.length_cons]

/-- A list without duplicates that joins the buckets of some keys. -/
theorem join_perm (h : Grouped key kept bucket l) (hl : (l.map kept).Nodup) {p : K → Bool}
    {out : List P} (hout : out.Nodup) (hmem : ∀ q, q ∈ out ↔ ∃ k, p k = true ∧ q ∈ bucket k) :
    out.Perm ((l.filter fun v => (key v).any p).map kept) := by
  have hsub : ((l.filter fun v => (key v).any p).map kept).Nodup :=
    hl.sublist (List.filter_sublist.map kept)
  apply (List.perm_ext_iff_of_nodup hout hsub).mpr
  intro q
  rw [hmem, List.mem_map]
  constructor
  · rintro ⟨k, hp, hq⟩
    obtain ⟨v, hv, hk, rfl⟩ := h.mem_iff.mp hq
    exact ⟨v, List.mem_filter.mpr ⟨hv, by rw [hk]; exact hp⟩, rfl⟩
  · rintro ⟨v, hv, rfl⟩
    obtain ⟨hv, hk⟩ := List.mem_filter.mp hv
    obtain ⟨k, hk, hp⟩ := (Option.any_eq_true ..).mp hk
    exact ⟨k, hp, h.mem_iff.mpr ⟨v, hv, hk, rfl⟩⟩

theorem bucket_nodup (h : Grouped key kept bucket l) (hl : (l.map kept).Nodup) (k : K) :
    (bucket k).Nodup := by
  apply (h k).nodup_iff.mpr
  exact hl.sublist (List.filter_sublist.map kept)

theorem bucket_disjoint (h : Grouped key kept bucket l) (hl : (l.map kept).Nodup) {j k : K}
    (hjk : j ≠ k) : (bucket j).Disjoint (bucket k) := by
  intro q hj hk
  obtain ⟨v, hv, hvj, hvq⟩ := h.mem_iff.mp hj
  obtain ⟨w, hw, hwk, hwq⟩ := h.mem_iff.mp hk
  obtain rfl := List.inj_on_of_nodup_map hl hv hw (hvq.trans hwq.symm)
  exact hjk (Option.some.inj (hvj.symm.trans hwk))

end Grouped

end AdGraphDb
