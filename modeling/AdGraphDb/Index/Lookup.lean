import AdGraphDb.Index.Property

/-!
# What a property query finds

A query of the index meets the stored values of its own type, in the order of the
sub-index; the filter conditions compare values across types and up to rounding. The
two comparisons differ on the kinds of values listed here, and on no others.
-/

namespace AdGraphDb
open Std

/-! ## Keys that a query admits -/

/-- Whether a stored key is in the range of a query. -/
def ComparisonOp.admitsKey {K : Type} [Ord K] [BEq K] (op : ComparisonOp) (k key : K) : Bool :=
  match op with
  | .notEq => k != key
  | op => op.admits (compare k key)

def FieldKey.admitted (op : ComparisonOp) : Value → FieldKey → Bool
  | .integer v, integer k => op.admitsKey k v
  | .float v, float k => op.admitsKey k (.mk v)
  | .text v, text k => op.admitsKey k v
  | .boolean v, boolean k => op.admitsKey k v
  | .null, null => op = .eq
  | _, _ => false

section RangeQuery

variable {K : Type} [Ord K] [TransOrd K] [LawfulEqOrd K] (map : HashMap K (List NodeId))

/-- The buckets of a selection of the keys. -/
def HashMap.join (p : K → Bool) : List NodeId :=
  ((map.toList.filter fun e => p e.1).map Prod.snd).flatten

variable {map}

theorem HashMap.mem_join {p : K → Bool} {id : NodeId} :
    id ∈ map.join p ↔ ∃ k, p k = true ∧ id ∈ map.bucket k := by
  simp only [join, List.mem_flatten, List.mem_map, List.mem_filter, mem_toList, bucket]
  constructor
  · rintro ⟨ids, ⟨e, ⟨he, hp⟩, rfl⟩, hid⟩
    refine ⟨e.1, hp, ?_⟩
    rw [he]
    exact hid
  · rintro ⟨k, hp, hid⟩
    cases hk : map[k]? with
    | none =>
      rw [hk, Option.getD_none] at hid
      exact absurd hid List.not_mem_nil
    | some ids =>
      rw [hk, Option.getD_some] at hid
      exact ⟨ids, ⟨(k, ids), ⟨hk, hp⟩, rfl⟩, hid⟩

theorem HashMap.nodup_join (hn : ∀ k, (map.bucket k).Nodup)
    (hd : ∀ j k, j ≠ k → (map.bucket j).Disjoint (map.bucket k)) (p : K → Bool) :
    (map.join p).Nodup := by
  have bucket_of (e : K × List NodeId) (he : e ∈ map.toList) : map.bucket e.1 = e.2 := by
    rw [bucket, mem_toList.mp he, Option.getD_some]
  have hkeys : (map.toList.filter fun e => p e.1).Pairwise fun a b => a.1 ≠ b.1 :=
    (List.pairwise_map.mp (nodup_keys map)).sublist List.filter_sublist
  apply List.nodup_flatten.mpr
  constructor
  · intro ids hids
    obtain ⟨e, he, rfl⟩ := List.mem_map.mp hids
    rw [← bucket_of e (List.mem_filter.mp he).1]
    exact hn e.1
  · apply List.pairwise_map.mpr
    apply hkeys.imp_of_mem
    intro a b ha hb hab
    rw [← bucket_of a (List.mem_filter.mp ha).1, ← bucket_of b (List.mem_filter.mp hb).1]
    exact hd a.1 b.1 hab

variable [BEq K] {op : ComparisonOp} {key : K}

omit [LawfulEqOrd K] in
theorem rangeQueryBtree_eq_join (h : op ≠ .eq) :
    rangeQueryBtree map op key = map.join fun k => op.admitsKey k key := by
  cases op with
  | eq => exact absurd rfl h
  | _ => rfl

theorem mem_rangeQueryBtree {id : NodeId} : id ∈ rangeQueryBtree map op key ↔
    ∃ k, op.admitsKey k key = true ∧ id ∈ map.bucket k := by
  by_cases hop : op = .eq
  · subst hop
    change id ∈ map.bucket key ↔ ∃ k, (compare k key).isEq = true ∧ _
    constructor
    · intro h
      exact ⟨key, by rw [ReflOrd.compare_self]; rfl, h⟩
    · rintro ⟨k, hk, h⟩
      rwa [← LawfulEqOrd.eq_of_compare (Ordering.isEq_iff_eq_eq.mp hk)]
  · rw [rangeQueryBtree_eq_join hop]
    exact HashMap.mem_join

theorem nodup_rangeQueryBtree (hn : ∀ k, (map.bucket k).Nodup)
    (hd : ∀ j k, j ≠ k → (map.bucket j).Disjoint (map.bucket k)) :
    (rangeQueryBtree map op key).Nodup := by
  by_cases hop : op = .eq
  · subst hop
    exact hn key
  · rw [rangeQueryBtree_eq_join hop]
    exact HashMap.nodup_join hn hd _

end RangeQuery

namespace FieldIndex

variable {i : FieldIndex} {op : ComparisonOp} {value : Value}

theorem mem_query {id : NodeId} :
    id ∈ i.query op value ↔ ∃ k, FieldKey.admitted op value k = true ∧ id ∈ i.bucket k := by
  cases value with
  | null =>
    change id ∈ (if op = .eq then i.nulls else []) ↔ _
    constructor
    · intro h
      split_ifs at h with he
      · exact ⟨.null, decide_eq_true he, h⟩
      · exact absurd h List.not_mem_nil
    · rintro ⟨k, hk, h⟩
      cases k with
      | null =>
        rw [if_pos (of_decide_eq_true hk)]
        exact h
      | _ => cases hk
  | _ =>
    apply mem_rangeQueryBtree.trans
    constructor
    · rintro ⟨k, hk, h⟩
      first
      | exact ⟨.integer k, hk, h⟩
      | exact ⟨.float k, hk, h⟩
      | exact ⟨.text k, hk, h⟩
      | exact ⟨.boolean k, hk, h⟩
    · rintro ⟨k, hk, h⟩
      cases k with
      | integer k => first | exact ⟨k, hk, h⟩ | cases hk
      | float k => first | exact ⟨k, hk, h⟩ | cases hk
      | text k => first | exact ⟨k, hk, h⟩ | cases hk
      | boolean k => first | exact ⟨k, hk, h⟩ | cases hk
      | null => cases hk

theorem nodup_query (hn : ∀ k, (i.bucket k).Nodup)
    (hd : ∀ j k, j ≠ k → (i.bucket j).Disjoint (i.bucket k)) : (i.query op value).Nodup := by
  cases value with
  | integer v =>
    exact nodup_rangeQueryBtree (fun k => hn (.integer k)) fun j k hjk => hd (.integer j) (.integer k)
      fun h => hjk (FieldKey.integer.inj h)
  | float v =>
    exact nodup_rangeQueryBtree (fun k => hn (.float k)) fun j k hjk => hd (.float j) (.float k)
      fun h => hjk (FieldKey.float.inj h)
  | text v =>
    exact nodup_rangeQueryBtree (fun k => hn (.text k)) fun j k hjk => hd (.text j) (.text k)
      fun h => hjk (FieldKey.text.inj h)
  | boolean v =>
    exact nodup_rangeQueryBtree (fun k => hn (.boolean k)) fun j k hjk => hd (.boolean j) (.boolean k)
      fun h => hjk (FieldKey.boolean.inj h)
  | null =>
    change (if op = .eq then i.nulls else []).Nodup
    split_ifs
    · exact hn .null
    · exact List.nodup_nil

end FieldIndex

/-- A query lists the nodes whose stored value is admitted, each once. -/
theorem PropertyIndex.Indexes.query {i : PropertyIndex} {field : String} {nodes : List Node}
    (h : i.Indexes field nodes) (hn : (nodes.map Node.id).Nodup) {fi : FieldIndex}
    (hf : i.fields[field]? = some fi) (op : ComparisonOp) (value : Value) :
    (fi.query op value).Perm ((nodes.filter fun n =>
      (nodeKey field n).any (FieldKey.admitted op value)).map Node.id) := by
  have hb (k : FieldKey) : i.bucket field k = fi.bucket k := by
    rw [bucket, hf, Option.getD_some]
  have hg : Grouped (nodeKey field) Node.id fi.bucket nodes := Grouped.congr h fun k => (hb k).symm
  apply hg.join_perm hn
  · exact FieldIndex.nodup_query (hg.bucket_nodup hn) fun j k => hg.bucket_disjoint hn
  · exact fun id => FieldIndex.mem_query

/-! ## The two comparisons -/

/-- Different numbers that `compare_f64` takes for equal. -/
def F64.Near (a b : F64) : Prop := F64.eq a b = false ∧ (a.sub b).abs.lt epsilon = true

/-- The floats that the index and `compare_f64` judge differently. -/
def ComparisonOp.FloatMismatch (op : ComparisonOp) (stored value : F64) : Prop :=
  match op with
  | eq => (stored.isNaN ∧ value.isNaN) ∨ (stored.isInfinite ∧ F64.eq stored value) ∨
    F64.Near stored value
  | notEq => stored.isNaN ∨ value.isNaN ∨ F64.Near stored value
  | lt => stored.isNaN ∧ ¬ value.isNaN
  | ltEq => stored.isNaN
  | gt => value.isNaN ∧ ¬ stored.isNaN
  | gtEq => value.isNaN

/-- The values that the index and `compare_values` judge differently: an integer and a
float whose comparison holds, which the index keeps apart, and the floats above. -/
def ComparisonOp.Mismatch (op : ComparisonOp) : Value → Value → Prop
  | .integer stored, .float value => op.compareF64 (F64.ofInt stored.toInt) value = true
  | .float stored, .integer value => op.compareF64 stored (F64.ofInt value.toInt) = true
  | .float stored, .float value => op.FloatMismatch stored value
  | _, _ => False

namespace F64

variable {a b : F64}

theorem sub_of_isNaN (h : a.isNaN = true ∨ b.isNaN = true) : sub a b = nan := by
  rw [sub, if_pos ((Bool.or_eq_true ..).mpr h)]

theorem abs_nan_lt_epsilon : nan.abs.lt epsilon = false := by decide

theorem epsilon_le_abs_nan : epsilon.le nan.abs = false := by decide

theorem not_near_of_isNaN (h : a.isNaN = true ∨ b.isNaN = true) : ¬ Near a b := by
  rintro ⟨-, hlt⟩
  rw [sub_of_isNaN h, abs_nan_lt_epsilon] at hlt
  cases hlt

theorem eq_of_isNaN (h : a.isNaN = true ∨ b.isNaN = true) : F64.eq a b = false := by
  unfold F64.eq
  rcases h with h | h <;> rw [h] <;> simp

end F64

/-- NaN satisfies no comparison. -/
theorem ComparisonOp.compareF64_of_isNaN {a b : F64} (h : a.isNaN = true ∨ b.isNaN = true)
    (op : ComparisonOp) : op.compareF64 a b = false := by
  unfold compareF64
  rw [F64.sub_of_isNaN h, F64.abs_nan_lt_epsilon, F64.epsilon_le_abs_nan]
  cases op <;> rcases h with h | h <;> simp [F64.lt, F64.le, h]

/-- What the ordering of two keys says. -/
theorem compare_keys (x y : ℤ) : (compare x y).isEq = decide (x = y) ∧
    (compare x y).isLT = decide (x < y) ∧ (compare x y).isLE = decide (x ≤ y) ∧
    (compare x y).isGT = decide (y < x) ∧ (compare x y).isGE = decide (y ≤ x) := by
  rcases Int.lt_trichotomy x y with h | h | h
  · rw [Int.compare_eq_lt.mpr h]
    simp [h, h.le, h.ne, h.not_gt, h.not_ge]
  · rw [h, ReflOrd.compare_self]
    simp
  · rw [Int.compare_eq_gt.mpr h]
    simp [h, h.le, h.ne', h.not_gt, h.not_ge]

namespace F64

/-! On numbers equality is equality of keys. -/

section Numbers

variable {a b : F64} (ha : a.isNaN = false) (hb : b.isNaN = false)

include ha hb

theorem eq_of_numbers : F64.eq a b = decide (a.key = b.key) := by
  rw [F64.eq, ha, hb]
  rfl

theorem not_near_of_key_eq (hk : a.key = b.key) : ¬ Near a b := by
  rintro ⟨heq, -⟩
  rw [eq_of_numbers ha hb, decide_eq_true hk] at heq
  cases heq

theorem near_iff_of_key_ne (hk : a.key ≠ b.key) : Near a b ↔ (a.sub b).abs.lt epsilon = true := by
  rw [Near, eq_of_numbers ha hb, decide_eq_false hk]
  exact and_iff_right rfl

theorem compare_mk_of_numbers :
    compare (OrderedF64.mk a) (.mk b) = compare a.key b.key := by
  rw [OrderedF64.compare_eq, OrderedF64.rank_mk, OrderedF64.rank_mk, ha, hb,
    if_neg Bool.false_ne_true, if_neg Bool.false_ne_true]

/-- The index finds every number equal to the value; the filter misses an infinity, whose
difference from itself is NaN, and takes near numbers for equal. -/
theorem eq_differs_of_numbers :
    (compare (OrderedF64.mk a) (.mk b)).isEq ≠ (a.sub b).abs.lt epsilon ↔
      (a.isInfinite ∧ F64.eq a b) ∨ Near a b := by
  rw [compare_mk_of_numbers ha hb, eq_of_numbers ha hb]
  by_cases hk : a.key = b.key
  · rw [hk, ReflOrd.compare_self, iff_false_intro (not_near_of_key_eq ha hb hk)]
    rcases not_isNaN_iff.mp ha with hf | hi
    · have hinf : a.isInfinite = false := by
        rw [isFinite, decide_eq_true_eq] at hf
        exact decide_eq_false hf.ne
      rw [sub_of_key_eq_of_finite hf hk, lt_zero_epsilon, hinf]
      simp
    · rw [sub_of_key_eq_of_infinite hi hk, abs_nan_lt_epsilon, hi]
      simp
  · rw [(compare_keys _ _).1, near_iff_of_key_ne ha hb hk]
    simp [hk]

/-- The filter passes over near numbers; an infinity differs from itself in neither. -/
theorem ne_differs_of_numbers :
    (OrderedF64.mk a != .mk b) ≠ epsilon.le (a.sub b).abs ↔ Near a b := by
  rw [bne, OrderedF64.beq_mk, eq_of_numbers ha hb]
  by_cases hk : a.key = b.key
  · rw [iff_false_intro (not_near_of_key_eq ha hb hk)]
    rcases not_isNaN_iff.mp ha with hf | hi
    · have hle : epsilon.le .zero = false := by decide
      rw [sub_of_key_eq_of_finite hf hk, hle]
      simp [hk]
    · rw [sub_of_key_eq_of_infinite hi hk, epsilon_le_abs_nan]
      simp [hk]
  · have hnan : (a.sub b).abs.isNaN = false := by
      rw [isNaN_abs]
      exact isNaN_sub ha hb hk
    rw [le_eq_not_lt isNaN_epsilon hnan, near_iff_of_key_ne ha hb hk]
    simp [hk]

end Numbers

end F64

/-- On numbers the orders agree, and equality up to `EPSILON` differs from equality on
near numbers and on an infinity. -/
theorem ComparisonOp.compareF64_of_numbers {a b : F64} (ha : a.isNaN = false)
    (hb : b.isNaN = false) (op : ComparisonOp) :
    op.admitsKey (OrderedF64.mk a) (.mk b) ≠ op.compareF64 a b ↔ op.FloatMismatch a b := by
  have hcmp := F64.compare_mk_of_numbers ha hb
  cases op with
  | eq =>
    change (compare (OrderedF64.mk a) (.mk b)).isEq ≠ (a.sub b).abs.lt F64.epsilon ↔
      (a.isNaN ∧ b.isNaN) ∨ (a.isInfinite ∧ F64.eq a b) ∨ F64.Near a b
    rw [F64.eq_differs_of_numbers ha hb, ha]
    simp
  | notEq =>
    change (OrderedF64.mk a != .mk b) ≠ F64.epsilon.le (a.sub b).abs ↔
      a.isNaN ∨ b.isNaN ∨ F64.Near a b
    rw [F64.ne_differs_of_numbers ha hb, ha, hb]
    simp
  | lt =>
    change (compare (OrderedF64.mk a) (.mk b)).isLT ≠ F64.lt a b ↔ a.isNaN ∧ ¬ b.isNaN
    rw [hcmp, (compare_keys _ _).2.1, F64.lt, ha, hb]
    simp
  | ltEq =>
    change (compare (OrderedF64.mk a) (.mk b)).isLE ≠ F64.le a b ↔ a.isNaN
    rw [hcmp, (compare_keys _ _).2.2.1, F64.le, ha, hb]
    simp
  | gt =>
    change (compare (OrderedF64.mk a) (.mk b)).isGT ≠ F64.lt b a ↔ b.isNaN ∧ ¬ a.isNaN
    rw [hcmp, (compare_keys _ _).2.2.2.1, F64.lt, ha, hb]
    simp
  | gtEq =>
    change (compare (OrderedF64.mk a) (.mk b)).isGE ≠ F64.le b a ↔ b.isNaN
    rw [hcmp, (compare_keys _ _).2.2.2.2, F64.le, ha, hb]
    simp

/-- With NaN the index finds what lies in the range of its order; the filter finds nothing. -/
theorem ComparisonOp.compareF64_of_nan {a b : F64} (h : a.isNaN = true ∨ b.isNaN = true)
    (op : ComparisonOp) :
    op.admitsKey (OrderedF64.mk a) (.mk b) ≠ op.compareF64 a b ↔ op.FloatMismatch a b := by
  have hcmp : compare (OrderedF64.mk a) (.mk b) =
      compare (if a.isNaN then -2 ^ 63 else a.key) (if b.isNaN then -2 ^ 63 else b.key) := by
    rw [OrderedF64.compare_eq, OrderedF64.rank_mk, OrderedF64.rank_mk]
  have hka := a.key_gt
  have hkb := b.key_gt
  have hnear := F64.not_near_of_isNaN h
  have heq := F64.eq_of_isNaN h
  rw [op.compareF64_of_isNaN h]
  cases op with
  | eq =>
    change (compare (OrderedF64.mk a) (.mk b)).isEq ≠ false ↔
      (a.isNaN ∧ b.isNaN) ∨ (a.isInfinite ∧ F64.eq a b) ∨ F64.Near a b
    rw [hcmp, (compare_keys _ _).1, heq]
    cases ha : a.isNaN <;> cases hb : b.isNaN <;> simp [hnear] <;> grind
  | notEq =>
    change (OrderedF64.mk a != .mk b) ≠ false ↔ a.isNaN ∨ b.isNaN ∨ F64.Near a b
    rw [bne, OrderedF64.beq_mk, heq]
    simpa [hnear] using h
  | lt =>
    change (compare (OrderedF64.mk a) (.mk b)).isLT ≠ false ↔ a.isNaN ∧ ¬ b.isNaN
    rw [hcmp, (compare_keys _ _).2.1]
    cases ha : a.isNaN <;> cases hb : b.isNaN <;> simp <;> grind
  | ltEq =>
    change (compare (OrderedF64.mk a) (.mk b)).isLE ≠ false ↔ a.isNaN
    rw [hcmp, (compare_keys _ _).2.2.1]
    cases ha : a.isNaN <;> cases hb : b.isNaN <;> simp <;> grind
  | gt =>
    change (compare (OrderedF64.mk a) (.mk b)).isGT ≠ false ↔ b.isNaN ∧ ¬ a.isNaN
    rw [hcmp, (compare_keys _ _).2.2.2.1]
    cases ha : a.isNaN <;> cases hb : b.isNaN <;> simp <;> grind
  | gtEq =>
    change (compare (OrderedF64.mk a) (.mk b)).isGE ≠ false ↔ b.isNaN
    rw [hcmp, (compare_keys _ _).2.2.2.2]
    cases ha : a.isNaN <;> cases hb : b.isNaN <;> simp <;> grind

theorem ComparisonOp.compareF64_mismatch (op : ComparisonOp) (a b : F64) :
    op.admitsKey (OrderedF64.mk a) (.mk b) ≠ op.compareF64 a b ↔ op.FloatMismatch a b := by
  by_cases h : a.isNaN = true ∨ b.isNaN = true
  · exact op.compareF64_of_nan h
  · rw [not_or, Bool.not_eq_true, Bool.not_eq_true] at h
    exact op.compareF64_of_numbers h.1 h.2

/-- On lawful keys the index compares as the filter does. -/
theorem ComparisonOp.admitsKey_eq_compareOrd {K : Type} [Ord K] [LawfulEqOrd K] [BEq K]
    [LawfulBEq K] (op : ComparisonOp) (k key : K) : op.admitsKey k key = op.compareOrd k key := by
  cases op with
  | notEq =>
    change (k != key) = !(compare k key).isEq
    by_cases hk : k = key
    · subst hk
      rw [bne_self_eq_false, ReflOrd.compare_self]
      rfl
    · have hne : (compare k key).isEq = false := by
        rw [← Bool.not_eq_true, Ordering.isEq_iff_eq_eq]
        exact mt LawfulEqOrd.eq_of_compare hk
      rw [hne, Bool.not_false, bne_iff_ne]
      exact hk
  | _ => rfl

/-- The index and the filter differ exactly on the mismatching kinds. -/
theorem ComparisonOp.mismatch_iff (op : ComparisonOp) (stored value : Value) :
    FieldKey.admitted op value (FieldKey.of stored) ≠ op.compareValues stored value ↔
      op.Mismatch stored value := by
  have differ (b : Bool) : false ≠ b ↔ b = true := by
    rw [ne_comm]
    exact Bool.ne_false_iff
  have agree {K : Type} [Ord K] [LawfulEqOrd K] [BEq K] [LawfulBEq K] (a b : K) :
      op.admitsKey a b ≠ op.compareOrd a b ↔ False := by
    rw [admitsKey_eq_compareOrd]
    exact iff_of_false (fun h => h rfl) id
  have unlike : false ≠ (op == eq && false) ↔ False := by
    rw [Bool.and_false]
    exact iff_of_false (fun h => h rfl) id
  cases stored <;> cases value
  case float.float => exact op.compareF64_mismatch _ _
  case integer.float => exact differ _
  case float.integer => exact differ _
  case integer.integer => exact agree _ _
  case text.text => exact agree _ _
  case boolean.boolean => exact agree _ _
  case null.null => cases op <;> exact iff_of_false (fun h => h rfl) id
  all_goals exact unlike

end AdGraphDb
