import AdGraphDb.Foundation.Float64
import AdGraphDb.Foundation.HashMap

/-!
# Totally ordered floats

The wrapper `OrderedF64` compares as `f64` does, with NaN below every number. Floats
that compare equal are one key of a map, so a key is the float up to the sign of zero
and the payload of NaN.
-/

namespace AdGraphDb
open Std

namespace F64

/-- The representative of the floats that compare equal. -/
def canon (x : F64) : F64 :=
  if x.isNaN then nan else if x.magnitude = 0 then zero else x

theorem canon_canon (x : F64) : x.canon.canon = x.canon := by
  by_cases hn : x.isNaN
  · have h : x.canon = nan := if_pos hn
    rw [h]
    decide
  · by_cases hz : x.magnitude = 0
    · have h : x.canon = zero := by rw [canon, if_neg hn, if_pos hz]
      rw [h]
      decide
    · have h : x.canon = x := by rw [canon, if_neg hn, if_neg hz]
      rw [h, h]

theorem isNaN_canon (x : F64) : x.canon.isNaN = x.isNaN := by
  unfold canon
  split_ifs with hn hz
  · rw [hn, isNaN_nan]
  · rw [Bool.not_eq_true] at hn
    rw [hn]
    decide
  · rfl

theorem key_canon {x : F64} (h : x.isNaN = false) : x.canon.key = x.key := by
  rw [canon, h, if_neg Bool.false_ne_true]
  split_ifs with hz
  · apply key_eq_iff.mpr
    exact ⟨hz.symm ▸ by decide, .inr (by decide)⟩
  · rfl

theorem key_gt (x : F64) : -2 ^ 63 < x.key := by
  have := x.magnitude_lt
  unfold key
  split_ifs <;> omega

theorem ext_key {a b : F64} (h : a.key = b.key) (hz : a.magnitude ≠ 0) : a = b := by
  obtain ⟨hm, hs⟩ := key_eq_iff.mp h
  exact ext_parts hm (hs.resolve_right hz)

end F64

/-- A key of a float sub-index. -/
def OrderedF64 := {x : F64 // x.canon = x}

namespace OrderedF64

def mk (x : F64) : OrderedF64 := ⟨x.canon, x.canon_canon⟩

instance : DecidableEq OrderedF64 := inferInstanceAs (DecidableEq {x : F64 // x.canon = x})

/-- `Ord::cmp`. -/
def cmp (a b : OrderedF64) : Ordering :=
  (a.val.partialCmp b.val).getD
    (match a.val.isNaN, b.val.isNaN with
      | true, true => .eq
      | true, false => .lt
      | false, true => .gt
      | false, false => .eq)

instance : Ord OrderedF64 := ⟨cmp⟩

/-- The derived `==`, which is that of `f64`. -/
instance : BEq OrderedF64 := ⟨fun a b => F64.eq a.val b.val⟩

/-- The position in the total order: NaN below all keys. -/
def rank (a : OrderedF64) : ℤ := if a.val.isNaN then -2 ^ 63 else a.val.key

theorem compare_eq (a b : OrderedF64) : compare a b = compare a.rank b.rank := by
  change cmp a b = _
  unfold cmp F64.partialCmp rank
  have ha := a.val.key_gt
  have hb := b.val.key_gt
  cases a.val.isNaN <;> cases b.val.isNaN
  · rfl
  · exact (Int.compare_eq_gt.mpr ha).symm
  · exact (Int.compare_eq_lt.mpr hb).symm
  · exact ReflOrd.compare_self.symm

theorem rank_inj {a b : OrderedF64} (h : a.rank = b.rank) : a = b := by
  apply Subtype.ext
  obtain ⟨x, hx⟩ := a
  obtain ⟨y, hy⟩ := b
  have hkx := x.key_gt
  have hky := y.key_gt
  change x = y
  unfold rank at h
  dsimp only at h
  unfold F64.canon at hx hy
  by_cases hnx : x.isNaN <;> by_cases hny : y.isNaN
  · rw [if_pos hnx] at hx
    rw [if_pos hny] at hy
    rw [← hx, ← hy]
  · rw [if_pos hnx, if_neg hny] at h
    omega
  · rw [if_neg hnx, if_pos hny] at h
    omega
  · rw [if_neg hnx, if_neg hny] at h
    rw [if_neg hnx] at hx
    rw [if_neg hny] at hy
    by_cases hz : x.magnitude = 0
    · rw [if_pos hz] at hx
      rw [if_pos ((F64.key_eq_iff.mp h).1.symm.trans hz)] at hy
      rw [← hx, ← hy]
    · exact F64.ext_key h hz

instance : TransOrd OrderedF64 where
  eq_swap {a b} := by
    rw [compare_eq, compare_eq]
    exact OrientedOrd.eq_swap
  isLE_trans {a b c} := by
    rw [compare_eq, compare_eq, compare_eq]
    exact TransOrd.isLE_trans

instance : LawfulEqOrd OrderedF64 where
  eq_of_compare {a b} h := by
    rw [compare_eq] at h
    exact rank_inj (LawfulEqOrd.eq_of_compare h)

theorem rank_mk (x : F64) : (mk x).rank = if x.isNaN then -2 ^ 63 else x.key := by
  unfold rank mk
  rw [F64.isNaN_canon]
  split_ifs with h
  · rfl
  · exact F64.key_canon (Bool.not_eq_true _ ▸ h)

theorem beq_mk (x y : F64) : (mk x == mk y) = F64.eq x y := by
  change F64.eq x.canon y.canon = F64.eq x y
  unfold F64.eq
  rw [F64.isNaN_canon, F64.isNaN_canon]
  cases hx : x.isNaN <;> cases hy : y.isNaN <;> try rfl
  rw [F64.key_canon hx, F64.key_canon hy]

end OrderedF64

end AdGraphDb
