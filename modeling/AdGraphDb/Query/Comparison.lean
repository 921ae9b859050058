import AdGraphDb.Query.Ast

/-!
# The laws of the six operators

On strings, integers and booleans the operators follow one order. On floats `=` and `!=` have
a tolerance that the other four do not have, so the laws hold except for different numbers
within the tolerance.
-/

namespace AdGraphDb

namespace ComparisonOp

/-- The laws that connect the operators, for what they say of one pair of values. -/
structure Coherent (holds : ComparisonOp → Bool) : Prop where
  exactlyOne : (holds .lt).toNat + (holds .eq).toNat + (holds .gt).toNat = 1
  notEq : holds .notEq = !holds .eq
  ltEq : holds .ltEq = (holds .lt || holds .eq)
  gtEq : holds .gtEq = (holds .gt || holds .eq)

theorem coherent_admits (o : Ordering) : Coherent fun op => op.admits o := by
  cases o <;> exact ⟨rfl, rfl, rfl, rfl⟩

variable {α : Type} [LinearOrder α]

/-- The operators of an order, with an equality of its own. -/
def withEquality (equal : Bool) (lhs rhs : α) : ComparisonOp → Bool
  | eq => equal
  | notEq => !equal
  | lt => decide (lhs < rhs)
  | ltEq => decide (lhs ≤ rhs)
  | gt => decide (rhs < lhs)
  | gtEq => decide (rhs ≤ lhs)

/-- Different elements are less or greater, and must then not be equal as well. -/
theorem coherent_withEquality_of_ne {equal : Bool} {lhs rhs : α} (h : lhs ≠ rhs) :
    Coherent (withEquality equal lhs rhs) ↔ equal = false := by
  have hstrict : (decide (lhs < rhs)).toNat + (decide (rhs < lhs)).toNat = 1 := by
    rcases h.lt_or_gt with hlt | hgt
    · simp [hlt, hlt.not_gt]
    · simp [hgt, hgt.not_gt]
  constructor
  · intro hc
    have hone := hc.exactlyOne
    simp only [withEquality] at hone
    cases equal with
    | false => rfl
    | true =>
      rw [Bool.toNat_true] at hone
      omega
  · rintro rfl
    exact ⟨by simpa [withEquality] using hstrict, rfl, by simp [withEquality, h.le_iff_lt],
      by simp [withEquality, h.symm.le_iff_lt]⟩

/-- An equality that holds of equal elements is coherent with the order exactly if it holds of
no others. -/
theorem coherent_withEquality_iff {equal : Bool} {lhs rhs : α} (hself : lhs = rhs → equal = true) :
    Coherent (withEquality equal lhs rhs) ↔ ¬ (lhs ≠ rhs ∧ equal = true) := by
  by_cases h : lhs = rhs
  · refine iff_of_true ⟨?_, ?_, ?_, ?_⟩ fun hn => hn.1 h <;>
      simp [withEquality, hself h, h]
  · rw [coherent_withEquality_of_ne h, and_iff_right h, Bool.not_eq_true]

end ComparisonOp

/-! ## Floats -/

namespace F64

theorem strictMono_unitsOfMagnitude : StrictMono unitsOfMagnitude := by
  refine strictMono_nat_of_lt_succ fun m => ?_
  have hpos : ∀ k, 0 < 2 ^ k := Nat.two_pow_pos
  unfold unitsOfMagnitude
  rcases Nat.lt_or_ge (m % 2 ^ 52 + 1) (2 ^ 52) with h | h
  · -- the same exponent, one more unit in the last place
    have hdiv : (m + 1) / 2 ^ 52 = m / 2 ^ 52 := by omega
    have hmod : (m + 1) % 2 ^ 52 = m % 2 ^ 52 + 1 := by omega
    rw [hdiv, hmod]
    split_ifs
    · exact Nat.lt_succ_self m
    · exact Nat.mul_lt_mul_of_pos_right (by omega) (hpos _)
  · -- the carry into the exponent
    have hdiv : (m + 1) / 2 ^ 52 = m / 2 ^ 52 + 1 := by omega
    have hmod : (m + 1) % 2 ^ 52 = 0 := by omega
    rw [hdiv, hmod, if_neg (Nat.succ_ne_zero _)]
    split_ifs with hq
    · rw [hq]
      omega
    · obtain ⟨q, hq⟩ := Nat.exists_eq_succ_of_ne_zero hq
      have hpow : 2 ^ (q + 1) = 2 * 2 ^ q := Nat.pow_succ'
      have hr : 2 ^ 52 + m % 2 ^ 52 < 2 ^ 52 * 2 := by omega
      rw [hq, Nat.succ_eq_add_one, Nat.add_sub_cancel, Nat.add_sub_cancel, hpow, Nat.add_zero,
        ← Nat.mul_assoc]
      exact Nat.mul_lt_mul_of_pos_right hr (hpos q)

theorem units_lt_iff {a b : F64} : a.units < b.units ↔ a.key < b.key := by
  have hz : unitsOfMagnitude 0 = 0 := rfl
  have hmono := strictMono_unitsOfMagnitude
  have hlt : unitsOfMagnitude a.magnitude < unitsOfMagnitude b.magnitude ↔
    a.magnitude < b.magnitude := hmono.lt_iff_lt
  have hgt : unitsOfMagnitude b.magnitude < unitsOfMagnitude a.magnitude ↔
    b.magnitude < a.magnitude := hmono.lt_iff_lt
  have ha : unitsOfMagnitude 0 < unitsOfMagnitude a.magnitude ↔ 0 < a.magnitude := hmono.lt_iff_lt
  have hb : unitsOfMagnitude 0 < unitsOfMagnitude b.magnitude ↔ 0 < b.magnitude := hmono.lt_iff_lt
  unfold units key
  cases a.negative <;> cases b.negative <;> simp <;> omega

/-- The values are ordered as the keys are. -/
theorem toRat_lt_iff {a b : F64} : a.toRat < b.toRat ↔ a.key < b.key := by
  rw [toRat, toRat, div_lt_div_iff_of_pos_right (by positivity), Int.cast_lt, units_lt_iff]

theorem isNaN_of_isFinite {x : F64} (h : x.isFinite = true) : x.isNaN = false :=
  not_isNaN_iff.mpr (.inl h)

theorem roundHalfEven_le (n d : ℕ) : roundHalfEven n d ≤ n / d + 1 := by
  unfold roundHalfEven
  split_ifs <;> omega

/-- The rounding stays below infinity for less than `2^1138` units. -/
theorem roundMagnitude_lt {n e : ℕ} (he : e ≤ 1138) (h : n < 2 ^ e) :
    roundMagnitude n 1 < infMagnitude := by
  have hround := roundHalfEven_le n (1 * 2 ^ (Nat.log2 n - 52))
  have hlog : Nat.log2 n < 1138 := by
    by_cases hn : n = 0
    · rw [hn]
      decide
    · exact ((Nat.log2_lt hn).mpr h).trans_le he
  have hquot : n / (1 * 2 ^ (Nat.log2 n - 52)) < 2 ^ 53 := by
    rw [Nat.one_mul, Nat.div_lt_iff_lt_mul (Nat.two_pow_pos _), ← Nat.pow_add]
    exact Nat.lt_log2_self.trans_le (Nat.pow_le_pow_right (by decide) (by omega))
  unfold roundMagnitude infMagnitude
  rw [Nat.div_one]
  dsimp only
  omega

theorem natAbs_mul_two_pow_lt {i : ℤ} {k : ℕ} (h : i.natAbs < 2 ^ k) (e : ℕ) :
    (i * 2 ^ e).natAbs < 2 ^ (k + e) := by
  rw [Int.natAbs_mul, Int.natAbs_pow, Nat.pow_add]
  exact Nat.mul_lt_mul_of_pos_right h (Nat.two_pow_pos _)

/-- An integer of 64 bits becomes a finite float. -/
theorem isFinite_ofInt (i : Int64) : (ofInt i.toInt).isFinite = true := by
  have hle : i.toInt.natAbs < 2 ^ 64 := by
    have := i.le_toInt
    have := i.toInt_lt
    omega
  have hlt := roundMagnitude_lt (e := 64 + 1074) le_rfl (natAbs_mul_two_pow_lt hle 1074)
  rw [ofInt, ofUnits, isFinite, magnitude_ofParts (hlt.trans infMagnitude_lt)]
  exact decide_eq_true hlt

end F64

namespace ComparisonOp

/-- `compare_f64` on finite floats. -/
theorem compareF64_eq_withEquality {a b : F64} (ha : a.isFinite = true) (hb : b.isFinite = true)
    (op : ComparisonOp) :
    op.compareF64 a b = withEquality ((a.sub b).abs.lt F64.epsilon) a.key b.key op := by
  have hna := F64.isNaN_of_isFinite ha
  have hnb := F64.isNaN_of_isFinite hb
  cases op with
  | notEq =>
    refine F64.le_eq_not_lt F64.isNaN_epsilon ?_
    by_cases hk : a.key = b.key
    · rw [F64.sub_of_key_eq_of_finite ha hk]
      rfl
    · rw [F64.isNaN_abs]
      exact F64.isNaN_sub hna hnb hk
  | eq => rfl
  | lt => simp [compareF64, withEquality, F64.lt, hna, hnb]
  | ltEq => simp [compareF64, withEquality, F64.le, hna, hnb]
  | gt => simp [compareF64, withEquality, F64.lt, hna, hnb]
  | gtEq => simp [compareF64, withEquality, F64.le, hna, hnb]

/-- `compare_f64` with exact numbers for floats, and `2^-52` for `f64::EPSILON`. -/
def compareRat (op : ComparisonOp) (lhs rhs : ℚ) : Bool :=
  match op with
  | eq => decide (|lhs - rhs| < 1 / 2 ^ 52)
  | notEq => decide (|lhs - rhs| ≥ 1 / 2 ^ 52)
  | lt => decide (lhs < rhs)
  | ltEq => decide (lhs ≤ rhs)
  | gt => decide (lhs > rhs)
  | gtEq => decide (lhs ≥ rhs)

/-- `compare_values` with exact numbers for floats. -/
def compareExact (op : ComparisonOp) : Value → Value → Bool
  | .text a, .text b => op.compareOrd a b
  | .integer a, .integer b => op.compareOrd a b
  | .float a, .float b => op.compareRat a.toRat b.toRat
  | .integer a, .float b => op.compareRat (F64.ofInt a.toInt).toRat b.toRat
  | .float a, .integer b => op.compareRat a.toRat (F64.ofInt b.toInt).toRat
  | .boolean a, .boolean b => op.compareOrd a b
  | lhs, rhs => op == eq && lhs.eq rhs

theorem compareRat_eq_withEquality (lhs rhs : ℚ) (op : ComparisonOp) :
    op.compareRat lhs rhs = withEquality (decide (|lhs - rhs| < 1 / 2 ^ 52)) lhs rhs op := by
  cases op with
  | notEq =>
    rw [compareRat, withEquality, ← decide_not]
    exact decide_eq_decide.mpr not_lt.symm
  | _ => rfl

/-! ## Values -/

/-- Both texts, both booleans, or both numbers, of which the floats are finite. -/
def Comparable : Value → Value → Prop
  | .text _, .text _ => True
  | .boolean _, .boolean _ => True
  | .integer _, .integer _ => True
  | .integer _, .float b => b.isFinite = true
  | .float a, .integer _ => a.isFinite = true
  | .float a, .float b => a.isFinite = true ∧ b.isFinite = true
  | _, _ => False

/-- The floats that are compared, when a float is involved. -/
def comparedFloats : Value → Value → Option (F64 × F64)
  | .float a, .float b => some (a, b)
  | .integer a, .float b => some (F64.ofInt a.toInt, b)
  | .float a, .integer b => some (a, F64.ofInt b.toInt)
  | _, _ => none

theorem isFinite_of_comparedFloats {lhs rhs : Value} (h : Comparable lhs rhs) {a b : F64}
    (hab : comparedFloats lhs rhs = some (a, b)) : a.isFinite = true ∧ b.isFinite = true := by
  cases lhs <;> cases rhs <;> cases hab
  · exact ⟨F64.isFinite_ofInt _, h⟩
  · exact ⟨h, F64.isFinite_ofInt _⟩
  · exact h

theorem compareValues_of_floats {lhs rhs : Value} {a b : F64}
    (hab : comparedFloats lhs rhs = some (a, b)) (op : ComparisonOp) :
    op.compareValues lhs rhs = op.compareF64 a b ∧
      op.compareExact lhs rhs = op.compareRat a.toRat b.toRat := by
  cases lhs <;> cases rhs <;> cases hab <;> exact ⟨rfl, rfl⟩

/-- Without floats the values have an ordering that all operators follow. -/
theorem compareValues_of_not_floats {lhs rhs : Value} (h : Comparable lhs rhs)
    (hnone : comparedFloats lhs rhs = none) : ∃ o : Ordering, ∀ op : ComparisonOp,
      op.compareValues lhs rhs = op.admits o ∧ op.compareExact lhs rhs = op.admits o := by
  cases lhs <;> cases rhs
  case text.text a b => exact ⟨_, fun op => ⟨rfl, rfl⟩⟩
  case integer.integer a b => exact ⟨_, fun op => ⟨rfl, rfl⟩⟩
  case boolean.boolean a b => exact ⟨_, fun op => ⟨rfl, rfl⟩⟩
  all_goals first | exact absurd h id | cases hnone

/-- Reading floats exactly changes what the two equalities say, and nothing else. -/
theorem compareExact_eq_compareValues {op : ComparisonOp} (heq : op ≠ eq) (hnot : op ≠ notEq)
    {lhs rhs : Value} (h : Comparable lhs rhs) :
    op.compareExact lhs rhs = op.compareValues lhs rhs := by
  cases hab : comparedFloats lhs rhs with
  | none =>
    obtain ⟨o, ho⟩ := compareValues_of_not_floats h hab
    rw [(ho op).1, (ho op).2]
  | some p =>
    obtain ⟨a, b⟩ := p
    obtain ⟨ha, hb⟩ := isFinite_of_comparedFloats h hab
    have hle : a.toRat ≤ b.toRat ↔ a.key ≤ b.key := by
      rw [← not_lt, ← not_lt, F64.toRat_lt_iff]
    have hge : b.toRat ≤ a.toRat ↔ b.key ≤ a.key := by
      rw [← not_lt, ← not_lt, F64.toRat_lt_iff]
    rw [(compareValues_of_floats hab op).1, (compareValues_of_floats hab op).2,
      compareRat_eq_withEquality, compareF64_eq_withEquality ha hb]
    cases op with
    | eq => exact absurd rfl heq
    | notEq => exact absurd rfl hnot
    | lt => exact decide_eq_decide.mpr F64.toRat_lt_iff
    | ltEq => exact decide_eq_decide.mpr hle
    | gt => exact decide_eq_decide.mpr F64.toRat_lt_iff
    | gtEq => exact decide_eq_decide.mpr hge

/-- The laws, for the values read exactly and for the floats as they are. -/
theorem comparison_coherent_iff {lhs rhs : Value} (h : Comparable lhs rhs) :
    (Coherent (fun op => op.compareExact lhs rhs) ↔
      ¬ ∃ a b, comparedFloats lhs rhs = some (a, b) ∧
        a.toRat ≠ b.toRat ∧ |a.toRat - b.toRat| < 1 / 2 ^ 52) ∧
    (Coherent (fun op => op.compareValues lhs rhs) ↔
      ¬ ∃ a b, comparedFloats lhs rhs = some (a, b) ∧
        a.key ≠ b.key ∧ (a.sub b).abs.lt F64.epsilon = true) := by
  cases hab : comparedFloats lhs rhs with
  | none =>
    obtain ⟨o, ho⟩ := compareValues_of_not_floats h hab
    have hexact : (fun op : ComparisonOp => op.compareExact lhs rhs) = fun op => op.admits o :=
      funext fun op => (ho op).2
    have hvalues : (fun op : ComparisonOp => op.compareValues lhs rhs) = fun op => op.admits o :=
      funext fun op => (ho op).1
    rw [hexact, hvalues]
    exact ⟨iff_of_true (coherent_admits o) (by rintro ⟨a, b, ⟨⟩, -⟩),
      iff_of_true (coherent_admits o) (by rintro ⟨a, b, ⟨⟩, -⟩)⟩
  | some p =>
    obtain ⟨a, b⟩ := p
    obtain ⟨ha, hb⟩ := isFinite_of_comparedFloats h hab
    have hexact : (fun op : ComparisonOp => op.compareExact lhs rhs) =
        withEquality (decide (|a.toRat - b.toRat| < 1 / 2 ^ 52)) a.toRat b.toRat := by
      funext op
      rw [(compareValues_of_floats hab op).2, compareRat_eq_withEquality]
    have hvalues : (fun op : ComparisonOp => op.compareValues lhs rhs) =
        withEquality ((a.sub b).abs.lt F64.epsilon) a.key b.key := by
      funext op
      rw [(compareValues_of_floats hab op).1, compareF64_eq_withEquality ha hb]
    rw [hexact, hvalues, coherent_withEquality_iff, coherent_withEquality_iff]
    · simp
    · intro hk
      rw [F64.sub_of_key_eq_of_finite ha hk]
      rfl
    · intro hk
      rw [hk, sub_self, abs_zero]
      norm_num

/-- An integer and the float `2.5` are far enough apart. -/
theorem comparison_coherent_mixed :
    Coherent (fun op => op.compareExact (.integer 2) (.float ⟨0x4004000000000000⟩)) ∧
      Coherent (fun op => op.compareValues (.integer 2) (.float ⟨0x4004000000000000⟩)) := by
  have hfinite : Comparable (.integer 2) (.float ⟨0x4004000000000000⟩) :=
    (by decide : F64.isFinite ⟨0x4004000000000000⟩ = true)
  have h := comparison_coherent_iff hfinite
  refine ⟨h.1.mpr ?_, h.2.mpr ?_⟩
  · rintro ⟨a, b, hab, -, hlt⟩
    obtain ⟨ha, hb⟩ := Prod.mk.inj (Option.some.inj hab)
    rw [← ha, ← hb] at hlt
    exact absurd hlt (by decide +kernel)
  · rintro ⟨a, b, hab, -, hlt⟩
    obtain ⟨ha, hb⟩ := Prod.mk.inj (Option.some.inj hab)
    rw [← ha, ← hb] at hlt
    exact absurd hlt (by decide +kernel)

/-- `0.1 + 0.2` is both equal to `0.3` and greater, and being equal it is not `<=`. -/
theorem comparison_not_coherent :
    let lhs := Value.float ⟨0x3FD3333333333334⟩
    let rhs := Value.float ⟨0x3FD3333333333333⟩
    Comparable lhs rhs ∧
      (eq.compareExact lhs rhs = true ∧ gt.compareExact lhs rhs = true ∧
        ltEq.compareExact lhs rhs = false ∧
        ¬ Coherent fun op => op.compareExact lhs rhs) ∧
      eq.compareValues lhs rhs = true ∧ gt.compareValues lhs rhs = true ∧
        ltEq.compareValues lhs rhs = false ∧
        ¬ Coherent fun op => op.compareValues lhs rhs :=
  ⟨⟨by decide, by decide⟩,
    ⟨by decide +kernel, by decide +kernel, by decide +kernel,
      fun h => absurd h.exactlyOne (by decide +kernel)⟩,
    by decide +kernel, by decide +kernel, by decide +kernel,
    fun h => absurd h.exactlyOne (by decide +kernel)⟩

end ComparisonOp

end AdGraphDb
