import Mathlib.Tactic

/-!
# IEEE 754 binary64

A double is its 64 bits. Comparison goes through the sign-magnitude `key`, exact
values are integers in units of `2^-1074`, of which every finite double is a
multiple, and an operation computes the exact result and rounds it to nearest,
ties to even.
-/

namespace AdGraphDb

structure F64 where
  bits : UInt64
deriving DecidableEq

namespace F64

/-- The bits below the sign. -/
def magnitude (x : F64) : ℕ := x.bits.toNat % 2 ^ 63

def negative (x : F64) : Bool := decide (2 ^ 63 ≤ x.bits.toNat)

/-- The magnitude of the infinities; larger ones are NaNs. -/
def infMagnitude : ℕ := 0x7FF * 2 ^ 52

def isNaN (x : F64) : Bool := decide (infMagnitude < x.magnitude)

def isInfinite (x : F64) : Bool := decide (x.magnitude = infMagnitude)

def isFinite (x : F64) : Bool := decide (x.magnitude < infMagnitude)

/-- The sign-magnitude integer that orders the doubles other than NaN. -/
def key (x : F64) : ℤ := if x.negative then -(x.magnitude : ℤ) else x.magnitude

/-- `==`, false on NaN. -/
def eq (a b : F64) : Bool := !a.isNaN && !b.isNaN && decide (a.key = b.key)

def lt (a b : F64) : Bool := !a.isNaN && !b.isNaN && decide (a.key < b.key)

def le (a b : F64) : Bool := !a.isNaN && !b.isNaN && decide (a.key ≤ b.key)

def partialCmp (a b : F64) : Option Ordering :=
  if a.isNaN || b.isNaN then none else some (compare a.key b.key)

def ofParts (neg : Bool) (m : ℕ) : F64 := ⟨UInt64.ofNat (if neg then 2 ^ 63 + m else m)⟩

def nan : F64 := ofParts false (infMagnitude + 2 ^ 51)

def zero : F64 := ofParts false 0

/-- `f64::EPSILON`, that is `2^-52`. -/
def epsilon : F64 := ⟨0x3CB0000000000000⟩

def neg (x : F64) : F64 := ofParts (!x.negative) x.magnitude

def abs (x : F64) : F64 := ofParts false x.magnitude

/-- The exact value of a finite magnitude, in units of `2^-1074`. -/
def unitsOfMagnitude (m : ℕ) : ℕ :=
  if m / 2 ^ 52 = 0 then m else (2 ^ 52 + m % 2 ^ 52) * 2 ^ (m / 2 ^ 52 - 1)

def units (x : F64) : ℤ :=
  if x.negative then -(unitsOfMagnitude x.magnitude : ℤ) else unitsOfMagnitude x.magnitude

/-- The integer nearest to `n / d`, ties to even. -/
def roundHalfEven (n d : ℕ) : ℕ :=
  if 2 * (n % d) < d ∨ (2 * (n % d) = d ∧ n / d % 2 = 0) then n / d else n / d + 1

/-- The magnitude nearest to `n / d` units; too large values overflow to infinity.
With `s` the number of bits to drop, the carry of the rounding runs into the exponent. -/
def roundMagnitude (n d : ℕ) : ℕ :=
  let s := Nat.log2 (n / d) - 52
  min infMagnitude (s * 2 ^ 52 + roundHalfEven n (d * 2 ^ s))

def ofUnits (u : ℤ) : F64 := ofParts (decide (u < 0)) (roundMagnitude u.natAbs 1)

/-- `i as f64`. -/
def ofInt (i : ℤ) : F64 := ofUnits (i * 2 ^ 1074)

def sub (a b : F64) : F64 :=
  if a.isNaN || b.isNaN then nan
  else if a.isInfinite then
    if b.isInfinite && a.negative == b.negative then nan else a
  else if b.isInfinite then b.neg
  else if a.units = b.units then ofParts (a.negative && !b.negative) 0
  else ofUnits (a.units - b.units)

def add (a b : F64) : F64 := sub a b.neg

/-- `f64::INFINITY`. -/
def infinity : F64 := ofParts false infMagnitude

/-- The integer by which `total_cmp` orders all doubles. -/
def totalKey (x : F64) : ℤ := if x.negative then -(x.magnitude : ℤ) - 1 else x.magnitude

/-- The exact value of a finite float. -/
def toRat (x : F64) : ℚ := x.units / 2 ^ 1074

/-- The exact value of a float that is an integer. -/
def toInt (x : F64) : ℤ := x.units / 2 ^ 1074

/-! ## The order key -/

theorem magnitude_lt (x : F64) : x.magnitude < 2 ^ 63 := Nat.mod_lt _ (by positivity)

@[simp] theorem magnitude_ofParts {m : ℕ} (h : m < 2 ^ 63) (neg : Bool) :
    (ofParts neg m).magnitude = m := by
  unfold magnitude ofParts
  cases neg <;> simp only [Bool.false_eq_true, if_false, if_true, UInt64.toNat_ofNat'] <;> omega

theorem negative_ofParts {m : ℕ} (h : m < 2 ^ 63) (neg : Bool) :
    (ofParts neg m).negative = neg := by
  unfold negative ofParts
  cases neg <;> simp only [Bool.false_eq_true, if_false, if_true, UInt64.toNat_ofNat',
    decide_eq_true_eq, decide_eq_false_iff_not] <;> omega

/-- Doubles with one key differ at most in the sign of zero. -/
theorem key_eq_iff {a b : F64} :
    a.key = b.key ↔ a.magnitude = b.magnitude ∧ (a.negative = b.negative ∨ a.magnitude = 0) := by
  unfold key
  cases a.negative <;> cases b.negative <;> simp <;> omega

theorem ext_parts {a b : F64} (hm : a.magnitude = b.magnitude) (hs : a.negative = b.negative) :
    a = b := by
  unfold negative at hs
  rw [decide_eq_decide] at hs
  unfold magnitude at hm
  have ha := a.bits.toNat_lt
  have hb := b.bits.toNat_lt
  have hbits : a.bits.toNat = b.bits.toNat := by omega
  exact congrArg F64.mk (UInt64.toNat_inj.mp hbits)

theorem totalKey_injective : Function.Injective totalKey := by
  intro a b h
  unfold totalKey at h
  split_ifs at h with ha hb hb
  · exact ext_parts (by omega) (ha.trans hb.symm)
  · omega
  · omega
  · exact ext_parts (by omega)
      ((Bool.eq_false_of_not_eq_true ha).trans (Bool.eq_false_of_not_eq_true hb).symm)

theorem key_le_of_totalKey_le {a b : F64} (h : a.totalKey ≤ b.totalKey) : a.key ≤ b.key := by
  unfold totalKey at h
  unfold key
  split_ifs at h ⊢ <;> omega

theorem units_eq_of_key_eq {a b : F64} (h : a.key = b.key) : a.units = b.units := by
  obtain ⟨hm, hs⟩ := key_eq_iff.mp h
  unfold units
  rw [← hm]
  rcases hs with hs | hz
  · rw [hs]
  · rw [hz]
    simp [unitsOfMagnitude]

theorem isNaN_eq_of_key_eq {a b : F64} (h : a.key = b.key) : a.isNaN = b.isNaN := by
  rw [isNaN, isNaN, (key_eq_iff.mp h).1]

theorem infMagnitude_lt : infMagnitude < 2 ^ 63 := by norm_num [infMagnitude]

theorem not_isNaN_iff {x : F64} : x.isNaN = false ↔ x.isFinite = true ∨ x.isInfinite = true := by
  simp only [isNaN, isFinite, isInfinite, decide_eq_true_eq, decide_eq_false_iff_not]
  omega

/-! ## Subtraction -/

theorem isNaN_ofUnits (u : ℤ) : (ofUnits u).isNaN = false := by
  have h : roundMagnitude u.natAbs 1 ≤ infMagnitude := min_le_left _ _
  rw [ofUnits, isNaN, magnitude_ofParts (h.trans_lt infMagnitude_lt), decide_eq_false_iff_not]
  exact not_lt.mpr h

theorem isNaN_abs (x : F64) : x.abs.isNaN = x.isNaN := by
  rw [abs, isNaN, isNaN, magnitude_ofParts x.magnitude_lt]

theorem isNaN_neg (x : F64) : x.neg.isNaN = x.isNaN := by
  rw [neg, isNaN, isNaN, magnitude_ofParts x.magnitude_lt]

theorem isNaN_nan : nan.isNaN = true := by decide

theorem isNaN_epsilon : epsilon.isNaN = false := by decide

/-- The difference of two different numbers is a number. -/
theorem isNaN_sub {a b : F64} (ha : a.isNaN = false) (hb : b.isNaN = false)
    (h : a.key ≠ b.key) : (sub a b).isNaN = false := by
  rw [sub, ha, hb, Bool.or_false, if_neg Bool.false_ne_true]
  split_ifs with h1 h2 h3 h4
  · simp only [Bool.and_eq_true, beq_iff_eq, isInfinite, decide_eq_true_eq] at h1 h2
    exact absurd (key_eq_iff.mpr ⟨h1.trans h2.1.symm, .inl h2.2⟩) h
  · exact ha
  · rw [isNaN_neg, hb]
  · rw [isNaN, magnitude_ofParts (by norm_num)]
    rfl
  · exact isNaN_ofUnits _

theorem sub_of_key_eq_of_finite {a b : F64} (ha : a.isFinite = true) (h : a.key = b.key) :
    (sub a b).abs = zero := by
  have hm := (key_eq_iff.mp h).1
  simp only [isFinite, decide_eq_true_eq] at ha
  have hna : a.isNaN = false := by rw [isNaN, decide_eq_false_iff_not]; omega
  have hia : a.isInfinite = false := by rw [isInfinite, decide_eq_false_iff_not]; omega
  have hib : b.isInfinite = false := by rw [isInfinite, decide_eq_false_iff_not]; omega
  rw [sub, ← isNaN_eq_of_key_eq h, hna, hia, hib, if_neg (by simp), if_neg Bool.false_ne_true,
    if_neg Bool.false_ne_true, if_pos (units_eq_of_key_eq h), abs, magnitude_ofParts (by norm_num)]
  rfl

theorem sub_of_key_eq_of_infinite {a b : F64} (ha : a.isInfinite = true) (h : a.key = b.key) :
    sub a b = nan := by
  obtain ⟨hm, hs⟩ := key_eq_iff.mp h
  have hb : b.isInfinite = true := by rw [isInfinite, ← hm]; exact ha
  have hs : a.negative = b.negative := by
    refine hs.resolve_right fun hz => ?_
    rw [isInfinite, hz] at ha
    exact absurd ha (by decide)
  have hc : (b.isInfinite && a.negative == b.negative) = true := by simp [hb, hs]
  rw [sub, if_pos ha, if_pos hc, ite_self]

/-- Zeros of either sign are at the same distance. -/
theorem abs_sub_congr {a b : F64} (h : eq a b = true) (x : F64) : (sub x a).abs = (sub x b).abs := by
  simp only [eq, Bool.and_eq_true, Bool.not_eq_true', decide_eq_true_eq] at h
  obtain ⟨⟨ha, hb⟩, hk⟩ := h
  have hm := (key_eq_iff.mp hk).1
  rcases (key_eq_iff.mp hk).2 with hs | hz
  · rw [ext_parts hm hs]
  · have hia : a.isInfinite = false := by rw [isInfinite, hz]; rfl
    have hib : b.isInfinite = false := by rw [isInfinite, ← hm, hz]; rfl
    unfold sub
    rw [ha, hb, hia, hib, units_eq_of_key_eq hk]
    simp only [Bool.false_and, Bool.or_false, Bool.false_eq_true, if_false]
    split_ifs
    · rfl
    · rfl
    · simp [abs, magnitude_ofParts]
    · rfl

theorem lt_zero_epsilon : lt zero epsilon = true := by decide

/-- `>=` is the negation of `<` except on NaN. -/
theorem le_eq_not_lt {a b : F64} (ha : a.isNaN = false) (hb : b.isNaN = false) :
    le a b = !lt b a := by
  simp only [le, lt, ha, hb, Bool.not_false, Bool.true_and, ← decide_not, not_lt]

/-! ## Addition -/

theorem div_le_roundHalfEven (n d : ℕ) : n / d ≤ roundHalfEven n d := by
  unfold roundHalfEven
  split_ifs <;> omega

/-- Rounding does not go below a magnitude that is reached exactly. -/
theorem le_roundMagnitude {m n : ℕ} (hm : m ≤ infMagnitude) (h : unitsOfMagnitude m ≤ n) :
    m ≤ roundMagnitude n 1 := by
  have hround := div_le_roundHalfEven n (1 * 2 ^ (Nat.log2 n - 52))
  rw [Nat.one_mul] at hround
  unfold roundMagnitude
  rw [Nat.div_one]
  dsimp only
  rw [Nat.one_mul]
  refine le_min hm (le_trans ?_ (Nat.add_le_add_left hround _))
  unfold unitsOfMagnitude at h
  split_ifs at h with he
  · -- a subnormal magnitude is its number of units
    rcases Nat.eq_zero_or_pos (Nat.log2 n - 52) with hs | hs
    · rw [hs, Nat.pow_zero, Nat.div_one, Nat.zero_mul, Nat.zero_add]
      exact h
    · have : m < 2 ^ 52 := Nat.lt_of_div_eq_zero (Nat.two_pow_pos 52) he
      exact this.le.trans ((Nat.le_mul_of_pos_left _ hs).trans (Nat.le_add_right _ _))
  · obtain ⟨k, hk⟩ := Nat.exists_eq_succ_of_ne_zero he
    rw [hk, Nat.succ_eq_add_one, Nat.add_sub_cancel] at h
    have hlow : 2 ^ (52 + k) ≤ n := by
      rw [Nat.pow_add]
      exact (Nat.mul_le_mul_right _ (Nat.le_add_right _ _)).trans h
    have hn : n ≠ 0 := (Nat.two_pow_pos (52 + k)).trans_le hlow |>.ne'
    have hlog : 52 + k ≤ Nat.log2 n := (Nat.le_log2 hn).mpr hlow
    rcases Nat.eq_or_lt_of_le (show k ≤ Nat.log2 n - 52 by omega) with hs | hs
    · -- the same exponent
      rw [← hs]
      have hquot := (Nat.le_div_iff_mul_le (Nat.two_pow_pos k)).mpr h
      omega
    · -- a larger one
      have hquot : 2 ^ 52 ≤ n / 2 ^ (Nat.log2 n - 52) := by
        rw [Nat.le_div_iff_mul_le (Nat.two_pow_pos _), ← Nat.pow_add]
        exact (Nat.pow_le_pow_right (by decide) (by omega)).trans (Nat.log2_self_le hn)
      have hmul := Nat.mul_le_mul_right (2 ^ 52) hs
      omega

theorem eq_zero_of_unitsOfMagnitude {m : ℕ} (h : unitsOfMagnitude m = 0) : m = 0 := by
  unfold unitsOfMagnitude at h
  split_ifs at h
  · exact h
  · have := Nat.mul_pos (show 0 < 2 ^ 52 + m % 2 ^ 52 by omega) (Nat.two_pow_pos (m / 2 ^ 52 - 1))
    omega

theorem key_eq_magnitude {x : F64} (h : 0 ≤ x.key) : x.key = x.magnitude := by
  unfold key at h ⊢
  split_ifs at h ⊢ <;> omega

theorem units_eq_unitsOfMagnitude {x : F64} (h : 0 ≤ x.key) :
    x.units = unitsOfMagnitude x.magnitude := by
  unfold key at h
  unfold units
  split_ifs at h ⊢
  · have hzero : x.magnitude = 0 := by omega
    rw [hzero]
    rfl
  · rfl

theorem negative_of_infinite {x : F64} (h : 0 ≤ x.key) (hinf : x.isInfinite = true) :
    x.negative = false := by
  rw [isInfinite, decide_eq_true_eq] at hinf
  by_contra hneg
  rw [key, if_pos (Bool.eq_true_of_not_eq_false hneg), hinf] at h
  exact absurd h (by decide)

theorem magnitude_neg (x : F64) : x.neg.magnitude = x.magnitude := magnitude_ofParts x.magnitude_lt _

theorem negative_neg (x : F64) : x.neg.negative = !x.negative := negative_ofParts x.magnitude_lt _

theorem neg_neg_eq (x : F64) : x.neg.neg = x :=
  ext_parts (by rw [magnitude_neg, magnitude_neg])
    (by rw [negative_neg, negative_neg, Bool.not_not])

theorem units_neg (x : F64) : x.neg.units = -x.units := by
  unfold units
  rw [magnitude_neg, negative_neg]
  cases x.negative <;> simp

/-- A sum with a weight that is not negative does not fall below the other summand. -/
theorem le_key_add {a w : F64} (ha : a.isNaN = false) (hw : w.isNaN = false) (ha0 : 0 ≤ a.key)
    (hw0 : 0 ≤ w.key) : (add a w).isNaN = false ∧ a.key ≤ (add a w).key := by
  have hmag : a.magnitude ≤ infMagnitude := by
    rw [isNaN, decide_eq_false_iff_not] at ha
    exact Nat.not_lt.mp ha
  have hinf : w.neg.isInfinite = w.isInfinite := by rw [isInfinite, isInfinite, magnitude_neg]
  rw [add, sub, ha, isNaN_neg, hw, Bool.or_false, if_neg Bool.false_ne_true, hinf, units_neg,
    neg_neg_eq, negative_neg]
  split_ifs with hainf hboth hwinf hunits
  · -- two infinities have one sign
    rw [Bool.and_eq_true, beq_iff_eq] at hboth
    have hsign := hboth.2
    rw [negative_of_infinite ha0 hainf, negative_of_infinite hw0 hboth.1] at hsign
    cases hsign
  · exact ⟨ha, le_rfl⟩
  · refine ⟨hw, ?_⟩
    rw [isInfinite, decide_eq_true_eq] at hwinf
    rw [key_eq_magnitude ha0, key_eq_magnitude hw0, hwinf]
    exact Int.ofNat_le.mpr hmag
  · -- both are zero
    rw [units_eq_unitsOfMagnitude ha0, units_eq_unitsOfMagnitude hw0] at hunits
    have hzero : unitsOfMagnitude a.magnitude = 0 := by omega
    have hkey : a.key = 0 := by
      rw [key_eq_magnitude ha0, eq_zero_of_unitsOfMagnitude hzero]
      rfl
    have hpos : (0 : ℕ) < 2 ^ 63 := by norm_num
    refine ⟨by rw [isNaN, magnitude_ofParts hpos]; rfl, ?_⟩
    rw [hkey, key, magnitude_ofParts hpos]
    split_ifs <;> rfl
  · refine ⟨isNaN_ofUnits _, ?_⟩
    have hsum : a.units - -w.units =
        ((unitsOfMagnitude a.magnitude + unitsOfMagnitude w.magnitude : ℕ) : ℤ) := by
      rw [units_eq_unitsOfMagnitude ha0, units_eq_unitsOfMagnitude hw0]
      omega
    have hround := le_roundMagnitude hmag (Nat.le_add_right _ (unitsOfMagnitude w.magnitude))
    have hsmall : roundMagnitude (unitsOfMagnitude a.magnitude + unitsOfMagnitude w.magnitude) 1 <
        2 ^ 63 := (min_le_left _ _).trans_lt infMagnitude_lt
    rw [hsum, ofUnits, Int.natAbs_natCast, key_eq_magnitude ha0, key, negative_ofParts hsmall,
      magnitude_ofParts hsmall, if_neg (by rw [decide_eq_true_eq]; omega)]
    exact Int.ofNat_le.mpr hround

end F64

end AdGraphDb
