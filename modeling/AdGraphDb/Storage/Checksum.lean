import Mathlib.Tactic.NormNum.Prime
import AdGraphDb.Storage.Codec

/-!
# The checksum

Adler-32 keeps the sum of the bytes and the sum of the running sums. In the second one a byte
counts once for every position from its own on, so two changes that cancel in the first sum do
not cancel in the second, unless the modulus divides their distance.
-/

namespace AdGraphDb

def byteSum (data : Bytes) : Nat := (data.map UInt8.toNat).sum

/-- The bytes, each times the number of positions from its own on. -/
def laterSum : Bytes → Nat
  | [] => 0
  | x :: xs => (xs.length + 1) * x.toNat + laterSum xs

/-- One step of the checksum. -/
def adlerStep (p : UInt32 × UInt32) (byte : UInt8) : UInt32 × UInt32 :=
  let a := (p.1 + byte.toUInt32) % 65521
  (a, (p.2 + a) % 65521)

/-- Both sums at the end. -/
def adlerSums (data : Bytes) : UInt32 × UInt32 := data.foldl adlerStep (1, 0)

theorem adler32_eq (data : Bytes) :
    adler32 data = ((adlerSums data).2 <<< 16) ||| (adlerSums data).1 := rfl

/-! ## The two sums -/

/-- Both sums are below the modulus. -/
def Reduced (p : UInt32 × UInt32) : Prop := p.1.toNat < 65521 ∧ p.2.toNat < 65521

/-- From sums below the modulus, neither addition of a step wraps. -/
theorem Reduced.add_toNat {p : UInt32 × UInt32} (hp : Reduced p) (byte : UInt8) :
    (p.1 + byte.toUInt32).toNat = p.1.toNat + byte.toNat ∧
      (p.2 + (p.1 + byte.toUInt32) % 65521).toNat =
        p.2.toNat + (p.1.toNat + byte.toNat) % 65521 := by
  have hbyte := byte.toNat_lt
  obtain ⟨hfst, hsnd⟩ := hp
  have hadd : (p.1 + byte.toUInt32).toNat = p.1.toNat + byte.toNat := by
    rw [UInt32.toNat_add, UInt8.toNat_toUInt32, Nat.mod_eq_of_lt (by omega)]
  have hmod : ((p.1 + byte.toUInt32) % 65521).toNat = (p.1.toNat + byte.toNat) % 65521 := by
    rw [UInt32.toNat_mod, hadd]
    rfl
  refine ⟨hadd, ?_⟩
  rw [UInt32.toNat_add, hmod]
  exact Nat.mod_eq_of_lt (by omega)

theorem adlerStep_toNat {p : UInt32 × UInt32} (hp : Reduced p) (byte : UInt8) :
    (adlerStep p byte).1.toNat = (p.1.toNat + byte.toNat) % 65521 ∧
      (adlerStep p byte).2.toNat =
        (p.2.toNat + (p.1.toNat + byte.toNat) % 65521) % 65521 := by
  obtain ⟨hfst, hsnd⟩ := hp.add_toNat byte
  constructor
  · rw [adlerStep, UInt32.toNat_mod, hfst]
    rfl
  · rw [adlerStep, UInt32.toNat_mod, hsnd]
    rfl

theorem Reduced.adlerStep {p : UInt32 × UInt32} (hp : Reduced p) (byte : UInt8) :
    Reduced (adlerStep p byte) := by
  obtain ⟨hfst, hsnd⟩ := adlerStep_toNat hp byte
  constructor
  · rw [hfst]
    exact Nat.mod_lt _ (by decide)
  · rw [hsnd]
    exact Nat.mod_lt _ (by decide)

theorem Reduced.foldl {p : UInt32 × UInt32} (hp : Reduced p) (data : Bytes) :
    Reduced (data.foldl AdGraphDb.adlerStep p) := by
  induction data generalizing p with
  | nil => exact hp
  | cons x xs ih => exact ih (hp.adlerStep x)

theorem reduced_adlerSums (data : Bytes) : Reduced (adlerSums data) :=
  Reduced.foldl ⟨by decide, by decide⟩ data

/-- The sums in closed form. -/
theorem foldl_adlerStep (data : Bytes) {p : UInt32 × UInt32} (hp : Reduced p) :
    (data.foldl adlerStep p).1.toNat ≡ p.1.toNat + byteSum data [MOD 65521] ∧
      (data.foldl adlerStep p).2.toNat ≡
        p.2.toNat + data.length * p.1.toNat + laterSum data [MOD 65521] := by
  induction data generalizing p with
  | nil => exact ⟨rfl, by rw [List.length_nil, Nat.zero_mul]; rfl⟩
  | cons x xs ih =>
    obtain ⟨hfst, hsnd⟩ := adlerStep_toNat hp x
    obtain ⟨hfst', hsnd'⟩ := ih (hp.adlerStep x)
    have hone : (adlerStep p x).1.toNat ≡ p.1.toNat + x.toNat [MOD 65521] := by
      rw [hfst]
      exact Nat.mod_modEq _ _
    have htwo : (adlerStep p x).2.toNat ≡ p.2.toNat + (p.1.toNat + x.toNat) [MOD 65521] := by
      rw [hsnd]
      exact (Nat.mod_modEq _ _).trans (Nat.ModEq.rfl.add (Nat.mod_modEq _ _))
    rw [List.foldl_cons]
    constructor
    · refine hfst'.trans ((hone.add_right _).trans ?_)
      rw [byteSum, byteSum, List.map_cons, List.sum_cons, Nat.add_assoc]
    · refine hsnd'.trans (((htwo.add (hone.mul_left _)).add_right _).trans ?_)
      rw [laterSum, List.length_cons]
      refine congrArg (fun n => n % 65521) ?_
      ring

/-- The sums do not overlap in the checksum. -/
theorem adler32_toNat (data : Bytes) :
    (adler32 data).toNat = (adlerSums data).2.toNat * 2 ^ 16 + (adlerSums data).1.toNat := by
  obtain ⟨hfst, hsnd⟩ := reduced_adlerSums data
  have hshift : ((adlerSums data).2 <<< 16).toNat = (adlerSums data).2.toNat <<< 16 := by
    rw [UInt32.toNat_shiftLeft, show (16 : UInt32).toNat % 32 = 16 from rfl, Nat.shiftLeft_eq]
    exact Nat.mod_eq_of_lt (by omega)
  rw [adler32_eq, UInt32.toNat_or, hshift, ← Nat.shiftLeft_add_eq_or_of_lt (by omega),
    Nat.shiftLeft_eq]

theorem adlerSums_modEq_of_eq {x y : Bytes} (hlen : x.length = y.length)
    (h : adler32 x = adler32 y) :
    byteSum x ≡ byteSum y [MOD 65521] ∧ laterSum x ≡ laterSum y [MOD 65521] := by
  have hone : Reduced (1, 0) := ⟨by decide, by decide⟩
  obtain ⟨hx, hx'⟩ := foldl_adlerStep x hone
  obtain ⟨hy, hy'⟩ := foldl_adlerStep y hone
  obtain ⟨hfstx, -⟩ := reduced_adlerSums x
  obtain ⟨hfsty, -⟩ := reduced_adlerSums y
  have hpacked := congrArg UInt32.toNat h
  rw [adler32_toNat, adler32_toNat] at hpacked
  have hfst : (adlerSums x).1.toNat = (adlerSums y).1.toNat := by omega
  have hsnd : (adlerSums x).2.toNat = (adlerSums y).2.toNat := by omega
  rw [adlerSums, adlerSums] at hfst hsnd
  rw [hfst] at hx
  rw [hsnd, hlen] at hx'
  exact ⟨Nat.ModEq.add_left_cancel' _ (hx.symm.trans hy),
    Nat.ModEq.add_left_cancel' _ (hx'.symm.trans hy')⟩

/-! ## Damaged bytes -/

theorem byteSum_set {data : Bytes} {i : Nat} (hi : i < data.length) (v : UInt8) :
    byteSum (data.set i v) + data[i].toNat = byteSum data + v.toNat := by
  induction data generalizing i with
  | nil => cases hi
  | cons x xs ih =>
    cases i with
    | zero =>
      simp only [byteSum, List.set_cons_zero, List.map_cons, List.sum_cons,
        List.getElem_cons_zero]
      omega
    | succ i =>
      have htail := ih (Nat.lt_of_succ_lt_succ hi)
      simp only [byteSum, List.set_cons_succ, List.map_cons, List.sum_cons,
        List.getElem_cons_succ] at htail ⊢
      omega

theorem laterSum_set {data : Bytes} {i : Nat} (hi : i < data.length) (v : UInt8) :
    laterSum (data.set i v) + (data.length - i) * data[i].toNat =
      laterSum data + (data.length - i) * v.toNat := by
  induction data generalizing i with
  | nil => cases hi
  | cons x xs ih =>
    cases i with
    | zero =>
      simp only [laterSum, List.set_cons_zero, List.getElem_cons_zero, List.length_cons,
        Nat.sub_zero]
      omega
    | succ i =>
      have htail := ih (Nat.lt_of_succ_lt_succ hi)
      simp only [laterSum, List.set_cons_succ, List.getElem_cons_succ, List.length_set,
        List.length_cons, Nat.add_sub_add_right] at htail ⊢
      omega

/-- Changing one byte changes the checksum. -/
theorem adler32_set_ne {data : Bytes} {i : Nat} (hi : i < data.length) {v : UInt8}
    (hv : v ≠ data[i]) : adler32 (data.set i v) ≠ adler32 data := by
  intro h
  have hsum := (adlerSums_modEq_of_eq (List.length_set ..) h).1
  have hset := byteSum_set hi v
  have hnew := v.toNat_lt
  have hold := data[i].toNat_lt
  -- the two sums differ by less than the modulus
  unfold Nat.ModEq at hsum
  exact hv (UInt8.toNat_inj.mp (by omega))

/-- Changing two bytes that are not too far apart changes the checksum. -/
theorem adler32_set_set_ne {data : Bytes} {i j : Nat} (hij : i < j) (hj : j < data.length)
    (hnear : j < i + 65521) {v : UInt8} (hv : v ≠ data[i]) (w : UInt8) :
    adler32 ((data.set i v).set j w) ≠ adler32 data := by
  intro h
  have hi : i < data.length := hij.trans hj
  have hlen : (data.set i v).length = data.length := List.length_set ..
  have hj' : j < (data.set i v).length := hlen.symm ▸ hj
  have hget : (data.set i v)[j] = data[j] := List.getElem_set_ne hij.ne _
  obtain ⟨hsum, hlater⟩ := adlerSums_modEq_of_eq ((List.length_set ..).trans hlen) h
  have hsumv := byteSum_set hi v
  have hsumw := byteSum_set hj' w
  have hlaterv := laterSum_set hi v
  have hlaterw := laterSum_set hj' w
  rw [hget] at hsumw hlaterw
  rw [hlen] at hlaterw
  have hnew := v.toNat_lt
  have hnew' := w.toNat_lt
  have hold := data[i].toNat_lt
  have hold' := data[j].toNat_lt
  have hvi : v.toNat ≠ data[i].toNat := fun he => hv (UInt8.toNat_inj.mp he)
  -- the first sum says that the changes cancel
  have hcancel : v.toNat + w.toNat = data[i].toNat + data[j].toNat := by
    unfold Nat.ModEq at hsum
    omega
  -- so the second one changes by the first change, times the distance
  have hchange : ((laterSum data : ℤ) - laterSum ((data.set i v).set j w)) =
      ((j : ℤ) - i) * ((data[i].toNat : ℤ) - v.toNat) := by
    zify [hi.le, hj.le] at hlaterv hlaterw hcancel
    linear_combination -hlaterv - hlaterw - ((data.length : ℤ) - j) * hcancel
  have hprime : Prime (65521 : ℤ) := Nat.prime_iff_prime_int.mp (by norm_num)
  have hdvd := (Nat.modEq_iff_dvd.mp hlater)
  rw [hchange] at hdvd
  rcases hprime.dvd_or_dvd hdvd with hdist | hbyte
  · have := Int.le_of_dvd (by omega) hdist
    omega
  · have := Int.eq_zero_of_abs_lt_dvd hbyte (by rw [abs_lt]; omega)
    omega

theorem eq_set_of_differ {x y : Bytes} (hlen : x.length = y.length) {i j : Nat}
    (hi : i < y.length) (hj : j < y.length) (h : ∀ k, x[k]? ≠ y[k]? → k = i ∨ k = j) :
    y = (x.set i y[i]).set j y[j] := by
  apply List.ext_getElem?
  intro k
  rw [List.getElem?_set, List.getElem?_set, List.length_set, hlen]
  split_ifs with hkj hki
  · rw [← hkj, List.getElem?_eq_getElem hj]
  · rw [← hki, List.getElem?_eq_getElem hi]
  · by_contra hne
    rcases h k (Ne.symm hne) with rfl | rfl
    · exact hki rfl
    · exact hkj rfl

theorem adler32_ne_of_differ {x y : Bytes} (hlen : x.length = y.length) {i j : Nat} (hij : i ≤ j)
    (hnear : j < i + 65521) (hdiffer : ∀ k, x[k]? ≠ y[k]? ↔ k = i ∨ k = j) :
    adler32 x ≠ adler32 y := by
  have hlt {k : Nat} (hk : x[k]? ≠ y[k]?) : k < y.length := by
    by_contra hge
    rw [not_lt] at hge
    exact hk (by rw [List.getElem?_eq_none (hlen ▸ hge), List.getElem?_eq_none hge])
  have hne {k : Nat} (hk : x[k]? ≠ y[k]?) (hx : k < x.length) (hy : k < y.length) :
      y[k] ≠ x[k] := fun he =>
    hk (by rw [List.getElem?_eq_getElem hx, List.getElem?_eq_getElem hy, he])
  have hdi := (hdiffer i).mpr (.inl rfl)
  have hdj := (hdiffer j).mpr (.inr rfl)
  have hi := hlt hdi
  have hj := hlt hdj
  have hset := eq_set_of_differ hlen hi hj fun k hk => (hdiffer k).mp hk
  have hxi : i < x.length := hlen.symm ▸ hi
  rcases hij.eq_or_lt with rfl | hij
  · rw [List.set_set] at hset
    rw [hset]
    exact (adler32_set_ne hxi (hne hdi hxi hi)).symm
  · rw [hset]
    exact (adler32_set_set_ne hij (hlen.symm ▸ hj) hnear (hne hdi hxi hi) _).symm

/-- The checksum tells two byte strings of one length apart that differ in one position, or in
two that are less than the modulus apart. The sums behind it stay below the modulus, so no
addition wraps and they do not overlap in the result. -/
theorem adler32_detects :
    (∀ x y : Bytes, x.length = y.length → ∀ i j, i ≤ j → j < i + 65521 →
      (∀ k, x[k]? ≠ y[k]? ↔ k = i ∨ k = j) → adler32 x ≠ adler32 y) ∧
    ∀ data : Bytes, Reduced (adlerSums data) ∧
      (∀ byte : UInt8,
        ((adlerSums data).1 + byte.toUInt32).toNat = (adlerSums data).1.toNat + byte.toNat ∧
        ((adlerSums data).2 + (adlerSums (data ++ [byte])).1).toNat =
          (adlerSums data).2.toNat + (adlerSums (data ++ [byte])).1.toNat) ∧
      (adler32 data).toNat = (adlerSums data).2.toNat * 2 ^ 16 + (adlerSums data).1.toNat := by
  constructor
  · exact fun x y hlen i j hij hnear hdiffer => adler32_ne_of_differ hlen hij hnear hdiffer
  · intro data
    have hreduced := reduced_adlerSums data
    refine ⟨hreduced, fun byte => ?_, adler32_toNat data⟩
    obtain ⟨hfst, hsnd⟩ := hreduced.add_toNat byte
    have hstep : adlerSums (data ++ [byte]) = adlerStep (adlerSums data) byte := by
      rw [adlerSums, List.foldl_append]
      rfl
    rw [hstep]
    refine ⟨hfst, ?_⟩
    rw [(adlerStep_toNat hreduced byte).1]
    exact hsnd

end AdGraphDb
