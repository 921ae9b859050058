import AdGraphDb.Foundation.Text
import AdGraphDb.Foundation.Float64

/-!
# Characters, slices and number literals

The methods of `char` and `str` that the query languages call. Beyond ASCII the tables
of Unicode decide; they are a parameter.
-/

namespace AdGraphDb

/-- The tables of Unicode, read beyond ASCII only. -/
structure Unicode where
  uppercase : Char → List Char
  lowercase : Char → List Char
  alphabetic : Char → Bool
  numeric : Char → Bool

/-- Tables that leave what is beyond ASCII alone. -/
def Unicode.plain : Unicode := ⟨fun c => [c], fun c => [c], fun _ => false, fun _ => false⟩

/-- A statement about the characters of a text is decided by running through the text. -/
instance (priority := 2000) decidableForallMem (cs : List Char) (p : Char → Prop)
    [DecidablePred p] : Decidable (∀ c ∈ cs, p c) := List.decidableBAll p cs

def isAscii (c : Char) : Bool := decide (c.toNat < 128)

namespace Unicode

variable (u : Unicode)

/-- `str::to_uppercase`. -/
def toUppercase (s : String) : String :=
  String.ofList (s.toList.flatMap fun c => if isAscii c then [c.toUpper] else u.uppercase c)

/-- `str::to_lowercase`. The two lower-case forms of a capital sigma are not told apart. -/
def toLowercase (s : String) : String :=
  String.ofList (s.toList.flatMap fun c => if isAscii c then [c.toLower] else u.lowercase c)

/-- `char::is_alphabetic`. -/
def isAlphabetic (c : Char) : Bool := if isAscii c then c.isAlpha else u.alphabetic c

/-- `char::is_alphanumeric`. -/
def isAlphanumeric (c : Char) : Bool :=
  u.isAlphabetic c || if isAscii c then c.isDigit else u.numeric c

end Unicode

/-- `str::eq_ignore_ascii_case`. -/
def eqIgnoreAsciiCase (a b : String) : Bool :=
  decide (a.toList.map Char.toLower = b.toList.map Char.toLower)

/-! ## Letter case

Words that are equal in ASCII up to the letter case have one spelling in capitals and one
in small letters.
-/

/-- A statement about ASCII characters is checked on all of them. -/
theorem isAscii_rec {P : Char → Prop} (h : ∀ n : Fin 128, P (Char.ofNat n)) {c : Char}
    (hc : isAscii c = true) : P c := by
  have := h ⟨c.toNat, of_decide_eq_true hc⟩
  rwa [Char.ofNat_toNat] at this

theorem toLower_of_not_isAscii {c : Char} (hc : isAscii c = false) : c.toLower = c := by
  have h : 128 ≤ c.toNat := not_lt.mp (of_decide_eq_false hc)
  apply dif_neg
  rintro ⟨_, h'⟩
  have h'' : c.toNat ≤ 90 := h'
  omega

theorem isAscii_toLower (c : Char) : isAscii c.toLower = isAscii c := by
  cases hc : isAscii c with
  | false => rw [toLower_of_not_isAscii hc, hc]
  | true => exact isAscii_rec (P := fun c => isAscii c.toLower = true) (by decide) hc

theorem toUpper_eq_of_isAscii {c : Char} (hc : isAscii c = true) : c.toUpper = c.toLower.toUpper :=
  isAscii_rec (P := fun c => c.toUpper = c.toLower.toUpper) (by decide) hc

theorem isAscii_of_isDigit {c : Char} (hc : c.isDigit = true) : isAscii c = true := by
  have h : c.val ≤ '9'.val := (of_decide_eq_true (Bool.and_eq_true_iff.mp hc).2)
  have h' : c.toNat ≤ 57 := UInt32.le_iff_toNat_le.mp h
  exact decide_eq_true (by omega)

theorem toLower_of_isDigit {c : Char} (hc : c.isDigit = true) : c.toLower = c :=
  isAscii_rec (P := fun c => c.isDigit = true → c.toLower = c) (by decide)
    (isAscii_of_isDigit hc) hc

theorem all_isAscii_congr {cs ds : List Char} (h : cs.map Char.toLower = ds.map Char.toLower)
    (hds : ds.all isAscii = true) : cs.all isAscii = true := by
  have hall (l : List Char) : (l.map Char.toLower).all isAscii = l.all isAscii := by
    rw [List.all_map]
    congr 1
    exact funext isAscii_toLower
  rw [← hall, h, hall, hds]

theorem flatMap_of_isAscii {cs : List Char} (h : cs.all isAscii = true) (f : Char → Char)
    (table : Char → List Char) :
    cs.flatMap (fun c => if isAscii c then [f c] else table c) = cs.map f := by
  induction cs with
  | nil => rfl
  | cons c cs ih =>
    rw [List.all_cons, Bool.and_eq_true] at h
    rw [List.flatMap_cons, if_pos h.1, ih h.2, List.map_cons, List.singleton_append]

theorem Unicode.toLowercase_of_eqIgnoreAsciiCase (u : Unicode) {s t : String}
    (h : eqIgnoreAsciiCase s t = true) (ht : t.toList.all isAscii = true) :
    u.toLowercase s = String.ofList (t.toList.map Char.toLower) := by
  have hmap := of_decide_eq_true h
  rw [toLowercase, flatMap_of_isAscii (all_isAscii_congr hmap ht), hmap]

theorem Unicode.toUppercase_of_eqIgnoreAsciiCase (u : Unicode) {s t : String}
    (h : eqIgnoreAsciiCase s t = true) (ht : t.toList.all isAscii = true) :
    u.toUppercase s = String.ofList (t.toList.map Char.toUpper) := by
  have hmap := of_decide_eq_true h
  have hupper {cs : List Char} (hcs : cs.all isAscii = true) :
      cs.map Char.toUpper = (cs.map Char.toLower).map Char.toUpper := by
    rw [List.map_map]
    apply List.map_congr_left
    intro c hc
    exact toUpper_eq_of_isAscii (List.all_eq_true.mp hcs c hc)
  have hs := all_isAscii_congr hmap ht
  rw [toUppercase, flatMap_of_isAscii hs, hupper hs, hmap, ← hupper ht]

/-! ## Slices -/

/-- `str::starts_with` and `str::ends_with` of a character. -/
def startsWith (s : String) (c : Char) : Bool := decide (s.toList.head? = some c)

def endsWith (s : String) (c : Char) : Bool := decide (s.toList.getLast? = some c)

def startsWithStr (s t : String) : Bool := t.toList.isPrefixOf s.toList

/-- The characters behind the first `n` bytes, or `none` inside a character. -/
def dropBytes? : Nat → List Char → Option (List Char)
  | 0, cs => some cs
  | _ + 1, [] => none
  | n + 1, c :: cs => if c.utf8Size ≤ n + 1 then dropBytes? (n + 1 - c.utf8Size) cs else none

/-- The characters of the first `n` bytes, or `none` inside a character. -/
def takeBytes? : Nat → List Char → Option (List Char)
  | 0, _ => some []
  | _ + 1, [] => none
  | n + 1, c :: cs =>
    if c.utf8Size ≤ n + 1 then (takeBytes? (n + 1 - c.utf8Size) cs).map (c :: ·) else none

/-- `s[i..j]`, or `none` where Rust panics. -/
def sliceStr? (s : String) (i j : Nat) : Option String :=
  if i ≤ j then ((dropBytes? i s.toList).bind (takeBytes? (j - i))).map String.ofList else none

/-- `s[i..]`. -/
def sliceFrom? (s : String) (i : Nat) : Option String := sliceStr? s i s.utf8ByteSize

theorem Unicode.toLowercase_append (u : Unicode) (s t : String) :
    u.toLowercase (s ++ t) = u.toLowercase s ++ u.toLowercase t := by
  rw [toLowercase, String.toList_append, List.flatMap_append, String.ofList_append]
  rfl

theorem utf8ByteSize_ofList (cs : List Char) :
    (String.ofList cs).utf8ByteSize = (cs.map Char.utf8Size).sum := by
  induction cs with
  | nil => rfl
  | cons c cs ih =>
    rw [String.ofList_cons, String.utf8ByteSize_append, ih, String.utf8ByteSize_singleton,
      List.map_cons, List.sum_cons]

theorem utf8ByteSize_of_isAscii {s : String} (h : s.toList.all isAscii = true) :
    s.utf8ByteSize = s.toList.length := by
  nth_rewrite 1 [← String.ofList_toList (s := s)]
  rw [utf8ByteSize_ofList]
  have hone : s.toList.map Char.utf8Size = s.toList.map fun _ => 1 := by
    apply List.map_congr_left
    intro c hc
    have hc : c.toNat < 128 := of_decide_eq_true (List.all_eq_true.mp h c hc)
    exact Char.utf8Size_eq_one_iff.mpr (UInt32.le_iff_toNat_le.mpr (Nat.le_of_lt_succ hc))
  rw [hone, List.map_const', List.sum_replicate, smul_eq_mul, mul_one]

theorem dropBytes?_cons (c : Char) (cs : List Char) (n : Nat) :
    dropBytes? (c.utf8Size + n) (c :: cs) = dropBytes? n cs := by
  have hpos := c.utf8Size_pos
  have hsucc : c.utf8Size + n = (c.utf8Size + n - 1) + 1 := by omega
  rw [hsucc, dropBytes?, if_pos (by omega)]
  congr 1
  omega

theorem takeBytes?_cons (c : Char) (cs : List Char) (n : Nat) :
    takeBytes? (c.utf8Size + n) (c :: cs) = (takeBytes? n cs).map (c :: ·) := by
  have hpos := c.utf8Size_pos
  have hsucc : c.utf8Size + n = (c.utf8Size + n - 1) + 1 := by omega
  rw [hsucc, takeBytes?, if_pos (by omega)]
  congr 2
  omega

theorem dropBytes?_append (cs ds : List Char) :
    dropBytes? (String.ofList cs).utf8ByteSize (cs ++ ds) = some ds := by
  rw [utf8ByteSize_ofList]
  induction cs with
  | nil => cases ds <;> rfl
  | cons c cs ih => rw [List.map_cons, List.sum_cons, List.cons_append, dropBytes?_cons, ih]

theorem takeBytes?_append (cs ds : List Char) :
    takeBytes? (String.ofList cs).utf8ByteSize (cs ++ ds) = some cs := by
  rw [utf8ByteSize_ofList]
  induction cs with
  | nil => cases ds <;> rfl
  | cons c cs ih =>
    rw [List.map_cons, List.sum_cons, List.cons_append, takeBytes?_cons, ih, Option.map_some]

/-- A slice between two texts is what stands there. -/
theorem sliceStr?_append (r s t : String) :
    sliceStr? (r ++ s ++ t) r.utf8ByteSize (r.utf8ByteSize + s.utf8ByteSize) = some s := by
  rw [sliceStr?, if_pos (Nat.le_add_right _ _), Nat.add_sub_cancel_left, String.toList_append,
    String.toList_append, List.append_assoc]
  nth_rewrite 1 [← String.ofList_toList (s := r)]
  rw [dropBytes?_append, Option.bind_some]
  nth_rewrite 1 [← String.ofList_toList (s := s)]
  rw [takeBytes?_append, Option.map_some, String.ofList_toList]

theorem sliceFrom?_append (r s : String) : sliceFrom? (r ++ s) r.utf8ByteSize = some s := by
  have := sliceStr?_append r s ""
  rwa [String.append_empty, ← String.utf8ByteSize_append] at this

/-! ## Numbers -/

/-- A non-empty row of decimal digits. -/
def parseDigits (cs : List Char) : Option Nat :=
  if cs.isEmpty then none
  else if cs.all Char.isDigit then some (Nat.ofDigitChars 10 cs 0) else none

/-- Takes off a sign, and tells whether it is a minus. -/
def splitSign : List Char → Bool × List Char
  | '-' :: cs => (true, cs)
  | '+' :: cs => (false, cs)
  | cs => (false, cs)

/-- `str::parse::<u64>`, without the kind of the error. -/
def parseU64 (s : String) : Option UInt64 :=
  let digits := if s.toList.head? = some '-' then s.toList else (splitSign s.toList).2
  (parseDigits digits).bind fun n => if n < 2 ^ 64 then some (UInt64.ofNat n) else none

/-- `str::parse::<i64>`, without the kind of the error. -/
def parseI64 (s : String) : Option Int64 :=
  (parseDigits (splitSign s.toList).2).bind fun n =>
    if (splitSign s.toList).1 then (if n ≤ 2 ^ 63 then some (Int64.ofInt (-n)) else none)
    else if n < 2 ^ 63 then some (Int64.ofInt n) else none

theorem parseDigits_toDigits (n : Nat) : parseDigits (Nat.toDigits 10 n) = some n := by
  have hne : (Nat.toDigits 10 n).isEmpty = false :=
    List.isEmpty_eq_false_iff.mpr Nat.toDigits_ne_nil
  have hall : (Nat.toDigits 10 n).all Char.isDigit = true :=
    List.all_eq_true.mpr fun c hc => Nat.isDigit_of_mem_toDigits (by decide) (by decide) hc
  rw [parseDigits, hne, if_neg Bool.false_ne_true, if_pos hall,
    Nat.ofDigitChars_toDigits (by decide) (by decide)]

theorem splitSign_of_isDigit {c : Char} (hc : c.isDigit = true) (cs : List Char) :
    splitSign (c :: cs) = (false, c :: cs) := by
  unfold splitSign
  split
  · next h =>
    rw [(List.cons.inj h).1] at hc
    cases hc
  · next h =>
    rw [(List.cons.inj h).1] at hc
    cases hc
  · rfl

/-- The digits of a number start with one. -/
theorem head_toDigits (n : Nat) : ∃ c cs, Nat.toDigits 10 n = c :: cs ∧ c.isDigit = true := by
  cases h : Nat.toDigits 10 n with
  | nil => exact absurd h Nat.toDigits_ne_nil
  | cons c cs =>
    have hmem : c ∈ Nat.toDigits 10 n := h ▸ List.mem_cons_self
    exact ⟨c, cs, rfl, Nat.isDigit_of_mem_toDigits (by decide) (by decide) hmem⟩

theorem splitSign_toDigits (n : Nat) :
    splitSign (Nat.toDigits 10 n) = (false, Nat.toDigits 10 n) := by
  obtain ⟨c, cs, hcs, hc⟩ := head_toDigits n
  rw [hcs, splitSign_of_isDigit hc]

/-! Rows of digits, whether or not they are the printed form of their number. -/

theorem parseDigits_of_digits {ds : List Char} (hne : ds ≠ [])
    (hds : ∀ c ∈ ds, c.isDigit = true) : parseDigits ds = some (Nat.ofDigitChars 10 ds 0) := by
  rw [parseDigits, List.isEmpty_eq_false_iff.mpr hne, if_neg Bool.false_ne_true,
    if_pos (List.all_eq_true.mpr hds)]

theorem digits_of_parseDigits {ds : List Char} {n : Nat} (h : parseDigits ds = some n) :
    ds ≠ [] ∧ ∀ c ∈ ds, c.isDigit = true := by
  unfold parseDigits at h
  split_ifs at h with hempty hds
  exact ⟨fun h => hempty (h ▸ rfl), List.all_eq_true.mp hds⟩

/-- A number without a plus sign is a row of digits. -/
theorem digits_of_parseU64 {ds : List Char} {id : UInt64} (hplus : '+' ∉ ds)
    (h : parseU64 (String.ofList ds) = some id) : ds ≠ [] ∧ ∀ c ∈ ds, c.isDigit = true := by
  have hsign : (if ds.head? = some '-' then ds else (splitSign ds).2) = ds := by
    unfold splitSign
    split_ifs with hminus
    · rfl
    · split
      · exact absurd rfl hminus
      · exact absurd List.mem_cons_self hplus
      · rfl
  rw [parseU64, String.toList_ofList, hsign] at h
  obtain ⟨n, hn, _⟩ := Option.bind_eq_some_iff.mp h
  exact digits_of_parseDigits hn

theorem splitSign_of_digits {ds : List Char} (hds : ∀ c ∈ ds, c.isDigit = true) :
    splitSign ds = (false, ds) := by
  cases ds with
  | nil => rfl
  | cons c cs => exact splitSign_of_isDigit (hds c List.mem_cons_self) cs

theorem parseU64_of_digits {ds : List Char} (hne : ds ≠ []) (hds : ∀ c ∈ ds, c.isDigit = true) :
    parseU64 (String.ofList ds) = if Nat.ofDigitChars 10 ds 0 < 2 ^ 64 then
      some (UInt64.ofNat (Nat.ofDigitChars 10 ds 0)) else none := by
  have hminus : ds.head? ≠ some '-' := fun h => by cases hds '-' (List.mem_of_head? h)
  rw [parseU64, String.toList_ofList, if_neg hminus, splitSign_of_digits hds,
    parseDigits_of_digits hne hds]
  rfl

theorem parseI64_of_digits {ds : List Char} (hne : ds ≠ []) (hds : ∀ c ∈ ds, c.isDigit = true) :
    parseI64 (String.ofList ds) = if Nat.ofDigitChars 10 ds 0 < 2 ^ 63 then
      some (Int64.ofInt (Nat.ofDigitChars 10 ds 0)) else none := by
  rw [parseI64, String.toList_ofList, splitSign_of_digits hds, parseDigits_of_digits hne hds]
  rfl

/-- Reading a decimal number undoes printing it. -/
theorem parseU64_repr (id : UInt64) : parseU64 (Nat.repr id.toNat) = some id := by
  have hminus : (Nat.toDigits 10 id.toNat).head? ≠ some '-' := by
    obtain ⟨c, cs, hcs, hc⟩ := head_toDigits id.toNat
    rw [hcs, List.head?_cons]
    intro h
    rw [Option.some.inj h] at hc
    cases hc
  rw [parseU64, Nat.toList_repr, if_neg hminus, splitSign_toDigits, parseDigits_toDigits,
    Option.bind_some, if_pos id.toNat_lt, UInt64.ofNat_toNat]

theorem parseI64_repr (i : Int64) : parseI64 (Int.repr i.toInt) = some i := by
  have hlt := i.toInt_lt
  have hle := i.le_toInt
  have hi := Int64.ofInt_toInt i
  cases h : i.toInt with
  | ofNat n =>
    rw [h] at hi hlt
    have hn : n < 2 ^ 63 := by
      have : (n : ℤ) < 2 ^ 63 := hlt
      exact_mod_cast this
    rw [parseI64, Int.repr, Nat.toList_repr, splitSign_toDigits, parseDigits_toDigits,
      Option.bind_some, if_neg Bool.false_ne_true, if_pos hn]
    exact congrArg some hi
  | negSucc n =>
    rw [h] at hi hle
    have hlist : (Int.negSucc n).repr.toList = '-' :: Nat.toDigits 10 (n + 1) := by
      rw [Int.repr, String.toList_append, Nat.toList_repr]
      rfl
    have hn : n + 1 ≤ 2 ^ 63 := by omega
    rw [parseI64, hlist, splitSign, parseDigits_toDigits, Option.bind_some, if_pos rfl, if_pos hn]
    exact congrArg some hi

/-- The digits of an integer. -/
theorem repr_chars (z : ℤ) : ∀ c ∈ z.repr.toList, c = '-' ∨ c.isDigit = true := by
  have hdigit {n : Nat} {c : Char} (hc : c ∈ Nat.toDigits 10 n) : c.isDigit = true :=
    Nat.isDigit_of_mem_toDigits (by decide) (by decide) hc
  intro c hc
  cases z with
  | ofNat n =>
    rw [Int.repr, Nat.toList_repr] at hc
    exact .inr (hdigit hc)
  | negSucc n =>
    rw [Int.repr, String.toList_append, Nat.toList_repr] at hc
    rcases List.mem_append.mp hc with hc | hc
    · exact .inl (List.mem_singleton.mp hc)
    · exact .inr (hdigit hc)

namespace F64

/-- The double nearest to `digits * 10 ^ exponent`. -/
def ofDecimal (negative : Bool) (digits : Nat) (exponent : ℤ) : F64 :=
  ofParts negative <|
    if 0 ≤ exponent then roundMagnitude (digits * 10 ^ exponent.toNat * 2 ^ 1074) 1
    else roundMagnitude (digits * 2 ^ 1074) (10 ^ (-exponent).toNat)

/-- The signed digits behind the `e` of a literal. -/
def parseExponent (cs : List Char) : Option ℤ :=
  (parseDigits (splitSign cs).2).map fun n => if (splitSign cs).1 then -(n : ℤ) else n

/-- A decimal number without its sign: digits around an optional point, an optional exponent. -/
def parseNumber (negative : Bool) (cs : List Char) : Option F64 :=
  let whole := cs.takeWhile Char.isDigit
  let (fraction, rest) :=
    match cs.dropWhile Char.isDigit with
    | '.' :: rest => (rest.takeWhile Char.isDigit, rest.dropWhile Char.isDigit)
    | rest => ([], rest)
  let digits := Nat.ofDigitChars 10 (whole ++ fraction) 0
  if whole.isEmpty && fraction.isEmpty then none
  else
    match rest with
    | [] => some (ofDecimal negative digits (-(fraction.length : ℤ)))
    | c :: rest =>
      if c = 'e' ∨ c = 'E' then
        (parseExponent rest).map fun e => ofDecimal negative digits (e - fraction.length)
      else none

/-- `str::parse::<f64>`, without the kind of the error. -/
def parse (s : String) : Option F64 :=
  let (negative, cs) := splitSign s.toList
  let word := String.ofList (cs.map Char.toLower)
  if word = "inf" ∨ word = "infinity" then some (ofParts negative infMagnitude)
  else if word = "nan" then some (ofParts negative nan.magnitude)
  else parseNumber negative cs

end F64

end AdGraphDb
