import AdGraphDb.Query.CypherLite

/-!
# Lexemes

How the CypherLite lexer splits a text: every round takes the longest piece of one kind.
-/

namespace AdGraphDb
namespace CypherLite

def isWordChar (u : Unicode) (c : Char) : Bool := u.isAlphanumeric c || c == '_'

def isWordStart (u : Unicode) (c : Char) : Bool := u.isAlphabetic c || c == '_'

/-- What a word stands for. -/
def wordToken (u : Unicode) (word : String) : Except (Stop GraphError) Token := do
  match ← wordRef word with
  | some id => return .nodeRef id
  | none =>
    let up := u.toUppercase word
    if up = "TRUE" then return .boolLit true
    else if up = "FALSE" then return .boolLit false
    else if keywords.contains up then return .keyword up
    else return .ident word

/-- The characters of one round, in front of a rest, and the token that they make. -/
inductive Lexeme (u : Unicode) : List Char → List Char → Option Token → Prop where
  | blank {c : Char} {rest : List Char} (hc : isWhitespace c = true) : Lexeme u [c] rest none
  | string {s rest : List Char} (hs : '"' ∉ s) :
      Lexeme u ('"' :: (s ++ ['"'])) rest (some (.stringLit (String.ofList s)))
  | two {c d : Char} {rest : List Char} {tok : Token}
      (h : twoChar (String.ofList [c, d]) = some tok) : Lexeme u [c, d] rest (some tok)
  | single {c : Char} {rest : List Char} {tok : Token} (h : singleChar c = some tok)
      (hrest : ∀ d ∈ rest.head?, twoChar (String.ofList [c, d]) = none) :
      Lexeme u [c] rest (some tok)
  | integer {ds rest : List Char} {i : Int64} (hne : ds ≠ [])
      (hds : ∀ c ∈ ds, c.isDigit = true) (hrest : ∀ c ∈ rest.head?, c.isDigit = false ∧ c ≠ '.')
      (hi : parseI64 (String.ofList ds) = some i) : Lexeme u ds rest (some (.intLit i))
  | float {ds es rest : List Char} {f : F64} (hne : ds ≠ [])
      (hds : ∀ c ∈ ds, c.isDigit = true) (hes : ∀ c ∈ es, c.isDigit = true)
      (hrest : ∀ c ∈ rest.head?, c.isDigit = false)
      (hf : F64.parse (String.ofList (ds ++ '.' :: es)) = some f) :
      Lexeme u (ds ++ '.' :: es) rest (some (.floatLit f))
  | word {c : Char} {w rest : List Char} {tok : Token} (hblank : isWhitespace c = false)
      (hc : isWordStart u c = true) (hw : ∀ d ∈ w, isWordChar u d = true)
      (hrest : ∀ d ∈ rest.head?, isWordChar u d = false)
      (htok : wordToken u (String.ofList (c :: w)) = .ok tok) : Lexeme u (c :: w) rest (some tok)

/-- A word `N<digits>` that stands for no `u64`. -/
inductive Oversized (u : Unicode) : List Char → List Char → Prop where
  | mk {ds rest : List Char} (hne : ds ≠ []) (hds : ∀ c ∈ ds, c.isDigit = true)
      (hlarge : 2 ^ 64 ≤ Nat.ofDigitChars 10 ds 0)
      (hrest : ∀ c ∈ rest.head?, isWordChar u c = false) : Oversized u ('N' :: ds) rest

/-- Rounds one after the other. -/
inductive Lexemes (u : Unicode) : List Char → List Char → List Token → Prop where
  | nil (rest : List Char) : Lexemes u [] rest []
  | cons {w ws rest : List Char} {tok : Option Token} {toks : List Token}
      (h : Lexeme u w (ws ++ rest) tok) (hws : Lexemes u ws rest toks) :
      Lexemes u (w ++ ws) rest (tok.toList ++ toks)

/-! ## Positions -/

theorem scanWhile_eq (is : Char → Bool) (cs : List Char) (pos : Nat) :
    scanWhile is cs pos = pos + (cs.takeWhile is).length := by
  induction cs generalizing pos with
  | nil => rfl
  | cons c cs ih =>
    rw [scanWhile, List.takeWhile_cons]
    split_ifs
    · rw [ih, List.length_cons]
      omega
    · rfl

theorem takeWhile_append_of {α : Type} {is : α → Bool} {w rest : List α} (hw : ∀ c ∈ w, is c = true)
    (hrest : ∀ c ∈ rest.head?, is c = false) : (w ++ rest).takeWhile is = w := by
  rw [List.takeWhile_append_of_pos hw]
  cases rest with
  | nil => rw [List.takeWhile_nil, List.append_nil]
  | cons c rest =>
    rw [List.takeWhile_cons, hrest c rfl, if_neg Bool.false_ne_true, List.append_nil]

theorem scanWhile_append {is : Char → Bool} {w rest : List Char} (hw : ∀ c ∈ w, is c = true)
    (hrest : ∀ c ∈ rest.head?, is c = false) (pos : Nat) :
    scanWhile is (w ++ rest) pos = pos + w.length := by
  rw [scanWhile_eq, takeWhile_append_of hw hrest]

/-- Every row of characters splits where a scan stops. -/
theorem exists_takeWhile {α : Type} (is : α → Bool) (cs : List α) :
    ∃ w rest, cs = w ++ rest ∧ (∀ c ∈ w, is c = true) ∧ ∀ c ∈ rest.head?, is c = false := by
  refine ⟨cs.takeWhile is, cs.dropWhile is, (List.takeWhile_append_dropWhile).symm,
    fun c hc => List.all_eq_true.mp List.all_takeWhile c hc, fun c hc => ?_⟩
  have := List.head?_dropWhile_not is cs
  rw [Option.mem_def.mp hc] at this
  simpa using this

theorem sliceChars_append (pre w rest : List Char) :
    sliceChars (pre ++ (w ++ rest)) pre.length (pre.length + w.length) = .ok (String.ofList w) := by
  rw [sliceChars, if_pos, List.drop_left, Nat.add_sub_cancel_left, List.take_left]
  rw [List.length_append, List.length_append]
  omega

/-! ## Words -/

theorem sliceFrom?_word (c : Char) (hc : c.utf8Size = 1) (ds : List Char) :
    sliceFrom? (String.ofList (c :: ds)) 1 = some (String.ofList ds) := by
  have := sliceFrom?_append (String.singleton c) (String.ofList ds)
  rwa [← String.ofList_toList (s := String.singleton c), ← String.ofList_append,
    String.toList_singleton, utf8ByteSize_ofList, List.map_singleton, List.sum_singleton, hc] at this

theorem startsWith_ofList (c d : Char) (ds : List Char) :
    startsWith (String.ofList (c :: ds)) d = decide (c = d) := by
  rw [startsWith, String.toList_ofList, List.head?_cons]
  exact decide_eq_decide.mpr Option.some_inj

theorem one_lt_utf8ByteSize (c : Char) (hc : c.utf8Size = 1) (ds : List Char) :
    1 < (String.ofList (c :: ds)).utf8ByteSize ↔ ds ≠ [] := by
  rw [utf8ByteSize_ofList, List.map_cons, List.sum_cons, hc]
  cases ds with
  | nil => simp
  | cons d ds =>
    have hpos := d.utf8Size_pos
    simp only [List.map_cons, List.sum_cons, ne_eq, reduceCtorEq, not_false_eq_true, iff_true]
    omega

theorem wordRef_of_digits {ds : List Char} (hne : ds ≠ []) (hds : ∀ c ∈ ds, c.isDigit = true) :
    wordRef (String.ofList ('N' :: ds)) =
      if Nat.ofDigitChars 10 ds 0 < 2 ^ 64 then .ok (some (UInt64.ofNat (Nat.ofDigitChars 10 ds 0)))
      else .error .panicked := by
  have hall : ds.all Char.isDigit = true := List.all_eq_true.mpr hds
  rw [wordRef, startsWith_ofList, decide_eq_true rfl,
    decide_eq_true ((one_lt_utf8ByteSize 'N' rfl ds).mpr hne), Bool.and_self, if_pos rfl,
    sliceFrom?_word 'N' rfl]
  dsimp only
  rw [String.toList_ofList, if_pos hall, parseU64_of_digits hne hds]
  split_ifs <;> rfl

theorem wordRef_of_not_digits {c : Char} {w : List Char}
    (h : c = 'N' → w ≠ [] → ¬ ∀ d ∈ w, d.isDigit = true) :
    wordRef (String.ofList (c :: w)) = .ok none := by
  rw [wordRef, startsWith_ofList]
  by_cases hc : c = 'N'
  · subst hc
    by_cases hne : w = []
    · subst hne
      rfl
    · have hall : ¬ w.all Char.isDigit = true := fun hall => h rfl hne (List.all_eq_true.mp hall)
      rw [decide_eq_true rfl, decide_eq_true ((one_lt_utf8ByteSize 'N' rfl w).mpr hne),
        Bool.and_self, if_pos rfl, sliceFrom?_word 'N' rfl]
      dsimp only
      rw [String.toList_ofList, if_neg hall]
  · rw [decide_eq_false hc, Bool.false_and, if_neg Bool.false_ne_true]

/-- A word is a token unless its number is too large. -/
theorem wordToken_cases (u : Unicode) (c : Char) (w : List Char) :
    (∃ tok, wordToken u (String.ofList (c :: w)) = .ok tok) ∨
      (c = 'N' ∧ w ≠ [] ∧ (∀ d ∈ w, d.isDigit = true) ∧ 2 ^ 64 ≤ Nat.ofDigitChars 10 w 0) := by
  by_cases h : c = 'N' ∧ w ≠ [] ∧ ∀ d ∈ w, d.isDigit = true
  · obtain ⟨rfl, hne, hds⟩ := h
    by_cases hlarge : Nat.ofDigitChars 10 w 0 < 2 ^ 64
    · refine .inl ⟨.nodeRef (UInt64.ofNat (Nat.ofDigitChars 10 w 0)), ?_⟩
      rw [wordToken, wordRef_of_digits hne hds, if_pos hlarge]
      rfl
    · exact .inr ⟨rfl, hne, hds, not_lt.mp hlarge⟩
  · refine .inl ?_
    rw [wordToken, wordRef_of_not_digits fun hc hne hds => h ⟨hc, hne, hds⟩]
    dsimp only [bind, Except.bind]
    split_ifs <;> exact ⟨_, rfl⟩

/-! ## One round -/

theorem lexString_eq (pre s rest : List Char) (hs : '"' ∉ s) :
    lexString (pre ++ '"' :: (s ++ '"' :: rest)) pre.length =
      .ok (.stringLit (String.ofList s), pre.length + (s.length + 2)) := by
  have hchars : pre ++ '"' :: (s ++ '"' :: rest) = (pre ++ ['"']) ++ (s ++ '"' :: rest) :=
    List.append_cons _ _ _
  have hlen : pre.length + 1 = (pre ++ ['"']).length := by simp
  have hopen : ∀ c ∈ s, (c != '"') = true := fun c hc => bne_iff_ne.mpr fun h => hs (h ▸ hc)
  have hclose : ∀ c ∈ ('"' :: rest).head?, (c != '"') = false := by simp
  have hscan := scanWhile_append hopen hclose (pre ++ ['"']).length
  have hlt : ¬ (pre ++ ['"']).length + s.length ≥ (pre ++ '"' :: (s ++ '"' :: rest)).length := by
    simp only [List.length_append, List.length_cons, List.length_nil]
    omega
  rw [lexString, hlen, hchars, List.drop_left, hscan, ← hchars, if_neg hlt, hchars, sliceChars_append]
  simp only [Except.map, List.length_append, List.length_singleton]
  congr 2
  omega

theorem lexString_unterminated (pre s : List Char) (hs : '"' ∉ s) :
    ∃ e, lexString (pre ++ '"' :: s) pre.length = .error (.error e) := by
  have hchars : pre ++ '"' :: s = (pre ++ ['"']) ++ s := List.append_cons _ _ _
  have hlen : pre.length + 1 = (pre ++ ['"']).length := by simp
  have hopen : ∀ c ∈ s, (c != '"') = true := fun c hc => bne_iff_ne.mpr fun h => hs (h ▸ hc)
  have hend : ∀ c ∈ ([] : List Char).head?, (c != '"') = false := fun _ h => by cases h
  have hscan := scanWhile_append hopen hend (pre ++ ['"']).length
  rw [List.append_nil] at hscan
  rw [lexString, hlen, hchars, List.drop_left, hscan, if_pos List.length_append.le]
  exact ⟨_, rfl⟩

theorem head?_append_singleton_drop (pre rest : List Char) :
    (pre ++ rest)[pre.length]? = rest.head? := by
  rw [List.getElem?_append_right (Nat.le_refl _), Nat.sub_self, List.head?_eq_getElem?]

/-- Digits do not start with a sign. -/
theorem getElem?_ne_minus {ds rest : List Char} (pre : List Char) (hne : ds ≠ [])
    (hds : ∀ c ∈ ds, c.isDigit = true) : (pre ++ (ds ++ rest))[pre.length]? ≠ some '-' := by
  rw [head?_append_singleton_drop]
  cases ds with
  | nil => exact absurd rfl hne
  | cons d ds =>
    intro h
    cases (Option.some.inj h ▸ hds d List.mem_cons_self : ('-').isDigit = true)

/-- Digits without a point behind them. -/
theorem lexNumber_integer {ds rest : List Char} (pre : List Char) (hne : ds ≠ [])
    (hds : ∀ c ∈ ds, c.isDigit = true) (hrest : ∀ c ∈ rest.head?, c.isDigit = false ∧ c ≠ '.') :
    lexNumber (pre ++ (ds ++ rest)) pre.length =
      match parseI64 (String.ofList ds) with
      | some i => .ok (.intLit i, pre.length + ds.length)
      | none => lexReject s!"invalid integer '{String.ofList ds}'" := by
  have hminus : (pre ++ (ds ++ rest))[pre.length]? ≠ some '-' := getElem?_ne_minus pre hne hds
  have hpoint : (pre ++ (ds ++ rest))[pre.length + ds.length]? ≠ some '.' := by
    rw [← List.append_assoc, ← List.length_append, head?_append_singleton_drop]
    exact fun h => (hrest '.' h).2 rfl
  rw [lexNumber, if_neg hminus]
  dsimp only
  rw [List.drop_left, scanWhile_append hds fun c hc => (hrest c hc).1, if_neg hpoint,
    sliceChars_append]
  rfl

/-- Digits with a point behind them. -/
theorem lexNumber_float {ds es rest : List Char} (pre : List Char) (hne : ds ≠ [])
    (hds : ∀ c ∈ ds, c.isDigit = true) (hes : ∀ c ∈ es, c.isDigit = true)
    (hrest : ∀ c ∈ rest.head?, c.isDigit = false) :
    lexNumber (pre ++ (ds ++ '.' :: es ++ rest)) pre.length =
      match F64.parse (String.ofList (ds ++ '.' :: es)) with
      | some f => .ok (.floatLit f, pre.length + (ds ++ '.' :: es).length)
      | none => lexReject ("invalid float '" ++ String.ofList (ds ++ '.' :: es) ++ "'") := by
  have hchars : pre ++ (ds ++ '.' :: es ++ rest) = (pre ++ ds ++ ['.']) ++ (es ++ rest) := by simp
  have hlen : pre.length + ds.length + 1 = (pre ++ ds ++ ['.']).length := by simp; omega
  have hstop : (pre ++ ds ++ ['.']).length + es.length = pre.length + (ds ++ '.' :: es).length := by
    simp only [List.length_append, List.length_cons, List.length_nil]
    omega
  have hminus : (pre ++ (ds ++ '.' :: es ++ rest))[pre.length]? ≠ some '-' := by
    rw [List.append_assoc ds]
    exact getElem?_ne_minus pre hne hds
  have hpoint : (pre ++ (ds ++ '.' :: es ++ rest))[pre.length + ds.length]? = some '.' := by
    rw [List.append_assoc ds, ← List.append_assoc, ← List.length_append,
      head?_append_singleton_drop]
    rfl
  have hscan : scanWhile Char.isDigit (ds ++ '.' :: es ++ rest) pre.length =
      pre.length + ds.length := by
    rw [List.append_assoc ds]
    exact scanWhile_append hds (fun c hc => by cases hc; rfl) _
  rw [lexNumber, if_neg hminus]
  dsimp only
  rw [List.drop_left, hscan, if_pos hpoint, hlen, hchars, List.drop_left,
    scanWhile_append hes hrest, ← hchars, hstop, sliceChars_append]
  rfl

theorem lexWord_eq {u : Unicode} {w rest : List Char} (pre : List Char)
    (hw : ∀ c ∈ w, isWordChar u c = true) (hrest : ∀ c ∈ rest.head?, isWordChar u c = false) :
    lexWord u (pre ++ (w ++ rest)) pre.length =
      (wordToken u (String.ofList w)).map fun tok => (tok, pre.length + w.length) := by
  have hscan := scanWhile_append hw hrest pre.length
  unfold isWordChar at hscan
  rw [lexWord, List.drop_left, hscan, sliceChars_append, wordToken]
  dsimp only [bind, Except.bind]
  cases wordRef (String.ofList w) with
  | error e => rfl
  | ok id =>
    cases id with
    | some id => rfl
    | none =>
      dsimp only
      split_ifs <;> rfl

/-- The two-character operator at the start of a text. -/
def twoAhead (c : Char) (cs : List Char) : Option Token :=
  cs.head?.bind fun d => twoChar (String.ofList [c, d])

theorem lexTwoChar_eq (pre : List Char) (c : Char) (cs : List Char) :
    lexTwoChar (pre ++ c :: cs) pre.length = .ok (twoAhead c cs) := by
  cases cs with
  | nil =>
    rw [lexTwoChar, if_neg (by simp)]
    rfl
  | cons d cs =>
    rw [lexTwoChar, if_pos (by simp)]
    have := sliceChars_append pre [c, d] cs
    rw [List.length_cons, List.length_singleton] at this
    change (sliceChars (pre ++ ([c, d] ++ cs)) _ _).map twoChar = _
    rw [this]
    rfl

theorem charAt_eq (pre : List Char) (c : Char) (cs : List Char) :
    charAt (pre ++ c :: cs) pre.length = .ok c := by
  rw [charAt, head?_append_singleton_drop]
  rfl

theorem twoChar_head {c d : Char} {tok : Token} (h : twoChar (String.ofList [c, d]) = some tok) :
    c = '!' ∨ c = '<' ∨ c = '>' ∨ c = '-' := by
  have hlist {s : String} (he : String.ofList [c, d] = s) : s.toList.head? = some c := by
    rw [← he, String.toList_ofList]
    rfl
  unfold twoChar at h
  split at h
  · next he => exact .inl (Option.some.inj (hlist he)).symm
  · next he => exact .inr (.inl (Option.some.inj (hlist he)).symm)
  · next he => exact .inr (.inr (.inl (Option.some.inj (hlist he)).symm))
  · next he => exact .inr (.inr (.inr (Option.some.inj (hlist he)).symm))
  · cases h

theorem twoAhead_eq_none {c : Char} (h : ¬ (c = '!' ∨ c = '<' ∨ c = '>' ∨ c = '-'))
    (cs : List Char) : twoAhead c cs = none := by
  cases cs with
  | nil => rfl
  | cons d cs => exact Option.eq_none_iff_forall_ne_some.mpr fun _ ht => h (twoChar_head ht)

theorem lexAt_blank (u : Unicode) (pre : List Char) {c : Char} (cs : List Char)
    (hc : isWhitespace c = true) :
    lexAt u (pre ++ c :: cs) pre.length = .ok (none, pre.length + 1) := by
  rw [lexAt, charAt_eq]
  exact if_pos hc

theorem lexAt_quote (u : Unicode) (pre cs : List Char) :
    lexAt u (pre ++ '"' :: cs) pre.length =
      (lexString (pre ++ '"' :: cs) pre.length).map fun r => (some r.1, r.2) := by
  have hblank : ¬ isWhitespace '"' = true := Bool.false_ne_true
  rw [lexAt, charAt_eq]
  dsimp only [bind, Except.bind]
  rw [if_neg hblank, if_pos rfl]
  cases lexString (pre ++ '"' :: cs) pre.length <;> rfl

theorem lexAt_two (u : Unicode) (pre : List Char) {c : Char} {cs : List Char} {tok : Token}
    (h : twoAhead c cs = some tok) :
    lexAt u (pre ++ c :: cs) pre.length = .ok (some tok, pre.length + 2) := by
  obtain ⟨d, _, hd⟩ := Option.bind_eq_some_iff.mp h
  have hc : isWhitespace c = false ∧ c ≠ '"' := by
    rcases twoChar_head hd with rfl | rfl | rfl | rfl <;> exact ⟨rfl, by decide⟩
  rw [lexAt, charAt_eq]
  dsimp only [bind, Except.bind]
  rw [hc.1, if_neg Bool.false_ne_true, if_neg hc.2, lexTwoChar_eq, h]
  rfl

theorem lexAt_single (u : Unicode) (pre : List Char) {c : Char} {cs : List Char} {tok : Token}
    (htwo : twoAhead c cs = none) (h : singleChar c = some tok) :
    lexAt u (pre ++ c :: cs) pre.length = .ok (some tok, pre.length + 1) := by
  have hc : isWhitespace c = false ∧ c ≠ '"' := by
    unfold singleChar at h
    split at h <;> first | exact ⟨rfl, by decide⟩ | cases h
  rw [lexAt, charAt_eq]
  dsimp only [bind, Except.bind]
  rw [hc.1, if_neg Bool.false_ne_true, if_neg hc.2, lexTwoChar_eq, htwo, h]
  rfl

/-- The last two branches of a round: no other character starts a token. -/
theorem lexAt_tail (u : Unicode) (pre : List Char) {c : Char} {cs : List Char}
    (hblank : isWhitespace c = false) (hquote : c ≠ '"') (htwo : twoAhead c cs = none)
    (hsingle : singleChar c = none) :
    lexAt u (pre ++ c :: cs) pre.length =
      if c.isDigit then
        (lexNumber (pre ++ c :: cs) pre.length).map fun r => (some r.1, r.2)
      else if isWordStart u c then
        (lexWord u (pre ++ c :: cs) pre.length).map fun r => (some r.1, r.2)
      else lexReject s!"unexpected character '{c}'" := by
  have hminus : (c == '-') = false := by
    rw [beq_eq_false_iff_ne]
    rintro rfl
    cases hsingle
  rw [lexAt, charAt_eq]
  dsimp only [bind, Except.bind]
  rw [hblank, if_neg Bool.false_ne_true, if_neg hquote, lexTwoChar_eq, htwo, hsingle, hminus,
    Bool.false_and, Bool.or_false]
  dsimp only
  split_ifs
  · cases lexNumber (pre ++ c :: cs) pre.length <;> rfl
  · cases lexWord u (pre ++ c :: cs) pre.length <;> rfl
  · next h h' => exact absurd h h'
  · next h h' => exact absurd h' h
  · rfl

/-- Punctuation starts no number and no word. -/
theorem not_isDigit_of_singleChar (u : Unicode) {c : Char} {tok : Token}
    (h : singleChar c = some tok) : c.isDigit = false ∧ isWordStart u c = false := by
  unfold singleChar at h
  split at h <;> first | exact ⟨rfl, rfl⟩ | cases h

theorem not_isDigit_of_twoChar (u : Unicode) {c : Char}
    (h : c = '!' ∨ c = '<' ∨ c = '>' ∨ c = '-') : c.isDigit = false ∧ isWordStart u c = false := by
  rcases h with rfl | rfl | rfl | rfl <;> exact ⟨rfl, rfl⟩

theorem isWhitespace_of_isDigit {c : Char} (hc : c.isDigit = true) :
    isWhitespace c = false ∧ c ≠ '"' :=
  isAscii_rec (P := fun c => c.isDigit = true → isWhitespace c = false ∧ c ≠ '"') (by decide)
    (isAscii_of_isDigit hc) hc

/-- What starts with a digit is a number. -/
theorem lexAt_digit (u : Unicode) (pre : List Char) {c : Char} (cs : List Char)
    (hc : c.isDigit = true) :
    lexAt u (pre ++ c :: cs) pre.length =
      (lexNumber (pre ++ c :: cs) pre.length).map fun r => (some r.1, r.2) := by
  obtain ⟨hblank, hquote⟩ := isWhitespace_of_isDigit hc
  have htwo : twoAhead c cs = none := twoAhead_eq_none (fun h => by
    rw [(not_isDigit_of_twoChar .plain h).1] at hc
    cases hc) cs
  have hsingle : singleChar c = none := Option.eq_none_iff_forall_ne_some.mpr fun _ h => by
    rw [(not_isDigit_of_singleChar .plain h).1] at hc
    cases hc
  rw [lexAt_tail u pre hblank hquote htwo hsingle, if_pos hc]

theorem lexAt_wordStart (u : Unicode) (pre : List Char) {c : Char} (cs : List Char)
    (hblank : isWhitespace c = false) (hc : isWordStart u c = true) (hdigit : c.isDigit = false) :
    lexAt u (pre ++ c :: cs) pre.length =
      (lexWord u (pre ++ c :: cs) pre.length).map fun r => (some r.1, r.2) := by
  have hquote : c ≠ '"' := by
    rintro rfl
    cases hc
  have htwo : twoAhead c cs = none := twoAhead_eq_none (fun h => by
    rw [(not_isDigit_of_twoChar u h).2] at hc
    cases hc) cs
  have hsingle : singleChar c = none := Option.eq_none_iff_forall_ne_some.mpr fun _ h => by
    rw [(not_isDigit_of_singleChar u h).2] at hc
    cases hc
  rw [lexAt_tail u pre hblank hquote htwo hsingle, hdigit, if_neg Bool.false_ne_true, if_pos hc]

theorem isWordStart_of_isAscii (u : Unicode) {c : Char} (hc : isAscii c = true) :
    isWordStart u c = (c.isAlpha || c == '_') := by
  rw [isWordStart, Unicode.isAlphabetic, if_pos hc]

theorem isWordChar_of_isAscii (u : Unicode) {c : Char} (hc : isAscii c = true) :
    isWordChar u c = (c.isAlpha || c.isDigit || c == '_') := by
  rw [isWordChar, Unicode.isAlphanumeric, Unicode.isAlphabetic, if_pos hc, if_pos hc]

theorem isWordChar_of_isWordStart {u : Unicode} {c : Char} (hc : isWordStart u c = true) :
    isWordChar u c = true := by
  rw [isWordStart, Bool.or_eq_true] at hc
  rw [isWordChar, Unicode.isAlphanumeric, Bool.or_eq_true, Bool.or_eq_true]
  exact hc.elim (fun h => .inl (.inl h)) .inr

theorem not_isDigit_of_isWordStart {u : Unicode} {c : Char} (hc : isWordStart u c = true) :
    c.isDigit = false := by
  rw [Bool.eq_false_iff]
  intro hdigit
  have hascii := isAscii_of_isDigit hdigit
  rw [isWordStart_of_isAscii u hascii] at hc
  exact isAscii_rec (P := fun c => (c.isAlpha || c == '_') = true → c.isDigit = true → False)
    (by decide) hascii hc hdigit

theorem isWordChar_of_isDigit {u : Unicode} {c : Char} (hc : c.isDigit = true) :
    isWordChar u c = true := by
  rw [isWordChar_of_isAscii u (isAscii_of_isDigit hc), hc, Bool.or_true, Bool.true_or]

theorem lexAt_of_lexeme {u : Unicode} {w rest : List Char} {tok : Option Token}
    (h : Lexeme u w rest tok) (pre : List Char) :
    lexAt u (pre ++ (w ++ rest)) pre.length = .ok (tok, pre.length + w.length) := by
  cases h with
  | blank hc => exact lexAt_blank u pre rest hc
  | @string s _ hs =>
    have hquote := lexAt_quote u pre (s ++ '"' :: rest)
    rw [lexString_eq pre s rest hs] at hquote
    rw [List.cons_append, List.append_assoc, List.singleton_append, hquote, List.length_cons,
      List.length_append, List.length_singleton]
    rfl
  | two h => exact lexAt_two u pre h
  | single h hrest =>
    refine lexAt_single u pre ?_ h
    exact Option.bind_eq_none_iff.mpr fun d hd => hrest d hd
  | integer hne hds hrest hi =>
    have hnum := lexNumber_integer pre hne hds hrest
    rw [hi] at hnum
    cases w with
    | nil => exact absurd rfl hne
    | cons d ds =>
      rw [List.cons_append, lexAt_digit u pre _ (hds d List.mem_cons_self), ← List.cons_append, hnum]
      rfl
  | @float ds es _ f hne hds hes hrest hf =>
    have hnum := lexNumber_float pre hne hds hes hrest
    rw [hf] at hnum
    cases ds with
    | nil => exact absurd rfl hne
    | cons d ds =>
      rw [List.cons_append, List.cons_append, lexAt_digit u pre _ (hds d List.mem_cons_self),
        ← List.cons_append, ← List.cons_append, hnum]
      rfl
  | @word c w _ tok hblank hc hw hrest htok =>
    have hword := lexWord_eq pre (w := c :: w)
      (List.forall_mem_cons.mpr ⟨isWordChar_of_isWordStart hc, hw⟩) hrest
    rw [List.cons_append, lexAt_wordStart u pre _ hblank hc (not_isDigit_of_isWordStart hc),
      ← List.cons_append, hword, htok]
    rfl

theorem wordToken_of_oversized {u : Unicode} {w rest : List Char} (h : Oversized u w rest) :
    wordToken u (String.ofList w) = .error .panicked := by
  cases h with
  | mk hne hds hlarge _ =>
    rw [wordToken, wordRef_of_digits hne hds, if_neg (not_lt.mpr hlarge)]
    rfl

theorem lexAt_of_oversized {u : Unicode} {w rest : List Char} (h : Oversized u w rest)
    (pre : List Char) : lexAt u (pre ++ (w ++ rest)) pre.length = .error .panicked := by
  have htok := wordToken_of_oversized h
  cases h with
  | @mk ds _ hne hds _ hrest =>
    have hword := lexWord_eq (u := u) pre (w := 'N' :: ds)
      (List.forall_mem_cons.mpr ⟨rfl, fun c hc => isWordChar_of_isDigit (hds c hc)⟩) hrest
    rw [List.cons_append, lexAt_wordStart u pre _ rfl rfl rfl, ← List.cons_append, hword, htok]
    rfl

/-- Behind a quote there is the rest of a string, or the end of the text. -/
theorem lexAt_quote_cases (u : Unicode) (pre cs : List Char) :
    (∃ w rest tok, '"' :: cs = w ++ rest ∧ Lexeme u w rest tok) ∨
      ∃ e, lexAt u (pre ++ '"' :: cs) pre.length = .error (.error e) := by
  obtain ⟨s, rest, rfl, hs, hrest⟩ := exists_takeWhile (fun c => c != '"') cs
  have hs : '"' ∉ s := fun h => absurd rfl (bne_iff_ne.mp (hs _ h))
  cases rest with
  | nil =>
    obtain ⟨e, he⟩ := lexString_unterminated pre s hs
    refine .inr ⟨e, ?_⟩
    rw [List.append_nil, lexAt_quote, he]
    rfl
  | cons d rest =>
    have hd : d = '"' := by simpa using hrest d rfl
    subst hd
    exact .inl ⟨'"' :: (s ++ ['"']), rest, _, by simp, .string hs⟩

/-- A digit starts a number, which may be out of range. -/
theorem lexNumber_cases (u : Unicode) (pre : List Char) {c : Char} {cs : List Char}
    (hdigit : c.isDigit = true) :
    (∃ w rest tok, c :: cs = w ++ rest ∧ Lexeme u w rest tok) ∨
      ∃ e, lexNumber (pre ++ c :: cs) pre.length = .error (.error e) := by
  obtain ⟨ds, rest, hcs, hds, hrest⟩ := exists_takeWhile Char.isDigit (c :: cs)
  have hnum : ds ≠ [] := by
    rintro rfl
    rw [List.nil_append] at hcs
    rw [hrest c (hcs ▸ rfl)] at hdigit
    cases hdigit
  rw [hcs]
  by_cases hpoint : rest.head? = some '.'
  · obtain ⟨rest', rfl⟩ := List.head?_eq_some_iff.mp hpoint
    obtain ⟨es, rest, rfl, hes, hrest⟩ := exists_takeWhile Char.isDigit rest'
    cases hf : F64.parse (String.ofList (ds ++ '.' :: es)) with
    | some f => exact .inl ⟨ds ++ '.' :: es, rest, _, by simp, .float hnum hds hes hrest hf⟩
    | none =>
      have h := lexNumber_float pre hnum hds hes hrest
      rw [hf, List.append_assoc, List.cons_append] at h
      rw [h]
      exact .inr ⟨_, rfl⟩
  · have hrest : ∀ c ∈ rest.head?, c.isDigit = false ∧ c ≠ '.' :=
      fun c hc => ⟨hrest c hc, fun h => hpoint (h ▸ hc)⟩
    cases hi : parseI64 (String.ofList ds) with
    | some i => exact .inl ⟨ds, rest, _, rfl, .integer hnum hds hrest hi⟩
    | none =>
      have h := lexNumber_integer pre hnum hds hrest
      rw [hi] at h
      rw [h]
      exact .inr ⟨_, rfl⟩

/-- Every round takes a lexeme, stops at an oversized reference or is an error. -/
theorem lexAt_cases (u : Unicode) (pre : List Char) {text : List Char} (hne : text ≠ []) :
    (∃ w rest tok, text = w ++ rest ∧ Lexeme u w rest tok) ∨
      (∃ w rest, text = w ++ rest ∧ Oversized u w rest) ∨
      ∃ e, lexAt u (pre ++ text) pre.length = .error (.error e) := by
  cases text with
  | nil => exact absurd rfl hne
  | cons c cs =>
  -- the tests on the first characters, in the order of the source
  by_cases hblank : isWhitespace c = true
  · exact .inl ⟨[c], cs, none, rfl, .blank hblank⟩
  rw [Bool.not_eq_true] at hblank
  by_cases hquote : c = '"'
  · subst hquote
    exact (lexAt_quote_cases u pre cs).imp_right .inr
  cases htwo : twoAhead c cs with
  | some tok =>
    cases cs with
    | nil => cases htwo
    | cons d cs => exact .inl ⟨[c, d], cs, _, rfl, .two htwo⟩
  | none =>
  cases hsingle : singleChar c with
  | some tok =>
    exact .inl ⟨[c], cs, _, rfl, .single hsingle fun d hd => Option.bind_eq_none_iff.mp htwo d hd⟩
  | none =>
  by_cases hdigit : c.isDigit = true
  · rw [lexAt_digit u pre cs hdigit]
    rcases lexNumber_cases u pre hdigit with hword | ⟨e, he⟩
    · exact .inl hword
    · rw [he]
      exact .inr (.inr ⟨e, rfl⟩)
  by_cases hstart : isWordStart u c = true
  · obtain ⟨w, rest, rfl, hw, hrest⟩ := exists_takeWhile (isWordChar u) cs
    rcases wordToken_cases u c w with ⟨tok, htok⟩ | ⟨rfl, hne, hds, hlarge⟩
    · exact .inl ⟨c :: w, rest, _, rfl, .word hblank hstart hw hrest htok⟩
    · exact .inr (.inl ⟨'N' :: w, rest, rfl, .mk hne hds hlarge hrest⟩)
  · rw [lexAt_tail u pre hblank hquote htwo hsingle, if_neg hdigit, if_neg hstart]
    exact .inr (.inr ⟨_, rfl⟩)

/-! ## The whole text -/

theorem Lexeme.ne_nil {u : Unicode} {w rest : List Char} {tok : Option Token}
    (h : Lexeme u w rest tok) : w ≠ [] := by
  cases h with
  | integer hne => exact hne
  | _ => simp

theorem lexFrom_cons (u : Unicode) {pre text : List Char} (hne : text ≠ []) (fuel : Nat) :
    lexFrom u (pre ++ text) (fuel + 1) pre.length = (do
      let (tok, pos) ← lexAt u (pre ++ text) pre.length
      let toks ← lexFrom u (pre ++ text) fuel pos
      return tok.toList ++ toks) := by
  have hpos := List.length_pos_iff.mpr hne
  rw [lexFrom, if_pos (by rw [List.length_append]; omega)]

theorem lexFrom_lexeme {u : Unicode} {w rest : List Char} {tok : Option Token}
    (h : Lexeme u w rest tok) (pre : List Char) (fuel : Nat) :
    lexFrom u (pre ++ (w ++ rest)) (fuel + 1) pre.length =
      (lexFrom u (pre ++ w ++ rest) fuel (pre ++ w).length).map fun toks => tok.toList ++ toks := by
  have hne : w ++ rest ≠ [] := fun h' => h.ne_nil (List.append_eq_nil_iff.mp h').1
  rw [lexFrom_cons u hne, lexAt_of_lexeme h, List.append_assoc, List.length_append]
  rfl

theorem lexFrom_nil (u : Unicode) (pre : List Char) (fuel : Nat) :
    lexFrom u (pre ++ []) fuel pre.length = .ok [] := by
  have h : ¬ pre.length < (pre ++ []).length := by simp
  cases fuel <;> exact if_neg h

/-- Lexemes are taken one after the other, up to what follows them. -/
theorem lexFrom_lexemes {u : Unicode} {ws rest : List Char} {toks : List Token}
    (h : Lexemes u ws rest toks) (pre : List Char) (fuel : Nat)
    (hfuel : ws.length + rest.length ≤ fuel) :
    ∃ fuel', rest.length ≤ fuel' ∧ lexFrom u (pre ++ (ws ++ rest)) fuel pre.length =
      (lexFrom u (pre ++ ws ++ rest) fuel' (pre ++ ws).length).map (toks ++ ·) := by
  induction h generalizing pre fuel with
  | nil rest =>
    refine ⟨fuel, by simpa using hfuel, ?_⟩
    rw [List.append_nil, List.nil_append]
    cases lexFrom u (pre ++ rest) fuel pre.length <;> rfl
  | @cons w ws rest tok toks h hws ih =>
    have hpos := List.length_pos_iff.mpr h.ne_nil
    rw [List.length_append] at hfuel
    obtain ⟨fuel, rfl⟩ : ∃ n, fuel = n + 1 := ⟨fuel - 1, by omega⟩
    obtain ⟨fuel', hfuel', heq⟩ := ih (pre ++ w) fuel (by omega)
    refine ⟨fuel', hfuel', ?_⟩
    rw [List.append_assoc w, lexFrom_lexeme h, heq, ← List.append_assoc pre]
    cases lexFrom u (pre ++ w ++ ws ++ rest) fuel' (pre ++ w ++ ws).length with
    | error e => rfl
    | ok ts => exact congrArg Except.ok (List.append_assoc _ _ _).symm

/-- The lexer, on any text: it is split into lexemes, or the split ends at an oversized
reference, or at an error. -/
theorem lexFrom_cases (u : Unicode) (pre text : List Char) (fuel : Nat) (hfuel : text.length ≤ fuel) :
    (∃ toks, Lexemes u text [] toks) ∨
      (∃ ws w rest toks, text = ws ++ (w ++ rest) ∧ Lexemes u ws (w ++ rest) toks ∧
        Oversized u w rest) ∨
      ∃ e, lexFrom u (pre ++ text) fuel pre.length = .error (.error e) := by
  induction fuel generalizing pre text with
  | zero =>
    rw [List.length_eq_zero_iff.mp (Nat.le_zero.mp hfuel)]
    exact .inl ⟨[], .nil []⟩
  | succ fuel ih =>
    by_cases hne : text = []
    · rw [hne]
      exact .inl ⟨[], .nil []⟩
    rcases lexAt_cases u pre hne with ⟨w, rest, tok, rfl, hw⟩ | ⟨w, rest, rfl, hw⟩ | ⟨e, he⟩
    · have hpos := List.length_pos_iff.mpr hw.ne_nil
      rw [List.length_append] at hfuel
      rcases ih (pre ++ w) rest (by omega) with
        ⟨toks, h⟩ | ⟨ws, w', rest', toks, rfl, h, hlarge⟩ | ⟨e, he⟩
      · exact .inl ⟨_, .cons (by rwa [List.append_nil]) h⟩
      · exact .inr (.inl ⟨w ++ ws, w', rest', _, (List.append_assoc _ _ _).symm, .cons hw h, hlarge⟩)
      · refine .inr (.inr ⟨e, ?_⟩)
        rw [lexFrom_lexeme hw, he]
        rfl
    · exact .inr (.inl ⟨[], w, rest, [], rfl, .nil _, hw⟩)
    · refine .inr (.inr ⟨e, ?_⟩)
      rw [lexFrom_cons u hne, he]
      rfl

theorem lex_of_lexemes {u : Unicode} {s : String} {toks : List Token}
    (h : Lexemes u s.toList [] toks) : lex u s = .ok toks := by
  obtain ⟨fuel, _, heq⟩ := lexFrom_lexemes h [] s.toList.length (Nat.le_refl _)
  rw [List.append_nil, List.nil_append, lexFrom_nil] at heq
  rw [lex]
  exact heq.trans (congrArg Except.ok (List.append_nil toks))

/-- The lexer stops at a reference that is too large. -/
def HasOversized (u : Unicode) (text : List Char) : Prop :=
  ∃ ws w rest toks, text = ws ++ (w ++ rest) ∧ Lexemes u ws (w ++ rest) toks ∧ Oversized u w rest

theorem lex_of_hasOversized {u : Unicode} {s : String} (h : HasOversized u s.toList) :
    lex u s = .error .panicked := by
  obtain ⟨ws, w, rest, toks, hs, hws, hw⟩ := h
  obtain ⟨fuel, hfuel, heq⟩ := lexFrom_lexemes hws [] s.toList.length
    (by rw [hs, List.length_append, List.length_append, List.length_append])
  have hne : w ++ rest ≠ [] := by cases hw; simp
  have hpos := List.length_pos_iff.mpr hne
  obtain ⟨fuel, rfl⟩ : ∃ n, fuel = n + 1 := ⟨fuel - 1, by omega⟩
  rw [lexFrom_cons u hne, lexAt_of_oversized hw, List.nil_append, ← hs] at heq
  exact heq

theorem lex_cases (u : Unicode) (s : String) :
    (∃ toks, Lexemes u s.toList [] toks ∧ lex u s = .ok toks) ∨
      (HasOversized u s.toList ∧ lex u s = .error .panicked) ∨
      ∃ e, lex u s = .error (.error e) := by
  rcases lexFrom_cases u [] s.toList _ (Nat.le_refl _) with ⟨toks, h⟩ | h | ⟨e, he⟩
  · exact .inl ⟨toks, h, lex_of_lexemes h⟩
  · exact .inr (.inl ⟨h, lex_of_hasOversized h⟩)
  · exact .inr (.inr ⟨e, he⟩)

theorem lex_eq_ok {u : Unicode} {s : String} {toks : List Token} :
    lex u s = .ok toks ↔ Lexemes u s.toList [] toks := by
  refine ⟨fun h => ?_, lex_of_lexemes⟩
  rcases lex_cases u s with ⟨toks', h', heq⟩ | ⟨_, heq⟩ | ⟨e, heq⟩
  · cases h.symm.trans heq
    exact h'
  · cases h.symm.trans heq
  · cases h.symm.trans heq

theorem lex_eq_panicked {u : Unicode} {s : String} :
    lex u s = .error .panicked ↔ HasOversized u s.toList := by
  refine ⟨fun h => ?_, lex_of_hasOversized⟩
  rcases lex_cases u s with ⟨toks, _, heq⟩ | ⟨h', _⟩ | ⟨e, heq⟩
  · cases h.symm.trans heq
  · exact h'
  · cases h.symm.trans heq

/-! ## Tokens of a text -/

/-- Every token comes from a lexeme. -/
theorem Lexemes.exists_lexeme {u : Unicode} {ws rest : List Char} {toks : List Token}
    (h : Lexemes u ws rest toks) {tok : Token} (hmem : tok ∈ toks) :
    ∃ pre w post, ws = pre ++ (w ++ post) ∧ Lexeme u w (post ++ rest) (some tok) := by
  induction h with
  | nil => cases hmem
  | @cons w ws rest tok' toks h hws ih =>
    rcases List.mem_append.mp hmem with hmem | hmem
    · rw [Option.mem_toList.mp hmem] at h
      exact ⟨[], w, ws, rfl, h⟩
    · obtain ⟨pre, w', post, rfl, h'⟩ := ih hmem
      exact ⟨w ++ pre, w', post, (List.append_assoc _ _ _).symm, h'⟩

/-- A word is a reference, a truth value, a keyword or an identifier. -/
theorem wordToken_eq_ok {u : Unicode} {word : String} {tok : Token}
    (h : wordToken u word = .ok tok) :
    (∃ id, tok = .nodeRef id) ∨ (∃ b, tok = .boolLit b) ∨ (∃ k, tok = .keyword k) ∨
      tok = .ident word := by
  rw [wordToken] at h
  dsimp only [bind, Except.bind] at h
  cases hr : wordRef word with
  | error e =>
    rw [hr] at h
    cases h
  | ok id =>
    rw [hr] at h
    cases id with
    | some id =>
      cases h
      exact .inl ⟨id, rfl⟩
    | none =>
      dsimp only at h
      split_ifs at h <;> cases h
      · exact .inr (.inl ⟨true, rfl⟩)
      · exact .inr (.inl ⟨false, rfl⟩)
      · exact .inr (.inr (.inl ⟨_, rfl⟩))
      · exact .inr (.inr (.inr rfl))

theorem twoChar_cases {s : String} {tok : Token} (h : twoChar s = some tok) :
    tok = .notEq ∨ tok = .ltEq ∨ tok = .gtEq ∨ tok = .arrow := by
  unfold twoChar at h
  split at h <;> cases h <;> simp

theorem singleChar_ne {c : Char} {tok : Token} (h : singleChar c = some tok) :
    (∀ i, tok ≠ .intLit i) ∧ ∀ s, tok ≠ .ident s := by
  unfold singleChar at h
  split at h <;> cases h <;> simp

/-- The lexer yields no negative number: a minus is a token of its own. -/
theorem Lexeme.intLit_nonneg {u : Unicode} {w rest : List Char} {i : Int64}
    (h : Lexeme u w rest (some (.intLit i))) : 0 ≤ i.toInt := by
  cases h with
  | two h => rcases twoChar_cases h with h | h | h | h <;> cases h
  | single h => exact absurd rfl ((singleChar_ne h).1 i)
  | integer hne hds _ hi =>
    rw [parseI64_of_digits hne hds] at hi
    split_ifs at hi with hlt
    cases hi
    rw [Int64.toInt_ofInt_of_le (by omega) (by omega)]
    exact Int.natCast_nonneg _
  | word _ _ _ _ htok =>
    rcases wordToken_eq_ok htok with ⟨_, h⟩ | ⟨_, h⟩ | ⟨_, h⟩ | h <;> cases h

/-- An identifier is spelled as itself. -/
theorem Lexeme.ident_inv {u : Unicode} {w rest : List Char} {s : String}
    (h : Lexeme u w rest (some (.ident s))) :
    ∃ c cs, w = c :: cs ∧ s = String.ofList w ∧ isWhitespace c = false ∧ isWordStart u c = true ∧
      (∀ d ∈ cs, isWordChar u d = true) ∧ wordToken u s = .ok (.ident s) := by
  cases h with
  | two h => rcases twoChar_cases h with h | h | h | h <;> cases h
  | single h => exact absurd rfl ((singleChar_ne h).2 s)
  | @word c cs _ _ hblank hc hw _ htok =>
    rcases wordToken_eq_ok htok with ⟨_, h⟩ | ⟨_, h⟩ | ⟨_, h⟩ | h <;> cases h
    exact ⟨c, cs, rfl, rfl, hblank, hc, hw, htok⟩

end CypherLite
end AdGraphDb
