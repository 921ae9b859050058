import AdGraphDb.Query.SimpleText
import AdGraphDb.Query.CypherGrammar
import AdGraphDb.Query.Lexemes

/-!
# One query in both languages

The node filters that both languages can spell, their two texts, and when both texts are
parsed to the filter.
-/

namespace AdGraphDb

/-- A word that the CypherLite lexer returns as an identifier. -/
structure Word (u : Unicode) where
  val : String
  lex_eq : CypherLite.lex u val = .ok [.ident val]

/-- The values that both languages can spell. -/
inductive SharedValue where
  | text (s : {s : String // '"' ∉ s.toList})
  | integer (i : Int64)
  | boolean (b : Bool)

structure SharedCondition (u : Unicode) where
  key : Word u
  op : ComparisonOp
  value : SharedValue

structure SharedFilter (u : Unicode) where
  label : Option (Word u)
  conditions : List (SharedCondition u)

namespace SharedValue

def value : SharedValue → Value
  | text s => .text s.val
  | integer i => .integer i
  | boolean b => .boolean b

def spelling : SharedValue → String
  | text s => SimpleQuery.quoted s.val
  | integer i => Int.repr i.toInt
  | boolean b => toString b

/-- No minus sign is needed. -/
def Unsigned : SharedValue → Prop
  | integer i => 0 ≤ i.toInt
  | _ => True

end SharedValue

variable {u : Unicode}

def SharedCondition.condition (c : SharedCondition u) : PropertyCondition :=
  ⟨c.key.val, c.op, c.value.value⟩

/-- The filter that both texts spell. -/
def SharedFilter.filter (f : SharedFilter u) : NodeFilter :=
  ⟨f.label.map Word.val, f.conditions.map SharedCondition.condition⟩

/-! ## Texts -/

/-- `[WHERE condition {AND condition}]`. -/
def whereWords : List (List String) → List String
  | [] => []
  | ws :: rest => "WHERE" :: (ws ++ rest.flatMap fun ws => "AND" :: ws)

/-- `props.k op v`. -/
def SharedCondition.simpleWords (c : SharedCondition u) : List String :=
  ["props." ++ c.key.val, c.op.display, c.value.spelling]

/-- `label = "L"` and the conditions, with their words. -/
def SharedFilter.simpleConditions (f : SharedFilter u) : List (List String × Condition) :=
  f.label.toList.map (fun l => (["label", "=", SimpleQuery.quoted l.val], .label l.val)) ++
    f.conditions.map fun c => (c.simpleWords, .property c.condition)

def SharedFilter.simpleText (f : SharedFilter u) : String :=
  " ".intercalate ("MATCH" :: "NODE" :: whereWords (f.simpleConditions.map Prod.fst))

/-- What stands around punctuation. -/
def gap (spaced : Bool) : String := if spaced then " " else ""

/-- `n.k op v`. -/
def SharedCondition.cypherWords (spaced : Bool) (c : SharedCondition u) : List String :=
  [(gap spaced).intercalate ["n", ".", c.key.val], c.op.display, c.value.spelling]

/-- `(n)` or `(n:L)`. -/
def cypherPattern (spaced : Bool) : Option (Word u) → String
  | none => (gap spaced).intercalate ["(", "n", ")"]
  | some l => (gap spaced).intercalate ["(", "n", ":", l.val, ")"]

def SharedFilter.cypherText (spaced : Bool) (f : SharedFilter u) : String :=
  " ".intercalate ("MATCH" :: cypherPattern spaced f.label ::
    (whereWords (f.conditions.map (SharedCondition.cypherWords spaced)) ++ ["RETURN", "n"]))

/-! ## The text of SimpleQuery -/

namespace Word

theorem exists_chars (w : Word u) :
    ∃ c cs, w.val.toList = c :: cs ∧ isWhitespace c = false ∧
      CypherLite.isWordStart u c = true ∧ (∀ d ∈ cs, CypherLite.isWordChar u d = true) ∧
      CypherLite.wordToken u w.val = .ok (.ident w.val) := by
  obtain ⟨pre, cs, post, hw, h⟩ :=
    (CypherLite.lex_eq_ok.mp w.lex_eq).exists_lexeme List.mem_cons_self
  obtain ⟨c, cs, rfl, hval, hrest⟩ := h.ident_inv
  have hlist : w.val.toList = c :: cs := by rw [hval, String.toList_ofList]
  exact ⟨c, cs, hlist, hrest⟩

theorem isWordChar (w : Word u) : ∀ c ∈ w.val.toList, CypherLite.isWordChar u c = true := by
  obtain ⟨c, cs, hlist, _, hc, hcs, _⟩ := w.exists_chars
  rw [hlist]
  exact List.forall_mem_cons.mpr ⟨CypherLite.isWordChar_of_isWordStart hc, hcs⟩

/-- No quotes and no white space. -/
theorem plain (w : Word u) :
    ∀ c ∈ w.val.toList, c ≠ '"' ∧ SimpleQuery.isSeparator c = false := by
  intro c hc
  have hword := w.isWordChar c hc
  refine ⟨?_, ?_⟩
  · rintro rfl
    cases hword
  · rw [Bool.eq_false_iff]
    intro hsep
    simp only [SimpleQuery.isSeparator, Bool.or_eq_true, beq_iff_eq] at hsep
    rcases hsep with ((rfl | rfl) | rfl) | rfl <;> cases hword

end Word

theorem SharedValue.literal (v : SharedValue) : SimpleQuery.Literal v.spelling v.value := by
  cases v with
  | text s => exact .text s.property
  | integer i => exact .integer i
  | boolean b => exact .boolean (by cases b <;> decide)

theorem separated_intercalate (w : String) (ws : List String) :
    SimpleQuery.Separated (w :: ws) (" ".intercalate (w :: ws)).toList := by
  induction ws generalizing w with
  | nil =>
    rw [String.intercalate_singleton]
    exact .last w
  | cons w' ws ih =>
    rw [String.intercalate_cons_cons, String.toList_append, String.toList_append]
    exact .cons (List.cons_ne_nil _ _) (by decide) (ih w')

theorem SharedFilter.simple_where (f : SharedFilter u) :
    SimpleQuery.WhereSpelling (whereWords (f.simpleConditions.map Prod.fst))
      (f.simpleConditions.map Prod.snd) := by
  have hspelling : ∀ i ∈ f.simpleConditions, SimpleQuery.ConditionSpelling i.1 i.2 := by
    intro i hi
    rcases List.mem_append.mp hi with hi | hi
    · obtain ⟨l, _, rfl⟩ := List.mem_map.mp hi
      exact .label (by decide) fun h => (l.plain _ h).1 rfl
    · obtain ⟨c, _, rfl⟩ := List.mem_map.mp hi
      exact .property (by decide) c.key.plain c.value.literal
  cases h : f.simpleConditions with
  | nil => exact .none
  | cons i is =>
    rw [h] at hspelling
    rw [List.map_cons, whereWords, List.flatMap_map]
    exact .chain (by decide) (Parsing.Chain.of_items (by decide) Prod.fst Prod.snd i is hspelling)

theorem SharedFilter.map_simpleConditions (f : SharedFilter u) :
    f.simpleConditions.map Prod.snd = f.filter.label.toList.map .label ++
      f.filter.propertyConditions.map .property := by
  cases h : f.label <;>
    simp [simpleConditions, filter, h, Function.comp_def]

theorem SharedFilter.parse_simpleText (f : SharedFilter u) :
    SimpleQuery.parse u f.simpleText = .ok (.matchNodes f.filter) := by
  have hwhere := f.simple_where
  rw [map_simpleConditions] at hwhere
  have hlabels := labels_append_properties f.filter.label.toList f.filter.propertyConditions
  have hsentence := SimpleQuery.Sentence.matchNodes (m := "MATCH") (k := "NODE") (by decide)
    (by decide) hwhere (by rw [hlabels]; exact Option.length_toList_le)
    (weights_append_properties _ _)
  rw [hlabels, properties_append_properties, Option.head?_toList] at hsentence
  exact SimpleQuery.parse_of_sentence u hsentence (separated_intercalate _ _)

/-! ## The text of CypherLite -/

namespace CypherLite

/-- A piece of text that makes the tokens, in front of white space or the end. -/
def Spells (u : Unicode) (w : String) (toks : List Token) : Prop :=
  ∀ rest ts, (∀ c ∈ rest.head?, c = ' ') → Lexemes u rest [] ts →
    Lexemes u (w.toList ++ rest) [] (toks ++ ts)

/-- Words and the tokens that they make. -/
inductive SpellsAll (u : Unicode) : List String → List Token → Prop where
  | nil : SpellsAll u [] []
  | cons {w : String} {ws : List String} {toks ts : List Token} (h : Spells u w toks)
      (hws : SpellsAll u ws ts) : SpellsAll u (w :: ws) (toks ++ ts)

theorem SpellsAll.append {ws ws' : List String} {ts ts' : List Token} (h : SpellsAll u ws ts)
    (h' : SpellsAll u ws' ts') : SpellsAll u (ws ++ ws') (ts ++ ts') := by
  induction h with
  | nil => exact h'
  | cons hw _ ih =>
    rw [List.cons_append, List.append_assoc]
    exact .cons hw ih

theorem SpellsAll.flatMap {ι : Type} {words : ι → List String} {toks : ι → List Token}
    (is : List ι) (h : ∀ i ∈ is, SpellsAll u (words i) (toks i)) :
    SpellsAll u (is.flatMap words) (is.flatMap toks) := by
  induction is with
  | nil => exact .nil
  | cons i is ih =>
    rw [List.flatMap_cons, List.flatMap_cons]
    exact (h i List.mem_cons_self).append (ih fun j hj => h j (List.mem_cons_of_mem i hj))

theorem Lexemes.token {w rest : List Char} {tok : Token} {ts : List Token}
    (h : Lexeme u w rest (some tok)) (hrest : Lexemes u rest [] ts) :
    Lexemes u (w ++ rest) [] (tok :: ts) := by
  have htok : Lexeme u w (rest ++ []) (some tok) := by rwa [List.append_nil]
  exact .cons htok hrest

theorem Lexemes.blank {rest : List Char} {ts : List Token} (hrest : Lexemes u rest [] ts) :
    Lexemes u (' ' :: rest) [] ts := by
  have hspace : Lexeme u [' '] (rest ++ []) none := .blank rfl
  exact .cons hspace hrest

/-- Words with single spaces between them. -/
theorem SpellsAll.lexemes {ws : List String} {ts : List Token} (h : SpellsAll u ws ts) :
    Lexemes u (" ".intercalate ws).toList [] ts := by
  induction h with
  | nil =>
    rw [String.intercalate_nil]
    exact .nil []
  | @cons w ws toks ts h hws ih =>
    cases ws with
    | nil =>
      rw [String.intercalate_nil] at ih
      have := h [] ts (fun _ h => by cases h) ih
      rwa [List.append_nil, ← String.intercalate_singleton (s := " ") (t := w)] at this
    | cons w' ws =>
      rw [String.intercalate_cons_cons, String.toList_append, String.toList_append,
        List.append_assoc]
      exact h _ ts (fun c hc => (Option.some.inj hc).symm) ih.blank

/-! ### Words -/

/-- The rest ends a word. -/
def EndsWord (u : Unicode) (rest : List Char) : Prop := ∀ c ∈ rest.head?, isWordChar u c = false

theorem endsWord_of_space {rest : List Char} (h : ∀ c ∈ rest.head?, c = ' ') : EndsWord u rest := by
  intro c hc
  rw [h c hc]
  rfl

theorem endsWord_gap (spaced : Bool) {c : Char} (hc : isWordChar u c = false) (rest : List Char) :
    EndsWord u ((gap spaced).toList ++ c :: rest) := by
  intro d hd
  cases spaced with
  | false =>
    cases hd
    exact hc
  | true =>
    cases hd
    rfl

theorem Lexemes.gap {rest : List Char} {ts : List Token} (spaced : Bool)
    (hrest : Lexemes u rest [] ts) : Lexemes u ((AdGraphDb.gap spaced).toList ++ rest) [] ts := by
  cases spaced with
  | false => exact hrest
  | true => exact hrest.blank

theorem lexeme_word (w : Word u) {rest : List Char} (hrest : EndsWord u rest) :
    Lexeme u w.val.toList rest (some (.ident w.val)) := by
  obtain ⟨c, cs, hlist, hblank, hc, hcs, htok⟩ := w.exists_chars
  rw [hlist]
  refine .word hblank hc hcs hrest ?_
  rw [← hlist, String.ofList_toList, htok]

/-- A word of ASCII letters. -/
theorem lexeme_letters {w : String} {tok : Token} {rest : List Char} (hne : w.toList ≠ [])
    (hw : ∀ c ∈ w.toList, isAscii c = true ∧ isWhitespace c = false ∧ c.isAlpha = true)
    (htok : wordToken u w = .ok tok) (hrest : EndsWord u rest) :
    Lexeme u w.toList rest (some tok) := by
  have hstart {c : Char} (hc : c ∈ w.toList) : isWordStart u c = true := by
    rw [isWordStart_of_isAscii u (hw c hc).1, (hw c hc).2.2]
    rfl
  rw [← String.ofList_toList (s := w)] at htok
  cases hlist : w.toList with
  | nil => exact absurd hlist hne
  | cons c cs =>
    rw [hlist] at hw hstart htok
    exact .word (hw c List.mem_cons_self).2.1 (hstart List.mem_cons_self)
      (fun d hd => isWordChar_of_isWordStart (hstart (List.mem_cons_of_mem c hd))) hrest htok

/-- The variable of the text. -/
theorem wordToken_n (u : Unicode) : wordToken u "n" = .ok (.ident "n") := by
  have hup : u.toUppercase "n" = "N" :=
    u.toUppercase_of_eqIgnoreAsciiCase (t := "N") (by decide) (by decide)
  have href : wordRef "n" = .ok none := by decide
  rw [wordToken, href]
  dsimp only [bind, Except.bind]
  rw [hup]
  rfl

theorem lexeme_n {rest : List Char} (hrest : EndsWord u rest) :
    Lexeme u ['n'] rest (some (.ident "n")) :=
  lexeme_letters (w := "n") (by decide) (by decide) (wordToken_n u) hrest

theorem wordToken_boolean (u : Unicode) (b : Bool) :
    wordToken u (toString b) = .ok (.boolLit b) := by
  have hup : u.toUppercase (toString b) = if b then "TRUE" else "FALSE" := by
    cases b with
    | true => exact u.toUppercase_of_eqIgnoreAsciiCase (t := "TRUE") (by decide) (by decide)
    | false => exact u.toUppercase_of_eqIgnoreAsciiCase (t := "FALSE") (by decide) (by decide)
  have href : wordRef (toString b) = .ok none := by cases b <;> decide
  rw [wordToken, href]
  dsimp only [bind, Except.bind]
  rw [hup]
  cases b <;> rfl

theorem wordToken_keyword (u : Unicode) {kw : String} (hkw : kw ∈ keywords) :
    wordToken u kw = .ok (.keyword kw) := by
  have hall : ∀ k ∈ keywords, k.toList.all isAscii = true ∧
      String.ofList (k.toList.map Char.toUpper) = k ∧ wordRef k = .ok none ∧ k ≠ "TRUE" ∧
      k ≠ "FALSE" := by decide
  obtain ⟨hascii, hupper, href, htrue, hfalse⟩ := hall kw hkw
  have hup : u.toUppercase kw = kw :=
    (u.toUppercase_of_eqIgnoreAsciiCase (decide_eq_true rfl) hascii).trans hupper
  rw [wordToken, href]
  dsimp only [bind, Except.bind]
  rw [hup, if_neg htrue, if_neg hfalse, if_pos (List.elem_eq_true_of_mem hkw)]
  rfl

theorem spells_keyword {kw : String} (hkw : kw ∈ keywords) : Spells u kw [.keyword kw] := by
  have hletters : ∀ k ∈ keywords, k.toList ≠ [] ∧
      ∀ c ∈ k.toList, isAscii c = true ∧ isWhitespace c = false ∧ c.isAlpha = true := by decide
  intro rest ts hrest hts
  obtain ⟨hne, hw⟩ := hletters kw hkw
  exact hts.token (lexeme_letters hne hw (wordToken_keyword u hkw) (endsWord_of_space hrest))

/-! ### Patterns and conditions -/

/-- Punctuation that starts no longer operator. -/
theorem lexeme_punct {c : Char} {tok : Token} (h : singleChar c = some tok)
    (hc : ¬ (c = '!' ∨ c = '<' ∨ c = '>' ∨ c = '-')) (rest : List Char) :
    Lexeme u [c] rest (some tok) :=
  .single h fun _ _ => Option.eq_none_iff_forall_ne_some.mpr fun _ h => hc (twoChar_head h)

theorem spells_pattern (spaced : Bool) (label : Option (Word u)) :
    Spells u (cypherPattern spaced label) (nodePattern (some "n") (label.map Word.val)) := by
  intro rest ts _ hts
  have hclose := (hts.token (lexeme_punct (c := ')') rfl (by decide) rest)).gap spaced
  cases label with
  | none =>
    have hn := hclose.token (lexeme_n (endsWord_gap spaced rfl rest))
    have hopen := (hn.gap spaced).token (lexeme_punct (c := '(') rfl (by decide) _)
    simpa [cypherPattern, String.intercalate_cons_cons, nodePattern, varTokens, labelTokens]
      using hopen
  | some l =>
    have hlabel := (hclose.token (lexeme_word l (endsWord_gap spaced rfl rest))).gap spaced
    have hcolon := (hlabel.token (lexeme_punct (c := ':') rfl (by decide) _)).gap spaced
    have hn := hcolon.token (lexeme_n (endsWord_gap spaced rfl _))
    have hopen := (hn.gap spaced).token (lexeme_punct (c := '(') rfl (by decide) _)
    simpa [cypherPattern, String.intercalate_cons_cons, nodePattern, varTokens, labelTokens]
      using hopen

theorem spells_field (spaced : Bool) (key : Word u) :
    Spells u ((gap spaced).intercalate ["n", ".", key.val]) [.ident "n", .dot, .ident key.val] := by
  intro rest ts hrest hts
  have hkey := (hts.token (lexeme_word key (endsWord_of_space hrest))).gap spaced
  have hdot := (hkey.token (lexeme_punct (c := '.') rfl (by decide) _)).gap spaced
  have hn := hdot.token (lexeme_n (endsWord_gap spaced rfl _))
  simpa [String.intercalate_cons_cons] using hn

theorem spells_op (op : ComparisonOp) : Spells u op.display [opToken op] := by
  intro rest ts hrest hts
  have hspace {c : Char} (hc : twoChar (String.ofList [c, ' ']) = none) :
      ∀ d ∈ rest.head?, twoChar (String.ofList [c, d]) = none := by
    intro d hd
    rw [hrest d hd, hc]
  have hop : Lexeme u op.display.toList rest (some (opToken op)) := by
    cases op with
    | eq => exact .single rfl (hspace (by decide))
    | notEq => exact .two (by decide)
    | lt => exact .single rfl (hspace (by decide))
    | ltEq => exact .two (by decide)
    | gt => exact .single rfl (hspace (by decide))
    | gtEq => exact .two (by decide)
  exact hts.token hop

/-- The token of a value. -/
def sharedToken : SharedValue → Token
  | .text s => .stringLit s.val
  | .integer i => .intLit i
  | .boolean b => .boolLit b

theorem valueToken_shared (v : SharedValue) : valueToken v.value = some (sharedToken v) := by
  cases v <;> rfl

theorem spells_value {v : SharedValue} (hv : v.Unsigned) : Spells u v.spelling [sharedToken v] := by
  intro rest ts hrest hts
  refine Lexemes.token ?_ hts
  cases v with
  | text s =>
    have hs := @Lexeme.string u s.val.toList rest s.property
    rwa [String.ofList_toList, ← SimpleQuery.toList_quoted] at hs
  | integer i =>
    obtain ⟨n, hn⟩ := Int.eq_ofNat_of_zero_le hv
    have hlist : (Int.repr i.toInt).toList = Nat.toDigits 10 n := by
      rw [hn, ← Nat.toList_repr]
      rfl
    refine .integer ?_ ?_ ?_ ?_
    · rw [SharedValue.spelling, hlist]
      exact Nat.toDigits_ne_nil
    · rw [SharedValue.spelling, hlist]
      exact fun c hc => Nat.isDigit_of_mem_toDigits (by decide) (by decide) hc
    · intro c hc
      rw [hrest c hc]
      decide
    · rw [String.ofList_toList]
      exact parseI64_repr i
  | boolean b =>
    refine lexeme_letters ?_ ?_ (wordToken_boolean u b) (endsWord_of_space hrest) <;>
      cases b <;> decide

/-! ### The text -/

/-- The tokens of `n.k op v`. -/
def conditionTokens (c : SharedCondition u) : List Token :=
  [.ident "n", .dot, .ident c.key.val, opToken c.op, sharedToken c.value]

theorem spells_condition (spaced : Bool) {c : SharedCondition u} (hc : c.value.Unsigned) :
    SpellsAll u (c.cypherWords spaced) (conditionTokens c) :=
  .cons (spells_field spaced c.key) <| .cons (spells_op c.op) <| .cons (spells_value hc) .nil

/-- The tokens of the `WHERE` clause. -/
def whereTokens : List (SharedCondition u) → List Token
  | [] => []
  | c :: cs =>
    .keyword "WHERE" :: (conditionTokens c ++ cs.flatMap fun c => .keyword "AND" :: conditionTokens c)

theorem spells_where (spaced : Bool) {cs : List (SharedCondition u)}
    (hcs : ∀ c ∈ cs, c.value.Unsigned) :
    SpellsAll u (whereWords (cs.map (SharedCondition.cypherWords spaced))) (whereTokens cs) := by
  cases cs with
  | nil => exact .nil
  | cons c cs =>
    rw [List.map_cons, whereWords, List.flatMap_map]
    refine .cons (spells_keyword (by decide)) ?_
    refine (spells_condition spaced (hcs c List.mem_cons_self)).append (SpellsAll.flatMap cs ?_)
    intro d hd
    exact .cons (spells_keyword (by decide)) (spells_condition spaced (hcs d (List.mem_cons_of_mem c hd)))

theorem clause_of_shared (c : SharedCondition u) :
    Clause false (conditionTokens c) (.property c.condition) :=
  .property rfl (valueToken_shared c.value)

theorem filter_of_shared (cs : List (SharedCondition u)) {rest : List Token}
    (hrest : rest.head? = some (.keyword "RETURN")) :
    Filter false (whereTokens cs) rest ((cs.map SharedCondition.condition).map .property) := by
  rw [List.map_map]
  cases cs with
  | nil =>
    refine .all ?_
    rw [hrest]
    rfl
  | cons c cs =>
    refine .chain (Parsing.Chain.of_items rfl conditionTokens _ c cs fun c _ => clause_of_shared c) ?_
    rw [hrest]
    rfl

theorem parse_cypherText (fmt : DebugFormat) (f : SharedFilter u) (spaced : Bool)
    (hf : ∀ c ∈ f.conditions, c.value.Unsigned) :
    parse fmt u (f.cypherText spaced) = .ok (.matchNodes f.filter) := by
  have hreturn : SpellsAll u ["RETURN", "n"] [.keyword "RETURN", .ident "n"] := by
    have hn : Spells u "n" [.ident "n"] := fun rest ts hrest hts =>
      hts.token (lexeme_n (endsWord_of_space hrest))
    exact .cons (spells_keyword (by decide)) (.cons hn .nil)
  have htext : SpellsAll u _ (.keyword "MATCH" :: (nodePattern (some "n") (f.label.map Word.val) ++
      (whereTokens f.conditions ++ [.keyword "RETURN", .ident "n"]))) :=
    .cons (spells_keyword (by decide)) <|
      .cons (spells_pattern spaced f.label) ((spells_where spaced hf).append hreturn)
  have hlex : lex u (f.cypherText spaced) = .ok _ := lex_of_lexemes htext.lexemes
  have hfilter : (f.filter.propertyConditions.map Condition.property).foldl NodeFilter.store
      ⟨f.label.map Word.val, []⟩ = f.filter := by
    have hlabels := labels_append_properties [] f.filter.propertyConditions
    have hproperties := properties_append_properties [] f.filter.propertyConditions
    rw [List.map_nil, List.nil_append] at hlabels hproperties
    rw [foldl_nodeStore, hlabels, hproperties]
    rfl
  rw [parse_eq_ok, ← hfilter]
  refine ⟨_, [], hlex.trans (by rw [List.append_nil]), .select (.nodes ?_ (.mk rfl rfl))⟩
  exact filter_of_shared f.conditions rfl

/-- A condition that a command asks for is among the tokens of its text. -/
theorem exists_clause_of_command {ts rest : List Token} {filter : NodeFilter}
    (h : Command ts rest (.matchNodes filter)) {p : PropertyCondition}
    (hp : p ∈ filter.propertyConditions) : ∃ ts', ts' ⊆ ts ∧ Clause false ts' (.property p) := by
  generalize hcmd : QueryCommand.matchNodes filter = cmd at h
  cases h with
  | @select ts _ _ h =>
    cases h with
    | @nodes var label ts₁ ts₂ _ cs hts hr =>
      rw [QueryCommand.matchNodes.inj hcmd, foldl_nodeStore] at hp
      have hmem : Condition.property p ∈ cs := mem_properties.mp hp
      cases hts with
      | all => cases hmem
      | chain hts _ =>
        obtain ⟨ts', hsub, hclause⟩ := hts.mem hmem
        refine ⟨ts', fun t ht => List.mem_cons_of_mem _ ?_, hclause⟩
        exact List.mem_append_right _ (List.mem_append_left _ (List.mem_cons_of_mem _ (hsub ht)))
    | edges => cases hcmd
  | _ => cases hcmd

theorem unsigned_of_parse (fmt : DebugFormat) {text : String} {f : SharedFilter u}
    (h : parse fmt u text = .ok (.matchNodes f.filter)) : ∀ c ∈ f.conditions, c.value.Unsigned := by
  obtain ⟨ts, rest, hlex, hcmd⟩ := (parse_eq_ok fmt u text _).mp h
  intro c hc
  obtain ⟨ts', hsub, hclause⟩ := exists_clause_of_command hcmd (List.mem_map_of_mem hc)
  cases hv : c.value with
  | integer i =>
    have hi : Token.intLit i ∈ ts' := by
      generalize hcond : Condition.property c.condition = d at hclause
      cases hclause with
      | property _ hvalue =>
        cases hcond
        rw [valueToken_shared, hv] at hvalue
        cases hvalue
        simp [sharedToken]
      | weight => cases hcond
    obtain ⟨_, w, _, _, hw⟩ := (lex_eq_ok.mp hlex).exists_lexeme
      (List.mem_append_left rest (hsub hi))
    exact hw.intLit_nonneg
  | text s => trivial
  | boolean b => trivial

end CypherLite

/-- Both texts of a filter are parsed to the filter exactly if no value has a minus sign. -/
theorem bothLanguages_agree_iff (fmt : CypherLite.DebugFormat) (u : Unicode) (f : SharedFilter u)
    (spaced : Bool) :
    (SimpleQuery.parse u f.simpleText = .ok (.matchNodes f.filter) ∧
      CypherLite.parse fmt u (f.cypherText spaced) = .ok (.matchNodes f.filter)) ↔
      ∀ c ∈ f.conditions, c.value.Unsigned := by
  constructor
  · exact fun h => CypherLite.unsigned_of_parse fmt h.2
  · exact fun h => ⟨f.parse_simpleText, CypherLite.parse_cypherText fmt f spaced h⟩

/-- `n.k = -5` is no condition of CypherLite. -/
theorem bothLanguages_differ :
    ¬ ∀ (fmt : CypherLite.DebugFormat) (u : Unicode) (f : SharedFilter u) (spaced : Bool),
      SimpleQuery.parse u f.simpleText = .ok (.matchNodes f.filter) ∧
        CypherLite.parse fmt u (f.cypherText spaced) = .ok (.matchNodes f.filter) := by
  intro h
  have hparse := (h ⟨id, fun _ => "0.0"⟩ .plain
    ⟨none, [⟨⟨"k", by decide +kernel⟩, .eq, .integer (-5)⟩]⟩ false).2
  exact absurd hparse (by decide +kernel)

end AdGraphDb
