import AdGraphDb.Query.Conjunction

/-!
# The grammars of the file headers

The grammar that either language file gives at its start, and when a text that its parser
accepts is a sentence of it, so that no token is ignored.
-/

namespace AdGraphDb

/-! ## SimpleQuery -/

namespace SimpleQuery
open Parsing

/-- `/N\d+/` and `/E\d+/`. -/
def IsRef (letter : Char) (t : String) : Prop :=
  ∃ ds, t.toList = letter :: ds ∧ ds ≠ [] ∧ ∀ c ∈ ds, c.isDigit = true

/-- `condition`. Literals are those that the parser reads. -/
inductive HeaderCondition (u : Unicode) : List String → Prop where
  | label {field lit l : String} {op : ComparisonOp} (hfield : isWord "label" field = true)
      (hlit : stringLit lit = .ok l) : HeaderCondition u [field, op.display, lit]
  | weight {field raw : String} {op : ComparisonOp} {value : F64}
      (hfield : isWord "weight" field = true) (hraw : F64.parse raw = some value) :
      HeaderCondition u [field, op.display, raw]
  | property {field key lit : String} {op : ComparisonOp} {value : Value}
      (hfield : startsWithStr (u.toLowercase field) "props." = true)
      (hkey : sliceFrom? field 6 = some key) (hident : key ≠ "") (hlit : valueLit lit = .ok value) :
      HeaderCondition u [field, op.display, lit]

/-- `filter_chain`. -/
inductive HeaderChain (u : Unicode) : List String → Prop where
  | one {ts : List String} (h : HeaderCondition u ts) : HeaderChain u ts
  | and {ts ts' : List String} {t : String} (h : HeaderCondition u ts) (ht : isWord "AND" t = true)
      (hts : HeaderChain u ts') : HeaderChain u (ts ++ t :: ts')

/-- `query`. Keywords are read in any letter case, as the parser does. -/
inductive Header (u : Unicode) : List String → Prop where
  | select {m k : String} (hm : u.toUppercase m = "MATCH")
      (hk : u.toUppercase k = "NODE" ∨ u.toUppercase k = "EDGE") : Header u [m, k]
  | selectWhere {m k w : String} {ts : List String} (hm : u.toUppercase m = "MATCH")
      (hk : u.toUppercase k = "NODE" ∨ u.toUppercase k = "EDGE") (hw : isWord "WHERE" w = true)
      (hts : HeaderChain u ts) : Header u (m :: k :: w :: ts)
  | getNode {g k r : String} (hg : u.toUppercase g = "GET") (hk : u.toUppercase k = "NODE")
      (hr : IsRef 'N' r) : Header u [g, k, r]
  | getEdge {g k r : String} (hg : u.toUppercase g = "GET") (hk : u.toUppercase k = "EDGE")
      (hr : IsRef 'E' r) : Header u [g, k, r]
  | traverse {t a f r : String} (ht : u.toUppercase t = "TRAVERSE")
      (ha : u.toUppercase a = "BFS" ∨ u.toUppercase a = "DFS") (hf : isWord "FROM" f = true)
      (hr : IsRef 'N' r) : Header u [t, a, f, r]
  | path {p f r t r' : String} (hp : u.toUppercase p = "PATH") (hf : isWord "FROM" f = true)
      (hr : IsRef 'N' r) (ht : isWord "TO" t = true) (hr' : IsRef 'N' r') : Header u [p, f, r, t, r']
  | count {c k : String} (hc : u.toUppercase c = "COUNT")
      (hk : u.toUppercase k = "NODES" ∨ u.toUppercase k = "EDGES") : Header u [c, k]

/-- A field with the prefix of the properties has a key behind it. -/
def hasKey (u : Unicode) (field : String) : Bool :=
  !(startsWithStr (u.toLowercase field) "props." && decide (sliceFrom? field 6 = some ""))

/-- Every fourth token is an `AND`, up to the last three, and no field lacks its key. -/
def andsInPlace (u : Unicode) : List String → Bool
  | [field, _, _] => hasKey u field
  | field :: _ :: _ :: t :: ts => hasKey u field && (isWord "AND" t && andsInPlace u ts)
  | _ => false

def hasNoPlus (t : String) : Bool := !t.toList.contains '+'

/-- The number of tokens that the first word asks for, and no sign in a reference. -/
def wordsInPlace (u : Unicode) : String → List String → Bool
  | "MATCH", [_] => true
  | "MATCH", _ :: w :: ts => isWord "WHERE" w && andsInPlace u ts
  | "GET", [_, r] => hasNoPlus r
  | "TRAVERSE", [_, _, r] => hasNoPlus r
  | "PATH", [_, r, _, r'] => hasNoPlus r && hasNoPlus r'
  | "COUNT", [_] => true
  | _, _ => false

def nothingIgnored (u : Unicode) : List String → Bool
  | [] => false
  | t :: ts => wordsInPlace u (u.toUppercase t) ts

theorem hasNoPlus_of_isRef {letter : Char} (hletter : letter ≠ '+') {t : String}
    (h : IsRef letter t) : hasNoPlus t = true := by
  obtain ⟨ds, ht, _, hds⟩ := h
  rw [hasNoPlus, Bool.not_eq_true', Bool.eq_false_iff, ne_eq, List.contains_iff_mem, ht,
    List.mem_cons]
  rintro (h | h)
  · exact hletter h.symm
  · cases hds _ h

theorem isRef_of_refNumber {letter : Char} {t : String} {id : UInt64}
    (h : refNumber letter t = some id) (hplus : hasNoPlus t = true) : IsRef letter t := by
  rw [hasNoPlus, Bool.not_eq_true', Bool.eq_false_iff, ne_eq, List.contains_iff_mem] at hplus
  rw [refNumber] at h
  cases ht : t.toList with
  | nil =>
    rw [ht] at h
    cases h
  | cons c ds =>
    rw [ht] at h hplus
    dsimp only at h
    split_ifs at h with hc
    have hdigits := digits_of_parseU64 (fun h => hplus (List.mem_cons_of_mem c h)) h
    exact ⟨ds, by rw [ht, hc], hdigits⟩

theorem hasKey_of_isWord {u : Unicode} {kw field : String} (h : isWord kw field = true)
    (hkw : kw.toList.all isAscii = true)
    (hne : startsWithStr (String.ofList (kw.toList.map Char.toLower)) "props." = false) :
    hasKey u field = true := by
  rw [hasKey, isWord_ne_props u h hkw hne]
  rfl

theorem HeaderCondition.eq_cons {u : Unicode} {ts : List String} (h : HeaderCondition u ts) :
    ∃ field op lit, ts = [field, op, lit] ∧ hasKey u field = true := by
  cases h with
  | label hfield => exact ⟨_, _, _, rfl, hasKey_of_isWord hfield (by decide) (by decide)⟩
  | weight hfield => exact ⟨_, _, _, rfl, hasKey_of_isWord hfield (by decide) (by decide)⟩
  | property hfield hkey hident =>
    refine ⟨_, _, _, rfl, ?_⟩
    rw [hasKey, hkey, decide_eq_false fun h => hident (Option.some.inj h), Bool.and_false]
    rfl

theorem andsInPlace_append {u : Unicode} {ts : List String} (h : HeaderCondition u ts) (t : String)
    (ts' : List String) :
    andsInPlace u (ts ++ t :: ts') = (isWord "AND" t && andsInPlace u ts') := by
  obtain ⟨field, op, lit, rfl, hkey⟩ := h.eq_cons
  rw [List.cons_append, List.cons_append, List.cons_append, List.nil_append, andsInPlace, hkey,
    Bool.true_and]

theorem andsInPlace_of_headerChain {u : Unicode} {ts : List String} (h : HeaderChain u ts) :
    andsInPlace u ts = true := by
  induction h with
  | one h =>
    obtain ⟨field, op, lit, rfl, hkey⟩ := h.eq_cons
    exact hkey
  | and h ht _ ih => rw [andsInPlace_append h, ht, ih, Bool.and_self]

theorem nothingIgnored_of_header {u : Unicode} {ts : List String} (h : Header u ts) :
    nothingIgnored u ts = true := by
  have hN {r : String} (hr : IsRef 'N' r) : hasNoPlus r = true :=
    hasNoPlus_of_isRef (by decide) hr
  cases h with
  | select hm =>
    rw [nothingIgnored, hm]
    rfl
  | selectWhere hm _ hw hts =>
    rw [nothingIgnored, hm]
    exact (Bool.and_eq_true _ _).mpr ⟨hw, andsInPlace_of_headerChain hts⟩
  | getNode hg _ hr =>
    rw [nothingIgnored, hg]
    exact hN hr
  | getEdge hg _ hr =>
    rw [nothingIgnored, hg]
    exact hasNoPlus_of_isRef (by decide) hr
  | traverse ht _ _ hr =>
    rw [nothingIgnored, ht]
    exact hN hr
  | path hp _ hr _ hr' =>
    rw [nothingIgnored, hp]
    exact (Bool.and_eq_true _ _).mpr ⟨hN hr, hN hr'⟩
  | count hc =>
    rw [nothingIgnored, hc]
    rfl

/-- A condition with a key is one of the header. -/
theorem Clause.eq_cons {u : Unicode} {weights : Bool} {ts : List String} {c : Condition}
    (h : Clause u weights ts c) : ∃ field op lit, ts = [field, op, lit] ∧
      (hasKey u field = true → HeaderCondition u [field, op, lit]) := by
  cases h with
  | label hfield hlit =>
    exact ⟨_, _, _, rfl, fun _ => @HeaderCondition.label u _ _ _ .eq hfield hlit⟩
  | weight _ hfield hraw => exact ⟨_, _, _, rfl, fun _ => .weight hfield hraw⟩
  | property hfield hkey hlit =>
    refine ⟨_, _, _, rfl, fun h => .property hfield hkey ?_ hlit⟩
    rintro rfl
    rw [hasKey, hfield, hkey] at h
    cases h

/-- In a chain whose words stand in place nothing is left, and every condition is one of the
header: what no `AND` joins to it is out of place. -/
theorem headerChain_of_chain {u : Unicode} {weights : Bool} {ts rest : List String}
    {cs : List Condition} (h : Chain (Clause u weights) (isWord "AND") ts cs)
    (hrest : rest.head?.any (isWord "AND") = false) (hall : andsInPlace u (ts ++ rest) = true) :
    HeaderChain u ts ∧ rest = [] := by
  induction h with
  | last h =>
    obtain ⟨field, op, lit, rfl, hheader⟩ := h.eq_cons
    cases rest with
    | nil => exact ⟨.one (hheader hall), rfl⟩
    | cons t rest =>
      have hand := (Bool.and_eq_true _ _).mp ((Bool.and_eq_true _ _).mp hall).2
      cases hand.1.symm.trans hrest
  | and h ht _ ih =>
    obtain ⟨field, op, lit, rfl, hheader⟩ := h.eq_cons
    have hkey := (Bool.and_eq_true _ _).mp hall
    obtain ⟨hchain, hnil⟩ := ih ((Bool.and_eq_true _ _).mp hkey.2).2
    exact ⟨.and (hheader hkey.1) ht hchain, hnil⟩

theorem header_of_filter {u : Unicode} {t k : String} {weights : Bool} {ts rest : List String}
    {cs : List Condition} (ht : u.toUppercase t = "MATCH")
    (hk : u.toUppercase k = "NODE" ∨ u.toUppercase k = "EDGE") (hcs : Filter u weights ts rest cs)
    (hall : wordsInPlace u "MATCH" (k :: (ts ++ rest)) = true) :
    Header u (t :: k :: (ts ++ rest)) := by
  cases hcs with
  | all hrest =>
    cases rest with
    | nil => exact .select ht hk
    | cons w rest =>
      cases hrest.symm.trans ((Bool.and_eq_true _ _).mp hall).1
  | @chain w ts _ _ hw hts hrest =>
    have hall : andsInPlace u (ts ++ rest) = true := ((Bool.and_eq_true _ _).mp hall).2
    obtain ⟨hchain, rfl⟩ := headerChain_of_chain hts hrest hall
    rw [List.append_nil]
    exact .selectWhere ht hk hw hchain

theorem header_iff_of_command {u : Unicode} {t : String} {verb : Verb} {ts rest : List String}
    {cmd : QueryCommand} (ht : u.toUppercase t = verb.word) (h : Command u verb ts rest cmd) :
    Header u (t :: ts ++ rest) ↔ nothingIgnored u (t :: ts ++ rest) = true := by
  refine ⟨nothingIgnored_of_header, fun hall => ?_⟩
  rw [List.cons_append, nothingIgnored, ht] at hall
  cases h with
  | matchNodes hk hcs => exact header_of_filter ht (.inl hk) hcs hall
  | matchEdges hk hcs => exact header_of_filter ht (.inr hk) hcs hall
  | getNode hk hr =>
    cases rest with
    | nil => exact .getNode ht hk (isRef_of_refNumber hr hall)
    | cons => cases hall
  | getEdge hk hr =>
    cases rest with
    | nil => exact .getEdge ht hk (isRef_of_refNumber hr hall)
    | cons => cases hall
  | @traverse a _ _ _ kind _ ha hf hr =>
    cases rest with
    | nil =>
      have ha : u.toUppercase a = "BFS" ∨ u.toUppercase a = "DFS" := by
        cases kind
        · exact .inl ha
        · exact .inr ha
      exact .traverse ht ha hf (isRef_of_refNumber hr hall)
    | cons => cases hall
  | path hf hr ht' hr' =>
    cases rest with
    | nil =>
      have hplus := (Bool.and_eq_true _ _).mp hall
      exact .path ht hf (isRef_of_refNumber hr hplus.1) ht' (isRef_of_refNumber hr' hplus.2)
    | cons => cases hall
  | countNodes hk =>
    cases rest with
    | nil => exact .count ht (.inl hk)
    | cons => cases hall
  | countEdges hk =>
    cases rest with
    | nil => exact .count ht (.inr hk)
    | cons => cases hall

end SimpleQuery

/-! ## CypherLite -/

namespace CypherLite
open Parsing

/-- `where_cond`. -/
inductive HeaderCondition : List Token → Prop where
  | mk {var prop : String} {op : ComparisonOp} {value : Value} {tok : Token}
      (hvalue : valueToken value = some tok) :
      HeaderCondition [.ident var, .dot, .ident prop, opToken op, tok]

/-- `where_expr`. -/
inductive HeaderExpr : List Token → Prop where
  | one {ts : List Token} (h : HeaderCondition ts) : HeaderExpr ts
  | and {ts ts' : List Token} (h : HeaderCondition ts) (hts : HeaderExpr ts') :
      HeaderExpr (ts ++ .keyword "AND" :: ts')

/-- `pattern`. -/
inductive HeaderPattern : List Token → Prop where
  | node (var label : Option String) : HeaderPattern (nodePattern var label)
  | edge (var label var₁ label₁ var₂ label₂ : Option String) :
      HeaderPattern (nodePattern var₁ label₁ ++ (relPattern var label ++ nodePattern var₂ label₂))

/-- `["WHERE" where_expr]`. -/
inductive HeaderWhere : List Token → Prop where
  | none : HeaderWhere []
  | some {ts : List Token} (hts : HeaderExpr ts) : HeaderWhere (.keyword "WHERE" :: ts)

/-- `query`. A `return_list` is any row of tokens without a keyword. -/
inductive Header : List Token → Prop where
  | select {pattern ts list : List Token} (hpattern : HeaderPattern pattern) (hts : HeaderWhere ts)
      (hlist : list.all (fun tok => !tok.isKeyword) = true) :
      Header (.keyword "MATCH" :: (pattern ++ (ts ++ .keyword "RETURN" :: list)))
  | traverse (kind : TraversalKind) (id : UInt64) :
      Header [.keyword "TRAVERSE", .keyword kind.keyword, .keyword "FROM", .nodeRef id]
  | path (id id' : UInt64) :
      Header [.keyword "PATH", .keyword "FROM", .nodeRef id, .keyword "TO", .nodeRef id']
  | countNodes : Header [.keyword "COUNT", .keyword "NODES"]
  | countEdges : Header [.keyword "COUNT", .keyword "EDGES"]

/-- Every dot in front of the first `RETURN` follows an identifier, and no keyword stands
behind it. -/
def dotsInPlace : Token → List Token → Bool
  | _, [] => false
  | prev, tok :: toks =>
    if tok = .keyword "RETURN" then toks.all fun tok => !tok.isKeyword
    else (decide (tok ≠ .dot) || prev.isIdent) && dotsInPlace tok toks

/-- The number of tokens that the first keyword asks for. -/
def nothingIgnored : List Token → Bool
  | .keyword "MATCH" :: toks => dotsInPlace (.keyword "MATCH") toks
  | [.keyword "TRAVERSE", _, _, _] => true
  | [.keyword "PATH", _, _, _, _] => true
  | [.keyword "COUNT", _] => true
  | _ => false

theorem dotsInPlace_return (prev : Token) (toks : List Token) :
    dotsInPlace prev (.keyword "RETURN" :: toks) = toks.all fun tok => !tok.isKeyword := rfl

theorem dotsInPlace_pattern {pattern : List Token} (h : HeaderPattern pattern) (prev : Token)
    (toks : List Token) : dotsInPlace prev (pattern ++ toks) = dotsInPlace .rParen toks := by
  have hnode (var label : Option String) (prev : Token) (toks : List Token) :
      dotsInPlace prev (nodePattern var label ++ toks) = dotsInPlace .rParen toks := by
    cases var <;> cases label <;> rfl
  have hrel (var label : Option String) (prev : Token) (toks : List Token) :
      dotsInPlace prev (relPattern var label ++ toks) = dotsInPlace .arrow toks := by
    cases var <;> cases label <;> rfl
  cases h with
  | node var label => exact hnode var label prev toks
  | edge => rw [List.append_assoc, hnode, List.append_assoc, hrel, hnode]

/-- The dot of a condition follows its variable. -/
theorem dotsInPlace_condition {var tok : Token} {field : String} {op : ComparisonOp} {value : Value}
    (hvalue : valueToken value = some tok) (hvar : var ≠ .keyword "RETURN") (prev : Token)
    (toks : List Token) :
    dotsInPlace prev ([var, .dot, .ident field, opToken op, tok] ++ toks) =
      ((decide (var ≠ .dot) || prev.isIdent) && (var.isIdent && dotsInPlace tok toks)) := by
  have htok : dotsInPlace (opToken op) (tok :: toks) = dotsInPlace tok toks := by
    cases value <;> cases hvalue <;> rfl
  have hop : dotsInPlace (.ident field) (opToken op :: tok :: toks) = dotsInPlace tok toks := by
    rw [← htok]
    cases op <;> rfl
  have hdot : dotsInPlace var (.dot :: .ident field :: opToken op :: tok :: toks) =
      (var.isIdent && dotsInPlace tok toks) := by
    rw [← hop]
    rfl
  rw [← hdot]
  exact if_neg hvar

theorem dotsInPlace_headerCondition {ts : List Token} (h : HeaderCondition ts) (prev : Token) (k : String)
    (toks : List Token) :
    dotsInPlace prev (ts ++ .keyword k :: toks) = dotsInPlace .rParen (.keyword k :: toks) := by
  cases h with
  | mk hvalue =>
    rw [dotsInPlace_condition hvalue (fun h => by cases h)]
    rfl

theorem dotsInPlace_where {ts : List Token} (h : HeaderWhere ts) (prev : Token)
    {list : List Token} (hlist : list.all (fun tok => !tok.isKeyword) = true) :
    dotsInPlace prev (ts ++ .keyword "RETURN" :: list) = true := by
  cases h with
  | none => exact hlist
  | @some ts hts =>
    have hexpr : ∀ prev, dotsInPlace prev (ts ++ .keyword "RETURN" :: list) = true := by
      induction hts with
      | one h =>
        intro prev
        rw [dotsInPlace_headerCondition h, dotsInPlace_return, hlist]
      | and h _ ih =>
        intro prev
        rw [List.append_assoc, List.cons_append, dotsInPlace_headerCondition h]
        exact ih _
    exact hexpr _

theorem nothingIgnored_of_header {toks : List Token} (h : Header toks) :
    nothingIgnored toks = true := by
  cases h with
  | select hpattern hts hlist =>
    rw [nothingIgnored, dotsInPlace_pattern hpattern, dotsInPlace_where hts _ hlist]
  | traverse => rfl
  | path => rfl
  | countNodes => rfl
  | countEdges => rfl

/-- A keyword ends the list of a `RETURN`. -/
theorem eq_nil_of_all {list rest : List Token}
    (hrest : rest.head?.any (fun tok => !tok.isKeyword) = false)
    (hall : (list ++ rest).all (fun tok => !tok.isKeyword) = true) : rest = [] := by
  cases rest with
  | nil => rfl
  | cons tok rest =>
    rw [List.all_append, Bool.and_eq_true, List.all_cons, Bool.and_eq_true] at hall
    cases hall.2.1.symm.trans hrest

theorem headerCondition_of_clause {weights : Bool} {ts toks : List Token} {c : Condition}
    (h : Clause weights ts c) {prev : Token} (hreturn : .keyword "RETURN" ∈ toks)
    (hall : dotsInPlace prev (ts ++ toks) = true) :
    HeaderCondition ts ∧ ∃ tok, dotsInPlace tok toks = true := by
  obtain ⟨var, field, op, value, tok, hvalue, rfl⟩ : ∃ var field op value tok,
      valueToken value = some tok ∧ ts = [var, .dot, .ident field, opToken op, tok] := by
    cases h with
    | property _ hvalue => exact ⟨_, _, _, _, _, hvalue, rfl⟩
    | weight _ hvalue _ => exact ⟨_, _, _, _, _, hvalue, rfl⟩
  by_cases hvar : var = .keyword "RETURN"
  · -- the keyword is read as a variable, and the list behind it has another one
    subst hvar
    rw [List.cons_append, dotsInPlace_return, List.all_eq_true] at hall
    cases hall (.keyword "RETURN") (List.mem_append_right [.dot, .ident field, opToken op, tok] hreturn)
  · rw [dotsInPlace_condition hvalue hvar, Bool.and_eq_true, Bool.and_eq_true] at hall
    refine ⟨?_, tok, hall.2.2⟩
    cases var with
    | ident var => exact .mk hvalue
    | _ => cases hall.2.1

theorem headerExpr_of_chain {weights : Bool} {ts list : List Token} {cs : List Condition}
    (h : Chain (Clause weights) (isKeyword "AND") ts cs) {prev : Token}
    (hall : dotsInPlace prev (ts ++ .keyword "RETURN" :: list) = true) :
    HeaderExpr ts ∧ list.all (fun tok => !tok.isKeyword) = true := by
  induction h generalizing prev with
  | last h =>
    obtain ⟨hts, _, hall⟩ := headerCondition_of_clause h List.mem_cons_self hall
    exact ⟨.one hts, hall⟩
  | and h ht _ ih =>
    rw [List.append_assoc, List.cons_append] at hall
    obtain ⟨hts, _, hall⟩ := headerCondition_of_clause h (by simp) hall
    cases of_decide_eq_true ht
    obtain ⟨hts', hlist⟩ := ih hall
    exact ⟨.and hts hts', hlist⟩

theorem headerWhere_of_filter {weights : Bool} {ts ts' list : List Token} {cs : List Condition}
    (h : Filter weights ts ts' cs) {prev : Token}
    (hall : dotsInPlace prev (ts ++ .keyword "RETURN" :: list) = true) :
    HeaderWhere ts ∧ list.all (fun tok => !tok.isKeyword) = true := by
  cases h with
  | all => exact ⟨.none, hall⟩
  | chain hts _ =>
    have hdots : dotsInPlace (.keyword "WHERE") (_ ++ .keyword "RETURN" :: list) = true := hall
    obtain ⟨hexpr, hlist⟩ := headerExpr_of_chain hts hdots
    exact ⟨.some hexpr, hlist⟩

theorem header_of_match {pattern ts ts' rest : List Token} {weights : Bool} {cs : List Condition}
    (hpattern : HeaderPattern pattern) (hts : Filter weights ts (ts' ++ rest) cs)
    (hr : Return ts' rest)
    (hall : dotsInPlace (.keyword "MATCH") (pattern ++ (ts ++ ts') ++ rest) = true) :
    Header (.keyword "MATCH" :: (pattern ++ (ts ++ ts') ++ rest)) := by
  cases hr with
  | @mk list _ _ hrest =>
    rw [List.append_assoc, dotsInPlace_pattern hpattern, List.append_assoc, List.cons_append] at hall
    obtain ⟨hwhere, hlist⟩ := headerWhere_of_filter hts hall
    cases eq_nil_of_all hrest hlist
    rw [List.append_nil] at hlist ⊢
    exact .select hpattern hwhere hlist

theorem header_iff_of_command {ts rest : List Token} {cmd : QueryCommand}
    (h : Command ts rest cmd) : Header (ts ++ rest) ↔ nothingIgnored (ts ++ rest) = true := by
  refine ⟨nothingIgnored_of_header, fun hall => ?_⟩
  cases h with
  | select h =>
    cases h with
    | nodes hts hr => exact header_of_match (.node _ _) hts hr hall
    | @edges var label var₁ label₁ var₂ label₂ ts ts' _ cs hts hr =>
      have hassoc : nodePattern var₁ label₁ ++ (relPattern var label ++ (nodePattern var₂ label₂ ++
          (ts ++ ts'))) = nodePattern var₁ label₁ ++ (relPattern var label ++
            nodePattern var₂ label₂) ++ (ts ++ ts') := by
        simp only [List.append_assoc]
      rw [hassoc] at hall ⊢
      exact header_of_match (.edge _ _ _ _ _ _) hts hr hall
  | traverse =>
    cases rest with
    | nil => exact .traverse _ _
    | cons => cases hall
  | path =>
    cases rest with
    | nil => exact .path _ _
    | cons => cases hall
  | countNodes =>
    cases rest with
    | nil => exact .countNodes
    | cons => cases hall
  | countEdges =>
    cases rest with
    | nil => exact .countEdges
    | cons => cases hall

end CypherLite

/-! ## Both languages -/

namespace QueryLanguage

/-- The tokens of the text are a sentence of the grammar at the start of the language's file. -/
def Header (u : Unicode) : QueryLanguage → String → Prop
  | simpleQuery, query => SimpleQuery.Header u (SimpleQuery.tokenize query)
  | cypherLite, query => ∃ toks, CypherLite.lex u query = .ok toks ∧ CypherLite.Header toks

def nothingIgnored (u : Unicode) : QueryLanguage → String → Bool
  | simpleQuery, query => SimpleQuery.nothingIgnored u (SimpleQuery.tokenize query)
  | cypherLite, query =>
    match CypherLite.lex u query with
    | .ok toks => CypherLite.nothingIgnored toks
    | .error _ => false

/-- An accepted text is a sentence of the header's grammar, to its last token, exactly if
its words stand in place. -/
theorem header_iff_nothingIgnored (fmt : CypherLite.DebugFormat) (u : Unicode)
    (lang : QueryLanguage) (query : String) (cmd : QueryCommand)
    (h : lang.parse fmt u query = .ok cmd) :
    lang.Header u query ↔ lang.nothingIgnored u query = true := by
  cases lang with
  | simpleQuery =>
    obtain ⟨t, ts, rest, verb, htokens, ht, hcmd⟩ := (SimpleQuery.parse_eq_ok u query cmd).mp h
    rw [Header, nothingIgnored, htokens]
    exact SimpleQuery.header_iff_of_command ht hcmd
  | cypherLite =>
    obtain ⟨ts, rest, hlex, hcmd⟩ := (CypherLite.parse_eq_ok fmt u query cmd).mp h
    rw [Header, nothingIgnored, hlex]
    constructor
    · rintro ⟨toks, heq, htoks⟩
      cases heq
      exact CypherLite.nothingIgnored_of_header htoks
    · exact fun hall => ⟨_, rfl, (CypherLite.header_iff_of_command hcmd).mpr hall⟩

theorem whereChain_header : simpleQuery.Header .plain
    "MATCH EDGE WHERE label = \"RAIL\" AND weight < 5 AND props.lanes != 2" :=
  (header_iff_nothingIgnored ⟨id, fun _ => "5.0"⟩ .plain simpleQuery _
    (.matchEdges ⟨some "RAIL", some ⟨.lt, ⟨0x4014000000000000⟩⟩, [⟨"lanes", .notEq, .integer 2⟩]⟩)
    (by decide +kernel)).mpr (by decide +kernel)

/-- A third word behind `COUNT NODES` is ignored. -/
theorem countNodes_ignores :
    ¬ ∀ (fmt : CypherLite.DebugFormat) (u : Unicode) (lang : QueryLanguage) (query : String)
      (cmd : QueryCommand), lang.parse fmt u query = .ok cmd → lang.Header u query := by
  intro h
  have hheader := h ⟨id, fun _ => "0.0"⟩ .plain simpleQuery "COUNT NODES of London" .countNodes
    (by decide +kernel)
  exact absurd (SimpleQuery.nothingIgnored_of_header hheader) (by decide +kernel)

end QueryLanguage

end AdGraphDb
