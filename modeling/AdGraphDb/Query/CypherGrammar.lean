import AdGraphDb.Query.CypherLite

/-!
# What the CypherLite parser reads

The exact language of every method of the parser, over tokens.
-/

namespace AdGraphDb
namespace CypherLite
open Parsing

variable (fmt : DebugFormat)

/-! ## Single tokens -/

theorem reads_expectKeyword (kw : String) :
    Reads (expectKeyword fmt kw) fun ts _ _ => ts = [.keyword kw] := by
  have hread : Reads (expectKeyword fmt kw) fun ts _ _ => ∃ tok, ts = [tok] ∧ tok = .keyword kw :=
    Reads.nextIf _ _ fun _ => nofun
  exact hread.congr fun _ _ _ => exists_eq_right

/-- Tokens without a number are equal for `==` only to themselves. -/
theorem Token.same_iff {t : Token} (ht : ∀ f, t ≠ .floatLit f) (tok : Token) :
    tok.same t = true ↔ tok = t := by
  unfold Token.same
  split
  · next f => exact absurd rfl (ht f)
  · exact decide_eq_true_iff

theorem reads_expectToken {t : Token} (ht : ∀ f, t ≠ .floatLit f) :
    Reads (expectToken fmt t) fun ts _ _ => ts = [t] := by
  have hread : Reads (expectToken fmt t) fun ts _ _ => ∃ tok, ts = [tok] ∧ tok.same t = true :=
    Reads.nextIf _ _ fun _ => nofun
  simp only [Token.same_iff ht] at hread
  exact hread.congr fun _ _ _ => exists_eq_right

theorem reads_expectDash : Reads (expectDash fmt) fun ts _ _ => ts = [.dash] := by
  have hread : Reads (expectDash fmt) fun ts _ _ => ∃ tok, ts = [tok] ∧ tok = .dash :=
    Reads.nextIf _ _ fun _ => nofun
  exact hread.congr fun _ _ _ => exists_eq_right

/-- The token of an operator. -/
def opToken : ComparisonOp → Token
  | .eq => .eq
  | .notEq => .notEq
  | .lt => .lt
  | .ltEq => .ltEq
  | .gt => .gt
  | .gtEq => .gtEq

theorem comparisonOp_eq_ok {t : Token} {op : ComparisonOp} :
    comparisonOp fmt t = .ok op ↔ t = opToken op := by
  constructor
  · unfold comparisonOp
    split <;> intro h <;> cases h <;> rfl
  · rintro rfl
    cases op <;> rfl

/-- The token of a value. There is no literal for null. -/
def valueToken : Value → Option Token
  | .null => none
  | .text s => some (.stringLit s)
  | .integer i => some (.intLit i)
  | .float f => some (.floatLit f)
  | .boolean b => some (.boolLit b)

theorem valueLit_eq_ok {t : Token} {v : Value} :
    valueLit fmt t = .ok v ↔ valueToken v = some t := by
  constructor
  · unfold valueLit
    split <;> intro h <;> cases h <;> rfl
  · cases v <;> intro h <;> cases h <;> rfl

theorem reads_parseNodeRef :
    Reads (parseNodeRef fmt) fun ts _ id => ts = [.nodeRef id.val] := by
  apply (Reads.nextBy _ _).congr
  intro ts _ id
  constructor
  · rintro ⟨tok, rfl, h⟩
    split at h <;> cases h
    rfl
  · rintro rfl
    exact ⟨_, rfl, rfl⟩

theorem reads_consumeIdent : Reads (consumeIdent fmt) fun ts _ s => ts = [.ident s] := by
  apply (Reads.nextBy _ _).congr
  intro ts _ s
  constructor
  · rintro ⟨tok, rfl, h⟩
    split at h <;> cases h
    rfl
  · rintro rfl
    exact ⟨_, rfl, rfl⟩

/-! ## Patterns -/

/-- `[var]`. -/
def varTokens (var : Option String) : List Token := var.toList.map .ident

/-- `[":" label]`. -/
def labelTokens : Option String → List Token
  | none => []
  | some l => [.colon, .ident l]

theorem reads_optionalIdent :
    Reads optionalIdent fun ts rest var => ts = varTokens var ∧
      (var = none → rest.head?.any Token.isIdent = false) := by
  refine (Reads.ifNext (L := fun t ts _ var => ts = [] ∧ ∃ name, t = .ident name ∧ var = some name)
    (fun t ht => ?_) (Reads.return none)).congr ?_
  · cases t with
    | ident name =>
      apply (Reads.return (some name)).congr
      intro ts _ var
      constructor
      · rintro ⟨hts, rfl⟩
        exact ⟨hts, name, rfl, rfl⟩
      · rintro ⟨hts, _, h, rfl⟩
        cases h
        exact ⟨hts, rfl⟩
    | _ => cases ht
  · intro ts rest var
    constructor
    · rintro (⟨_, _, rfl, _, rfl, name, rfl, rfl⟩ | ⟨h, rfl, rfl⟩)
      · exact ⟨rfl, fun h => by cases h⟩
      · exact ⟨rfl, fun _ => h⟩
    · rintro ⟨rfl, h⟩
      cases var with
      | none => exact .inr ⟨h rfl, rfl, rfl⟩
      | some name => exact .inl ⟨_, _, rfl, rfl, rfl, name, rfl, rfl⟩

theorem reads_optionalLabel (msg : String) :
    Reads (optionalLabel msg) fun ts rest label => ts = labelTokens label ∧
      (label = none → rest.head?.any (fun tok => decide (tok = .colon)) = false) := by
  apply (Reads.ifNext (fun _ _ => Reads.nextBy _ _) (Reads.return none)).congr
  intro ts rest label
  constructor
  · rintro (⟨t, _, rfl, ht, tok, rfl, h⟩ | ⟨h, rfl, rfl⟩)
    · rw [of_decide_eq_true ht]
      split at h <;> cases h
      exact ⟨rfl, fun h => by cases h⟩
    · exact ⟨rfl, fun _ => h⟩
  · rintro ⟨rfl, h⟩
    cases label with
    | none => exact .inr ⟨h rfl, rfl, rfl⟩
    | some l => exact .inl ⟨_, _, rfl, rfl, _, rfl, rfl⟩

/-- `"(" [var] [":" label] ")"`. -/
def nodePattern (var label : Option String) : List Token :=
  .lParen :: (varTokens var ++ (labelTokens label ++ [.rParen]))

theorem reads_parseNodePattern :
    Reads (parseNodePattern fmt) fun ts _ v => ts = nodePattern v.1 v.2 := by
  apply ((reads_expectToken fmt (t := .lParen) (fun _ h => by cases h)).bind fun _ =>
    reads_optionalIdent.bind fun var => (reads_optionalLabel _).bind fun label =>
    (reads_expectToken fmt (t := .rParen) (fun _ h => by cases h)).map fun _ => (var, label)).congr
  rintro ts rest ⟨var, label⟩
  constructor
  · rintro ⟨_, _, _, rfl, rfl, _, _, _, rfl, ⟨rfl, _⟩, _, _, _, rfl, ⟨rfl, _⟩, _, rfl, h⟩
    cases h
    rfl
  · rintro rfl
    refine ⟨[_], _, (), rfl, rfl, _, _, var, rfl, ⟨rfl, ?_⟩, _, _, label, rfl, ⟨rfl, ?_⟩, (), rfl, rfl⟩
    · rintro rfl
      cases label <;> rfl
    · rintro rfl
      rfl

/-- Before the bracket that closes it. -/
theorem reads_parseRelPattern :
    Reads parseRelPattern fun ts rest label => ∃ var, ts = varTokens var ++ labelTokens label ∧
      (label = none → rest.head?.any (fun tok => decide (tok = .colon)) = false) ∧
      (var = none → (labelTokens label ++ rest).head?.any Token.isIdent = false) := by
  apply (reads_optionalIdent.bind fun _ => reads_optionalLabel _).congr
  intro ts rest label
  constructor
  · rintro ⟨_, _, var, rfl, ⟨rfl, hvar⟩, rfl, hlabel⟩
    exact ⟨var, rfl, hlabel, hvar⟩
  · rintro ⟨var, rfl, hlabel, hvar⟩
    exact ⟨_, _, var, rfl, ⟨rfl, hvar⟩, rfl, hlabel⟩

/-! ## Conditions -/

/-- `var "." field op value`; the variable may be any token. -/
inductive Clause (weights : Bool) : List Token → Condition → Prop where
  | property {var tok : Token} {field : String} {op : ComparisonOp} {value : Value}
      (hfield : (weights && eqIgnoreAsciiCase field "weight") = false)
      (hvalue : valueToken value = some tok) :
      Clause weights [var, .dot, .ident field, opToken op, tok] (.property ⟨field, op, value⟩)
  | weight {var tok : Token} {field : String} {op : ComparisonOp} {value : Value} {w : F64}
      (hfield : (weights && eqIgnoreAsciiCase field "weight") = true)
      (hvalue : valueToken value = some tok) (hw : weightOf value = .ok w) :
      Clause weights [var, .dot, .ident field, opToken op, tok] (.weight ⟨op, w⟩)

theorem variableName_ok (t : Token) : ∃ s, variableName t = .ok s := by
  cases t <;> exact ⟨_, rfl⟩

theorem reads_whereCondition (weights : Bool) :
    Reads (whereCondition fmt weights) fun ts _ c => Clause weights ts c := by
  apply ((Reads.nextBy _ variableName).bind fun _ =>
    (reads_expectToken fmt (t := .dot) (fun _ h => by cases h)).bind fun _ =>
    (reads_consumeIdent fmt).bind fun field => Reads.bind_nextBy fun op =>
    Reads.bind_nextBy fun value => Reads.ite
      (Reads.bind_tryRead fun w => Reads.return (Condition.weight ⟨op, w⟩))
      (Reads.return (Condition.property ⟨field, op, value⟩))).congr
  intro ts _ c
  constructor
  · rintro ⟨_, _, _, rfl, ⟨v, rfl, _⟩, _, _, _, rfl, rfl, _, _, field, rfl, rfl, _, _, op, rfl, hop,
      tok, _, value, rfl, hvalue, hc⟩
    rw [comparisonOp_eq_ok] at hop
    rw [valueLit_eq_ok] at hvalue
    subst hop
    rcases hc with ⟨hfield, w, hw, rfl, rfl⟩ | ⟨hfield, rfl, rfl⟩
    · exact .weight hfield hvalue hw
    · exact .property (Bool.eq_false_iff.mpr hfield) hvalue
  · intro h
    cases h with
    | @property var tok field op value hfield hvalue =>
      obtain ⟨s, hs⟩ := variableName_ok var
      exact ⟨[_], _, s, rfl, ⟨_, rfl, hs⟩, [_], _, (), rfl, rfl, [_], _, field, rfl, rfl, _, _, op,
        rfl, (comparisonOp_eq_ok fmt).mpr rfl, tok, _, value, rfl, (valueLit_eq_ok fmt).mpr hvalue,
        .inr ⟨Bool.eq_false_iff.mp hfield, rfl, rfl⟩⟩
    | @weight var tok field op value w hfield hvalue hw =>
      obtain ⟨s, hs⟩ := variableName_ok var
      exact ⟨[_], _, s, rfl, ⟨_, rfl, hs⟩, [_], _, (), rfl, rfl, [_], _, field, rfl, rfl, _, _, op,
        rfl, (comparisonOp_eq_ok fmt).mpr rfl, tok, _, value, rfl, (valueLit_eq_ok fmt).mpr hvalue,
        .inl ⟨hfield, w, hw, rfl, rfl⟩⟩

/-! ## Filters -/

/-- An optional `WHERE` with its conditions. -/
inductive Filter (weights : Bool) : List Token → List Token → List Condition → Prop where
  | all {rest : List Token} (hrest : rest.head?.any (isKeyword "WHERE") = false) :
      Filter weights [] rest []
  | chain {ts rest : List Token} {cs : List Condition}
      (hts : Chain (Clause weights) (isKeyword "AND") ts cs)
      (hrest : rest.head?.any (isKeyword "AND") = false) :
      Filter weights (.keyword "WHERE" :: ts) rest cs

theorem reads_filter {F : Type} {weights : Bool} (store : F → Condition → F) (filter : F) :
    Reads (do
        if ← Action.read (nextIs (isKeyword "WHERE")) then
          let _ ← next
          chain (fun f => do return store f (← whereCondition fmt weights)) (isKeyword "AND") filter
        else return filter) fun ts rest f =>
      ∃ cs, Filter weights ts rest cs ∧ f = cs.foldl store filter := by
  have hne : ∀ c, ¬ Clause weights [] c := fun c h => by cases h
  apply (Reads.ifNext (fun _ _ => Reads.chain hne
    (fun f => (reads_whereCondition fmt weights).map (store f)) filter)
    (Reads.return filter)).congr
  intro ts rest f
  constructor
  · rintro (⟨t, ts, rfl, ht, hend, cs, hcs, rfl⟩ | ⟨hend, rfl, rfl⟩)
    · rw [of_decide_eq_true ht]
      exact ⟨cs, .chain hcs hend, rfl⟩
    · exact ⟨[], .all hend, rfl⟩
  · rintro ⟨cs, h, rfl⟩
    cases h with
    | all hrest => exact .inr ⟨hrest, rfl, rfl⟩
    | chain hts hrest =>
      exact .inl ⟨_, _, rfl, decide_eq_true rfl, hrest, cs, hts, rfl⟩

/-! ## Commands -/

/-- `"RETURN" return_list`, in front of a keyword or the end of the input. -/
inductive Return : List Token → List Token → Prop where
  | mk {ts rest : List Token} (hts : ts.all (fun tok => !tok.isKeyword) = true)
      (hrest : rest.head?.any (fun tok => !tok.isKeyword) = false) :
      Return (.keyword "RETURN" :: ts) rest

theorem reads_return {α : Type} (v : α) :
    Reads (do
      expectKeyword fmt "RETURN"
      skipReturnList
      return v) fun ts rest w => Return ts rest ∧ w = v := by
  apply ((reads_expectKeyword fmt "RETURN").bind fun _ => (Reads.skipWhile _).map fun _ => v).congr
  intro ts rest w
  constructor
  · rintro ⟨_, ts, _, rfl, rfl, _, ⟨hts, hrest⟩, rfl⟩
    exact ⟨.mk hts hrest, rfl⟩
  · rintro ⟨⟨hts, hrest⟩, rfl⟩
    exact ⟨[_], _, (), rfl, rfl, (), ⟨hts, hrest⟩, rfl⟩

theorem reads_parseNodeMatch :
    Reads (parseNodeMatch fmt) fun ts rest cmd =>
      ∃ var label ts₁ ts₂ cs, ts = nodePattern var label ++ (ts₁ ++ ts₂) ∧
        Filter false ts₁ (ts₂ ++ rest) cs ∧ Return ts₂ rest ∧
        cmd = .matchNodes (cs.foldl NodeFilter.store ⟨label, []⟩) := by
  apply ((reads_parseNodePattern fmt).bind fun v =>
    (reads_filter fmt NodeFilter.store ⟨v.2, []⟩).bind fun filter =>
    reads_return fmt (QueryCommand.matchNodes filter)).congr
  intro ts rest cmd
  constructor
  · rintro ⟨_, _, ⟨var, label⟩, rfl, rfl, ts₁, ts₂, _, rfl, ⟨cs, hcs, rfl⟩, hr, rfl⟩
    exact ⟨var, label, ts₁, ts₂, cs, rfl, hcs, hr, rfl⟩
  · rintro ⟨var, label, ts₁, ts₂, cs, rfl, hcs, hr, rfl⟩
    exact ⟨_, _, (var, label), rfl, rfl, ts₁, ts₂, _, rfl, ⟨cs, hcs, rfl⟩, hr, rfl⟩

/-- `"-[" [var] [":" label] "]->"`. -/
def relPattern (var label : Option String) : List Token :=
  .dash :: .lBracket :: (varTokens var ++ (labelTokens label ++ [.rBracket, .arrow]))

theorem reads_punct {t : Token} (ht : t = .lBracket ∨ t = .rBracket ∨ t = .arrow) :
    Reads (expectToken fmt t) fun ts _ _ => ts = [t] := by
  apply reads_expectToken
  rcases ht with rfl | rfl | rfl <;> intro f h <;> cases h

theorem relPattern_append (var label : Option String) (toks : List Token) :
    relPattern var label ++ toks = .dash :: .lBracket ::
      (varTokens var ++ labelTokens label ++ .rBracket :: .arrow :: toks) := by
  simp only [relPattern, List.append_assoc, List.cons_append, List.nil_append]

theorem reads_parseRelMatch :
    Reads (parseRelMatch fmt) fun ts rest cmd =>
      ∃ var label var₁ label₁ var₂ label₂ ts₁ ts₂ cs,
        ts = nodePattern var₁ label₁ ++
          (relPattern var label ++ (nodePattern var₂ label₂ ++ (ts₁ ++ ts₂))) ∧
        Filter true ts₁ (ts₂ ++ rest) cs ∧ Return ts₂ rest ∧
        cmd = .matchEdges (cs.foldl EdgeFilter.store ⟨label, none, []⟩) := by
  apply ((reads_parseNodePattern fmt).bind fun _ => (reads_expectDash fmt).bind fun _ =>
    (reads_punct fmt (.inl rfl)).bind fun _ => reads_parseRelPattern.bind fun label =>
    (reads_punct fmt (.inr (.inl rfl))).bind fun _ =>
    (reads_punct fmt (.inr (.inr rfl))).bind fun _ => (reads_parseNodePattern fmt).bind fun _ =>
    (reads_filter fmt EdgeFilter.store ⟨label, none, []⟩).bind fun filter =>
    reads_return fmt (QueryCommand.matchEdges filter)).congr
  intro ts rest cmd
  constructor
  · rintro ⟨_, _, ⟨var₁, label₁⟩, rfl, rfl, _, _, _, rfl, rfl, _, _, _, rfl, rfl, _, _, label, rfl,
      ⟨var, rfl, _, _⟩, _, _, _, rfl, rfl, _, _, _, rfl, rfl, _, _, ⟨var₂, label₂⟩, rfl, rfl, ts₁,
      ts₂, _, rfl, ⟨cs, hcs, rfl⟩, hr, rfl⟩
    refine ⟨var, label, var₁, label₁, var₂, label₂, ts₁, ts₂, cs, ?_, hcs, hr, rfl⟩
    rw [relPattern_append]
    rfl
  · rintro ⟨var, label, var₁, label₁, var₂, label₂, ts₁, ts₂, cs, hts, hcs, hr, rfl⟩
    rw [relPattern_append] at hts
    subst hts
    refine ⟨_, _, (var₁, label₁), rfl, rfl, [_], _, (), rfl, rfl, [_], _, (), rfl, rfl, _, _, label,
      rfl, ⟨var, rfl, ?_, ?_⟩, [_], _, (), rfl, rfl, [_], _, (), rfl, rfl, _, _, (var₂, label₂), rfl,
      rfl, ts₁, ts₂, _, rfl, ⟨cs, hcs, rfl⟩, hr, rfl⟩
    · rintro rfl
      rfl
    · rintro rfl
      cases label <;> rfl

/-! ## Lookahead -/

/-- Behind a node pattern, the scan decides at the next dash or clause. -/
theorem relationshipFrom_nodePattern (var label : Option String) (toks : List Token) :
    relationshipFrom 0 false (nodePattern var label ++ toks) = relationshipFrom 0 true toks := by
  cases var <;> cases label <;> rfl

theorem relationshipFrom_relPattern (var label : Option String) (toks : List Token) :
    relationshipFrom 0 true (relPattern var label ++ toks) = true := rfl

theorem relationshipFrom_clause {weights : Bool} {ts ts' rest : List Token} {cs : List Condition}
    (hts : Filter weights ts (ts' ++ rest) cs) (hr : Return ts' rest) :
    relationshipFrom 0 true (ts ++ (ts' ++ rest)) = false := by
  cases hr with
  | mk h h' =>
    cases hts with
    | all => rfl
    | chain => rfl

theorem reads_ifRelationship {α : Type} {a b : Parsing GraphError Token α}
    {L M : List Token → List Token → α → Prop} (ha : Reads a L) (hb : Reads b M)
    (hl : ∀ rest v, ¬ L [] rest v) (hm : ∀ rest v, ¬ M [] rest v) :
    Reads (do if ← isRelationshipPattern then a else b) fun ts rest v =>
      if relationshipFrom 0 false (ts ++ rest) = true then L ts rest v else M ts rest v := by
  intro p
  by_cases hp : p.pos ≤ p.tokens.length
  · have hrun : (do if ← isRelationshipPattern then a else b : Parsing GraphError Token α) p =
        (if relationshipFrom 0 false p.rest = true then a else b) p :=
      Action.bind_tryRead (if_pos hp)
    have hreads : ReadsAt (if relationshipFrom 0 false p.rest = true then a else b) p
        fun ts rest v =>
          if relationshipFrom 0 false (ts ++ rest) = true then L ts rest v else M ts rest v := by
      split_ifs with h
      · apply (ha p).congr
        intro ts rest v hts
        rw [← hts, if_pos h]
      · apply (hb p).congr
        intro ts rest v hts
        rw [← hts, if_neg h]
    intro v p'
    rw [hrun]
    exact hreads v p'
  · -- behind the last token the slice panics, and neither branch reads nothing
    have hrun : (do if ← isRelationshipPattern then a else b : Parsing GraphError Token α) p =
        (.error .panicked, p) :=
      Action.bind_error (Prod.ext (if_neg hp) rfl)
    intro v p'
    rw [hrun]
    constructor
    · intro h
      cases h
    · rintro ⟨ts, rest, hts, h, _⟩
      have hnil : p.rest = [] := List.drop_eq_nil_of_le (Nat.le_of_not_le hp)
      rw [hnil] at hts
      obtain ⟨rfl, rfl⟩ := List.append_eq_nil_iff.mp hts.symm
      split_ifs at h
      · exact absurd h (hl [] v)
      · exact absurd h (hm [] v)

/-- What follows `MATCH`. -/
inductive Match : List Token → List Token → QueryCommand → Prop where
  | nodes {var label : Option String} {ts ts' rest : List Token} {cs : List Condition}
      (hts : Filter false ts (ts' ++ rest) cs) (hr : Return ts' rest) :
      Match (nodePattern var label ++ (ts ++ ts')) rest
        (.matchNodes (cs.foldl NodeFilter.store ⟨label, []⟩))
  | edges {var label var₁ label₁ var₂ label₂ : Option String} {ts ts' rest : List Token}
      {cs : List Condition} (hts : Filter true ts (ts' ++ rest) cs) (hr : Return ts' rest) :
      Match (nodePattern var₁ label₁ ++
          (relPattern var label ++ (nodePattern var₂ label₂ ++ (ts ++ ts')))) rest
        (.matchEdges (cs.foldl EdgeFilter.store ⟨label, none, []⟩))

theorem reads_parseMatch :
    Reads (parseMatch fmt) fun ts rest cmd =>
      ∃ ts', ts = .keyword "MATCH" :: ts' ∧ Match ts' rest cmd := by
  have hpattern {var label : Option String} {toks : List Token} :
      nodePattern var label ++ toks ≠ [] := fun h => by cases h
  apply ((reads_expectKeyword fmt "MATCH").bind fun _ =>
    reads_ifRelationship (reads_parseRelMatch fmt) (reads_parseNodeMatch fmt) ?_ ?_).congr
  · intro ts rest cmd
    constructor
    · rintro ⟨_, ts', _, rfl, rfl, h⟩
      refine ⟨ts', rfl, ?_⟩
      split_ifs at h with hrel
      · obtain ⟨_, _, _, _, _, _, _, _, _, rfl, hcs, hr, rfl⟩ := h
        exact .edges hcs hr
      · obtain ⟨_, _, _, _, _, rfl, hcs, hr, rfl⟩ := h
        exact .nodes hcs hr
    · rintro ⟨ts', rfl, h⟩
      refine ⟨[_], ts', (), rfl, rfl, ?_⟩
      cases h with
      | nodes hts hr =>
        rw [List.append_assoc, List.append_assoc, relationshipFrom_nodePattern,
          relationshipFrom_clause hts hr, if_neg Bool.false_ne_true]
        exact ⟨_, _, _, _, _, rfl, hts, hr, rfl⟩
      | edges hts hr =>
        rw [List.append_assoc, relationshipFrom_nodePattern, List.append_assoc,
          relationshipFrom_relPattern, if_pos rfl]
        exact ⟨_, _, _, _, _, _, _, _, _, rfl, hts, hr, rfl⟩
  · rintro rest v ⟨_, _, _, _, _, _, _, _, _, h, _⟩
    exact hpattern h.symm
  · rintro rest v ⟨_, _, _, _, _, h, _⟩
    exact hpattern h.symm

/-- A command and the keyword it starts with. -/
inductive Command : List Token → List Token → QueryCommand → Prop where
  | select {ts rest : List Token} {cmd : QueryCommand} (h : Match ts rest cmd) :
      Command (.keyword "MATCH" :: ts) rest cmd
  | traverse {rest : List Token} {kind : TraversalKind} {id : UInt64} :
      Command [.keyword "TRAVERSE", .keyword kind.keyword, .keyword "FROM", .nodeRef id] rest
        (.traverse kind ⟨id⟩)
  | path {rest : List Token} {id id' : UInt64} :
      Command [.keyword "PATH", .keyword "FROM", .nodeRef id, .keyword "TO", .nodeRef id'] rest
        (.shortestPath ⟨id⟩ ⟨id'⟩)
  | countNodes {rest : List Token} :
      Command [.keyword "COUNT", .keyword "NODES"] rest .countNodes
  | countEdges {rest : List Token} :
      Command [.keyword "COUNT", .keyword "EDGES"] rest .countEdges

theorem traversalKind_eq_ok {t : Token} {kind : TraversalKind} :
    traversalKind fmt t = .ok kind ↔ t = .keyword kind.keyword := by
  constructor
  · unfold traversalKind
    split <;> intro h <;> cases h <;> rfl
  · rintro rfl
    cases kind <;> rfl

theorem reads_parseTraverse :
    Reads (parseTraverse fmt) fun ts _ cmd => ∃ kind id, cmd = .traverse kind ⟨id⟩ ∧
      ts = [.keyword "TRAVERSE", .keyword kind.keyword, .keyword "FROM", .nodeRef id] := by
  apply ((reads_expectKeyword fmt "TRAVERSE").bind fun _ => Reads.bind_nextBy fun kind =>
    (reads_expectKeyword fmt "FROM").bind fun _ =>
    (reads_parseNodeRef fmt).map (QueryCommand.traverse kind)).congr
  intro ts rest cmd
  constructor
  · rintro ⟨_, _, _, rfl, rfl, _, _, kind, rfl, hkind, _, _, _, rfl, rfl, ⟨id⟩, rfl, rfl⟩
    rw [(traversalKind_eq_ok fmt).mp hkind]
    exact ⟨kind, id, rfl, rfl⟩
  · rintro ⟨kind, id, rfl, rfl⟩
    exact ⟨[_], _, (), rfl, rfl, _, _, kind, rfl, (traversalKind_eq_ok fmt).mpr rfl, [_], _, (), rfl,
      rfl, ⟨id⟩, rfl, rfl⟩

theorem reads_parsePath :
    Reads (parsePath fmt) fun ts _ cmd => ∃ id id', cmd = .shortestPath ⟨id⟩ ⟨id'⟩ ∧
      ts = [.keyword "PATH", .keyword "FROM", .nodeRef id, .keyword "TO", .nodeRef id'] := by
  apply ((reads_expectKeyword fmt "PATH").bind fun _ => (reads_expectKeyword fmt "FROM").bind fun _ =>
    (reads_parseNodeRef fmt).bind fun start => (reads_expectKeyword fmt "TO").bind fun _ =>
    (reads_parseNodeRef fmt).map (QueryCommand.shortestPath start)).congr
  intro ts rest cmd
  constructor
  · rintro ⟨_, _, _, rfl, rfl, _, _, _, rfl, rfl, _, _, ⟨id⟩, rfl, rfl, _, _, _, rfl, rfl, ⟨id'⟩, rfl,
      rfl⟩
    exact ⟨id, id', rfl, rfl⟩
  · rintro ⟨id, id', rfl, rfl⟩
    exact ⟨[_], _, (), rfl, rfl, [_], _, (), rfl, rfl, [_], _, ⟨id⟩, rfl, rfl, [_], _, (), rfl, rfl,
      ⟨id'⟩, rfl, rfl⟩

theorem reads_parseCount :
    Reads (parseCount fmt) fun ts _ cmd =>
      (ts = [.keyword "COUNT", .keyword "NODES"] ∧ cmd = .countNodes) ∨
        (ts = [.keyword "COUNT", .keyword "EDGES"] ∧ cmd = .countEdges) := by
  apply ((reads_expectKeyword fmt "COUNT").bind fun _ => Reads.nextBy _ (countKind fmt)).congr
  intro ts rest cmd
  constructor
  · rintro ⟨_, _, _, rfl, rfl, t, rfl, h⟩
    unfold countKind at h
    split at h <;> cases h
    · exact .inl ⟨rfl, rfl⟩
    · exact .inr ⟨rfl, rfl⟩
  · rintro (⟨rfl, rfl⟩ | ⟨rfl, rfl⟩)
    · exact ⟨[_], _, (), rfl, rfl, _, rfl, rfl⟩
    · exact ⟨[_], _, (), rfl, rfl, _, rfl, rfl⟩

section Verbs

variable {ts rest : List Token} {cmd : QueryCommand} {tok : Option Token}

/-- A command shows its first token to the parser. -/
theorem Command.head_eq {p : Parser Token} (h : Command ts rest cmd)
    (htok : p.rest.head? = tok) (hp : p.rest = ts ++ rest) : ts.head? = tok := by
  rw [← htok, hp]
  cases h <;> rfl

/-- The branch that the first token selects needs to read only the commands it starts. -/
theorem readsAt_command {a : Parsing GraphError Token QueryCommand} {p : Parser Token}
    {M : List Token → List Token → QueryCommand → Prop} (htok : p.rest.head? = tok)
    (ha : ReadsAt a p M)
    (hM : ∀ ts rest cmd, M ts rest cmd ↔ Command ts rest cmd ∧ ts.head? = tok) :
    ReadsAt a p Command := by
  apply ha.congr
  intro ts rest cmd hp
  rw [hM, and_iff_left_of_imp]
  exact fun h => h.head_eq htok hp

theorem match_iff : (∃ ts', ts = .keyword "MATCH" :: ts' ∧ Match ts' rest cmd) ↔
    Command ts rest cmd ∧ ts.head? = some (.keyword "MATCH") := by
  constructor
  · rintro ⟨ts', rfl, h⟩
    exact ⟨.select h, rfl⟩
  · rintro ⟨h, hhead⟩
    cases h with
    | select h => exact ⟨_, rfl, h⟩
    | _ => simp at hhead

theorem traverse_iff : (∃ (kind : TraversalKind) (id : UInt64), cmd = .traverse kind ⟨id⟩ ∧
    ts = [.keyword "TRAVERSE", .keyword kind.keyword, .keyword "FROM", .nodeRef id]) ↔
      Command ts rest cmd ∧ ts.head? = some (.keyword "TRAVERSE") := by
  constructor
  · rintro ⟨kind, id, rfl, rfl⟩
    exact ⟨.traverse, rfl⟩
  · rintro ⟨h, hhead⟩
    cases h with
    | traverse => exact ⟨_, _, rfl, rfl⟩
    | _ => simp at hhead

theorem path_iff : (∃ id id' : UInt64, cmd = .shortestPath ⟨id⟩ ⟨id'⟩ ∧
    ts = [.keyword "PATH", .keyword "FROM", .nodeRef id, .keyword "TO", .nodeRef id']) ↔
      Command ts rest cmd ∧ ts.head? = some (.keyword "PATH") := by
  constructor
  · rintro ⟨id, id', rfl, rfl⟩
    exact ⟨.path, rfl⟩
  · rintro ⟨h, hhead⟩
    cases h with
    | path => exact ⟨_, _, rfl, rfl⟩
    | _ => simp at hhead

theorem count_iff : ((ts = [.keyword "COUNT", .keyword "NODES"] ∧ cmd = .countNodes) ∨
    (ts = [.keyword "COUNT", .keyword "EDGES"] ∧ cmd = .countEdges)) ↔
      Command ts rest cmd ∧ ts.head? = some (.keyword "COUNT") := by
  constructor
  · rintro (⟨rfl, rfl⟩ | ⟨rfl, rfl⟩)
    · exact ⟨.countNodes, rfl⟩
    · exact ⟨.countEdges, rfl⟩
  · rintro ⟨h, hhead⟩
    cases h with
    | countNodes => exact .inl ⟨rfl, rfl⟩
    | countEdges => exact .inr ⟨rfl, rfl⟩
    | _ => simp at hhead

end Verbs

theorem reads_parseCommand : Reads (parseCommand fmt) Command := by
  intro p
  apply ReadsAt.bind_read
  rw [Parser.peek_eq]
  split
  · next htok => exact readsAt_command htok (reads_parseMatch fmt p) fun _ _ _ => match_iff
  · next htok => exact readsAt_command htok (reads_parseTraverse fmt p) fun _ _ _ => traverse_iff
  · next htok => exact readsAt_command htok (reads_parsePath fmt p) fun _ _ _ => path_iff
  · next htok => exact readsAt_command htok (reads_parseCount fmt p) fun _ _ _ => count_iff
  -- no command starts with another token, or with none
  · next hmatch htraverse hpath hcount htok =>
    refine readsAt_command htok (Reads.fail _ p) fun ts rest cmd => ⟨False.elim, ?_⟩
    rintro ⟨h, hhead⟩
    cases h with
    | select => exact hmatch (Option.some.inj hhead).symm
    | traverse => exact htraverse (Option.some.inj hhead).symm
    | path => exact hpath (Option.some.inj hhead).symm
    | _ => exact hcount (Option.some.inj hhead).symm
  · next htok =>
    refine readsAt_command htok (Reads.fail _ p) fun ts rest cmd => ⟨False.elim, ?_⟩
    rintro ⟨h, hhead⟩
    cases h <;> cases hhead

/-- A query is accepted exactly if its text can be split into tokens and a command stands
at their start. -/
theorem parse_eq_ok (u : Unicode) (query : String) (cmd : QueryCommand) :
    parse fmt u query = .ok cmd ↔
      ∃ ts rest, lex u query = .ok (ts ++ rest) ∧ Command ts rest cmd := by
  have hrun := (reads_parseCommand fmt).run
  unfold parse
  constructor
  · intro h
    split at h
    · next toks hlex =>
      obtain ⟨ts, rest, rfl, hc⟩ := (hrun toks cmd).mp h
      exact ⟨ts, rest, hlex, hc⟩
    · obtain ⟨ts, rest, hnil, hc⟩ := (hrun [] cmd).mp h
      obtain ⟨rfl, rfl⟩ := List.append_eq_nil_iff.mp hnil.symm
      cases hc
    · cases h
  · rintro ⟨ts, rest, hlex, hc⟩
    rw [hlex]
    exact (hrun (ts ++ rest) cmd).mpr ⟨ts, rest, rfl, hc⟩

end CypherLite
end AdGraphDb
