import AdGraphDb.Query.CypherGrammar
import AdGraphDb.Query.Lexemes

/-!
# Panics of CypherLite

The parser never panics, and the lexer only at a word `N<digits>` that is no `u64`.
-/

namespace AdGraphDb
namespace CypherLite
open Parsing

variable (fmt : DebugFormat)

/-! ## The parser -/

theorem returns_reject {α : Type} (msg : String) :
    Returns (reject msg : Except (Stop GraphError) α) := returns_error _

theorem safe_expectKeyword (kw : String) : Safe (expectKeyword fmt kw) := by
  apply Safe.nextBy
  intro t
  split_ifs
  · exact returns_ok ()
  · exact returns_reject _

theorem safe_expectToken (expected : Token) : Safe (expectToken fmt expected) := by
  apply Safe.nextBy
  intro t
  split_ifs
  · exact returns_ok ()
  · exact returns_reject _

theorem safe_expectDash : Safe (expectDash fmt) := by
  apply Safe.nextBy
  intro t
  split_ifs
  · exact returns_ok ()
  · exact returns_reject _

theorem safe_parseOp : Safe (parseOp fmt) := by
  apply Safe.nextBy
  intro t
  unfold comparisonOp
  split <;> first | exact returns_ok _ | exact returns_reject _

theorem safe_parseValueLit : Safe (parseValueLit fmt) := by
  apply Safe.nextBy
  intro t
  unfold valueLit
  split <;> first | exact returns_ok _ | exact returns_reject _

theorem safe_parseNodeRef : Safe (parseNodeRef fmt) := by
  apply Safe.nextBy
  intro t
  split <;> first | exact returns_ok _ | exact returns_reject _

theorem safe_consumeIdent : Safe (consumeIdent fmt) := by
  apply Safe.nextBy
  intro t
  split <;> first | exact returns_ok _ | exact returns_reject _

theorem safe_consumeIdentOrAny : Safe consumeIdentOrAny := by
  apply Safe.nextBy
  intro t
  obtain ⟨s, hs⟩ := variableName_ok t
  rw [hs]
  exact returns_ok s

theorem safe_optionalIdent : Safe optionalIdent := by
  apply (Safe.read _).bind
  intro b
  split_ifs
  · apply Safe.next.bind
    intro t
    split <;> exact Safe.return _
  · exact Safe.return none

theorem safe_optionalLabel (msg : String) : Safe (optionalLabel msg) := by
  apply (Safe.read _).bind
  intro b
  split_ifs
  · refine Safe.next.bind fun _ => Safe.nextBy _ fun t => ?_
    split <;> first | exact returns_ok _ | exact returns_reject _
  · exact Safe.return none

theorem safe_parseNodePattern : Safe (parseNodePattern fmt) :=
  (safe_expectToken fmt .lParen).bind fun _ => safe_optionalIdent.bind fun var =>
    (safe_optionalLabel _).bind fun label => (safe_expectToken fmt .rParen).map fun _ => (var, label)

theorem safe_parseRelPattern : Safe parseRelPattern :=
  safe_optionalIdent.bind fun _ => safe_optionalLabel _

theorem returns_weightOf (value : Value) : Returns (weightOf value) := by
  cases value <;> first | exact returns_ok _ | exact returns_reject _

theorem safe_whereCondition (weights : Bool) : Safe (whereCondition fmt weights) := by
  refine safe_consumeIdentOrAny.bind fun _ => (safe_expectToken fmt .dot).bind fun _ =>
    (safe_consumeIdent fmt).bind fun field => (safe_parseOp fmt).bind fun op =>
    (safe_parseValueLit fmt).bind fun value => ?_
  exact ((Safe.tryRead (returns_weightOf value)).map fun w => Condition.weight ⟨op, w⟩).ite
    (Safe.return _)

theorem safe_filter {F : Type} (weights : Bool) (store : F → Condition → F) (filter : F) :
    Safe (do
      if ← Action.read (nextIs (isKeyword "WHERE")) then
        let _ ← next
        chain (fun f => do return store f (← whereCondition fmt weights)) (isKeyword "AND") filter
      else return filter : Parsing GraphError Token F) := by
  have hchain : Safe (chain (fun f => do return store f (← whereCondition fmt weights))
      (isKeyword "AND") filter) := by
    refine Safe.chain (fun f => (safe_whereCondition fmt weights).map (store f))
      (fun f => (reads_whereCondition fmt weights).map (store f)) ?_ filter
    rintro f rest _ ⟨c, hc, _⟩
    cases hc
  exact (Safe.read _).bind fun b => (Safe.next.bind fun _ => hchain).ite (Safe.return filter)

theorem safe_return (cmd : QueryCommand) :
    Safe (do
      expectKeyword fmt "RETURN"
      skipReturnList
      return cmd) :=
  (safe_expectKeyword fmt "RETURN").bind fun _ => (Safe.skipWhile _).map fun _ => cmd

theorem safe_parseNodeMatch : Safe (parseNodeMatch fmt) :=
  (safe_parseNodePattern fmt).bind fun _ => (safe_filter fmt false _ _).bind fun filter =>
    safe_return fmt (.matchNodes filter)

theorem safe_parseRelMatch : Safe (parseRelMatch fmt) :=
  (safe_parseNodePattern fmt).bind fun _ => (safe_expectDash fmt).bind fun _ =>
    (safe_expectToken fmt .lBracket).bind fun _ => safe_parseRelPattern.bind fun _ =>
    (safe_expectToken fmt .rBracket).bind fun _ => (safe_expectToken fmt .arrow).bind fun _ =>
    (safe_parseNodePattern fmt).bind fun _ => (safe_filter fmt true _ _).bind fun filter =>
    safe_return fmt (.matchEdges filter)

/-- The slice behind `MATCH` starts within the tokens, since a token was read. -/
theorem safe_parseMatch : Safe (parseMatch fmt) := by
  intro p
  refine (safe_expectKeyword fmt "MATCH" p).bind fun _ q hq => ?_
  obtain ⟨_, rest, hp, rfl, rfl⟩ := (reads_expectKeyword fmt "MATCH" p _ q).mp hq
  have hlt : p.pos < p.tokens.length := by
    by_contra h
    rw [Parser.rest, List.drop_eq_nil_of_le (Nat.le_of_not_lt h)] at hp
    cases hp
  have hpos : p.pos + 1 ≤ p.tokens.length := hlt
  refine SafeAt.bind (a := isRelationshipPattern) (p := p.advance 1) ?_ fun b q _ => ?_
  · have hrun : (isRelationshipPattern (p.advance 1)).1 =
        .ok (relationshipFrom 0 false (p.advance 1).rest) := if_pos hpos
    rw [SafeAt, hrun]
    exact returns_ok _
  · exact (safe_parseRelMatch fmt).ite (safe_parseNodeMatch fmt) q

theorem safe_parseCommand : Safe (parseCommand fmt) := by
  apply (Safe.read _).bind
  intro t
  split
  · exact safe_parseMatch fmt
  · refine (safe_expectKeyword fmt "TRAVERSE").bind fun _ => (Safe.nextBy _ fun t => ?_).bind
      fun kind => (safe_expectKeyword fmt "FROM").bind fun _ => (safe_parseNodeRef fmt).map _
    unfold traversalKind
    split <;> first | exact returns_ok _ | exact returns_reject _
  · exact (safe_expectKeyword fmt "PATH").bind fun _ => (safe_expectKeyword fmt "FROM").bind fun _ =>
      (safe_parseNodeRef fmt).bind fun _ => (safe_expectKeyword fmt "TO").bind fun _ =>
      (safe_parseNodeRef fmt).map _
  · refine (safe_expectKeyword fmt "COUNT").bind fun _ => Safe.nextBy _ fun t => ?_
    unfold countKind
    split <;> first | exact returns_ok _ | exact returns_reject _
  · exact Safe.fail _
  · exact Safe.fail _

/-! ## Queries -/

theorem returns_parse_iff (u : Unicode) (query : String) :
    Returns (parse fmt u query) ↔ ¬ HasOversized u query.toList := by
  have hrun (toks : List Token) : Returns (parseCommand fmt ⟨toks, 0⟩).1 :=
    safe_parseCommand fmt ⟨toks, 0⟩
  rw [← lex_eq_panicked, parse]
  rcases lex_cases u query with ⟨toks, _, h⟩ | ⟨_, h⟩ | ⟨e, h⟩ <;> rw [h]
  · exact ⟨fun _ h => (by cases h), fun _ => hrun toks⟩
  · refine ⟨fun h => ?_, fun h => absurd rfl h⟩
    obtain ⟨e, he⟩ := h _ rfl
    cases he
  · exact ⟨fun _ h => (by cases h), fun _ => hrun []⟩

theorem returns_parseOnly_iff (u : Unicode) (query : String) :
    Returns (parseOnly fmt u query) ↔ ¬ HasOversized u query.toList := by
  rw [← lex_eq_panicked, parseOnly]
  rcases lex_cases u query with ⟨toks, _, h⟩ | ⟨_, h⟩ | ⟨e, h⟩ <;> rw [h]
  · exact ⟨fun _ h => (by cases h), fun _ => safe_parseCommand fmt ⟨toks, 0⟩⟩
  · refine ⟨fun h => ?_, fun h => absurd rfl h⟩
    obtain ⟨e, he⟩ := h _ rfl
    cases he
  · exact ⟨fun _ h => (by cases h), fun _ => returns_error e⟩

/-- A query text is answered with a command or an error, on both ways into the parser,
exactly if the lexer meets no word `N<digits>` from `2 ^ 64` on. -/
theorem query_returns_iff (u : Unicode) (query : String) :
    Returns (parse fmt u query) ∧ Returns (parseOnly fmt u query) ↔
      ¬ HasOversized u query.toList := by
  rw [returns_parse_iff, returns_parseOnly_iff, and_self]

/-- A reference of twenty digits. -/
theorem parse_panics :
    ¬ ∀ (fmt : DebugFormat) (u : Unicode) (query : String),
      Returns (parse fmt u query) ∧ Returns (parseOnly fmt u query) := by
  intro h
  have hpanic : parse ⟨id, fun _ => "0.0"⟩ .plain "COUNT N18446744073709551616" =
      .error .panicked := by decide +kernel
  obtain ⟨e, he⟩ := (h ⟨id, fun _ => "0.0"⟩ .plain "COUNT N18446744073709551616").1 _ hpanic
  cases he

end CypherLite
end AdGraphDb
