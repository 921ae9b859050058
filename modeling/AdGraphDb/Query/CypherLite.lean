import AdGraphDb.Foundation.Characters
import AdGraphDb.Foundation.Tokens
import AdGraphDb.Query.Condition

/-!
# CypherLite

A subset of Cypher. A lexer over the characters of the text yields typed tokens, which a
recursive-descent parser reads.
-/

namespace AdGraphDb
namespace CypherLite
open Parsing

def parseError (msg : String) : GraphError := .deserializationError s!"[CypherLite] {msg}"

/-- An error of the parser. -/
def reject {α : Type} (msg : String) : Except (Stop GraphError) α :=
  .error (.error (parseError msg))

/-- An error of the lexer. -/
def lexReject {α : Type} (msg : String) : Except (Stop GraphError) α :=
  .error (.error (.deserializationError s!"[CypherLite lexer] {msg}"))

/-! ## Tokens -/

inductive Token where
  | keyword (k : String)
  | ident (s : String)
  | nodeRef (id : UInt64)
  | stringLit (s : String)
  | intLit (i : Int64)
  | floatLit (f : F64)
  | boolLit (b : Bool)
  | eq
  | notEq
  | lt
  | ltEq
  | gt
  | gtEq
  | lParen
  | rParen
  | lBracket
  | rBracket
  | colon
  | dot
  | comma
  | dash
  | arrow
deriving DecidableEq

/-- `{:?}` of a text and of a double. -/
structure DebugFormat where
  str : String → String
  f64 : F64 → String

namespace Token

/-- The derived `PartialEq`, which compares floats as `f64` does. -/
def same : Token → Token → Bool
  | floatLit a, floatLit b => F64.eq a b
  | a, b => decide (a = b)

/-- The derived `Debug`. -/
def debug (fmt : DebugFormat) : Token → String
  | keyword k => "Keyword(" ++ fmt.str k ++ ")"
  | ident s => "Ident(" ++ fmt.str s ++ ")"
  | nodeRef id => "NodeRef(" ++ toString id.toNat ++ ")"
  | stringLit s => "StringLit(" ++ fmt.str s ++ ")"
  | intLit i => "IntLit(" ++ toString i.toInt ++ ")"
  | floatLit f => "FloatLit(" ++ fmt.f64 f ++ ")"
  | boolLit b => "BoolLit(" ++ toString b ++ ")"
  | eq => "Eq"
  | notEq => "NotEq"
  | lt => "Lt"
  | ltEq => "LtEq"
  | gt => "Gt"
  | gtEq => "GtEq"
  | lParen => "LParen"
  | rParen => "RParen"
  | lBracket => "LBracket"
  | rBracket => "RBracket"
  | colon => "Colon"
  | dot => "Dot"
  | comma => "Comma"
  | dash => "Dash"
  | arrow => "Arrow"

def isIdent : Token → Bool
  | ident _ => true
  | _ => false

def isKeyword : Token → Bool
  | keyword _ => true
  | _ => false

end Token

/-! ## The lexer -/

def keywords : List String :=
  ["MATCH", "WHERE", "RETURN", "AND", "TRAVERSE", "PATH",
    "FROM", "TO", "COUNT", "NODES", "EDGES", "BFS", "DFS"]

/-- `chars[pos]`. -/
def charAt (chars : List Char) (pos : Nat) : Except (Stop GraphError) Char :=
  match chars[pos]? with
  | some c => .ok c
  | none => .error .panicked

/-- `chars[start..stop].iter().collect()`. -/
def sliceChars (chars : List Char) (start stop : Nat) : Except (Stop GraphError) String :=
  if start ≤ stop ∧ stop ≤ chars.length then
    .ok (String.ofList ((chars.drop start).take (stop - start)))
  else .error .panicked

/-- `while pos < chars.len() && is(chars[pos]) { pos += 1; }`, on the characters from `pos` on. -/
def scanWhile (is : Char → Bool) : List Char → Nat → Nat
  | [], pos => pos
  | c :: cs, pos => if is c then scanWhile is cs (pos + 1) else pos

def twoChar : String → Option Token
  | "!=" => some .notEq
  | "<=" => some .ltEq
  | ">=" => some .gtEq
  | "->" => some .arrow
  | _ => none

def lexTwoChar (chars : List Char) (pos : Nat) : Except (Stop GraphError) (Option Token) :=
  if pos + 1 < chars.length then (sliceChars chars pos (pos + 2)).map twoChar else .ok none

def singleChar : Char → Option Token
  | '(' => some .lParen
  | ')' => some .rParen
  | '[' => some .lBracket
  | ']' => some .rBracket
  | ':' => some .colon
  | '.' => some .dot
  | ',' => some .comma
  | '-' => some .dash
  | '=' => some .eq
  | '<' => some .lt
  | '>' => some .gt
  | _ => none

def lexString (chars : List Char) (pos : Nat) : Except (Stop GraphError) (Token × Nat) :=
  let start := pos + 1
  let stop := scanWhile (· != '"') (chars.drop start) start
  if stop ≥ chars.length then lexReject "unterminated string literal"
  else (sliceChars chars start stop).map fun s => (.stringLit s, stop + 1)

def lexNumber (chars : List Char) (start : Nat) : Except (Stop GraphError) (Token × Nat) := do
  let pos := if chars[start]? = some '-' then start + 1 else start
  let pos := scanWhile Char.isDigit (chars.drop pos) pos
  if chars[pos]? = some '.' then
    let stop := scanWhile Char.isDigit (chars.drop (pos + 1)) (pos + 1)
    let s ← sliceChars chars start stop
    match F64.parse s with
    | some f => return (.floatLit f, stop)
    | none => lexReject s!"invalid float '{s}'"
  else
    let s ← sliceChars chars start pos
    match parseI64 s with
    | some i => return (.intLit i, pos)
    | none => lexReject s!"invalid integer '{s}'"

/-- The number of a word `N<digits>`. -/
def wordRef (word : String) : Except (Stop GraphError) (Option UInt64) :=
  if startsWith word 'N' && decide (1 < word.utf8ByteSize) then
    match sliceFrom? word 1 with
    | none => .error .panicked
    | some digits =>
      if digits.toList.all Char.isDigit then
        match parseU64 digits with
        | some id => .ok (some id)
        | none => .error .panicked
      else .ok none
  else .ok none

def lexWord (u : Unicode) (chars : List Char) (start : Nat) :
    Except (Stop GraphError) (Token × Nat) := do
  let stop := scanWhile (fun c => u.isAlphanumeric c || c == '_') (chars.drop start) start
  let word ← sliceChars chars start stop
  match ← wordRef word with
  | some id => return (.nodeRef id, stop)
  | none =>
    let up := u.toUppercase word
    if up = "TRUE" then return (.boolLit true, stop)
    else if up = "FALSE" then return (.boolLit false, stop)
    else if keywords.contains up then return (.keyword up, stop)
    else return (.ident word, stop)

/-- One round of the loop: the token, if any, and the next position. -/
def lexAt (u : Unicode) (chars : List Char) (pos : Nat) :
    Except (Stop GraphError) (Option Token × Nat) := do
  let c ← charAt chars pos
  if isWhitespace c then return (none, pos + 1)
  else if c = '"' then
    let (tok, pos) ← lexString chars pos
    return (some tok, pos)
  else
    match ← lexTwoChar chars pos with
    | some tok => return (some tok, pos + 2)
    | none =>
      match singleChar c with
      | some tok => return (some tok, pos + 1)
      | none =>
        if c.isDigit || c == '-' && chars[pos + 1]?.any Char.isDigit then
          let (tok, pos) ← lexNumber chars pos
          return (some tok, pos)
        else if u.isAlphabetic c || c == '_' then
          let (tok, pos) ← lexWord u chars pos
          return (some tok, pos)
        else lexReject s!"unexpected character '{c}'"

def lexFrom (u : Unicode) (chars : List Char) : Nat → Nat → Except (Stop GraphError) (List Token)
  | 0, pos => if pos < chars.length then .error .outOfFuel else .ok []
  | fuel + 1, pos =>
    if pos < chars.length then do
      let (tok, pos) ← lexAt u chars pos
      let toks ← lexFrom u chars fuel pos
      return tok.toList ++ toks
    else .ok []

/-- The loop, with fuel for one round a character. -/
def lex (u : Unicode) (input : String) : Except (Stop GraphError) (List Token) :=
  lexFrom u input.toList input.toList.length 0

/-! ## Primitive helpers -/

section
variable (fmt : DebugFormat)

/-- `{:?}` of a token that was read. -/
def got (tok : Token) : String := "Some(" ++ tok.debug fmt ++ ")"

def isKeyword (kw : String) (tok : Token) : Bool := decide (tok = .keyword kw)

def expectKeyword (kw : String) : Parsing GraphError Token Unit :=
  nextBy (parseError s!"expected keyword '{kw}' but reached end of input") fun tok =>
    if tok = .keyword kw then .ok ()
    else reject (s!"expected keyword '{kw}', got " ++ tok.debug fmt)

def expectToken (expected : Token) : Parsing GraphError Token Unit :=
  nextBy (parseError ("expected " ++ expected.debug fmt ++ " but reached end of input")) fun tok =>
    if tok.same expected then .ok ()
    else reject ("expected " ++ expected.debug fmt ++ ", got " ++ tok.debug fmt)

def expectDash : Parsing GraphError Token Unit :=
  nextBy (parseError "expected '-', got None") fun tok =>
    if tok = .dash then .ok () else reject ("expected '-', got " ++ got fmt tok)

def comparisonOp : Token → Except (Stop GraphError) ComparisonOp
  | .eq => .ok .eq
  | .notEq => .ok .notEq
  | .lt => .ok .lt
  | .ltEq => .ok .ltEq
  | .gt => .ok .gt
  | .gtEq => .ok .gtEq
  | other => reject ("expected comparison operator, got " ++ got fmt other)

def parseOp : Parsing GraphError Token ComparisonOp :=
  nextBy (parseError "expected comparison operator, got None") (comparisonOp fmt)

def valueLit : Token → Except (Stop GraphError) Value
  | .stringLit s => .ok (.text s)
  | .intLit i => .ok (.integer i)
  | .floatLit f => .ok (.float f)
  | .boolLit b => .ok (.boolean b)
  | other => reject ("expected a value literal, got " ++ got fmt other)

def parseValueLit : Parsing GraphError Token Value :=
  nextBy (parseError "expected a value literal, got None") (valueLit fmt)

def parseNodeRef : Parsing GraphError Token NodeId :=
  nextBy (parseError "expected a node reference (e.g. N0), got None") fun tok =>
    match tok with
    | .nodeRef id => .ok ⟨id⟩
    | other => reject ("expected a node reference (e.g. N0), got " ++ got fmt other)

def consumeIdent : Parsing GraphError Token String :=
  nextBy (parseError "expected identifier, got None") fun tok =>
    match tok with
    | .ident s => .ok s
    | other => reject ("expected identifier, got " ++ got fmt other)

/-- Any token passes for a variable. -/
def variableName : Token → Except (Stop GraphError) String
  | .ident s => .ok s
  | _ => .ok "_"

def consumeIdentOrAny : Parsing GraphError Token String :=
  nextBy (parseError "expected variable name") variableName

/-! ## Patterns -/

/-- `:label`, if a colon comes next. -/
def optionalLabel (msg : String) : Parsing GraphError Token (Option String) := do
  if ← Action.read (nextIs (· = .colon)) then
    let _ ← next
    nextBy (parseError msg) fun tok =>
      match tok with
      | .ident l => .ok (some l)
      | _ => reject msg
  else return none

def optionalIdent : Parsing GraphError Token (Option String) := do
  if ← Action.read (nextIs Token.isIdent) then
    match ← next with
    | some (.ident name) => return some name
    | _ => return none
  else return none

def parseNodePattern : Parsing GraphError Token (Option String × Option String) := do
  expectToken fmt .lParen
  let var ← optionalIdent
  let label ← optionalLabel "expected label after ':'"
  expectToken fmt .rParen
  return (var, label)

def parseRelPattern : Parsing GraphError Token (Option String) := do
  let _ ← optionalIdent
  optionalLabel "expected relationship label after ':'"

/-- The scan of `is_relationship_pattern`. -/
def relationshipFrom : Int32 → Bool → List Token → Bool
  | _, _, [] => false
  | depth, foundClose, tok :: toks =>
    match tok with
    | .lParen => relationshipFrom (depth + 1) foundClose toks
    | .rParen => relationshipFrom (depth - 1) (foundClose || depth - 1 == 0) toks
    | .dash => foundClose || relationshipFrom depth foundClose toks
    | .keyword k =>
      if k = "WHERE" ∨ k = "RETURN" then false else relationshipFrom depth foundClose toks
    | _ => relationshipFrom depth foundClose toks

/-- `for tok in &self.tokens[self.pos..]`. -/
def isRelationshipPattern : Parsing GraphError Token Bool :=
  Action.tryRead fun p =>
    if p.pos ≤ p.tokens.length then .ok (relationshipFrom 0 false (p.tokens.drop p.pos))
    else .error .panicked

/-! ## Conditions -/

def weightOf : Value → Except (Stop GraphError) F64
  | .float f => .ok f
  | .integer i => .ok (F64.ofInt i.toInt)
  | _ => reject "weight must be a number"

/-- What the two loops over `WHERE` conditions share: only edges have a weight. -/
def whereCondition (weights : Bool) : Parsing GraphError Token Condition := do
  let _ ← consumeIdentOrAny
  expectToken fmt .dot
  let field ← consumeIdent fmt
  let op ← parseOp fmt
  let value ← parseValueLit fmt
  if weights && eqIgnoreAsciiCase field "weight" then
    let w ← Action.tryRead fun _ => weightOf value
    return .weight ⟨op, w⟩
  else return .property ⟨field, op, value⟩

def applyNodeWhereConditions (filter : NodeFilter) : Parsing GraphError Token NodeFilter :=
  chain (fun f => do return f.store (← whereCondition fmt false)) (isKeyword "AND") filter

def applyEdgeWhereConditions (filter : EdgeFilter) : Parsing GraphError Token EdgeFilter :=
  chain (fun f => do return f.store (← whereCondition fmt true)) (isKeyword "AND") filter

/-- Consumes tokens until a keyword or the end of the input. -/
def skipReturnList : Parsing GraphError Token Unit := skipWhile fun tok => !tok.isKeyword

/-! ## Commands -/

def parseNodeMatch : Parsing GraphError Token QueryCommand := do
  let (_, label) ← parseNodePattern fmt
  let filter := { NodeFilter.default with label := label }
  let filter ← (do
    if ← Action.read (nextIs (isKeyword "WHERE")) then
      let _ ← next
      applyNodeWhereConditions fmt filter
    else return filter)
  expectKeyword fmt "RETURN"
  skipReturnList
  return .matchNodes filter

def parseRelMatch : Parsing GraphError Token QueryCommand := do
  let _ ← parseNodePattern fmt
  expectDash fmt
  expectToken fmt .lBracket
  let relLabel ← parseRelPattern
  expectToken fmt .rBracket
  expectToken fmt .arrow
  let _ ← parseNodePattern fmt
  let filter := { EdgeFilter.default with label := relLabel }
  let filter ← (do
    if ← Action.read (nextIs (isKeyword "WHERE")) then
      let _ ← next
      applyEdgeWhereConditions fmt filter
    else return filter)
  expectKeyword fmt "RETURN"
  skipReturnList
  return .matchEdges filter

def parseMatch : Parsing GraphError Token QueryCommand := do
  expectKeyword fmt "MATCH"
  if ← isRelationshipPattern then parseRelMatch fmt else parseNodeMatch fmt

def traversalKind : Token → Except (Stop GraphError) TraversalKind
  | .keyword "BFS" => .ok .bfs
  | .keyword "DFS" => .ok .dfs
  | other => reject ("expected BFS or DFS, got " ++ got fmt other)

def parseTraverse : Parsing GraphError Token QueryCommand := do
  expectKeyword fmt "TRAVERSE"
  let algo ← nextBy (parseError "expected BFS or DFS, got None") (traversalKind fmt)
  expectKeyword fmt "FROM"
  let start ← parseNodeRef fmt
  return .traverse algo start

def parsePath : Parsing GraphError Token QueryCommand := do
  expectKeyword fmt "PATH"
  expectKeyword fmt "FROM"
  let start ← parseNodeRef fmt
  expectKeyword fmt "TO"
  let goal ← parseNodeRef fmt
  return .shortestPath start goal

def countKind : Token → Except (Stop GraphError) QueryCommand
  | .keyword "NODES" => .ok .countNodes
  | .keyword "EDGES" => .ok .countEdges
  | other => reject ("expected NODES or EDGES after COUNT, got " ++ got fmt other)

def parseCount : Parsing GraphError Token QueryCommand := do
  expectKeyword fmt "COUNT"
  nextBy (parseError "expected NODES or EDGES after COUNT, got None") (countKind fmt)

/-- `Parser::parse`. -/
def parseCommand : Parsing GraphError Token QueryCommand := do
  match ← Action.read Parser.peek with
  | some (.keyword "MATCH") => parseMatch fmt
  | some (.keyword "TRAVERSE") => parseTraverse fmt
  | some (.keyword "PATH") => parsePath fmt
  | some (.keyword "COUNT") => parseCount fmt
  | some other => fail (parseError
      ("expected MATCH, TRAVERSE, PATH, or COUNT at start of query, got " ++ other.debug fmt))
  | none => fail (parseError "empty query")

/-- `Parser::new(query).parse()`. Errors of the lexer leave no tokens. -/
def parse (u : Unicode) (query : String) : Except (Stop GraphError) QueryCommand :=
  match lex u query with
  | .ok tokens => (parseCommand fmt ⟨tokens, 0⟩).1
  | .error (.error _) => (parseCommand fmt ⟨[], 0⟩).1
  | .error stop => .error stop

/-- `CypherLiteLanguage::parse_only`. -/
def parseOnly (u : Unicode) (query : String) : Except (Stop GraphError) QueryCommand :=
  match lex u query with
  | .ok tokens => (parseCommand fmt ⟨tokens, 0⟩).1
  | .error stop => .error stop

end

end CypherLite
end AdGraphDb
