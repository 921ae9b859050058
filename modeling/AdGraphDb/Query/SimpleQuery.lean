import AdGraphDb.Foundation.Characters
import AdGraphDb.Foundation.Tokens
import AdGraphDb.Query.Condition

/-!
# SimpleQuery

A keyword language. Texts are split at white space outside quotes, and a
recursive-descent parser reads the tokens.
-/

namespace AdGraphDb
namespace SimpleQuery
open Parsing

def parseError (msg : String) : GraphError := .deserializationError s!"[SimpleQuery] {msg}"

/-- An error of the language. -/
def reject {α : Type} (msg : String) : Except (Stop GraphError) α :=
  .error (.error (parseError msg))

/-! ## The tokenizer -/

def isSeparator (c : Char) : Bool := c == ' ' || c == '\t' || c == '\n' || c == '\r'

/-- The loop of `tokenize`, with the token that is being read. -/
def tokenizeFrom (current : List Char) (inString : Bool) : List Char → List String
  | [] => if current.isEmpty then [] else [String.ofList current]
  | ch :: rest =>
    if ch = '"' then
      let current := current ++ [ch]
      if inString then String.ofList current :: tokenizeFrom [] false rest
      else tokenizeFrom current true rest
    else if isSeparator ch && !inString then
      if current.isEmpty then tokenizeFrom [] inString rest
      else String.ofList current :: tokenizeFrom [] inString rest
    else tokenizeFrom (current ++ [ch]) inString rest

def tokenize (input : String) : List String := tokenizeFrom [] false input.toList

/-! ## Primitive parsers -/

/-- Whether a token is the keyword, in any letter case. -/
def isWord (kw tok : String) : Bool := eqIgnoreAsciiCase tok kw

def expect (expected : String) : Parsing GraphError String Unit :=
  nextBy (parseError s!"expected '{expected}' but reached end of input") fun tok =>
    if eqIgnoreAsciiCase tok expected then .ok ()
    else reject s!"expected '{expected}' but got '{tok}'"

def keyword (u : Unicode) : Parsing GraphError String String :=
  nextBy (parseError "unexpected end of input") fun tok => .ok (u.toUppercase tok)

def comparisonOp : String → Except (Stop GraphError) ComparisonOp
  | "=" => .ok .eq
  | "!=" => .ok .notEq
  | "<" => .ok .lt
  | "<=" => .ok .ltEq
  | ">" => .ok .gt
  | ">=" => .ok .gtEq
  | other => reject s!"unknown operator '{other}'"

def parseOp : Parsing GraphError String ComparisonOp :=
  nextBy (parseError "expected comparison operator") comparisonOp

/-- `tok[1..tok.len() - 1]`. -/
def unquote (tok : String) : Except (Stop GraphError) String :=
  match sliceStr? tok 1 (tok.utf8ByteSize - 1) with
  | some s => .ok s
  | none => .error .panicked

def stringLit (tok : String) : Except (Stop GraphError) String :=
  if startsWith tok '"' && endsWith tok '"' && decide (2 ≤ tok.utf8ByteSize) then unquote tok
  else reject s!"expected a quoted string, got '{tok}'"

def parseStringLit : Parsing GraphError String String :=
  nextBy (parseError "expected string literal") stringLit

def valueLit (tok : String) : Except (Stop GraphError) Value :=
  if startsWith tok '"' then
    if endsWith tok '"' && decide (2 ≤ tok.utf8ByteSize) then (unquote tok).map .text
    else reject s!"unterminated string literal: {tok}"
  else if eqIgnoreAsciiCase tok "true" then .ok (.boolean true)
  else if eqIgnoreAsciiCase tok "false" then .ok (.boolean false)
  else if eqIgnoreAsciiCase tok "null" then .ok .null
  else if tok.toList.contains '.' then
    match F64.parse tok with
    | some f => .ok (.float f)
    | none => reject s!"invalid float '{tok}'"
  else
    match parseI64 tok with
    | some i => .ok (.integer i)
    | none => reject s!"invalid number '{tok}'"

def parseValueLit : Parsing GraphError String Value :=
  nextBy (parseError "expected a value") valueLit

/-- `strip_prefix(letter)`, then the number. -/
def refNumber (letter : Char) (tok : String) : Option UInt64 :=
  match tok.toList with
  | [] => none
  | c :: rest => if c = letter then parseU64 (String.ofList rest) else none

def parseNodeRef : Parsing GraphError String NodeId :=
  nextBy (parseError "expected node reference (e.g. N0)") fun tok =>
    match refNumber 'N' tok with
    | some id => .ok ⟨id⟩
    | none => reject s!"'{tok}' is not a valid node reference — expected N<number>"

def parseEdgeRef : Parsing GraphError String EdgeId :=
  nextBy (parseError "expected edge reference (e.g. E0)") fun tok =>
    match refNumber 'E' tok with
    | some id => .ok ⟨id⟩
    | none => reject s!"'{tok}' is not a valid edge reference — expected E<number>"

/-! ## Filters -/

def weightLit (raw : String) : Except (Stop GraphError) F64 :=
  match F64.parse raw with
  | some value => .ok value
  | none => reject s!"'{raw}' is not a number"

def parseWeight : Parsing GraphError String F64 :=
  nextBy (parseError "expected number after weight op") weightLit

/-- What `apply_node_condition` and `apply_edge_condition` share: only edges have a weight. -/
def condition (u : Unicode) (weights : Bool) (unknown : String → String) :
    Parsing GraphError String Condition := do
  let field ← nextBy (parseError "expected condition field") .ok
  if eqIgnoreAsciiCase field "label" then
    let op ← parseOp
    if op = .eq then
      let l ← parseStringLit
      return .label l
    else fail (parseError "label only supports = comparison")
  else if weights && eqIgnoreAsciiCase field "weight" then
    let op ← parseOp
    let value ← parseWeight
    return .weight ⟨op, value⟩
  else if startsWithStr (u.toLowercase field) "props." then
    let key ← unwrap (sliceFrom? field 6)
    let op ← parseOp
    let value ← parseValueLit
    return .property ⟨key, op, value⟩
  else fail (parseError (unknown field))

def applyNodeCondition (u : Unicode) (filter : NodeFilter) :
    Parsing GraphError String NodeFilter := do
  let c ← condition u false fun field =>
    s!"unknown node filter field '{field}' — use 'label' or 'props.<key>'"
  return filter.store c

def applyEdgeCondition (u : Unicode) (filter : EdgeFilter) :
    Parsing GraphError String EdgeFilter := do
  let c ← condition u true fun field =>
    s!"unknown edge filter field '{field}' — use 'label', 'weight', or 'props.<key>'"
  return filter.store c

def parseNodeFilterChain (u : Unicode) : Parsing GraphError String NodeFilter :=
  chain (applyNodeCondition u) (isWord "AND") .default

def parseEdgeFilterChain (u : Unicode) : Parsing GraphError String EdgeFilter :=
  chain (applyEdgeCondition u) (isWord "AND") .default

def parseOptionalNodeFilter (u : Unicode) : Parsing GraphError String NodeFilter := do
  if ← Action.read (nextIs (isWord "WHERE")) then
    let _ ← next
    parseNodeFilterChain u
  else return .default

def parseOptionalEdgeFilter (u : Unicode) : Parsing GraphError String EdgeFilter := do
  if ← Action.read (nextIs (isWord "WHERE")) then
    let _ ← next
    parseEdgeFilterChain u
  else return .default

/-! ## Commands -/

def parseMatch (u : Unicode) : Parsing GraphError String QueryCommand := do
  let kind ← keyword u
  match kind with
  | "NODE" =>
    let filter ← parseOptionalNodeFilter u
    return .matchNodes filter
  | "EDGE" =>
    let filter ← parseOptionalEdgeFilter u
    return .matchEdges filter
  | other => fail (parseError s!"expected NODE or EDGE after MATCH, got '{other}'")

def parseGet (u : Unicode) : Parsing GraphError String QueryCommand := do
  let kind ← keyword u
  match kind with
  | "NODE" =>
    let id ← parseNodeRef
    return .getNode id
  | "EDGE" =>
    let id ← parseEdgeRef
    return .getEdge id
  | other => fail (parseError s!"expected NODE or EDGE after GET, got '{other}'")

def traversalKind : String → Except (Stop GraphError) TraversalKind
  | "BFS" => .ok .bfs
  | "DFS" => .ok .dfs
  | other => reject s!"expected BFS or DFS, got '{other}'"

def parseTraverse (u : Unicode) : Parsing GraphError String QueryCommand := do
  let algo ← keyword u
  let kind ← Action.tryRead fun _ => traversalKind algo
  expect "FROM"
  let start ← parseNodeRef
  return .traverse kind start

def parsePath : Parsing GraphError String QueryCommand := do
  expect "FROM"
  let start ← parseNodeRef
  expect "TO"
  let goal ← parseNodeRef
  return .shortestPath start goal

def parseCount (u : Unicode) : Parsing GraphError String QueryCommand := do
  let what ← keyword u
  match what with
  | "NODES" => return .countNodes
  | "EDGES" => return .countEdges
  | other => fail (parseError s!"expected NODES or EDGES after COUNT, got '{other}'")

/-- `Parser::parse`. -/
def parseCommand (u : Unicode) : Parsing GraphError String QueryCommand := do
  let kw ← keyword u
  match kw with
  | "MATCH" => parseMatch u
  | "GET" => parseGet u
  | "TRAVERSE" => parseTraverse u
  | "PATH" => parsePath
  | "COUNT" => parseCount u
  | other => fail (parseError
      s!"unknown command '{other}' — expected MATCH, GET, TRAVERSE, PATH, or COUNT")

/-- `Parser::new(query).parse()`. -/
def parse (u : Unicode) (query : String) : Except (Stop GraphError) QueryCommand :=
  (parseCommand u ⟨tokenize query, 0⟩).1

end SimpleQuery
end AdGraphDb
