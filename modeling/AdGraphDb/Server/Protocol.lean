import AdGraphDb.Query.Executor
import AdGraphDb.Server.Lines

/-!
# The line-based protocol

The server answers every line of a connection with a text and a closing line. The remote
client sends a line and reads up to the closing line.
-/

namespace AdGraphDb

/-! ## Display -/

/-- `{}` and `{:.2}` of a double: digits with a sign and a point, or a word. -/
structure FloatFormat where
  display : F64 → String
  fixed2 : F64 → String
  display_oneLine : ∀ f, ∀ c ∈ (display f).toList, c ≠ '\n' ∧ c ≠ '\r'
  fixed2_oneLine : ∀ f, ∀ c ∈ (fixed2 f).toList, c ≠ '\n' ∧ c ≠ '\r'

def NodeId.display (id : NodeId) : String := "N" ++ Nat.repr id.val.toNat

def EdgeId.display (id : EdgeId) : String := "E" ++ Nat.repr id.val.toNat

section
variable (fmt : FloatFormat)

def Value.display : Value → String
  | .null => "null"
  | .boolean b => toString b
  | .integer i => Int.repr i.toInt
  | .float f => fmt.display f
  | .text s => "\"" ++ s ++ "\""

/-- `{k}: {v}`. -/
def displayEntry (entry : String × Value) : String := entry.1 ++ ": " ++ entry.2.display fmt

def Node.display (ord : HashOrder) (n : Node) : String :=
  "(" ++ n.id.display ++ " :" ++ n.label ++ ")" ++
    if n.properties.isEmpty then ""
    else " \x7b" ++ ", ".intercalate ((HashMap.iter ord n.properties).map (displayEntry fmt)) ++
      "\x7d"

def Edge.display (e : Edge) : String :=
  "(" ++ e.source.display ++ ") -[" ++ e.id.display ++ " :" ++ e.label ++ "]-> (" ++
    e.target.display ++ ")"

/-- The maps of a list of nodes are enumerated one after the other. -/
def displayNodes (ord : HashOrder) : List Node → List String
  | [] => []
  | n :: ns => n.display fmt (ord.sub 0) :: displayNodes (ord.sub 1) ns

def QueryResult.display (ord : HashOrder) : QueryResult → String
  | .nodes ns =>
    "Nodes (" ++ Nat.repr ns.length ++ "):\n" ++
      String.join ((displayNodes fmt ord ns).map fun node => "  " ++ node ++ "\n")
  | .edges es =>
    "Edges (" ++ Nat.repr es.length ++ "):\n" ++
      String.join (es.map fun edge => "  " ++ edge.display ++ "\n")
  | .traversal ids =>
    "Traversal [" ++ Nat.repr ids.length ++ "]: " ++ " → ".intercalate (ids.map NodeId.display)
  | .path ids totalWeight =>
    "Path (" ++ fmt.fixed2 totalWeight ++ "): " ++ " → ".intercalate (ids.map NodeId.display)
  | .singleNode (some node) => node.display fmt ord
  | .singleNode none => "(not found)"
  | .singleEdge (some edge) => edge.display
  | .singleEdge none => "(not found)"
  | .count n => "Count: " ++ Nat.repr n
  | .empty => "(empty)"

def GraphError.display : GraphError → String
  | .nodeNotFound id => "node " ++ id.display ++ " not found"
  | .edgeNotFound id => "edge " ++ id.display ++ " not found"
  | .duplicateNode id => "node " ++ id.display ++ " already exists"
  | .duplicateEdge id => "edge " ++ id.display ++ " already exists"
  | .storageIo msg => "storage I/O error: " ++ msg
  | .serializationError msg => "serialization error: " ++ msg
  | .deserializationError msg => "deserialization error: " ++ msg

end

/-! ## The server -/

namespace Server

inductive Lang where
  | simple
  | cypher
deriving DecidableEq

def Lang.name : Lang → String
  | simple => "simple"
  | cypher => "cypher"

/-- `str::strip_prefix`. -/
def stripPrefix (line start : String) : Option String :=
  if startsWithStr line start then some (String.ofList (line.toList.drop start.toList.length))
  else none

def parseLangPrefix (line : String) (default : Lang) : Lang × String :=
  match (stripPrefix line "simple:").or (stripPrefix line "simple: ") with
  | some rest => (.simple, trim rest)
  | none =>
    match (stripPrefix line "cypher:").or (stripPrefix line "cypher: ") with
    | some rest => (.cypher, trim rest)
    | none => (default, line)

def parseLangSwitch (u : Unicode) (line : String) : Option Lang :=
  match u.toLowercase line with
  | ":lang simple" => some .simple
  | ":use simple" => some .simple
  | ":lang cypher" => some .cypher
  | ":use cypher" => some .cypher
  | _ => none

/-- What the server answers a line with. A result is displayed in some order of its maps. -/
inductive Reply where
  | bye
  | language (lang : Lang)
  | answer (ord : HashOrder) (result : Except GraphError QueryResult)

def Reply.text (fmt : FloatFormat) : Reply → String
  | bye => "OK\nBye!"
  | language lang => "OK\nLanguage: " ++ lang.name
  | answer ord (.ok result) => "OK\n" ++ result.display fmt ord
  | answer _ (.error e) => "ERR\n" ++ e.display

variable {D : Type}

/-- The loop of `handle_connection` over the lines of the connection; `none` is a line that
cannot be read. -/
def serve (u : Unicode) (executeQuery : HashOrder → Lang → String → Action GraphError D QueryResult) :
    HashOrder → List (Option String) → Lang → D → List Reply
  | _, [], _, _ => []
  | _, none :: _, _, _ => []
  | ord, some rawLine :: rest, lang, db =>
    let line := trim rawLine
    if line = "" then serve u executeQuery ord rest lang db
    else if eqIgnoreAsciiCase line ":quit" || eqIgnoreAsciiCase line ":exit" then [.bye]
    else
      match parseLangSwitch u line with
      | some newLang => .language newLang :: serve u executeQuery ord rest newLang db
      | none =>
        let (effectiveLang, query) := parseLangPrefix line lang
        let (result, db) := executeQuery (ord.sub 0) effectiveLang query db
        .answer (ord.sub 1) result :: serve u executeQuery (ord.sub 2) rest lang db

/-- A text and the closing line. -/
def framed (text : String) : String := text ++ "\n" ++ "---END---" ++ "\n"

def banner : String :=
  "# AdGraphDb  lang:" ++ Lang.simple.name ++
    "  :quit to disconnect  :use simple|cypher to switch"

/-- What `handle_connection` writes. -/
def handleConnection (fmt : FloatFormat) (u : Unicode)
    (executeQuery : HashOrder → Lang → String → Action GraphError D QueryResult) (ord : HashOrder)
    (input : List (Option String)) (db : D) : String :=
  framed banner ++
    String.join ((serve u executeQuery ord input .simple db).map fun r => framed (r.text fmt))

end Server

/-! ## The client -/

namespace Cli

/-- The lines of a stream; one that is not UTF-8 is an error. -/
def receive (stream : Bytes) : List (Option String) :=
  (lines stream).map fun line => String.fromUTF8? ⟨line.toArray⟩

/-- The loop of `read_until_end`, with the parts read so far. -/
def readParts : List String → List (Option String) → String × List (Option String)
  | parts, [] => ("\n".intercalate parts, [])
  | parts, none :: rest => ("\n".intercalate parts, rest)
  | parts, some line :: rest =>
    if trim line = "---END---" then ("\n".intercalate parts, rest)
    else readParts (parts ++ [line]) rest

def readUntilEnd (stream : List (Option String)) : String × List (Option String) :=
  readParts [] stream

end Cli

end AdGraphDb
