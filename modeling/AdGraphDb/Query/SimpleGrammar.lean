import AdGraphDb.Query.SimpleQuery

/-!
# What the SimpleQuery parser reads

The exact language of every method of the parser, over tokens.
-/

namespace AdGraphDb
namespace SimpleQuery
open Parsing

/-! ## Single tokens -/

theorem comparisonOp_eq_ok {t : String} {op : ComparisonOp} :
    comparisonOp t = .ok op ↔ t = op.display := by
  constructor
  · unfold comparisonOp
    split <;> intro h <;> cases h <;> rfl
  · rintro rfl
    cases op <;> rfl

/-! ## Conditions -/

/-- The three tokens of a condition. -/
inductive Clause (u : Unicode) (weights : Bool) : List String → Condition → Prop where
  | label {field lit l : String} (hfield : isWord "label" field = true)
      (hlit : stringLit lit = .ok l) : Clause u weights [field, "=", lit] (.label l)
  | weight {field raw : String} {op : ComparisonOp} {value : F64} (hweights : weights = true)
      (hfield : isWord "weight" field = true) (hraw : F64.parse raw = some value) :
      Clause u weights [field, op.display, raw] (.weight ⟨op, value⟩)
  | property {field key lit : String} {op : ComparisonOp} {value : Value}
      (hfield : startsWithStr (u.toLowercase field) "props." = true)
      (hkey : sliceFrom? field 6 = some key) (hlit : valueLit lit = .ok value) :
      Clause u weights [field, op.display, lit] (.property ⟨key, op, value⟩)

/-- The fields of a filter exclude each other. -/
theorem isWord_ne_props (u : Unicode) {kw field : String} (h : isWord kw field = true)
    (hkw : kw.toList.all isAscii = true)
    (hne : startsWithStr (String.ofList (kw.toList.map Char.toLower)) "props." = false) :
    startsWithStr (u.toLowercase field) "props." = false := by
  rw [u.toLowercase_of_eqIgnoreAsciiCase h hkw, hne]

theorem reads_label :
    Reads (do
        let op ← parseOp
        if op = .eq then
          let l ← parseStringLit
          return Condition.label l
        else fail (parseError "label only supports = comparison")) fun ts _ c =>
      ∃ lit l, ts = ["=", lit] ∧ stringLit lit = .ok l ∧ c = .label l := by
  refine (Reads.bind_nextBy (M := fun op ts _ c =>
    op = .eq ∧ ∃ lit l, ts = [lit] ∧ stringLit lit = .ok l ∧ c = .label l) fun op => ?_).congr ?_
  · by_cases hop : op = .eq
    · rw [if_pos hop]
      apply (Reads.bind_nextBy fun l => Reads.return (Condition.label l)).congr
      intro ts _ c
      constructor
      · rintro ⟨lit, _, l, rfl, hl, rfl, rfl⟩
        exact ⟨hop, lit, l, rfl, hl, rfl⟩
      · rintro ⟨_, lit, l, rfl, hl, rfl⟩
        exact ⟨lit, [], l, rfl, hl, rfl, rfl⟩
    · rw [if_neg hop]
      apply (Reads.fail _).congr
      intro ts _ c
      exact ⟨False.elim, fun h => hop h.1⟩
  · intro ts _ c
    constructor
    · rintro ⟨t, _, _, rfl, ht, rfl, lit, l, rfl, hl, rfl⟩
      rw [comparisonOp_eq_ok.mp ht]
      exact ⟨lit, l, rfl, hl, rfl⟩
    · rintro ⟨lit, l, rfl, hl, rfl⟩
      exact ⟨"=", [lit], .eq, rfl, rfl, rfl, lit, l, rfl, hl, rfl⟩

/-- An operator, a literal and what they make of the field. -/
theorem reads_opLit {α : Type} (missing : GraphError) (lit : String → Except (Stop GraphError) α)
    (build : ComparisonOp → α → Condition) :
    Reads (do
        let op ← parseOp
        let value ← nextBy missing lit
        return build op value) fun ts _ c =>
      ∃ op raw value, ts = [op.display, raw] ∧ lit raw = .ok value ∧ c = build op value := by
  apply (Reads.bind_nextBy fun op => Reads.bind_nextBy fun value =>
    Reads.return (build op value)).congr
  intro ts _ c
  constructor
  · rintro ⟨t, _, op, rfl, ht, raw, _, value, rfl, hv, rfl, rfl⟩
    rw [comparisonOp_eq_ok.mp ht]
    exact ⟨op, raw, value, rfl, hv, rfl⟩
  · rintro ⟨op, raw, value, rfl, hv, rfl⟩
    exact ⟨_, _, op, rfl, comparisonOp_eq_ok.mpr rfl, raw, [], value, rfl, hv, rfl, rfl⟩

theorem weightLit_eq_ok {raw : String} {value : F64} :
    weightLit raw = .ok value ↔ F64.parse raw = some value := by
  unfold weightLit
  cases F64.parse raw with
  | none => constructor <;> intro h <;> cases h
  | some v => constructor <;> intro h <;> cases h <;> rfl

section Fields

variable {u : Unicode} {weights : Bool} {field : String} {ts : List String} {c : Condition}

theorem clause_label_iff (hlabel : isWord "label" field = true) :
    (∃ lit l, ts = ["=", lit] ∧ stringLit lit = .ok l ∧ c = .label l) ↔
      Clause u weights (field :: ts) c := by
  have hprops := isWord_ne_props u hlabel (by decide) (by decide)
  constructor
  · rintro ⟨lit, l, rfl, hl, rfl⟩
    exact .label hlabel hl
  · intro h
    cases h with
    | label _ hl => exact ⟨_, _, rfl, hl, rfl⟩
    | weight _ hf _ =>
      have hsame := (of_decide_eq_true hlabel).symm.trans (of_decide_eq_true hf)
      exact absurd hsame (by decide)
    | property hf => exact absurd hf (hprops ▸ Bool.false_ne_true)

theorem clause_weight_iff (hlabel : isWord "label" field ≠ true) (hweights : weights = true)
    (hfield : isWord "weight" field = true) :
    (∃ op raw value, ts = [ComparisonOp.display op, raw] ∧ weightLit raw = .ok value ∧
      c = .weight ⟨op, value⟩) ↔ Clause u weights (field :: ts) c := by
  have hprops := isWord_ne_props u hfield (by decide) (by decide)
  constructor
  · rintro ⟨op, raw, value, rfl, hv, rfl⟩
    exact .weight hweights hfield (weightLit_eq_ok.mp hv)
  · intro h
    cases h with
    | label hf _ => exact absurd hf hlabel
    | weight _ _ hv => exact ⟨_, _, _, rfl, weightLit_eq_ok.mpr hv, rfl⟩
    | property hf => exact absurd hf (hprops ▸ Bool.false_ne_true)

variable (hlabel : isWord "label" field ≠ true)
  (hweight : (weights && isWord "weight" field) ≠ true)

include hlabel hweight

theorem clause_property_iff (hprops : startsWithStr (u.toLowercase field) "props." = true) :
    (∃ key, sliceFrom? field 6 = some key ∧ ∃ op raw value,
      ts = [ComparisonOp.display op, raw] ∧ valueLit raw = .ok value ∧
        c = .property ⟨key, op, value⟩) ↔ Clause u weights (field :: ts) c := by
  constructor
  · rintro ⟨key, hk, op, raw, value, rfl, hv, rfl⟩
    exact .property hprops hk hv
  · intro h
    cases h with
    | label hf _ => exact absurd hf hlabel
    | weight hw hf _ => exact absurd ((Bool.and_eq_true _ _).mpr ⟨hw, hf⟩) hweight
    | property _ hk hv => exact ⟨_, hk, _, _, _, rfl, hv, rfl⟩

theorem not_clause (hprops : startsWithStr (u.toLowercase field) "props." ≠ true) :
    ¬ Clause u weights (field :: ts) c := by
  intro h
  cases h with
  | label hf _ => exact hlabel hf
  | weight hw hf _ => exact hweight ((Bool.and_eq_true _ _).mpr ⟨hw, hf⟩)
  | property hf => exact hprops hf

end Fields

theorem Clause.exists_cons {u : Unicode} {weights : Bool} {ts : List String} {c : Condition}
    (h : Clause u weights ts c) : ∃ field ts', ts = field :: ts' := by
  cases h <;> exact ⟨_, _, rfl⟩

theorem reads_condition (u : Unicode) (weights : Bool) (unknown : String → String) :
    Reads (condition u weights unknown) fun ts _ c => Clause u weights ts c := by
  refine (Reads.bind_nextBy (M := fun field ts _ c => Clause u weights (field :: ts) c)
    fun field => ?_).congr ?_
  · by_cases hlabel : eqIgnoreAsciiCase field "label" = true
    · rw [if_pos hlabel]
      exact reads_label.congr fun ts _ c => clause_label_iff hlabel
    rw [if_neg hlabel]
    by_cases hweight : (weights && eqIgnoreAsciiCase field "weight") = true
    · rw [if_pos hweight]
      rw [Bool.and_eq_true] at hweight
      apply (reads_opLit _ _ fun op value => Condition.weight ⟨op, value⟩).congr
      exact fun ts _ c => clause_weight_iff hlabel hweight.1 hweight.2
    rw [if_neg hweight]
    by_cases hprops : startsWithStr (u.toLowercase field) "props." = true
    · rw [if_pos hprops]
      apply (Reads.bind_unwrap fun key => reads_opLit _ _ fun op value =>
        Condition.property ⟨key, op, value⟩).congr
      exact fun ts _ c => clause_property_iff hlabel hweight hprops
    · rw [if_neg hprops]
      apply (Reads.fail _).congr
      exact fun ts _ c => ⟨False.elim, not_clause hlabel hweight hprops⟩
  · intro ts rest c
    constructor
    · rintro ⟨field, ts', _, rfl, ⟨⟩, hc⟩
      exact hc
    · intro hc
      obtain ⟨field, ts', rfl⟩ := hc.exists_cons
      exact ⟨field, ts', field, rfl, rfl, hc⟩

/-! ## Filters -/

/-- An optional `WHERE` with its conditions. -/
inductive Filter (u : Unicode) (weights : Bool) :
    List String → List String → List Condition → Prop where
  | all {rest : List String} (hrest : rest.head?.any (isWord "WHERE") = false) :
      Filter u weights [] rest []
  | chain {w : String} {ts rest : List String} {cs : List Condition}
      (hw : isWord "WHERE" w = true) (hts : Chain (Clause u weights) (isWord "AND") ts cs)
      (hrest : rest.head?.any (isWord "AND") = false) : Filter u weights (w :: ts) rest cs

theorem reads_store {F : Type} (u : Unicode) (weights : Bool) (unknown : String → String)
    (store : F → Condition → F) (f : F) :
    Reads (do return store f (← condition u weights unknown)) fun ts _ f' =>
      ∃ c, Clause u weights ts c ∧ f' = store f c :=
  (reads_condition u weights unknown).map (store f)

theorem reads_filter {F : Type} {u : Unicode} {weights : Bool} {store : F → Condition → F}
    {apply : F → Parsing GraphError String F} (default : F)
    (happly : ∀ f, Reads (apply f) fun ts _ f' => ∃ c, Clause u weights ts c ∧ f' = store f c) :
    Reads (do
        if ← Action.read (nextIs (isWord "WHERE")) then
          let _ ← next
          chain apply (isWord "AND") default
        else return default) fun ts rest f =>
      ∃ cs, Filter u weights ts rest cs ∧ f = cs.foldl store default := by
  have hne : ∀ c, ¬ Clause u weights [] c := fun c h => by cases h
  apply (Reads.ifNext (fun _ _ => Reads.chain hne happly default) (Reads.return default)).congr
  intro ts rest f
  constructor
  · rintro (⟨t, ts, rfl, ht, hend, cs, hcs, rfl⟩ | ⟨hend, rfl, rfl⟩)
    · exact ⟨cs, .chain ht hcs hend, rfl⟩
    · exact ⟨[], .all hend, rfl⟩
  · rintro ⟨cs, h, rfl⟩
    cases h with
    | all hrest => exact .inr ⟨hrest, rfl, rfl⟩
    | chain hw hts hrest => exact .inl ⟨_, _, rfl, hw, hrest, cs, hts, rfl⟩

theorem reads_parseOptionalNodeFilter (u : Unicode) :
    Reads (parseOptionalNodeFilter u) fun ts rest f =>
      ∃ cs, Filter u false ts rest cs ∧ f = cs.foldl NodeFilter.store .default :=
  reads_filter _ fun f => reads_store u false _ NodeFilter.store f

theorem reads_parseOptionalEdgeFilter (u : Unicode) :
    Reads (parseOptionalEdgeFilter u) fun ts rest f =>
      ∃ cs, Filter u true ts rest cs ∧ f = cs.foldl EdgeFilter.store .default :=
  reads_filter _ fun f => reads_store u true _ EdgeFilter.store f

/-! ## Commands -/

theorem traversalKind_eq_ok {t : String} {kind : TraversalKind} :
    traversalKind t = .ok kind ↔ t = kind.keyword := by
  constructor
  · unfold traversalKind
    split <;> intro h <;> cases h <;> rfl
  · rintro rfl
    cases kind <;> rfl

theorem reads_expect (kw : String) :
    Reads (expect kw) fun ts _ _ => ∃ t, ts = [t] ∧ isWord kw t = true :=
  Reads.nextIf _ (fun t => eqIgnoreAsciiCase t kw = true) fun _ => nofun

theorem reads_ref {missing : GraphError} {letter : Char} {α : Type} {id : UInt64 → α}
    {msg : String → String} :
    Reads (nextBy missing fun tok =>
        match refNumber letter tok with
        | some n => .ok (id n)
        | none => reject (msg tok)) fun ts _ v =>
      ∃ t n, ts = [t] ∧ refNumber letter t = some n ∧ v = id n := by
  apply (Reads.nextBy _ _).congr
  intro ts _ v
  apply exists_congr
  intro t
  cases refNumber letter t with
  | none =>
    constructor
    · rintro ⟨_, h⟩
      cases h
    · rintro ⟨_, _, h, _⟩
      cases h
  | some n =>
    constructor
    · rintro ⟨ht, h⟩
      exact ⟨n, ht, rfl, (Except.ok.inj h).symm⟩
    · rintro ⟨_, ht, h, rfl⟩
      cases h
      exact ⟨ht, rfl⟩

/-- The word that a command starts with. -/
inductive Verb where
  | select
  | get
  | traverse
  | path
  | count

def Verb.word : Verb → String
  | select => "MATCH"
  | get => "GET"
  | traverse => "TRAVERSE"
  | path => "PATH"
  | count => "COUNT"

/-- What follows the first word. -/
inductive Command (u : Unicode) : Verb → List String → List String → QueryCommand → Prop where
  | matchNodes {k : String} {ts rest : List String} {cs : List Condition}
      (hk : u.toUppercase k = "NODE") (hcs : Filter u false ts rest cs) :
      Command u .select (k :: ts) rest (.matchNodes (cs.foldl NodeFilter.store .default))
  | matchEdges {k : String} {ts rest : List String} {cs : List Condition}
      (hk : u.toUppercase k = "EDGE") (hcs : Filter u true ts rest cs) :
      Command u .select (k :: ts) rest (.matchEdges (cs.foldl EdgeFilter.store .default))
  | getNode {k r : String} {rest : List String} {id : UInt64} (hk : u.toUppercase k = "NODE")
      (hr : refNumber 'N' r = some id) : Command u .get [k, r] rest (.getNode ⟨id⟩)
  | getEdge {k r : String} {rest : List String} {id : UInt64} (hk : u.toUppercase k = "EDGE")
      (hr : refNumber 'E' r = some id) : Command u .get [k, r] rest (.getEdge ⟨id⟩)
  | traverse {a f r : String} {rest : List String} {kind : TraversalKind} {id : UInt64}
      (ha : u.toUppercase a = kind.keyword) (hf : isWord "FROM" f = true)
      (hr : refNumber 'N' r = some id) :
      Command u .traverse [a, f, r] rest (.traverse kind ⟨id⟩)
  | path {f r t r' : String} {rest : List String} {id id' : UInt64}
      (hf : isWord "FROM" f = true) (hr : refNumber 'N' r = some id)
      (ht : isWord "TO" t = true) (hr' : refNumber 'N' r' = some id') :
      Command u .path [f, r, t, r'] rest (.shortestPath ⟨id⟩ ⟨id'⟩)
  | countNodes {k : String} {rest : List String} (hk : u.toUppercase k = "NODES") :
      Command u .count [k] rest .countNodes
  | countEdges {k : String} {rest : List String} (hk : u.toUppercase k = "EDGES") :
      Command u .count [k] rest .countEdges

/-- A word in capitals, then what the word selects. -/
theorem reads_dispatch {α : Type} {u : Unicode} {f : String → Parsing GraphError String α}
    {M : String → List String → List String → α → Prop} (hf : ∀ kw, Reads (f kw) (M kw)) :
    Reads (keyword u >>= f) fun ts rest v =>
      ∃ t ts', ts = t :: ts' ∧ M (u.toUppercase t) ts' rest v := by
  apply (Reads.bind_nextBy hf).congr
  intro ts rest v
  apply exists_congr
  intro t
  apply exists_congr
  intro ts'
  constructor
  · rintro ⟨kw, rfl, h, hm⟩
    cases h
    exact ⟨rfl, hm⟩
  · rintro ⟨rfl, hm⟩
    exact ⟨_, rfl, rfl, hm⟩

section TwoWords

variable {a : Parsing GraphError String QueryCommand} {kind w w' : String}
  {L M : List String → List String → QueryCommand → Prop}

/-- A kind that is the first of two words. -/
theorem reads_first (ha : Reads a L) (hne : w ≠ w') :
    Reads a fun ts rest cmd => w = w ∧ L ts rest cmd ∨ w = w' ∧ M ts rest cmd := by
  apply ha.congr
  intro ts rest cmd
  rw [or_iff_left fun h => hne h.1, and_iff_right rfl]

theorem reads_second (ha : Reads a M) (hne : w' ≠ w) :
    Reads a fun ts rest cmd => w' = w ∧ L ts rest cmd ∨ w' = w' ∧ M ts rest cmd := by
  apply ha.congr
  intro ts rest cmd
  rw [or_iff_right fun h => hne h.1, and_iff_right rfl]

theorem reads_neither (hw : kind ≠ w) (hw' : kind ≠ w') (e : GraphError) :
    Reads (Parsing.fail e : Parsing GraphError String QueryCommand) fun ts rest cmd =>
      kind = w ∧ L ts rest cmd ∨ kind = w' ∧ M ts rest cmd := by
  apply (Reads.fail e).congr
  intro ts rest cmd
  exact iff_of_false id fun h => h.elim (fun h => hw h.1) fun h => hw' h.1

end TwoWords

theorem reads_parseMatch (u : Unicode) : Reads (parseMatch u) (Command u .select) := by
  refine (reads_dispatch (M := fun kind ts rest cmd =>
    kind = "NODE" ∧ (∃ filter, (∃ cs, Filter u false ts rest cs ∧
      filter = cs.foldl NodeFilter.store .default) ∧ cmd = .matchNodes filter) ∨
    kind = "EDGE" ∧ ∃ filter, (∃ cs, Filter u true ts rest cs ∧
      filter = cs.foldl EdgeFilter.store .default) ∧ cmd = .matchEdges filter)
    fun kind => ?_).congr ?_
  · split
    · exact reads_first ((reads_parseOptionalNodeFilter u).map QueryCommand.matchNodes) (by decide)
    · exact reads_second ((reads_parseOptionalEdgeFilter u).map QueryCommand.matchEdges) (by decide)
    · next hnode hedge => exact reads_neither hnode hedge _
  · intro ts rest cmd
    constructor
    · rintro ⟨k, ts', rfl, ⟨hk, _, ⟨cs, hcs, rfl⟩, rfl⟩ | ⟨hk, _, ⟨cs, hcs, rfl⟩, rfl⟩⟩
      · exact .matchNodes hk hcs
      · exact .matchEdges hk hcs
    · intro h
      cases h with
      | matchNodes hk hcs => exact ⟨_, _, rfl, .inl ⟨hk, _, ⟨_, hcs, rfl⟩, rfl⟩⟩
      | matchEdges hk hcs => exact ⟨_, _, rfl, .inr ⟨hk, _, ⟨_, hcs, rfl⟩, rfl⟩⟩

theorem reads_parseGet (u : Unicode) : Reads (parseGet u) (Command u .get) := by
  refine (reads_dispatch (M := fun kind ts _ cmd =>
    kind = "NODE" ∧ (∃ id, (∃ r n, ts = [r] ∧ refNumber 'N' r = some n ∧ id = ⟨n⟩) ∧
      cmd = .getNode id) ∨
    kind = "EDGE" ∧ ∃ id, (∃ r n, ts = [r] ∧ refNumber 'E' r = some n ∧ id = ⟨n⟩) ∧
      cmd = .getEdge id)
    fun kind => ?_).congr ?_
  · split
    · exact reads_first (reads_ref.map QueryCommand.getNode) (by decide)
    · exact reads_second (reads_ref.map QueryCommand.getEdge) (by decide)
    · next hnode hedge => exact reads_neither hnode hedge _
  · intro ts rest cmd
    constructor
    · rintro ⟨k, ts', rfl, ⟨hk, _, ⟨r, n, rfl, hr, rfl⟩, rfl⟩ | ⟨hk, _, ⟨r, n, rfl, hr, rfl⟩, rfl⟩⟩
      · exact .getNode hk hr
      · exact .getEdge hk hr
    · intro h
      cases h with
      | getNode hk hr => exact ⟨_, _, rfl, .inl ⟨hk, _, ⟨_, _, rfl, hr, rfl⟩, rfl⟩⟩
      | getEdge hk hr => exact ⟨_, _, rfl, .inr ⟨hk, _, ⟨_, _, rfl, hr, rfl⟩, rfl⟩⟩

theorem reads_parseTraverse (u : Unicode) : Reads (parseTraverse u) (Command u .traverse) := by
  refine (reads_dispatch (M := fun algo ts _ cmd => ∃ kind f r n, algo = TraversalKind.keyword kind ∧
    ts = [f, r] ∧ isWord "FROM" f = true ∧ refNumber 'N' r = some n ∧ cmd = .traverse kind ⟨n⟩)
    fun algo => ?_).congr ?_
  · apply (Reads.bind_tryRead fun kind => (reads_expect "FROM").bind fun _ =>
      reads_ref.map (QueryCommand.traverse kind)).congr
    intro ts rest cmd
    constructor
    · rintro ⟨kind, hkind, _, _, _, rfl, ⟨f, rfl, hf⟩, _, ⟨r, n, rfl, hr, rfl⟩, rfl⟩
      exact ⟨kind, f, r, n, traversalKind_eq_ok.mp hkind, rfl, hf, hr, rfl⟩
    · rintro ⟨kind, f, r, n, hkind, rfl, hf, hr, rfl⟩
      exact ⟨kind, traversalKind_eq_ok.mpr hkind, [f], [r], (), rfl, ⟨f, rfl, hf⟩, _,
        ⟨r, n, rfl, hr, rfl⟩, rfl⟩
  · intro ts rest cmd
    constructor
    · rintro ⟨a, _, rfl, kind, f, r, n, ha, rfl, hf, hr, rfl⟩
      exact .traverse ha hf hr
    · intro h
      cases h with
      | traverse ha hf hr => exact ⟨_, _, rfl, _, _, _, _, ha, rfl, hf, hr, rfl⟩

theorem reads_parsePath (u : Unicode) : Reads parsePath (Command u .path) := by
  apply ((reads_expect "FROM").bind fun _ => reads_ref.bind fun start =>
    (reads_expect "TO").bind fun _ => reads_ref.map (QueryCommand.shortestPath start)).congr
  intro ts rest cmd
  constructor
  · rintro ⟨_, _, _, rfl, ⟨f, rfl, hf⟩, _, _, _, rfl, ⟨r, n, rfl, hr, rfl⟩, _, _, _, rfl,
      ⟨t, rfl, ht⟩, _, ⟨r', n', rfl, hr', rfl⟩, rfl⟩
    exact .path hf hr ht hr'
  · intro h
    cases h with
    | path hf hr ht hr' =>
      exact ⟨[_], _, (), rfl, ⟨_, rfl, hf⟩, [_], _, _, rfl, ⟨_, _, rfl, hr, rfl⟩, [_], _, (), rfl,
        ⟨_, rfl, ht⟩, _, ⟨_, _, rfl, hr', rfl⟩, rfl⟩

theorem reads_parseCount (u : Unicode) : Reads (parseCount u) (Command u .count) := by
  refine (reads_dispatch (M := fun what ts _ cmd =>
    what = "NODES" ∧ (ts = [] ∧ cmd = .countNodes) ∨
    what = "EDGES" ∧ (ts = [] ∧ cmd = .countEdges)) fun what => ?_).congr ?_
  · split
    · exact reads_first (Reads.return _) (by decide)
    · exact reads_second (Reads.return _) (by decide)
    · next hnodes hedges => exact reads_neither hnodes hedges _
  · intro ts rest cmd
    constructor
    · rintro ⟨k, _, rfl, ⟨hk, rfl, rfl⟩ | ⟨hk, rfl, rfl⟩⟩
      · exact .countNodes hk
      · exact .countEdges hk
    · intro h
      cases h with
      | countNodes hk => exact ⟨_, _, rfl, .inl ⟨hk, rfl, rfl⟩⟩
      | countEdges hk => exact ⟨_, _, rfl, .inr ⟨hk, rfl, rfl⟩⟩

theorem Verb.word_injective {v w : Verb} (h : v.word = w.word) : v = w := by
  cases v <;> cases w <;> first | rfl | exact absurd h (by decide)

/-- The parser accepts the commands, whatever follows them. -/
theorem reads_parseCommand (u : Unicode) :
    Reads (parseCommand u) fun ts rest cmd =>
      ∃ t ts' verb, ts = t :: ts' ∧ u.toUppercase t = Verb.word verb ∧ Command u verb ts' rest cmd := by
  refine (reads_dispatch (M := fun kw ts rest cmd =>
    ∃ verb, kw = Verb.word verb ∧ Command u verb ts rest cmd) fun kw => ?_).congr ?_
  · have hverb {verb : Verb} {a : Parsing GraphError String QueryCommand}
        (ha : Reads a (Command u verb)) : Reads a fun ts rest cmd =>
          ∃ v, verb.word = Verb.word v ∧ Command u v ts rest cmd := by
      apply ha.congr
      intro ts rest cmd
      constructor
      · exact fun h => ⟨verb, rfl, h⟩
      · rintro ⟨v, hv, h⟩
        rwa [Verb.word_injective hv]
    split
    · exact hverb (reads_parseMatch u)
    · exact hverb (reads_parseGet u)
    · exact hverb (reads_parseTraverse u)
    · exact hverb (reads_parsePath u)
    · exact hverb (reads_parseCount u)
    · next h1 h2 h3 h4 h5 =>
      apply (Reads.fail _).congr
      intro ts rest cmd
      constructor
      · exact False.elim
      · rintro ⟨verb, hv, _⟩
        cases verb
        · exact h1 hv
        · exact h2 hv
        · exact h3 hv
        · exact h4 hv
        · exact h5 hv
  · intro ts rest cmd
    constructor
    · rintro ⟨t, ts', rfl, verb, hv, h⟩
      exact ⟨t, ts', verb, rfl, hv, h⟩
    · rintro ⟨t, ts', verb, rfl, hv, h⟩
      exact ⟨t, ts', rfl, verb, hv, h⟩

/-- A query is accepted exactly if a command stands at its start. -/
theorem parse_eq_ok (u : Unicode) (query : String) (cmd : QueryCommand) :
    parse u query = .ok cmd ↔
      ∃ t ts rest verb, tokenize query = t :: ts ++ rest ∧ u.toUppercase t = Verb.word verb ∧
        Command u verb ts rest cmd := by
  rw [parse, Parsing.Reads.run (reads_parseCommand u)]
  constructor
  · rintro ⟨_, rest, h, t, ts, verb, rfl, ht, hc⟩
    exact ⟨t, ts, rest, verb, h, ht, hc⟩
  · rintro ⟨t, ts, rest, verb, h, ht, hc⟩
    exact ⟨_, rest, h, t, ts, verb, rfl, ht, hc⟩

end SimpleQuery
end AdGraphDb
