import AdGraphDb.Query.SimpleGrammar
import AdGraphDb.Query.CypherGrammar

/-!
# Filters as conjunctions

A filter keeps the last condition on the label, the last one on the weight and all
conditions on properties. It means the conjunction of its conditions exactly if what it
drops follows from what it keeps.
-/

namespace AdGraphDb

/-! ## What a filter keeps -/

/-- The command that selects by conditions. -/
def selection (edges : Bool) (cs : List Condition) : QueryCommand :=
  if edges then .matchEdges (cs.foldl EdgeFilter.store .default)
  else .matchNodes (cs.foldl NodeFilter.store .default)

/-- Whether a command returns an element of the graph for its filter. -/
def QueryCommand.selects : QueryCommand → Element → Bool
  | .matchNodes f, .node n => f.matches n
  | .matchEdges f, .edge e => f.matches e
  | _, _ => false

/-- What a command selects by conditions: edges or nodes. -/
def QueryCommand.edges? : QueryCommand → Option Bool
  | .matchNodes _ => some false
  | .matchEdges _ => some true
  | _ => none

/-- The last condition on the label, the last one on the weight, all on properties. -/
def Kept (cs : List Condition) (x : Element) : Prop :=
  (∀ l ∈ (labels cs).getLast?, (Condition.label l).holds x = true) ∧
    (∀ c ∈ (weights cs).getLast?, (Condition.weight c).holds x = true) ∧
    ∀ c ∈ properties cs, (Condition.property c).holds x = true

theorem selection_selects {cs : List Condition} (x : Element)
    (hnode : x.isEdge = false → weights cs = []) :
    (selection x.isEdge cs).selects x = true ↔ Kept cs x := by
  unfold Kept
  cases x with
  | node n =>
    rw [hnode rfl]
    change (cs.foldl NodeFilter.store .default).matches n = true ↔ _
    rw [foldl_nodeStore]
    cases h : (labels cs).getLast? <;>
      simp [NodeFilter.matches, NodeFilter.default, Element.label, Element.properties]
  | edge e =>
    change (cs.foldl EdgeFilter.store .default).matches e = true ↔ _
    rw [foldl_edgeStore]
    cases h : (labels cs).getLast? <;> cases h' : (weights cs).getLast? <;>
      simp [EdgeFilter.matches, EdgeFilter.default, Element.label, Element.properties]

/-! ## When nothing is lost -/

/-- Some properties and some weight meet what is kept of a chain. -/
def Satisfiable (cs : List Condition) : Prop :=
  (∃ props : Properties, ∀ c ∈ properties cs, c.matchesProperties props = true) ∧
    ∃ w : F64, ∀ c ∈ (weights cs).getLast?, c.matches w = true

/-- All conditions on the label name one label, and every condition on the weight follows
from the last one. -/
def NothingLost (cs : List Condition) : Prop :=
  (∀ l ∈ labels cs, (labels cs).getLast? = some l) ∧
    ∀ c ∈ weights cs, ∀ w, (∀ d ∈ (weights cs).getLast?, d.matches w = true) → c.matches w = true

theorem kept_iff_of_nothingLost {cs : List Condition} {x : Element}
    (h : Satisfiable cs → NothingLost cs) (hnode : x.isEdge = false → weights cs = []) :
    Kept cs x ↔ ∀ c ∈ cs, c.holds x = true := by
  constructor
  · rintro ⟨hlabel, hweight, hprops⟩
    have hsat : Satisfiable cs := by
      refine ⟨⟨x.properties, fun c hc => ?_⟩, ?_⟩
      · rw [← Condition.holds_property]
        exact hprops c hc
      · cases x with
        | node n => exact ⟨F64.zero, fun c hc => by rw [hnode rfl] at hc; cases hc⟩
        | edge e => exact ⟨e.weight, hweight⟩
    obtain ⟨hl, hw⟩ := h hsat
    intro c hc
    cases c with
    | label l => exact hlabel l (hl l (mem_labels.mpr hc))
    | weight c =>
      have hmem := mem_weights.mpr hc
      cases x with
      | node n =>
        rw [hnode rfl] at hmem
        cases hmem
      | edge e => exact hw c hmem e.weight hweight
    | property c => exact hprops c (mem_properties.mpr hc)
  · intro hall
    refine ⟨fun l hl => ?_, fun c hc => ?_, fun c hc => ?_⟩
    · exact hall _ (mem_labels.mp (List.mem_of_getLast? hl))
    · exact hall _ (mem_weights.mp (List.mem_of_getLast? hc))
    · exact hall _ (mem_properties.mp hc)

/-- An element with the given parts. -/
def Element.of (edge : Bool) (label : String) (weight : F64) (props : Properties) : Element :=
  if edge then .edge ⟨⟨0⟩, ⟨0⟩, ⟨0⟩, label, weight, props⟩ else .node ⟨⟨0⟩, label, props⟩

@[simp] theorem Element.of_label (edge : Bool) (label : String) (weight : F64)
    (props : Properties) : (Element.of edge label weight props).label = label := by
  cases edge <;> rfl

theorem nothingLost_of_kept_iff {cs : List Condition} {edges : Bool}
    (hnode : edges = false → weights cs = [])
    (h : ∀ x : Element, x.isEdge = edges → Kept cs x → ∀ c ∈ cs, c.holds x = true)
    (hsat : Satisfiable cs) : NothingLost cs := by
  obtain ⟨⟨props, hprops⟩, w, hw⟩ := hsat
  -- elements that meet what is kept, with any weight that does
  have hall (label : String) (hlabel : ∀ l ∈ (labels cs).getLast?, label = l) (w : F64)
      (hw : ∀ d ∈ (weights cs).getLast?, d.matches w = true) :
      ∀ c ∈ cs, c.holds (Element.of edges label w props) = true := by
    cases edges with
    | false =>
      refine h (.node ⟨⟨0⟩, label, props⟩) rfl ⟨fun l hl => ?_, ?_, fun c hc => ?_⟩
      · exact (Condition.holds_label l _).mpr (hlabel l hl)
      · rw [hnode rfl]
        exact fun c hc => by cases hc
      · rw [Condition.holds_property]
        exact hprops c hc
    | true =>
      refine h (.edge ⟨⟨0⟩, ⟨0⟩, ⟨0⟩, label, w, props⟩) rfl ⟨fun l hl => ?_, hw, fun c hc => ?_⟩
      · exact (Condition.holds_label l _).mpr (hlabel l hl)
      · rw [Condition.holds_property]
        exact hprops c hc
  constructor
  · intro l hl
    cases hlast : (labels cs).getLast? with
    | none =>
      rw [List.getLast?_eq_none_iff.mp hlast] at hl
      cases hl
    | some l' =>
      have heq := hall l' (fun _ h => Option.some.inj (hlast.symm.trans h)) w hw _ (mem_labels.mp hl)
      rw [Condition.holds_label, Element.of_label] at heq
      rw [heq]
  · intro c hc w' hw'
    have hlabel : ∃ label, ∀ l ∈ (labels cs).getLast?, label = l := by
      cases (labels cs).getLast? with
      | none => exact ⟨"", fun _ h => by cases h⟩
      | some l => exact ⟨l, fun _ h => Option.some.inj h⟩
    obtain ⟨label, hlabel⟩ := hlabel
    have := hall label hlabel w' hw' _ (mem_weights.mp hc)
    cases edges with
    | false => cases this
    | true => exact this

/-! ## The two languages -/

inductive QueryLanguage where
  | simpleQuery
  | cypherLite
deriving DecidableEq

namespace QueryLanguage

def parse (fmt : CypherLite.DebugFormat) (u : Unicode) :
    QueryLanguage → String → Except (Stop GraphError) QueryCommand
  | simpleQuery, query => SimpleQuery.parse u query
  | cypherLite, query => CypherLite.parse fmt u query

/-- A node pattern, or an edge pattern between two of them, with the label it asks for. -/
def Pattern : Bool → Option String → List CypherLite.Token → Prop
  | false, label, ts => ∃ var, ts = CypherLite.nodePattern var label
  | true, label, ts => ∃ var var₁ label₁ var₂ label₂, ts = CypherLite.nodePattern var₁ label₁ ++
      (CypherLite.relPattern var label ++ CypherLite.nodePattern var₂ label₂)

/-- The text asks for the nodes or the edges that meet these conditions; the label of a
pattern is one of them. -/
def Asks (u : Unicode) : QueryLanguage → String → Bool → List Condition → Prop
  | simpleQuery, query, edges, cs => ∃ m k ts rest,
      SimpleQuery.tokenize query = m :: k :: ts ++ rest ∧ u.toUppercase m = "MATCH" ∧
        u.toUppercase k = (if edges then "EDGE" else "NODE") ∧
        SimpleQuery.Filter u edges ts rest cs
  | cypherLite, query, edges, cs => ∃ label pattern ts ts' rest cs',
      CypherLite.lex u query = .ok (.keyword "MATCH" :: (pattern ++ (ts ++ ts')) ++ rest) ∧
        Pattern edges label pattern ∧ CypherLite.Filter edges ts (ts' ++ rest) cs' ∧
        CypherLite.Return ts' rest ∧ cs = (label.map Condition.label).toList ++ cs'

variable {fmt : CypherLite.DebugFormat} {u : Unicode} {lang : QueryLanguage} {query : String}
  {edges : Bool} {cs : List Condition}

theorem parse_of_asks (h : lang.Asks u query edges cs) :
    lang.parse fmt u query = .ok (selection edges cs) := by
  cases lang with
  | simpleQuery =>
    obtain ⟨m, k, ts, rest, hquery, hm, hk, hts⟩ := h
    apply (SimpleQuery.parse_eq_ok u query _).mpr
    refine ⟨m, k :: ts, rest, .select, hquery, hm, ?_⟩
    cases edges with
    | false => exact .matchNodes hk hts
    | true => exact .matchEdges hk hts
  | cypherLite =>
    obtain ⟨label, pattern, ts, ts', rest, cs', hlex, hpattern, hts, hr, rfl⟩ := h
    apply (CypherLite.parse_eq_ok fmt u query _).mpr
    refine ⟨_, rest, hlex, .select ?_⟩
    cases edges with
    | false =>
      obtain ⟨var, rfl⟩ := hpattern
      have := @CypherLite.Match.nodes var label _ _ _ _ hts hr
      cases label <;> exact this
    | true =>
      obtain ⟨var, var₁, label₁, var₂, label₂, rfl⟩ := hpattern
      rw [List.append_assoc, List.append_assoc]
      have := @CypherLite.Match.edges var label var₁ label₁ var₂ label₂ _ _ _ _ hts hr
      cases label <;> exact this

theorem asks_of_parse {cmd : QueryCommand} (h : lang.parse fmt u query = .ok cmd)
    (hcmd : cmd.edges? = some edges) : ∃ cs, lang.Asks u query edges cs := by
  cases lang with
  | simpleQuery =>
    obtain ⟨m, ts, rest, verb, hquery, hm, hc⟩ := (SimpleQuery.parse_eq_ok u query cmd).mp h
    cases hc with
    | matchNodes hk hcs =>
      cases hcmd
      exact ⟨_, m, _, _, rest, hquery, hm, hk, hcs⟩
    | matchEdges hk hcs =>
      cases hcmd
      exact ⟨_, m, _, _, rest, hquery, hm, hk, hcs⟩
    | _ => cases hcmd
  | cypherLite =>
    obtain ⟨ts, rest, hlex, hc⟩ := (CypherLite.parse_eq_ok fmt u query cmd).mp h
    cases hc with
    | select hm =>
      cases hm with
      | nodes hts hr =>
        cases hcmd
        exact ⟨_, _, _, _, _, rest, _, hlex, ⟨_, rfl⟩, hts, hr, rfl⟩
      | edges hts hr =>
        cases hcmd
        rw [← List.append_assoc (CypherLite.relPattern _ _), ← List.append_assoc] at hlex
        exact ⟨_, _, _, _, _, rest, _, hlex, ⟨_, _, _, _, _, rfl⟩, hts, hr, rfl⟩
    | _ => cases hcmd

theorem weights_eq_nil (h : lang.Asks u query false cs) : weights cs = [] := by
  apply List.eq_nil_iff_forall_not_mem.mpr
  intro c hc
  rw [mem_weights] at hc
  cases lang with
  | simpleQuery =>
    obtain ⟨m, k, ts, rest, _, _, _, hts⟩ := h
    cases hts with
    | all => cases hc
    | chain _ hts _ =>
      obtain ⟨ts', _, h⟩ := hts.mem hc
      cases h with
      | weight h => cases h
  | cypherLite =>
    obtain ⟨label, pattern, ts, ts', rest, cs', _, _, hts, _, rfl⟩ := h
    rw [List.mem_append] at hc
    rcases hc with hc | hc
    · cases label <;> simp at hc
    · cases hts with
      | all => cases hc
      | chain hts _ =>
        obtain ⟨ts', _, h⟩ := hts.mem hc
        cases h with
        | weight h => cases h

/-- Every text that selects nodes or edges is a chain of conditions, and the filter built
from it means their conjunction exactly if nothing is lost. -/
theorem selects_conjunction_iff (fmt : CypherLite.DebugFormat) (u : Unicode)
    (lang : QueryLanguage) (query : String) (cmd : QueryCommand) (edges : Bool)
    (hparse : lang.parse fmt u query = .ok cmd) (hcmd : cmd.edges? = some edges) :
    (∃ cs, lang.Asks u query edges cs) ∧
      ∀ cs, lang.Asks u query edges cs →
        ((∀ x : Element, x.isEdge = edges → (cmd.selects x = true ↔ ∀ c ∈ cs, c.holds x = true)) ↔
          (Satisfiable cs → NothingLost cs)) := by
  refine ⟨asks_of_parse hparse hcmd, fun cs hcs => ?_⟩
  have hsel : cmd = selection edges cs := by
    rw [parse_of_asks hcs] at hparse
    exact (Except.ok.inj hparse).symm
  have hnode : edges = false → weights cs = [] := by
    rintro rfl
    exact weights_eq_nil hcs
  have hkept {x : Element} (hx : x.isEdge = edges) : cmd.selects x = true ↔ Kept cs x := by
    subst hx
    rw [hsel, selection_selects x hnode]
  constructor
  · intro h
    apply nothingLost_of_kept_iff hnode
    intro x hx hk
    exact (h x hx).mp ((hkept hx).mpr hk)
  · intro h x hx
    rw [hkept hx]
    exact kept_iff_of_nothingLost h (hx ▸ hnode)

/-- Conditions on the label, the weight and a property, of which nothing is lost. -/
theorem threeConditions_conjunction :
    let query := "MATCH EDGE WHERE label = \"RAIL\" AND weight < 5 AND props.lanes != 2"
    let cs : List Condition := [.label "RAIL", .weight ⟨.lt, ⟨0x4014000000000000⟩⟩,
      .property ⟨"lanes", .notEq, .integer 2⟩]
    simpleQuery.Asks .plain query true cs ∧ ∀ x : Element, x.isEdge = true →
      ((selection true cs).selects x = true ↔ ∀ c ∈ cs, c.holds x = true) := by
  intro query cs
  have hasks : simpleQuery.Asks .plain query true cs := by
    refine ⟨"MATCH", "EDGE", ["WHERE", "label", "=", "\"RAIL\"", "AND", "weight", "<", "5", "AND",
      "props.lanes", "!=", "2"], [], by decide +kernel, by decide +kernel, by decide +kernel,
      .chain (by decide +kernel) ?_ rfl⟩
    have hlabel : SimpleQuery.Clause .plain true ["label", "=", "\"RAIL\""] (.label "RAIL") :=
      .label (by decide) (by decide +kernel)
    have hweight : SimpleQuery.Clause .plain true ["weight", ComparisonOp.lt.display, "5"]
        (.weight ⟨.lt, ⟨0x4014000000000000⟩⟩) := .weight rfl (by decide) (by decide +kernel)
    have hlanes : SimpleQuery.Clause .plain true ["props.lanes", ComparisonOp.notEq.display, "2"]
        (.property ⟨"lanes", .notEq, .integer 2⟩) :=
      .property (by decide +kernel) (by decide +kernel) (by decide +kernel)
    have hand : SimpleQuery.isWord "AND" "AND" = true := by decide
    exact .and hlabel hand (.and hweight hand (.last hlanes))
  have hlost : NothingLost cs := by
    constructor
    · intro l hl
      obtain rfl := List.mem_singleton.mp hl
      rfl
    · intro c hc w hw
      obtain rfl := List.mem_singleton.mp hc
      exact hw _ rfl
  exact ⟨hasks, ((selects_conjunction_iff ⟨id, fun _ => "5.0"⟩ .plain simpleQuery query _ true
    (parse_of_asks hasks) rfl).2 cs hasks).mpr fun _ => hlost⟩

/-- Of `weight > 1 AND weight < 5` the filter drops the first half: it matches an edge of
weight zero. -/
theorem twoWeights_not_conjunction :
    ¬ ∀ (fmt : CypherLite.DebugFormat) (u : Unicode) (lang : QueryLanguage) (query : String)
      (cmd : QueryCommand) (edges : Bool) (cs : List Condition),
      lang.parse fmt u query = .ok cmd → cmd.edges? = some edges → cs ≠ [] →
      lang.Asks u query edges cs → ∀ x : Element, x.isEdge = edges →
        (cmd.selects x = true ↔ ∀ c ∈ cs, c.holds x = true) := by
  intro h
  have hasks : simpleQuery.Asks .plain "MATCH EDGE WHERE weight > 1 AND weight < 5" true
      [.weight ⟨.gt, ⟨0x3FF0000000000000⟩⟩, .weight ⟨.lt, ⟨0x4014000000000000⟩⟩] := by
    refine ⟨"MATCH", "EDGE", ["WHERE", "weight", ">", "1", "AND", "weight", "<", "5"], [],
      by decide +kernel, by decide +kernel, by decide +kernel, .chain (by decide +kernel) ?_ rfl⟩
    have hfirst : SimpleQuery.Clause .plain true ["weight", ComparisonOp.gt.display, "1"]
        (.weight ⟨.gt, ⟨0x3FF0000000000000⟩⟩) := .weight rfl (by decide) (by decide +kernel)
    have hsecond : SimpleQuery.Clause .plain true ["weight", ComparisonOp.lt.display, "5"]
        (.weight ⟨.lt, ⟨0x4014000000000000⟩⟩) := .weight rfl (by decide) (by decide +kernel)
    have hand : SimpleQuery.isWord "AND" "AND" = true := by decide
    exact .and hfirst hand (.last hsecond)
  have := h ⟨id, fun _ => "5.0"⟩ .plain simpleQuery _ _ true _ (parse_of_asks hasks) rfl
    (List.cons_ne_nil _ _) hasks (.edge ⟨⟨0⟩, ⟨0⟩, ⟨0⟩, "RAIL", F64.zero, ∅⟩) rfl
  have hmatch : (selection true [.weight ⟨.gt, ⟨0x3FF0000000000000⟩⟩,
      .weight ⟨.lt, ⟨0x4014000000000000⟩⟩]).selects
        (.edge ⟨⟨0⟩, ⟨0⟩, ⟨0⟩, "RAIL", F64.zero, ∅⟩) = true := by decide +kernel
  exact absurd (this.mp hmatch _ List.mem_cons_self) (by decide +kernel)

end QueryLanguage

end AdGraphDb
