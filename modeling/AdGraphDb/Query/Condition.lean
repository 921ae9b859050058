import AdGraphDb.Query.Ast

/-!
# Conditions

What one condition of a `WHERE` clause asks of a node or an edge, and where a filter
keeps it: a filter has one slot for a label, one for a weight and a list for properties.
-/

namespace AdGraphDb

/-- One condition of a `WHERE` clause. -/
inductive Condition where
  | label (l : String)
  | weight (c : WeightCondition)
  | property (c : PropertyCondition)
deriving DecidableEq

/-- What a filter is matched against. -/
inductive Element where
  | node (n : Node)
  | edge (e : Edge)

namespace Element

def isEdge : Element → Bool
  | node _ => false
  | edge _ => true

def label : Element → String
  | node n => n.label
  | edge e => e.label

def properties : Element → Properties
  | node n => n.properties
  | edge e => e.properties

end Element

/-- Nodes have no weight. -/
def Condition.holds : Condition → Element → Bool
  | label l, x => decide (x.label = l)
  | weight c, .edge e => c.matches e.weight
  | weight _, .node _ => false
  | property c, x => c.matchesProperties x.properties

@[simp] theorem Condition.holds_label (l : String) (x : Element) :
    (Condition.label l).holds x = true ↔ x.label = l := decide_eq_true_iff

@[simp] theorem Condition.holds_weight (c : WeightCondition) (e : Edge) :
    (Condition.weight c).holds (.edge e) = c.matches e.weight := rfl

@[simp] theorem Condition.holds_property (c : PropertyCondition) (x : Element) :
    (Condition.property c).holds x = c.matchesProperties x.properties := by
  cases x <;> rfl

/-- The field assignments of `apply_node_condition`. -/
def NodeFilter.store (f : NodeFilter) : Condition → NodeFilter
  | .label l => { f with label := some l }
  | .weight _ => f
  | .property c => { f with propertyConditions := f.propertyConditions ++ [c] }

/-- The field assignments of `apply_edge_condition`. -/
def EdgeFilter.store (f : EdgeFilter) : Condition → EdgeFilter
  | .label l => { f with label := some l }
  | .weight c => { f with weightCondition := some c }
  | .property c => { f with propertyConditions := f.propertyConditions ++ [c] }

/-! ## The conditions that filters keep -/

/-- The labels that conditions ask for. -/
def labels (cs : List Condition) : List String :=
  cs.filterMap fun
    | .label l => some l
    | _ => none

def weights (cs : List Condition) : List WeightCondition :=
  cs.filterMap fun
    | .weight c => some c
    | _ => none

def properties (cs : List Condition) : List PropertyCondition :=
  cs.filterMap fun
    | .property c => some c
    | _ => none

theorem mem_labels {cs : List Condition} {l : String} : l ∈ labels cs ↔ .label l ∈ cs := by
  rw [labels, List.mem_filterMap]
  constructor
  · rintro ⟨c, hc, h⟩
    cases c <;> cases h
    exact hc
  · exact fun h => ⟨_, h, rfl⟩

theorem mem_weights {cs : List Condition} {c : WeightCondition} :
    c ∈ weights cs ↔ .weight c ∈ cs := by
  rw [weights, List.mem_filterMap]
  constructor
  · rintro ⟨c, hc, h⟩
    cases c <;> cases h
    exact hc
  · exact fun h => ⟨_, h, rfl⟩

theorem mem_properties {cs : List Condition} {c : PropertyCondition} :
    c ∈ properties cs ↔ .property c ∈ cs := by
  rw [properties, List.mem_filterMap]
  constructor
  · rintro ⟨c, hc, h⟩
    cases c <;> cases h
    exact hc
  · exact fun h => ⟨_, h, rfl⟩

/-! Labels in front of properties. -/

theorem labels_append_properties (ls : List String) (ps : List PropertyCondition) :
    labels (ls.map .label ++ ps.map .property) = ls := by
  simp [labels, List.filterMap_map]

theorem weights_append_properties (ls : List String) (ps : List PropertyCondition) :
    weights (ls.map .label ++ ps.map .property) = [] := by
  simp [weights]

theorem properties_append_properties (ls : List String) (ps : List PropertyCondition) :
    properties (ls.map .label ++ ps.map .property) = ps := by
  simp [properties, List.filterMap_map]

theorem labels_cons_label (l : String) (cs : List Condition) :
    labels (.label l :: cs) = l :: labels cs := rfl

theorem weights_cons_weight (c : WeightCondition) (cs : List Condition) :
    weights (.weight c :: cs) = c :: weights cs := rfl

theorem properties_cons_property (c : PropertyCondition) (cs : List Condition) :
    properties (.property c :: cs) = c :: properties cs := rfl

theorem foldl_nodeStore (cs : List Condition) (f : NodeFilter) :
    cs.foldl NodeFilter.store f =
      ⟨(labels cs).getLast?.or f.label, f.propertyConditions ++ properties cs⟩ := by
  induction cs generalizing f with
  | nil => simp [labels, properties]
  | cons c cs ih =>
    rw [List.foldl_cons, ih]
    cases c with
    | label l =>
      rw [labels_cons_label, List.getLast?_cons]
      cases h : (labels cs).getLast? <;> rfl
    | weight c => rfl
    | property c =>
      rw [properties_cons_property, NodeFilter.store, List.append_assoc, List.singleton_append]
      rfl

theorem foldl_edgeStore (cs : List Condition) (f : EdgeFilter) :
    cs.foldl EdgeFilter.store f =
      ⟨(labels cs).getLast?.or f.label, (weights cs).getLast?.or f.weightCondition,
        f.propertyConditions ++ properties cs⟩ := by
  induction cs generalizing f with
  | nil => simp [labels, weights, properties]
  | cons c cs ih =>
    rw [List.foldl_cons, ih]
    cases c with
    | label l =>
      rw [labels_cons_label, List.getLast?_cons]
      cases h : (labels cs).getLast? <;> rfl
    | weight c =>
      rw [weights_cons_weight, List.getLast?_cons]
      cases h : (weights cs).getLast? <;> rfl
    | property c =>
      rw [properties_cons_property, EdgeFilter.store, List.append_assoc, List.singleton_append]
      rfl

end AdGraphDb
