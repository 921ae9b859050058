import AdGraphDb.Core.Graph

/-!
# Query commands

The intermediate representation that every parser produces.
-/

namespace AdGraphDb
open Std

inductive ComparisonOp where
  | eq
  | notEq
  | lt
  | ltEq
  | gt
  | gtEq
deriving DecidableEq

namespace ComparisonOp

/-- `Display`. -/
def display : ComparisonOp → String
  | eq => "="
  | notEq => "!="
  | lt => "<"
  | ltEq => "<="
  | gt => ">"
  | gtEq => ">="

/-- Whether the operator admits an ordering of its operands. -/
def admits : ComparisonOp → Ordering → Bool
  | eq, o => o.isEq
  | notEq, o => !o.isEq
  | lt, o => o.isLT
  | ltEq, o => o.isLE
  | gt, o => o.isGT
  | gtEq, o => o.isGE

/-- `compare_ord`. Equality of strings, integers and booleans agrees with their order. -/
def compareOrd {α : Type} [Ord α] (op : ComparisonOp) (lhs rhs : α) : Bool :=
  op.admits (compare lhs rhs)

/-- `compare_f64`. Equality is up to `f64::EPSILON`. -/
def compareF64 (op : ComparisonOp) (lhs rhs : F64) : Bool :=
  match op with
  | eq => (lhs.sub rhs).abs.lt F64.epsilon
  | notEq => F64.epsilon.le (lhs.sub rhs).abs
  | lt => lhs.lt rhs
  | ltEq => lhs.le rhs
  | gt => rhs.lt lhs
  | gtEq => rhs.le lhs

def compareValues (op : ComparisonOp) : Value → Value → Bool
  | .text a, .text b => op.compareOrd a b
  | .integer a, .integer b => op.compareOrd a b
  | .float a, .float b => op.compareF64 a b
  | .integer a, .float b => op.compareF64 (F64.ofInt a.toInt) b
  | .float a, .integer b => op.compareF64 a (F64.ofInt b.toInt)
  | .boolean a, .boolean b => op.compareOrd a b
  | lhs, rhs => op == eq && lhs.eq rhs

theorem compareF64_congr (op : ComparisonOp) (x : F64) {a b : F64} (h : F64.eq a b = true) :
    op.compareF64 x a = op.compareF64 x b := by
  have hsub := F64.abs_sub_congr h x
  simp only [F64.eq, Bool.and_eq_true, Bool.not_eq_true', decide_eq_true_eq] at h
  obtain ⟨⟨ha, hb⟩, hk⟩ := h
  unfold compareF64
  rw [hsub]
  cases op <;> simp only [F64.lt, F64.le, ha, hb, hk]

/-- Values that are equal for `==` satisfy the same comparisons. -/
theorem compareValues_congr (op : ComparisonOp) (x : Value) {a b : Value} (h : a.eq b = true) :
    op.compareValues x a = op.compareValues x b := by
  cases a <;> cases b <;> simp only [Value.eq, Bool.false_eq_true, beq_iff_eq] at h
  case float.float =>
    cases x <;> first | exact op.compareF64_congr _ h | rfl
  all_goals first | rfl | rw [h]

end ComparisonOp

structure PropertyCondition where
  key : String
  op : ComparisonOp
  value : Value
deriving DecidableEq

def PropertyCondition.matchesProperties (c : PropertyCondition) (props : Properties) : Bool :=
  match props[c.key]? with
  | none => false
  | some actual => c.op.compareValues actual c.value

structure WeightCondition where
  op : ComparisonOp
  value : F64
deriving DecidableEq

def WeightCondition.matches (c : WeightCondition) (actual : F64) : Bool :=
  c.op.compareF64 actual c.value

structure NodeFilter where
  label : Option String
  propertyConditions : List PropertyCondition
deriving DecidableEq

/-- `Default::default()`. -/
def NodeFilter.default : NodeFilter := ⟨none, []⟩

def NodeFilter.matches (f : NodeFilter) (node : Node) : Bool :=
  (match f.label with
    | some expected => decide (node.label = expected)
    | none => true) &&
    f.propertyConditions.all fun c => c.matchesProperties node.properties

structure EdgeFilter where
  label : Option String
  weightCondition : Option WeightCondition
  propertyConditions : List PropertyCondition
deriving DecidableEq

def EdgeFilter.default : EdgeFilter := ⟨none, none, []⟩

def EdgeFilter.matches (f : EdgeFilter) (edge : Edge) : Bool :=
  (match f.label with
    | some expected => decide (edge.label = expected)
    | none => true) &&
    ((match f.weightCondition with
      | some wc => wc.matches edge.weight
      | none => true) &&
      f.propertyConditions.all fun c => c.matchesProperties edge.properties)

inductive TraversalKind where
  | bfs
  | dfs
deriving DecidableEq

/-- The word that both languages use. -/
def TraversalKind.keyword : TraversalKind → String
  | bfs => "BFS"
  | dfs => "DFS"

inductive QueryCommand where
  | matchNodes (filter : NodeFilter)
  | matchEdges (filter : EdgeFilter)
  | getNode (id : NodeId)
  | getEdge (id : EdgeId)
  | traverse (kind : TraversalKind) (start : NodeId)
  | shortestPath (start goal : NodeId)
  | countNodes
  | countEdges
deriving DecidableEq

end AdGraphDb
