import AdGraphDb.Query.Executor

/-!
# Plans and filters

Whatever the cost model chooses, the index lookup of a plan and the filter that is left select
the nodes that the filter of the command selects.
-/

namespace AdGraphDb

/-- The plan selects the nodes that the filter matches. A property scan meets the nodes with the
condition, and a label scan those with the label of the filter that is left. -/
def ExecutionPlan.Selects (stats : DatabaseStats) (filter : NodeFilter) : ExecutionPlan → Prop
  | .propertyIndexScan field op value remainingFilter =>
    stats.indexedNodeFields.contains field = true ∧ ∀ n : Node, filter.matches n = true ↔
      PropertyCondition.matchesProperties ⟨field, op, value⟩ n.properties = true ∧
        remainingFilter.matches n = true
  | .labelIndexScan label remainingFilter =>
    filter.label = some label ∧ remainingFilter.label.getD "" = label ∧
      ∀ n : Node, filter.matches n = true ↔ n.label = label ∧ remainingFilter.matches n = true
  | .fullNodeScan scanned => ∀ n : Node, filter.matches n = true ↔ scanned.matches n = true
  | _ => False

namespace QueryPlanner

theorem label_of_matches {filter : NodeFilter} {label : String} (h : filter.label = some label)
    {n : Node} (hn : filter.matches n = true) : n.label = label := by
  rw [NodeFilter.matches, h, Bool.and_eq_true] at hn
  exact of_decide_eq_true hn.1

theorem planByLabel_selects (filter : NodeFilter) (stats : DatabaseStats) :
    (planByLabel filter stats).Selects stats filter := by
  unfold planByLabel
  cases hlabel : filter.label with
  | none => exact fun n => Iff.rfl
  | some label =>
    dsimp only
    split_ifs
    · refine ⟨hlabel, by rw [hlabel, Option.getD_some], fun n => ?_⟩
      exact ⟨fun hn => ⟨label_of_matches hlabel hn, hn⟩, fun hn => hn.2⟩
    · exact fun n => Iff.rfl

/-- Planning keeps the filter, for all statistics and however the logarithm is rounded. -/
theorem plan_selects (log2Ceil : Nat → Nat) (filter : NodeFilter) (stats : DatabaseStats) :
    (plan log2Ceil (.matchNodes filter) stats).Selects stats filter := by
  cases hindexed : indexedCondition log2Ceil filter stats with
  | none =>
    rw [plan_of_not_indexed hindexed]
    exact planByLabel_selects filter stats
  | some c =>
    obtain ⟨hmem, hfield⟩ := mem_of_indexedCondition hindexed
    rw [plan_of_indexed hindexed]
    refine ⟨hfield, fun n => ?_⟩
    rw [matches_eq_remaining hmem, Bool.and_eq_true]
    exact and_comm

end QueryPlanner

end AdGraphDb
