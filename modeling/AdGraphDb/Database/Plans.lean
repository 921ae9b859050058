import AdGraphDb.Index.Lookup
import AdGraphDb.Database.Context
import AdGraphDb.Database.Refinement

/-!
# Plans and answers

A plan that scans, or that goes through the label index, answers with the live nodes
that match. A plan that goes through the property index does so exactly when no node is
judged differently by the index and by the filter.
-/

namespace AdGraphDb
open Std AdGraphDb.Action QueryPlanner

theorem PlainGraph.WellFormed.nodup_ids {g : PlainGraph} (h : g.WellFormed) :
    (g.nodes.vals.map Node.id).Nodup :=
  ((HashMap.valuesIter_perm .sorted g.nodes).map Node.id).nodup_iff.mp
    (HashMap.nodup_valuesIter .sorted h.node)

/-- Two selections of a list agree as multisets exactly when they agree on its elements. -/
theorem filter_perm_filter_iff {α : Type} {p q : α → Bool} {l : List α} :
    (l.filter p).Perm (l.filter q) ↔ ∀ x ∈ l, p x = q x := by
  constructor
  · intro h x hx
    have hm := h.mem_iff (a := x)
    rw [List.mem_filter, List.mem_filter, and_iff_right hx, and_iff_right hx] at hm
    exact Bool.eq_iff_iff.mpr hm
  · intro h
    rw [List.filter_congr h]

namespace LayeredGraphDatabase

variable {S C : Type} [FileStorage S] [LawfulCachePort C] {L : StorageSpec S}
  {db : LayeredGraphDatabase S C} {g : PlainGraph}

namespace Sync

/-- The index of a field that has one. -/
theorem indexes (h : Sync L db g) {field : String} {fi : FieldIndex}
    (hf : db.propertyIndex.fields[field]? = some fi) :
    db.propertyIndex.Indexes field g.nodes.vals := by
  have hcovers := h.properties field
  split_ifs at hcovers
  · exact hcovers
  · rw [hcovers] at hf
    cases hf

theorem nodesByProperty (h : Sync L db g) (ord : HashOrder) {field : String} (op : ComparisonOp)
    (value : Value) (hf : db.propertyIndex.fields[field]?.isSome) :
    Returns (nodesByProperty ord field op value) db fun nodes db' =>
      nodes.Perm (g.nodes.vals.filter fun n =>
        (PropertyIndex.nodeKey field n).any (FieldKey.admitted op value)) ∧
      Sync L db' g ∧ db'.idGenerator = db.idGenerator := by
  obtain ⟨fi, hfi⟩ := Option.isSome_iff_exists.mp hf
  have hquery : db.propertyIndex.query field op value = some (fi.query op value) := by
    rw [PropertyIndex.query, hfi, Option.map_some]
  apply Returns.bind_read
  rw [hquery]
  apply Returns.mono (h.loadNodes ord _)
  rintro _ db' ⟨rfl, h', hid⟩
  refine ⟨?_, h', hid⟩
  apply (((h.indexes hfi).query h.wellFormed.nodup_ids hfi op value).filterMap _).trans
  rw [h.filterMap_ids fun n hn => (List.mem_filter.mp hn).1]

variable (algorithms : Algorithms) (log2Ceil : Nat → Nat)

theorem executePlan_fullNodeScan (h : Sync L db g) (ord : HashOrder) (filter : NodeFilter) :
    Returns (executePlan (context algorithms) ord (.fullNodeScan filter)) db fun r db' =>
      ∃ found, r = .nodes found ∧ found.Perm (g.nodes.vals.filter fun n => filter.matches n) ∧
        Sync L db' g := by
  apply Returns.bind (h.allNodes ord)
  rintro all db' ⟨hall, h', -⟩
  exact .pure ⟨_, rfl, hall.filter _, h'⟩

theorem executePlan_planByLabel (h : Sync L db g) (ord : HashOrder) (filter : NodeFilter)
    (stats : DatabaseStats) :
    Returns (executePlan (context algorithms) ord (planByLabel filter stats)) db fun r db' =>
      ∃ found, r = .nodes found ∧ found.Perm (g.nodes.vals.filter fun n => filter.matches n) ∧
        Sync L db' g := by
  unfold planByLabel
  cases hl : filter.label with
  | none => exact h.executePlan_fullNodeScan algorithms ord filter
  | some label =>
    dsimp only
    split_ifs
    · apply Returns.bind (h.nodesByLabel ord (filter.label.getD ""))
      rintro candidates db' ⟨hc, h', -⟩
      refine .pure ⟨_, rfl, ?_, h'⟩
      -- the label check of the remaining filter is redundant
      have hlabel (n : Node) :
          (filter.matches n && decide (n.label = filter.label.getD "")) = filter.matches n := by
        rw [hl, Option.getD_some, NodeFilter.matches, hl]
        by_cases hn : n.label = label <;> simp [hn]
      have hf := hc.filter fun n => filter.matches n
      rw [List.filter_filter] at hf
      simp only [hlabel] at hf
      exact hf
    · exact h.executePlan_fullNodeScan algorithms ord filter

theorem execute_of_not_indexed (h : Sync L db g) (ord : HashOrder) {filter : NodeFilter}
    (hc : indexedCondition log2Ceil filter (db.buildStats ord) = none) :
    Returns (execute (context algorithms) log2Ceil ord (.matchNodes filter)) db fun r db' =>
      ∃ found, r = .nodes found ∧ found.Perm (g.nodes.vals.filter fun n => filter.matches n) ∧
        Sync L db' g := by
  apply Returns.bind_read
  change Returns (executePlan _ _ (plan log2Ceil (.matchNodes filter) (db.buildStats ord))) _ _
  rw [plan_of_not_indexed hc]
  exact h.executePlan_planByLabel algorithms (ord.sub 0) filter _

theorem execute_of_indexed (h : Sync L db g) (ord : HashOrder) {filter : NodeFilter}
    {c : PropertyCondition}
    (hc : indexedCondition log2Ceil filter (db.buildStats ord) = some c) :
    Returns (execute (context algorithms) log2Ceil ord (.matchNodes filter)) db fun r db' =>
      ∃ found, r = .nodes found ∧ found.Perm (g.nodes.vals.filter fun n =>
        (remainingFilter filter c).matches n &&
          (PropertyIndex.nodeKey c.key n).any (FieldKey.admitted c.op c.value)) ∧
        Sync L db' g := by
  have hindexed := (mem_of_indexedCondition hc).2
  rw [contains_indexedNodeFields] at hindexed
  apply Returns.bind_read
  change Returns (executePlan _ _ (plan log2Ceil (.matchNodes filter) (db.buildStats ord))) _ _
  rw [plan_of_indexed hc]
  apply Returns.bind (h.nodesByProperty (ord.sub 0) c.op c.value hindexed)
  rintro candidates db' ⟨hp, h', -⟩
  refine .pure ⟨_, rfl, ?_, h'⟩
  have hf := hp.filter fun n => (remainingFilter filter c).matches n
  rwa [List.filter_filter] at hf

end Sync

/-- `execute` answers a node query as the full scan does, with the matching live nodes. -/
def PlanIndependent (algorithms : Algorithms) (log2Ceil : Nat → Nat)
    (ord : HashOrder) (filter : NodeFilter) (db : LayeredGraphDatabase S C) (g : PlainGraph) : Prop :=
  ∃ found scanned,
    (execute (context algorithms) log2Ceil ord (.matchNodes filter) db).1 = .ok (.nodes found) ∧
    (executePlan (context algorithms) ord (.fullNodeScan filter) db).1 = .ok (.nodes scanned) ∧
    found.Perm scanned ∧ scanned.Perm (g.nodes.vals.filter fun n => filter.matches n)

/-- A node that passes the rest of the filter carries a value of a mismatching kind. -/
def Mismatched (filter : NodeFilter) (c : PropertyCondition) (g : PlainGraph) : Prop :=
  ∃ n ∈ g.nodes.vals, (remainingFilter filter c).matches n = true ∧
    ∃ stored, n.properties[c.key]? = some stored ∧ c.op.Mismatch stored c.value

/-- On a node, the index and the filter disagree about the condition exactly on a mismatch. -/
theorem nodeKey_any_ne_iff (c : PropertyCondition) (n : Node) :
    (PropertyIndex.nodeKey c.key n).any (FieldKey.admitted c.op c.value) ≠
      c.matchesProperties n.properties ↔
    ∃ stored, n.properties[c.key]? = some stored ∧ c.op.Mismatch stored c.value := by
  unfold PropertyIndex.nodeKey PropertyCondition.matchesProperties
  cases hn : n.properties[c.key]? with
  | none => simp
  | some stored =>
    apply (c.op.mismatch_iff stored c.value).trans
    simp

theorem Sync.planIndependent_iff (h : Sync L db g) (algorithms : Algorithms)
    (log2Ceil : Nat → Nat) (ord : HashOrder) (filter : NodeFilter) :
    PlanIndependent algorithms log2Ceil ord filter db g ↔
      ∀ c, indexedCondition log2Ceil filter (db.buildStats ord) = some c →
        ¬ Mismatched filter c g := by
  obtain ⟨_, _, hscan, scanned, rfl, hs, -⟩ :=
    h.executePlan_fullNodeScan algorithms ord filter
  have hscan' := congrArg Prod.fst hscan
  cases hc : indexedCondition log2Ceil filter (db.buildStats ord) with
  | none =>
    obtain ⟨_, _, hexec, found, rfl, hf, -⟩ := h.execute_of_not_indexed algorithms log2Ceil ord hc
    apply iff_of_true
    · exact ⟨found, scanned, congrArg Prod.fst hexec, hscan', hf.trans hs.symm, hs⟩
    · exact fun c hc => absurd hc (Option.some_ne_none c).symm
  | some c =>
    obtain ⟨_, _, hexec, found, rfl, hf, -⟩ := h.execute_of_indexed algorithms log2Ceil ord hc
    have hexec' := congrArg Prod.fst hexec
    -- the two replies agree if the lookup finds what the filter selects
    have hagree : PlanIndependent algorithms log2Ceil ord filter db g ↔
        found.Perm (g.nodes.vals.filter fun n => filter.matches n) := by
      constructor
      · rintro ⟨found', scanned', he, -, hfs, hsg⟩
        rw [hexec'] at he
        injection he with he
        injection he with he
        rw [he]
        exact hfs.trans hsg
      · intro hp
        exact ⟨found, scanned, hexec', hscan', hp.trans hs.symm, hs⟩
    -- so the question is asked of one node at a time
    have hsame : found.Perm (g.nodes.vals.filter fun n => filter.matches n) ↔
        ∀ n ∈ g.nodes.vals, ((remainingFilter filter c).matches n &&
          (PropertyIndex.nodeKey c.key n).any (FieldKey.admitted c.op c.value)) =
            filter.matches n := by
      rw [← filter_perm_filter_iff]
      exact ⟨fun hp => hf.symm.trans hp, fun hp => hf.trans hp⟩
    have hmatches := matches_eq_remaining (mem_of_indexedCondition hc).1
    rw [hagree, hsame]
    constructor
    · rintro heq c' hc' ⟨n, hn, hrem, hmis⟩
      obtain rfl := Option.some.inj hc'
      have hn := heq n hn
      rw [hmatches, hrem, Bool.true_and, Bool.true_and] at hn
      exact (nodeKey_any_ne_iff c n).mpr hmis hn
    · intro hno n hn
      rw [hmatches]
      cases hrem : (remainingFilter filter c).matches n with
      | false => rfl
      | true =>
        rw [Bool.true_and, Bool.true_and]
        by_contra hne
        exact hno c rfl ⟨n, hn, hrem, (nodeKey_any_ne_iff c n).mp hne⟩

/-- The answers of a database that was opened on a new file do not depend on the plan
exactly when no live node is judged differently by the index that the plan consults. -/
theorem queries_planIndependent_iff (a : StorageAdapter) (hs : a.Documented) (algorithms : Algorithms)
    (log2Ceil : Nat → Nat) (ord : HashOrder) (cache : CacheAdapter) (config : DatabaseConfig)
    (calls : List (HashOrder × Call))
    (hcalls : ∀ call ∈ calls, call.2.Inserts a.KeepsNode a.KeepsEdge) :
    ∃ db : LayeredGraphDatabase a.Storage (NoCache ⊕ LruCache),
      openWithConfig ord (FileStorage.openPath none) cache.new .new config = .ok db ∧
      (((run calls db).1.map Reply.newNodes).sum < 2 ^ 64 →
        ((run calls db).1.map Reply.newEdges).sum < 2 ^ 64 →
        ∃ g, Machine.Runs (fun g call => g.Answers call.2) PlainGraph.empty calls
            (run calls db).1 g ∧
          ∀ (ord : HashOrder) (filter : NodeFilter),
            PlanIndependent algorithms log2Ceil ord filter (run calls db).2 g ↔
              ∀ c, indexedCondition log2Ceil filter ((run calls db).2.buildStats ord) = some c →
                ¬ Mismatched filter c g) := by
  obtain ⟨db, hopen, hrun⟩ := opened_refines a hs ord cache config calls hcalls
  refine ⟨db, hopen, fun hnodes hedges => ?_⟩
  obtain ⟨g, hruns, hsync⟩ := hrun hnodes hedges
  exact ⟨g, hruns, hsync.planIndependent_iff algorithms log2Ceil⟩

/-- One node, whose value is an integer. -/
def integerCalls : List (HashOrder × Call) :=
  [(.sorted, .insertNode "A" (HashMap.insertAll ∅ [("x", .integer 5)]))]

def noAlgorithms : Algorithms := ⟨fun _ _ => [], fun _ _ => [], fun _ _ _ => none⟩

theorem integerCalls_stored :
    ∀ call ∈ integerCalls, call.2.Inserts StorageAdapter.binary.KeepsNode
      StorageAdapter.binary.KeepsEdge := by
  have hlabel : StrFits "A" := by decide
  have hprops : PropertiesFit (HashMap.insertAll ∅ [("x", .integer 5)]) := by decide
  intro call hc
  obtain rfl := List.mem_singleton.mp hc
  exact fun _ => ⟨hlabel, hprops⟩

theorem queries_planIndependent_iff_integer :
    ∃ db : LayeredGraphDatabase BinaryFileStorage (NoCache ⊕ LruCache),
      openWithConfig .sorted (FileStorage.openPath none) CacheAdapter.noCache.new .new .default =
        .ok db ∧
      ∃ g, Machine.Runs (fun g call => g.Answers call.2) PlainGraph.empty integerCalls
          (run integerCalls db).1 g ∧
        ∀ (ord : HashOrder) (filter : NodeFilter),
          PlanIndependent noAlgorithms (Nat.clog 2) ord filter (run integerCalls db).2 g ↔
            ∀ c, indexedCondition (Nat.clog 2) filter ((run integerCalls db).2.buildStats ord) =
                some c →
              ¬ Mismatched filter c g := by
  obtain ⟨db, hopen, hrun⟩ := queries_planIndependent_iff .binary trivial noAlgorithms (Nat.clog 2)
    .sorted .noCache .default integerCalls integerCalls_stored
  have hlen : integerCalls.length < 2 ^ 64 := by decide
  exact ⟨db, hopen, hrun ((sum_newNodes_run integerCalls db).trans_lt hlen)
    ((sum_newEdges_run integerCalls db).trans_lt hlen)⟩

/-- `x = 5.0`, on an indexed field. -/
def floatFilter : NodeFilter := ⟨none, [⟨"x", .eq, .float (F64.ofInt 5)⟩]⟩

def QueryResult.nodeIds : Except GraphError QueryResult → Option (List NodeId)
  | .ok (.nodes nodes) => some (nodes.map Node.id)
  | _ => none

/-- The plan finds nothing in the index of the floats; the scan finds the node. -/
theorem float_query_misses_integer :
    openWithConfig .sorted (FileStorage.openPath none) CacheAdapter.noCache.new .new .default =
        .ok newDatabase ∧
      ¬ ∃ g, PlanIndependent noAlgorithms (Nat.clog 2) .sorted floatFilter
        (run integerCalls newDatabase).2 g := by
  refine ⟨rfl, ?_⟩
  rintro ⟨g, found, scanned, hexec, hscan, hp, -⟩
  have hfound : QueryResult.nodeIds (execute (context noAlgorithms) (Nat.clog 2) .sorted
      (.matchNodes floatFilter) (run integerCalls newDatabase).2).1 = some [] := by
    decide +kernel
  have hscanned : QueryResult.nodeIds (executePlan (context noAlgorithms) .sorted
      (.fullNodeScan floatFilter) (run integerCalls newDatabase).2).1 = some [⟨0⟩] := by
    decide +kernel
  rw [hexec] at hfound
  rw [hscan] at hscanned
  have hids := hp.map Node.id
  rw [Option.some.inj hfound, Option.some.inj hscanned] at hids
  exact List.not_perm_nil_cons _ _ hids

end LayeredGraphDatabase

end AdGraphDb
