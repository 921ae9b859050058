import AdGraphDb.Database.Queries

/-!
# Statistics

A label leaves the label index with its last node, so the statistics of the labels speak of
exactly those that some node carries.
-/

namespace AdGraphDb
open Std AdGraphDb.Action

namespace LabelIndex

/-- No label is kept without a node. -/
def Tight (i : LabelIndex) : Prop :=
  ∀ (label : String) (ids : List NodeId), i.index[label]? = some ids → ids ≠ []

theorem Tight.new : Tight .new := fun _ _ h => by simp [LabelIndex.new] at h

theorem Tight.insert {i : LabelIndex} (h : i.Tight) (id : NodeId) (label : String) :
    (i.insert id label).Tight := by
  intro l ids hl
  rw [LabelIndex.insert, HashMap.bucketInsert, HashMap.getElem?_entryOrDefault] at hl
  split_ifs at hl
  · rw [← Option.some.inj hl]
    exact List.append_ne_nil_of_right_ne_nil _ (List.cons_ne_nil _ _)
  · exact h l ids hl

theorem Tight.remove {i : LabelIndex} (h : i.Tight) (id : NodeId) (label : String) :
    (i.remove id label).Tight := by
  intro l ids hl
  unfold LabelIndex.remove HashMap.bucketRemove at hl
  cases hm : i.index[label]? with
  | none =>
    rw [hm] at hl
    exact h l ids hl
  | some old =>
    rw [hm] at hl
    dsimp only at hl
    split_ifs at hl with hempty
    · rw [HashMap.getElem?_erase'] at hl
      split_ifs at hl
      exact h l ids hl
    · rw [HashMap.getElem?_insert'] at hl
      split_ifs at hl
      · rw [← Option.some.inj hl]
        exact fun hnil => hempty (List.isEmpty_iff.mpr hnil)
      · exact h l ids hl

/-- The labels of a tight index are those of the nodes. -/
theorem Represents.mem_allLabels {i : LabelIndex} {g : PlainGraph} (h : i.Represents g)
    (ht : i.Tight) (ord : HashOrder) (label : String) :
    label ∈ i.allLabels ord ↔ ∃ n ∈ g.nodes.vals, n.label = label := by
  rw [allLabels, (HashMap.keysIter_perm ord i.index).mem_iff, HashMap.mem_keys]
  constructor
  · intro hl
    obtain ⟨ids, hids⟩ := Option.isSome_iff_exists.mp hl
    obtain ⟨id, hid⟩ := List.exists_mem_of_ne_nil ids (ht label ids hids)
    have hget : id ∈ i.get label := by
      rw [get, HashMap.bucket, hids]
      exact hid
    obtain ⟨n, hn, hlabel, -⟩ := (Grouped.mem_iff h).mp hget
    exact ⟨n, hn, Option.some.inj hlabel⟩
  · rintro ⟨n, hn, rfl⟩
    have hget := (Grouped.mem_iff h).mpr ⟨n, hn, rfl, rfl⟩
    cases hids : i.index[n.label]? with
    | some ids => rfl
    | none =>
      rw [get, HashMap.bucket, hids] at hget
      cases hget

end LabelIndex

namespace PlainGraph

/-- Every label with the number of its nodes, the most frequent ones first. -/
structure CountsLabels (g : PlainGraph) (stats : List (String × Nat)) : Prop where
  nodup : (stats.map Prod.fst).Nodup
  mem_iff : ∀ label n, (label, n) ∈ stats ↔
    (∃ m ∈ g.nodes.vals, m.label = label) ∧ n = (g.nodes.vals.filter fun m => m.label = label).length
  descending : stats.Pairwise fun a b => b.2 ≤ a.2
  total : (stats.map Prod.snd).sum = g.nodes.size

/-- Configured fields in ascending order, among them all that a node carries. -/
structure ListsFields (config : DatabaseConfig) (g : PlainGraph) (fields : List String) : Prop where
  ascending : fields.Pairwise fun a b => compare a b = .lt
  configured : ∀ field ∈ fields, config.shouldIndexField field = true
  carried : ∀ field ∈ g.indexedFields config, field ∈ fields

end PlainGraph

namespace LayeredGraphDatabase

section

variable {S C : Type}

/-- `sort_by` is stable. -/
def labelStats (ord : HashOrder) (db : LayeredGraphDatabase S C) : List (String × Nat) :=
  ((db.labelIndex.allLabels ord).map fun l => (l, db.labelIndex.labelCount l)).mergeSort
    fun a b => decide (b.2 ≤ a.2)

def indexedFields (ord : HashOrder) (db : LayeredGraphDatabase S C) : List String :=
  (db.propertyIndex.indexedFields ord).mergeSort fun a b => (compare a b).isLE

end

variable {S C : Type}

theorem labelStats_counts {db : LayeredGraphDatabase S C} {g : PlainGraph}
    (h : db.labelIndex.Represents g) (ht : db.labelIndex.Tight) (ord : HashOrder) :
    g.CountsLabels (db.labelStats ord) := by
  have hperm : (db.labelStats ord).Perm
      ((db.labelIndex.allLabels ord).map fun l => (l, db.labelIndex.labelCount l)) :=
    List.mergeSort_perm _ _
  have hcount (label : String) : db.labelIndex.labelCount label =
      (g.nodes.vals.filter fun m => m.label = label).length := by
    rw [LabelIndex.labelCount_eq, (h label).length_eq, List.length_map]
    simp only [Option.some.injEq]
  have hnodup : (db.labelIndex.allLabels ord).Nodup :=
    (HashMap.keysIter_perm ord db.labelIndex.index).nodup_iff.mpr (HashMap.nodup_keys _)
  refine ⟨?_, fun label n => ?_, ?_, ?_⟩
  · have hfst := hperm.map Prod.fst
    rw [List.map_map] at hfst
    refine hfst.nodup_iff.mpr ?_
    exact (List.map_id _).symm ▸ hnodup
  · rw [hperm.mem_iff, List.mem_map, ← h.mem_allLabels ht ord]
    constructor
    · rintro ⟨l, hl, heq⟩
      obtain ⟨rfl, rfl⟩ := Prod.mk.inj heq
      exact ⟨hl, hcount l⟩
    · rintro ⟨hl, rfl⟩
      exact ⟨label, hl, by rw [hcount]⟩
  · refine (List.pairwise_mergeSort (fun a b c hab hbc => ?_) (fun a b => ?_) _).imp
      fun hab => of_decide_eq_true hab
    · exact decide_eq_true ((of_decide_eq_true hbc).trans (of_decide_eq_true hab))
    · rw [Bool.or_eq_true, decide_eq_true_eq, decide_eq_true_eq]
      exact Nat.le_total _ _
  · have hsnd := (hperm.map Prod.snd).sum_eq
    rw [List.map_map] at hsnd
    have hsum := Grouped.sum_length h hnodup fun n hn =>
      ⟨n.label, (h.mem_allLabels ht ord n.label).mpr ⟨n, hn, rfl⟩, rfl⟩
    rw [hsnd, ← ExtTreeMap.length_toList, ← List.length_map (f := Prod.snd), ← HashMap.vals, ← hsum]
    congr 1
    exact List.map_congr_left fun l _ => LabelIndex.labelCount_eq l db.labelIndex

theorem indexedFields_lists [FileStorage S] [LawfulCachePort C] {L : StorageSpec S}
    {db : LayeredGraphDatabase S C} {g : PlainGraph} (h : Sync L db g) (ord : HashOrder) :
    g.ListsFields db.config (db.indexedFields ord) := by
  have hperm : (db.indexedFields ord).Perm (db.propertyIndex.indexedFields ord) :=
    List.mergeSort_perm _ _
  have hmem (field : String) :
      field ∈ db.indexedFields ord ↔ db.propertyIndex.fields[field]?.isSome := by
    rw [hperm.mem_iff, PropertyIndex.indexedFields,
      (HashMap.keysIter_perm ord db.propertyIndex.fields).mem_iff, HashMap.mem_keys]
  have hnodup : (db.indexedFields ord).Nodup := by
    refine hperm.nodup_iff.mpr ?_
    exact (HashMap.keysIter_perm ord db.propertyIndex.fields).nodup_iff.mpr (HashMap.nodup_keys _)
  refine ⟨?_, fun field hf => h.shouldIndexField ((hmem field).mp hf), fun field hf => ?_⟩
  · have htotal (a b : String) : ((compare a b).isLE || (compare b a).isLE) = true := by
      rw [OrientedOrd.eq_swap (a := b)]
      cases compare a b <;> rfl
    have htrans (a b c : String) (hab : (compare a b).isLE = true)
        (hbc : (compare b c).isLE = true) : (compare a c).isLE = true :=
      TransOrd.isLE_trans hab hbc
    have hsorted := List.pairwise_mergeSort htrans htotal (db.propertyIndex.indexedFields ord)
    refine (List.Pairwise.and hsorted hnodup).imp fun {a b} hab => ?_
    cases hcmp : compare a b with
    | lt => rfl
    | eq => exact absurd (HashMap.compare_eq_iff.mp hcmp) hab.2
    | gt =>
      rw [hcmp] at hab
      exact absurd hab.1 Bool.false_ne_true
  · obtain ⟨hc, n, hn, hv⟩ := PlainGraph.mem_indexedFields.mp hf
    rw [hmem, Option.isSome_iff_ne_none]
    intro hnone
    rw [h.not_carried hnone hc hn] at hv
    cases hv

/-! ## What the operations keep -/

/-- The configuration stays, and the label index tight. -/
def Tidy (config : DatabaseConfig) (db : LayeredGraphDatabase S C) : Prop :=
  db.config = config ∧ db.labelIndex.Tight

abbrev KeepsTidy {α : Type} (a : DatabaseAction S C α) : Prop :=
  ∀ config, Preserves a (Tidy config)

theorem SameButCache.tidy {config : DatabaseConfig} {before db : LayeredGraphDatabase S C}
    (h : SameButCache before db) (ht : Tidy config before) : Tidy config db := by
  obtain ⟨-, rfl⟩ := h
  exact ht

theorem OnlyCaches.keepsTidy {α : Type} {a : DatabaseAction S C α} (h : OnlyCaches a) :
    KeepsTidy a := fun _ s hs => (h s s (.refl s)).tidy hs

variable [StoragePort S] [CachePort C]

theorem keepsTidy_compact (ord : HashOrder) :
    KeepsTidy (compact ord : DatabaseAction S C Unit) := by
  intro config
  apply Preserves.bind_on
  · exact fun _ _ h => h
  intro _
  exact .modify fun _ h => h

theorem keepsTidy_onWrite (ord : HashOrder) :
    KeepsTidy (onWrite ord : DatabaseAction S C Unit) := by
  intro config
  apply Preserves.bind_modify
  · exact fun _ h => h
  apply Preserves.bind_read
  intro db
  cases db.config.autoCompactAfterWrites with
  | none => exact .pure ()
  | some threshold =>
    dsimp only
    split_ifs
    · exact (keepsTidy_compact ord config).attempt
    · exact .pure ()

theorem keepsTidy_insertNode (ord : HashOrder) (label : String) (properties : Properties) :
    KeepsTidy (insertNode ord label properties : DatabaseAction S C NodeId) := by
  intro config
  apply Preserves.bind_update
  · exact fun _ h => h
  intro id
  apply Preserves.bind_on
  · exact fun _ _ h => h
  intro _
  apply Preserves.bind_modify
  · exact fun _ h => ⟨h.1, h.2.insert id label⟩
  exact (keepsTidy_onWrite _ config).bind fun _ => .pure _

theorem keepsTidy_deleteNode (ord : HashOrder) (id : NodeId) :
    KeepsTidy (deleteNode ord id : DatabaseAction S C Unit) := by
  intro config
  apply Preserves.bind_read
  intro incident
  apply Preserves.bind
  · apply Preserves.forEach
    intro edgeId
    apply Preserves.bind_on
    · exact fun _ _ h => h
    intro _
    exact .modify fun _ h => h
  intro _
  apply ((getNode_onlyCaches _ id).keepsTidy config).bind
  intro found
  apply Preserves.bind_modify
  · intro db h
    cases found with
    | none => exact h
    | some node => exact ⟨h.1, h.2.remove id node.label⟩
  apply Preserves.bind_on
  · exact fun _ _ h => h
  intro _
  exact .bind_modify (fun _ h => h) (keepsTidy_onWrite _ config)

theorem keepsTidy_insertEdge (ord : HashOrder) (source target : NodeId) (label : String)
    (weight : F64) (properties : Properties) : KeepsTidy
      (insertEdge ord source target label weight properties : DatabaseAction S C EdgeId) := by
  intro config
  apply Preserves.bind_read
  intro db
  dsimp only
  split_ifs
  · exact .throw _
  · exact .throw _
  · apply Preserves.bind_update
    · exact fun _ h => h
    intro id
    apply Preserves.bind_on
    · exact fun _ _ h => h
    intro _
    apply Preserves.bind_modify
    · exact fun _ h => h
    exact (keepsTidy_onWrite _ config).bind fun _ => .pure _

theorem keepsTidy_deleteEdge (ord : HashOrder) (id : EdgeId) :
    KeepsTidy (deleteEdge ord id : DatabaseAction S C Unit) := by
  intro config
  apply Preserves.bind_on
  · exact fun _ _ h => h
  intro _
  exact .bind_modify (fun _ h => h) (keepsTidy_onWrite _ config)

omit [CachePort C] in
/-- A database that has just been opened is tidy. -/
theorem tidy_openWithConfig {ord : HashOrder} {storage : S} {cache : C} {config : DatabaseConfig}
    {db : LayeredGraphDatabase S C}
    (h : openWithConfig ord storage cache .new config = .ok db) : Tidy config db := by
  have hnodes (nodes : List Node) {db : LayeredGraphDatabase S C} (hdb : Tidy config db) :
      Tidy config (nodes.foldl (replayNode (ord.sub 1)) db) := by
    induction nodes generalizing db with
    | nil => exact hdb
    | cons n nodes ih => exact ih ⟨hdb.1, hdb.2.insert n.id n.label⟩
  have hedges (edges : List Edge) {db : LayeredGraphDatabase S C} (hdb : Tidy config db) :
      Tidy config (edges.foldl replayEdge db) := by
    induction edges generalizing db with
    | nil => exact hdb
    | cons e edges ih => exact ih hdb
  unfold openWithConfig at h
  cases hn : StoragePort.loadAllNodes (ord.sub 0) storage with
  | error e =>
    rw [hn] at h
    cases h
  | ok nodes =>
    rw [hn] at h
    cases he : StoragePort.loadAllEdges (ord.sub 2) storage with
    | error e =>
      rw [he] at h
      cases h
    | ok edges =>
      rw [he] at h
      rw [← Except.ok.inj h]
      exact hedges edges (hnodes nodes ⟨rfl, .new⟩)

end LayeredGraphDatabase

end AdGraphDb
