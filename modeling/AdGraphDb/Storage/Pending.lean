import AdGraphDb.Storage.Spec
import AdGraphDb.Storage.Transactions

/-!
# What waits in an open bracket

The records behind a `BeginTxn` show only once they are committed. What the maps will
then hold follows the records one by one, unless an id is deleted first and saved
later.
-/

namespace AdGraphDb
open AdGraphDb.Action

namespace ReplayState

/-- What a commit of the open bracket would leave. -/
def committed (st : ReplayState) : Contents :=
  match st.txnBuffer with
  | none => st.contents
  | some b => (Update.applyAll st.nodes b.nodeUpdates, Update.applyAll st.edges b.edgeUpdates)

/-- A deletion of the node waits in the bracket. -/
def DropsNode (st : ReplayState) (id : NodeId) : Prop := ∃ b, st.txnBuffer = some b ∧ id ∈ b.nDel

def DropsEdge (st : ReplayState) (id : EdgeId) : Prop := ∃ b, st.txnBuffer = some b ∧ id ∈ b.eDel

/-- An insertion of the node waits in the bracket. -/
def InsertsNode (st : ReplayState) (id : NodeId) : Prop :=
  ∃ b, st.txnBuffer = some b ∧ id ∈ b.nIns.map Prod.fst

/-- Whatever the commit would leave is there already: a rollback takes nothing back. -/
structure AddsNothing (st : ReplayState) : Prop where
  node : ∀ (id : NodeId) (n : Node), st.committed.1[id]? = some n → st.nodes[id]? = some n
  edge : ∀ (id : EdgeId) (e : Edge), st.committed.2[id]? = some e → st.edges[id]? = some e

variable {st : ReplayState}

theorem committed_of_none (h : st.txnBuffer = none) : st.committed = st.contents := by
  rw [committed, h]

theorem committed_of_some {b : TxnBuffer} (h : st.txnBuffer = some b) :
    st.committed = (Update.applyAll st.nodes b.nodeUpdates,
      Update.applyAll st.edges b.edgeUpdates) := by
  rw [committed, h]

/-! ## One more record -/

/-- Only the updates of a key matter to it, wherever the record puts them. -/
theorem last?_add_nodes {r : RecordData} {b : TxnBuffer} {id : NodeId}
    (h : ∀ u, r.nodeUpdate? = some u → u.key ≠ id) :
    Update.last? id (b.add r).nodeUpdates = Update.last? id b.nodeUpdates := by
  cases r with
  | upsertNode n =>
    have hne : n.id ≠ id := h _ rfl
    rw [TxnBuffer.nodeUpdates, TxnBuffer.nodeUpdates, Update.last?_append, Update.last?_append]
    simp [TxnBuffer.add, Update.last?_append, Update.last?, Update.key, hne]
  | deleteNode i =>
    have hne : i ≠ id := h _ rfl
    rw [TxnBuffer.nodeUpdates, TxnBuffer.nodeUpdates, Update.last?_append, Update.last?_append]
    simp [TxnBuffer.add, Update.last?_append, Update.last?, Update.key, hne]
  | _ => rfl

theorem last?_add_edges {r : RecordData} {b : TxnBuffer} {id : EdgeId}
    (h : ∀ u, r.edgeUpdate? = some u → u.key ≠ id) :
    Update.last? id (b.add r).edgeUpdates = Update.last? id b.edgeUpdates := by
  cases r with
  | upsertEdge e =>
    have hne : e.id ≠ id := h _ rfl
    rw [TxnBuffer.edgeUpdates, TxnBuffer.edgeUpdates, Update.last?_append, Update.last?_append]
    simp [TxnBuffer.add, Update.last?_append, Update.last?, Update.key, hne]
  | deleteEdge i =>
    have hne : i ≠ id := h _ rfl
    rw [TxnBuffer.edgeUpdates, TxnBuffer.edgeUpdates, Update.last?_append, Update.last?_append]
    simp [TxnBuffer.add, Update.last?_append, Update.last?, Update.key, hne]
  | _ => rfl

/-- A record decides about its own id only. -/
theorem committed_node_other {r : RecordData} (hr : r.isMarker = false) {id : NodeId}
    (h : ∀ u, r.nodeUpdate? = some u → u.key ≠ id) :
    (st.applyRecord r).committed.1[id]? = st.committed.1[id]? := by
  obtain ⟨nodes, edges, buf⟩ := st
  cases buf with
  | none =>
    cases r with
    | upsertNode n => exact HashMap.getElem?_insert' nodes n.id id n ▸ if_neg (h _ rfl)
    | deleteNode i => exact HashMap.getElem?_erase' nodes i id ▸ if_neg (h _ rfl)
    | upsertEdge e => rfl
    | deleteEdge i => rfl
    | _ => cases hr
  | some b =>
    rw [applyRecord_open hr, committed_of_some rfl, committed_of_some rfl]
    dsimp only
    rw [Update.getElem?_applyAll, Update.getElem?_applyAll, last?_add_nodes h]

theorem committed_edge_other {r : RecordData} (hr : r.isMarker = false) {id : EdgeId}
    (h : ∀ u, r.edgeUpdate? = some u → u.key ≠ id) :
    (st.applyRecord r).committed.2[id]? = st.committed.2[id]? := by
  obtain ⟨nodes, edges, buf⟩ := st
  cases buf with
  | none =>
    cases r with
    | upsertEdge e => exact HashMap.getElem?_insert' edges e.id id e ▸ if_neg (h _ rfl)
    | deleteEdge i => exact HashMap.getElem?_erase' edges i id ▸ if_neg (h _ rfl)
    | upsertNode n => rfl
    | deleteNode i => rfl
    | _ => cases hr
  | some b =>
    rw [applyRecord_open hr, committed_of_some rfl, committed_of_some rfl]
    dsimp only
    rw [Update.getElem?_applyAll, Update.getElem?_applyAll, last?_add_edges h]

theorem last?_dels_eq_none {K V : Type} [DecidableEq K] {k : K} {ids : List K} (h : k ∉ ids) :
    Update.last? k (ids.map (Update.del (V := V))) = none := by
  apply Update.last?_eq_none
  intro u hu
  obtain ⟨i, hi, rfl⟩ := List.mem_map.mp hu
  exact fun e => h (e ▸ hi)

/-- A saved node is there after the commit, unless it was deleted before. -/
theorem committed_upsertNode {n : Node} (h : ¬st.DropsNode n.id) :
    (st.applyRecord (.upsertNode n)).committed.1[n.id]? = some n := by
  obtain ⟨nodes, edges, buf⟩ := st
  cases buf with
  | none => exact (HashMap.getElem?_insert' nodes n.id n.id n).trans (if_pos rfl)
  | some b =>
    have hdel : n.id ∉ b.nDel := fun hmem => h ⟨b, rfl, hmem⟩
    rw [applyRecord_open rfl, committed_of_some rfl]
    dsimp only [TxnBuffer.add, TxnBuffer.nodeUpdates]
    rw [Update.getElem?_applyAll, Update.last?_append, last?_dels_eq_none hdel, List.map_append,
      Update.last?_append]
    simp [Update.last?, Update.key, Update.image]

theorem committed_upsertEdge {e : Edge} (h : ¬st.DropsEdge e.id) :
    (st.applyRecord (.upsertEdge e)).committed.2[e.id]? = some e := by
  obtain ⟨nodes, edges, buf⟩ := st
  cases buf with
  | none => exact (HashMap.getElem?_insert' edges e.id e.id e).trans (if_pos rfl)
  | some b =>
    have hdel : e.id ∉ b.eDel := fun hmem => h ⟨b, rfl, hmem⟩
    rw [applyRecord_open rfl, committed_of_some rfl]
    dsimp only [TxnBuffer.add, TxnBuffer.edgeUpdates]
    rw [Update.getElem?_applyAll, Update.last?_append, last?_dels_eq_none hdel, List.map_append,
      Update.last?_append]
    simp [Update.last?, Update.key, Update.image]

/-- A deleted entry is gone after the commit. -/
theorem committed_deleteNode (id : NodeId) :
    (st.applyRecord (.deleteNode id)).committed.1[id]? = none := by
  obtain ⟨nodes, edges, buf⟩ := st
  cases buf with
  | none => exact (HashMap.getElem?_erase' nodes id id).trans (if_pos rfl)
  | some b =>
    rw [applyRecord_open rfl, committed_of_some rfl]
    dsimp only [TxnBuffer.add, TxnBuffer.nodeUpdates]
    rw [Update.getElem?_applyAll, Update.last?_append, List.map_append, Update.last?_append]
    simp [Update.last?, Update.key, Update.image]

theorem committed_deleteEdge (id : EdgeId) :
    (st.applyRecord (.deleteEdge id)).committed.2[id]? = none := by
  obtain ⟨nodes, edges, buf⟩ := st
  cases buf with
  | none => exact (HashMap.getElem?_erase' edges id id).trans (if_pos rfl)
  | some b =>
    rw [applyRecord_open rfl, committed_of_some rfl]
    dsimp only [TxnBuffer.add, TxnBuffer.edgeUpdates]
    rw [Update.getElem?_applyAll, Update.last?_append, List.map_append, Update.last?_append]
    simp [Update.last?, Update.key, Update.image]

/-- A record that is not grouped in front of an earlier deletion. -/
def TakesEffect (st : ReplayState) : RecordData → Prop
  | .upsertNode n => ¬st.DropsNode n.id
  | .upsertEdge e => ¬st.DropsEdge e.id
  | r => r.isMarker = false

/-- What waits follows such a record as the maps would. -/
theorem committed_applyRecord {r : RecordData} (h : st.TakesEffect r) :
    (st.applyRecord r).committed =
      ((⟨st.committed.1, st.committed.2, none⟩ : ReplayState).applyRecord r).contents := by
  refine Prod.ext (HashMap.ext fun id => ?_) (HashMap.ext fun id => ?_)
  · cases r with
    | upsertNode n =>
      rw [show (((⟨st.committed.1, st.committed.2, none⟩ : ReplayState).applyRecord
        (.upsertNode n)).contents).1 = st.committed.1.insert n.id n from rfl,
        HashMap.getElem?_insert']
      split_ifs with hid
      · rw [← hid, committed_upsertNode h]
      · exact committed_node_other rfl fun u hu => by cases hu; exact hid
    | deleteNode i =>
      rw [show (((⟨st.committed.1, st.committed.2, none⟩ : ReplayState).applyRecord
        (.deleteNode i)).contents).1 = st.committed.1.erase i from rfl, HashMap.getElem?_erase']
      split_ifs with hid
      · rw [← hid, committed_deleteNode]
      · exact committed_node_other rfl fun u hu => by cases hu; exact hid
    | upsertEdge e => exact committed_node_other rfl fun u hu => by cases hu
    | deleteEdge i => exact committed_node_other rfl fun u hu => by cases hu
    | _ => cases h
  · cases r with
    | upsertEdge e =>
      rw [show (((⟨st.committed.1, st.committed.2, none⟩ : ReplayState).applyRecord
        (.upsertEdge e)).contents).2 = st.committed.2.insert e.id e from rfl,
        HashMap.getElem?_insert']
      split_ifs with hid
      · rw [← hid, committed_upsertEdge h]
      · exact committed_edge_other rfl fun u hu => by cases hu; exact hid
    | deleteEdge i =>
      rw [show (((⟨st.committed.1, st.committed.2, none⟩ : ReplayState).applyRecord
        (.deleteEdge i)).contents).2 = st.committed.2.erase i from rfl, HashMap.getElem?_erase']
      split_ifs with hid
      · rw [← hid, committed_deleteEdge]
      · exact committed_edge_other rfl fun u hu => by cases hu; exact hid
    | upsertNode n => exact committed_edge_other rfl fun u hu => by cases hu
    | deleteNode i => exact committed_edge_other rfl fun u hu => by cases hu
    | _ => cases h

/-! ## More records -/

theorem committed_node_run {rs : List RecordData} {id : NodeId}
    (hr : ∀ r ∈ rs, r.isMarker = false)
    (h : ∀ r ∈ rs, ∀ u, r.nodeUpdate? = some u → u.key ≠ id) :
    (st.run rs).committed.1[id]? = st.committed.1[id]? := by
  induction rs generalizing st with
  | nil => rfl
  | cons r rs ih =>
    have htail := @ih (st.applyRecord r) (fun s hs => hr s (List.mem_cons_of_mem r hs))
      fun s hs => h s (List.mem_cons_of_mem r hs)
    exact htail.trans (committed_node_other (hr r List.mem_cons_self) (h r List.mem_cons_self))

theorem committed_edge_run {rs : List RecordData} {id : EdgeId}
    (hr : ∀ r ∈ rs, r.isMarker = false)
    (h : ∀ r ∈ rs, ∀ u, r.edgeUpdate? = some u → u.key ≠ id) :
    (st.run rs).committed.2[id]? = st.committed.2[id]? := by
  induction rs generalizing st with
  | nil => rfl
  | cons r rs ih =>
    have htail := @ih (st.applyRecord r) (fun s hs => hr s (List.mem_cons_of_mem r hs))
      fun s hs => h s (List.mem_cons_of_mem r hs)
    exact htail.trans (committed_edge_other (hr r List.mem_cons_self) (h r List.mem_cons_self))

/-- The bracket stays the one that it is. -/
theorem run_txnId {rs : List RecordData} (hr : ∀ r ∈ rs, r.isMarker = false) {b' : TxnBuffer}
    (h : (st.run rs).txnBuffer = some b') :
    ∃ b, st.txnBuffer = some b ∧ b.txnId = b'.txnId := by
  obtain ⟨nodes, edges, buf⟩ := st
  cases buf with
  | none =>
    rw [run_txnBuffer_none rfl hr] at h
    cases h
  | some b =>
    rw [run_buffered hr] at h
    cases h
    exact ⟨b, rfl, (add_txnId b rs).symm⟩

/-- Deletions that wait follow one another as those in the maps. -/
theorem committed_deleteEdges (ids : List EdgeId) :
    (st.run (ids.map .deleteEdge)).committed =
      (st.committed.1, st.committed.2.eraseAll ids) := by
  induction ids generalizing st with
  | nil => rfl
  | cons id ids ih =>
    have hfirst : st.TakesEffect (.deleteEdge id) := rfl
    rw [List.map_cons, run_cons, ih, committed_applyRecord hfirst]
    rfl

/-- Nothing waits for an id of which no record has been written. -/
theorem committed_node_untouched {id : NodeId} (hins : ¬st.InsertsNode id)
    (hdrop : ¬st.DropsNode id) : st.committed.1[id]? = st.nodes[id]? := by
  cases hb : st.txnBuffer with
  | none => rw [committed_of_none hb, contents]
  | some b =>
    have hnone : Update.last? id b.nodeUpdates = none := by
      apply Update.last?_eq_none
      intro u hu hid
      rcases List.mem_append.mp hu with hu | hu <;> obtain ⟨x, hx, rfl⟩ := List.mem_map.mp hu
      · exact hins ⟨b, hb, List.mem_map.mpr ⟨x, hx, hid⟩⟩
      · exact hdrop ⟨b, hb, hid ▸ hx⟩
    rw [committed_of_some hb]
    dsimp only
    rw [Update.getElem?_applyAll, hnone, Option.getD_none]

/-- What a commit leaves under the id of the node that was saved last is that node. -/
theorem eq_of_committed_upsertNode {n m : Node}
    (h : (st.applyRecord (.upsertNode n)).committed.1[n.id]? = some m) : m = n := by
  by_cases hdrop : st.DropsNode n.id
  · obtain ⟨b, hb, hmem⟩ := hdrop
    obtain ⟨nodes, edges, buf⟩ := st
    obtain rfl : buf = some b := hb
    rw [applyRecord_open rfl, committed_of_some rfl] at h
    dsimp only [TxnBuffer.add, TxnBuffer.nodeUpdates] at h
    have hdel : Update.del n.id ∈ b.nDel.map (Update.del (V := Node)) :=
      List.mem_map_of_mem hmem
    have hlast : Update.last? n.id (b.nDel.map (Update.del (V := Node))) = some none := by
      have hall : (b.nDel.map (Update.del (V := Node))).filter Update.isDel =
          b.nDel.map Update.del := by
        apply List.filter_eq_self.mpr
        intro u hu
        obtain ⟨i, -, rfl⟩ := List.mem_map.mp hu
        rfl
      exact hall ▸ Update.last?_dels hdel rfl
    rw [Update.getElem?_applyAll, Update.last?_append, hlast] at h
    cases h
  · rw [committed_upsertNode hdrop] at h
    exact (Option.some.inj h).symm

theorem dropsNode_run {rs : List RecordData} {id : NodeId} (hr : ∀ r ∈ rs, r.isMarker = false)
    (h : (st.run rs).DropsNode id) : st.DropsNode id ∨ .deleteNode id ∈ rs := by
  induction rs generalizing st with
  | nil => exact .inl h
  | cons r rs ih =>
    have hplain := hr r List.mem_cons_self
    rcases ih (fun s hs => hr s (List.mem_cons_of_mem r hs)) h with ⟨b', hb', hmem⟩ | hmem
    · obtain ⟨nodes, edges, buf⟩ := st
      cases buf with
      | none =>
        rw [applyRecord_txnBuffer, stepBuffer_none hplain] at hb'
        cases hb'
      | some b =>
        rw [applyRecord_open hplain] at hb'
        obtain rfl := Option.some.inj hb'
        cases r with
        | deleteNode i =>
          rcases List.mem_append.mp hmem with hold | hnew
          · exact .inl ⟨b, rfl, hold⟩
          · obtain rfl := List.mem_singleton.mp hnew
            exact .inr List.mem_cons_self
        | _ => exact .inl ⟨b, rfl, hmem⟩
    · exact .inr (List.mem_cons_of_mem r hmem)

/-- What a list of the bracket holds was there before, or one of the records adds it. -/
theorem mem_list_run {K : Type} (list : TxnBuffer → List K) (adds : RecordData → List K)
    (hadd : ∀ b r, list (b.add r) = list b ++ adds r) {rs : List RecordData}
    (hr : ∀ r ∈ rs, r.isMarker = false) {k : K}
    (h : ∃ b, (st.run rs).txnBuffer = some b ∧ k ∈ list b) :
    (∃ b, st.txnBuffer = some b ∧ k ∈ list b) ∨ ∃ r ∈ rs, k ∈ adds r := by
  obtain ⟨nodes, edges, buf⟩ := st
  obtain ⟨b', hb', hmem⟩ := h
  cases buf with
  | none =>
    rw [run_txnBuffer_none rfl hr] at hb'
    cases hb'
  | some b =>
    rw [run_buffered hr] at hb'
    obtain rfl := Option.some.inj hb'
    have hall : list (rs.foldl TxnBuffer.add b) = list b ++ rs.flatMap adds := by
      clear hb' hmem hr
      induction rs generalizing b with
      | nil => exact (List.append_nil _).symm
      | cons r rs ih =>
        rw [List.foldl_cons, ih, hadd, List.flatMap_cons, List.append_assoc]
    rw [hall] at hmem
    rcases List.mem_append.mp hmem with hold | hnew
    · exact .inl ⟨b, rfl, hold⟩
    · exact .inr (List.mem_flatMap.mp hnew)

theorem dropsEdge_run {rs : List RecordData} {id : EdgeId} (hr : ∀ r ∈ rs, r.isMarker = false)
    (h : (st.run rs).DropsEdge id) : st.DropsEdge id ∨ .deleteEdge id ∈ rs := by
  let adds : RecordData → List EdgeId
    | .deleteEdge id => [id]
    | _ => []
  refine (mem_list_run TxnBuffer.eDel adds ?_ hr h).imp_right ?_
  · intro b r
    cases r <;> simp [TxnBuffer.add, adds]
  · rintro ⟨r, hr, hid⟩
    cases r with
    | deleteEdge i => exact List.mem_singleton.mp hid ▸ hr
    | _ => cases hid

theorem insertsNode_run_cases {rs : List RecordData} {id : NodeId}
    (hr : ∀ r ∈ rs, r.isMarker = false) (h : (st.run rs).InsertsNode id) :
    st.InsertsNode id ∨ ∃ n, .upsertNode n ∈ rs ∧ n.id = id := by
  let adds (r : RecordData) : List NodeId :=
    (r.nodeUpdate?.toList.filter fun u => !u.isDel).map Update.key
  refine (mem_list_run (fun b => b.nIns.map Prod.fst) adds ?_ hr h).imp_right ?_
  · intro b r
    cases r <;> simp [TxnBuffer.add, adds, RecordData.nodeUpdate?, Update.isDel, Update.key]
  · rintro ⟨r, hr, hid⟩
    cases r with
    | upsertNode n => exact ⟨n, hr, (List.mem_singleton.mp hid).symm⟩
    | _ => cases hid

/-- What waits to be inserted waits on. -/
theorem insertsNode_run {rs : List RecordData} {id : NodeId} (hr : ∀ r ∈ rs, r.isMarker = false)
    (h : st.InsertsNode id) : (st.run rs).InsertsNode id := by
  obtain ⟨nodes, edges, buf⟩ := st
  obtain ⟨b, rfl, hmem⟩ := h
  rw [run_buffered hr]
  refine ⟨_, rfl, ?_⟩
  clear hr
  induction rs generalizing b with
  | nil => exact hmem
  | cons r rs ih =>
    apply ih
    cases r with
    | upsertNode n =>
      rw [TxnBuffer.add, List.map_append]
      exact List.mem_append_left _ hmem
    | _ => exact hmem

theorem insertsNode_upsertNode {b : TxnBuffer} (h : st.txnBuffer = some b) (n : Node) :
    (st.applyRecord (.upsertNode n)).InsertsNode n.id := by
  obtain ⟨nodes, edges, buf⟩ := st
  obtain rfl : buf = some b := h
  rw [applyRecord_open rfl]
  exact ⟨_, rfl, by simp [TxnBuffer.add]⟩

/-- Without further insertions the same ones wait, and nothing shows while any does. -/
theorem insertsNode_of_run {rs : List RecordData} {id : NodeId}
    (hr : ∀ r ∈ rs, r.isMarker = false ∧ ∀ n, r ≠ .upsertNode n)
    (h : (st.run rs).InsertsNode id) : st.InsertsNode id ∧ (st.run rs).nodes = st.nodes := by
  have hplain : ∀ r ∈ rs, r.isMarker = false := fun r hmem => (hr r hmem).1
  obtain ⟨nodes, edges, buf⟩ := st
  obtain ⟨b', hb', hmem⟩ := h
  cases buf with
  | none =>
    rw [run_txnBuffer_none rfl hplain] at hb'
    cases hb'
  | some b =>
    rw [run_buffered hplain] at hb' ⊢
    obtain rfl := Option.some.inj hb'
    refine ⟨⟨b, rfl, ?_⟩, rfl⟩
    clear hb' hplain
    induction rs generalizing b with
    | nil => exact hmem
    | cons r rs ih =>
      have hstep := ih (fun s hs => hr s (List.mem_cons_of_mem r hs)) (b.add r) hmem
      cases r with
      | upsertNode n => exact absurd rfl ((hr _ List.mem_cons_self).2 n)
      | _ => exact hstep

/-! ## The markers -/

theorem committed_begin (h : st.txnBuffer = none) (txnId : UInt64) :
    (st.applyRecord (.beginTxn txnId)).committed = st.committed := by
  rw [committed_of_none h]
  rfl

/-- The commit leaves what it would have left. -/
theorem committed_commit {txnId : UInt64} (h : ∀ b, st.txnBuffer = some b → b.txnId = txnId) :
    (st.applyRecord (.commitTxn txnId)).committed = st.committed ∧
      (st.applyRecord (.commitTxn txnId)).txnBuffer = none := by
  obtain ⟨nodes, edges, buf⟩ := st
  cases buf with
  | none => exact ⟨rfl, rfl⟩
  | some b =>
    have heq : (⟨nodes, edges, some b⟩ : ReplayState).applyRecord (.commitTxn txnId) =
        ⟨Update.applyAll nodes b.nodeUpdates, Update.applyAll edges b.edgeUpdates, none⟩ := by
      rw [applyRecord, TxnBuffer.nodeUpdates, TxnBuffer.edgeUpdates, Update.applyAll_append,
        Update.applyAll_append, applyAll_puts, applyAll_puts, applyAll_dels, applyAll_dels]
      exact if_pos (h b rfl)
    rw [heq]
    exact ⟨rfl, rfl⟩

end ReplayState

/-! ## The calls that write the markers -/

namespace StorageSpec

open ReplayState

variable {S : Type} [FileStorage S] (L : StorageSpec S) {s : S} (txnId : UInt64)

/-- A fresh bracket opens, in which nothing waits. -/
theorem begin_returns (hv : L.Valid s) (hclosed : (L.view s).txnBuffer = none) :
    Returns (StoragePort.beginWalTransaction txnId) s fun _ s' => L.Valid s' ∧
      (L.view s').committed = (L.view s).committed ∧
      (∀ b, (L.view s').txnBuffer = some b → b.txnId = txnId) ∧
      ∀ id, ¬(L.view s').DropsNode id := by
  apply Returns.mono (L.write .sorted (.beginTxn txnId) hv trivial)
  rintro - s' ⟨hv', hview⟩
  cases hm : L.recordsMarkers with
  | false =>
    rw [hm] at hview
    rw [show L.view s' = L.view s from hview]
    refine ⟨hv', rfl, fun b hb => ?_, ?_⟩
    · rw [hclosed] at hb
      cases hb
    · rintro id ⟨b, hb, -⟩
      rw [hclosed] at hb
      cases hb
  | true =>
    rw [hm] at hview
    rw [show L.view s' = (L.view s).applyRecord (.beginTxn txnId) from hview]
    refine ⟨hv', committed_begin hclosed txnId, fun b hb => ?_, ?_⟩
    · obtain rfl := Option.some.inj hb
      rfl
    · rintro id ⟨b, hb, hmem⟩
      obtain rfl := Option.some.inj hb
      cases hmem

/-- The bracket closes, and what waited shows. -/
theorem commit_returns (hv : L.Valid s) (hid : ∀ b, (L.view s).txnBuffer = some b →
    b.txnId = txnId) : Returns (StoragePort.commitWalTransaction txnId) s fun _ s' => L.Valid s' ∧
      (L.view s').committed = (L.view s).committed ∧ (L.view s').txnBuffer = none := by
  apply Returns.mono (L.write .sorted (.commitTxn txnId) hv trivial)
  rintro - s' ⟨hv', hview⟩
  cases hm : L.recordsMarkers with
  | false =>
    rw [hm] at hview
    rw [show L.view s' = L.view s from hview]
    exact ⟨hv', rfl, L.unbuffered hm hv⟩
  | true =>
    rw [hm] at hview
    rw [show L.view s' = (L.view s).applyRecord (.commitTxn txnId) from hview]
    exact ⟨hv', committed_commit hid⟩

/-- The bracket closes, and what waited is lost. -/
theorem rollback_returns (hv : L.Valid s) :
    Returns (StoragePort.rollbackWalTransaction txnId) s fun _ s' => L.Valid s' ∧
      L.view s' = ⟨(L.view s).nodes, (L.view s).edges, none⟩ := by
  apply Returns.mono (L.write .sorted (.rollbackTxn txnId) hv trivial)
  rintro - s' ⟨hv', hview⟩
  refine ⟨hv', ?_⟩
  cases hm : L.recordsMarkers with
  | false =>
    rw [hm] at hview
    rw [show L.view s' = L.view s from hview, ← L.unbuffered hm hv]
  | true =>
    rw [hm] at hview
    exact hview

end StorageSpec

end AdGraphDb
