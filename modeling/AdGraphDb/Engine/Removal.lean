import AdGraphDb.Engine.AdjacencyList

/-!
# Removals from the engine
-/

namespace AdGraphDb

namespace AdjacencyListEngine

/-- The engine has never heard of a node. -/
structure LacksNode (e : AdjacencyListEngine) (id : NodeId) : Prop where
  outgoing : e.outgoing[id]? = none
  incoming : e.incoming[id]? = none
  endpoints : ∀ (k : EdgeId) (ends : NodeId × NodeId), e.edgeEndpoints[k]? = some ends →
    ends.1 ≠ id ∧ ends.2 ≠ id

theorem LacksNode.removeNode_eq {e : AdjacencyListEngine} {id : NodeId} (h : e.LacksNode id)
    (ord : HashOrder) : e.removeNode ord id = e := by
  have hids : e.edgeIdsToRemove ord id = [] := by
    rw [edgeIdsToRemove, List.map_eq_nil_iff, List.filter_eq_nil_iff]
    intro p hp hends
    have hget : e.edgeEndpoints[p.1]? = some p.2 :=
      HashMap.mem_toList.mp ((HashOrder.mem_order ..).mp hp)
    obtain ⟨h1, h2⟩ := h.endpoints p.1 p.2 hget
    rcases of_decide_eq_true hends with hs | ht
    · exact h1 hs
    · exact h2 ht
  unfold removeNode
  rw [hids, List.foldl_nil]
  dsimp only
  rw [HashMap.erase_eq_self h.outgoing, HashMap.erase_eq_self h.incoming]

theorem removeEdge_eq {e : AdjacencyListEngine} {k : EdgeId} (h : e.edgeEndpoints[k]? = none) :
    e.removeEdge k = e := by
  rw [removeEdge, h]

/-- Removals bring nothing back. -/
structure Shrunk (e e' : AdjacencyListEngine) : Prop where
  outgoing : ∀ id : NodeId, e.outgoing[id]? = none → e'.outgoing[id]? = none
  endpoints : ∀ k : EdgeId, e.edgeEndpoints[k]? = none → e'.edgeEndpoints[k]? = none

theorem Shrunk.refl (e : AdjacencyListEngine) : Shrunk e e := ⟨fun _ h => h, fun _ h => h⟩

theorem Shrunk.trans {e e' e'' : AdjacencyListEngine} (h : Shrunk e e') (h' : Shrunk e' e'') :
    Shrunk e e'' :=
  ⟨fun id hid => h'.outgoing id (h.outgoing id hid),
    fun k hk => h'.endpoints k (h.endpoints k hk)⟩

theorem Shrunk.containsNode {e e' : AdjacencyListEngine} (h : Shrunk e e') {id : NodeId}
    (hid : e'.containsNode id = true) : e.containsNode id = true := by
  unfold AdjacencyListEngine.containsNode at hid ⊢
  cases hold : e.outgoing[id]? with
  | none =>
    rw [h.outgoing id hold] at hid
    cases hid
  | some ns => rfl

theorem shrunk_removeEdge (e : AdjacencyListEngine) (k : EdgeId) :
    Shrunk e (e.removeEdge k) ∧ (e.removeEdge k).edgeEndpoints[k]? = none := by
  unfold removeEdge
  cases hk : e.edgeEndpoints[k]? with
  | none => exact ⟨.refl e, hk⟩
  | some ends =>
    obtain ⟨source, target⟩ := ends
    refine ⟨⟨fun id hid => ?_, fun j hj => ?_⟩, ?_⟩
    · change (Adjacency.retain e.outgoing source k)[id]? = none
      rw [Adjacency.retain, HashMap.getElem?_modify']
      split_ifs with h
      · rw [h, hid]
        rfl
      · exact hid
    · rw [HashMap.getElem?_erase']
      split_ifs
      · rfl
      · exact hj
    · rw [HashMap.getElem?_erase', if_pos rfl]

theorem shrunk_removeNode (e : AdjacencyListEngine) (ord : HashOrder) (id : NodeId) :
    Shrunk e (e.removeNode ord id) ∧ (e.removeNode ord id).outgoing[id]? = none := by
  have hedges : ∀ (ks : List EdgeId) (e : AdjacencyListEngine),
      Shrunk e (ks.foldl (fun e k => e.removeEdge k) e) := by
    intro ks
    induction ks with
    | nil => exact fun e => .refl e
    | cons k ks ih => exact fun e => (shrunk_removeEdge e k).1.trans (ih _)
  have hfirst := hedges (e.edgeIdsToRemove ord id) e
  refine ⟨⟨fun j hj => ?_, fun k hk => hfirst.endpoints k hk⟩, ?_⟩
  · rw [removeNode, HashMap.getElem?_erase']
    split_ifs
    · rfl
    · exact hfirst.outgoing j hj
  · rw [removeNode, HashMap.getElem?_erase', if_pos rfl]

end AdjacencyListEngine

end AdGraphDb
