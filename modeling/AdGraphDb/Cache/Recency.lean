import AdGraphDb.Foundation.Simulation
import AdGraphDb.Cache.Lru

/-!
# The cache is a list in the order of use

Stamps come from one counter, so those of a store differ and rank its entries by their last
use. A list without stamps, the most recently used entry in front, gives the same answers.
-/

namespace AdGraphDb
open Std

/-! ## Recency lists -/

/-- The entries, the most recently used in front. -/
abbrev RecencyList (K V : Type) := List (K × V)

namespace RecencyList

variable {K V : Type} [DecidableEq K]

def remove (k : K) (l : RecencyList K V) : RecencyList K V := l.filter fun p => p.1 ≠ k

def get (k : K) (l : RecencyList K V) : Option V × RecencyList K V :=
  match l.find? fun p => p.1 = k with
  | some p => (some p.2, p :: remove k l)
  | none => (none, l)

/-- A full list drops its last entry for a new one. -/
def put (capacity : Nat) (k : K) (v : V) (l : RecencyList K V) : RecencyList K V :=
  match l.find? fun p => p.1 = k with
  | some _ => (k, v) :: remove k l
  | none => (k, v) :: if l.length ≥ capacity then l.dropLast else l

theorem length_remove_le (k : K) (l : RecencyList K V) : (remove k l).length ≤ l.length :=
  List.length_filter_le _ l

theorem length_remove_lt {k : K} {l : RecencyList K V} {p : K × V}
    (h : l.find? (fun p => p.1 = k) = some p) : (remove k l).length < l.length := by
  have hp := List.find?_some h
  refine List.length_filter_lt_length_iff_exists.mpr ⟨p, List.mem_of_find?_eq_some h, ?_⟩
  simpa using hp

theorem length_get_le {capacity : Nat} (k : K) {l : RecencyList K V} (h : l.length ≤ capacity) :
    (get k l).2.length ≤ capacity := by
  unfold get
  cases hf : l.find? fun p => p.1 = k with
  | none => exact h
  | some p =>
    have := length_remove_lt hf
    rw [List.length_cons]
    omega

theorem length_put_le {capacity : Nat} (hpos : 0 < capacity) (k : K) (v : V)
    {l : RecencyList K V} (h : l.length ≤ capacity) : (put capacity k v l).length ≤ capacity := by
  unfold put
  cases hf : l.find? fun p => p.1 = k with
  | none =>
    dsimp only
    split_ifs with hfull
    · rw [List.length_cons, List.length_dropLast]
      omega
    · rw [List.length_cons]
      omega
  | some p =>
    have := length_remove_lt hf
    rw [List.length_cons]
    omega

end RecencyList

/-! ## Stores -/

namespace LruStore

variable {K V : Type} [Ord K] [TransOrd K]

/-- The entries by falling stamps, all of which are within a bound. -/
structure Ranked (m : LruStore K V) (bound : Nat) (es : List (K × LruEntry V)) : Prop where
  perm : es.Perm m.toList
  sorted : es.Pairwise fun a b => b.2.lastAccessGeneration < a.2.lastAccessGeneration
  bounded : ∀ e ∈ es, e.2.lastAccessGeneration.toNat ≤ bound

/-- The entries without their stamps. -/
def unstamped (es : List (K × LruEntry V)) : RecencyList K V := es.map fun e => (e.1, e.2.value)

/-- The list holds the entries of the store in the order of their last use. -/
def Lists (m : LruStore K V) (bound : Nat) (l : RecencyList K V) : Prop :=
  ∃ es, Ranked m bound es ∧ unstamped es = l

variable {m : LruStore K V} {bound : Nat} {es : List (K × LruEntry V)} {l : RecencyList K V}

theorem Lists.mono (h : Lists m bound l) {bound' : Nat} (hb : bound ≤ bound') :
    Lists m bound' l := by
  obtain ⟨es, hr, hl⟩ := h
  exact ⟨es, ⟨hr.perm, hr.sorted, fun e he => (hr.bounded e he).trans hb⟩, hl⟩

theorem Lists.empty (bound : Nat) : Lists (∅ : LruStore K V) bound [] :=
  ⟨[], ⟨by simp, List.Pairwise.nil, by simp⟩, rfl⟩

theorem Lists.length (h : Lists m bound l) : l.length = m.size := by
  obtain ⟨es, hr, rfl⟩ := h
  rw [unstamped, List.length_map, hr.perm.length_eq, ExtTreeMap.length_toList]

variable [LawfulEqOrd K]

theorem Ranked.mem_iff (h : Ranked m bound es) {k : K} {entry : LruEntry V} :
    (k, entry) ∈ es ↔ m[k]? = some entry := by
  rw [h.perm.mem_iff, HashMap.mem_toList]

theorem Ranked.nodup_keys (h : Ranked m bound es) : (es.map Prod.fst).Nodup :=
  (h.perm.map Prod.fst).nodup_iff.mpr (HashMap.nodup_keys m)

variable [DecidableEq K]

theorem Lists.find (h : Lists m bound l) (k : K) :
    l.find? (fun p => p.1 = k) = m[k]?.map fun entry => (k, entry.value) := by
  obtain ⟨es, hr, rfl⟩ := h
  cases hk : m[k]? with
  | none =>
    rw [Option.map_none, List.find?_eq_none]
    intro p hp hpk
    obtain ⟨⟨j, entry⟩, he, rfl⟩ := List.mem_map.mp hp
    obtain rfl := of_decide_eq_true hpk
    rw [hr.mem_iff, hk] at he
    cases he
  | some entry =>
    have hmem : (k, entry.value) ∈ unstamped es :=
      List.mem_map.mpr ⟨(k, entry), hr.mem_iff.mpr hk, rfl⟩
    obtain ⟨p, hp⟩ := Option.isSome_iff_exists.mp
      (List.find?_isSome (p := fun p : K × V => p.1 = k) |>.mpr ⟨_, hmem, decide_eq_true rfl⟩)
    obtain ⟨⟨j, found⟩, he, hpe⟩ := List.mem_map.mp (List.mem_of_find?_eq_some hp)
    have hjk : j = k := by
      have hkey := List.find?_some hp
      rw [← hpe] at hkey
      exact of_decide_eq_true hkey
    rw [hr.mem_iff, hjk, hk] at he
    rw [hp, ← hpe, hjk, Option.some.inj he]
    rfl

theorem Ranked.erase (h : Ranked m bound es) (k : K) :
    Ranked (m.erase k) bound (es.filter fun e => e.1 ≠ k) :=
  ⟨(h.perm.filter _).trans (HashMap.toList_erase_filter m k).symm, h.sorted.filter _,
    fun e he => h.bounded e (List.mem_of_mem_filter he)⟩

theorem Lists.erase (h : Lists m bound l) (k : K) : Lists (m.erase k) bound (l.remove k) := by
  obtain ⟨es, hr, rfl⟩ := h
  refine ⟨_, hr.erase k, ?_⟩
  rw [RecencyList.remove, unstamped, unstamped, List.filter_map]
  rfl

/-- A new stamp is above all others. -/
theorem Lists.insert (h : Lists m bound l) {k : K} (hk : m[k]? = none) (v : V)
    {generation : UInt64} (hg : bound < generation.toNat) :
    Lists (m.insert k ⟨v, generation⟩) generation.toNat ((k, v) :: l) := by
  obtain ⟨es, hr, rfl⟩ := h
  refine ⟨(k, ⟨v, generation⟩) :: es, ⟨?_, List.pairwise_cons.mpr ⟨fun e he => ?_, hr.sorted⟩,
    fun e he => ?_⟩, rfl⟩
  · exact (hr.perm.cons _).trans (HashMap.toList_insert_perm hk _).symm
  · exact UInt64.lt_iff_toNat_lt.mpr ((hr.bounded e he).trans_lt hg)
  · rcases List.mem_cons.mp he with rfl | he
    · exact le_rfl
    · exact (hr.bounded e he).trans hg.le

/-- An entry that is used again moves to the front. -/
theorem Lists.touch (h : Lists m bound l) (k : K) (v : V) {generation : UInt64}
    (hg : bound < generation.toNat) :
    Lists (m.insert k ⟨v, generation⟩) generation.toNat ((k, v) :: l.remove k) := by
  have hinsert : m.insert k ⟨v, generation⟩ = (m.erase k).insert k ⟨v, generation⟩ := by
    refine HashMap.ext fun j => ?_
    rw [HashMap.getElem?_insert', HashMap.getElem?_insert', HashMap.getElem?_erase']
    split_ifs <;> rfl
  rw [hinsert]
  refine (h.erase k).insert ?_ v hg
  rw [HashMap.getElem?_erase', if_pos rfl]

/-- The scan finds the last entry, in whatever order it meets the store. -/
theorem Lists.evict (h : Lists m bound l) (ord : HashOrder) :
    Lists (evictOldest ord m) bound l.dropLast := by
  obtain ⟨es, hr, rfl⟩ := h
  rcases List.eq_nil_or_concat' es with rfl | ⟨front, last, rfl⟩
  · have hnil : m.iter ord = [] := (hr.perm.trans (ord.perm 0 _).symm).nil_eq.symm
    rw [evictOldest, hnil]
    exact ⟨[], hr, rfl⟩
  · have hmin : HashMap.minByKey (fun p => p.2.lastAccessGeneration) (m.iter ord) = some last := by
      have hperm : (m.iter ord).Perm (front ++ [last]) := (ord.perm 0 _).trans hr.perm.symm
      refine HashMap.minByKey_of_least (fun _ _ => UInt64.lt_asymm) ?_ fun e he hne => ?_
      · exact hperm.mem_iff.mpr (List.mem_append_right _ List.mem_cons_self)
      · rcases List.mem_append.mp (hperm.mem_iff.mp he) with hf | hl
        · exact (List.pairwise_append.mp hr.sorted).2.2 e hf last List.mem_cons_self
        · exact absurd (List.mem_singleton.mp hl) hne
    have hkeys := hr.nodup_keys
    rw [List.map_append, List.nodup_append'] at hkeys
    have hfront : (front ++ [last]).filter (fun e => e.1 ≠ last.1) = front := by
      rw [List.filter_append, List.filter_eq_self.mpr, List.filter_eq_nil_iff.mpr, List.append_nil]
      · simp
      · intro e he
        apply decide_eq_true
        intro heq
        exact hkeys.2.2 (List.mem_map_of_mem he) (heq ▸ List.mem_cons_self)
    rw [evictOldest, hmin]
    refine ⟨front, ?_, ?_⟩
    · rw [← hfront]
      exact hr.erase last.1
    · rw [unstamped, unstamped, List.map_append, List.map_singleton, List.dropLast_concat]

/-- A lookup. -/
theorem Lists.get (h : Lists m bound l) (k : K) {generation : UInt64}
    (hg : bound < generation.toNat) :
    (LruStore.get generation k m).1 = (l.get k).1 ∧
      Lists (LruStore.get generation k m).2 generation.toNat (l.get k).2 := by
  have hfind := h.find k
  unfold LruStore.get RecencyList.get
  rw [hfind]
  cases hk : m[k]? with
  | none => exact ⟨rfl, h.mono hg.le⟩
  | some entry => exact ⟨rfl, h.touch k entry.value hg⟩

/-- An insertion. -/
theorem Lists.put (h : Lists m bound l) (ord : HashOrder) (capacity : Nat) (k : K) (v : V)
    {generation : UInt64} (hg : bound < generation.toNat) :
    Lists (LruStore.put ord capacity generation k v m) generation.toNat (l.put capacity k v) := by
  have hfind := h.find k
  unfold LruStore.put RecencyList.put
  rw [hfind, h.length]
  cases hk : m[k]? with
  | some entry => exact h.touch k v hg
  | none =>
    dsimp only [Option.map_none]
    split_ifs
    · have hgone : (evictOldest ord m)[k]? = none := by
        by_contra hne
        obtain ⟨entry, he⟩ := Option.ne_none_iff_exists'.mp hne
        rw [getElem?_evictOldest he] at hk
        cases hk
      exact (h.evict ord).insert hgone v hg
    · exact h.insert hk v hg

/-- An insertion leaves the list within the capacity. -/
theorem Lists.put_fits (h : Lists m bound l) (ord : HashOrder) {capacity capacity' : Nat}
    (hpos : 0 < capacity) (hcap : capacity' = capacity) (hfit : l.length ≤ capacity) (k : K) (v : V)
    {generation : UInt64} (hg : bound < generation.toNat) :
    Lists (LruStore.put ord capacity generation k v m) generation.toNat (l.put capacity' k v) ∧
      (l.put capacity' k v).length ≤ capacity := by
  rw [hcap]
  exact ⟨h.put ord capacity k v hg, RecencyList.length_put_le hpos k v hfit⟩

end LruStore

/-! ## The cache -/

/-- A list for the nodes and one for the edges. -/
structure RecencyLists where
  nodeCapacity : Nat
  edgeCapacity : Nat
  nodes : RecencyList NodeId Node
  edges : RecencyList EdgeId Edge

inductive CacheCall where
  | getNode (id : NodeId)
  | putNode (ord : HashOrder) (node : Node)
  | invalidateNode (id : NodeId)
  | getEdge (id : EdgeId)
  | putEdge (ord : HashOrder) (edge : Edge)
  | invalidateEdge (id : EdgeId)
  | clear

inductive CacheReply where
  | done
  | node (found : Option Node)
  | edge (found : Option Edge)
deriving DecidableEq

/-- The call, with another order in which hash maps are met. -/
def CacheCall.withOrder (ord : HashOrder) : CacheCall → CacheCall
  | putNode _ node => putNode ord node
  | putEdge _ edge => putEdge ord edge
  | call => call

namespace RecencyLists

def new (nodeCapacity edgeCapacity : Nat) : RecencyLists := ⟨nodeCapacity, edgeCapacity, [], []⟩

def step : CacheCall → RecencyLists → CacheReply × RecencyLists
  | .getNode id, r => (.node (r.nodes.get id).1, { r with nodes := (r.nodes.get id).2 })
  | .putNode _ node, r => (.done, { r with nodes := r.nodes.put r.nodeCapacity node.id node })
  | .invalidateNode id, r => (.done, { r with nodes := r.nodes.remove id })
  | .getEdge id, r => (.edge (r.edges.get id).1, { r with edges := (r.edges.get id).2 })
  | .putEdge _ edge, r => (.done, { r with edges := r.edges.put r.edgeCapacity edge.id edge })
  | .invalidateEdge id, r => (.done, { r with edges := r.edges.remove id })
  | .clear, r => (.done, { r with nodes := [], edges := [] })

theorem step_withOrder (ord : HashOrder) (call : CacheCall) (r : RecencyLists) :
    step (call.withOrder ord) r = step call r := by
  cases call <;> rfl

theorem run_withOrder (ord : HashOrder) (calls : List CacheCall) (r : RecencyLists) :
    Machine.run step (calls.map (CacheCall.withOrder ord)) r = Machine.run step calls r := by
  induction calls generalizing r with
  | nil => rfl
  | cons call calls ih =>
    rw [List.map_cons, Machine.run, Machine.run, step_withOrder, ih]

end RecencyLists

namespace LruCache

def step : CacheCall → LruCache → CacheReply × LruCache
  | .getNode id, c => (.node (c.getNode id).1, (c.getNode id).2)
  | .putNode ord node, c => (.done, c.putNode ord node)
  | .invalidateNode id, c => (.done, c.invalidateNode id)
  | .getEdge id, c => (.edge (c.getEdge id).1, (c.getEdge id).2)
  | .putEdge ord edge, c => (.done, c.putEdge ord edge)
  | .invalidateEdge id, c => (.done, c.invalidateEdge id)
  | .clear, c => (.done, c.clear)

variable {nodeCapacity edgeCapacity : Nat}

/-- The cache holds what the lists hold, and they are not over-full. -/
structure Follows (nodeCapacity edgeCapacity : Nat) (c : LruCache) (r : RecencyLists) : Prop where
  nodeCapacities : c.nodeCapacity = nodeCapacity ∧ r.nodeCapacity = nodeCapacity
  edgeCapacities : c.edgeCapacity = edgeCapacity ∧ r.edgeCapacity = edgeCapacity
  nodes : c.nodes.Lists c.generation.toNat r.nodes
  edges : c.edges.Lists c.generation.toNat r.edges
  nodesFit : r.nodes.length ≤ nodeCapacity
  edgesFit : r.edges.length ≤ edgeCapacity

variable {c : LruCache} {r : RecencyLists}

theorem generation_next (h : c.generation.toNat + 1 < 2 ^ 64) :
    c.nextGeneration.generation.toNat = c.generation.toNat + 1 := by
  change (c.generation + 1).toNat = _
  rw [UInt64.toNat_add, UInt64.toNat_one]
  exact Nat.mod_eq_of_lt h

/-- Every call keeps the lists in step, as long as the counter does not wrap around. -/
theorem follows_step (h : Follows nodeCapacity edgeCapacity c r)
    (hgen : c.generation.toNat + 1 < 2 ^ 64) (call : CacheCall) :
    (step call c).1 = (RecencyLists.step call r).1 ∧
      Follows nodeCapacity edgeCapacity (step call c).2 (RecencyLists.step call r).2 ∧
      (step call c).2.generation.toNat ≤ c.generation.toNat + 1 := by
  have hnext := generation_next hgen
  have hlt : c.generation.toNat < c.nextGeneration.generation.toNat := by omega
  obtain ⟨⟨rfl, hrn⟩, ⟨rfl, hre⟩, hn, he, hnf, hef⟩ := h
  cases call with
  | getNode id =>
    obtain ⟨hreply, hlists⟩ := hn.get id hlt
    have hfit := RecencyList.length_get_le id hnf
    exact ⟨congrArg CacheReply.node hreply,
      ⟨⟨rfl, hrn⟩, ⟨rfl, hre⟩, hlists, he.mono hlt.le, hfit, hef⟩, hnext.le⟩
  | putNode ord node =>
    obtain ⟨hlists, hfit⟩ := hn.put_fits ord c.nodeCapacity_pos hrn hnf node.id node hlt
    exact ⟨rfl, ⟨⟨rfl, hrn⟩, ⟨rfl, hre⟩, hlists, he.mono hlt.le, hfit, hef⟩, hnext.le⟩
  | invalidateNode id =>
    have hfit := (RecencyList.length_remove_le id r.nodes).trans hnf
    exact ⟨rfl, ⟨⟨rfl, hrn⟩, ⟨rfl, hre⟩, hn.erase id, he, hfit, hef⟩, Nat.le_succ _⟩
  | getEdge id =>
    obtain ⟨hreply, hlists⟩ := he.get id hlt
    have hfit := RecencyList.length_get_le id hef
    exact ⟨congrArg CacheReply.edge hreply,
      ⟨⟨rfl, hrn⟩, ⟨rfl, hre⟩, hn.mono hlt.le, hlists, hnf, hfit⟩, hnext.le⟩
  | putEdge ord edge =>
    obtain ⟨hlists, hfit⟩ := he.put_fits ord c.edgeCapacity_pos hre hef edge.id edge hlt
    exact ⟨rfl, ⟨⟨rfl, hrn⟩, ⟨rfl, hre⟩, hn.mono hlt.le, hlists, hnf, hfit⟩, hnext.le⟩
  | invalidateEdge id =>
    have hfit := (RecencyList.length_remove_le id r.edges).trans hef
    exact ⟨rfl, ⟨⟨rfl, hrn⟩, ⟨rfl, hre⟩, hn, he.erase id, hnf, hfit⟩, Nat.le_succ _⟩
  | clear =>
    exact ⟨rfl, ⟨⟨rfl, hrn⟩, ⟨rfl, hre⟩, .empty _, .empty _, Nat.zero_le _, Nat.zero_le _⟩,
      Nat.le_succ _⟩

theorem follows_new (hn : 0 < nodeCapacity) (he : 0 < edgeCapacity) :
    Follows nodeCapacity edgeCapacity (new nodeCapacity edgeCapacity hn he)
      (.new nodeCapacity edgeCapacity) :=
  ⟨⟨rfl, rfl⟩, ⟨rfl, rfl⟩, .empty _, .empty _, Nat.zero_le _, Nat.zero_le _⟩

theorem run_follows {calls : List CacheCall} (h : Follows nodeCapacity edgeCapacity c r)
    (hlen : c.generation.toNat + calls.length < 2 ^ 64) :
    (Machine.run step calls c).1 = (Machine.run RecencyLists.step calls r).1 ∧
      Follows nodeCapacity edgeCapacity (Machine.run step calls c).2
        (Machine.run RecencyLists.step calls r).2 := by
  have hstep (call : CacheCall) (calls : List CacheCall) (c : LruCache) (r : RecencyLists)
      (hr : Follows nodeCapacity edgeCapacity c r ∧
        c.generation.toNat + (call :: calls).length < 2 ^ 64) :
      (step call c).1 = (RecencyLists.step call r).1 ∧
        Follows nodeCapacity edgeCapacity (step call c).2 (RecencyLists.step call r).2 ∧
          (step call c).2.generation.toNat + calls.length < 2 ^ 64 := by
    obtain ⟨hf, hgen⟩ := hr
    rw [List.length_cons] at hgen
    obtain ⟨hreply, hnext, hle⟩ := follows_step hf (by omega) call
    exact ⟨hreply, hnext, by omega⟩
  obtain ⟨hreplies, hend, -⟩ := Machine.run_eq_of_simulation
    (R := fun calls c r => Follows nodeCapacity edgeCapacity c r ∧
      c.generation.toNat + calls.length < 2 ^ 64) hstep ⟨h, hlen⟩
  exact ⟨hreplies, hend⟩

/-- The cache answers as two recency lists do, whatever the orders in which it scans its
stores, and neither store outgrows its capacity. -/
theorem run_recency (hn : 0 < nodeCapacity) (he : 0 < edgeCapacity) {calls : List CacheCall}
    (hlen : calls.length < 2 ^ 64) :
    (Machine.run step calls (new nodeCapacity edgeCapacity hn he)).1 =
        (Machine.run RecencyLists.step calls (.new nodeCapacity edgeCapacity)).1 ∧
      (∀ ord, (Machine.run step (calls.map (CacheCall.withOrder ord))
          (new nodeCapacity edgeCapacity hn he)).1 =
        (Machine.run step calls (new nodeCapacity edgeCapacity hn he)).1) ∧
      (Machine.run step calls (new nodeCapacity edgeCapacity hn he)).2.nodes.size ≤ nodeCapacity ∧
      (Machine.run step calls (new nodeCapacity edgeCapacity hn he)).2.edges.size ≤
        edgeCapacity := by
  have hstart := follows_new hn he
  have hgen : (new nodeCapacity edgeCapacity hn he).generation.toNat + calls.length < 2 ^ 64 := by
    change 0 + calls.length < 2 ^ 64
    omega
  obtain ⟨hreplies, hend⟩ := run_follows hstart hgen
  refine ⟨hreplies, fun ord => ?_, ?_, ?_⟩
  · have hmap : (calls.map (CacheCall.withOrder ord)).length = calls.length := List.length_map _
    rw [(run_follows hstart (by rwa [hmap])).1, RecencyLists.run_withOrder, hreplies]
  · exact hend.nodes.length.symm.trans_le hend.nodesFit
  · exact hend.edges.length.symm.trans_le hend.edgesFit

/-- A lookup saves the older of two nodes from the third. -/
theorem run_recency_small :
    let node := fun id : NodeId => (⟨id, "A", ∅⟩ : Node)
    let calls : List CacheCall := [.putNode .sorted (node ⟨0⟩), .putNode .reversed (node ⟨1⟩),
      .getNode ⟨0⟩, .putNode .sorted (node ⟨2⟩), .getNode ⟨1⟩, .getNode ⟨0⟩, .clear]
    (Machine.run step calls (new 2 1 (by decide) (by decide))).1 =
        (Machine.run RecencyLists.step calls (.new 2 1)).1 ∧
      (∀ ord, (Machine.run step (calls.map (CacheCall.withOrder ord))
          (new 2 1 (by decide) (by decide))).1 =
        (Machine.run step calls (new 2 1 (by decide) (by decide))).1) ∧
      (Machine.run step calls (new 2 1 (by decide) (by decide))).2.nodes.size ≤ 2 ∧
      (Machine.run step calls (new 2 1 (by decide) (by decide))).2.edges.size ≤ 1 :=
  run_recency (by decide) (by decide) (by decide)

end LruCache

end AdGraphDb
