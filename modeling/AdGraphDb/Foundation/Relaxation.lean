import AdGraphDb.Foundation.Walks

/-!
# Relaxed labels

Relaxing an arc lowers the label of its end to what the arc offers and makes its near end the
predecessor. Without negative cycles the labels stay weights of simple trails whose nodes have
labels that are no larger, which bounds how often a label can be lowered, and the predecessors
have no cycle.
-/

namespace AdGraphDb

variable {V W : Type}

/-- What is known of every node: a label, and the node that it came from. -/
structure Labels (V W : Type) where
  label : V → WithTop W
  predecessor : V → Option V

/-- The predecessors lead from a node back to the start, along these nodes. -/
inductive LeadsBack (predecessor : V → Option V) (start : V) : V → List V → Prop where
  | start : LeadsBack predecessor start start [start]
  | step {u v : V} {c : List V} (hv : v ≠ start) (hp : predecessor v = some u)
    (h : LeadsBack predecessor start u c) : LeadsBack predecessor start v (v :: c)

namespace LeadsBack

variable [DecidableEq V] {predecessor : V → Option V} {start u v w : V} {c : List V}

/-- A new predecessor of a node elsewhere. -/
theorem update_of_not_mem (h : LeadsBack predecessor start u c) (hv : v ∉ c) (w : V) :
    LeadsBack (Function.update predecessor v (some w)) start u c := by
  induction h with
  | start => exact .start
  | step hy hp _ ih =>
    rw [List.mem_cons, not_or] at hv
    refine .step hy ?_ (ih hv.2)
    rwa [Function.update_of_ne (Ne.symm hv.1)]

/-- A new predecessor that leads back itself. -/
theorem exists_update (h : LeadsBack predecessor start u c)
    (hv : ∃ d, LeadsBack (Function.update predecessor v (some w)) start v d) :
    ∃ d, LeadsBack (Function.update predecessor v (some w)) start u d := by
  induction h with
  | start => exact ⟨_, .start⟩
  | @step x y c hy hp _ ih =>
    by_cases hyv : y = v
    · exact hyv ▸ hv
    · obtain ⟨d, hd⟩ := ih
      exact ⟨y :: d, .step hy (by rwa [Function.update_of_ne hyv]) hd⟩

end LeadsBack

section

variable [AddCommGroup W] [LinearOrder W] [IsOrderedAddMonoid W]

/-- The labels come from walks, and the predecessors explain them. -/
structure Labels.Sound (l : Labels V W) (arc : V → W → V → Prop) (start : V) : Prop where
  atStart : l.label start ≤ 0
  trail : ∀ v (d : W), l.label v = d → ∃ t, Trail arc start ((v, d) :: t) ∧
    (((v, d) :: t).map Prod.fst).Nodup ∧ ∀ e ∈ (v, d) :: t, l.label e.1 ≤ (e.2 : W)
  predecessor : ∀ v u, l.predecessor v = some u → ∃ d du x : W,
    l.label v = d ∧ l.label u = du ∧ arc u x v ∧ du + x ≤ d
  leadsBack : ∀ v (d : W), l.label v = d → ∃ c, LeadsBack l.predecessor start v c

namespace Labels

variable [DecidableEq V] {l : Labels V W} {v y : V} {d : W} {u : V}

/-- Lowers a label. -/
def improve (l : Labels V W) (v : V) (d : W) (u : V) : Labels V W :=
  ⟨Function.update l.label v d, Function.update l.predecessor v (some u)⟩

omit [AddCommGroup W] [LinearOrder W] [IsOrderedAddMonoid W]

theorem label_improve_self : (l.improve v d u).label v = d := Function.update_self ..

theorem label_improve_of_ne (h : y ≠ v) : (l.improve v d u).label y = l.label y :=
  Function.update_of_ne h ..

theorem predecessor_improve_self : (l.improve v d u).predecessor v = some u :=
  Function.update_self ..

theorem predecessor_improve_of_ne (h : y ≠ v) :
    (l.improve v d u).predecessor y = l.predecessor y := Function.update_of_ne h ..

theorem label_improve_le [LinearOrder W] (hlt : (d : WithTop W) < l.label v) (u y : V) :
    (l.improve v d u).label y ≤ l.label y := by
  by_cases hy : y = v
  · rw [hy, label_improve_self]
    exact hlt.le
  · rw [label_improve_of_ne hy]

end Labels

namespace Labels.Sound

variable {l : Labels V W} {arc : V → W → V → Prop} {start u v : V} {c : List V} {d x : W}

/-- The nodes on the way back explain a label as well. -/
theorem walk_of_mem (h : l.Sound arc start) (hc : LeadsBack l.predecessor start u c)
    (hu : l.label u = d) (hv : v ∈ c) :
    ∃ q, ∃ dv z : W, l.label v = dv ∧ Walk arc v q u z ∧ dv + z ≤ d := by
  induction hc generalizing d with
  | start =>
    rw [List.mem_singleton] at hv
    subst hv
    exact ⟨_, d, 0, hu, .here, (add_zero d).le⟩
  | @step y u c hne hp _ ih =>
    rcases List.mem_cons.mp hv with rfl | hv
    · exact ⟨_, d, 0, hu, .here, (add_zero d).le⟩
    · obtain ⟨d', dy, x, hu', hy, hx, hle⟩ := h.predecessor _ _ hp
      obtain rfl := WithTop.coe_injective (hu'.symm.trans hu)
      obtain ⟨q, dv, z, hdv, hwalk, hz⟩ := ih hy hv
      refine ⟨_, dv, z + x, hdv, hwalk.step hx, ?_⟩
      calc dv + (z + x) = dv + z + x := (add_assoc ..).symm
        _ ≤ dy + x := by gcongr
        _ ≤ d' := hle

/-- The way back, from the start, is a walk that is at most as heavy as the label. -/
theorem walk_back (h : l.Sound arc start) (hc : LeadsBack l.predecessor start u c)
    (hu : l.label u = d) :
    ∃ ds z : W, l.label start = ds ∧ Walk arc start c.reverse u z ∧ ds + z ≤ d := by
  induction hc generalizing d with
  | start => exact ⟨d, 0, hu, .here, (add_zero d).le⟩
  | @step y u c hne hp _ ih =>
    obtain ⟨d', dy, x, hu', hy, hx, hle⟩ := h.predecessor _ _ hp
    obtain rfl := WithTop.coe_injective (hu'.symm.trans hu)
    obtain ⟨ds, z, hds, hwalk, hz⟩ := ih hy
    refine ⟨ds, z + x, hds, ?_, ?_⟩
    · rw [List.reverse_cons]
      exact hwalk.step hx
    · calc ds + (z + x) = ds + z + x := (add_assoc ..).symm
        _ ≤ dy + x := by gcongr
        _ ≤ d' := hle

omit [IsOrderedAddMonoid W] in
/-- Without negative cycles the label of the start stays zero. -/
theorem label_start (h : l.Sound arc start) (hcycle : NoNegativeCycle arc start) :
    l.label start = (0 : W) := by
  obtain ⟨d, hd⟩ := WithTop.ne_top_iff_exists.mp (h.atStart.trans_lt (WithTop.coe_lt_top 0)).ne
  obtain ⟨t, ht, -⟩ := h.trail start d hd.symm
  obtain ⟨q, hq⟩ := ht.walk
  have hnonneg := hcycle _ _ _ _ _ .here hq
  apply le_antisymm h.atStart
  rw [← hd]
  exact WithTop.coe_le_coe.mpr hnonneg

/-- An arc improves no label that explains that of its near end. -/
theorem not_improved (h : l.Sound arc start) (hcycle : NoNegativeCycle arc start) {q : List V}
    {dv z : W} (hv : l.label v = dv) (hwalk : Walk arc v q u z) (hle : dv + z ≤ d)
    (hx : arc u x v) : ¬ ((d + x : W) : WithTop W) < l.label v := by
  obtain ⟨t, ht, -⟩ := h.trail v dv hv
  obtain ⟨p, hp⟩ := ht.walk
  have hnonneg := hcycle _ _ _ _ _ hp (hwalk.step hx)
  rw [hv, WithTop.coe_lt_coe, not_lt]
  calc dv ≤ dv + (z + x) := le_add_of_nonneg_right hnonneg
    _ = dv + z + x := (add_assoc ..).symm
    _ ≤ d + x := by gcongr

variable [DecidableEq V]

theorem trail_improve (h : l.Sound arc start) (hcycle : NoNegativeCycle arc start)
    (hu : l.label u = d) (hx : arc u x v) (hlt : ((d + x : W) : WithTop W) < l.label v) (y : V)
    (dy : W) (hy : (l.improve v (d + x) u).label y = dy) : ∃ t, Trail arc start ((y, dy) :: t) ∧
      (((y, dy) :: t).map Prod.fst).Nodup ∧
      ∀ e ∈ (y, dy) :: t, (l.improve v (d + x) u).label e.1 ≤ (e.2 : W) := by
  by_cases hyv : y = v
  · subst hyv
    obtain rfl : d + x = dy := by
      rw [Labels.label_improve_self] at hy
      exact WithTop.coe_injective hy
    obtain ⟨t, ht, hn, hle⟩ := h.trail u d hu
    refine ⟨(u, d) :: t, ht.step hx, List.nodup_cons.mpr ⟨fun hmem => ?_, hn⟩, fun e he => ?_⟩
    · -- the trail would close a cycle
      obtain ⟨e, he, rfl⟩ := List.mem_map.mp hmem
      obtain ⟨q, hq⟩ := ht.walk_of_mem he
      obtain ⟨de, hde, hdele⟩ := WithTop.le_coe_iff.mp (hle e he)
      refine h.not_improved hcycle hde hq ?_ hx hlt
      rw [← add_sub_assoc, sub_le_iff_le_add, add_comm]
      gcongr
    · rcases List.mem_cons.mp he with rfl | he
      · exact Labels.label_improve_self.le
      · exact (Labels.label_improve_le hlt u e.1).trans (hle e he)
  · rw [Labels.label_improve_of_ne hyv] at hy
    obtain ⟨t, ht, hn, hle⟩ := h.trail y dy hy
    exact ⟨t, ht, hn, fun e he => (Labels.label_improve_le hlt u e.1).trans (hle e he)⟩

theorem predecessor_improve (h : l.Sound arc start) (hu : l.label u = d) (huv : u ≠ v)
    (hx : arc u x v) (hlt : ((d + x : W) : WithTop W) < l.label v) (y z : V)
    (hy : (l.improve v (d + x) u).predecessor y = some z) : ∃ dy dz b : W,
      (l.improve v (d + x) u).label y = dy ∧ (l.improve v (d + x) u).label z = dz ∧
        arc z b y ∧ dz + b ≤ dy := by
  by_cases hyv : y = v
  · subst hyv
    rw [Labels.predecessor_improve_self] at hy
    obtain rfl := Option.some.inj hy
    exact ⟨d + x, d, x, Labels.label_improve_self, (Labels.label_improve_of_ne huv).trans hu, hx,
      le_rfl⟩
  · rw [Labels.predecessor_improve_of_ne hyv] at hy
    obtain ⟨dy, dz, b, hdy, hdz, hb, hle⟩ := h.predecessor y z hy
    have hz := Labels.label_improve_le hlt u z
    rw [hdz] at hz
    obtain ⟨dz', hdz', hzle⟩ := WithTop.le_coe_iff.mp hz
    refine ⟨dy, dz', b, (Labels.label_improve_of_ne hyv).trans hdy, hdz', hb, ?_⟩
    exact (by gcongr : dz' + b ≤ dz + b).trans hle

theorem leadsBack_improve (h : l.Sound arc start) (hcycle : NoNegativeCycle arc start)
    (hu : l.label u = d) (hx : arc u x v) (hlt : ((d + x : W) : WithTop W) < l.label v)
    (hstart : v ≠ start) (y : V) (dy : W) (hy : (l.improve v (d + x) u).label y = dy) :
    ∃ c, LeadsBack (l.improve v (d + x) u).predecessor start y c := by
  obtain ⟨c, hc⟩ := h.leadsBack u d hu
  have hnot : v ∉ c := by
    intro hmem
    obtain ⟨q, dv, z, hv, hwalk, hle⟩ := h.walk_of_mem hc hu hmem
    exact h.not_improved hcycle hv hwalk hle hx hlt
  have hv : ∃ c, LeadsBack (l.improve v (d + x) u).predecessor start v c :=
    ⟨v :: c, .step hstart Labels.predecessor_improve_self (hc.update_of_not_mem hnot u)⟩
  by_cases hyv : y = v
  · exact hyv ▸ hv
  · rw [Labels.label_improve_of_ne hyv] at hy
    obtain ⟨cy, hcy⟩ := h.leadsBack y dy hy
    exact hcy.exists_update hv

/-- Relaxing an arc keeps the labels sound. -/
theorem improve (h : l.Sound arc start) (hcycle : NoNegativeCycle arc start)
    (hu : l.label u = d) (hx : arc u x v) (hlt : ((d + x : W) : WithTop W) < l.label v) :
    (l.improve v (d + x) u).Sound arc start ∧ u ≠ v := by
  have huv : u ≠ v := by
    rintro rfl
    exact h.not_improved hcycle hu .here (add_zero d).le hx hlt
  have hstart : v ≠ start := by
    rintro rfl
    obtain ⟨t, ht, -⟩ := h.trail u d hu
    obtain ⟨q, hq⟩ := ht.walk
    exact h.not_improved hcycle (h.label_start hcycle) hq (zero_add d).le hx hlt
  exact ⟨⟨(Labels.label_improve_le hlt u start).trans h.atStart, h.trail_improve hcycle hu hx hlt,
    h.predecessor_improve hu huv hx hlt, h.leadsBack_improve hcycle hu hx hlt hstart⟩, huv⟩

end Labels.Sound

/-! ## How often labels are lowered -/

/-- How many of the weights are below the labels of the nodes. -/
def Labels.rank (l : Labels V W) (weights : Finset W) (nodes : Finset V) : ℕ :=
  ∑ v ∈ nodes, (weights.filter fun x : W => (x : WithTop W) < l.label v).card

omit [AddCommGroup W] [IsOrderedAddMonoid W] in
theorem Labels.rank_improve_lt [DecidableEq V] {l : Labels V W} {weights : Finset W}
    {nodes : Finset V} {v : V} {d : W} (hv : v ∈ nodes) (hd : d ∈ weights)
    (hlt : (d : WithTop W) < l.label v) (u : V) :
    (l.improve v d u).rank weights nodes < l.rank weights nodes := by
  apply Finset.sum_lt_sum
  · intro y _
    apply Finset.card_le_card
    exact Finset.monotone_filter_right weights fun x _ hx => hx.trans_le (label_improve_le hlt u y)
  · refine ⟨v, hv, Finset.card_lt_card ?_⟩
    rw [label_improve_self]
    refine ⟨Finset.monotone_filter_right weights fun x _ hx => hx.trans hlt, fun hsub => ?_⟩
    have hmem := hsub (Finset.mem_filter.mpr ⟨hd, hlt⟩)
    exact lt_irrefl _ (Finset.mem_filter.mp hmem).2

/-- All sound labels are among the weights. -/
def Labels.Within (arc : V → W → V → Prop) (start : V) (weights : Finset W) : Prop :=
  ∀ l : Labels V W, l.Sound arc start → ∀ v (d : W), l.label v = d → d ∈ weights

omit [IsOrderedAddMonoid W] in
/-- Finitely many trails have the weights of all sound labels. -/
theorem Labels.exists_within {arc : V → W → V → Prop} {start : V} {nodes : Finset V}
    (hfin : {x | ∃ u v, arc u x v}.Finite) (hstart : start ∈ nodes)
    (hnodes : ∀ u x v, arc u x v → v ∈ nodes) :
    ∃ weights : Finset W, Labels.Within arc start weights := by
  classical
  have hweights : {w | ∃ v t, Trail arc start ((v, w) :: t) ∧ t.length < nodes.card}.Finite :=
    Trail.finite_weights hfin nodes.card
  refine ⟨hweights.toFinset, fun l h v d hd => ?_⟩
  obtain ⟨t, ht, hn, -⟩ := h.trail v d hd
  refine (Set.Finite.mem_toFinset _).mpr ⟨v, t, ht, ?_⟩
  have hsub : (((v, d) :: t).map Prod.fst).toFinset ⊆ nodes := by
    intro u hu
    obtain ⟨e, he, rfl⟩ := List.mem_map.mp (List.mem_toFinset.mp hu)
    exact ht.mem_nodes hstart hnodes e he
  have hcard := Finset.card_le_card hsub
  rw [List.toFinset_card_of_nodup hn, List.length_map, List.length_cons] at hcard
  exact hcard

end

end AdGraphDb
