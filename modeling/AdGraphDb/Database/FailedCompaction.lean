import AdGraphDb.Storage.OnDisk
import AdGraphDb.Database.CrashPoints

/-!
# After a failed compaction

A compaction that fails before its rename leaves the log and the handle as they were. One
that fails to open the new file keeps a handle to the old one, which no path names.
-/

namespace AdGraphDb
open Std AdGraphDb.Action

namespace StorageAdapter

def format : StorageAdapter → StorageFormat
  | binary => BinaryFileStorage.format
  | json serde => JsonFileStorage.format serde

theorem format_realizes (a : StorageAdapter) (hs : a.Documented) :
    a.format.Realizes (a.spec hs) := by
  cases a with
  | binary => exact BinaryFileStorage.format_realizes
  | json serde => exact JsonFileStorage.format_realizes (roundTripsOn_keeps hs)

end StorageAdapter

namespace OnDisk

/-- What is called on the store afterwards. -/
inductive Later where
  | write (ord : HashOrder) (record : RecordData)
  | compact (ord : HashOrder)
  | reopen

/-- What a save or a delete stores satisfies the predicate of its kind. -/
def Later.Stores (N : Node → Prop) (E : Edge → Prop) : Later → Prop
  | write _ r => r.isMarker = false ∧ RecordHolds (fun _ => N) (fun _ => E) r
  | _ => True

def Later.record? : Later → Option RecordData
  | write _ r => some r
  | _ => none

variable {P : Type} [DecidableEq P]

def perform (F : StorageFormat) : Later → DiskAction P Unit
  | .write ord r => append F ord r
  | .compact ord => compact F none ord
  | .reopen => reopen

/-- Replay returns what it did, and whatever is saved or deleted later is reflected. -/
structure LosesNothing (a : StorageAdapter) (before after : OnDisk P) : Prop where
  same : after.replay a.format = before.replay a.format
  later : ∀ calls : List Later, (∀ call ∈ calls, call.Stores a.KeepsNode a.KeepsEdge) →
    ∀ c, before.replay a.format = .ok c →
      ∃ d, forEach (perform a.format) calls after = (.ok (), d) ∧
        d.replay a.format = .ok ((calls.filterMap Later.record?).foldl applyToMaps c)

/-! ## A handle that is bound to the log -/

section

variable {S : Type} [FileStorage S] {L : StorageSpec S} {F : StorageFormat} {d d' : OnDisk P}
  {c : Contents}

/-- The handle is bound to a log without an open bracket that replays to the maps. -/
structure Bound (L : StorageSpec S) (c : Contents) (d : OnDisk P) : Prop where
  linked : d.Linked
  valid : L.Valid (FileStorage.openPath (some d.file))
  view : L.view (FileStorage.openPath (some d.file)) = ⟨c.1, c.2, none⟩

omit [DecidableEq P] in
theorem Bound.replay_eq (h : Bound L c d) (hF : F.Realizes L) : d.replay F = .ok c := by
  rw [replay_of_inode h.linked, hF.replay h.valid, h.view]

theorem Bound.perform (h : Bound L c d) (hF : F.Realizes L) {call : Later}
    (hcall : call.Stores L.NodeStorable L.EdgeStorable) :
    Returns (perform F call) d fun _ d' => Bound L (call.record?.toList.foldl applyToMaps c) d' := by
  cases call with
  | write ord r =>
    obtain ⟨hr, hstores⟩ := hcall
    obtain ⟨bytes, he, hv, hview⟩ := hF.encode ord h.valid hr hstores
    apply Returns.mono (h.linked.append he)
    rintro _ d' ⟨hl, hfile⟩
    rw [← hfile] at hv hview
    refine ⟨hl, hv, ?_⟩
    rw [hview, h.view, applyRecord_closed hr]
    rfl
  | compact ord =>
    obtain ⟨pieces, hp, hv, hview⟩ := hF.compacted ord h.valid
    have hreplay := hF.replay h.valid
    have hends := compact_ends none h.linked hreplay hp
    generalize hr : OnDisk.compact F none ord d = r at hends
    cases hends with
    | kept hf => cases hf
    | stranded hf => cases hf
    | @done d' hl hfile =>
      rw [← hfile] at hv hview
      refine ⟨(), d', hr, hl, hv, ?_⟩
      rw [hview, h.view]
      rfl
  | reopen => exact ⟨(), d, h.linked.reopen, h⟩

theorem Bound.forEach (h : Bound L c d) (hF : F.Realizes L) {calls : List Later}
    (hcalls : ∀ call ∈ calls, call.Stores L.NodeStorable L.EdgeStorable) :
    Returns (forEach (OnDisk.perform F) calls) d fun _ d' =>
      Bound L ((calls.filterMap Later.record?).foldl applyToMaps c) d' := by
  induction calls generalizing c d with
  | nil => exact .pure h
  | cons call calls ih =>
    apply Returns.bind (h.perform hF (hcalls call List.mem_cons_self))
    intro _ d' h'
    have := ih h' fun call hc => hcalls call (List.mem_cons_of_mem _ hc)
    rw [← List.foldl_append] at this
    apply Returns.mono this
    intro _ d'' h''
    cases call with
    | write ord r => exact h''
    | compact ord => exact h''
    | reopen => exact h''

end

/-! ## The exact condition -/

/-- Some node that the file can hold differs from what is stored under its id. -/
theorem exists_keepsNode_ne (a : StorageAdapter) (hs : a.Documented) (o : Option Node) :
    ∃ n : Node, n.id = ⟨0⟩ ∧ a.KeepsNode n ∧ o ≠ some n := by
  have hfits : NodeFits ⟨⟨0⟩, "", ∅⟩ ∧ NodeFits ⟨⟨0⟩, "A", ∅⟩ := by decide
  have keeps (label : String) (h : NodeFits ⟨⟨0⟩, label, ∅⟩) : a.KeepsNode ⟨⟨0⟩, label, ∅⟩ := by
    cases a with
    | binary => exact h
    | json serde => exact hs (.upsertNode _) (by simp [WalRecord.Floatless]) h
  by_cases h : o = some ⟨⟨0⟩, "", ∅⟩
  · exact ⟨⟨⟨0⟩, "A", ∅⟩, rfl, keeps "A" hfits.2, by rw [h]; decide⟩
  · exact ⟨⟨⟨0⟩, "", ∅⟩, rfl, keeps "" hfits.1, h⟩

/-- A store whose replay does not change with the next save loses it. -/
theorem not_losesNothing {a : StorageAdapter} (hs : a.Documented) {d d' : OnDisk P} {c : Contents}
    (hc : d.replay a.format = .ok c)
    (hlost : ∀ ord r, r.isMarker = false → RecordHolds (fun _ => a.KeepsNode) (fun _ => a.KeepsEdge) r →
      Returns (append a.format ord r) d' fun _ d'' => d''.replay a.format = .ok c) :
    ¬ LosesNothing a d d' := by
  intro h
  obtain ⟨n, hid, hn, hne⟩ := exists_keepsNode_ne a hs c.1[(⟨0⟩ : NodeId)]?
  have hstores : ∀ call ∈ [Later.write .sorted (.upsertNode n)],
      call.Stores a.KeepsNode a.KeepsEdge := List.forall_mem_singleton.mpr ⟨rfl, hn⟩
  obtain ⟨d₁, hrun, hreplay⟩ := h.later _ hstores c hc
  obtain ⟨_, d₂, happend, hsame⟩ := hlost .sorted (.upsertNode n) rfl hn
  have hd : d₁ = d₂ := by
    have hone : forEach (OnDisk.perform a.format) [Later.write .sorted (.upsertNode n)] d' =
        (.ok (), d₂) := (bind_ok happend).trans rfl
    exact (Prod.mk.inj (hrun.symm.trans hone)).2
  rw [hd, hsame] at hreplay
  have hnodes := congrArg (fun c : Contents => c.1[(⟨0⟩ : NodeId)]?) (Except.ok.inj hreplay)
  change c.1[(⟨0⟩ : NodeId)]? = (c.1.insert n.id n)[(⟨0⟩ : NodeId)]? at hnodes
  rw [HashMap.getElem?_insert', if_pos hid] at hnodes
  exact hne hnodes

theorem recordHolds_spec (a : StorageAdapter) (hs : a.Documented) {r : RecordData}
    (hr : RecordHolds (fun _ => a.KeepsNode) (fun _ => a.KeepsEdge) r) :
    RecordHolds (fun _ => (a.spec hs).NodeStorable) (fun _ => (a.spec hs).EdgeStorable) r := by
  rw [a.spec_nodeStorable hs, a.spec_edgeStorable hs]
  exact hr

/-- A handle that is still bound to the same log loses nothing, unless a bracket is open. -/
theorem losesNothing_kept_iff (a : StorageAdapter) (hs : a.Documented) {d d' : OnDisk P}
    (hd : d.Linked) (hv : (a.spec hs).Valid (FileStorage.openPath (some d.file)))
    (hl : d'.Linked) (hfile : d'.file = d.file) :
    LosesNothing a d d' ↔ ¬ (a.spec hs).Bracketing (FileStorage.openPath (some d.file)) := by
  let L := a.spec hs
  have hF : a.format.Realizes L := a.format_realizes hs
  have hbefore : d.replay a.format = _ := (replay_of_inode hd).trans (hF.replay hv)
  have hv' := hv
  rw [← hfile] at hv'
  constructor
  · intro hloses hopen
    refine not_losesNothing hs hbefore (fun ord r hr hstores => ?_) hloses
    -- the record goes into the buffer of the open bracket
    obtain ⟨bytes, he, hvr, hviewr⟩ := hF.encode ord hv' hr (recordHolds_spec a hs hstores)
    apply Returns.mono (hl.append he)
    rintro _ d'' ⟨hl', hfile'⟩
    rw [hfile] at hfile' hviewr hvr
    have hplain : ∀ s ∈ [r], s.isMarker = false := List.forall_mem_singleton.mpr hr
    have hgraph := StorageSpec.graph_buffered hopen hplain hviewr
    have hafter := hF.replay hvr
    rw [replay_of_inode hl', hfile', hafter]
    exact congrArg (fun g : PlainGraph => Except.ok (g.nodes, g.edges)) hgraph
  · intro hclosed
    constructor
    · rw [replay_of_inode hl, replay_of_inode hd, hfile]
    · intro calls hcalls c hc
      obtain rfl := Except.ok.inj (hbefore.symm.trans hc)
      have hbound : Bound L ((L.view (FileStorage.openPath (some d.file))).nodes,
          (L.view (FileStorage.openPath (some d.file))).edges) d' := by
        refine ⟨hl, hv', ?_⟩
        rw [hfile]
        exact StorageSpec.view_eq_of_closed hclosed
      rw [← a.spec_nodeStorable hs, ← a.spec_edgeStorable hs] at hcalls
      obtain ⟨_, d'', hrun, hb⟩ := hbound.forEach hF hcalls
      exact ⟨d'', hrun, hb.replay_eq hF⟩

/-- A failed compaction loses nothing exactly when it has not failed to open the new file,
and the log has no open bracket. -/
theorem losesNothing_iff (a : StorageAdapter) (hs : a.Documented) {d d' : OnDisk P}
    (hd : d.Linked) (hv : (a.spec hs).Valid (FileStorage.openPath (some d.file)))
    {ord : HashOrder} {f : IoFault} {e : GraphError}
    (h : compact a.format (some f) ord d = (.error e, d')) :
    LosesNothing a d d' ↔ f.step ≠ .reopen ∧
      ¬ (a.spec hs).Bracketing (FileStorage.openPath (some d.file)) := by
  have hF : a.format.Realizes (a.spec hs) := a.format_realizes hs
  obtain ⟨pieces, hp, hvp, hviewp⟩ := hF.compacted ord hv
  have hends := compact_ends (some f) hd (hF.replay hv) hp
  rw [h] at hends
  cases hends with
  | @kept f' _ hf hstep hl hfile =>
    cases hf
    rw [losesNothing_kept_iff a hs hd hv hl hfile, and_iff_right hstep]
  | @stranded f' _ hf hstep hstranded hfile =>
    cases hf
    have hbefore : d.replay a.format = _ := (replay_of_inode hd).trans (hF.replay hv)
    refine iff_of_false (not_losesNothing hs hbefore fun ord r hr hstores => ?_)
      fun hcond => hcond.1 hstep
    -- the path names the compacted file, and the record goes elsewhere
    obtain ⟨bytes, he, -, -⟩ := hF.encode ord hv hr (recordHolds_spec a hs hstores)
    apply Returns.mono (hstranded.append he)
    intro _ d'' hsame
    obtain ⟨i, hi, -⟩ := hstranded
    rw [hsame, replay_of_inode hi, hfile, hF.replay hvp, hviewp]

/-! ## Two stores -/

/-- A file system with one file, the log of a new binary store. -/
def newFileSystem : FileSystem String UInt8 where
  inode p := if p = "graph.bin" then some 0 else none
  content i := if i = 0 then header else []
  next := 1
  inode_inj {p q i} hp hq := by
    split_ifs at hp hq with h h'
    exact h.trans h'.symm
  inode_lt {p i} hp := by
    split_ifs at hp
    cases hp
    exact Nat.one_pos

def newStore : OnDisk String where
  fs := newFileSystem
  path := "graph.bin"
  tmp := "graph.bin.tmp"
  writer := 0
  tmp_ne := by decide

theorem newStore_linked : newStore.Linked := rfl

/-- The store after a compaction that fails at the given step. -/
def failedAt (step : CompactStep) (d : OnDisk String) : OnDisk String :=
  (compact BinaryFileStorage.format (some ⟨step, "input/output error"⟩) .sorted d).2

/-- A node that a closed bracket deletes again, and another one behind it. -/
def bracketedLog : Log :=
  [(.sorted, .upsertNode ⟨⟨0⟩, "A", ∅⟩), (.sorted, .beginTxn 1), (.sorted, .deleteNode ⟨0⟩),
    (.sorted, .commitTxn 1), (.sorted, .upsertNode ⟨⟨1⟩, "B", ∅⟩)]

def bracketedStore : OnDisk String :=
  { newStore with
    fs := { newFileSystem with
      content := fun i => if i = 0 then header ++ encodeLog bracketedLog else [] } }

theorem losesNothing_iff_rename :
    LosesNothing .binary bracketedStore (failedAt .rename bracketedStore) := by
  have hlinked : bracketedStore.Linked := rfl
  have hvalid : BinaryFileStorage.spec.Valid (FileStorage.openPath (some bracketedStore.file)) :=
    ⟨bracketedLog, by decide, rfl⟩
  have hfails : compact BinaryFileStorage.format (some ⟨.rename, "input/output error"⟩) .sorted
      bracketedStore = (.error (.storageIo "input/output error"), failedAt .rename bracketedStore) :=
    Prod.ext (by decide +kernel) rfl
  apply (losesNothing_iff .binary trivial hlinked hvalid hfails).mpr
  refine ⟨by decide, ?_⟩
  decide +kernel

/-- The new file cannot be opened; the next save is acknowledged and lost. -/
theorem failed_reopen_loses_node :
    newStore.Linked ∧ newStore.replay BinaryFileStorage.format = .ok (∅, ∅) ∧
      (compact BinaryFileStorage.format (some ⟨.reopen, "input/output error"⟩) .sorted newStore).1 =
        .error (.storageIo "input/output error") ∧
      ¬ LosesNothing .binary newStore (failedAt .reopen newStore) := by
  have hempty : newStore.replay BinaryFileStorage.format = .ok (∅, ∅) := by decide +kernel
  refine ⟨newStore_linked, hempty, by decide +kernel, fun h => ?_⟩
  let call : Later := .write .sorted (.upsertNode ⟨⟨0⟩, "A", ∅⟩)
  have hstores : ∀ c ∈ [call], c.Stores NodeFits EdgeFits :=
    List.forall_mem_singleton.mpr ⟨rfl, show NodeFits ⟨⟨0⟩, "A", ∅⟩ by decide⟩
  obtain ⟨d, hrun, hreplay⟩ := h.later [call] hstores _ hempty
  have hlost : (forEach (OnDisk.perform BinaryFileStorage.format) [call] (failedAt .reopen newStore)).2.replay
      BinaryFileStorage.format = .ok (∅, ∅) := by decide +kernel
  rw [show forEach (OnDisk.perform BinaryFileStorage.format) [call] _ = _ from hrun] at hlost
  have hsame := hreplay.symm.trans hlost
  revert hsame
  decide +kernel

end OnDisk

end AdGraphDb
