import AdGraphDb.Foundation.FileSystem
import AdGraphDb.Storage.Spec

/-!
# The adapters on a file system

An adapter keeps its path and an append handle. Compaction writes a temporary file, renames
it over the path and opens a new handle; each of these steps may fail.
-/

namespace AdGraphDb
open AdGraphDb.Action

/-- What differs between the two adapters. -/
structure StorageFormat where
  /-- What `replay` makes of the bytes of the file. -/
  replay : Bytes → Except GraphError Contents
  /-- The bytes that a save or a delete appends. -/
  encode : HashOrder → RecordData → Except GraphError Bytes
  /-- The pieces that `compact` writes, one `write_all` each. -/
  compacted : HashOrder → Contents → List (Except GraphError Bytes)

namespace BinaryFileStorage

def format : StorageFormat where
  replay file := replay ⟨file⟩
  encode ord r := .ok (encodeRecord ord r)
  compacted ord contents :=
    .ok header ::
      ((contents.1.valuesIter ord).map fun node =>
        .ok (encodeNode (ord.nth node.id.val.toNat) node)) ++
      (contents.2.valuesIter ord).map fun edge =>
        .ok (encodeEdge (ord.nth edge.id.val.toNat) edge)

end BinaryFileStorage

namespace JsonFileStorage

/-- Markers are not written. -/
def encode (serde : SerdeJson) (ord : HashOrder) : RecordData → Except GraphError Bytes
  | .upsertNode node => recordLine serde ord (.upsertNode node)
  | .upsertEdge edge => recordLine serde ord (.upsertEdge edge)
  | .deleteNode id => recordLine serde .sorted (.deleteNode id.val)
  | .deleteEdge id => recordLine serde .sorted (.deleteEdge id.val)
  | _ => .ok []

def format (serde : SerdeJson) : StorageFormat where
  replay file := replay (⟨file⟩ : JsonFileStorage serde)
  encode := encode serde
  compacted ord contents := (liveRecords ord contents).map fun p => recordLine serde p.1 p.2

end JsonFileStorage

/-- An adapter and the file system that it runs on. The path of the temporary file is the
adapter's with another extension. -/
structure OnDisk (P : Type) where
  fs : FileSystem P UInt8
  path : P
  tmp : P
  writer : ℕ
  tmp_ne : tmp ≠ path

/-- The step of a compaction that fails; a write may have written some bytes. -/
inductive CompactStep where
  | replay
  | create
  | write (piece written : ℕ)
  | rename
  | reopen
deriving DecidableEq

structure IoFault where
  step : CompactStep
  message : String
deriving DecidableEq

namespace OnDisk

variable {P : Type}

abbrev DiskAction (P α : Type) := Action GraphError (OnDisk P) α

/-- A missing file is an empty store. -/
def replay (F : StorageFormat) (d : OnDisk P) : Except GraphError Contents :=
  match d.fs.read d.path with
  | some file => F.replay file
  | none => .ok (∅, ∅)

/-- A save or a delete. -/
def append (F : StorageFormat) (ord : HashOrder) (r : RecordData) : DiskAction P Unit := do
  let bytes ← tryRead fun _ => F.encode ord r
  modify fun d => { d with fs := d.fs.write d.writer bytes }

/-- The step fails if it is the one chosen to. -/
def attempt (fault : Option IoFault) (step : CompactStep) : DiskAction P Unit :=
  match fault with
  | some f => if f.step = step then throw (.storageIo f.message) else pure ()
  | none => pure ()

/-- `write_all`, which may fail after some of the bytes. -/
def writeAll (fault : Option IoFault) (handle piece : ℕ) (bytes : Bytes) : DiskAction P Unit :=
  match fault with
  | some ⟨.write i written, message⟩ =>
    if i = piece then do
      modify fun d => { d with fs := d.fs.write handle (bytes.take written) }
      throw (.storageIo message)
    else modify fun d => { d with fs := d.fs.write handle bytes }
  | _ => modify fun d => { d with fs := d.fs.write handle bytes }

/-- The loops of `compact`. Encoding a piece may fail. -/
def writePieces (fault : Option IoFault) (handle : ℕ) :
    ℕ → List (Except GraphError Bytes) → DiskAction P Unit
  | _, [] => pure ()
  | piece, encoded :: rest => do
    let bytes ← tryRead fun _ => encoded
    writeAll fault handle piece bytes
    writePieces fault handle (piece + 1) rest

/-- Dropping the adapter and opening its path again, where a file is. -/
def reopen : DiskAction P Unit := modify fun d => { d with writer := d.fs.slot d.path }

/-! ## The file that is read and the file that is written -/

/-- The bytes that the next replay reads, where a file is. -/
def file (d : OnDisk P) : Bytes := d.fs.content (d.fs.slot d.path)

/-- There is a file at the path, and the handle is bound to it. -/
def Linked (d : OnDisk P) : Prop := d.fs.inode d.path = some d.writer

/-- There is a file at the path, and the handle is bound to another one. -/
def Stranded (d : OnDisk P) : Prop := ∃ i, d.fs.inode d.path = some i ∧ i ≠ d.writer

variable {F : StorageFormat} {d d' : OnDisk P} {ord : HashOrder}

theorem replay_of_inode {i : ℕ} (h : d.fs.inode d.path = some i) :
    d.replay F = F.replay d.file := by
  rw [replay, FileSystem.read, h, file, FileSystem.slot_of_inode h]
  rfl

theorem Linked.file_eq (h : d.Linked) : d.file = d.fs.content d.writer := by
  rw [file, FileSystem.slot_of_inode h]

/-- Only the inode of the handle has changed: it has grown. -/
structure Wrote (handle : ℕ) (bytes : Bytes) (before after : OnDisk P) : Prop where
  path : after.path = before.path
  tmp : after.tmp = before.tmp
  writer : after.writer = before.writer
  inode : after.fs.inode = before.fs.inode
  grown : after.fs.content handle = before.fs.content handle ++ bytes
  others : ∀ i ≠ handle, after.fs.content i = before.fs.content i

namespace Wrote

variable {handle : ℕ} {bytes bytes' : Bytes}

theorem write (handle : ℕ) (bytes : Bytes) (d : OnDisk P) :
    Wrote handle bytes d { d with fs := d.fs.write handle bytes } where
  path := rfl
  tmp := rfl
  writer := rfl
  inode := rfl
  grown := FileSystem.content_write_self handle bytes d.fs
  others _ hi := FileSystem.content_write_of_ne hi bytes

theorem refl (handle : ℕ) (d : OnDisk P) : Wrote handle [] d d where
  path := rfl
  tmp := rfl
  writer := rfl
  inode := rfl
  grown := (List.append_nil _).symm
  others _ _ := rfl

theorem trans {d₁ d₂ d₃ : OnDisk P} (h : Wrote handle bytes d₁ d₂)
    (h' : Wrote handle bytes' d₂ d₃) : Wrote handle (bytes ++ bytes') d₁ d₃ where
  path := h'.path.trans h.path
  tmp := h'.tmp.trans h.tmp
  writer := h'.writer.trans h.writer
  inode := h'.inode.trans h.inode
  grown := by rw [h'.grown, h.grown, List.append_assoc]
  others i hi := (h'.others i hi).trans (h.others i hi)

theorem inode_path (h : Wrote handle bytes d d') : d'.fs.inode d'.path = d.fs.inode d.path := by
  rw [h.inode, h.path]

theorem linked (h : Wrote handle bytes d d') (hd : d.Linked) : d'.Linked := by
  rw [Linked, h.inode_path, h.writer]
  exact hd

/-- The store does not read what goes to another handle. -/
theorem file_eq {i : ℕ} (h : Wrote handle bytes d d') (hi : d.fs.inode d.path = some i)
    (hne : i ≠ handle) : d'.file = d.file := by
  rw [file, file, FileSystem.slot_of_inode hi, FileSystem.slot_of_inode (h.inode_path.trans hi)]
  exact h.others i hne

end Wrote

theorem append_wrote {r : RecordData} {bytes : Bytes} (d : OnDisk P)
    (hr : F.encode ord r = .ok bytes) :
    Returns (append F ord r) d fun _ d' => Wrote d.writer bytes d d' := by
  apply Returns.bind_tryRead (s := d) hr
  exact .modify (.write d.writer bytes d)

/-- What is appended through a bound handle is read. -/
theorem Linked.append (h : d.Linked) {r : RecordData} {bytes : Bytes}
    (hr : F.encode ord r = .ok bytes) :
    Returns (append F ord r) d fun _ d' => d'.Linked ∧ d'.file = d.file ++ bytes := by
  apply Returns.mono (append_wrote d hr)
  intro _ d' hw
  refine ⟨hw.linked h, ?_⟩
  rw [(hw.linked h).file_eq, h.file_eq, hw.writer, hw.grown]

/-- What is appended through a stranded handle is not. -/
theorem Stranded.append (h : d.Stranded) {r : RecordData} {bytes : Bytes}
    (hr : F.encode ord r = .ok bytes) :
    Returns (append F ord r) d fun _ d' => d'.replay F = d.replay F := by
  obtain ⟨i, hi, hne⟩ := h
  apply Returns.mono (append_wrote d hr)
  intro _ d' hw
  rw [replay_of_inode hi, replay_of_inode (hw.inode_path.trans hi), hw.file_eq hi hne]

theorem Linked.reopen (h : d.Linked) : OnDisk.reopen d = (.ok (), d) := by
  have hs : d.fs.slot d.path = d.writer := FileSystem.slot_of_inode h
  change (Except.ok (), { d with writer := d.fs.slot d.path }) = _
  rw [hs]

/-! ## Compaction -/

/-- A piece is written whole, or its write is the one that fails. -/
theorem writeAll_ends (fault : Option IoFault) (handle piece : ℕ) (bytes : Bytes) (d : OnDisk P) :
    (∃ f i n d', fault = some f ∧ f.step = .write i n ∧ Wrote handle (bytes.take n) d d' ∧
      writeAll fault handle piece bytes d = (.error (.storageIo f.message), d')) ∨
    ∃ d', Wrote handle bytes d d' ∧ writeAll fault handle piece bytes d = (.ok (), d') := by
  have whole := Wrote.write handle bytes d
  unfold writeAll
  split
  · rename_i i n message
    split_ifs with hi
    · exact .inl ⟨_, i, n, _, rfl, rfl, .write handle (bytes.take n) d, rfl⟩
    · exact .inr ⟨_, whole, rfl⟩
  · exact .inr ⟨_, whole, rfl⟩

theorem writePieces_ends (fault : Option IoFault) (handle : ℕ) (pieces : List Bytes) (piece : ℕ)
    (d : OnDisk P) :
    (∃ f i n bytes d', fault = some f ∧ f.step = .write i n ∧ Wrote handle bytes d d' ∧
      writePieces fault handle piece (pieces.map .ok) d = (.error (.storageIo f.message), d')) ∨
    ∃ d', Wrote handle pieces.flatten d d' ∧
      writePieces fault handle piece (pieces.map .ok) d = (.ok (), d') := by
  induction pieces generalizing piece d with
  | nil => exact .inr ⟨d, .refl handle d, rfl⟩
  | cons bytes pieces ih =>
    have hstep : writePieces fault handle piece ((bytes :: pieces).map .ok) d =
        (writeAll fault handle piece bytes >>= fun _ =>
          writePieces fault handle (piece + 1) (pieces.map .ok)) d := rfl
    rw [hstep]
    rcases writeAll_ends fault handle piece bytes d with
      ⟨f, i, n, d', hf, hs, hw, hrun⟩ | ⟨d', hw, hrun⟩
    · exact .inl ⟨f, i, n, _, d', hf, hs, hw, bind_error hrun⟩
    · rw [bind_ok hrun]
      rcases ih (piece + 1) d' with ⟨f, i, n, _, d'', hf, hs, hw', hrun'⟩ | ⟨d'', hw', hrun'⟩
      · exact .inl ⟨f, i, n, _, d'', hf, hs, hw.trans hw', hrun'⟩
      · exact .inr ⟨d'', hw.trans hw', hrun'⟩

variable [DecidableEq P]

def compact (F : StorageFormat) (fault : Option IoFault) (ord : HashOrder) : DiskAction P Unit := do
  attempt fault .replay
  let contents ← tryRead (replay F)
  attempt fault .create
  let handle ← update fun d =>
    ((d.fs.create d.tmp).1, { d with fs := (d.fs.create d.tmp).2 })
  writePieces fault handle 0 (F.compacted ord contents)
  attempt fault .rename
  modify fun d => { d with fs := d.fs.rename d.tmp d.path }
  attempt fault .reopen
  modify fun d => { d with writer := d.fs.slot d.path }

omit [DecidableEq P] in
theorem attempt_ends (fault : Option IoFault) (step : CompactStep) (d : OnDisk P) :
    (∃ f, fault = some f ∧ f.step = step ∧
      attempt fault step d = (.error (.storageIo f.message), d)) ∨
    attempt fault step d = (.ok (), d) := by
  unfold attempt
  cases fault with
  | none => exact .inr rfl
  | some f =>
    dsimp only
    split_ifs with hs
    · exact .inl ⟨f, rfl, hs, rfl⟩
    · exact .inr rfl

/-- How a compaction ends: before the rename, which changes nothing that is read; behind it,
with the old handle; or in full. -/
inductive CompactEnds (pieces : List Bytes) (fault : Option IoFault) (d : OnDisk P) :
    Except GraphError Unit × OnDisk P → Prop
  | kept {f : IoFault} {d' : OnDisk P} (hf : fault = some f) (hs : f.step ≠ .reopen)
    (hlinked : d'.Linked) (hfile : d'.file = d.file) :
    CompactEnds pieces fault d (.error (.storageIo f.message), d')
  | stranded {f : IoFault} {d' : OnDisk P} (hf : fault = some f) (hs : f.step = .reopen)
    (hstranded : d'.Stranded) (hfile : d'.file = pieces.flatten) :
    CompactEnds pieces fault d (.error (.storageIo f.message), d')
  | done {d' : OnDisk P} (hlinked : d'.Linked) (hfile : d'.file = pieces.flatten) :
    CompactEnds pieces fault d (.ok (), d')

theorem compact_ends {contents : Contents} {pieces : List Bytes} (fault : Option IoFault)
    (hd : d.Linked) (hreplay : F.replay d.file = .ok contents)
    (hpieces : F.compacted ord contents = pieces.map .ok) :
    CompactEnds pieces fault d (compact F fault ord d) := by
  unfold compact
  rcases attempt_ends fault .replay d with ⟨f, hf, hs, hrun⟩ | hrun
  · rw [bind_error hrun]
    exact .kept hf (by rw [hs]; decide) hd rfl
  rw [bind_ok hrun, bind_tryRead ((replay_of_inode hd).trans hreplay)]
  rcases attempt_ends fault .create d with ⟨f, hf, hs, hrun⟩ | hrun
  · rw [bind_error hrun]
    exact .kept hf (by rw [hs]; decide) hd rfl
  rw [bind_ok hrun, hpieces]
  -- the temporary file has an inode of its own
  let handle := d.fs.slot d.tmp
  let d₁ : OnDisk P := { d with fs := d.fs.link d.tmp [] }
  have hne : d.writer ≠ handle := FileSystem.ne_slot d.tmp_ne.symm hd
  have hd₁ : d₁.Linked := (FileSystem.inode_link_of_ne d.tmp_ne.symm []).trans hd
  have hfile₁ : d₁.file = d.file := by
    rw [hd₁.file_eq, hd.file_eq]
    exact FileSystem.content_link_of_ne hne []
  have hempty : d₁.fs.content handle = [] := FileSystem.content_link_self d.tmp [] d.fs
  have hcreate : (update fun d : OnDisk P =>
      ((d.fs.create d.tmp).1, { d with fs := (d.fs.create d.tmp).2 })) d =
        ((.ok handle, d₁) : Except GraphError ℕ × OnDisk P) := rfl
  rw [bind_ok hcreate]
  rcases writePieces_ends fault handle pieces 0 d₁ with
    ⟨f, i, n, bytes, d₂, hf, hs, hw, hrun⟩ | ⟨d₂, hw, hrun⟩
  · rw [bind_error hrun]
    exact .kept hf (by rw [hs]; simp) (hw.linked hd₁) ((hw.file_eq hd₁ hne).trans hfile₁)
  rw [bind_ok hrun]
  rcases attempt_ends fault .rename d₂ with ⟨f, hf, hs, hrun⟩ | hrun
  · rw [bind_error hrun]
    exact .kept hf (by rw [hs]; decide) (hw.linked hd₁) ((hw.file_eq hd₁ hne).trans hfile₁)
  rw [bind_ok hrun]
  -- the path now names the new file, the writer still the old one
  let d₃ : OnDisk P := { d₂ with fs := d₂.fs.rename d₂.tmp d₂.path }
  have htmp : d₂.fs.inode d₂.tmp = some handle := by
    rw [hw.inode, hw.tmp]
    exact FileSystem.inode_link_self d.tmp [] d.fs
  have hpath : d₃.fs.inode d₃.path = some handle :=
    (FileSystem.inode_rename_self d₂.tmp d₂.path d₂.fs).trans htmp
  have hwriter : d₃.writer = d.writer := hw.writer
  have hfile₃ : d₃.file = pieces.flatten := by
    rw [file, FileSystem.slot_of_inode hpath]
    have hgrown := hw.grown
    rw [hempty, List.nil_append] at hgrown
    exact hgrown
  have hrename : (modify fun d : OnDisk P => { d with fs := d.fs.rename d.tmp d.path }) d₂ =
      ((.ok (), d₃) : Except GraphError Unit × OnDisk P) := rfl
  rw [bind_ok hrename]
  rcases attempt_ends fault .reopen d₃ with ⟨f, hf, hs, hrun⟩ | hrun
  · rw [bind_error hrun]
    refine .stranded hf hs ⟨handle, hpath, ?_⟩ hfile₃
    rw [hwriter]
    exact hne.symm
  rw [bind_ok hrun]
  have hslot : d₃.fs.slot d₃.path = handle := FileSystem.slot_of_inode hpath
  refine .done ?_ hfile₃
  rw [Linked]
  exact hpath.trans (congrArg some hslot.symm)

end OnDisk

/-! ## The formats of the two adapters -/

/-- The format does to the bytes of a file what the adapter does to its storage. -/
structure StorageFormat.Realizes (F : StorageFormat) {S : Type} [FileStorage S]
    (L : StorageSpec S) : Prop where
  replay : ∀ {file : Bytes}, L.Valid (FileStorage.openPath (some file)) →
    F.replay file = .ok ((L.view (FileStorage.openPath (some file))).nodes,
      (L.view (FileStorage.openPath (some file))).edges)
  encode : ∀ {file : Bytes} {r : RecordData} (ord : HashOrder),
    L.Valid (FileStorage.openPath (some file)) → r.isMarker = false →
    RecordHolds (fun _ => L.NodeStorable) (fun _ => L.EdgeStorable) r →
    ∃ bytes, F.encode ord r = .ok bytes ∧ L.Valid (FileStorage.openPath (some (file ++ bytes))) ∧
      L.view (FileStorage.openPath (some (file ++ bytes))) =
        (L.view (FileStorage.openPath (some file))).applyRecord r
  compacted : ∀ {file : Bytes} (ord : HashOrder), L.Valid (FileStorage.openPath (some file)) →
    ∃ pieces : List Bytes,
      F.compacted ord ((L.view (FileStorage.openPath (some file))).nodes,
        (L.view (FileStorage.openPath (some file))).edges) = pieces.map .ok ∧
      L.Valid (FileStorage.openPath (some pieces.flatten)) ∧
      L.view (FileStorage.openPath (some pieces.flatten)) =
        ⟨(L.view (FileStorage.openPath (some file))).nodes,
          (L.view (FileStorage.openPath (some file))).edges, none⟩

namespace BinaryFileStorage

theorem format_realizes : format.Realizes spec where
  replay h := Valid.replay_eq h
  encode {file r} ord h hr hfits := by
    obtain ⟨_, s', he, hv, hview⟩ := spec.write_plain ord hr h hfits
    have hs : s' = ⟨file ++ encodeRecord ord r⟩ :=
      (Prod.mk.inj (he.symm.trans (write_apply ord r ⟨file⟩))).2
    rw [hs] at hv hview
    exact ⟨encodeRecord ord r, rfl, hv, hview⟩
  compacted {file} ord h := by
    obtain ⟨_, s', he, hv, hview⟩ := compact_returns ord h
    have hs : s' = ⟨compactedFile ord ((view ⟨file⟩).nodes, (view ⟨file⟩).edges)⟩ := by
      rw [compact, bind_tryRead (Valid.replay_eq h)] at he
      exact (Prod.mk.inj he).2.symm
    let contents : Contents := ((view ⟨file⟩).nodes, (view ⟨file⟩).edges)
    let pieces : List Bytes :=
      header ::
        ((contents.1.valuesIter ord).map fun node => encodeNode (ord.nth node.id.val.toNat) node) ++
        (contents.2.valuesIter ord).map fun edge => encodeEdge (ord.nth edge.id.val.toNat) edge
    have hpieces : format.compacted ord contents = pieces.map .ok := by
      simp [format, pieces, Function.comp_def]
    have hflat : pieces.flatten = compactedFile ord contents := by
      simp [pieces, compactedFile, List.flatMap_def]
    rw [hs, ← hflat] at hv hview
    exact ⟨pieces, hpieces, hv, hview⟩

end BinaryFileStorage

namespace JsonFileStorage

variable {serde : SerdeJson} {N : Node → Prop} {E : Edge → Prop}

theorem appendRecord_ok {ord : HashOrder} {record : WalRecord} {s s' : JsonFileStorage serde}
    (h : appendRecord ord record s = (.ok (), s')) :
    ∃ bytes, recordLine serde ord record = .ok bytes ∧ s' = ⟨s.file ++ bytes⟩ := by
  cases hl : recordLine serde ord record with
  | ok bytes =>
    rw [appendRecord, bind_tryRead (s := s) hl] at h
    exact ⟨bytes, rfl, (Prod.mk.inj h).2.symm⟩
  | error e =>
    have he : (tryRead fun _ => recordLine serde ord record) s = (.error e, s) := by
      rw [tryRead, hl]
    rw [appendRecord, bind_error he] at h
    cases h

theorem map_of_mapM {α : Type*} {β : Type} {f : α → Except GraphError β} {l : List α} {ys : List β}
    (h : l.mapM f = .ok ys) : l.map f = ys.map .ok := by
  induction l generalizing ys with
  | nil =>
    cases h
    rfl
  | cons x l ih =>
    rw [List.mapM_cons] at h
    cases hx : f x with
    | error e =>
      rw [hx] at h
      cases h
    | ok y =>
      rw [hx] at h
      cases hl : l.mapM f with
      | error e =>
        rw [hl] at h
        cases h
      | ok zs =>
        rw [hl] at h
        cases h
        rw [List.map_cons, hx, ih hl, List.map_cons]

theorem compact_ok {ord : HashOrder} {s s' : JsonFileStorage serde} {c : Contents}
    (hc : s.replay = .ok c) (h : compact ord s = (.ok (), s')) :
    ∃ pieces : List Bytes, (format serde).compacted ord c = pieces.map .ok ∧
      s' = ⟨pieces.flatten⟩ := by
  rw [compact, bind_tryRead hc] at h
  cases hm : (liveRecords ord c).mapM fun p => recordLine serde p.1 p.2 with
  | ok pieces =>
    rw [bind_tryRead (s := s) hm] at h
    exact ⟨pieces, map_of_mapM hm, (Prod.mk.inj h).2.symm⟩
  | error e =>
    have he : (tryRead fun _ => (liveRecords ord c).mapM fun p => recordLine serde p.1 p.2) s =
        (.error e, s) := by
      rw [tryRead, hm]
    rw [bind_error he] at h
    cases h

theorem format_realizes (hs : serde.RoundTripsOn N E) :
    (format serde).Realizes (storesSpec N E hs) where
  replay h := Stores.replay_eq h
  encode {file r} ord h hr hfits := by
    have line (ord : HashOrder) (record : WalRecord) (hc : record.Carries N E) :
        ∃ bytes, recordLine serde ord record = .ok bytes ∧
          Stores N E (⟨file ++ bytes⟩ : JsonFileStorage serde) ∧
          view (⟨file ++ bytes⟩ : JsonFileStorage serde) =
            (view (⟨file⟩ : JsonFileStorage serde)).applyRecord record.toRecord := by
      obtain ⟨_, s', he, hv, hview⟩ := Stores.appendRecord hs ord h hc
      obtain ⟨bytes, hl, rfl⟩ := appendRecord_ok he
      exact ⟨bytes, hl, hv, hview⟩
    cases r with
    | upsertNode n => exact line ord (.upsertNode n) hfits
    | upsertEdge e => exact line ord (.upsertEdge e) hfits
    | deleteNode id => exact line .sorted (.deleteNode id.val) trivial
    | deleteEdge id => exact line .sorted (.deleteEdge id.val) trivial
    | _ => cases hr
  compacted {file} ord h := by
    obtain ⟨_, s', he, hv, hview⟩ := Stores.compact hs ord h
    obtain ⟨pieces, hpieces, rfl⟩ := compact_ok (Stores.replay_eq h) he
    exact ⟨pieces, hpieces, hv, hview⟩

end JsonFileStorage

end AdGraphDb
