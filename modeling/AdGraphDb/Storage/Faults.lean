import AdGraphDb.Core.PlainGraph
import AdGraphDb.Storage.Transactions
import AdGraphDb.Storage.Spec

/-!
# A storage with one failing call

Every call of the port may return an error and change nothing. What a method does with
such an error is seen on a storage whose first failing call is chosen in advance.
-/

namespace AdGraphDb
open AdGraphDb.Action

/-- The call that fails: the next write after some number of writes has succeeded, or a
lookup at that moment. -/
inductive FailPoint where
  | write (n : Nat)
  | load (n : Nat)
deriving DecidableEq

/-- A storage, the number of writes so far, and the call that fails with its error. -/
structure Faulty (S : Type) where
  inner : S
  writes : Nat
  point : FailPoint
  error : GraphError
deriving DecidableEq

namespace Faulty

variable {S α : Type}

/-- A call with `&mut self`. -/
def attempt (a : StorageAction S Unit) : StorageAction (Faulty S) Unit := fun s =>
  if s.point = .write s.writes then (.error s.error, s)
  else match a s.inner with
    | (.ok (), inner) => (.ok (), { s with inner := inner, writes := s.writes + 1 })
    | (.error e, _) => (.error e, s)

/-- A call with `&self`. -/
def lookup (f : S → Except GraphError α) (s : Faulty S) : Except GraphError α :=
  if s.point = .load s.writes then .error s.error else f s.inner

instance [StoragePort S] : StoragePort (Faulty S) where
  saveNode ord node := attempt (StoragePort.saveNode ord node)
  loadNode id := lookup (StoragePort.loadNode id)
  deleteNode id := attempt (StoragePort.deleteNode id)
  saveEdge ord edge := attempt (StoragePort.saveEdge ord edge)
  loadEdge id := lookup (StoragePort.loadEdge id)
  deleteEdge id := attempt (StoragePort.deleteEdge id)
  loadAllNodes ord := lookup (StoragePort.loadAllNodes ord)
  loadAllEdges ord := lookup (StoragePort.loadAllEdges ord)
  compact ord := attempt (StoragePort.compact ord)
  beginWalTransaction txnId := attempt (StoragePort.beginWalTransaction txnId)
  commitWalTransaction txnId := attempt (StoragePort.commitWalTransaction txnId)
  rollbackWalTransaction txnId := attempt (StoragePort.rollbackWalTransaction txnId)

/-- A call that returns an error has changed nothing. -/
theorem attempt_error {a : StorageAction S Unit} {s s' : Faulty S} {e : GraphError}
    (h : attempt a s = (.error e, s')) : s' = s := by
  unfold attempt at h
  split_ifs at h
  · cases h
    rfl
  · cases ha : a s.inner with
    | mk r inner =>
      rw [ha] at h
      cases r with
      | ok => cases h
      | error e' =>
        cases h
        rfl

theorem attempt_refused (a : StorageAction S Unit) {s : Faulty S} (h : s.point = .write s.writes) :
    attempt a s = (.error s.error, s) := if_pos h

theorem attempt_passed {a : StorageAction S Unit} {s : Faulty S} {P : S → Prop}
    (h : s.point ≠ .write s.writes) (ha : Returns a s.inner fun _ inner => P inner) :
    ∃ inner, attempt a s = (.ok (), { s with inner := inner, writes := s.writes + 1 }) ∧
      P inner := by
  obtain ⟨_, inner, he, hp⟩ := ha
  refine ⟨inner, ?_, hp⟩
  rw [attempt, if_neg h, he]

theorem lookup_refused (f : S → Except GraphError α) {s : Faulty S}
    (h : s.point = .load s.writes) : lookup f s = .error s.error := if_pos h

theorem lookup_passed (f : S → Except GraphError α) {s : Faulty S}
    (h : s.point ≠ .load s.writes) : lookup f s = f s.inner := if_neg h

end Faulty

/-! ## The stored graph -/

namespace StorageSpec

variable {S : Type} [FileStorage S] (L : StorageSpec S) {s s' : S}

/-- The graph that a replay finds. -/
def graph (s : S) : PlainGraph := ⟨(L.view s).nodes, (L.view s).edges⟩

/-- Whether the log ends inside a bracket. Records that follow are buffered. -/
def Bracketing (s : S) : Prop := (L.view s).txnBuffer.isSome

instance (s : S) : Decidable (L.Bracketing s) := inferInstanceAs (Decidable (_ = true))

theorem graph_compact (ord : HashOrder) (h : L.Valid s) :
    Returns (StoragePort.compact ord) s fun _ s' => L.Valid s' ∧ L.graph s' = L.graph s := by
  apply Returns.mono (L.compact ord h)
  rintro - s' ⟨hv, hview⟩
  refine ⟨hv, ?_⟩
  rw [graph, hview]
  rfl

variable {L}

theorem view_eq_of_closed (h : ¬ L.Bracketing s) :
    L.view s = ⟨(L.graph s).nodes, (L.graph s).edges, none⟩ := by
  have hnone : (L.view s).txnBuffer = none := Option.not_isSome_iff_eq_none.mp h
  rw [← hnone]
  rfl

/-- Outside a bracket the deletion of edges is seen at once. -/
theorem graph_deleteEdges (h : ¬ L.Bracketing s) {ids : List EdgeId}
    (hview : L.view s' = (L.view s).run (ids.map .deleteEdge)) :
    L.graph s' = ⟨(L.graph s).nodes, (L.graph s).edges.eraseAll ids⟩ := by
  rw [view_eq_of_closed h, run_deleteEdges] at hview
  rw [graph, hview]

/-- Inside a bracket nothing is seen. -/
theorem graph_buffered (h : L.Bracketing s) {rs : List RecordData}
    (hrs : ∀ r ∈ rs, r.isMarker = false) (hview : L.view s' = (L.view s).run rs) :
    L.graph s' = L.graph s := by
  obtain ⟨b, hb⟩ := Option.isSome_iff_exists.mp h
  have hs : L.view s = ⟨(L.graph s).nodes, (L.graph s).edges, some b⟩ := by
    rw [← hb]
    rfl
  rw [hs, run_buffered hrs] at hview
  rw [graph, hview]

end StorageSpec

end AdGraphDb
