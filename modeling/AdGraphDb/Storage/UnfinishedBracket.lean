import AdGraphDb.Storage.Recovery
import AdGraphDb.Storage.Transactions

/-!
# A bracket that is cut off

A file whose last bracket is cut anywhere replays to what it held before the bracket, unless
the bytes of the torn record spell a marker or a capacity that the allocator refuses.
-/

namespace AdGraphDb
open ReplayState BinaryFileStorage

/-! ## Cuts behind a log -/

theorem wholeRecords_append (l w : Log) (n : Nat) :
    wholeRecords ((encodeLog l).length + n) (l ++ w) = l ++ wholeRecords n w := by
  induction l with
  | nil => rw [encodeLog_nil, List.length_nil, Nat.zero_add, List.nil_append, List.nil_append]
  | cons p l ih =>
    rw [encodeLog_cons, List.length_append, List.cons_append, wholeRecords, if_pos (by omega),
      Nat.add_assoc, Nat.add_sub_cancel_left, ih, List.cons_append]

theorem tornTail_append (l w : Log) (n : Nat) :
    tornTail ((encodeLog l).length + n) (l ++ w) = tornTail n w := by
  induction l with
  | nil => rw [encodeLog_nil, List.length_nil, Nat.zero_add, List.nil_append]
  | cons p l ih =>
    rw [encodeLog_cons, List.length_append, List.cons_append, tornTail, if_pos (by omega),
      Nat.add_assoc, Nat.add_sub_cancel_left, ih]

/-- A cut before the end leaves out the last record. -/
theorem wholeRecords_concat {l : Log} {p : HashOrder × RecordData} {n : Nat}
    (h : n < (encodeLog (l ++ [p])).length) : ∃ j, wholeRecords n (l ++ [p]) = l.take j := by
  obtain ⟨j, hj⟩ := wholeRecords_eq_take n (l ++ [p])
  have hlen := congrArg List.length (take_encodeLog n (l ++ [p]))
  rw [hj, List.length_take, List.length_append] at hlen
  refine ⟨j, hj.trans (List.take_append_of_le_length ?_)⟩
  by_contra hlt
  rw [List.take_of_length_le (by rw [List.length_append, List.length_singleton]; omega)] at hlen
  omega

/-! ## Records in a bracket that never ends -/

theorem contents_unfinished {st : ReplayState} (hst : st.txnBuffer = none) (txnId : UInt64)
    {rs : List RecordData} (hrs : ∀ r ∈ rs, r.isMarker = false) :
    (st.run (.beginTxn txnId :: rs)).contents = st.contents := by
  obtain ⟨nodes, edges, buf⟩ := st
  obtain rfl : buf = none := hst
  have hbegin : (⟨nodes, edges, none⟩ : ReplayState).applyRecord (.beginTxn txnId) =
      ⟨nodes, edges, some ⟨txnId, [], [], [], []⟩⟩ := rfl
  rw [run_cons, hbegin, run_buffered hrs]
  rfl

theorem contents_rolledBack {st : ReplayState} (hst : st.txnBuffer = none) (txnId : UInt64)
    {rs : List RecordData} (hrs : ∀ r ∈ rs, r.isMarker = false) :
    (st.run (.beginTxn txnId :: (rs ++ [.rollbackTxn txnId]))).contents = st.contents := by
  rw [← List.cons_append, run_append, ← contents_unfinished hst txnId hrs]
  rfl

theorem BinaryFileStorage.PlainRecords.take {rs : Log} (h : PlainRecords rs) (j : Nat) :
    ∀ r ∈ Log.records (rs.take j), r.isMarker = false := by
  intro r hr
  obtain ⟨p, hp, rfl⟩ := List.mem_map.mp hr
  exact h _ (List.mem_map.mpr ⟨p, List.mem_of_mem_take hp, rfl⟩)

/-- None of the stretches of the bytes is a transaction marker with its checksum behind it, and
none asks for a capacity that is refused. -/
def Markerless [Allocator] (bytes : Bytes) : Prop := ∀ s ∈ stretches bytes, s.verdict ≠ .refused ∧
  (s.verdict = .executed →
    s.recordType ∉ [some recordBeginTxn, some recordCommitTxn, some recordRollbackTxn])

instance [Allocator] (bytes : Bytes) : Decidable (Markerless bytes) :=
  inferInstanceAs (Decidable (∀ s ∈ stretches bytes, _))

/-- The records that markerless bytes spell are no markers. -/
theorem Markerless.records [Allocator] {bytes : Bytes} (h : Markerless bytes) :
    (∀ v ∈ visits bytes bytes.length 0, v.found ≠ .panicked) ∧
      ∀ r ∈ (visits bytes bytes.length 0).filterMap (fun v => v.found.record?),
        r.isMarker = false := by
  rw [Markerless, stretches, stretchesFrom_eq, List.forall_mem_map] at h
  refine ⟨fun v hv hpanicked => (h v hv).1 (by rw [Visit.stretch, hpanicked]; rfl), fun r hr => ?_⟩
  obtain ⟨v, hv, hrecord⟩ := List.mem_filterMap.mp hr
  cases hfound : v.found with
  | record s =>
    rw [hfound] at hrecord
    obtain rfl := Option.some.inj hrecord
    have htype := (h v hv).2 (by rw [Visit.stretch, hfound]; rfl)
    dsimp only [Visit.stretch] at htype
    rw [(executed_visit hv hfound).1] at htype
    cases s with
    | beginTxn _ | commitTxn _ | rollbackTxn _ =>
      exact absurd (by simp [typeByte]) htype
    | upsertNode _ | upsertEdge _ | deleteNode _ | deleteEdge _ => rfl
  | skipped | stopped | panicked => rw [hfound] at hrecord; cases hrecord

/-- Fewer than thirteen bytes spell no record. -/
theorem records_of_short [Allocator] {bytes : Bytes} (h : bytes.length < 13) :
    (visits bytes bytes.length 0).filterMap (fun v => v.found.record?) = [] := by
  refine List.filterMap_eq_nil_iff.mpr fun v hv => ?_
  cases hfound : v.found with
  | record r =>
    have := (executed_visit hv hfound).2
    omega
  | skipped | stopped | panicked => rfl

/-- Wherever a closing bracket is cut off, the file shows what it did before. -/
theorem replay_cut_bracket [Allocator] {l rs : Log} {txnId : UInt64} {last : RecordData}
    {ord ord' : HashOrder} (hfits : LogFits (l ++ (ord, .beginTxn txnId) :: (rs ++ [(ord', last)])))
    (hgranted : Log.Granted (l ++ (ord, .beginTxn txnId) :: (rs ++ [(ord', last)])))
    (hclosed : (stateOf l).txnBuffer = none) (hplain : PlainRecords rs) {m : Nat}
    (hm : (header ++ encodeLog l).length ≤ m)
    (hlt : m < (header ++ encodeLog (l ++ (ord, .beginTxn txnId) :: (rs ++ [(ord', last)]))).length)
    (htorn : Markerless
      (tornTail (m - 8) (l ++ (ord, .beginTxn txnId) :: (rs ++ [(ord', last)])))) :
    replay ((header ++ encodeLog (l ++ (ord, .beginTxn txnId) :: (rs ++ [(ord', last)]))).take m) =
      .ok (stateOf l).contents := by
  have hh : header.length = 8 := rfl
  have hwhole := wholeRecords_fits hfits (m - 8)
  have hwholeGranted := wholeRecords_granted hgranted (m - 8)
  obtain ⟨hgrants, hrecords⟩ := htorn.records
  rw [List.length_append, hh] at hm hlt
  obtain ⟨n, hn⟩ : ∃ n, m - 8 = (encodeLog l).length + n := ⟨m - 8 - (encodeLog l).length, by omega⟩
  rw [encodeLog_append, List.length_append, encodeLog_cons, List.length_append] at hlt
  dsimp only at hlt
  rw [List.take_append, List.take_of_length_le (by omega), hh, take_encodeLog,
    replay_log_rest hwhole hwholeGranted, if_pos hgrants, hn, wholeRecords_append, stateOf_append,
    ← run_append]
  rw [hn, tornTail_append] at hrecords
  rw [tornTail_append, wholeRecords]
  rw [tornTail] at hrecords ⊢
  split_ifs at hrecords ⊢ with hbegin
  · -- the bracket is open, and buffers whatever the torn record spells
    obtain ⟨j, hj⟩ := wholeRecords_concat
      (l := rs) (p := (ord', last)) (n := n - (encodeRecord ord (.beginTxn txnId)).length)
      (Nat.sub_lt_left_of_lt_add hbegin (by omega))
    rw [hj, Log.records_cons, List.cons_append, contents_unfinished hclosed]
    exact List.forall_mem_append.mpr ⟨hplain.take j, hrecords⟩
  · -- not even the marker is whole, and it is too short to spell a record
    have hshort : ((encodeRecord ord (.beginTxn txnId)).take n).length < 13 := by
      have hmarker : (encodeRecord ord (.beginTxn txnId)).length = 13 := rfl
      rw [hmarker] at hbegin
      rw [List.length_take]
      omega
    rw [records_of_short hshort]
    rfl

end AdGraphDb
