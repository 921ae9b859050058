import AdGraphDb.Storage.TornRecord

/-!
# Writing to a file that a crash has cut

`open` appends behind whatever the crash left. Behind a whole number of records the
new ones are read back; behind a torn record its decoder swallows their first bytes,
and behind a torn header the version is wrong.
-/

namespace AdGraphDb
open Reader

/-! ## What decoding a node reveals of the bytes -/

theorem readU32_ok {data : Bytes} {pos q : Nat} {v : UInt32}
    (h : readU32 data pos = (.ok v, q)) :
    q = pos + 4 ∧ q ≤ data.length ∧ v = UInt32.ofNat (leValue ((data.drop pos).take 4)) := by
  rw [readU32_eq] at h
  split_ifs at h with hp
  · cases h
    exact ⟨rfl, hp, rfl⟩
  · cases h

theorem fromUtf8_ok {bytes data : Bytes} {pos q : Nat} {s : String}
    (h : fromUtf8 bytes data pos = (.ok s, q)) : asBytes s = bytes := by
  rw [fromUtf8, String.fromUTF8?] at h
  split_ifs at h with hv
  · cases h
    rfl
  · cases h

theorem readStr_ok {data : Bytes} {pos q : Nat} {s : String} (h : readStr data pos = (.ok s, q)) :
    leValue ((data.drop pos).take 4) = (asBytes s).length ∧ asBytes s <+: data.drop (pos + 4) := by
  obtain ⟨len, p, hlen, h⟩ := bind_eq_ok h
  obtain ⟨w, p', hw, hs⟩ := bind_eq_ok h
  obtain ⟨rfl, hle, rfl⟩ := readU32_ok hlen
  have hw' := length_of_returns_bytes ⟨data, pos + 4, by rw [← readBytes, hw]⟩
  have h4 : leValue ((data.drop pos).take 4) < 2 ^ 32 := by
    refine (leValue_lt _).trans_le (Nat.pow_le_pow_right (by decide : 256 > 0) ?_ : _ ≤ 256 ^ 4)
    rw [List.length_take]
    exact Nat.min_le_left _ _
  rw [toNat_ofNat_of_lt h4] at hw hw'
  rw [readBytes, bytes] at hw
  split_ifs at hw with hp
  · cases hw
  rw [slice?_of_le (by omega)] at hw
  rw [fromUtf8_ok hs, hw']
  cases hw
  exact ⟨rfl, List.take_prefix _ _⟩

/-- A node is decoded from its type byte, its label's length and its label. -/
theorem recordBody_upsertNode {data : Bytes} {q : Nat} {n : Node}
    (h : recordBody data 0 = (.ok (.upsertNode n), q)) :
    data[0]? = some recordUpsertNode ∧
      leValue ((data.drop 9).take 4) = (asBytes n.label).length ∧
      asBytes n.label <+: data.drop 13 := by
  obtain ⟨t, p, ht, h⟩ := bind_eq_ok h
  rw [readU8, byte] at ht
  split_ifs at ht with hlt
  · cases ht
  rw [List.getElem?_eq_getElem (by omega)] at ht
  cases ht
  rw [List.getElem?_eq_getElem (by omega)]
  unfold decodeRecord at h
  split_ifs at h with ht
  · obtain ⟨m, p, hm, hr⟩ := bind_eq_ok h
    cases hr
    obtain ⟨id, p, hid, hm⟩ := bind_eq_ok hm
    obtain ⟨rfl, -⟩ := readU64_ok hid
    obtain ⟨label, p, hlabel, hm⟩ := bind_eq_ok hm
    obtain ⟨props, p', -, hm⟩ := bind_eq_ok hm
    cases hm
    exact ⟨congrArg some ht, readStr_ok hlabel⟩
  all_goals first
    | (obtain ⟨m, p, -, hr⟩ := bind_eq_ok h; cases hr)
    | cases h

/-! ## A probe that cannot survive behind a torn record -/

/-- A label of one `b` and `k` times `a`. -/
def beacon (k : Nat) : String := String.ofList ('b' :: List.replicate k 'a')

def beaconNode (k : Nat) : Node := ⟨⟨0⟩, beacon k, ∅⟩

/-- The node, and enough other records for a torn record to swallow bytes from. -/
def probe (k fill : Nat) : Log :=
  (.sorted, .upsertNode (beaconNode k)) :: List.replicate fill (.sorted, .deleteEdge ⟨0⟩)

theorem asBytes_ofList_cons (c : Char) (cs : List Char) :
    asBytes (String.ofList (c :: cs)) = String.utf8EncodeChar c ++ asBytes (String.ofList cs) := by
  rw [asBytes_ofList, asBytes_ofList, List.flatMap_cons]

theorem asBytes_beacon (k : Nat) : asBytes (beacon k) = 98 :: List.replicate k 97 := by
  have ha : asBytes (String.ofList (List.replicate k 'a')) = List.replicate k 97 := by
    induction k with
    | zero => rfl
    | succ k ih => rw [List.replicate_succ, asBytes_ofList_cons, ih]; rfl
  rw [beacon, asBytes_ofList_cons, ha]
  rfl

theorem beaconNode_fits {k : Nat} (hk : k < 16) : NodeFits (beaconNode k) := by
  refine ⟨?_, show PropertiesFit ∅ by decide⟩
  rw [StrFits, beaconNode, asBytes_beacon, List.length_cons, List.length_replicate]
  omega

theorem probe_fits {k : Nat} (hk : k < 16) (fill : Nat) : LogFits (probe k fill) := by
  intro p hp
  rcases List.mem_cons.mp hp with rfl | hp
  · exact beaconNode_fits hk
  · rw [(List.mem_replicate.mp hp).2]
    trivial

theorem encodeLog_replicate_length (p : HashOrder × RecordData) (m : Nat) :
    m ≤ (encodeLog (List.replicate m p)).length := by
  induction m with
  | zero => exact Nat.zero_le _
  | succ m ih =>
    have := encodeRecord_length p.1 p.2
    rw [List.replicate_succ, encodeLog_cons, List.length_append]
    omega

theorem mem_encodeLog_replicate {p : HashOrder × RecordData} {m : Nat} {b : UInt8}
    (h : b ∈ encodeLog (List.replicate m p)) : b ∈ encodeRecord p.1 p.2 := by
  obtain ⟨q, hq, hb⟩ := List.mem_flatMap.mp h
  rwa [(List.mem_replicate.mp hq).2] at hb

/-- The probe around the label. Behind eight more bytes no `a` and no `b` occurs. -/
theorem encodeLog_probe (k fill : Nat) : ∃ front back : Bytes, front.length = 13 ∧
    (∀ b ∈ back.drop 8, b ≠ 97 ∧ b ≠ 98) ∧
    encodeLog (probe k fill) = front ++ (98 :: List.replicate k 97 ++ back) := by
  let body := bodyBytes .sorted (.upsertNode (beaconNode k))
  let rest := encodeLog (List.replicate fill (.sorted, .deleteEdge ⟨0⟩))
  refine ⟨writeU8 recordUpsertNode ++ (writeU64 0 ++
      writeU32 (UInt32.ofNat (asBytes (beacon k)).length)),
    [0, 0, 0, 0] ++ (writeU32 (adler32 body) ++ rest), ?_, ?_, ?_⟩
  · simp [writeU8, writeU64, writeU32]
  · intro b hb
    have hdrop : ([0, 0, 0, 0] ++ (writeU32 (adler32 body) ++ rest)).drop 8 = rest := by
      rw [← List.append_assoc]
      exact List.drop_left' rfl
    rw [hdrop] at hb
    have hrec : encodeRecord .sorted (.deleteEdge ⟨0⟩) = [4, 0, 0, 0, 0, 0, 0, 0, 0, 5, 0, 45, 0] := by
      decide
    have hmem := mem_encodeLog_replicate hb
    rw [hrec] at hmem
    constructor <;> rintro rfl <;> exact absurd hmem (by decide)
  · have hprops : writeProperties .sorted ∅ = [0, 0, 0, 0] := by decide
    have hb : body = writeU8 recordUpsertNode ++ (writeU64 0 ++
        (writeU32 (UInt32.ofNat (asBytes (beacon k)).length) ++
          (98 :: List.replicate k 97 ++ [0, 0, 0, 0]))) := by
      rw [← asBytes_beacon k]
      simp only [body, bodyBytes, payload, writeStr, beaconNode, hprops, List.append_assoc]
      rfl
    rw [probe, encodeLog_cons, encodeRecord_eq_bodyBytes]
    change body ++ writeU32 (adler32 body) ++ rest = _
    generalize adler32 body = v
    rw [hb]
    simp only [List.append_assoc, List.cons_append]

theorem getElem?_of_prefix_drop {w l : Bytes} {e i : Nat} (h : w <+: l.drop e)
    (hi : i < w.length) : l[e + i]? = w[i]? := by
  obtain ⟨v, hv⟩ := h
  rw [← List.getElem?_drop, ← hv, List.getElem?_append_left hi]

/-- The label does not occur again behind its own beginning. -/
theorem beacon_not_behind {k : Nat} (hk : 13 ≤ k) {back : Bytes}
    (hback : ∀ b ∈ back.drop 8, b ≠ 97 ∧ b ≠ 98) {d : Nat} (hd : 1 ≤ d) :
    ¬(98 :: List.replicate k 97) <+: (98 :: List.replicate k (97 : UInt8) ++ back).drop d := by
  intro h
  have hlen : (98 :: List.replicate k (97 : UInt8)).length = k + 1 := by simp
  have h0 := getElem?_of_prefix_drop h (i := 0) (by omega)
  have h8 := getElem?_of_prefix_drop h (i := 8) (by omega)
  rw [Nat.add_zero, List.getElem?_cons_zero] at h0
  rw [List.getElem?_cons_succ, List.getElem?_replicate, if_pos (by omega)] at h8
  by_cases hdk : d ≤ k
  · rw [List.getElem?_append_left (by omega)] at h0
    obtain ⟨j, rfl⟩ : ∃ j, d = j + 1 := ⟨d - 1, by omega⟩
    rw [List.getElem?_cons_succ, List.getElem?_replicate, if_pos (by omega)] at h0
    cases h0
  · rw [List.getElem?_append_right (by omega), hlen] at h0 h8
    by_cases h : 8 ≤ d - (k + 1)
    · rw [show d - (k + 1) = 8 + (d - (k + 1) - 8) by omega, ← List.getElem?_drop] at h0
      exact (hback _ (List.mem_of_getElem? h0)).2 rfl
    · rw [show d + 8 - (k + 1) = 8 + (d - (k + 1)) by omega, ← List.getElem?_drop] at h8
      exact (hback _ (List.mem_of_getElem? h8)).1 rfl

/-- Nor does a shorter torn record read it as its own label. -/
theorem beacon_not_shifted {k : Nat} (hk : 13 ≤ k) {t front back : Bytes} (hf : front.length = 13)
    (ht : 1 ≤ t.length) (ht' : t.length ≤ 13) :
    ¬(98 :: List.replicate k 97) <+:
      (t ++ (front ++ (98 :: List.replicate k (97 : UInt8) ++ back))).drop 13 := by
  intro h
  have hlen : (98 :: List.replicate k (97 : UInt8)).length = k + 1 := by simp
  have hi := getElem?_of_prefix_drop h (i := t.length) (by omega)
  rw [List.getElem?_append_right (by omega), List.getElem?_append_right (by omega), hf,
    show 13 + t.length - t.length - 13 = 0 by omega] at hi
  obtain ⟨j, hj⟩ : ∃ j, t.length = j + 1 := ⟨t.length - 1, by omega⟩
  rw [hj, List.getElem?_cons_succ, List.getElem?_replicate, if_pos (by omega)] at hi
  cases hi

/-- The type byte, the id and the label's length of a written node. -/
theorem encodeRecord_upsertNode_prefix (ord : HashOrder) (m : Node) : ∃ rest : Bytes,
    encodeRecord ord (.upsertNode m) = recordUpsertNode :: (writeU64 m.id.val ++
      (writeU32 (UInt32.ofNat (asBytes m.label).length) ++ rest)) := by
  rw [encodeRecord_eq_bodyBytes]
  generalize writeU32 (adler32 (bodyBytes ord (.upsertNode m))) = csum
  refine ⟨asBytes m.label ++ (writeProperties ord m.properties ++ csum), ?_⟩
  simp [bodyBytes, writeU8, typeByte, payload, writeStr]

theorem typeByte_eq_upsertNode {r : RecordData} (h : typeByte r = recordUpsertNode) :
    ∃ m, r = .upsertNode m := by
  cases r with
  | upsertNode m => exact ⟨m, rfl⟩
  | _ => cases h

/-- Nothing that is read behind a torn record is the probe's node. -/
theorem beacon_not_read {ord : HashOrder} {r : RecordData} (hr : RecordFits r) {t : Bytes}
    (ht : t <+: encodeRecord ord r) (hne : t ≠ encodeRecord ord r) (hnil : t ≠ []) {k fill : Nat}
    (hk : 13 ≤ k) (hlabel : ∀ m, r = .upsertNode m → (asBytes m.label).length ≠ k + 1)
    (hfill : (encodeRecord ord r).length ≤ fill) :
    .upsertNode (beaconNode k) ∉ readLog (t ++ encodeLog (probe k fill)) := by
  have hlen : (encodeRecord ord r).length ≤ t.length + (encodeLog (probe k fill)).length := by
    have := encodeLog_replicate_length (.sorted, .deleteEdge ⟨0⟩) fill
    rw [probe, encodeLog_cons, List.length_append]
    omega
  have hover := nextFrame_overrun ord hr ht hne hnil hlen
  have ht1 : 1 ≤ t.length := List.length_pos_iff.mpr hnil
  obtain ⟨front, back, hfront, hback, he⟩ := encodeLog_probe k fill
  -- Behind the torn bytes the label starts too late.
  have behind {p : Nat} (hp : t.length < p) :
      .upsertNode (beaconNode k) ∉ readLog ((t ++ encodeLog (probe k fill)).drop p) := by
    intro h
    obtain ⟨j, q, hj, hq⟩ := mem_readLog h
    obtain ⟨-, -, hl⟩ :=
      recordBody_upsertNode (nextFrame_record (by rw [List.length_drop]; omega) hq).1
    have hdrop : (t ++ (front ++ (98 :: List.replicate k 97 ++ back))).drop (p + (j + 13)) =
        (98 :: List.replicate k (97 : UInt8) ++ back).drop (p + j - t.length) := by
      rw [show p + (j + 13) = t.length + (front.length + (p + j - t.length)) by omega,
        ← List.drop_drop, List.drop_left, ← List.drop_drop, List.drop_left]
    rw [beaconNode, asBytes_beacon, List.drop_drop, List.drop_drop, he, hdrop] at hl
    exact beacon_not_behind hk hback (by omega) hl
  -- The torn record itself cannot end in the label.
  have first {q : Nat} :
      recordBody (t ++ encodeLog (probe k fill)) 0 ≠ (.ok (.upsertNode (beaconNode k)), q) := by
    intro h
    obtain ⟨h0, h9, hl⟩ := recordBody_upsertNode h
    rw [beaconNode, asBytes_beacon] at h9 hl
    by_cases ht13 : t.length ≤ 13
    · rw [he] at hl
      exact beacon_not_shifted hk hfront ht1 ht13 hl
    · obtain ⟨rest, hrest⟩ := ht
      rw [List.getElem?_append_left (by omega)] at h0
      have htype : typeByte r = recordUpsertNode := by
        have h0' : (encodeRecord ord r)[0]? = some recordUpsertNode := by
          rw [← hrest, List.getElem?_append_left (by omega), h0]
        rw [encodeRecord_eq_bodyBytes] at h0'
        exact Option.some.inj h0'
      obtain ⟨m, rfl⟩ := typeByte_eq_upsertNode htype
      obtain ⟨rest', hm⟩ := encodeRecord_upsertNode_prefix ord m
      have h13 : (t.drop 9).take 4 = writeU32 (UInt32.ofNat (asBytes m.label).length) := by
        have h1 : ((encodeRecord ord (.upsertNode m)).drop 9).take 4 = (t.drop 9).take 4 := by
          rw [← hrest, List.drop_append_of_le_length (by omega),
            List.take_append_of_le_length (by rw [List.length_drop]; omega)]
        rw [← h1, hm]
        have h8 : (recordUpsertNode :: writeU64 m.id.val).length = 9 := rfl
        rw [← List.cons_append, ← h8, List.drop_left, ← writeU32_length, List.take_left]
      rw [List.drop_append_of_le_length (by omega),
        List.take_append_of_le_length (by rw [List.length_drop]; omega), h13, writeU32,
        leValue_leBytes, Nat.mod_eq_of_lt (by exact UInt32.toNat_lt _), toNat_ofNat_of_lt hr.1,
        List.length_cons, List.length_replicate] at h9
      exact hlabel m rfl h9
  have hbody : t ++ encodeLog (probe k fill) ≠ [] := List.append_ne_nil_of_left_ne_nil hnil _
  intro h
  rcases mem_readLog_cases hbody h with ⟨q, hq⟩ | h
  · exact first (nextFrame_record (List.length_pos_iff.mpr hbody) hq).1
  · exact behind hover h

/-! ## Recovery -/

namespace BinaryFileStorage

/-- Whatever plain records are written after the open, they are durable. -/
def RecoversDurably (file : Bytes) : Prop :=
  ∀ calls, LogFits (written calls) → PlainRecords (written calls) →
    AppendsDurable (openPath (some file)) calls

theorem PlainRecords.of_subset {l l' : Log} (h : PlainRecords l) (hs : l' ⊆ l) :
    PlainRecords l' := fun r hr => by
  obtain ⟨p, hp, rfl⟩ := List.mem_map.mp hr
  exact h _ (List.mem_map_of_mem (hs hp))

theorem recoversDurably_log {l : Log} (hl : LogFits l) (hplain : PlainRecords l) :
    RecoversDurably (header ++ encodeLog l) := by
  intro calls hw _ s' hs' c hc
  have hb : (stateOf l).txnBuffer = none := run_txnBuffer_none rfl hplain
  have hc' := (replay_log_eq hl).symm.trans hc
  rw [replay_after_calls hl hw hs', ← Except.ok.inj hc', applyRecords]
  simp only [ReplayState.contents, ← hb]

/-- Behind a torn header the version is not the format's. -/
theorem not_recoversDurably_header {k : Nat} (hk : k < 8) :
    ¬RecoversDurably (header.take k) := by
  intro h
  have h' := h [.write .sorted (.deleteNode ⟨0⟩)] (by decide) (by decide)
    ⟨header.take k ++ encodeRecord .sorted (.deleteNode ⟨0⟩)⟩ rfl (∅, ∅)
  interval_cases k <;> exact absurd (h' (by decide)) (by decide)

theorem wholeRecords_eq_take (n : Nat) (l : Log) : ∃ j, wholeRecords n l = l.take j := by
  induction l generalizing n with
  | nil => exact ⟨0, rfl⟩
  | cons p l ih =>
    rw [wholeRecords]
    split_ifs
    · obtain ⟨j, hj⟩ := ih (n - (encodeRecord p.1 p.2).length)
      exact ⟨j + 1, by rw [hj, List.take_succ_cons]⟩
    · exact ⟨0, rfl⟩

/-- The length of the label of the node that a record writes. -/
def labelLength : RecordData → Nat
  | .upsertNode m => (asBytes m.label).length
  | _ => 0

/-- Three lengths, of which one avoids any two given ones. -/
theorem exists_avoiding (a b : Nat) : ∃ k, 13 ≤ k ∧ k < 16 ∧ a ≠ k + 1 ∧ b ≠ k + 1 := by
  by_cases h1 : a ≠ 14 ∧ b ≠ 14
  · exact ⟨13, by omega, by omega, h1⟩
  · by_cases h2 : a ≠ 15 ∧ b ≠ 15
    · exact ⟨14, by omega, by omega, h2⟩
    · exact ⟨15, by omega, by omega, by omega, by omega⟩

/-- The calls that write the probe. -/
def probeCalls (k fill : Nat) : List Call :=
  .write .sorted (.upsertNode (beaconNode k)) ::
    List.replicate fill (.write .sorted (.deleteEdge ⟨0⟩))

theorem written_probeCalls (k fill : Nat) : written (probeCalls k fill) = probe k fill := by
  have hfill : written (List.replicate fill (.write .sorted (.deleteEdge ⟨0⟩))) =
      List.replicate fill (.sorted, .deleteEdge ⟨0⟩) := by
    induction fill with
    | zero => rfl
    | succ n ih => rw [List.replicate_succ, written, ih, List.replicate_succ]
  rw [probeCalls, written, hfill, probe]

theorem probe_plain (k fill : Nat) : PlainRecords (probe k fill) := by
  intro s hs
  obtain ⟨p, hp, rfl⟩ := List.mem_map.mp hs
  rcases List.mem_cons.mp hp with rfl | hp
  · rfl
  · rw [(List.mem_replicate.mp hp).2]
    rfl

/-- The probe written behind a torn record is lost. -/
theorem not_recoversDurably_torn {l : Log} (hl : LogFits l) (hplain : PlainRecords l)
    {ord : HashOrder} {r : RecordData} (hr : RecordFits r) {t : Bytes}
    (ht : t <+: encodeRecord ord r) (hne : t ≠ encodeRecord ord r) (hnil : t ≠ []) :
    ¬RecoversDurably (header ++ (encodeLog l ++ t)) := by
  intro h
  obtain ⟨k, hk, hk', hka, hkb⟩ := exists_avoiding (labelLength r)
    ((stateOf l).nodes[(⟨0⟩ : NodeId)]?.elim 0 fun m => (asBytes m.label).length)
  let fill := (encodeRecord ord r).length
  have hwritten := written_probeCalls k fill
  have hpp := probe_plain k fill
  have hopen : BinaryFileStorage.replay ⟨header ++ (encodeLog l ++ t)⟩ =
      .ok ((stateOf l).run (readLog t)).contents := replay_eq_ok (replay_encodeLog hl t)
  have hlate := h (probeCalls k fill) (hwritten ▸ probe_fits hk' fill) (hwritten ▸ hpp) _
    (forEach_perform (probeCalls k fill) _) _ hopen
  rw [hwritten, applyRecords_eq hpp] at hlate
  have hactual : BinaryFileStorage.replay ⟨header ++ (encodeLog l ++ t) ++ encodeLog (probe k fill)⟩ =
      .ok ((stateOf l).run (readLog (t ++ encodeLog (probe k fill)))).contents := by
    rw [List.append_assoc, List.append_assoc]
    exact replay_eq_ok (replay_encodeLog hl _)
  have heq := Except.ok.inj (hactual.symm.trans hlate)
  have hmap : (probe k fill).records.filterMap RecordData.nodeUpdate? =
      [.put ⟨0⟩ (beaconNode k)] := by
    simp [probe, Log.records, RecordData.nodeUpdate?, beaconNode]
  have hnode := congrArg (fun c : Contents => c.1[(⟨0⟩ : NodeId)]?) heq
  dsimp only at hnode
  rw [hmap, Update.applyAll_cons, Update.applyAll_nil, Update.getElem?_apply,
    if_pos (show (Update.put ⟨0⟩ (beaconNode k)).key = (⟨0⟩ : NodeId) from rfl)] at hnode
  -- No entry of the state is the probe's node.
  have hholds : Holds (fun id n => ¬(id = ⟨0⟩ ∧ n = beaconNode k)) (fun _ _ => True)
      ((stateOf l).run (readLog (t ++ encodeLog (probe k fill)))) := by
    refine Holds.run ⟨?_, fun _ _ _ => trivial, ?_, fun _ _ _ _ => trivial⟩ ?_
    · rintro id n hn ⟨rfl, rfl⟩
      refine hkb ?_
      simp [hn, beaconNode, asBytes_beacon]
    · intro buf hbuf
      rw [stateOf, run_txnBuffer_none rfl hplain] at hbuf
      cases hbuf
    · intro s hs
      cases s with
      | upsertNode m =>
        rintro ⟨-, rfl⟩
        refine beacon_not_read hr ht hne hnil hk ?_ le_rfl hs
        rintro m rfl
        exact hka
      | _ => trivial
  exact hholds.nodes ⟨0⟩ (beaconNode k) hnode ⟨rfl, rfl⟩

/-- Writes after the open are durable exactly when the crash left the header and a whole
number of records. -/
theorem recoversDurably_iff {l : Log} (hl : LogFits l) (hplain : PlainRecords l) {file : Bytes}
    (hf : file <+: header ++ encodeLog l) :
    RecoversDurably file ↔ ∃ n, file = header ++ encodeLog (l.take n) := by
  constructor
  · intro h
    have htake := List.prefix_iff_eq_take.mp hf
    have hh : header.length = 8 := rfl
    by_cases h8 : file.length < 8
    · rw [List.take_append_of_le_length (by omega)] at htake
      exact absurd (htake ▸ h) (not_recoversDurably_header h8)
    · rw [List.take_append, List.take_of_length_le (by omega), hh, take_encodeLog] at htake
      obtain ⟨j, hj⟩ := wholeRecords_eq_take (file.length - 8) l
      refine ⟨j, ?_⟩
      rw [hj] at htake
      rcases tornTail_cases hl (file.length - 8) with hnil | ⟨ord, r, hr, ht, hne⟩
      · rwa [hnil, List.append_nil] at htake
      · by_cases hnil : tornTail (file.length - 8) l = []
        · rwa [hnil, List.append_nil] at htake
        · have hsub : l.take j ⊆ l := (List.take_sublist j l).subset
          exact absurd (htake ▸ h) (not_recoversDurably_torn (fun p hp => hl p (hsub hp))
            (hplain.of_subset hsub) hr ht hne hnil)
  · rintro ⟨n, rfl⟩
    have hsub : l.take n ⊆ l := (List.take_sublist n l).subset
    exact recoversDurably_log (fun p hp => hl p (hsub hp)) (hplain.of_subset hsub)

/-- A crash between two records. -/
theorem recoversDurably_example : RecoversDurably
    (header ++ encodeRecord .sorted (.upsertNode ⟨⟨0⟩, "A", ∅⟩)) :=
  (recoversDurably_iff (l := [(.sorted, .upsertNode ⟨⟨0⟩, "A", ∅⟩), (.sorted, .deleteNode ⟨0⟩)])
    (by decide) (by decide) (by decide)).mpr ⟨1, by decide⟩

/-- A node written behind the first byte of a torn record is lost. -/
theorem write_lost_behind_torn_byte :
    header ++ [recordDeleteNode] <+: header ++ encodeLog [(.sorted, .deleteNode ⟨7⟩)] ∧
      LogFits [(.sorted, .deleteNode ⟨7⟩)] ∧ PlainRecords [(.sorted, .deleteNode ⟨7⟩)] ∧
      ¬RecoversDurably (header ++ [recordDeleteNode]) := by
  refine ⟨by decide, by decide, by decide, fun h => ?_⟩
  have := h [.write .sorted (.upsertNode ⟨⟨0⟩, "A", ∅⟩)] (by decide) (by decide)
    ⟨header ++ [recordDeleteNode] ++ encodeRecord .sorted (.upsertNode ⟨⟨0⟩, "A", ∅⟩)⟩ rfl
    (∅, ∅) (by decide)
  revert this
  decide

end BinaryFileStorage

end AdGraphDb
