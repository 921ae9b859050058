import AdGraphDb.Storage.Visits

/-!
# A record torn at the end of the file

Decoding a torn record fails somewhere inside it. When four more bytes follow the
failed read they are taken for a checksum, and the loop goes on behind them: what
the rest of the record spells is executed, or allocated.
-/

namespace AdGraphDb
open Reader

/-- The records that lie wholly within the first `n` bytes of the log. -/
def wholeRecords (n : Nat) : Log → Log
  | [] => []
  | p :: l =>
    if (encodeRecord p.1 p.2).length ≤ n then
      p :: wholeRecords (n - (encodeRecord p.1 p.2).length) l
    else []

/-- The first bytes of the record that is cut after `n` bytes of the log. -/
def tornTail (n : Nat) : Log → Bytes
  | [] => []
  | p :: l =>
    if (encodeRecord p.1 p.2).length ≤ n then tornTail (n - (encodeRecord p.1 p.2).length) l
    else (encodeRecord p.1 p.2).take n

/-- No stretch of the bytes is whole with its checksum behind it, and none asks for a capacity
that is refused. -/
def Silent [Allocator] (bytes : Bytes) : Prop :=
  ∀ s ∈ stretches bytes, s.verdict ≠ .executed ∧ s.verdict ≠ .refused

instance [Allocator] (bytes : Bytes) : Decidable (Silent bytes) :=
  inferInstanceAs (Decidable (∀ s ∈ stretches bytes, _))

theorem take_encodeLog (n : Nat) (l : Log) :
    (encodeLog l).take n = encodeLog (wholeRecords n l) ++ tornTail n l := by
  induction l generalizing n with
  | nil => simp [wholeRecords, tornTail]
  | cons p l ih =>
    rw [encodeLog_cons, wholeRecords, tornTail, List.take_append]
    split_ifs with h
    · rw [List.take_of_length_le h, ih, encodeLog_cons, List.append_assoc]
    · rw [Nat.sub_eq_zero_of_le (by omega), List.take_zero, List.append_nil]
      rfl

theorem mem_of_mem_wholeRecords {p : HashOrder × RecordData} {n : Nat} {l : Log}
    (h : p ∈ wholeRecords n l) : p ∈ l := by
  induction l generalizing n with
  | nil => cases h
  | cons q l ih =>
    rw [wholeRecords] at h
    split_ifs at h
    · rcases List.mem_cons.mp h with rfl | h
      · exact List.mem_cons_self
      · exact List.mem_cons_of_mem q (ih h)
    · cases h

theorem wholeRecords_fits {l : Log} (hl : LogFits l) (n : Nat) : LogFits (wholeRecords n l) :=
  fun p hp => hl p (mem_of_mem_wholeRecords hp)

theorem wholeRecords_granted [Allocator] {l : Log} (hl : l.Granted) (n : Nat) :
    (wholeRecords n l).Granted := fun p hp => hl p (mem_of_mem_wholeRecords hp)

/-- The tail is empty or a proper prefix of a written record. -/
theorem tornTail_cases {l : Log} (hl : LogFits l) (n : Nat) : tornTail n l = [] ∨
    ∃ ord r, RecordFits r ∧ tornTail n l <+: encodeRecord ord r ∧ tornTail n l ≠ encodeRecord ord r := by
  induction l generalizing n with
  | nil => exact .inl rfl
  | cons p l ih =>
    rw [tornTail]
    split_ifs with h
    · exact ih (fun r hr => hl r (List.mem_cons_of_mem p hr)) _
    · refine .inr ⟨p.1, p.2, hl p List.mem_cons_self, List.take_prefix _ _, fun e => ?_⟩
      have := congrArg List.length e
      rw [List.length_take] at this
      omega

/-! ## Short tails -/

theorem readLe_ok {n : Nat} {data : Bytes} {pos q v : Nat} (h : readLe n data pos = (.ok v, q)) :
    q = pos + n ∧ q ≤ data.length ∧ v = leValue ((data.drop pos).take n) := by
  obtain ⟨w, r, hw, hu⟩ := bind_eq_ok h
  rw [readBytes, bytes] at hw
  split_ifs at hw with hp
  · cases hw
  rw [slice?_of_le (by omega)] at hw
  cases hw
  rw [fromLeBytes?_isSome (by rw [List.length_take, List.length_drop]; omega)] at hu
  cases hu
  exact ⟨rfl, by omega, rfl⟩

theorem readU64_ok {data : Bytes} {pos q : Nat} {v : UInt64}
    (h : readU64 data pos = (.ok v, q)) : q = pos + 8 ∧ q ≤ data.length := by
  obtain ⟨w, r, hw, hu⟩ := bind_eq_ok h
  cases hu
  exact ⟨(readLe_ok hw).1, (readLe_ok hw).2.1⟩

/-- Every payload starts with eight bytes. -/
theorem decodeRecord_ok [Allocator] {t : UInt8} {data : Bytes} {pos q : Nat} {r : RecordData}
    (h : decodeRecord t data pos = (.ok r, q)) : pos + 8 ≤ q := by
  have first {α : Type} {f : UInt64 → Decoder α} {b : α} (hf : ∀ v, Steady (f v))
      (hb : (readU64 >>= f) data pos = (.ok b, q)) : pos + 8 ≤ q := by
    obtain ⟨v, p, hp, hv⟩ := bind_eq_ok hb
    obtain ⟨rfl, hle⟩ := readU64_ok hp
    have := ((hf v).forward data _ hle).1
    rwa [hv] at this
  unfold decodeRecord at h
  split_ifs at h
  · obtain ⟨n, p, hn, hp⟩ := bind_eq_ok h
    cases hp
    exact first (fun _ => regular_readStr.steady.bind fun _ =>
      steady_readProperties.bind fun _ => (Regular.pure _).steady) hn
  · obtain ⟨e, p, he, hp⟩ := bind_eq_ok h
    cases hp
    exact first (fun _ => regular_readU64.steady.bind fun _ =>
      regular_readU64.steady.bind fun _ => regular_readStr.steady.bind fun _ =>
        regular_readF64.steady.bind fun _ => steady_readProperties.bind fun _ =>
          (Regular.pure _).steady) he
  all_goals first
    | exact first (fun _ => (Regular.pure _).steady) h
    | cases h

/-- A record takes thirteen bytes at least. -/
theorem nextFrame_record [Allocator] {data : Bytes} {pos q : Nat} {r : RecordData}
    (hpos : pos < data.length)
    (h : nextFrame true data pos = (.record r, q)) :
    recordBody data pos = (.ok r, q - 4) ∧ pos + 13 ≤ q ∧ q ≤ data.length := by
  have hle := (nextFrame_advances hpos).2.1
  rw [h] at hle
  have hsafe := (steady_recordBody.forward data pos hpos.le).1
  rw [nextFrame_eq hpos] at h
  match hb : recordBody data pos with
  | (.ok s, p) =>
    rw [hb] at h hsafe
    obtain ⟨t, p', ht, hd⟩ := bind_eq_ok hb
    rw [readU8_of_lt hpos] at ht
    cases ht
    have := decodeRecord_ok hd
    dsimp only at h hsafe
    rw [verifyChecksum_eq _ hsafe] at h
    split_ifs at h <;> cases h
    exact ⟨by rw [Nat.add_sub_cancel], by omega, hle⟩
  | (.err _, p) =>
    rw [hb] at h hsafe
    dsimp only at h hsafe
    rw [verifyChecksum_eq _ hsafe] at h
    split_ifs at h <;> cases h
  | (.panicked, p) => rw [hb] at h; cases h

/-- An executed record is the first frame or is read behind it. -/
theorem mem_readLog_cases {r : RecordData} {body : Bytes} (hnil : body ≠ []) (h : r ∈ readLog body) :
    (∃ q, nextFrame true body 0 = (.record r, q)) ∨
      r ∈ readLog (body.drop (nextFrame true body 0).2) := by
  rw [readLog_eq hnil] at h
  rcases hf : nextFrame true body 0 with ⟨_ | _ | _ | _, p⟩ <;> rw [hf] at h
  · rcases List.mem_cons.mp h with rfl | h
    · exact .inl ⟨p, rfl⟩
    · exact .inr h
  · exact .inr h
  · cases h
  · cases h

/-- Every executed record starts somewhere in the body. -/
theorem mem_readLog {r : RecordData} {body : Bytes} (h : r ∈ readLog body) :
    ∃ k q, k < body.length ∧ nextFrame true (body.drop k) 0 = (.record r, q) := by
  induction hn : body.length using Nat.strong_induction_on generalizing body with
  | _ n ih =>
    by_cases hnil : body = []
    · rw [hnil, readLog_nil] at h
      cases h
    · have hlt : 0 < body.length := List.length_pos_iff.mpr hnil
      have hgt := (nextFrame_safe hlt).2.1
      rcases mem_readLog_cases hnil h with ⟨q, hq⟩ | h
      · exact ⟨0, q, by omega, hq⟩
      · obtain ⟨k, q, hk, hq⟩ := ih _ (by rw [List.length_drop]; omega) h rfl
        rw [List.length_drop] at hk
        rw [List.drop_drop] at hq
        exact ⟨_, q, by omega, hq⟩

/-! ## Records spelled by torn bytes -/

theorem decodeRecord_typeByte [Allocator] {t : UInt8} {data : Bytes} {pos q : Nat} {r : RecordData}
    (h : decodeRecord t data pos = (.ok r, q)) : typeByte r = t := by
  unfold decodeRecord at h
  split_ifs at h with h1 h2 h3 h4 h5 h6 h7
  all_goals first
    | (obtain ⟨v, p, -, hv⟩ := bind_eq_ok h
       cases hv
       exact (by assumption : t = _).symm)
    | cases h

/-- The stretch of an executed record starts with its type byte and takes thirteen bytes at
least. -/
theorem executed_visit [Allocator] {data : Bytes} {v : Visit} {r : RecordData} {fuel pos : Nat}
    (h : v ∈ visits data fuel pos) (hr : v.found = .record r) :
    data[v.start]? = some (typeByte r) ∧ v.start + 13 ≤ data.length := by
  obtain ⟨-, hlt, hframe⟩ := mem_visits h
  rw [hr] at hframe
  obtain ⟨hbody, hlen, hle⟩ := nextFrame_record hlt hframe
  obtain ⟨t, q, ht, hd⟩ := bind_eq_ok hbody
  rw [readU8_of_lt hlt] at ht
  cases ht
  exact ⟨by rw [List.getElem?_eq_getElem hlt, decodeRecord_typeByte hd], by omega⟩

/-! ## The state after a crash -/

theorem silent_iff [Allocator] (bytes : Bytes) : Silent bytes ↔
    (∀ v ∈ visits bytes bytes.length 0, v.found ≠ .panicked) ∧
      (visits bytes bytes.length 0).filterMap Visit.record? = [] := by
  rw [Silent, stretches, stretchesFrom_eq, List.forall_mem_map, List.filterMap_eq_nil_iff,
    ← forall₂_and]
  refine forall₂_congr fun v _ => ?_
  obtain ⟨start, found, next⟩ := v
  cases found <;> simp [Visit.stretch, Visit.record?, Frame.verdict, Frame.record?]

/-- A torn record is ignored, and nothing of it executed, exactly when its bytes are silent. -/
theorem replay_take_iff [Allocator] {l : Log} (hl : LogFits l) (hg : l.Granted) {m : Nat}
    (hm : 8 ≤ m) :
    (replay ((header ++ encodeLog l).take m) =
        replay (header ++ encodeLog (wholeRecords (m - 8) l)) ∧
      executed ((header ++ encodeLog l).take m) = (wholeRecords (m - 8) l).places 8) ↔
      Silent (tornTail (m - 8) l) := by
  have hh : header.length = 8 := rfl
  have hwhole := wholeRecords_fits hl (m - 8)
  have hgranted := wholeRecords_granted hg (m - 8)
  rw [List.take_append, List.take_of_length_le (by omega), hh, take_encodeLog,
    replay_log_granted hwhole hgranted, replay_log_rest hwhole hgranted,
    executed_log hwhole hgranted, List.append_right_eq_self, filterMap_shift,
    List.map_eq_nil_iff, silent_iff]
  constructor
  · rintro ⟨hsame, hnone⟩
    refine ⟨?_, hnone⟩
    by_contra hrefused
    rw [if_neg hrefused] at hsame
    cases hsame
  · rintro ⟨hgrants, hnone⟩
    refine ⟨?_, hnone⟩
    rw [if_pos hgrants, filterMap_record, hnone]
    rfl

/-- Cut inside the label of a second node: three passes misread its bytes. -/
theorem replay_take_example :
    letI := Allocator.below 1000
    replay ((header ++ encodeLog [(.sorted, .upsertNode ⟨⟨0⟩, "A", ∅⟩),
        (.sorted, .upsertNode ⟨⟨1⟩, "Lutherstadt Wittenberg", ∅⟩)]).take 58) =
        replay (header ++ encodeLog (wholeRecords 50 [(.sorted, .upsertNode ⟨⟨0⟩, "A", ∅⟩),
          (.sorted, .upsertNode ⟨⟨1⟩, "Lutherstadt Wittenberg", ∅⟩)])) ∧
      executed ((header ++ encodeLog [(.sorted, .upsertNode ⟨⟨0⟩, "A", ∅⟩),
        (.sorted, .upsertNode ⟨⟨1⟩, "Lutherstadt Wittenberg", ∅⟩)]).take 58) =
        (wholeRecords 50 [(.sorted, .upsertNode ⟨⟨0⟩, "A", ∅⟩),
          (.sorted, .upsertNode ⟨⟨1⟩, "Lutherstadt Wittenberg", ∅⟩)]).places 8 :=
  letI := Allocator.below 1000
  (replay_take_iff (by decide) (by decide) (by decide)).mpr (by decide)

/-- The torn label spells the count of a property map that is too large to allocate. -/
example : letI := Allocator.below 1000
    replay (header ++ (1 :: (writeU64 0 ++ (writeU32 100 ++ (asBytes "pads" ++
      (1 :: (writeU64 0 ++ (writeU32 0 ++ [0x7F, 0x7F, 0x7F, 0x7F])))))))) = .panicked := by
  decide

/-- Four characters and the bytes of `DeleteNode 0` with its checksum. -/
def recordInLabel : String :=
  String.ofList (['p', 'a', 'd', 's'] ++ [3, 0, 0, 0, 0, 0, 0, 0, 0, 4, 0, 36, 0, 90].map Char.ofNat)

/-- A crash while a node with that label is appended deletes node 0. -/
theorem torn_label_executed :
    LogFits [(.sorted, .upsertNode ⟨⟨0⟩, "A", ∅⟩),
        (.sorted, .upsertNode ⟨⟨1⟩, recordInLabel, ∅⟩)] ∧
      replay ((header ++ encodeLog [(.sorted, .upsertNode ⟨⟨0⟩, "A", ∅⟩),
        (.sorted, .upsertNode ⟨⟨1⟩, recordInLabel, ∅⟩)]).take 60) ≠
      replay (header ++ encodeLog (wholeRecords 52 [(.sorted, .upsertNode ⟨⟨0⟩, "A", ∅⟩),
        (.sorted, .upsertNode ⟨⟨1⟩, recordInLabel, ∅⟩)])) := by
  decide

end AdGraphDb
