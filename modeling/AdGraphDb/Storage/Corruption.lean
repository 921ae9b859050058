import AdGraphDb.Storage.Checksum
import AdGraphDb.Storage.Transactions

/-!
# One damaged byte

The checksum tells every change of one byte from the record that was written. It is
compared at the place where decoding the damaged bytes ends, so a record is skipped
cleanly when that is still its own end.
-/

namespace AdGraphDb
open ReplayState BinaryFileStorage

/-! ## The checksum -/

theorem leValue_inj {bs cs : Bytes} (hlen : bs.length = cs.length) (h : leValue bs = leValue cs) :
    bs = cs := by
  induction bs generalizing cs with
  | nil => exact (List.length_eq_zero_iff.mp hlen.symm).symm
  | cons b bs ih =>
    cases cs with
    | nil => cases hlen
    | cons c cs =>
      have hb := b.toNat_lt
      have hc := c.toNat_lt
      rw [leValue, leValue] at h
      have htail := ih (Nat.succ.inj hlen) (by omega)
      rw [htail, UInt8.toNat_inj.mp (show b.toNat = c.toNat by omega)]

theorem eq_writeU32 {bs : Bytes} (hlen : bs.length = 4) {c : UInt32}
    (h : UInt32.ofNat (leValue bs) = c) : bs = writeU32 c := by
  have hlt := leValue_lt bs
  rw [hlen] at hlt
  apply leValue_inj (by rw [hlen, writeU32_length])
  rw [writeU32, leValue_leBytes, Nat.mod_eq_of_lt (by exact c.toNat_lt), ← h,
    UInt32.toNat_ofNat_of_lt' (by exact hlt)]

/-! ## The damaged record -/

/-- A record with the byte `i` changed to `v`. -/
def corrupt (p : HashOrder × RecordData) (i : Nat) (v : UInt8) : Bytes :=
  (encodeRecord p.1 p.2).set i v

theorem corrupt_length (p : HashOrder × RecordData) (i : Nat) (v : UInt8) :
    (corrupt p i v).length = (bodyBytes p.1 p.2).length + 4 := by
  rw [corrupt, List.length_set, encodeRecord_length]

/-- The damaged bytes do not match their checksum. -/
theorem corrupt_checksum {p : HashOrder × RecordData} {i : Nat}
    (hi : i < (encodeRecord p.1 p.2).length) {v : UInt8} (hv : v ≠ (encodeRecord p.1 p.2)[i]) :
    adler32 ((corrupt p i v).take (bodyBytes p.1 p.2).length) ≠
      UInt32.ofNat (leValue ((corrupt p i v).drop (bodyBytes p.1 p.2).length)) := by
  have hlen := encodeRecord_length p.1 p.2
  have henc := encodeRecord_eq_bodyBytes p.1 p.2
  rw [corrupt]
  simp only [henc] at hv ⊢
  generalize bodyBytes p.1 p.2 = body at *
  by_cases hbody : i < body.length
  · rw [List.getElem_append_left hbody] at hv
    rw [List.set_append_left i v hbody, ← List.length_set (a := v) (i := i), List.take_left,
      List.drop_left, checksum_of_encode]
    exact adler32_set_ne hbody hv
  · rw [List.getElem_append_right (by omega)] at hv
    rw [List.set_append_right i v (by omega), List.take_left, List.drop_left]
    intro h
    have heq := eq_writeU32 (by rw [List.length_set, writeU32_length]) h.symm
    have hget := List.getElem_set_self (l := writeU32 (adler32 body)) (i := i - body.length)
      (a := v) (by rw [List.length_set, writeU32_length]; omega)
    simp only [heq] at hget
    exact hv hget.symm

/-! ## The damaged log -/

/-- The log with one byte of the record `p` changed. -/
def corruptLog (l₁ : Log) (p : HashOrder × RecordData) (l₂ : Log) (i : Nat) (v : UInt8) : Bytes :=
  header ++ (encodeLog l₁ ++ (corrupt p i v ++ encodeLog l₂))

/-- No stretch that starts in the first `n` bytes is executed or refused, and if there are more
bytes, one starts right behind these. -/
def SkippedOver [Allocator] (n : Nat) (bytes : Bytes) : Prop :=
  (∀ s ∈ stretches bytes, s.start < n → s.verdict ≠ .executed ∧ s.verdict ≠ .refused) ∧
    (bytes.length = n ∨ ∃ s ∈ stretches bytes, s.start = n)

instance [Allocator] (n : Nat) (bytes : Bytes) : Decidable (SkippedOver n bytes) :=
  inferInstanceAs (Decidable (_ ∧ _))

section
variable [Allocator]

theorem skippedOver_iff_visits (n : Nat) (bytes : Bytes) : SkippedOver n bytes ↔
    (∀ v ∈ visits bytes bytes.length 0, v.start < n →
      v.record? = none ∧ v.found ≠ .panicked) ∧
      (bytes.length = n ∨ ∃ v ∈ visits bytes bytes.length 0, v.start = n) := by
  rw [SkippedOver, stretches, stretchesFrom_eq, List.forall_mem_map]
  refine and_congr (forall₂_congr fun v _ => ?_) (or_congr_right ?_)
  · obtain ⟨start, found, next⟩ := v
    cases found <;> simp [Visit.stretch, Visit.record?, Frame.verdict, Frame.record?]
  · simp only [List.mem_map, exists_exists_and_eq_and, Visit.stretch]

/-- If only the written records behind some bytes are executed, these bytes are skipped over. -/
theorem skippedOver_of_visits {bytes : Bytes} {l : Log}
    (hreturns : ∀ v ∈ visits (bytes ++ encodeLog l) (bytes ++ encodeLog l).length 0,
      v.found ≠ .panicked)
    (hplaces : (visits (bytes ++ encodeLog l) (bytes ++ encodeLog l).length 0).filterMap
      Visit.record? = l.places bytes.length) :
    SkippedOver bytes.length (bytes ++ encodeLog l) := by
  rw [skippedOver_iff_visits]
  refine ⟨fun v hv hlt => ⟨?_, hreturns v hv⟩, ?_⟩
  · cases hr : v.record? with
    | none => rfl
    | some p =>
      have hle := Log.le_places (hplaces ▸ List.mem_filterMap.mpr ⟨v, hv, hr⟩)
      obtain ⟨r, -, rfl⟩ := Option.map_eq_some_iff.mp hr
      exact absurd hle (Nat.not_le.mpr hlt)
  · cases l with
    | nil => exact .inl (by rw [encodeLog_nil, List.append_nil])
    | cons p l =>
      have hfirst : (bytes.length, p.2) ∈
          (visits (bytes ++ encodeLog (p :: l)) (bytes ++ encodeLog (p :: l)).length 0).filterMap
            Visit.record? := hplaces ▸ List.mem_cons_self
      obtain ⟨v, hv, hr⟩ := List.mem_filterMap.mp hfirst
      obtain ⟨r, -, hr⟩ := Option.map_eq_some_iff.mp hr
      exact .inr ⟨v, hv, congrArg Prod.fst hr⟩

/-- Behind bytes that are skipped over the written records are visited where they stand. -/
theorem SkippedOver.visits_eq {bytes : Bytes} {l : Log} (hl : LogFits l) (hg : l.Granted)
    (h : SkippedOver bytes.length (bytes ++ encodeLog l)) :
    ∃ before, visits (bytes ++ encodeLog l) (bytes ++ encodeLog l).length 0 =
        before ++ l.visits bytes.length ∧
      ∀ w ∈ before, w.record? = none ∧ w.found ≠ .panicked := by
  obtain ⟨hskip, hend | ⟨v, hv, hstart⟩⟩ := (skippedOver_iff_visits _ _).mp h
  · have hnil : l = [] := by
      cases l with
      | nil => rfl
      | cons p l =>
        have := List.length_pos_iff.mpr (encodeRecord_ne_nil p.1 p.2)
        rw [encodeLog_cons, List.length_append, List.length_append] at hend
        omega
    subst hnil
    exact ⟨_, (List.append_nil _).symm, fun w hw => hskip w hw ((mem_visits hw).2.1.trans_eq hend)⟩
  · obtain ⟨before, n, hn, hsplit, hbefore⟩ := visits_split (Nat.sub_le _ _) hv
    rw [hstart] at hn hsplit hbefore
    have hlog := visits_encodeLog hl hg bytes [] (n := n) (by
      rw [List.length_append] at hn
      rw [List.append_nil]
      omega)
    rw [List.append_nil, List.length_nil, visits, List.map_nil, List.append_nil] at hlog
    rw [hlog] at hsplit
    refine ⟨before, hsplit, fun w hw => hskip w ?_ (hbefore w hw)⟩
    rw [hsplit]
    exact List.mem_append_left _ hw

/-- The written records behind some bytes are executed where they stand, and nothing else is,
exactly when those bytes are skipped over. -/
theorem visits_skip_iff (bytes : Bytes) {l : Log} (hl : LogFits l) (hg : l.Granted) :
    ((∀ v ∈ visits (bytes ++ encodeLog l) (bytes ++ encodeLog l).length 0, v.found ≠ .panicked) ∧
      (visits (bytes ++ encodeLog l) (bytes ++ encodeLog l).length 0).filterMap Visit.record? =
        l.places bytes.length) ↔ SkippedOver bytes.length (bytes ++ encodeLog l) := by
  refine ⟨fun h => skippedOver_of_visits h.1 h.2, fun h => ?_⟩
  obtain ⟨before, hvisits, hquiet⟩ := h.visits_eq hl hg
  rw [hvisits]
  refine ⟨List.forall_mem_append.mpr ⟨fun w hw => (hquiet w hw).2, Log.found_visits _ l⟩, ?_⟩
  rw [List.filterMap_append, List.filterMap_eq_nil_iff.mpr fun w hw => (hquiet w hw).1,
    List.nil_append, Log.filterMap_visits]

/-- What one pass skips is skipped over. -/
theorem skippedOver_of_skipped {bytes : Bytes} {n : Nat} (hpos : 0 < bytes.length)
    (hfound : (nextFrame true bytes 0).1 = .skipped) (hnext : (nextFrame true bytes 0).2 = n) :
    SkippedOver n bytes := by
  rw [skippedOver_iff_visits]
  obtain ⟨fuel, hfuel⟩ : ∃ fuel, bytes.length = fuel + 1 := ⟨bytes.length - 1, by omega⟩
  have hvisits := visits_succ hpos fuel
  rw [hfound, hnext] at hvisits
  rw [hfuel, hvisits]
  refine ⟨fun w hw hlt => ?_, ?_⟩
  · rcases List.mem_cons.mp hw with rfl | hw
    · exact ⟨rfl, fun h => by cases h⟩
    · exact absurd hlt (Nat.not_lt.mpr (mem_visits hw).1)
  · obtain ⟨-, hle, hfive⟩ := nextFrame_advances hpos
    have hat : 5 ≤ n := by
      have := hfive (by rw [hfound]; nofun) (by rw [hfound]; nofun)
      omega
    rcases Nat.eq_or_lt_of_le (hnext ▸ hle) with hend | hbehind
    · exact .inl (hfuel ▸ hend.symm)
    · obtain ⟨fuel, rfl⟩ : ∃ fuel', fuel = fuel' + 1 := ⟨fuel - 1, by omega⟩
      rw [Frame.continues, if_pos rfl, visits_succ hbehind]
      exact .inr ⟨_, List.mem_cons_of_mem _ List.mem_cons_self, rfl⟩

/-- Damage that leaves the lengths, the counts and the tags as they were is skipped over. -/
theorem skippedOver_of_length {p : HashOrder × RecordData} {i : Nat}
    (hi : i < (encodeRecord p.1 p.2).length) {v : UInt8} (hv : v ≠ (encodeRecord p.1 p.2)[i])
    {rest : Bytes}
    (hspan : (recordSpan (corrupt p i v ++ rest)).length = (bodyBytes p.1 p.2).length)
    (hgrants : (recordSpan (corrupt p i v ++ rest)).ending ≠ .refused) :
    SkippedOver (encodeRecord p.1 p.2).length (corrupt p i v ++ rest) := by
  have hlen := corrupt_length p i v
  have htake : (corrupt p i v ++ rest).take (bodyBytes p.1 p.2).length =
      (corrupt p i v).take (bodyBytes p.1 p.2).length := List.take_append_of_le_length (by omega)
  have hdrop : ((corrupt p i v ++ rest).drop (bodyBytes p.1 p.2).length).take 4 =
      (corrupt p i v).drop (bodyBytes p.1 p.2).length := by
    have h4 : ((corrupt p i v).drop (bodyBytes p.1 p.2).length).length = 4 := by
      rw [List.length_drop]
      omega
    rw [List.drop_append_of_le_length (by omega), ← h4, List.take_left]
  have hpos : 0 < (corrupt p i v ++ rest).length := by
    rw [List.length_append]
    omega
  have hfirst := stretchAt_eq hpos
  rw [stretchAt, List.drop_zero, if_neg hgrants, hspan, hdrop, htake,
    if_neg (by rw [List.length_drop, List.length_append]; omega),
    if_pos (corrupt_checksum hi hv)] at hfirst
  obtain ⟨-, -, hverdict, hnext⟩ := Stretch.mk.inj hfirst
  have hfound : (nextFrame true (corrupt p i v ++ rest) 0).1 = .skipped := by
    cases hf : (nextFrame true (corrupt p i v ++ rest) 0).1 <;> rw [hf] at hverdict <;>
      first | rfl | cases hverdict
  rw [Nat.zero_add, ← hlen] at hnext
  have hsize : (corrupt p i v).length = (encodeRecord p.1 p.2).length := List.length_set
  exact skippedOver_of_skipped hpos hfound (hnext.symm.trans hsize)

/-- So is every change of the stored checksum. -/
theorem skippedOver_of_checksum {p : HashOrder × RecordData} (hp : RecordFits p.2)
    (hg : p.2.Granted) {i : Nat} (hi : i < (encodeRecord p.1 p.2).length)
    (hbody : (bodyBytes p.1 p.2).length ≤ i) {v : UInt8} (hv : v ≠ (encodeRecord p.1 p.2)[i])
    (rest : Bytes) : SkippedOver (encodeRecord p.1 p.2).length (corrupt p i v ++ rest) := by
  have hsplit : corrupt p i v ++ rest = bodyBytes p.1 p.2 ++
      ((writeU32 (adler32 (bodyBytes p.1 p.2))).set (i - (bodyBytes p.1 p.2).length) v ++
        rest) := by
    rw [corrupt, encodeRecord_eq_bodyBytes, List.set_append_right i v hbody, List.append_assoc]
  have hread := decodes_recordBody p.1 hp hg _ 0 _ (Nat.zero_le _) hsplit
  obtain ⟨hending, hnext⟩ := measures_recordBody (corrupt p i v ++ rest) 0 (Nat.zero_le _)
  rw [hread, List.drop_zero, Nat.zero_add] at hending hnext
  exact skippedOver_of_length hi hv (hnext.trans (Nat.zero_add _)).symm
    (by rw [← hending]; nofun)

/-- The damaged record is skipped and only it, every other record being executed where it stands
and nothing else, exactly when the bytes of the damaged record are skipped over. -/
theorem replay_corruptLog_iff {l₁ l₂ : Log} (hfits : LogFits (l₁ ++ l₂))
    (hgranted : Log.Granted (l₁ ++ l₂)) (p : HashOrder × RecordData) (i : Nat) (v : UInt8) :
    (replay (corruptLog l₁ p l₂ i v) = replay (header ++ encodeLog (l₁ ++ l₂)) ∧
      executed (corruptLog l₁ p l₂ i v) =
        l₁.places 8 ++ l₂.places (8 + (encodeLog (l₁ ++ [p])).length)) ↔
      SkippedOver (encodeRecord p.1 p.2).length (corrupt p i v ++ encodeLog l₂) := by
  have hfits₁ : LogFits l₁ := fun q hq => hfits q (List.mem_append_left _ hq)
  have hfits₂ : LogFits l₂ := fun q hq => hfits q (List.mem_append_right _ hq)
  have hgranted₁ : l₁.Granted := fun q hq => hgranted q (List.mem_append_left _ hq)
  have hgranted₂ : l₂.Granted := fun q hq => hgranted q (List.mem_append_right _ hq)
  have hlen : (corrupt p i v).length = (encodeRecord p.1 p.2).length := List.length_set
  have hbehind : 8 + (encodeLog (l₁ ++ [p])).length =
      8 + (encodeLog l₁).length + (corrupt p i v).length := by
    rw [hlen, encodeLog_append, List.length_append, encodeLog_cons, encodeLog_nil,
      List.append_nil, Nat.add_assoc]
  have hshift : Function.Injective
      fun q : Nat × RecordData => (8 + (encodeLog l₁).length + q.1, q.2) := by
    rintro ⟨a, r⟩ ⟨b, s⟩ h
    obtain ⟨hab, hrs⟩ := Prod.mk.inj h
    exact Prod.ext (Nat.add_left_cancel hab) hrs
  rw [← hlen, ← visits_skip_iff (corrupt p i v) hfits₂ hgranted₂, corruptLog,
    replay_log_rest hfits₁ hgranted₁, executed_log hfits₁ hgranted₁,
    replay_log_granted hfits hgranted, List.append_cancel_left_eq, filterMap_shift, hbehind,
    ← Log.places_shift, List.map_inj_right hshift]
  constructor
  · rintro ⟨hsame, hplaces⟩
    refine ⟨?_, hplaces⟩
    by_contra hrefused
    rw [if_neg hrefused] at hsame
    cases hsame
  · rintro ⟨hgrants, hplaces⟩
    refine ⟨?_, hplaces⟩
    rw [if_pos hgrants, filterMap_record, hplaces, Log.map_places, stateOf_append]

end

/-- The third byte of a node's id is damaged. -/
theorem replay_corruptLog_example :
    letI := Allocator.below 1000
    replay (corruptLog [(.sorted, .upsertNode ⟨⟨0⟩, "A", ∅⟩)]
        (.sorted, .upsertNode ⟨⟨1⟩, "B", ∅⟩) [(.sorted, .deleteNode ⟨0⟩)] 3 7) =
        replay (header ++ encodeLog ([(.sorted, .upsertNode ⟨⟨0⟩, "A", ∅⟩)] ++
          [(.sorted, .deleteNode ⟨0⟩)])) ∧
      executed (corruptLog [(.sorted, .upsertNode ⟨⟨0⟩, "A", ∅⟩)]
        (.sorted, .upsertNode ⟨⟨1⟩, "B", ∅⟩) [(.sorted, .deleteNode ⟨0⟩)] 3 7) =
        Log.places 8 [(.sorted, .upsertNode ⟨⟨0⟩, "A", ∅⟩)] ++
          Log.places (8 + (encodeLog ([(.sorted, .upsertNode ⟨⟨0⟩, "A", ∅⟩)] ++
            [(.sorted, .upsertNode ⟨⟨1⟩, "B", ∅⟩)])).length) [(.sorted, .deleteNode ⟨0⟩)] :=
  letI := Allocator.below 1000
  (replay_corruptLog_iff (by decide) (by decide) _ 3 7).mpr (by decide)

/-- The type byte of a deletion is damaged: the node behind it is lost. -/
theorem corrupt_type_loses_record :
    LogFits ([] ++ (.sorted, .deleteEdge ⟨0⟩) :: [(.sorted, .upsertNode ⟨⟨1⟩, "B", ∅⟩)]) ∧
      PlainRecords ([] ++ (.sorted, .deleteEdge ⟨0⟩) :: [(.sorted, .upsertNode ⟨⟨1⟩, "B", ∅⟩)]) ∧
      (encodeRecord .sorted (.deleteEdge ⟨0⟩))[0]? = some 4 ∧
      replay (corruptLog [] (.sorted, .deleteEdge ⟨0⟩)
          [(.sorted, .upsertNode ⟨⟨1⟩, "B", ∅⟩)] 0 0) ≠
        replay (header ++ encodeLog ([] ++ [(.sorted, .upsertNode ⟨⟨1⟩, "B", ∅⟩)])) := by
  decide

end AdGraphDb
