import AdGraphDb.Storage.Durability
import AdGraphDb.Storage.Layout

/-!
# What the replay loop executes, and where

The passes of the loop under an allocator, each with the place it starts at. The stretches of the
layout are these passes without the records, so the bytes alone tell which of them execute
something and which ask for a capacity that is refused.
-/

namespace AdGraphDb
open Reader ReplayState

/-- A pass of the replay loop. -/
structure Visit where
  start : Nat
  found : Frame
  next : Nat
deriving DecidableEq

def Frame.record? : Frame → Option RecordData
  | .record r => some r
  | _ => none

/-- The loop goes on behind the frame. -/
def Frame.continues : Frame → Bool
  | .record _ | .skipped => true
  | _ => false

def Frame.verdict : Frame → Verdict
  | .record _ => .executed
  | .skipped => .mismatched
  | .stopped => .ended
  | .panicked => .refused

theorem Frame.continues_verdict (found : Frame) : found.verdict.continues = found.continues := by
  cases found <;> rfl

def Visit.record? (v : Visit) : Option (Nat × RecordData) := v.found.record?.map (v.start, ·)

def Visit.shift (k : Nat) (v : Visit) : Visit := ⟨k + v.start, v.found, k + v.next⟩

section
variable [Allocator]

/-- The passes from the cursor on, up to the one that ends the loop. -/
def visits (data : Bytes) : Nat → Nat → List Visit
  | 0, _ => []
  | fuel + 1, pos =>
    if pos < data.length then
      let (found, next) := nextFrame true data pos
      ⟨pos, found, next⟩ :: if found.continues then visits data fuel next else []
    else []

/-- The records that replaying the file executes, each with the place it starts at. -/
def executed (data : Bytes) : List (Nat × RecordData) :=
  (visits data data.length 8).filterMap Visit.record?

/-! ## The loop -/

theorem visits_succ {data : Bytes} {pos : Nat} (h : pos < data.length) (fuel : Nat) :
    visits data (fuel + 1) pos =
      ⟨pos, (nextFrame true data pos).1, (nextFrame true data pos).2⟩ ::
        if (nextFrame true data pos).1.continues then visits data fuel (nextFrame true data pos).2
        else [] := by
  rw [visits, if_pos h]

theorem visits_end {data : Bytes} {pos : Nat} (h : data.length ≤ pos) (fuel : Nat) :
    visits data fuel pos = [] := by
  cases fuel with
  | zero => rfl
  | succ fuel => rw [visits, if_neg (Nat.not_lt.mpr h)]

/-- Behind `k` bytes, and with other fuel that lasts, the passes are those over the rest. -/
theorem visits_shift {data : Bytes} {k m n pos : Nat} (hk : k ≤ data.length)
    (hm : data.length - (k + pos) ≤ m) (hn : data.length - (k + pos) ≤ n) :
    visits data m (k + pos) = (visits (data.drop k) n pos).map (Visit.shift k) := by
  induction m generalizing n pos with
  | zero => rw [visits_end (by omega), visits_end (by rw [List.length_drop]; omega)]; rfl
  | succ m ih =>
    by_cases h : k + pos < data.length
    · obtain ⟨n, rfl⟩ : ∃ n', n = n' + 1 := ⟨n - 1, by omega⟩
      have hd : pos < (data.drop k).length := by rw [List.length_drop]; omega
      have hlt := (nextFrame_advances hd).1
      rw [visits_succ h, visits_succ hd, nextFrame_shift h, List.map_cons]
      dsimp only
      by_cases hc : (nextFrame true (data.drop k) pos).1.continues
      · rw [if_pos hc, if_pos hc, ih (n := n) (by omega) (by omega)]
        rfl
      · rw [if_neg hc, if_neg hc]
        rfl
    · rw [visits_end (by omega), visits_end (by rw [List.length_drop]; omega)]
      rfl

theorem mem_visits {data : Bytes} {v : Visit} {fuel pos : Nat} (h : v ∈ visits data fuel pos) :
    pos ≤ v.start ∧ v.start < data.length ∧ nextFrame true data v.start = (v.found, v.next) := by
  induction fuel generalizing pos with
  | zero => cases h
  | succ fuel ih =>
    by_cases hpos : pos < data.length
    · rw [visits_succ hpos] at h
      rcases List.mem_cons.mp h with rfl | h
      · exact ⟨le_rfl, hpos, rfl⟩
      · split_ifs at h
        · obtain ⟨hle, hv⟩ := ih h
          exact ⟨(nextFrame_advances hpos).1.le.trans hle, hv⟩
        · cases h
    · rw [visits_end (Nat.not_lt.mp hpos)] at h
      cases h

/-- The passes from one of them on. -/
theorem visits_split {data : Bytes} {v : Visit} {fuel pos : Nat} (hf : data.length - pos ≤ fuel)
    (h : v ∈ visits data fuel pos) : ∃ before n, data.length - v.start ≤ n ∧
      visits data fuel pos = before ++ visits data n v.start ∧ ∀ w ∈ before, w.start < v.start := by
  induction fuel generalizing pos with
  | zero => cases h
  | succ fuel ih =>
    by_cases hpos : pos < data.length
    · have hadvances := (nextFrame_advances hpos).1
      have hsucc := visits_succ hpos fuel
      rw [hsucc] at h
      rcases List.mem_cons.mp h with rfl | h
      · exact ⟨[], fuel + 1, hf, rfl, List.forall_mem_nil _⟩
      · split_ifs at h hsucc with hc
        · obtain ⟨before, n, hn, heq, hbefore⟩ := ih (by omega) h
          have hlt := hadvances.trans_le (mem_visits h).1
          exact ⟨_ :: before, n, hn, hsucc.trans (congrArg (_ :: ·) heq),
            List.forall_mem_cons.mpr ⟨hlt, hbefore⟩⟩
        · cases h
    · rw [visits_end (Nat.not_lt.mp hpos)] at h
      cases h

/-- The loop applies the records of its passes, if no allocation is refused on the way. -/
theorem replayLoop_visits {data : Bytes} {fuel pos : Nat} (hf : data.length - pos ≤ fuel)
    (st : ReplayState) : replayLoop true data fuel pos st =
      if ∀ v ∈ visits data fuel pos, v.found ≠ .panicked then
        .ok (st.run ((visits data fuel pos).filterMap fun v => v.found.record?))
      else .panicked := by
  induction fuel generalizing pos st with
  | zero =>
    rw [replayLoop, if_neg (by omega), visits, if_pos (List.forall_mem_nil _)]
    rfl
  | succ fuel ih =>
    rw [replayLoop]
    by_cases h : pos < data.length
    · have hlt := (nextFrame_advances h).1
      rw [if_pos h, visits_succ h, List.filterMap_cons]
      simp only [List.forall_mem_cons]
      generalize nextFrame true data pos = found at hlt ⊢
      obtain ⟨found, p⟩ := found
      cases found with
      | record r =>
        dsimp only [Frame.continues, Frame.record?]
        rw [ih (by omega)]
        simp only [ne_eq, reduceCtorEq, not_false_eq_true, true_and, ↓reduceIte]
        rfl
      | skipped =>
        dsimp only [Frame.continues, Frame.record?]
        rw [ih (by omega)]
        simp only [ne_eq, reduceCtorEq, not_false_eq_true, true_and, ↓reduceIte]
        rfl
      | stopped => simp [Frame.continues, Frame.record?]
      | panicked => simp
    · rw [if_neg h, visits_end (Nat.not_lt.mp h), if_pos (List.forall_mem_nil _)]
      rfl

/-! ## The stretches are the passes -/

def Visit.stretch (data : Bytes) (v : Visit) : Stretch :=
  ⟨v.start, data[v.start]?, v.found.verdict, v.next⟩

theorem stretchAt_eq {data : Bytes} {pos : Nat} (h : pos < data.length) :
    stretchAt data pos = ⟨pos, data[pos]?, (nextFrame true data pos).1.verdict,
      (nextFrame true data pos).2⟩ := by
  obtain ⟨hending, hnext⟩ := measures_recordBody data pos h.le
  have verified (found : Frame) {p : Nat} (hp : pos + (recordSpan (data.drop pos)).length = p)
      (hfound : found.verdict =
        if (recordSpan (data.drop pos)).ending = .whole then .executed else .ended)
      (hrefused : (recordSpan (data.drop pos)).ending ≠ .refused) :
      stretchAt data pos = ⟨pos, data[pos]?, (verifyChecksum true data pos found p).1.verdict,
        (verifyChecksum true data pos found p).2⟩ := by
    subst hp
    rw [stretchAt, if_neg hrefused, List.drop_drop, List.length_drop,
      verifyChecksum_eq _ (Nat.le_add_right _ _), Nat.add_sub_cancel_left]
    by_cases h4 : pos + (recordSpan (data.drop pos)).length + 4 ≤ data.length
    · rw [if_neg (by omega), if_pos h4]
      dsimp only
      split_ifs <;> simp_all [Frame.verdict]
    · rw [if_pos (by omega), if_neg h4]
      rfl
  rw [nextFrame_eq h]
  match hb : recordBody data pos with
  | (.ok r, p) =>
    rw [hb] at hending hnext
    exact verified (.record r) hnext.symm (by rw [← hending]; rfl) (by rw [← hending]; nofun)
  | (.err e, p) =>
    rw [hb] at hending hnext
    exact verified .stopped hnext.symm (by rw [← hending]; rfl) (by rw [← hending]; nofun)
  | (.panicked, p) =>
    rw [hb] at hending hnext
    have hrefused : (recordSpan (data.drop pos)).ending = .refused := hending.symm
    rw [stretchAt, if_pos hrefused, ← hnext]
    rfl

theorem stretchesFrom_eq (data : Bytes) (fuel pos : Nat) :
    stretchesFrom data fuel pos = (visits data fuel pos).map (Visit.stretch data) := by
  induction fuel generalizing pos with
  | zero => rfl
  | succ fuel ih =>
    by_cases h : pos < data.length
    · rw [stretchesFrom, if_pos h, visits_succ h, List.map_cons, stretchAt_eq h]
      dsimp only
      rw [Frame.continues_verdict]
      by_cases hc : (nextFrame true data pos).1.continues
      · rw [if_pos hc, if_pos hc, ih]
        rfl
      · rw [if_neg hc, if_neg hc]
        rfl
    · rw [stretchesFrom, if_neg h, visits_end (Nat.not_lt.mp h)]
      rfl

/-! ## Written logs -/

def Log.Granted (l : Log) : Prop := ∀ p ∈ l, p.2.Granted

instance (l : Log) : Decidable l.Granted := inferInstanceAs (Decidable (∀ p ∈ l, p.2.Granted))

end

/-- The records of a log, each with the place it stands at. -/
def Log.places : Nat → Log → List (Nat × RecordData)
  | _, [] => []
  | pos, p :: l => (pos, p.2) :: Log.places (pos + (encodeRecord p.1 p.2).length) l

def Log.visits : Nat → Log → List Visit
  | _, [] => []
  | pos, p :: l =>
    ⟨pos, .record p.2, pos + (encodeRecord p.1 p.2).length⟩ ::
      Log.visits (pos + (encodeRecord p.1 p.2).length) l

theorem Log.filterMap_visits (pos : Nat) (l : Log) :
    (l.visits pos).filterMap Visit.record? = l.places pos := by
  induction l generalizing pos with
  | nil => rfl
  | cons p l ih => exact congrArg ((pos, p.2) :: ·) (ih _)

theorem Log.places_shift (k pos : Nat) (l : Log) :
    (l.places pos).map (fun p => (k + p.1, p.2)) = l.places (k + pos) := by
  induction l generalizing pos with
  | nil => rfl
  | cons p l ih =>
    have htail := ih (pos + (encodeRecord p.1 p.2).length)
    rw [← Nat.add_assoc] at htail
    exact congrArg ((k + pos, p.2) :: ·) htail

theorem Log.le_places {pos : Nat} {l : Log} {p : Nat × RecordData} (h : p ∈ l.places pos) :
    pos ≤ p.1 := by
  induction l generalizing pos with
  | nil => cases h
  | cons q l ih =>
    rcases List.mem_cons.mp h with rfl | h
    · exact le_rfl
    · exact (Nat.le_add_right _ _).trans (ih h)

theorem Log.map_places (pos : Nat) (l : Log) : (l.places pos).map Prod.snd = l.records := by
  induction l generalizing pos with
  | nil => rfl
  | cons p l ih => exact congrArg (p.2 :: ·) (ih _)

theorem Log.found_visits (pos : Nat) (l : Log) : ∀ v ∈ l.visits pos, v.found ≠ .panicked := by
  induction l generalizing pos with
  | nil => exact List.forall_mem_nil _
  | cons p l ih => exact List.forall_mem_cons.mpr ⟨nofun, ih _⟩

theorem filterMap_shift (k : Nat) (vs : List Visit) :
    (vs.map (Visit.shift k)).filterMap Visit.record? =
      (vs.filterMap Visit.record?).map fun p => (k + p.1, p.2) := by
  rw [List.filterMap_map, List.map_filterMap]
  congr 1
  funext v
  rw [Function.comp_apply, Visit.record?, Visit.record?, Option.map_map]
  rfl

theorem filterMap_record (vs : List Visit) :
    (vs.filterMap fun v => v.found.record?) = (vs.filterMap Visit.record?).map Prod.snd := by
  rw [List.map_filterMap]
  congr 1
  funext v
  rw [Visit.record?, Option.map_map]
  cases v.found.record? <;> rfl

section
variable [Allocator]

/-- The loop meets every written record where it stands, and goes on behind the last one. -/
theorem visits_encodeLog {l : Log} (hl : LogFits l) (hg : l.Granted) (pre rest : Bytes) {n : Nat}
    (hn : (encodeLog l ++ rest).length ≤ n) :
    visits (pre ++ (encodeLog l ++ rest)) n pre.length = l.visits pre.length ++
      (visits rest rest.length 0).map (Visit.shift (pre.length + (encodeLog l).length)) := by
  induction l generalizing pre n with
  | nil =>
    have hshift : visits (pre ++ rest) n (pre.length + 0) =
        (visits ((pre ++ rest).drop pre.length) rest.length 0).map (Visit.shift pre.length) := by
      rw [encodeLog_nil, List.nil_append] at hn
      apply visits_shift <;> rw [List.length_append] <;> omega
    rw [List.drop_left] at hshift
    exact hshift
  | cons p l ih =>
    have hne := List.length_pos_iff.mpr (encodeRecord_ne_nil p.1 p.2)
    rw [encodeLog_cons, List.append_assoc, List.length_append] at hn
    obtain ⟨n, rfl⟩ : ∃ n', n = n' + 1 := ⟨n - 1, by omega⟩
    have hlt : pre.length + 0 <
        (pre ++ (encodeRecord p.1 p.2 ++ (encodeLog l ++ rest))).length := by
      simp only [List.length_append]
      omega
    have hframe := nextFrame_shift hlt
    rw [List.drop_left, nextFrame_encode_of_granted p.1 (hl p List.mem_cons_self)
      (hg p List.mem_cons_self), Nat.add_zero] at hframe
    have htail := ih (fun q hq => hl q (List.mem_cons_of_mem p hq))
      (fun q hq => hg q (List.mem_cons_of_mem p hq)) (pre ++ encodeRecord p.1 p.2) (n := n)
      (by omega)
    rw [List.append_assoc, List.length_append] at htail
    rw [Nat.add_zero] at hlt
    rw [encodeLog_cons, List.append_assoc, visits_succ hlt, hframe, Log.visits, List.cons_append,
      List.length_append, ← Nat.add_assoc]
    exact congrArg (_ :: ·) htail

/-- The records of the log are executed where they stand, and behind them what the rest spells. -/
theorem executed_log {l : Log} (hl : LogFits l) (hg : l.Granted) (rest : Bytes) :
    executed (header ++ (encodeLog l ++ rest)) = l.places 8 ++
      ((visits rest rest.length 0).map (Visit.shift (8 + (encodeLog l).length))).filterMap
        Visit.record? := by
  have hvisits := visits_encodeLog hl hg header rest
    (n := (header ++ (encodeLog l ++ rest)).length) (by simp only [List.length_append]; omega)
  change (visits _ _ header.length).filterMap _ = _
  rw [hvisits, List.filterMap_append, Log.filterMap_visits]
  rfl

theorem replay_log_rest {l : Log} (hl : LogFits l) (hg : l.Granted) (rest : Bytes) :
    replay (header ++ (encodeLog l ++ rest)) =
      if ∀ v ∈ visits rest rest.length 0, v.found ≠ .panicked then
        .ok ((stateOf l).run
          ((visits rest rest.length 0).filterMap fun v => v.found.record?)).contents
      else .panicked := by
  have hlong : (encodeLog l ++ rest).length ≤ (header ++ (encodeLog l ++ rest)).length := by
    simp only [List.length_append]
    omega
  have hvisits := visits_encodeLog hl hg header rest hlong
  rw [show header.length = 8 from rfl] at hvisits
  have hlog : ∀ v ∈ l.visits 8, v.found ≠ .panicked := Log.found_visits 8 l
  have hrecords : (l.visits 8).filterMap (fun v => v.found.record?) = l.records := by
    rw [filterMap_record, Log.filterMap_visits, Log.map_places]
  rw [replay_header_loop, replayLoop_visits (Nat.sub_le _ _), hvisits, List.filterMap_append,
    List.filterMap_map, hrecords, run_append]
  have hall : (∀ v ∈ l.visits 8 ++
      (visits rest rest.length 0).map (Visit.shift (8 + (encodeLog l).length)),
        v.found ≠ .panicked) ↔ ∀ v ∈ visits rest rest.length 0, v.found ≠ .panicked := by
    rw [List.forall_mem_append, and_iff_right hlog, List.forall_mem_map]
    rfl
  by_cases hrest : ∀ v ∈ visits rest rest.length 0, v.found ≠ .panicked
  · rw [if_pos (hall.mpr hrest), if_pos hrest]
    rfl
  · rw [if_neg (mt hall.mp hrest), if_neg hrest]
    rfl

theorem replay_log_granted {l : Log} (hl : LogFits l) (hg : l.Granted) :
    replay (header ++ encodeLog l) = .ok (stateOf l).contents := by
  have h := replay_log_rest hl hg []
  rw [List.append_nil] at h
  exact h

end

end AdGraphDb
