import AdGraphDb.Storage.Frames

/-!
# The records of a file

`replay` applies the records that `readLog` finds behind the header, and `readLog`
finds what was written: a log of whole records is read back in order, whatever
bytes follow it.
-/

namespace AdGraphDb

/-- The records executed from the cursor on. -/
def scan (data : Bytes) : Nat → Nat → List RecordData
  | 0, _ => []
  | fuel + 1, pos =>
    if pos < data.length then
      match nextFrame true data pos with
      | (.record r, pos) => r :: scan data fuel pos
      | (.skipped, pos) => scan data fuel pos
      | _ => []
    else []

/-- The records executed of the bytes behind the header. -/
def readLog (body : Bytes) : List RecordData := scan body body.length 0

/-- The records of a log with the property orders they were written in. -/
abbrev Log := List (HashOrder × RecordData)

def encodeLog (l : Log) : Bytes := l.flatMap fun p => encodeRecord p.1 p.2

def Log.records (l : Log) : List RecordData := l.map Prod.snd

def LogFits (l : Log) : Prop := ∀ p ∈ l, RecordFits p.2

instance (l : Log) : Decidable (LogFits l) := inferInstanceAs (Decidable (∀ p ∈ l, RecordFits p.2))

/-- Applying records in order. -/
def ReplayState.run (st : ReplayState) (rs : List RecordData) : ReplayState :=
  rs.foldl ReplayState.applyRecord st

def ReplayState.contents (st : ReplayState) : Contents := (st.nodes, st.edges)

@[simp] theorem ReplayState.run_nil (st : ReplayState) : st.run [] = st := rfl

@[simp] theorem ReplayState.run_cons (st : ReplayState) (r : RecordData) (rs : List RecordData) :
    st.run (r :: rs) = (st.applyRecord r).run rs := rfl

theorem ReplayState.run_append (st : ReplayState) (rs rs' : List RecordData) :
    st.run (rs ++ rs') = (st.run rs).run rs' := List.foldl_append

@[simp] theorem encodeLog_nil : encodeLog [] = [] := rfl

@[simp] theorem encodeLog_cons (p : HashOrder × RecordData) (l : Log) :
    encodeLog (p :: l) = encodeRecord p.1 p.2 ++ encodeLog l := rfl

theorem encodeLog_append (l l' : Log) : encodeLog (l ++ l') = encodeLog l ++ encodeLog l' :=
  List.flatMap_append

@[simp] theorem Log.records_cons (p : HashOrder × RecordData) (l : Log) :
    Log.records (p :: l) = p.2 :: Log.records l := rfl

theorem Log.records_append (l l' : Log) :
    Log.records (l ++ l') = Log.records l ++ Log.records l' := List.map_append

theorem LogFits.append {l l' : Log} (h : LogFits l) (h' : LogFits l') : LogFits (l ++ l') :=
  fun p hp => (List.mem_append.mp hp).elim (h p) (h' p)

/-! ## The loop -/

/-- More fuel than bytes does not change the scan. -/
theorem scan_fuel {data : Bytes} {m n pos : Nat} (hm : data.length - pos ≤ m)
    (hn : data.length - pos ≤ n) : scan data m pos = scan data n pos := by
  induction m generalizing n pos with
  | zero =>
    cases n with
    | zero => rfl
    | succ n => rw [scan, scan, if_neg (by omega)]
  | succ m ih =>
    cases n with
    | zero => rw [scan, scan, if_neg (by omega)]
    | succ n =>
      rw [scan, scan]
      by_cases h : pos < data.length
      · rw [if_pos h, if_pos h]
        obtain ⟨-, hlt, -, -⟩ := nextFrame_safe h
        match hf : nextFrame true data pos with
        | (.record r, p) => rw [hf] at hlt; exact congrArg (r :: ·) (ih (by omega) (by omega))
        | (.skipped, p) => rw [hf] at hlt; exact ih (by omega) (by omega)
        | (.stopped, p) => rfl
        | (.panicked, p) => rfl
      · rw [if_neg h, if_neg h]

theorem scan_shift {data : Bytes} {k : Nat} (hk : k ≤ data.length) (fuel pos : Nat) :
    scan data fuel (k + pos) = scan (data.drop k) fuel pos := by
  induction fuel generalizing pos with
  | zero => rfl
  | succ fuel ih =>
    rw [scan, scan, List.length_drop]
    by_cases h : k + pos < data.length
    · rw [if_pos h, if_pos (by omega), nextFrame_shift h]
      match nextFrame true (data.drop k) pos with
      | (.record r, p) => exact congrArg (r :: ·) (ih p)
      | (.skipped, p) => exact ih p
      | (.stopped, p) => rfl
      | (.panicked, p) => rfl
    · rw [if_neg h, if_neg (by omega)]

theorem scan_eq_readLog {data : Bytes} {fuel pos : Nat} (hp : pos ≤ data.length)
    (hf : data.length - pos ≤ fuel) : scan data fuel pos = readLog (data.drop pos) := by
  have h := scan_shift hp fuel 0
  rw [Nat.add_zero] at h
  rw [h, readLog]
  exact scan_fuel (by rw [List.length_drop]; omega) (by omega)

@[simp] theorem readLog_nil : readLog [] = [] := rfl

/-- One pass of the loop. -/
theorem readLog_eq {body : Bytes} (h : body ≠ []) :
    readLog body = match nextFrame true body 0 with
      | (.record r, pos) => r :: readLog (body.drop pos)
      | (.skipped, pos) => readLog (body.drop pos)
      | _ => [] := by
  have hlt : 0 < body.length := List.length_pos_iff.mpr h
  obtain ⟨-, hgt, hle, -⟩ := nextFrame_safe hlt
  obtain ⟨n, hn⟩ : ∃ n, body.length = n + 1 := ⟨body.length - 1, by omega⟩
  rw [readLog, hn, scan, if_pos hlt]
  match hf : nextFrame true body 0 with
  | (.record r, p) =>
    rw [hf] at hgt hle
    exact congrArg (r :: ·) (scan_eq_readLog hle (by omega))
  | (.skipped, p) =>
    rw [hf] at hgt hle
    exact scan_eq_readLog hle (by omega)
  | (.stopped, p) => rfl
  | (.panicked, p) => rfl

theorem encodeRecord_ne_nil (ord : HashOrder) (r : RecordData) : encodeRecord ord r ≠ [] := by
  intro h
  have := encodeRecord_length ord r
  rw [h, List.length_nil] at this
  omega

theorem readLog_encodeRecord (ord : HashOrder) {r : RecordData} (hr : RecordFits r) (rest : Bytes) :
    readLog (encodeRecord ord r ++ rest) = r :: readLog rest := by
  have hne : encodeRecord ord r ++ rest ≠ [] :=
    List.append_ne_nil_of_left_ne_nil (encodeRecord_ne_nil ord r) rest
  rw [readLog_eq hne, nextFrame_encode ord hr rest]
  dsimp only
  rw [List.drop_left]

/-- A written log is read back in order, and reading goes on behind it. -/
theorem readLog_encodeLog {l : Log} (hl : LogFits l) (rest : Bytes) :
    readLog (encodeLog l ++ rest) = l.records ++ readLog rest := by
  induction l with
  | nil => rfl
  | cons p l ih =>
    rw [encodeLog_cons, List.append_assoc, readLog_encodeRecord p.1 (hl p List.mem_cons_self),
      ih fun q hq => hl q (List.mem_cons_of_mem p hq)]
    rfl

theorem replayLoop_eq {data : Bytes} {fuel pos : Nat} (hf : data.length - pos ≤ fuel)
    (st : ReplayState) : replayLoop true data fuel pos st = .ok (st.run (scan data fuel pos)) := by
  induction fuel generalizing pos st with
  | zero => rw [replayLoop, if_neg (by omega), scan, ReplayState.run_nil]
  | succ fuel ih =>
    rw [replayLoop, scan]
    by_cases h : pos < data.length
    · rw [if_pos h, if_pos h]
      obtain ⟨hn, hlt, -, -⟩ := nextFrame_safe h
      match he : nextFrame true data pos with
      | (.record r, p) => rw [he] at hlt; exact ih (by omega) _
      | (.skipped, p) => rw [he] at hlt; exact ih (by omega) _
      | (.stopped, p) => rfl
      | (.panicked, p) => exact absurd (by rw [he]) hn
    · rw [if_neg h, if_neg h, ReplayState.run_nil]

/-! ## The file -/

/-- The end of `replay`. -/
def contentsOf : Outcome GraphError ReplayState → Outcome GraphError Contents
  | .ok st => .ok st.contents
  | .err e => .err e
  | .panicked => .panicked

/-- `replay` without the slices that are always in range. -/
theorem replay_eq_loop [Allocator] (data : Bytes) : replay data =
    if data.length < 8 then .ok (∅, ∅)
    else if data.take 4 ≠ magic then
      .err (.deserializationError "invalid magic bytes — not an AGDB binary file")
    else if UInt32.ofNat (leValue ((data.drop 4).take 4)) ≠ version then
      .err (.deserializationError
        s!"unsupported file version {leValue ((data.drop 4).take 4)}")
    else contentsOf (replayLoop true data data.length 8 .empty) := by
  rw [replay]
  by_cases h : data.length < 8
  · rw [if_pos h, if_pos h]
  · have h0 : slice? data 0 4 = some (data.take 4) := Reader.slice?_of_le (n := 4) (by omega)
    have h4 : slice? data 4 8 = some ((data.drop 4).take 4) :=
      Reader.slice?_of_le (i := 4) (n := 4) (by omega)
    have hl : ((data.drop 4).take 4).length = 4 := by
      rw [List.length_take, List.length_drop]
      omega
    rw [if_neg h, if_neg h, h0, h4, Option.bind_some, fromLeBytes?_isSome hl]
    dsimp only
    by_cases hm : data.take 4 ≠ magic
    · rw [if_pos hm, if_pos hm]
    · rw [if_neg hm, if_neg hm]
      by_cases hv : UInt32.ofNat (leValue ((data.drop 4).take 4)) ≠ version
      · rw [if_pos hv, if_pos hv]
      · rw [if_neg hv, if_neg hv]
        rw [not_not.mp hv, show decide (version ≥ 2) = true from rfl]
        cases replayLoop true data data.length 8 .empty <;> rfl

theorem replay_header_loop [Allocator] (body : Bytes) : replay (header ++ body) =
    contentsOf (replayLoop true (header ++ body) (header ++ body).length 8 .empty) := by
  have hlen : ¬(header ++ body).length < 8 := by
    rw [List.length_append, show header.length = 8 from rfl]
    omega
  rw [replay_eq_loop, if_neg hlen]
  rfl

/-- `replay` where no allocation is refused. -/
theorem replay_eq (data : Bytes) : replay data =
    if data.length < 8 then .ok (∅, ∅)
    else if data.take 4 ≠ magic then
      .err (.deserializationError "invalid magic bytes — not an AGDB binary file")
    else if UInt32.ofNat (leValue ((data.drop 4).take 4)) ≠ version then
      .err (.deserializationError
        s!"unsupported file version {leValue ((data.drop 4).take 4)}")
    else .ok (ReplayState.empty.run (readLog (data.drop 8))).contents := by
  rw [replay_eq_loop]
  by_cases h : data.length < 8
  · rw [if_pos h, if_pos h]
  · rw [replayLoop_eq (by omega), scan_eq_readLog (by omega) (by omega)]
    rfl

/-- No file content makes `replay` panic or run out of fuel. -/
theorem replay_ne_panicked (data : Bytes) : replay data ≠ .panicked := by
  rw [replay_eq]
  split_ifs <;> nofun

theorem replay_header (body : Bytes) :
    replay (header ++ body) = .ok (ReplayState.empty.run (readLog body)).contents := by
  have hlen : ¬(header ++ body).length < 8 := by
    rw [List.length_append, show header.length = 8 from rfl]
    omega
  rw [replay_eq, if_neg hlen]
  rfl

/-- The state after a log, as the loop holds it. -/
def stateOf (l : Log) : ReplayState := ReplayState.empty.run l.records

theorem stateOf_append (l l' : Log) : stateOf (l ++ l') = (stateOf l).run l'.records := by
  rw [stateOf, Log.records_append, ReplayState.run_append]
  rfl

theorem replay_encodeLog {l : Log} (hl : LogFits l) (rest : Bytes) :
    replay (header ++ (encodeLog l ++ rest)) = .ok ((stateOf l).run (readLog rest)).contents := by
  rw [replay_header, readLog_encodeLog hl, ReplayState.run_append]
  rfl

theorem replay_log {l : Log} (hl : LogFits l) :
    replay (header ++ encodeLog l) = .ok (stateOf l).contents := by
  have h := replay_encodeLog hl []
  rwa [List.append_nil, readLog_nil, ReplayState.run_nil] at h

end AdGraphDb
