import AdGraphDb.Storage.Transactions
import AdGraphDb.Foundation.Bracketed

/-!
# Replaying a log with skipped records

A record whose checksum fails is skipped, markers included. The log is taken apart
into standalone records and blocks, and the records that replay applies are told
apart by their positions in it.
-/

namespace AdGraphDb
open ReplayState

/-- The bytes of a record with another checksum. -/
def withSum (ord : HashOrder) (r : RecordData) (sum : UInt32) : Bytes :=
  bodyBytes ord r ++ writeU32 sum

/-- A record with a wrong checksum is skipped, and nothing else is. -/
theorem readsAs_withSum (ord : HashOrder) {r : RecordData} (hr : RecordFits r) {sum : UInt32}
    (hsum : adler32 (bodyBytes ord r) ≠ sum) : ReadsAs (withSum ord r sum) .skipped := by
  have hpos := bodyBytes_length_pos ord r
  have hlen : (withSum ord r sum).length = (bodyBytes ord r).length + 4 := by
    rw [withSum, List.length_append, writeU32_length]
  refine ⟨rfl, List.ne_nil_of_length_pos (by omega), fun rest => ?_⟩
  have hd : withSum ord r sum ++ rest = bodyBytes ord r ++ (writeU32 sum ++ rest) := by
    rw [withSum, List.append_assoc]
  have hbody := (parses_recordBody ord hr).decodes _ 0 _ (Nat.zero_le _) hd
  rw [nextFrame_eq (by rw [List.length_append]; omega), hbody]
  dsimp only
  rw [verifyChecksum_eq _ (Nat.zero_le _), Nat.zero_add,
    if_pos (by rw [List.length_append]; omega), hd, List.drop_zero, Nat.sub_zero, List.take_left,
    List.drop_left, ← writeU32_length sum, List.take_left, checksum_of_encode, if_pos hsum, hlen,
    writeU32_length]

/-- A record of the file. A damaged one has other bytes there. -/
structure Cell where
  ord : HashOrder
  record : RecordData
  damage : Option Bytes

namespace Cell

def bytes (c : Cell) : Bytes := c.damage.getD (encodeRecord c.ord c.record)

def frame (c : Cell) : Frame := if c.damage.isNone then .record c.record else .skipped

/-- A damaged record still ends where it ends and fails its checksum. -/
def Valid (c : Cell) : Prop := RecordFits c.record ∧ ∀ b ∈ c.damage, ReadsAs b .skipped

def plain (c : Cell) : Bool := !c.record.isMarker

theorem readsAs {c : Cell} (h : c.Valid) : ReadsAs c.bytes c.frame := by
  obtain ⟨ord, record, damage⟩ := c
  cases damage with
  | none => exact readsAs_encodeRecord ord h.1
  | some b => exact h.2 b rfl

end Cell

theorem Cell.Valid.intact (ord : HashOrder) {r : RecordData} (hr : RecordFits r) :
    Cell.Valid ⟨ord, r, none⟩ := ⟨hr, nofun⟩

theorem Cell.Valid.wrongSum (ord : HashOrder) {r : RecordData} (hr : RecordFits r) {sum : UInt32}
    (hsum : adler32 (bodyBytes ord r) ≠ sum) : Cell.Valid ⟨ord, r, some (withSum ord r sum)⟩ := by
  refine ⟨hr, ?_⟩
  rintro b ⟨⟩
  exact readsAs_withSum ord hr hsum

/-- `BeginTxn`, the members and `CommitTxn`, or a record on its own. -/
inductive Segment where
  | single (c : Cell)
  | block (txnId : UInt64) (opening closing : Option Bytes) (members : List Cell)

def beginCell (txnId : UInt64) (damage : Option Bytes) : Cell := ⟨.sorted, .beginTxn txnId, damage⟩

def commitCell (txnId : UInt64) (damage : Option Bytes) : Cell :=
  ⟨.sorted, .commitTxn txnId, damage⟩

def Segment.cells : Segment → List Cell
  | single c => [c]
  | block txnId opening closing members =>
    beginCell txnId opening :: (members ++ [commitCell txnId closing])

/-- The cells that a client wrote, without the markers. -/
def Segment.entries : Segment → List Cell
  | single c => [c]
  | block _ _ _ members => members

def Segment.Valid (g : Segment) : Prop :=
  (∀ c ∈ g.cells, c.Valid) ∧ ∀ c ∈ g.entries, c.plain

theorem Segment.Valid.single {c : Cell} (hc : c.Valid) (hp : c.plain) : (Segment.single c).Valid :=
  ⟨fun _ hd => List.mem_singleton.mp hd ▸ hc, fun _ hd => List.mem_singleton.mp hd ▸ hp⟩

theorem Segment.Valid.block {txnId : UInt64} {opening closing : Option Bytes}
    {members : List Cell} (ho : (beginCell txnId opening).Valid)
    (hc : (commitCell txnId closing).Valid) (hms : ∀ m ∈ members, m.Valid)
    (hp : ∀ m ∈ members, m.plain) : (Segment.block txnId opening closing members).Valid := by
  refine ⟨fun d hd => ?_, hp⟩
  rcases List.mem_cons.mp hd with rfl | hd
  · exact ho
  · rcases List.mem_append.mp hd with hd | hd
    · exact hms d hd
    · exact List.mem_singleton.mp hd ▸ hc

def cellsOf (segs : List Segment) : List Cell := segs.flatMap Segment.cells

def fileOf (segs : List Segment) : Bytes := header ++ (cellsOf segs).flatMap Cell.bytes

/-! ## What replay applies -/

/-- What the record at position `n` is to the brackets. -/
def toEvent (n : Nat) : RecordData → LogEvent UInt64 (Nat × RecordData)
  | .beginTxn txnId => .opens txnId
  | .commitTxn txnId => .commits txnId
  | .rollbackTxn _ => .aborts
  | r => .entry (n, r)

/-- The undamaged records of the cells from position `n` on. -/
def events : Nat → List Cell → List (LogEvent UInt64 (Nat × RecordData))
  | _, [] => []
  | n, c :: cs =>
    if c.damage.isNone then toEvent n c.record :: events (n + 1) cs else events (n + 1) cs

def RecordData.isDelete : RecordData → Bool
  | .deleteNode _ | .deleteEdge _ => true
  | _ => false

/-- The order in which a commit applies the buffered records. -/
def commitOrder (l : List (Nat × RecordData)) : List (Nat × RecordData) :=
  l.filter (fun p => !p.2.isDelete) ++ l.filter fun p => p.2.isDelete

theorem mem_commitOrder (l : List (Nat × RecordData)) (p : Nat × RecordData) :
    p ∈ commitOrder l ↔ p ∈ l := by
  rw [commitOrder, List.mem_append, List.mem_filter, List.mem_filter, ← and_or_left]
  cases p.2.isDelete <;> simp

/-- The records that replay applies, with their positions, in the order it applies them. -/
def applied (cs : List Cell) : List (Nat × RecordData) :=
  (Bracketed.run commitOrder .empty (events 0 cs)).applied

/-- The loop holds what the brackets have applied and buffers what waits. -/
structure Follows (s : Bracketed UInt64 (Nat × RecordData)) (st : ReplayState) : Prop where
  contents : st.contents = (s.applied.map Prod.snd).foldl applyToMaps (∅, ∅)
  buffer : st.txnBuffer =
    s.pending.map fun p => (p.2.map Prod.snd).foldl TxnBuffer.add ⟨p.1, [], [], [], []⟩
  plain : ∀ p ∈ s.applied, p.2.isMarker = false
  waiting : ∀ w ∈ s.pending, ∀ p ∈ w.2, p.2.isMarker = false

theorem foldl_applyToMaps {rs : List RecordData} (h : ∀ r ∈ rs, r.isMarker = false)
    (c : Contents) : rs.foldl applyToMaps c =
      (Update.applyAll c.1 (rs.filterMap RecordData.nodeUpdate?),
        Update.applyAll c.2 (rs.filterMap RecordData.edgeUpdate?)) := by
  have hrun := run_eq_applyToMaps h c
  have hplain := run_plain h c.1 c.2
  rw [hrun] at hplain
  exact hplain

theorem filterMap_filter {K V : Type} {f : RecordData → Option (Update K V)}
    (hf : ∀ r, ∀ u ∈ f r, u.isDel = r.isDelete) (q : Bool → Bool) (l : List (Nat × RecordData)) :
    ((l.filter fun p => q p.2.isDelete).map Prod.snd).filterMap f =
      ((l.map Prod.snd).filterMap f).filter fun u => q u.isDel := by
  induction l with
  | nil => rfl
  | cons p l ih =>
    rw [List.filter_cons, List.map_cons, List.filterMap_cons]
    cases hu : f p.2 with
    | none =>
      rw [← ih]
      cases q p.2.isDelete with
      | false => rfl
      | true => exact List.filterMap_cons_none hu
    | some u =>
      have hd := hf p.2 u hu
      dsimp only
      rw [List.filter_cons, hd, ← ih]
      cases q p.2.isDelete with
      | false => rfl
      | true => exact List.filterMap_cons_some hu

/-- A commit groups the updates of each map. -/
theorem updates_commitOrder {K V : Type} {f : RecordData → Option (Update K V)}
    (hf : ∀ r, ∀ u ∈ f r, u.isDel = r.isDelete) (l : List (Nat × RecordData)) :
    ((commitOrder l).map Prod.snd).filterMap f =
      Update.grouped ((l.map Prod.snd).filterMap f) := by
  rw [commitOrder, List.map_append, List.filterMap_append, filterMap_filter hf (fun d => !d),
    filterMap_filter hf fun d => d]
  rfl

theorem isDel_nodeUpdate? (r : RecordData) : ∀ u ∈ r.nodeUpdate?, u.isDel = r.isDelete := by
  cases r <;> rintro u ⟨⟩ <;> rfl

theorem isDel_edgeUpdate? (r : RecordData) : ∀ u ∈ r.edgeUpdate?, u.isDel = r.isDelete := by
  cases r <;> rintro u ⟨⟩ <;> rfl

/-- A commit with nothing else waiting. -/
theorem Follows.commit {applied waiting : List (Nat × RecordData)} {nodes : HashMap NodeId Node}
    {edges : HashMap EdgeId Edge} {t txnId : UInt64}
    (hc : (nodes, edges) = (applied.map Prod.snd).foldl applyToMaps (∅, ∅))
    (hplain : ∀ p ∈ applied, p.2.isMarker = false) (hw : ∀ p ∈ waiting, p.2.isMarker = false) :
    Follows (Bracketed.step commitOrder ⟨applied, some (t, waiting)⟩ (.commits txnId))
      ((⟨nodes, edges, some ((waiting.map Prod.snd).foldl .add ⟨t, [], [], [], []⟩)⟩ :
        ReplayState).applyRecord (.commitTxn txnId)) := by
  dsimp only [Bracketed.step]
  by_cases ht : t = txnId
  · subst ht
    have hcommit : ∀ p ∈ commitOrder waiting, p.2.isMarker = false := fun p hp =>
      hw p ((mem_commitOrder waiting p).mp hp)
    have hsnd : ∀ r ∈ (commitOrder waiting).map Prod.snd, r.isMarker = false := by
      intro r hr
      obtain ⟨p, hp, rfl⟩ := List.mem_map.mp hr
      exact hcommit p hp
    rw [if_pos rfl, applyRecord_commit]
    refine ⟨?_, rfl, fun p hp => (List.mem_append.mp hp).elim (hplain p) (hcommit p), nofun⟩
    rw [List.map_append, List.foldl_append, ← hc, foldl_applyToMaps hsnd,
      updates_commitOrder isDel_nodeUpdate?, updates_commitOrder isDel_edgeUpdate?]
    rfl
  · have hid := add_txnId ⟨t, [], [], [], []⟩ (waiting.map Prod.snd)
    rw [if_neg ht, applyRecord_commit_other (by rw [hid]; exact ht)]
    exact ⟨hc, rfl, hplain, nofun⟩

theorem toEvent_of_plain (n : Nat) {r : RecordData} (h : r.isMarker = false) :
    toEvent n r = .entry (n, r) := by
  cases r <;> first | rfl | cases h

/-- A plain record is applied outside a transaction and waits inside one. -/
theorem Follows.entry {s : Bracketed UInt64 (Nat × RecordData)} {st : ReplayState}
    (h : Follows s st) (n : Nat) {r : RecordData} (hm : r.isMarker = false) :
    Follows (Bracketed.step commitOrder s (.entry (n, r))) (st.applyRecord r) := by
  obtain ⟨nodes, edges, buf⟩ := st
  obtain ⟨applied, pending⟩ := s
  obtain ⟨hc, hbuf, hplain, hwait⟩ := h
  dsimp only [ReplayState.contents] at hc hbuf hplain hwait
  cases pending with
  | none =>
    obtain rfl : buf = none := hbuf
    have hstep := applyRecord_closed hm (nodes, edges)
    dsimp only at hstep
    rw [hstep]
    refine ⟨?_, rfl, ?_, nofun⟩
    · rw [Bracketed.step, List.map_append, List.foldl_append, ← hc]
      rfl
    · exact List.forall_mem_append.mpr ⟨hplain, List.forall_mem_singleton.mpr hm⟩
  | some w =>
    obtain rfl : buf = some _ := hbuf
    rw [applyRecord_open hm]
    refine ⟨hc, ?_, hplain, ?_⟩
    · dsimp only [Bracketed.step, Option.map_some]
      rw [List.map_append, List.foldl_append]
      rfl
    · rintro v ⟨⟩
      exact List.forall_mem_append.mpr ⟨hwait w rfl, List.forall_mem_singleton.mpr hm⟩

theorem Follows.step {s : Bracketed UInt64 (Nat × RecordData)} {st : ReplayState}
    (h : Follows s st) (n : Nat) (r : RecordData) :
    Follows (Bracketed.step commitOrder s (toEvent n r)) (st.applyRecord r) := by
  cases hm : r.isMarker with
  | false =>
    rw [toEvent_of_plain n hm]
    exact h.entry n hm
  | true =>
    obtain ⟨nodes, edges, buf⟩ := st
    obtain ⟨applied, pending⟩ := s
    obtain ⟨hc, hbuf, hplain, hwait⟩ := h
    dsimp only [ReplayState.contents] at hc hbuf hplain hwait
    cases r with
    | beginTxn txnId => exact ⟨hc, rfl, hplain, fun w hw p hp => by cases hw; cases hp⟩
    | rollbackTxn txnId => exact ⟨hc, rfl, hplain, nofun⟩
    | commitTxn txnId =>
      cases pending with
      | none =>
        obtain rfl : buf = none := hbuf
        exact ⟨hc, rfl, hplain, nofun⟩
      | some w =>
        obtain rfl : buf = some _ := hbuf
        exact .commit hc hplain (hwait w rfl)
    | _ => cases hm

/-- The records that pass the checksum test. -/
def survivors (cs : List Cell) : List RecordData := cs.filterMap fun c => c.frame.record?

theorem Follows.run {s : Bracketed UInt64 (Nat × RecordData)} {st : ReplayState}
    (h : Follows s st) (n : Nat) (cs : List Cell) :
    Follows (Bracketed.run commitOrder s (events n cs)) (st.run (survivors cs)) := by
  induction cs generalizing s st n with
  | nil => exact h
  | cons c cs ih =>
    obtain ⟨ord, record, damage⟩ := c
    cases damage with
    | none => exact ih (h.step n record) (n + 1)
    | some b => exact ih h (n + 1)

theorem flatMap_frames (cs : List Cell) :
    (cs.map fun c => (c.bytes, c.frame)).flatMap Prod.fst = cs.flatMap Cell.bytes := by
  rw [List.flatMap_map]

/-- Replay returns the maps that the applied records make. -/
theorem replay_cells {cs : List Cell} (h : ∀ c ∈ cs, c.Valid) :
    replay (header ++ cs.flatMap Cell.bytes) =
      .ok (((applied cs).map Prod.snd).foldl applyToMaps (∅, ∅)) := by
  have hread : readLog (cs.flatMap Cell.bytes) = survivors cs := by
    have hreads : ∀ d ∈ cs.map fun c => (c.bytes, c.frame), ReadsAs d.1 d.2 := by
      intro d hd
      obtain ⟨c, hc, rfl⟩ := List.mem_map.mp hd
      exact Cell.readsAs (h c hc)
    have hframes := readLog_frames hreads
    rw [flatMap_frames] at hframes
    rw [hframes, List.filterMap_map]
    rfl
  have hstart : Follows .empty .empty := ⟨rfl, rfl, nofun, nofun⟩
  rw [replay_header, hread, (hstart.run 0 cs).contents]
  rfl

/-! ## Positions -/

theorem events_append (n : Nat) (cs ds : List Cell) :
    events n (cs ++ ds) = events n cs ++ events (n + cs.length) ds := by
  induction cs generalizing n with
  | nil => rfl
  | cons c cs ih =>
    have htail := ih (n + 1)
    rw [List.cons_append, events, events, htail, List.length_cons, Nat.add_right_comm, ← Nat.add_assoc]
    split_ifs <;> rfl

theorem toEvent_entry {n : Nat} {r : RecordData} {p : Nat × RecordData}
    (h : toEvent n r = .entry p) : p = (n, r) := by
  cases r <;> cases h <;> rfl

theorem mem_events {n i : Nat} {r : RecordData} {cs : List Cell} (h : .entry (i, r) ∈ events n cs) :
    n ≤ i ∧ i < n + cs.length := by
  induction cs generalizing n with
  | nil => cases h
  | cons c cs ih =>
    rw [List.length_cons]
    rw [events] at h
    split_ifs at h
    · rcases List.mem_cons.mp h with h | h
      · have hi := congrArg Prod.fst (toEvent_entry h.symm)
        dsimp only at hi
        omega
      · have := ih h
        omega
    · have := ih h
      omega

theorem commitsNext_events (t : UInt64) (m n : Nat) (cs : List Cell) :
    Bracketed.commitsNext t (events m cs) = Bracketed.commitsNext t (events n cs) := by
  induction cs generalizing m n with
  | nil => rfl
  | cons c cs ih =>
    rw [events, events]
    split_ifs
    · cases c.record with
      | beginTxn _ | commitTxn _ | rollbackTxn _ => rfl
      | _ => exact ih (m + 1) (n + 1)
    · exact ih (m + 1) (n + 1)

/-- Behind these cells and before those a record takes effect. -/
def Effective (before after : List Cell) : Prop :=
  Bracketed.TakesEffect (events 0 before) (events 0 after)

instance (before after : List Cell) : Decidable (Effective before after) :=
  inferInstanceAs (Decidable (Bracketed.TakesEffect _ _))

section Position

variable {before after : List Cell} {c : Cell}

theorem not_mem_events_before (r : RecordData) :
    .entry (before.length, r) ∉ events 0 before := by
  intro h
  have := mem_events h
  omega

theorem not_mem_events_after (r : RecordData) :
    .entry (before.length, r) ∉ events (before.length + 1) after := by
  intro h
  have := mem_events h
  omega

theorem events_split (hc : c.plain) : events 0 (before ++ c :: after) = events 0 before ++
    if c.damage.isNone then
      .entry (before.length, c.record) :: events (before.length + 1) after
    else events (before.length + 1) after := by
  have hplain : c.record.isMarker = false := by
    rw [Cell.plain, Bool.not_eq_true'] at hc
    exact hc
  rw [events_append, events, Nat.zero_add, toEvent_of_plain before.length hplain]

/-- The only entry at a position is the record that stands there, if it is undamaged. -/
theorem entry_at_position (hc : c.plain) {r : RecordData}
    (h : .entry (before.length, r) ∈ events 0 (before ++ c :: after)) :
    c.damage = none ∧ r = c.record := by
  rw [events_split hc] at h
  have h := (List.mem_append.mp h).resolve_left (not_mem_events_before r)
  cases hd : c.damage with
  | none =>
    rw [hd, Option.isNone_none, if_pos rfl] at h
    rcases List.mem_cons.mp h with h | h
    · cases h
      exact ⟨rfl, rfl⟩
    · exact absurd h (not_mem_events_after r)
  | some b =>
    rw [hd, Option.isNone_some, if_neg Bool.false_ne_true] at h
    exact absurd h (not_mem_events_after r)

theorem mem_applied_position (hc : c.plain) :
    before.length ∈ (applied (before ++ c :: after)).map Prod.fst ↔
      c.damage = none ∧ (before.length, c.record) ∈ applied (before ++ c :: after) := by
  constructor
  · intro h
    obtain ⟨⟨i, r⟩, hp, hi⟩ := List.mem_map.mp h
    obtain rfl : i = before.length := hi
    have hlogged := Bracketed.logged_of_applied (fun l a ha => (mem_commitOrder l a).mp ha) hp
    obtain ⟨hd, rfl⟩ := entry_at_position hc hlogged
    exact ⟨hd, hp⟩
  · rintro ⟨-, hp⟩
    exact List.mem_map.mpr ⟨_, hp, rfl⟩

/-- A plain record is applied exactly when it is undamaged and takes effect. -/
theorem position_applied_iff (hc : c.plain) :
    before.length ∈ (applied (before ++ c :: after)).map Prod.fst ↔
      c.damage = none ∧ Effective before after := by
  rw [mem_applied_position hc]
  apply and_congr_right
  intro hd
  have hiff := Bracketed.entry_applied_iff mem_commitOrder (not_mem_events_before c.record)
    (@not_mem_events_after before after c.record)
  have heffective : Bracketed.TakesEffect (events 0 before) (events (before.length + 1) after) ↔
      Effective before after := by
    unfold Effective Bracketed.TakesEffect
    simp only [commitsNext_events _ (before.length + 1) 0]
  rw [applied, events_split hc, hd, Option.isNone_none, if_pos rfl, hiff, heffective]

end Position

/-! ## Blocks -/

theorem events_plain_cons (n : Nat) {c : Cell} (hc : c.plain) (cs : List Cell) :
    events n (c :: cs) = (if c.damage.isNone then [.entry (n, c.record)] else []) ++
      events (n + 1) cs := by
  obtain ⟨ord, record, damage⟩ := c
  cases damage with
  | some b => rfl
  | none => cases record <;> first | rfl | cases hc

theorem openAfter_plain {ms : List Cell} (h : ∀ m ∈ ms, m.plain) (n : Nat) (o : Option UInt64) :
    Bracketed.openAfter o (events n ms) = o := by
  induction ms generalizing n with
  | nil => rfl
  | cons m ms ih =>
    have htail := ih (fun c hc => h c (List.mem_cons_of_mem m hc)) (n + 1)
    rw [events_plain_cons n (h m List.mem_cons_self), Bracketed.openAfter_append]
    split_ifs <;> exact htail

theorem commitsNext_plain {ms : List Cell} (h : ∀ m ∈ ms, m.plain) (n : Nat) (t : UInt64)
    (cs : List Cell) :
    Bracketed.commitsNext t (events n (ms ++ cs)) = Bracketed.commitsNext t (events 0 cs) := by
  induction ms generalizing n with
  | nil => exact commitsNext_events t n 0 cs
  | cons m ms ih =>
    have htail := ih (fun c hc => h c (List.mem_cons_of_mem m hc)) (n + 1)
    rw [List.cons_append, events_plain_cons n (h m List.mem_cons_self)]
    split_ifs <;> exact htail

/-- Plain records next to a place do not change what takes effect there. -/
theorem effective_plain_iff {ms ms' : List Cell} (h : ∀ m ∈ ms, m.plain)
    (h' : ∀ m ∈ ms', m.plain) (before after : List Cell) :
    Effective (before ++ ms) (ms' ++ after) ↔ Effective before after := by
  unfold Effective Bracketed.TakesEffect
  rw [events_append, Bracketed.openAfter_append, openAfter_plain h]
  simp only [commitsNext_plain h']

/-- Every block is applied completely or not at all, and every undamaged standalone
record is applied. -/
def AllOrNothing (segs : List Segment) : Prop :=
  (∀ pre txnId opening closing members post,
    segs = pre ++ .block txnId opening closing members :: post →
      (∀ j < members.length,
        (cellsOf pre).length + 1 + j ∈ (applied (cellsOf segs)).map Prod.fst) ∨
      ∀ j < members.length,
        (cellsOf pre).length + 1 + j ∉ (applied (cellsOf segs)).map Prod.fst) ∧
  ∀ pre c post, segs = pre ++ .single c :: post → c.damage = none →
    (cellsOf pre).length ∈ (applied (cellsOf segs)).map Prod.fst

/-- A block that lost some of its members does not take effect, and an undamaged
standalone record does. -/
def SafeDamage (segs : List Segment) : Prop :=
  (∀ pre txnId opening closing members post,
    segs = pre ++ .block txnId opening closing members :: post →
      (∃ m ∈ members, m.damage = none) → (∃ m ∈ members, m.damage ≠ none) →
        ¬Effective (cellsOf pre ++ [beginCell txnId opening])
          (commitCell txnId closing :: cellsOf post)) ∧
  ∀ pre c post, segs = pre ++ .single c :: post → c.damage = none →
    Effective (cellsOf pre) (cellsOf post)

theorem cellsOf_append (segs segs' : List Segment) :
    cellsOf (segs ++ segs') = cellsOf segs ++ cellsOf segs' := List.flatMap_append

/-- A member is applied exactly when it is undamaged and its block takes effect. -/
theorem member_applied_iff {members : List Cell} (h : ∀ m ∈ members, m.plain)
    (before after : List Cell) {j : Nat} (hj : j < members.length) :
    before.length + j ∈ (applied (before ++ (members ++ after))).map Prod.fst ↔
      members[j].damage = none ∧ Effective before after := by
  have hsplit : before ++ (members ++ after) =
      (before ++ members.take j) ++ members[j] :: (members.drop (j + 1) ++ after) := by
    rw [List.append_assoc, ← List.cons_append, List.getElem_cons_drop, ← List.append_assoc (members.take j),
      List.take_append_drop]
  have hlen : before.length + j = (before ++ members.take j).length := by
    rw [List.length_append, List.length_take, min_eq_left hj.le]
  rw [hsplit, hlen, position_applied_iff (h _ (List.getElem_mem hj)),
    effective_plain_iff (fun m hm => h m (List.mem_of_mem_take hm))
      (fun m hm => h m (List.mem_of_mem_drop hm))]

/-- A block is applied in part exactly when it takes effect and lost some members. -/
theorem block_atomic_iff {members : List Cell} (h : ∀ m ∈ members, m.plain)
    (before after : List Cell) :
    ((∀ j < members.length,
        before.length + j ∈ (applied (before ++ (members ++ after))).map Prod.fst) ∨
      ∀ j < members.length,
        before.length + j ∉ (applied (before ++ (members ++ after))).map Prod.fst) ↔
      ((∃ m ∈ members, m.damage = none) → (∃ m ∈ members, m.damage ≠ none) →
        ¬Effective before after) := by
  constructor
  · rintro hall ⟨m, hm, hundamaged⟩ ⟨d, hd, hdamaged⟩ heffect
    obtain ⟨i, hi, rfl⟩ := List.mem_iff_getElem.mp hm
    obtain ⟨j, hj, rfl⟩ := List.mem_iff_getElem.mp hd
    rcases hall with hall | hnone
    · exact hdamaged ((member_applied_iff h before after hj).mp (hall j hj)).1
    · exact hnone i hi ((member_applied_iff h before after hi).mpr ⟨hundamaged, heffect⟩)
  · intro hsafe
    by_cases heffect : Effective before after
    · by_cases hsome : ∃ m ∈ members, m.damage = none
      · left
        intro j hj
        refine (member_applied_iff h before after hj).mpr ⟨?_, heffect⟩
        by_contra hd
        exact hsafe hsome ⟨_, List.getElem_mem hj, hd⟩ heffect
      · right
        intro j hj happ
        exact hsome ⟨_, List.getElem_mem hj, ((member_applied_iff h before after hj).mp happ).1⟩
    · right
      intro j hj happ
      exact heffect ((member_applied_iff h before after hj).mp happ).2

/-- With records skipped, replay returns what the applied records make, and these are
whole blocks and all the standalone records exactly when the damage is safe. -/
theorem replay_skipping_iff {segs : List Segment} (h : ∀ g ∈ segs, g.Valid) :
    replay (fileOf segs) =
        .ok (((applied (cellsOf segs)).map Prod.snd).foldl applyToMaps (∅, ∅)) ∧
      (AllOrNothing segs ↔ SafeDamage segs) := by
  have hcells : ∀ c ∈ cellsOf segs, c.Valid := by
    intro c hc
    obtain ⟨g, hg, hc⟩ := List.mem_flatMap.mp hc
    exact (h g hg).1 c hc
  refine ⟨replay_cells hcells, ?_⟩
  apply and_congr
  · refine forall_congr' fun pre => forall_congr' fun t => forall_congr' fun o =>
      forall_congr' fun c => forall_congr' fun ms => forall_congr' fun post =>
      forall_congr' fun hsegs => ?_
    have hms : ∀ m ∈ ms, m.plain := (h (.block t o c ms) (by rw [hsegs]; simp)).2
    have hsplit : cellsOf segs = (cellsOf pre ++ [beginCell t o]) ++
        (ms ++ commitCell t c :: cellsOf post) := by
      rw [hsegs, cellsOf_append]
      simp [cellsOf, Segment.cells]
    have hiff := block_atomic_iff hms (cellsOf pre ++ [beginCell t o])
      (commitCell t c :: cellsOf post)
    rw [List.length_append, List.length_singleton] at hiff
    rw [hsplit, hiff]
  · refine forall_congr' fun pre => forall_congr' fun c => forall_congr' fun post =>
      forall_congr' fun hsegs => forall_congr' fun hd => ?_
    have hc : c.plain := (h (.single c) (by rw [hsegs]; simp)).2 c List.mem_cons_self
    have hsplit : cellsOf segs = cellsOf pre ++ c :: cellsOf post := by
      rw [hsegs, cellsOf_append]
      rfl
    rw [hsplit, position_applied_iff hc]
    exact and_iff_right hd

/-- A block that lost a member and its commit marker, behind a standalone record. -/
theorem replay_skipping_example :
    AllOrNothing [.single ⟨.sorted, .upsertNode ⟨⟨0⟩, "A", ∅⟩, none⟩,
      .block 1 none (some (withSum .sorted (.commitTxn 1) 0))
        [⟨.sorted, .deleteEdge ⟨0⟩, some (withSum .sorted (.deleteEdge ⟨0⟩) 0)⟩,
          ⟨.sorted, .deleteNode ⟨0⟩, none⟩]] := by
  refine (replay_skipping_iff (List.forall_mem_cons.mpr ⟨?_, List.forall_mem_singleton.mpr ?_⟩)).2.mpr
    ⟨?_, ?_⟩
  · exact .single (.intact _ (by decide)) rfl
  · apply Segment.Valid.block (.intact _ trivial) (.wrongSum _ (by decide) (by decide))
    · exact List.forall_mem_cons.mpr ⟨.wrongSum _ (by decide) (by decide),
        List.forall_mem_singleton.mpr (.intact _ trivial)⟩
    · decide
  · intro pre t o c ms post hsegs _ _
    rcases pre with _ | ⟨p, _ | ⟨q, pre⟩⟩
    · cases hsegs
    · cases hsegs
      decide
    · simp at hsegs
  · intro pre c post hsegs _
    rcases pre with _ | ⟨p, _ | ⟨q, pre⟩⟩
    · cases hsegs
      decide
    · cases hsegs
    · simp at hsegs

/-- The commit marker of a block is skipped, and so the record behind the block is lost. -/
theorem skipped_commit_loses_record :
    (∀ g ∈ [Segment.block 1 none (some (withSum .sorted (.commitTxn 1) 0))
        [⟨.sorted, .upsertNode ⟨⟨0⟩, "A", ∅⟩, none⟩],
      .single ⟨.sorted, .upsertNode ⟨⟨1⟩, "B", ∅⟩, none⟩], g.Valid) ∧
    ¬AllOrNothing [.block 1 none (some (withSum .sorted (.commitTxn 1) 0))
        [⟨.sorted, .upsertNode ⟨⟨0⟩, "A", ∅⟩, none⟩],
      .single ⟨.sorted, .upsertNode ⟨⟨1⟩, "B", ∅⟩, none⟩] := by
  constructor
  · refine List.forall_mem_cons.mpr ⟨?_, List.forall_mem_singleton.mpr ?_⟩
    · apply Segment.Valid.block (.intact _ trivial) (.wrongSum _ (by decide) (by decide))
      · exact List.forall_mem_singleton.mpr (.intact _ (by decide))
      · decide
    · exact .single (.intact _ (by decide)) rfl
  · intro h
    have := h.2 [_] _ [] rfl rfl
    revert this
    decide

end AdGraphDb
