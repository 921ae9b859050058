import AdGraphDb.Storage.JsonReadBack

/-!
# An interrupted append to the JSON log

What an interrupted append leaves of a line stands in front of the next record, so the
two are read as one line.
-/

namespace AdGraphDb
open AdGraphDb.Action

namespace JsonFileStorage

variable {serde : SerdeJson}

/-- What happens to the storage between two replays. -/
inductive Call where
  | append (ord : HashOrder) (record : WalRecord)
  | reopen

def perform : Call → StorageAction (JsonFileStorage serde) Unit
  | .append ord record => appendRecord ord record
  | .reopen => .modify FileStorage.reopen

/-- The records that a run of calls appends. -/
def appended : List Call → List (HashOrder × WalRecord)
  | [] => []
  | .append ord record :: calls => (ord, record) :: appended calls
  | .reopen :: calls => appended calls

/-- `write_all` of a line stops behind the bytes `p`. -/
def interrupt (p : Bytes) (s : JsonFileStorage serde) : JsonFileStorage serde := ⟨s.file ++ p⟩

/-- The records applied in order. -/
def contentsOf (rs : List WalRecord) : Contents := rs.foldl applyRecord (∅, ∅)

/-- The file written before, the bytes `p` of the next line and the calls behind replay to
the acknowledged records, with or without the interrupted one. -/
def SurvivesInterruption (serde : SerdeJson) (before : List Call) (record : WalRecord) (p : Bytes)
    (after : List Call) : Prop :=
  ∀ s s' : JsonFileStorage serde, Action.forEach perform before ⟨[]⟩ = (.ok (), s) →
    Action.forEach perform after (interrupt p s) = (.ok (), s') →
      ∃ counted : Bool, s'.replay = .ok (contentsOf ((appended before).map Prod.snd ++
        (if counted then [record] else []) ++ (appended after).map Prod.snd))

/-- The record is written as an object on one line and read back. -/
def Writes (serde : SerdeJson) (ord : HashOrder) (record : WalRecord) : Prop :=
  ∃ line, serde.toString ord record = .ok line ∧ serde.IsLine line record

/-- No text that begins a record's line and ends early, or goes on with the line of another
record, is a record. -/
structure RejectsTorn (serde : SerdeJson) (line : String) (next : List (HashOrder × WalRecord)) :
    Prop where
  cut : ∀ t, asBytes t <+: asBytes line → t ≠ "" → t ≠ line → ∃ e, serde.fromStr t = .error e
  glued : ∀ u, u <+: asBytes line → u ≠ [] → ∀ q ∈ next, ∀ line',
    serde.toString q.1 q.2 = .ok line' → ∀ t, asBytes t = u ++ asBytes line' →
      ∃ e, serde.fromStr t = .error e

theorem forEach_perform {calls : List Call} (h : ∀ q ∈ appended calls, Writes serde q.1 q.2)
    (s : JsonFileStorage serde) :
    ∃ l : LineLog, l.map Prod.snd = (appended calls).map Prod.snd ∧
      Action.forEach perform calls s = (.ok (), ⟨s.file ++ encodeLines l⟩) ∧
      (∀ p ∈ l, serde.IsLine p.1 p.2) ∧
      ∀ p ∈ l, ∃ q ∈ appended calls, serde.toString q.1 q.2 = .ok p.1 := by
  induction calls generalizing s with
  | nil =>
    refine ⟨[], rfl, ?_, nofun, nofun⟩
    rw [encodeLines, List.flatMap_nil, List.append_nil]
    rfl
  | cons c calls ih =>
    cases c with
    | reopen => exact ih h s
    | append ord record =>
      obtain ⟨line, ht, hline⟩ := h (ord, record) List.mem_cons_self
      obtain ⟨l, hl, hrun, hlines, hfrom⟩ := ih (fun q hq => h q (List.mem_cons_of_mem _ hq))
        ⟨s.file ++ asBytes (line.push '\n')⟩
      refine ⟨(line, record) :: l, congrArg (record :: ·) hl, ?_, ?_, ?_⟩
      · rw [Action.forEach, perform, bind_ok (appendRecord_eq ht s), hrun, List.append_assoc]
        rfl
      · exact List.forall_mem_cons.mpr ⟨hline, hlines⟩
      · refine List.forall_mem_cons.mpr ⟨⟨_, List.mem_cons_self, ht⟩, fun p hp => ?_⟩
        obtain ⟨q, hq, hqp⟩ := hfrom p hp
        exact ⟨q, List.mem_cons_of_mem _ hq, hqp⟩

theorem replayLines_append (n : Nat) (ls ls' : List Bytes) (c : Contents) :
    replayLines serde n (ls ++ ls') c =
      (replayLines serde n ls c).bind (replayLines serde (n + ls.length) ls') := by
  induction ls generalizing n c with
  | nil => rfl
  | cons line ls ih =>
    rw [List.cons_append, replayLines, replayLines, List.length_cons, Nat.add_comm ls.length,
      ← Nat.add_assoc]
    cases decodeLine serde n line with
    | error e => rfl
    | ok o => cases o <;> exact ih (n + 1) _

theorem replayLines_records {l : LineLog} (hl : ∀ p ∈ l, serde.IsLine p.1 p.2) (n : Nat)
    (c : Contents) : replayLines serde n (l.map fun p => asBytes p.1) c =
      .ok ((l.map Prod.snd).foldl applyRecord c) := by
  induction l generalizing n c with
  | nil => rfl
  | cons p l ih =>
    rw [List.map_cons, replayLines, decodeLine_asBytes (hl p List.mem_cons_self)]
    exact ih (fun q hq => hl q (List.mem_cons_of_mem p hq)) (n + 1) _

theorem replay_records {l : LineLog} (hl : ∀ p ∈ l, serde.IsLine p.1 p.2) :
    replay (⟨encodeLines l⟩ : JsonFileStorage serde) = .ok (contentsOf (l.map Prod.snd)) := by
  rw [replay, lines_encodeLines fun p hp => (hl p hp).object]
  exact replayLines_records hl 0 _

/-! ## The torn line -/

theorem isBlank_of_brace {t : String} {rest : Bytes} (h : asBytes t = 0x7b :: rest) :
    isBlank t = false := by
  have hlist : asBytes t = t.toList.flatMap String.utf8EncodeChar := by
    rw [← asBytes_ofList, String.ofList_toList]
  rw [h] at hlist
  rw [isBlank]
  cases ht : t.toList with
  | nil => rw [ht] at hlist; cases hlist
  | cons c cs =>
    rw [ht, List.flatMap_cons] at hlist
    have hc : '{' = c :=
      utf8EncodeChar_head (show String.utf8EncodeChar '{' ++ rest = _ from hlist)
    rw [← hc]
    rfl

/-- Bytes that begin like an object are rejected unless they are a record. -/
theorem decodeLine_rejected {u rest : Bytes} (hu : u = 0x7b :: rest)
    (h : ∀ t, asBytes t = u → ∃ e, serde.fromStr t = .error e) (n : Nat) :
    ∃ e, decodeLine serde n u = .error e := by
  rw [decodeLine]
  cases ht : String.fromUTF8? ⟨u.toArray⟩ with
  | none => exact ⟨_, rfl⟩
  | some t =>
    have hbytes : asBytes t = u := by
      rw [String.fromUTF8?] at ht
      split_ifs at ht
      cases ht
      rfl
    obtain ⟨e, he⟩ := h t hbytes
    dsimp only
    rw [isBlank_of_brace (hbytes.trans hu), if_neg Bool.false_ne_true, he]
    exact ⟨_, rfl⟩

/-- The first bytes of an object. -/
theorem prefix_object {line : String} (h : ObjectLine line) {u : Bytes} (hu : u <+: asBytes line)
    (hne : u ≠ []) : ∃ rest, u = 0x7b :: rest := by
  obtain ⟨inner, hi⟩ := h.braced
  obtain ⟨v, hv⟩ := hu
  cases u with
  | nil => exact absurd rfl hne
  | cons b u =>
    have hbrace : asBytes "\x7b" = [0x7b] := by decide
    rw [hi, asBytes_append, asBytes_append, hbrace] at hv
    exact ⟨u, by rw [(List.cons.inj hv).1]⟩

theorem replay_rejected_line {l : LineLog} (hl : ∀ p ∈ l, ObjectLine p.1) {rest u : Bytes}
    {ls : List Bytes} (hrest : lines rest = u :: ls)
    (hu : ∀ n, ∃ e, decodeLine serde n u = .error e) (c : Contents) :
    replay (⟨encodeLines l ++ rest⟩ : JsonFileStorage serde) ≠ .ok c := by
  intro h
  rw [replay, lines_encodeLines_append hl, hrest] at h
  obtain ⟨n, o, hd⟩ := replayLines_ok h u (List.mem_append_right _ List.mem_cons_self)
  obtain ⟨e, he⟩ := hu n
  rw [he] at hd
  cases hd

/-- What is left of the line is read with the line behind it. -/
theorem lines_glued {line line' : String} (h : ObjectLine line) (h' : ObjectLine line')
    {u : Bytes} (hu : u <+: asBytes line) (rest : Bytes) :
    lines (u ++ (asBytes (line'.push '\n') ++ rest)) = (u ++ asBytes line') :: lines rest := by
  obtain ⟨v, hv⟩ := hu
  obtain ⟨inner, hi⟩ := h'.braced
  have hnl : newline ∉ u ++ asBytes line' := by
    intro hmem
    rcases List.mem_append.mp hmem with hmem | hmem
    · exact h.oneLine (hv ▸ List.mem_append_left v hmem)
    · exact h'.oneLine hmem
  have hcr : (u ++ asBytes line').getLast? ≠ some carriageReturn := by
    have hb : (asBytes "\x7d").getLast? = some 125 := by decide
    rw [hi, asBytes_append, ← List.append_assoc, List.getLast?_append, hb, Option.some_or]
    decide
  rw [asBytes_push_newline, List.append_assoc, ← List.append_assoc u, List.singleton_append]
  exact lines_append hnl hcr rest

/-- A line cut short makes the replay fail, alone at the end or in front of another line. -/
theorem replay_torn {lb la : LineLog} {line : String} {record : WalRecord}
    {next : List (HashOrder × WalRecord)} (hb : ∀ q ∈ lb, serde.IsLine q.1 q.2)
    (ha : ∀ q ∈ la, serde.IsLine q.1 q.2)
    (hfrom : ∀ q ∈ la, ∃ r ∈ next, serde.toString r.1 r.2 = .ok q.1)
    (hline : serde.IsLine line record) (htorn : RejectsTorn serde line next) {u : Bytes}
    (hu : u <+: asBytes line) (hne : u ≠ []) (hlast : u = asBytes line → la ≠ []) (c : Contents) :
    replay (⟨encodeLines lb ++ (u ++ encodeLines la)⟩ : JsonFileStorage serde) ≠ .ok c := by
  obtain ⟨rest, hrest⟩ := prefix_object hline.object hu hne
  have hbobject : ∀ q ∈ lb, ObjectLine q.1 := fun q hq => (hb q hq).object
  cases la with
  | nil =>
    have hnl : newline ∉ u := by
      obtain ⟨v, hv⟩ := hu
      exact fun hmem => hline.oneLine (hv ▸ List.mem_append_left v hmem)
    have hlines : lines (u ++ encodeLines []) = [u] := by
      rw [encodeLines, List.flatMap_nil, List.append_nil, lines_rest hnl hne]
    apply replay_rejected_line hbobject hlines
    intro n
    apply decodeLine_rejected hrest
    intro t ht
    apply htorn.cut t (ht ▸ hu)
    · rintro rfl
      exact hne ht.symm
    · rintro rfl
      exact hlast ht.symm rfl
  | cons q la =>
    obtain ⟨r, hr, hstring⟩ := hfrom q List.mem_cons_self
    have hlines := lines_glued hline.object (ha q List.mem_cons_self).object hu (encodeLines la)
    apply replay_rejected_line hbobject hlines
    intro n
    have hglued : u ++ asBytes q.1 = 0x7b :: (rest ++ asBytes q.1) := by rw [hrest]; rfl
    apply decodeLine_rejected hglued
    exact htorn.glued u hu hne r hr q.1 hstring

/-- A line without its newline is read when nothing follows it. -/
theorem replay_without_newline {lb : LineLog} {line : String} {record : WalRecord}
    (hb : ∀ q ∈ lb, serde.IsLine q.1 q.2) (hline : serde.IsLine line record) :
    replay (⟨encodeLines lb ++ asBytes line⟩ : JsonFileStorage serde) =
      .ok (contentsOf (lb.map Prod.snd ++ [record])) := by
  have hne : asBytes line ≠ [] := by
    intro h
    obtain ⟨inner, hi⟩ := hline.braced
    have hbrace : asBytes "\x7b" = [0x7b] := by decide
    rw [hi, asBytes_append, asBytes_append, hbrace] at h
    cases h
  rw [replay, lines_encodeLines_append fun q hq => (hb q hq).object,
    lines_rest hline.oneLine hne, replayLines_append, replayLines_records hb]
  change replayLines serde _ [asBytes line] _ = _
  rw [replayLines, decodeLine_asBytes hline, contentsOf, List.foldl_append]
  rfl

theorem replay_interrupted_iff {lb la : LineLog} {line : String} {record : WalRecord}
    {next : List (HashOrder × WalRecord)} (hb : ∀ q ∈ lb, serde.IsLine q.1 q.2)
    (ha : ∀ q ∈ la, serde.IsLine q.1 q.2)
    (hfrom : ∀ q ∈ la, ∃ r ∈ next, serde.toString r.1 r.2 = .ok q.1)
    (hline : serde.IsLine line record) (htorn : RejectsTorn serde line next) {p : Bytes}
    (hp : p <+: asBytes (line.push '\n')) :
    (∃ counted : Bool, replay (⟨encodeLines lb ++ (p ++ encodeLines la)⟩ : JsonFileStorage serde) =
        .ok (contentsOf (lb.map Prod.snd ++ (if counted then [record] else []) ++
          la.map Prod.snd))) ↔
      p = [] ∨ p = asBytes (line.push '\n') ∨ (p = asBytes line ∧ la = []) := by
  constructor
  · rintro ⟨counted, h⟩
    by_contra hcon
    rw [not_or, not_or] at hcon
    obtain ⟨hnil, hwhole, hlast⟩ := hcon
    have hu : p <+: asBytes line := by
      rw [asBytes_push_newline] at hp hwhole
      exact (List.prefix_concat_iff.mp hp).resolve_left hwhole
    exact replay_torn hb ha hfrom hline htorn hu hnil (fun e hla => hlast ⟨e, hla⟩) _ h
  · rintro (rfl | rfl | ⟨rfl, rfl⟩)
    · refine ⟨false, ?_⟩
      have hall : ∀ q ∈ lb ++ la, serde.IsLine q.1 q.2 := fun q hq =>
        (List.mem_append.mp hq).elim (hb q) (ha q)
      rw [List.nil_append, ← encodeLines_append, replay_records hall, List.map_append]
      simp
    · refine ⟨true, ?_⟩
      have hall : ∀ q ∈ lb ++ (line, record) :: la, serde.IsLine q.1 q.2 := fun q hq =>
        (List.mem_append.mp hq).elim (hb q) fun hq =>
          (List.mem_cons.mp hq).elim (fun e => e ▸ hline) (ha q)
      have hfile : encodeLines lb ++ (asBytes (line.push '\n') ++ encodeLines la) =
          encodeLines (lb ++ (line, record) :: la) := by
        rw [encodeLines_append]
        rfl
      rw [hfile, replay_records hall, List.map_append]
      simp
    · refine ⟨true, ?_⟩
      have hfile : asBytes line ++ encodeLines [] = asBytes line := List.append_nil _
      rw [hfile, replay_without_newline hb hline]
      simp

/-- An interrupted append is survived exactly when it left nothing, the whole line, or all
but its newline with no record behind. -/
theorem survivesInterruption_iff {before after : List Call} {ord : HashOrder}
    {record : WalRecord} {line : String} {bytes : Bytes}
    (hbefore : ∀ q ∈ appended before, Writes serde q.1 q.2)
    (hafter : ∀ q ∈ appended after, Writes serde q.1 q.2)
    (hstring : serde.toString ord record = .ok line) (hline : serde.IsLine line record)
    (htorn : RejectsTorn serde line (appended after))
    (hbytes : recordLine serde ord record = .ok bytes) {p : Bytes} (hp : p <+: bytes) :
    SurvivesInterruption serde before record p after ↔
      p = [] ∨ p = bytes ∨ (p ++ [newline] = bytes ∧ appended after = []) := by
  obtain ⟨lb, hlb, hrunb, hlinesb, -⟩ := forEach_perform hbefore ⟨[]⟩
  obtain ⟨la, hla, hruna, hlinesa, hfrom⟩ := forEach_perform hafter ⟨encodeLines lb ++ p⟩
  rw [recordLine_eq hstring] at hbytes
  cases hbytes
  have hiff := replay_interrupted_iff hlinesb hlinesa hfrom hline htorn hp
  have hnil : la = [] ↔ appended after = [] := by
    rw [← List.map_eq_nil_iff (f := Prod.snd), hla, List.map_eq_nil_iff]
  have hcut : p ++ [newline] = asBytes (line.push '\n') ↔ p = asBytes line := by
    rw [asBytes_push_newline]
    exact List.append_left_inj _
  rw [hcut, ← hnil, ← hiff, hlb, hla]
  have hfile : encodeLines lb ++ p ++ encodeLines la = encodeLines lb ++ (p ++ encodeLines la) :=
    List.append_assoc _ _ _
  constructor
  · intro h
    have hreplay := h _ _ hrunb hruna
    dsimp only at hreplay
    rwa [hfile] at hreplay
  · rintro h s s' hs hs'
    rw [hrunb] at hs
    obtain ⟨-, rfl⟩ := Prod.mk.inj hs
    have hs'' : Action.forEach perform after (⟨encodeLines lb ++ p⟩ : JsonFileStorage serde) =
        (.ok (), s') := hs'
    rw [hruna] at hs''
    obtain ⟨-, rfl⟩ := Prod.mk.inj hs''
    dsimp only
    rwa [hfile]

end JsonFileStorage

namespace SampleJson

/-- A serialization that reads the known lines and rejects every other text. -/
def knownSerde : SerdeJson where
  toString ord record := .ok (line ord record)
  fromStr text := match known.find? fun p => p.1 = text with
    | some p => .ok p.2
    | none => .error "expected value"

theorem knownSerde_line : ∀ p ∈ known, ∀ ord, knownSerde.toString ord p.2 = .ok p.1 := by
  have hfind : ∀ p ∈ known, known.find? (fun q => q.2 = p.2) = some p := by decide
  intro p hp ord
  change Except.ok (line ord p.2) = _
  rw [line, hfind p hp]

theorem knownSerde_isLine : ∀ p ∈ known, knownSerde.IsLine p.1 p.2 := by
  intro p hp
  have hline := known_isLine p hp
  refine ⟨?_, hline.braced, hline.oneLine⟩
  simp only [knownSerde, find_known p hp]

theorem knownSerde_rejects {text : String} (h : ∀ p ∈ known, p.1 ≠ text) :
    ∃ e, knownSerde.fromStr text = .error e := by
  have hnone : known.find? (fun p => p.1 = text) = none :=
    List.find?_eq_none.mpr fun p hp he => h p hp (of_decide_eq_true he)
  exact ⟨"expected value", by simp only [knownSerde, hnone]⟩

open JsonFileStorage in
theorem knownSerde_rejectsTorn {p : String × WalRecord} (hp : p ∈ known)
    {next : List (HashOrder × WalRecord)} (hnext : ∀ q ∈ next, ∃ r ∈ known, r.2 = q.2) :
    RejectsTorn knownSerde p.1 next := by
  have hstart : ∀ q ∈ known, ∀ r ∈ known, asBytes q.1 <+: asBytes r.1 → q.1 = r.1 := by decide
  have hend : ∀ q ∈ known, ∀ r ∈ known, asBytes q.1 <:+ asBytes r.1 →
      (asBytes q.1).length = (asBytes r.1).length := by decide
  constructor
  · intro t ht _ hne
    apply knownSerde_rejects
    rintro q hq rfl
    exact hne (hstart q hq p hp ht)
  · intro u _ hu q hq line' hline' t ht
    apply knownSerde_rejects
    rintro r hr rfl
    obtain ⟨k, hk, hkq⟩ := hnext q hq
    rw [← hkq, knownSerde_line k hk] at hline'
    cases hline'
    have hlen := hend k hk r hr ⟨u, ht.symm⟩
    rw [ht, List.length_append] at hlen
    exact hu (List.length_eq_zero_iff.mp (by omega))

end SampleJson

namespace JsonFileStorage
open SampleJson

theorem known_writes {ord : HashOrder} {record : WalRecord} (h : ∃ p ∈ known, p.2 = record) :
    Writes knownSerde ord record := by
  obtain ⟨p, hp, rfl⟩ := h
  exact ⟨p.1, knownSerde_line p hp ord, knownSerde_isLine p hp⟩

theorem known_saved : ∀ q ∈ appended [.append .sorted (.upsertNode ⟨⟨0⟩, "A", ∅⟩)],
    Writes knownSerde q.1 q.2 := by
  intro q hq
  rw [List.mem_singleton.mp hq]
  exact known_writes (by decide)

/-- The line of the record that the append is about. -/
def cutLine : String := "\x7b\"op\":\"DeleteNode\",\"id\":0\x7d"

theorem cutLine_mem : (cutLine, WalRecord.deleteNode 0) ∈ known := by decide

/-- The whole object was written, and the store is only opened again. -/
theorem survivesInterruption_example :
    SurvivesInterruption knownSerde [.append .sorted (.upsertNode ⟨⟨0⟩, "A", ∅⟩)]
      (.deleteNode 0) (asBytes cutLine) [.reopen] :=
  (survivesInterruption_iff known_saved (List.forall_mem_nil _)
    (knownSerde_line _ cutLine_mem .sorted) (knownSerde_isLine _ cutLine_mem)
    (knownSerde_rejectsTorn cutLine_mem (List.forall_mem_nil _)) rfl (by decide)).mpr
    (.inr (.inr (by decide)))

/-- One byte of a line is left, and the node saved before is lost. -/
theorem torn_line_loses_node :
    (∀ q ∈ appended [.append .sorted (.upsertNode ⟨⟨0⟩, "A", ∅⟩)],
        Writes knownSerde q.1 q.2) ∧
      knownSerde.IsLine cutLine (.deleteNode 0) ∧ RejectsTorn knownSerde cutLine [] ∧
      (∃ bytes, recordLine knownSerde .sorted (.deleteNode 0) = .ok bytes ∧ [0x7b] <+: bytes) ∧
      ¬SurvivesInterruption knownSerde
        [.append .sorted (.upsertNode ⟨⟨0⟩, "A", ∅⟩)] (.deleteNode 0) [0x7b] [] := by
  have hline := knownSerde_isLine _ cutLine_mem
  have htorn : RejectsTorn knownSerde cutLine [] :=
    knownSerde_rejectsTorn cutLine_mem (List.forall_mem_nil _)
  refine ⟨known_saved, hline, htorn, ⟨_, rfl, by decide⟩, fun h => ?_⟩
  obtain ⟨lb, -, hrun, hlines, -⟩ := forEach_perform known_saved ⟨[]⟩
  obtain ⟨counted, hreplay⟩ := h _ _ hrun rfl
  have hne := replay_torn hlines (List.forall_mem_nil _) (List.forall_mem_nil _) hline htorn
    (u := [0x7b]) (by decide) (by decide) fun hlast => absurd hlast (by decide)
  exact hne _ hreplay

end JsonFileStorage

end AdGraphDb
