import AdGraphDb.Server.Shared

/-!
# Where a response ends

A text is read back from its frame exactly if none of its lines is the closing line or loses
a carriage return. For a response this is a condition on the labels, keys and values that it
shows.
-/

namespace AdGraphDb

/-! ## One frame -/

/-- A line that the client takes for part of a response, and does not change. -/
def isPlain (line : String) : Bool :=
  decide (trim line ≠ "---END---") && !endsWith line '\r'

theorem trim_stripReturn (s : String) : trim (stripReturn s) = trim s := by
  unfold stripReturn
  split_ifs with h
  · obtain ⟨cs, hcs⟩ := List.getLast?_eq_some_iff.mp (of_decide_eq_true h)
    have hreturn : isWhitespace '\r' = true := rfl
    rw [trim, trim, hcs, List.dropLast_concat, String.toList_ofList]
    congr 2
    rw [List.dropWhile_append]
    split_ifs with hblank
    · rw [List.isEmpty_iff.mp hblank, List.dropWhile_cons, if_pos hreturn]
      rfl
    · rw [List.reverse_append, List.reverse_singleton, List.singleton_append, List.dropWhile_cons,
        if_pos hreturn]
  · rfl

namespace Cli

theorem receive_framed (t : String) (rest : Bytes) :
    receive (asBytes (Server.framed t) ++ rest) =
      ((pieces t).map stripReturn).map some ++ some "---END---" :: receive rest := by
  have hbytes : asBytes (Server.framed t) ++ rest =
      asBytes t ++ newline :: (asBytes "---END---" ++ newline :: rest) := by
    have hn : asBytes "\n" = [newline] := by decide
    rw [Server.framed, asBytes_append, asBytes_append, asBytes_append, hn]
    simp only [List.append_assoc, List.cons_append, List.nil_append]
  have hend : (pieces "---END---").map (fun p => asBytes (stripReturn p)) =
      [asBytes "---END---"] := by decide
  rw [receive, hbytes, lines_asBytes_append, lines_asBytes_append, hend, List.map_append,
    List.map_map, List.map_append, List.map_map]
  congr 1
  apply List.map_congr_left
  intro p _
  exact fromUTF8?_asBytes _

/-- Lines up to the closing line. -/
theorem readParts_of_open {ls : List String} (h : ∀ l ∈ ls, trim l ≠ "---END---")
    (parts : List String) (rest : List (Option String)) :
    readParts parts (ls.map some ++ some "---END---" :: rest) =
      ("\n".intercalate (parts ++ ls), rest) := by
  induction ls generalizing parts with
  | nil =>
    have hend : trim "---END---" = "---END---" := by decide
    rw [List.map_nil, List.nil_append, readParts, if_pos hend, List.append_nil]
  | cons l ls ih =>
    rw [List.map_cons, List.cons_append, readParts, if_neg (h l List.mem_cons_self),
      ih fun l hl => h l (List.mem_cons_of_mem _ hl), List.append_assoc, List.singleton_append]

/-- A closing line before the last one leaves more than the rest. -/
theorem length_readParts {ls : List String} {l : String} (hl : l ∈ ls) (hend : trim l = "---END---")
    (parts : List String) (rest : List (Option String)) :
    rest.length ≤ (readParts parts (ls.map some ++ rest)).2.length := by
  induction ls generalizing parts with
  | nil => cases hl
  | cons k ls ih =>
    rw [List.map_cons, List.cons_append, readParts]
    split_ifs with hk
    · rw [List.length_append]
      exact Nat.le_add_left _ _
    · rcases List.mem_cons.mp hl with rfl | hl
      · exact absurd hend hk
      · exact ih hl _

/-- A text comes back from its frame, and the stream stands behind it, exactly if all of its
lines are plain. -/
theorem readUntilEnd_framed_iff (t : String) (rest : Bytes) :
    readUntilEnd (receive (asBytes (Server.framed t) ++ rest)) = (t, receive rest) ↔
      ∀ p ∈ pieces t, isPlain p = true := by
  simp only [isPlain, Bool.and_eq_true, decide_eq_true_eq, Bool.not_eq_true', forall_and,
    ← stripReturn_eq_self]
  rw [receive_framed, readUntilEnd]
  constructor
  · intro h
    have hopen : ∀ l ∈ (pieces t).map stripReturn, trim l ≠ "---END---" := by
      intro l hl hend
      have hlen := length_readParts hl hend [] (some "---END---" :: receive rest)
      rw [h, List.length_cons] at hlen
      exact Nat.not_succ_le_self _ hlen
    rw [readParts_of_open hopen, List.nil_append] at h
    have htext : "\n".intercalate ((pieces t).map stripReturn) = t := congrArg Prod.fst h
    refine ⟨fun p hp => ?_, stripReturn_eq_of_intercalate ?_⟩
    · rw [← trim_stripReturn]
      exact hopen _ (List.mem_map_of_mem hp)
    · rw [htext, intercalate_pieces]
  · rintro ⟨hopen, hself⟩
    have hmap : (pieces t).map stripReturn = pieces t := by
      rw [List.map_congr_left hself, List.map_id']
    rw [hmap, readParts_of_open hopen, List.nil_append, intercalate_pieces]

end Cli

/-! ## Texts within a response -/

/-- Lines of which the first is the end of a line that is not blank. -/
def areContinued : List String → Bool
  | [] => true
  | first :: lines => !endsWith first '\r' && lines.all isPlain

/-- A text that stands within a line: its last piece is not the end of that line. -/
def isEnclosed (s : String) : Bool := areContinued (pieces s).dropLast

/-- A text that stands at the end of a line. -/
def isTrailing (s : String) : Bool := areContinued (pieces s)

def OneLine (t : List Char) : Prop := ∀ c ∈ t, c ≠ '\n' ∧ c ≠ '\r'

instance (t : List Char) : Decidable (OneLine t) := inferInstanceAs (Decidable (∀ c ∈ t, _))

theorem OneLine.append {t t' : List Char} (h : OneLine t) (h' : OneLine t') : OneLine (t ++ t') :=
  fun c hc => (List.mem_append.mp hc).elim (h c) (h' c)

theorem OneLine.newline_not_mem {t : List Char} (h : OneLine t) : '\n' ∉ t := fun hn => (h _ hn).1 rfl

/-- The start of a line that no text behind it turns into the closing line. -/
def Marked (line : List Char) : Prop :=
  (∃ c ∈ line, isWhitespace c = false ∧ c ∉ "---END---".toList) ∧ line.getLast? ≠ some '\r'

theorem OneLine.marked {t : List Char} (h : OneLine t) {c : Char} (hc : c ∈ t)
    (hmark : isWhitespace c = false ∧ c ∉ "---END---".toList) : Marked t :=
  ⟨⟨c, hc, hmark⟩, fun hr => (h _ (List.mem_of_getLast? hr)).2 rfl⟩

theorem mem_dropWhile_of_not {α : Type} {is : α → Bool} {l : List α} {a : α} (h : a ∈ l)
    (ha : is a = false) : a ∈ l.dropWhile is := by
  induction l with
  | nil => cases h
  | cons b l ih =>
    rw [List.dropWhile_cons]
    split_ifs with hb
    · rcases List.mem_cons.mp h with rfl | h
      · cases ha.symm.trans hb
      · exact ih h
    · exact h

theorem trim_ne_of_mem {cs : List Char} {c : Char} (hc : c ∈ cs)
    (hmark : isWhitespace c = false ∧ c ∉ "---END---".toList) :
    trim (String.ofList cs) ≠ "---END---" := by
  intro h
  apply hmark.2
  rw [← h, trim, String.toList_ofList, String.toList_ofList, List.mem_reverse]
  exact mem_dropWhile_of_not (List.mem_reverse.mpr (mem_dropWhile_of_not hc hmark.1)) hmark.1

theorem Marked.isPlain_append {line : List Char} (h : Marked line) (cs : List Char) :
    isPlain (String.ofList (line ++ cs)) = !endsWith (String.ofList cs) '\r' := by
  obtain ⟨⟨c, hc, hmark⟩, hlast⟩ := h
  have htrim := trim_ne_of_mem (List.mem_append_left cs hc) hmark
  have hends : endsWith (String.ofList (line ++ cs)) '\r' = endsWith (String.ofList cs) '\r' := by
    rw [endsWith, endsWith, String.toList_ofList, String.toList_ofList, List.getLast?_append]
    cases hcs : cs.getLast? with
    | none => exact decide_eq_decide.mpr ⟨fun h => absurd h hlast, fun h => by cases h⟩
    | some d => rfl
  rw [isPlain, decide_eq_true htrim, hends, Bool.true_and]

theorem Marked.isPlain {line : List Char} (h : Marked line) :
    AdGraphDb.isPlain (String.ofList line) = true := by
  have hplain := h.isPlain_append []
  rwa [List.append_nil] at hplain

theorem Marked.append {line cs : List Char} (h : Marked line) (hcs : cs.getLast? ≠ some '\r') :
    Marked (line ++ cs) := by
  obtain ⟨⟨c, hc, hmark⟩, hlast⟩ := h
  refine ⟨⟨c, List.mem_append_left cs hc, hmark⟩, ?_⟩
  rw [List.getLast?_append]
  cases h : cs.getLast? with
  | none => exact hlast
  | some d =>
    rw [h] at hcs
    exact hcs

/-- The line before the first newline is put in front; the others do not change. -/
theorem cut_prepend (line start cs : List Char) :
    (cut start cs).1 = [] ∧ cut (line ++ start) cs = ([], line ++ (cut start cs).2) ∨
      ∃ first ls, (cut start cs).1 = first :: ls ∧
        cut (line ++ start) cs = (String.ofList (line ++ first.toList) :: ls, (cut start cs).2) := by
  induction cs generalizing start with
  | nil => exact .inl ⟨rfl, rfl⟩
  | cons c cs ih =>
    rw [cut, cut]
    split_ifs with hc
    · exact .inr ⟨String.ofList start, (cut [] cs).1, rfl, by rw [String.toList_ofList]⟩
    · rw [List.append_assoc]
      exact ih (start ++ [c])

theorem Marked.all_cut {line : List Char} (h : Marked line) (s : String) :
    (cut line s.toList).1.all AdGraphDb.isPlain = isEnclosed s := by
  have hdrop : (pieces s).dropLast = (cut [] s.toList).1 := List.dropLast_concat
  rw [isEnclosed, hdrop]
  rcases cut_prepend line [] s.toList with ⟨hnil, hcut⟩ | ⟨first, ls, hls, hcut⟩
  · rw [List.append_nil] at hcut
    rw [hcut, hnil]
    rfl
  · rw [List.append_nil] at hcut
    rw [hcut, hls, List.all_cons, h.isPlain_append, String.ofList_toList]
    rfl

theorem Marked.all_pieces {line : List Char} (h : Marked line) (s : String) :
    ((cut line s.toList).1 ++ [String.ofList (cut line s.toList).2]).all AdGraphDb.isPlain =
      isTrailing s := by
  rw [isTrailing, pieces]
  rcases cut_prepend line [] s.toList with ⟨hnil, hcut⟩ | ⟨first, ls, hls, hcut⟩
  · rw [List.append_nil] at hcut
    rw [hcut, hnil, List.nil_append, List.nil_append, List.all_cons, h.isPlain_append]
    rfl
  · rw [List.append_nil] at hcut
    rw [hcut, hls, List.cons_append, List.all_cons, h.isPlain_append, String.ofList_toList]
    rfl

/-- Behind a marked line, the text keeps the lines plain exactly if the texts that it shows are
enclosed, and it ends in a marked line. -/
def Encloses (t : List Char) (shown : List String) : Prop :=
  ∀ line, Marked line →
    (cut line t).1.all isPlain = shown.all isEnclosed ∧ Marked (cut line t).2

namespace Encloses

theorem append {t t' : List Char} {shown shown' : List String} (h : Encloses t shown)
    (h' : Encloses t' shown') : Encloses (t ++ t') (shown ++ shown') := by
  intro line hline
  obtain ⟨hall, hend⟩ := h line hline
  obtain ⟨hall', hend'⟩ := h' _ hend
  rw [cut_append]
  refine ⟨?_, hend'⟩
  rw [List.all_append, List.all_append, hall, hall']

/-- Fixed text. -/
theorem fixed {t : List Char} (h : OneLine t) : Encloses t [] := by
  intro line hline
  rw [cut_of_not_mem h.newline_not_mem]
  exact ⟨rfl, hline.append fun hr => (h _ (List.mem_of_getLast? hr)).2 rfl⟩

theorem nil : Encloses [] [] := fixed fun _ hc => by cases hc

/-- Fixed text on a new line. -/
theorem newLine {t : List Char} (h : OneLine t) {c : Char} (hc : c ∈ t)
    (hmark : isWhitespace c = false ∧ c ∉ "---END---".toList) : Encloses ('\n' :: t) [] := by
  intro line hline
  rw [cut, if_pos rfl, cut_of_not_mem h.newline_not_mem, List.nil_append]
  refine ⟨?_, h.marked hc hmark⟩
  rw [List.all_cons, hline.isPlain]
  rfl

/-- A text that is shown, and fixed text. -/
theorem field (s : String) {t : List Char} (h : OneLine t) {c : Char} (hc : c ∈ t)
    (hmark : isWhitespace c = false ∧ c ∉ "---END---".toList) : Encloses (s.toList ++ t) [s] := by
  intro line hline
  rw [cut_append, cut_of_not_mem h.newline_not_mem, List.append_nil, hline.all_cut, List.all_cons,
    List.all_nil, Bool.and_true]
  refine ⟨rfl, ⟨c, List.mem_append_right _ hc, hmark⟩, ?_⟩
  rw [List.getLast?_append]
  cases hd : t.getLast? with
  | none =>
    rw [List.getLast?_eq_none_iff.mp hd] at hc
    cases hc
  | some d =>
    rintro ⟨⟩
    exact (h _ (List.mem_of_getLast? hd)).2 rfl

theorem congr {t : List Char} {shown shown' : List String} (h : Encloses t shown)
    (heq : ∀ s, s ∈ shown ↔ s ∈ shown') : Encloses t shown' := by
  intro line hline
  obtain ⟨hall, hend⟩ := h line hline
  refine ⟨hall.trans ?_, hend⟩
  rw [Bool.eq_iff_iff, List.all_eq_true, List.all_eq_true]
  exact forall_congr' fun s => by rw [heq]

end Encloses

/-! ## What a response shows -/

/-- The texts of a value. -/
def Value.texts : Value → List String
  | .text s => [s]
  | _ => []

def entryTexts (entry : String × Value) : List String := entry.1 :: entry.2.texts

/-- The label, keys and texts of a node, which its `Display` shows. -/
def Node.texts (n : Node) : List String := n.label :: n.properties.toList.flatMap entryTexts

def QueryResult.texts : QueryResult → List String
  | .nodes ns => ns.flatMap Node.texts
  | .edges es => es.map Edge.label
  | .singleNode node => node.toList.flatMap Node.texts
  | .singleEdge edge => edge.toList.map Edge.label
  | _ => []

/-- The text at the end of an error. -/
def GraphError.message : GraphError → Option String
  | .storageIo msg => some msg
  | .serializationError msg => some msg
  | .deserializationError msg => some msg
  | _ => none

section
variable (fmt : FloatFormat)

theorem isDigit_ne {c : Char} (h : c.isDigit = true) : c ≠ '\n' ∧ c ≠ '\r' := by
  constructor <;> rintro rfl <;> cases h

theorem oneLine_nat (n : Nat) : OneLine (Nat.repr n).toList := by
  intro c hc
  rw [Nat.toList_repr] at hc
  exact isDigit_ne (Nat.isDigit_of_mem_toDigits (by decide) (by decide) hc)

theorem oneLine_nodeId (id : NodeId) : OneLine id.display.toList := by
  rw [NodeId.display, String.toList_append]
  exact OneLine.append (by decide) (oneLine_nat _)

theorem oneLine_edgeId (id : EdgeId) : OneLine id.display.toList := by
  rw [EdgeId.display, String.toList_append]
  exact OneLine.append (by decide) (oneLine_nat _)

theorem encloses_value (v : Value) : Encloses (v.display fmt).toList v.texts := by
  cases v with
  | null => exact .fixed (t := "null".toList) (by decide)
  | boolean b =>
    have hb : OneLine (toString b).toList := by cases b <;> decide
    exact .fixed hb
  | integer i =>
    refine .fixed fun c hc => ?_
    rcases repr_chars _ c hc with rfl | hdigit
    · decide
    · exact isDigit_ne hdigit
  | float f => exact .fixed (fmt.display_oneLine f)
  | text s =>
    have := (Encloses.fixed (t := "\"".toList) (by decide)).append
      (Encloses.field s (t := "\"".toList) (by decide) (c := '"') (by decide) (by decide))
    rwa [← String.toList_append, ← String.toList_append, ← String.append_assoc] at this

theorem encloses_entry (entry : String × Value) :
    Encloses (displayEntry fmt entry).toList (entryTexts entry) := by
  have := (Encloses.field entry.1 (t := ": ".toList) (by decide) (c := ':') (by decide)
    (by decide)).append (encloses_value fmt entry.2)
  rwa [← String.toList_append, ← String.toList_append] at this

theorem encloses_entries (entries : List (String × Value)) :
    Encloses (", ".intercalate (entries.map (displayEntry fmt))).toList
      (entries.flatMap entryTexts) := by
  induction entries with
  | nil =>
    rw [List.map_nil, String.intercalate_nil]
    exact .fixed (by decide)
  | cons e es ih =>
    cases es with
    | nil =>
      rw [List.map_singleton, String.intercalate_singleton, List.flatMap_singleton]
      exact encloses_entry fmt e
    | cons e' es =>
      rw [List.map_cons, List.map_cons, String.intercalate_cons_cons, String.toList_append,
        String.toList_append, List.flatMap_cons, ← List.map_cons]
      have := (encloses_entry fmt e).append (.fixed (t := ", ".toList) (by decide))
      rw [List.append_nil] at this
      exact this.append ih

theorem encloses_node (ord : HashOrder) (n : Node) (start : List Char) (hstart : OneLine start) :
    Encloses ('\n' :: (start ++ (n.display fmt ord).toList)) n.texts := by
  have hopen : OneLine (start ++ ("(".toList ++ n.id.display.toList ++ " :".toList)) :=
    hstart.append ((OneLine.append (by decide) (oneLine_nodeId n.id)).append (by decide))
  have hlabel := (Encloses.newLine hopen (c := '(') (by simp) (by decide)).append
    (Encloses.field n.label (t := ")".toList) (by decide) (c := ')') (by decide) (by decide))
  have hproperties : Encloses (if n.properties.isEmpty then "" else " \x7b" ++ ", ".intercalate
      ((HashMap.iter ord n.properties).map (displayEntry fmt)) ++ "\x7d").toList
        ((HashMap.iter ord n.properties).flatMap entryTexts) := by
    split_ifs with h
    · have hnil : n.properties.toList = [] := by simpa using h
      have hiter : HashMap.iter ord n.properties = [] := by
        rw [HashMap.iter, hnil]
        exact List.eq_nil_iff_forall_not_mem.mpr fun a ha => by simp at ha
      rw [hiter]
      exact .fixed (by decide)
    · have := ((Encloses.fixed (t := " \x7b".toList) (by decide)).append
        (encloses_entries fmt (HashMap.iter ord n.properties))).append
          (.fixed (t := "\x7d".toList) (by decide))
      rwa [List.append_nil, List.nil_append, ← String.toList_append, ← String.toList_append] at this
  have hnode := (hlabel.append hproperties).congr fun s => show _ ↔ s ∈ n.texts by
    simp [Node.texts, HashMap.iter]
  have htext : (n.display fmt ord).toList = "(".toList ++ n.id.display.toList ++ " :".toList ++
      (n.label.toList ++ ")".toList ++ (if n.properties.isEmpty then "" else " \x7b" ++ ", ".intercalate
      ((HashMap.iter ord n.properties).map (displayEntry fmt)) ++ "\x7d").toList) := by
    simp only [Node.display, String.toList_append, List.append_assoc]
  rw [htext]
  simpa only [List.append_assoc, List.cons_append] using hnode

theorem encloses_edge (e : Edge) (start : List Char) (hstart : OneLine start) :
    Encloses ('\n' :: (start ++ e.display.toList)) [e.label] := by
  have hopen : OneLine (start ++ ("(".toList ++ e.source.display.toList ++ ") -[".toList ++
      e.id.display.toList ++ " :".toList)) :=
    hstart.append ((((OneLine.append (by decide) (oneLine_nodeId _)).append (by decide)).append
      (oneLine_edgeId _)).append (by decide))
  have hclose : OneLine ("]-> (".toList ++ e.target.display.toList ++ ")".toList) :=
    (OneLine.append (by decide) (oneLine_nodeId _)).append (by decide)
  have hedge := (Encloses.newLine hopen (c := '(') (by simp) (by decide)).append
    (Encloses.field e.label hclose (c := ']') (by simp) (by decide))
  simpa only [Edge.display, String.toList_append, List.append_assoc, List.cons_append,
    List.nil_append] using hedge

theorem encloses_nodes (ord : HashOrder) (ns : List Node) :
    Encloses ((displayNodes fmt ord ns).flatMap fun node => '\n' :: ("  ".toList ++ node.toList))
      (ns.flatMap Node.texts) := by
  induction ns generalizing ord with
  | nil => exact Encloses.nil
  | cons n ns ih =>
    rw [displayNodes, List.flatMap_cons, List.flatMap_cons]
    exact (encloses_node fmt _ n "  ".toList (by decide)).append (ih _)

theorem encloses_edges (es : List Edge) :
    Encloses (es.flatMap fun e => '\n' :: ("  ".toList ++ e.display.toList)) (es.map Edge.label) := by
  induction es with
  | nil => exact Encloses.nil
  | cons e es ih =>
    rw [List.flatMap_cons, List.map_cons]
    exact (encloses_edge e "  ".toList (by decide)).append ih

/-- Identifiers with arrows between them. -/
theorem oneLine_ids (ids : List NodeId) :
    OneLine (" → ".intercalate (ids.map NodeId.display)).toList := by
  induction ids with
  | nil => decide
  | cons id ids ih =>
    cases ids with
    | nil =>
      rw [List.map_singleton, String.intercalate_singleton]
      exact oneLine_nodeId id
    | cons id' ids =>
      rw [List.map_cons, List.map_cons, String.intercalate_cons_cons, String.toList_append,
        String.toList_append, ← List.map_cons]
      exact ((oneLine_nodeId id).append (by decide)).append ih

/-- Lines that end with a newline each are lines that start with one each, up to the last. -/
theorem newline_flatMap {α : Type} (items : List α) (text : α → List Char) :
    '\n' :: items.flatMap (fun x => text x ++ ['\n']) =
      items.flatMap (fun x => '\n' :: text x) ++ ['\n'] := by
  induction items with
  | nil => rfl
  | cons x items ih =>
    rw [List.flatMap_cons, List.flatMap_cons, List.append_assoc, List.append_assoc, ← ih]
    simp

/-- Lines behind a header line. -/
theorem toList_lines (header : String) (texts : List String) :
    (header ++ "\n" ++ String.join (texts.map fun text => "  " ++ text ++ "\n")).toList =
      header.toList ++ texts.flatMap (fun text => '\n' :: ("  ".toList ++ text.toList)) ++ ['\n'] := by
  rw [String.toList_append, String.toList_append, String.toList_join, List.flatMap_map,
    List.append_assoc, List.append_assoc, ← newline_flatMap]
  simp only [String.toList_append]
  rfl

/-- A text behind the status line. -/
def UnderStatus (text : String) (shown : List String) : Prop :=
  ∃ t last, '\n' :: text.toList = t ++ last ∧ Encloses t shown ∧ (last = [] ∨ last = ['\n'])

theorem UnderStatus.line (text : String) (h : OneLine text.toList) {c : Char} (hc : c ∈ text.toList)
    (hmark : isWhitespace c = false ∧ c ∉ "---END---".toList) : UnderStatus text [] :=
  ⟨'\n' :: text.toList, [], (List.append_nil _).symm, .newLine h hc hmark, .inl rfl⟩

theorem UnderStatus.lines {header : String} (h : OneLine header.toList) {c : Char}
    (hc : c ∈ header.toList) (hmark : isWhitespace c = false ∧ c ∉ "---END---".toList)
    {texts shown : List String}
    (htexts : Encloses (texts.flatMap fun text => '\n' :: ("  ".toList ++ text.toList)) shown) :
    UnderStatus (header ++ "\n" ++ String.join (texts.map fun text => "  " ++ text ++ "\n")) shown :=
  ⟨_, ['\n'], by rw [toList_lines, ← List.cons_append, ← List.cons_append],
    (Encloses.newLine h hc hmark).append htexts, .inr rfl⟩

theorem underStatus_node (ord : HashOrder) (n : Node) : UnderStatus (n.display fmt ord) n.texts := by
  have hnode := encloses_node fmt ord n [] (by decide)
  rw [List.nil_append] at hnode
  exact ⟨_, [], (List.append_nil _).symm, hnode, .inl rfl⟩

theorem underStatus_edge (e : Edge) : UnderStatus e.display [e.label] := by
  have hedge := encloses_edge e [] (by decide)
  rw [List.nil_append] at hedge
  exact ⟨_, [], (List.append_nil _).symm, hedge, .inl rfl⟩

theorem underStatus_nodes (ord : HashOrder) (ns : List Node) :
    UnderStatus ((QueryResult.nodes ns).display fmt ord) (ns.flatMap Node.texts) := by
  have hhead : OneLine ("Nodes (" ++ Nat.repr ns.length ++ "):").toList := by
    rw [String.toList_append, String.toList_append]
    exact (OneLine.append (by decide) (oneLine_nat _)).append (by decide)
  have hc : 'o' ∈ ("Nodes (" ++ Nat.repr ns.length ++ "):").toList := by
    rw [String.append_assoc, String.toList_append]
    exact List.mem_append_left _ (by decide)
  have hlines := UnderStatus.lines hhead hc (by decide) (encloses_nodes fmt ord ns)
  have hnewline : "Nodes (" ++ Nat.repr ns.length ++ "):" ++ "\n" =
      "Nodes (" ++ Nat.repr ns.length ++ "):\n" := String.append_assoc
  rwa [hnewline] at hlines

theorem underStatus_edges (ord : HashOrder) (es : List Edge) :
    UnderStatus ((QueryResult.edges es).display fmt ord) (es.map Edge.label) := by
  have hhead : OneLine ("Edges (" ++ Nat.repr es.length ++ "):").toList := by
    rw [String.toList_append, String.toList_append]
    exact (OneLine.append (by decide) (oneLine_nat _)).append (by decide)
  have hc : 'g' ∈ ("Edges (" ++ Nat.repr es.length ++ "):").toList := by
    rw [String.append_assoc, String.toList_append]
    exact List.mem_append_left _ (by decide)
  have htexts : Encloses ((es.map Edge.display).flatMap fun text => '\n' ::
      ("  ".toList ++ text.toList)) (es.map Edge.label) := by
    rw [List.flatMap_map]
    exact encloses_edges es
  have hlines := UnderStatus.lines hhead hc (by decide) htexts
  have hnewline : "Edges (" ++ Nat.repr es.length ++ "):" ++ "\n" =
      "Edges (" ++ Nat.repr es.length ++ "):\n" := String.append_assoc
  rwa [hnewline, List.map_map] at hlines

theorem underStatus_result (ord : HashOrder) (r : QueryResult) : UnderStatus (r.display fmt ord) r.texts := by
  cases r with
  | nodes ns => exact underStatus_nodes fmt ord ns
  | edges es => exact underStatus_edges fmt ord es
  | traversal ids =>
    rw [QueryResult.display]
    refine .line _ (c := 'T') ?_ (by simp) (by decide)
    simp only [String.toList_append]
    exact ((OneLine.append (by decide) (oneLine_nat _)).append (by decide)).append (oneLine_ids ids)
  | path ids totalWeight =>
    rw [QueryResult.display]
    refine .line _ (c := 'P') ?_ (by simp) (by decide)
    simp only [String.toList_append]
    exact ((OneLine.append (by decide) (fmt.fixed2_oneLine _)).append (by decide)).append
      (oneLine_ids ids)
  | singleNode node =>
    cases node with
    | none => exact .line "(not found)" (c := '(') (by decide) (by decide) (by decide)
    | some n =>
      have := underStatus_node fmt ord n
      rw [QueryResult.display, QueryResult.texts, Option.toList_some, List.flatMap_singleton]
      exact this
  | singleEdge edge =>
    cases edge with
    | none => exact .line "(not found)" (c := '(') (by decide) (by decide) (by decide)
    | some e =>
      have := underStatus_edge e
      rw [QueryResult.display, QueryResult.texts, Option.toList_some, List.map_singleton]
      exact this
  | count n =>
    rw [QueryResult.display]
    refine .line _ (c := 'C') ?_ (by simp) (by decide)
    rw [String.toList_append]
    exact OneLine.append (by decide) (oneLine_nat _)
  | empty => exact .line "(empty)" (c := '(') (by decide) (by decide) (by decide)

/-! ## Replies -/

section
variable (status : String) (hone : OneLine status.toList) (hstatus : Marked status.toList)
include hone hstatus

/-- The lines of a status line, a text that ends in a marked line, and more text. -/
theorem all_pieces_status {text : String} {t : List Char} {shown : List String}
    (ht : Encloses t shown) (rest : List Char) (htext : '\n' :: text.toList = t ++ rest) :
    ∃ line, Marked line ∧ (pieces (status ++ "\n" ++ text)).all isPlain =
      (shown.all isEnclosed &&
        ((cut line rest).1 ++ [String.ofList (cut line rest).2]).all isPlain) := by
  obtain ⟨hall, hline⟩ := ht _ hstatus
  refine ⟨_, hline, ?_⟩
  have hlist : (status ++ "\n" ++ text).toList = status.toList ++ (t ++ rest) := by
    rw [String.toList_append, String.toList_append, List.append_assoc, ← htext]
    rfl
  rw [pieces, hlist, cut_append, cut_append, cut_of_not_mem hone.newline_not_mem, List.nil_append,
    List.nil_append, List.append_assoc, List.all_append, hall]

theorem UnderStatus.all_pieces {text : String} {shown : List String} (h : UnderStatus text shown) :
    (pieces (status ++ "\n" ++ text)).all isPlain = shown.all isEnclosed := by
  obtain ⟨t, last, htext, ht, hlast⟩ := h
  obtain ⟨line, hline, hall⟩ := all_pieces_status status hone hstatus ht last htext
  rw [hall]
  rcases hlast with rfl | rfl
  · rw [cut, List.nil_append, List.all_cons, hline.isPlain]
    exact Bool.and_true _
  · rw [cut, if_pos rfl, cut, List.singleton_append, List.all_cons, hline.isPlain]
    exact Bool.and_true _

end

/-- A message behind fixed text. -/
theorem all_pieces_message {head : String} (hhead : OneLine head.toList) {c : Char}
    (hc : c ∈ head.toList) (hmark : isWhitespace c = false ∧ c ∉ "---END---".toList)
    (msg : String) :
    (pieces ("ERR" ++ "\n" ++ (head ++ msg))).all isPlain = isTrailing msg := by
  have htext : '\n' :: (head ++ msg).toList = '\n' :: head.toList ++ msg.toList := by
    rw [String.toList_append, List.cons_append]
  obtain ⟨line, hline, hall⟩ := all_pieces_status "ERR" (by decide)
    (OneLine.marked (by decide) (c := 'R') (by decide) (by decide)) (.newLine hhead hc hmark)
    msg.toList htext
  rw [hall, hline.all_pieces, List.all_nil, Bool.true_and]

/-- An identifier in fixed text. -/
theorem all_pieces_id {head id last : String} (hhead : OneLine head.toList) {c : Char}
    (hc : c ∈ head.toList) (hmark : isWhitespace c = false ∧ c ∉ "---END---".toList)
    (hid : OneLine id.toList) (hlast : OneLine last.toList) :
    (pieces ("ERR" ++ "\n" ++ (head ++ id ++ last))).all isPlain = true := by
  have htext : OneLine (head ++ id ++ last).toList := by
    rw [String.toList_append, String.toList_append]
    exact (hhead.append hid).append hlast
  have hmem : c ∈ (head ++ id ++ last).toList := by
    rw [String.toList_append, String.toList_append]
    exact List.mem_append_left _ (List.mem_append_left _ hc)
  exact (UnderStatus.line _ htext hmem hmark).all_pieces "ERR" (by decide)
    (OneLine.marked (by decide) (c := 'R') (by decide) (by decide))

theorem GraphError.all_pieces (e : GraphError) :
    (pieces ("ERR" ++ "\n" ++ e.display)).all isPlain = e.message.all isTrailing := by
  cases e with
  | nodeNotFound id =>
    exact all_pieces_id (by decide) (c := 'o') (by decide) (by decide) (oneLine_nodeId id) (by decide)
  | edgeNotFound id =>
    exact all_pieces_id (by decide) (c := 'g') (by decide) (by decide) (oneLine_edgeId id) (by decide)
  | duplicateNode id =>
    exact all_pieces_id (by decide) (c := 'o') (by decide) (by decide) (oneLine_nodeId id) (by decide)
  | duplicateEdge id =>
    exact all_pieces_id (by decide) (c := 'g') (by decide) (by decide) (oneLine_edgeId id) (by decide)
  | storageIo msg => exact all_pieces_message (by decide) (c := 's') (by decide) (by decide) msg
  | serializationError msg =>
    exact all_pieces_message (by decide) (c := 's') (by decide) (by decide) msg
  | deserializationError msg =>
    exact all_pieces_message (by decide) (c := 's') (by decide) (by decide) msg

namespace Server

/-- Every text that a reply shows keeps its lines apart from the closing line, and has no line
that ends with a carriage return. -/
def Reply.isClean : Reply → Bool
  | .bye => true
  | .language _ => true
  | .answer _ (.ok result) => result.texts.all isEnclosed
  | .answer _ (.error e) => e.message.all isTrailing

theorem Reply.all_pieces (r : Reply) : (pieces (r.text fmt)).all isPlain = r.isClean := by
  cases r with
  | bye =>
    have : (pieces "OK\nBye!").all isPlain = true := by decide
    exact this
  | language lang =>
    have : (pieces ("OK\nLanguage: " ++ lang.name)).all isPlain = true := by cases lang <;> decide
    exact this
  | answer ord result =>
    cases result with
    | ok result =>
      exact (underStatus_result fmt ord result).all_pieces "OK" (by decide)
        (OneLine.marked (by decide) (c := 'O') (by decide) (by decide))
    | error e => exact GraphError.all_pieces e

/-- What the server writes for replies. -/
def sent (rs : List Reply) : String := String.join (rs.map fun r => framed (r.text fmt))

end Server

namespace Cli

/-- The stream behind a response. -/
def afterResponse (stream : List (Option String)) : List (Option String) := (readUntilEnd stream).2

theorem receive_sent_cons (r : Server.Reply) (rs : List Server.Reply) :
    receive (asBytes (Server.sent fmt (r :: rs))) =
      receive (asBytes (Server.framed (r.text fmt)) ++ asBytes (Server.sent fmt rs)) := by
  rw [Server.sent, List.map_cons, String.join_cons, asBytes_append]
  rfl

theorem readUntilEnd_sent_iff (rs : List Server.Reply) :
    (∀ i (h : i < rs.length),
      readUntilEnd (afterResponse^[i] (receive (asBytes (Server.sent fmt rs)))) =
        ((rs.get ⟨i, h⟩).text fmt, receive (asBytes (Server.sent fmt (rs.drop (i + 1)))))) ↔
      ∀ r ∈ rs, r.isClean = true := by
  induction rs with
  | nil => exact ⟨fun _ r hr => (List.not_mem_nil hr).elim, fun _ i h => (Nat.not_lt_zero i h).elim⟩
  | cons r rs ih =>
    have hfirst := readUntilEnd_framed_iff (r.text fmt) (asBytes (Server.sent fmt rs))
    rw [← List.all_eq_true, r.all_pieces fmt, ← receive_sent_cons] at hfirst
    rw [List.forall_mem_cons, ← ih, ← hfirst]
    have hnext (h : readUntilEnd (receive (asBytes (Server.sent fmt (r :: rs)))) =
        (r.text fmt, receive (asBytes (Server.sent fmt rs)))) (i : Nat) :
        afterResponse^[i + 1] (receive (asBytes (Server.sent fmt (r :: rs)))) =
          afterResponse^[i] (receive (asBytes (Server.sent fmt rs))) := by
      rw [Function.iterate_succ_apply, afterResponse, h]
    constructor
    · intro h
      have h0 := h 0 (Nat.succ_pos _)
      refine ⟨h0, fun i hi => ?_⟩
      rw [← hnext h0]
      exact h (i + 1) (Nat.succ_lt_succ hi)
    · rintro ⟨h0, h⟩ i hi
      cases i with
      | zero => exact h0
      | succ i =>
        rw [hnext h0]
        exact h i (Nat.lt_of_succ_lt_succ hi)

/-- Every answer of a session is read back exactly if every text that the answers show is
clean. -/
theorem readUntilEnd_handleConnection_iff {D : Type} (fmt : FloatFormat) (u : Unicode)
    (executeQuery : HashOrder → Server.Lang → String → Action GraphError D QueryResult)
    (ord : HashOrder) (input : List (Option String)) (db : D) :
    (∀ i (h : i < (Server.serve u executeQuery ord input .simple db).length),
      readUntilEnd (afterResponse^[i + 1]
          (receive (asBytes (Server.handleConnection fmt u executeQuery ord input db)))) =
        (((Server.serve u executeQuery ord input .simple db).get ⟨i, h⟩).text fmt,
          receive (asBytes (Server.sent fmt
            ((Server.serve u executeQuery ord input .simple db).drop (i + 1)))))) ↔
      ∀ r ∈ Server.serve u executeQuery ord input .simple db, r.isClean = true := by
  have hbanner : afterResponse (receive
      (asBytes (Server.handleConnection fmt u executeQuery ord input db))) =
        receive (asBytes (Server.sent fmt (Server.serve u executeQuery ord input .simple db))) := by
    have hplain : ∀ p ∈ pieces Server.banner, isPlain p = true := by decide
    rw [Server.handleConnection, asBytes_append, afterResponse,
      (readUntilEnd_framed_iff Server.banner _).mpr hplain]
    rfl
  rw [← readUntilEnd_sent_iff fmt]
  refine forall₂_congr fun i h => ?_
  rw [Function.iterate_succ_apply, hbanner]

/-- Writes every float as zero. -/
def zeroFormat : FloatFormat where
  display := fun _ => "0"
  fixed2 := fun _ => "0.00"
  display_oneLine := fun _ => by decide
  fixed2_oneLine := fun _ => by decide

/-- Two nodes, one of which has a closing line in its label. -/
def closingLabel : List (HashOrder × Request) :=
  [(.sorted, .call (.insertNode "City" ∅)),
    (.sorted, .call (.insertNode "City\n---END---\nOK" ∅))]

/-- The client takes the answer to the first line for the answers to both lines, if the label of
the stored node has a closing line. -/
theorem readUntilEnd_handleConnection_short :
    let db := (LayeredGraphDatabase.session .plain closingLabel .newDatabase).2
    let executeQuery : HashOrder → Server.Lang → String →
        Action GraphError (LayeredGraphDatabase BinaryFileStorage (NoCache ⊕ LruCache))
          QueryResult := fun ord lang query db =>
      ((GraphServer.runQuery .plain (ord, lang, query) db).1.getD (.ok .empty),
        (GraphServer.runQuery .plain (ord, lang, query) db).2)
    let input := [some "GET NODE N1", some ":quit"]
    let stream := receive (asBytes
      (Server.handleConnection zeroFormat .plain executeQuery .sorted input db))
    (Server.serve .plain executeQuery .sorted input .simple db).map (·.text zeroFormat) =
        ["OK\n(N1 :City\n---END---\nOK)", "OK\nBye!"] ∧
      (readUntilEnd (afterResponse^[1] stream)).1 = "OK\n(N1 :City" ∧
      (readUntilEnd (afterResponse^[2] stream)).1 = "OK)" := by
  decide +kernel

end Cli

end

end AdGraphDb
