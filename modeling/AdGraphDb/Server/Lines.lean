import AdGraphDb.Foundation.Characters
import AdGraphDb.Storage.CodecRoundTrip

/-!
# Lines of a text

How the pieces between newlines come back from `BufRead::lines`, and which of them are
what a closing line could be taken for.
-/

namespace AdGraphDb

/-- `str::trim`. -/
def trim (s : String) : String :=
  String.ofList ((s.toList.dropWhile isWhitespace).reverse.dropWhile isWhitespace).reverse

/-- Reads characters behind the start of a line: the lines that are complete, and the start
of the next one. -/
def cut (line : List Char) : List Char → List String × List Char
  | [] => ([], line)
  | c :: cs =>
    if c = '\n' then (String.ofList line :: (cut [] cs).1, (cut [] cs).2) else cut (line ++ [c]) cs

/-- The pieces between newlines. -/
def pieces (s : String) : List String :=
  (cut [] s.toList).1 ++ [String.ofList (cut [] s.toList).2]

/-- Drops a carriage return at the end, as `lines` does. -/
def stripReturn (s : String) : String :=
  if endsWith s '\r' then String.ofList s.toList.dropLast else s

/-! ## Bytes of characters -/

/-- A small byte is a character of its own. -/
theorem mem_utf8EncodeChar {c : Char} {b : UInt8} (h : b ∈ String.utf8EncodeChar c)
    (hb : b.toNat < 128) : String.utf8EncodeChar c = [b] ∧ c.toNat = b.toNat := by
  unfold String.utf8EncodeChar at h ⊢
  dsimp only at h ⊢
  split_ifs at h ⊢ with hone htwo hthree
  · rw [List.mem_singleton] at h
    subst h
    refine ⟨rfl, ?_⟩
    rw [UInt8.toNat_ofNat', Nat.mod_eq_of_lt (by omega)]
    rfl
  -- the bytes of a longer character have their highest bit set
  all_goals simp only [List.mem_cons, List.not_mem_nil, or_false] at h
  · rcases h with rfl | rfl
    all_goals
      rw [UInt8.toNat_ofNat'] at hb
      omega
  · rcases h with rfl | rfl | rfl
    all_goals
      rw [UInt8.toNat_ofNat'] at hb
      omega
  · rcases h with rfl | rfl | rfl | rfl
    all_goals
      rw [UInt8.toNat_ofNat'] at hb
      omega

theorem asBytes_eq_flatMap (s : String) : asBytes s = s.toList.flatMap String.utf8EncodeChar := by
  rw [← asBytes_ofList, String.ofList_toList]

theorem mem_asBytes {s : String} {b : UInt8} (h : b ∈ asBytes s) (hb : b.toNat < 128) :
    ∃ c ∈ s.toList, c.toNat = b.toNat := by
  rw [asBytes_eq_flatMap] at h
  obtain ⟨c, hc, hmem⟩ := List.mem_flatMap.mp h
  exact ⟨c, hc, (mem_utf8EncodeChar hmem hb).2⟩

theorem newline_not_mem_asBytes {s : String} (h : '\n' ∉ s.toList) : newline ∉ asBytes s := by
  intro hmem
  obtain ⟨c, hc, hval⟩ := mem_asBytes hmem (by decide)
  have : c = '\n' := Char.toNat_inj.mp hval
  exact h (this ▸ hc)

theorem asBytes_eq_append {s : String} {cs : List Char} {c : Char} (h : s.toList = cs ++ [c]) :
    asBytes s = asBytes (String.ofList cs) ++ String.utf8EncodeChar c := by
  rw [asBytes_eq_flatMap, asBytes_eq_flatMap, h, List.flatMap_append, String.toList_ofList,
    List.flatMap_singleton]

theorem stripCarriageReturn_asBytes (s : String) :
    (stripCarriageReturn (asBytes s).reverse).reverse = asBytes (stripReturn s) := by
  rcases List.eq_nil_or_concat s.toList with hnil | ⟨cs, c, hcs⟩
  · rw [String.toList_eq_nil_iff.mp hnil]
    rfl
  rw [List.concat_eq_append] at hcs
  have hends : endsWith s '\r' = decide (c = '\r') := by
    rw [endsWith, hcs, List.getLast?_concat]
    exact decide_eq_decide.mpr Option.some_inj
  rw [stripReturn, hends, hcs, List.dropLast_concat, asBytes_eq_append hcs, List.reverse_append]
  by_cases hc : c = '\r'
  · subst hc
    have hreturn : (String.utf8EncodeChar '\r').reverse = [carriageReturn] := by decide
    rw [decide_eq_true rfl, if_pos rfl, hreturn, List.singleton_append, stripCarriageReturn,
      if_pos rfl, List.reverse_reverse]
  · rw [decide_eq_false hc, if_neg Bool.false_ne_true, asBytes_eq_append hcs]
    cases hr : (String.utf8EncodeChar c).reverse with
    | nil => exact absurd (List.reverse_eq_nil_iff.mp hr) String.utf8EncodeChar_ne_nil
    | cons b bs =>
      have hb : b ≠ carriageReturn := by
        rintro rfl
        have hmem : carriageReturn ∈ String.utf8EncodeChar c := by
          rw [← List.mem_reverse, hr]
          exact List.mem_cons_self
        exact hc (Char.toNat_inj.mp (mem_utf8EncodeChar hmem (by decide)).2)
      rw [List.cons_append, stripCarriageReturn, if_neg hb, ← List.cons_append, ← hr,
        List.reverse_append, List.reverse_reverse, List.reverse_reverse]

/-! ## Lines -/

theorem cut_append (line cs ds : List Char) :
    cut line (cs ++ ds) =
      ((cut line cs).1 ++ (cut (cut line cs).2 ds).1, (cut (cut line cs).2 ds).2) := by
  induction cs generalizing line with
  | nil => rfl
  | cons c cs ih =>
    rw [List.cons_append, cut, cut]
    split_ifs
    · rw [ih]
      rfl
    · exact ih _

/-- Text without a newline extends the line. -/
theorem cut_of_not_mem {cs : List Char} (h : '\n' ∉ cs) (line : List Char) :
    cut line cs = ([], line ++ cs) := by
  induction cs generalizing line with
  | nil => rw [cut, List.append_nil]
  | cons c cs ih =>
    rw [List.mem_cons, not_or] at h
    rw [cut, if_neg (Ne.symm h.1), ih h.2, List.append_assoc, List.singleton_append]

/-- A line that a newline follows. -/
theorem lines_asBytes_line {line : List Char} (hline : '\n' ∉ line) (rest : Bytes) :
    lines (asBytes (String.ofList line) ++ newline :: rest) =
      asBytes (stripReturn (String.ofList line)) :: lines rest := by
  have hbytes : newline ∉ asBytes (String.ofList line) :=
    newline_not_mem_asBytes (by rwa [String.toList_ofList])
  rw [lines, linesFrom_append hbytes, List.append_nil, stripCarriageReturn_asBytes]

/-- The line that is being read, and the rest of the text. -/
theorem lines_asBytes_cut (cs : List Char) {line : List Char} (hline : '\n' ∉ line)
    (rest : Bytes) : lines (asBytes (String.ofList (line ++ cs)) ++ newline :: rest) =
      ((cut line cs).1 ++ [String.ofList (cut line cs).2]).map (fun p => asBytes (stripReturn p)) ++
        lines rest := by
  induction cs generalizing line with
  | nil =>
    rw [List.append_nil, lines_asBytes_line hline]
    rfl
  | cons c cs ih =>
    rw [cut]
    split_ifs with hc
    · -- the line ends here
      have hnewline : asBytes (String.ofList ('\n' :: cs)) =
          newline :: asBytes (String.ofList cs) := by
        rw [asBytes_eq_flatMap, asBytes_eq_flatMap, String.toList_ofList, String.toList_ofList]
        rfl
      rw [hc, String.ofList_append, asBytes_append, hnewline, List.append_assoc, List.cons_append,
        lines_asBytes_line hline]
      exact congrArg _ (ih List.not_mem_nil)
    · rw [List.append_cons line]
      apply ih
      intro h
      rcases List.mem_append.mp h with h | h
      · exact hline h
      · exact hc (List.mem_singleton.mp h).symm

/-- The lines of a text that a newline follows, and what follows. -/
theorem lines_asBytes_append (s : String) (rest : Bytes) :
    lines (asBytes s ++ newline :: rest) =
      (pieces s).map (fun p => asBytes (stripReturn p)) ++ lines rest := by
  have hcut := lines_asBytes_cut s.toList List.not_mem_nil rest
  rwa [List.nil_append, String.ofList_toList] at hcut

theorem intercalate_pieces (s : String) : "\n".intercalate (pieces s) = s := by
  have hcut (cs : List Char) : ∀ line,
      "\n".intercalate ((cut line cs).1 ++ [String.ofList (cut line cs).2]) =
        String.ofList (line ++ cs) := by
    induction cs with
    | nil =>
      intro line
      rw [List.append_nil]
      exact String.intercalate_singleton
    | cons c cs ih =>
      intro line
      rw [cut]
      split_ifs with hc
      · have hne : (cut [] cs).1 ++ [String.ofList (cut [] cs).2] ≠ [] := by simp
        rw [List.cons_append, String.intercalate_cons_of_ne_nil hne, ih, hc, List.nil_append,
          String.ofList_append, String.append_assoc, String.ofList_cons]
        rfl
      · rw [ih, List.append_assoc, List.singleton_append]
  have := hcut s.toList []
  rwa [List.nil_append, String.ofList_toList] at this

/-! ## Carriage returns -/

theorem stripReturn_eq_self {s : String} : stripReturn s = s ↔ endsWith s '\r' = false := by
  unfold stripReturn
  split_ifs with h
  · rw [h]
    refine ⟨fun hs => ?_, fun h => by cases h⟩
    obtain ⟨cs, hcs⟩ := List.getLast?_eq_some_iff.mp (of_decide_eq_true h)
    have hlen := congrArg (List.length ∘ String.toList) hs
    rw [Function.comp_apply, Function.comp_apply, hcs, List.dropLast_concat, String.toList_ofList, List.length_append] at hlen
    simp at hlen
  · exact ⟨fun _ => Bool.not_eq_true _ ▸ h, fun _ => rfl⟩

theorem length_stripReturn_le (s : String) : (stripReturn s).toList.length ≤ s.toList.length := by
  unfold stripReturn
  split_ifs
  · rw [String.toList_ofList, List.length_dropLast]
    exact Nat.sub_le _ _
  · exact Nat.le_refl _

theorem length_intercalate_cons (p q : String) (ps : List String) :
    ("\n".intercalate (p :: q :: ps)).toList.length =
      p.toList.length + 1 + ("\n".intercalate (q :: ps)).toList.length := by
  rw [String.intercalate_cons_cons, String.toList_append, String.toList_append, List.length_append,
    List.length_append]
  rfl

theorem length_intercalate_stripReturn_le (ps : List String) :
    ("\n".intercalate (ps.map stripReturn)).toList.length ≤
      ("\n".intercalate ps).toList.length := by
  induction ps with
  | nil => exact Nat.le_refl _
  | cons p ps ih =>
    cases ps with
    | nil =>
      rw [List.map_singleton, String.intercalate_singleton, String.intercalate_singleton]
      exact length_stripReturn_le p
    | cons q ps =>
      have hp := length_stripReturn_le p
      rw [List.map_cons] at ih
      rw [List.map_cons, List.map_cons, length_intercalate_cons, length_intercalate_cons]
      omega

/-- Lines that are joined again are those of the text only if none has lost its end. -/
theorem stripReturn_eq_of_intercalate {ps : List String}
    (h : "\n".intercalate ps = "\n".intercalate (ps.map stripReturn)) :
    ∀ p ∈ ps, stripReturn p = p := by
  have hlen : ("\n".intercalate ps).toList.length ≤
      ("\n".intercalate (ps.map stripReturn)).toList.length := h ▸ Nat.le_refl _
  clear h
  have hself {p : String} (hp : p.toList.length ≤ (stripReturn p).toList.length) :
      stripReturn p = p := by
    unfold stripReturn at hp ⊢
    split_ifs at hp ⊢ with hends
    · rw [String.toList_ofList, List.length_dropLast] at hp
      have hne : p.toList ≠ [] := fun h => by
        rw [endsWith, h] at hends
        cases hends
      have hpos := List.length_pos_iff.mpr hne
      omega
    · rfl
  induction ps with
  | nil => exact List.forall_mem_nil _
  | cons p ps ih =>
    cases ps with
    | nil =>
      rw [List.map_singleton, String.intercalate_singleton, String.intercalate_singleton] at hlen
      exact List.forall_mem_singleton.mpr (hself hlen)
    | cons q ps =>
      have hp := length_stripReturn_le p
      have hps := length_intercalate_stripReturn_le (q :: ps)
      rw [List.map_cons, List.map_cons, length_intercalate_cons, length_intercalate_cons] at hlen
      rw [List.map_cons] at hps ih
      rw [List.forall_mem_cons]
      exact ⟨hself (by omega), ih (by omega)⟩

end AdGraphDb
