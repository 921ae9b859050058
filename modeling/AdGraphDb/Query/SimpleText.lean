import AdGraphDb.Query.SimpleGrammar

/-!
# Texts of SimpleQuery

Texts that separate tokens by white space are split into these tokens, and every spelling
of a command is parsed to the command.
-/

namespace AdGraphDb
namespace SimpleQuery
open Parsing

/-! ## Tokens of a text -/

/-- `"…"`. -/
def quoted (s : String) : String := "\"" ++ s ++ "\""

/-- A token of its own: no white space and no quotes, or one quoted text. -/
inductive IsToken : String → Prop where
  | plain {t : String} (hne : t ≠ "") (h : ∀ c ∈ t.toList, c ≠ '"' ∧ isSeparator c = false) :
      IsToken t
  | quoted {s : String} (h : '"' ∉ s.toList) : IsToken (quoted s)

/-- The text of tokens between which white space stands. -/
inductive Separated : List String → List Char → Prop where
  | last (t : String) : Separated [t] t.toList
  | cons {t : String} {ts : List String} {blanks text : List Char} (hne : blanks ≠ [])
      (hblanks : ∀ c ∈ blanks, isSeparator c = true) (h : Separated ts text) :
      Separated (t :: ts) (t.toList ++ blanks ++ text)

theorem not_quote_of_isSeparator {c : Char} (h : isSeparator c = true) : c ≠ '"' := by
  rintro rfl
  cases h

theorem tokenizeFrom_blanks {blanks : List Char} (h : ∀ c ∈ blanks, isSeparator c = true)
    (text : List Char) : tokenizeFrom [] false (blanks ++ text) = tokenizeFrom [] false text := by
  induction blanks with
  | nil => rfl
  | cons c blanks ih =>
    have hc := h c List.mem_cons_self
    rw [List.cons_append, tokenizeFrom, if_neg (not_quote_of_isSeparator hc), hc]
    exact ih fun d hd => h d (List.mem_cons_of_mem c hd)

/-- Characters that end no token are appended to it. -/
theorem tokenizeFrom_append {inString : Bool} {t : List Char}
    (h : ∀ c ∈ t, c ≠ '"' ∧ (isSeparator c && !inString) = false) (current text : List Char) :
    tokenizeFrom current inString (t ++ text) = tokenizeFrom (current ++ t) inString text := by
  induction t generalizing current with
  | nil => rw [List.nil_append, List.append_nil]
  | cons c t ih =>
    obtain ⟨hq, hs⟩ := h c List.mem_cons_self
    rw [List.cons_append, tokenizeFrom, if_neg hq, hs, if_neg Bool.false_ne_true,
      ih fun d hd => h d (List.mem_cons_of_mem c hd), List.append_assoc, List.singleton_append]

theorem tokenizeFrom_quoted {s : String} (h : '"' ∉ s.toList) (text : List Char) :
    tokenizeFrom [] false ((quoted s).toList ++ text) = quoted s :: tokenizeFrom [] false text := by
  have hlist : (quoted s).toList = '"' :: (s.toList ++ ['"']) := by
    rw [quoted, String.toList_append, String.toList_append]
    rfl
  have hs : ∀ c ∈ s.toList, c ≠ '"' ∧ (isSeparator c && !true) = false :=
    fun c hc => ⟨fun he => h (he ▸ hc), Bool.and_false _⟩
  rw [hlist, List.cons_append, List.append_assoc, tokenizeFrom, if_pos rfl,
    if_neg Bool.false_ne_true, tokenizeFrom_append hs, List.singleton_append, tokenizeFrom,
    if_pos rfl, if_pos rfl]
  congr 1
  rw [← String.toList_inj, String.toList_ofList, hlist]
  rfl

theorem tokenizeFrom_plain {t : String} (hne : t ≠ "")
    (h : ∀ c ∈ t.toList, c ≠ '"' ∧ isSeparator c = false) {blanks : List Char}
    (hblanks : ∀ c ∈ blanks, isSeparator c = true) {text : List Char}
    (htext : blanks = [] → text = []) :
    tokenizeFrom [] false (t.toList ++ (blanks ++ text)) = t :: tokenizeFrom [] false text := by
  have ht : ∀ c ∈ t.toList, c ≠ '"' ∧ (isSeparator c && !false) = false :=
    fun c hc => ⟨(h c hc).1, by rw [(h c hc).2]; rfl⟩
  have hlist : t.toList.isEmpty = false := by
    rw [List.isEmpty_eq_false_iff]
    exact fun h => hne (String.toList_eq_nil_iff.mp h)
  rw [tokenizeFrom_append ht, List.nil_append]
  cases blanks with
  | nil =>
    rw [htext rfl, List.append_nil, tokenizeFrom, hlist, if_neg Bool.false_ne_true,
      String.ofList_toList]
    rfl
  | cons c blanks =>
    have hc := hblanks c List.mem_cons_self
    rw [List.cons_append, tokenizeFrom, if_neg (not_quote_of_isSeparator hc), hc, Bool.not_false,
      Bool.and_true, if_pos rfl, hlist, if_neg Bool.false_ne_true, String.ofList_toList,
      tokenizeFrom_blanks fun d hd => hblanks d (List.mem_cons_of_mem c hd)]

/-- A token, white space and the rest. -/
theorem tokenizeFrom_token {t : String} (h : IsToken t) {blanks : List Char}
    (hblanks : ∀ c ∈ blanks, isSeparator c = true) {text : List Char}
    (htext : blanks = [] → text = []) :
    tokenizeFrom [] false (t.toList ++ (blanks ++ text)) = t :: tokenizeFrom [] false text := by
  cases h with
  | plain hne h => exact tokenizeFrom_plain hne h hblanks htext
  | quoted h => rw [tokenizeFrom_quoted h, tokenizeFrom_blanks hblanks]

theorem tokenizeFrom_separated {ts : List String} {text : List Char} (h : Separated ts text)
    (hts : ∀ t ∈ ts, IsToken t) : tokenizeFrom [] false text = ts := by
  induction h with
  | last t =>
    have hblanks : ∀ c ∈ ([] : List Char), isSeparator c = true := fun _ h => by cases h
    have htoken := tokenizeFrom_token (hts t List.mem_cons_self) hblanks fun _ => rfl
    rwa [List.append_nil, List.append_nil] at htoken
  | cons hne hblanks h ih =>
    rw [List.append_assoc, tokenizeFrom_token (hts _ List.mem_cons_self) hblanks
      (fun h => absurd h hne), ih fun t ht => hts t (List.mem_cons_of_mem _ ht)]

/-! ## Literals -/

theorem toList_quoted (s : String) : (quoted s).toList = '"' :: (s.toList ++ ['"']) := by
  rw [quoted, String.toList_append, String.toList_append]
  rfl

theorem utf8ByteSize_quoted (s : String) : (quoted s).utf8ByteSize = 1 + s.utf8ByteSize + 1 := by
  rw [quoted, String.utf8ByteSize_append, String.utf8ByteSize_append]
  rfl

theorem startsWith_quoted (s : String) : startsWith (quoted s) '"' = true := by
  rw [startsWith, toList_quoted, List.head?_cons, decide_eq_true rfl]

theorem endsWith_quoted (s : String) : endsWith (quoted s) '"' = true := by
  rw [endsWith, toList_quoted, ← List.cons_append, List.getLast?_concat, decide_eq_true rfl]

theorem unquote_quoted (s : String) : unquote (quoted s) = .ok s := by
  have h : sliceStr? (quoted s) 1 (1 + s.utf8ByteSize) = some s := sliceStr?_append "\"" s "\""
  rw [unquote, utf8ByteSize_quoted, Nat.add_sub_cancel, h]

theorem two_le_quoted (s : String) : decide (2 ≤ (quoted s).utf8ByteSize) = true := by
  rw [utf8ByteSize_quoted, decide_eq_true_eq]
  omega

theorem stringLit_quoted (s : String) : stringLit (quoted s) = .ok s := by
  rw [stringLit, startsWith_quoted, endsWith_quoted, two_le_quoted, Bool.and_self, Bool.and_self,
    if_pos rfl, unquote_quoted]

/-- The spellings of a value. -/
inductive Literal : String → Value → Prop where
  | null {t : String} (h : isWord "null" t = true) : Literal t .null
  | boolean {t : String} {b : Bool} (h : isWord (toString b) t = true) : Literal t (.boolean b)
  | integer (i : Int64) : Literal (Int.repr i.toInt) (.integer i)
  | text {s : String} (h : '"' ∉ s.toList) : Literal (quoted s) (.text s)

/-- The first letter of a word, in small. -/
theorem head_of_isWord {kw t : String} (h : isWord kw t = true) :
    t.toList.head?.map Char.toLower = kw.toList.head?.map Char.toLower := by
  rw [← List.head?_map, ← List.head?_map, of_decide_eq_true h]

theorem eqIgnoreAsciiCase_trans {t kw kw' : String} (h : isWord kw t = true) :
    eqIgnoreAsciiCase t kw' = eqIgnoreAsciiCase kw kw' := by
  rw [eqIgnoreAsciiCase, eqIgnoreAsciiCase, of_decide_eq_true h]

theorem not_startsWith_of_isWord {kw t : String} (h : isWord kw t = true)
    (hkw : kw.toList.head?.map Char.toLower ≠ some '"') : startsWith t '"' = false := by
  rw [startsWith, decide_eq_false_iff_not]
  intro ht
  apply hkw
  rw [← head_of_isWord h, ht]
  rfl

/-- A printed number is none of the words that are tried before it. -/
theorem eqIgnoreAsciiCase_repr (z : ℤ) {kw : String} {k : Char}
    (hkw : kw.toList.head?.map Char.toLower = some k) (hk : k ≠ '-' ∧ k.isDigit = false) :
    eqIgnoreAsciiCase z.repr kw = false := by
  rw [Bool.eq_false_iff]
  intro h
  have hhead := (head_of_isWord h).trans hkw
  obtain ⟨c, hc, hlower⟩ := Option.map_eq_some_iff.mp hhead
  rcases repr_chars z c (List.mem_of_head? hc) with rfl | hdigit
  · exact hk.1 hlower.symm
  · rw [toLower_of_isDigit hdigit] at hlower
    rw [hlower, hk.2] at hdigit
    cases hdigit

theorem valueLit_of_literal {t : String} {v : Value} (h : Literal t v) : valueLit t = .ok v := by
  cases h with
  | null h =>
    rw [valueLit, not_startsWith_of_isWord h (by decide), if_neg Bool.false_ne_true,
      eqIgnoreAsciiCase_trans h, eqIgnoreAsciiCase_trans h, eqIgnoreAsciiCase_trans h]
    rfl
  | @boolean _ b h =>
    have hkw : (toString b).toList.head?.map Char.toLower ≠ some '"' := by cases b <;> decide
    rw [valueLit, not_startsWith_of_isWord h hkw, if_neg Bool.false_ne_true,
      eqIgnoreAsciiCase_trans h, eqIgnoreAsciiCase_trans h]
    cases b <;> rfl
  | integer i =>
    have hquote : startsWith (Int.repr i.toInt) '"' = false := by
      rw [startsWith, decide_eq_false_iff_not]
      intro h
      rcases repr_chars _ _ (List.mem_of_head? h) with h | h <;> cases h
    have hdot : (Int.repr i.toInt).toList.contains '.' = false := by
      rw [Bool.eq_false_iff, ne_eq, List.contains_iff_mem]
      intro h
      rcases repr_chars _ _ h with h | h <;> cases h
    have htrue : eqIgnoreAsciiCase (Int.repr i.toInt) "true" = false :=
      eqIgnoreAsciiCase_repr _ rfl (by decide)
    have hfalse : eqIgnoreAsciiCase (Int.repr i.toInt) "false" = false :=
      eqIgnoreAsciiCase_repr _ rfl (by decide)
    have hnull : eqIgnoreAsciiCase (Int.repr i.toInt) "null" = false :=
      eqIgnoreAsciiCase_repr _ rfl (by decide)
    rw [valueLit, hquote, htrue, hfalse, hnull, hdot, parseI64_repr]
    rfl
  | text h =>
    rw [valueLit, startsWith_quoted, if_pos rfl, endsWith_quoted, two_le_quoted, Bool.and_self,
      if_pos rfl, unquote_quoted]
    rfl

/-! ## Spellings -/

/-- The three tokens of a condition. A weight may be spelled in any way that `f64` reads. -/
inductive ConditionSpelling : List String → Condition → Prop where
  | label {field l : String} (hfield : isWord "label" field = true) (hl : '"' ∉ l.toList) :
      ConditionSpelling [field, "=", quoted l] (.label l)
  | weight {field raw : String} {op : ComparisonOp} {w : F64}
      (hfield : isWord "weight" field = true) (htok : IsToken raw) (hraw : F64.parse raw = some w) :
      ConditionSpelling [field, op.display, raw] (.weight ⟨op, w⟩)
  | property {props key lit : String} {op : ComparisonOp} {value : Value}
      (hprops : isWord "props." props = true)
      (hkey : ∀ c ∈ key.toList, c ≠ '"' ∧ isSeparator c = false) (hlit : Literal lit value) :
      ConditionSpelling [props ++ key, op.display, lit] (.property ⟨key, op, value⟩)

/-- `["WHERE" filter_chain]`. -/
inductive WhereSpelling : List String → List Condition → Prop where
  | none : WhereSpelling [] []
  | chain {w : String} {ts : List String} {cs : List Condition} (hw : isWord "WHERE" w = true)
      (hts : Chain ConditionSpelling (isWord "AND") ts cs) : WhereSpelling (w :: ts) cs

theorem clause_of_spelling (u : Unicode) {weights : Bool} {ts : List String} {c : Condition}
    (h : ConditionSpelling ts c) (hw : weights = false → ∀ d, c ≠ .weight d) :
    Clause u weights ts c := by
  cases h with
  | label hfield hl => exact .label hfield (stringLit_quoted _)
  | weight hfield _ hraw =>
    cases weights with
    | false => exact absurd rfl (hw rfl _)
    | true => exact .weight rfl hfield hraw
  | @property props key lit op value hprops hkey hlit =>
    have hascii : props.toList.all isAscii = true :=
      all_isAscii_congr (of_decide_eq_true hprops) (by decide)
    have hlower : u.toLowercase props = "props." :=
      u.toLowercase_of_eqIgnoreAsciiCase hprops (by decide)
    have hsize : props.utf8ByteSize = 6 := by
      have hlen := congrArg List.length (of_decide_eq_true hprops)
      rw [List.length_map, List.length_map] at hlen
      rw [utf8ByteSize_of_isAscii hascii, hlen]
      rfl
    refine .property ?_ ?_ (valueLit_of_literal hlit)
    · rw [u.toLowercase_append, hlower, startsWithStr, String.toList_append,
        List.isPrefixOf_iff_prefix]
      exact List.prefix_append _ _
    · rw [← hsize, sliceFrom?_append]

/-! Every token of a spelling is one of the text. -/

theorem plain_of_isWord {kw t : String} (h : isWord kw t = true)
    (hkw : kw ≠ "" ∧ ∀ c ∈ kw.toList.map Char.toLower, c ≠ '"' ∧ isSeparator c = false) :
    t ≠ "" ∧ ∀ c ∈ t.toList, c ≠ '"' ∧ isSeparator c = false := by
  have hmap := of_decide_eq_true h
  refine ⟨?_, fun c hc => ?_⟩
  · rintro rfl
    exact hkw.1 (String.toList_eq_nil_iff.mp (List.map_eq_nil_iff.mp hmap.symm))
  · have hlower : c.toLower ∈ kw.toList.map Char.toLower := hmap ▸ List.mem_map_of_mem hc
    obtain ⟨hq, hs⟩ := hkw.2 _ hlower
    refine ⟨?_, ?_⟩
    · rintro rfl
      exact hq rfl
    · rw [Bool.eq_false_iff]
      intro hsep
      have hself : c.toLower = c := by
        simp only [isSeparator, Bool.or_eq_true, beq_iff_eq] at hsep
        rcases hsep with ((rfl | rfl) | rfl) | rfl <;> rfl
      rw [hself, hsep] at hs
      cases hs

theorem isToken_of_isWord {kw t : String} (h : isWord kw t = true)
    (hkw : kw ≠ "" ∧ ∀ c ∈ kw.toList.map Char.toLower, c ≠ '"' ∧ isSeparator c = false) :
    IsToken t :=
  .plain (plain_of_isWord h hkw).1 (plain_of_isWord h hkw).2

theorem isToken_of_plain {t : String} (hne : t ≠ "")
    (h : t.toList.all (fun c => c != '"' && !isSeparator c) = true) : IsToken t := by
  refine .plain hne fun c hc => ?_
  have := List.all_eq_true.mp h c hc
  simpa using this

theorem plain_of_isDigit {c : Char} (hc : c.isDigit = true) : c ≠ '"' ∧ isSeparator c = false :=
  isAscii_rec (P := fun c => c.isDigit = true → c ≠ '"' ∧ isSeparator c = false) (by decide)
    (isAscii_of_isDigit hc) hc

theorem isToken_repr (z : ℤ) : IsToken z.repr := by
  refine .plain ?_ fun c hc => ?_
  · intro h
    have hnil : z.repr.toList = [] := String.toList_eq_nil_iff.mpr h
    cases z with
    | ofNat n => exact Nat.toDigits_ne_nil (Nat.toList_repr.symm.trans hnil)
    | negSucc n =>
      rw [Int.repr, String.toList_append] at hnil
      cases hnil
  · rcases repr_chars z c hc with rfl | hdigit
    · decide
    · exact plain_of_isDigit hdigit

theorem isToken_literal {t : String} {v : Value} (h : Literal t v) : IsToken t := by
  cases h with
  | null h => exact isToken_of_isWord h (by decide)
  | @boolean _ b h => cases b <;> exact isToken_of_isWord h (by decide)
  | integer i => exact isToken_repr _
  | text h => exact .quoted h

theorem isToken_display (op : ComparisonOp) : IsToken op.display := by
  cases op <;> exact isToken_of_plain (by decide) (by decide)

theorem isToken_condition {ts : List String} {c : Condition} (h : ConditionSpelling ts c) :
    ∀ t ∈ ts, IsToken t := by
  cases h with
  | label hfield hl =>
    simp only [List.forall_mem_cons]
    exact ⟨isToken_of_isWord hfield (by decide), isToken_of_plain (by decide) (by decide), .quoted hl,
      fun _ h => by cases h⟩
  | weight hfield htok hraw =>
    simp only [List.forall_mem_cons]
    exact ⟨isToken_of_isWord hfield (by decide), isToken_display _, htok, fun _ h => by cases h⟩
  | @property props key lit op value hprops hkey hlit =>
    simp only [List.forall_mem_cons]
    refine ⟨?_, isToken_display _, isToken_literal hlit, fun _ h => by cases h⟩
    obtain ⟨hne, hplain⟩ := plain_of_isWord hprops (by decide)
    refine .plain (fun h => hne (String.append_eq_empty_iff.mp h).1) fun c hc => ?_
    rw [String.toList_append] at hc
    exact (List.mem_append.mp hc).elim (hplain c) (hkey c)

theorem isToken_where {ts : List String} {cs : List Condition} (h : WhereSpelling ts cs) :
    ∀ t ∈ ts, IsToken t := by
  cases h with
  | none => exact fun _ h => by cases h
  | chain hw hts =>
    rw [List.forall_mem_cons]
    exact ⟨isToken_of_isWord hw (by decide), hts.forall_tokens (fun _ _ => isToken_condition)
      fun t ht => isToken_of_isWord ht (by decide)⟩

theorem filter_of_where (u : Unicode) {weighted : Bool} {ts : List String} {cs : List Condition}
    (h : WhereSpelling ts cs) (hw : weighted = false → weights cs = []) :
    Filter u weighted ts [] cs := by
  cases h with
  | none => exact .all rfl
  | chain hwhere hts =>
    refine .chain hwhere (hts.mono fun ts c hc h => clause_of_spelling u h ?_) rfl
    rintro hfalse d rfl
    have hmem := mem_weights.mpr hc
    rw [hw hfalse] at hmem
    cases hmem

/-! ## Sentences -/

/-- A reference to a node or an edge. -/
def reference (letter : String) (id : UInt64) : String := letter ++ Nat.repr id.toNat

theorem refNumber_reference (id : UInt64) :
    refNumber 'N' (reference "N" id) = some id ∧ refNumber 'E' (reference "E" id) = some id := by
  have hlist (c : Char) : (reference (String.singleton c) id).toList = c :: (Nat.repr id.toNat).toList := by
    rw [reference, String.toList_append, String.toList_singleton]
    rfl
  have href (c : Char) : refNumber c (reference (String.singleton c) id) = some id := by
    rw [refNumber, hlist]
    change (if c = c then _ else _) = _
    rw [if_pos rfl, String.ofList_toList, parseU64_repr]
  exact ⟨href 'N', href 'E'⟩

theorem isToken_reference {letter : String} (hne : letter ≠ "")
    (h : ∀ c ∈ letter.toList, c ≠ '"' ∧ isSeparator c = false) (id : UInt64) :
    IsToken (reference letter id) := by
  refine .plain (fun h => hne (String.append_eq_empty_iff.mp h).1) fun c hc => ?_
  rw [reference, String.toList_append, Nat.toList_repr] at hc
  rcases List.mem_append.mp hc with hc | hc
  · exact h c hc
  · exact plain_of_isDigit (Nat.isDigit_of_mem_toDigits (by decide) (by decide) hc)

/-- The spellings of a command: keywords in any letter case, at most one condition on the
label and on the weight, in any place of the chain. -/
inductive Sentence : List String → QueryCommand → Prop where
  | matchNodes {m k : String} {ts : List String} {cs : List Condition}
      (hm : isWord "MATCH" m = true) (hk : isWord "NODE" k = true) (hts : WhereSpelling ts cs)
      (hlabel : (labels cs).length ≤ 1) (hweight : weights cs = []) :
      Sentence (m :: k :: ts) (.matchNodes ⟨(labels cs).head?, properties cs⟩)
  | matchEdges {m k : String} {ts : List String} {cs : List Condition}
      (hm : isWord "MATCH" m = true) (hk : isWord "EDGE" k = true) (hts : WhereSpelling ts cs)
      (hlabel : (labels cs).length ≤ 1) (hweight : (weights cs).length ≤ 1) :
      Sentence (m :: k :: ts)
        (.matchEdges ⟨(labels cs).head?, (weights cs).head?, properties cs⟩)
  | getNode {g k : String} (hg : isWord "GET" g = true) (hk : isWord "NODE" k = true)
      (id : UInt64) : Sentence [g, k, reference "N" id] (.getNode ⟨id⟩)
  | getEdge {g k : String} (hg : isWord "GET" g = true) (hk : isWord "EDGE" k = true)
      (id : UInt64) : Sentence [g, k, reference "E" id] (.getEdge ⟨id⟩)
  | traverse {t a f : String} {kind : TraversalKind} (ht : isWord "TRAVERSE" t = true)
      (ha : isWord kind.keyword a = true) (hf : isWord "FROM" f = true) (id : UInt64) :
      Sentence [t, a, f, reference "N" id] (.traverse kind ⟨id⟩)
  | path {p f t : String} (hp : isWord "PATH" p = true) (hf : isWord "FROM" f = true)
      (ht : isWord "TO" t = true) (id id' : UInt64) :
      Sentence [p, f, reference "N" id, t, reference "N" id'] (.shortestPath ⟨id⟩ ⟨id'⟩)
  | countNodes {c k : String} (hc : isWord "COUNT" c = true) (hk : isWord "NODES" k = true) :
      Sentence [c, k] .countNodes
  | countEdges {c k : String} (hc : isWord "COUNT" c = true) (hk : isWord "EDGES" k = true) :
      Sentence [c, k] .countEdges

theorem getLast?_of_length_le_one {α : Type} {l : List α} (h : l.length ≤ 1) :
    l.getLast? = l.head? := by
  match l, h with
  | [], _ => rfl
  | [_], _ => rfl

theorem isToken_sentence {ts : List String} {cmd : QueryCommand} (h : Sentence ts cmd) :
    ∀ t ∈ ts, IsToken t := by
  have hN (id : UInt64) : IsToken (reference "N" id) := isToken_reference (by decide) (by decide) id
  have hE (id : UInt64) : IsToken (reference "E" id) := isToken_reference (by decide) (by decide) id
  have hnil : ∀ t ∈ ([] : List String), IsToken t := fun _ h => by cases h
  cases h with
  | matchNodes hm hk hts _ _ =>
    simp only [List.forall_mem_cons]
    exact ⟨isToken_of_isWord hm (by decide), isToken_of_isWord hk (by decide), isToken_where hts⟩
  | matchEdges hm hk hts _ _ =>
    simp only [List.forall_mem_cons]
    exact ⟨isToken_of_isWord hm (by decide), isToken_of_isWord hk (by decide), isToken_where hts⟩
  | getNode hg hk id =>
    simp only [List.forall_mem_cons]
    exact ⟨isToken_of_isWord hg (by decide), isToken_of_isWord hk (by decide), hN id, hnil⟩
  | getEdge hg hk id =>
    simp only [List.forall_mem_cons]
    exact ⟨isToken_of_isWord hg (by decide), isToken_of_isWord hk (by decide), hE id, hnil⟩
  | @traverse _ a _ kind ht ha hf id =>
    have ha : IsToken a := by cases kind <;> exact isToken_of_isWord ha (by decide)
    simp only [List.forall_mem_cons]
    exact ⟨isToken_of_isWord ht (by decide), ha, isToken_of_isWord hf (by decide), hN id, hnil⟩
  | path hp hf ht id id' =>
    simp only [List.forall_mem_cons]
    exact ⟨isToken_of_isWord hp (by decide), isToken_of_isWord hf (by decide), hN id,
      isToken_of_isWord ht (by decide), hN id', hnil⟩
  | countNodes hc hk =>
    simp only [List.forall_mem_cons]
    exact ⟨isToken_of_isWord hc (by decide), isToken_of_isWord hk (by decide), hnil⟩
  | countEdges hc hk =>
    simp only [List.forall_mem_cons]
    exact ⟨isToken_of_isWord hc (by decide), isToken_of_isWord hk (by decide), hnil⟩

theorem store_of_matchNodes {cs : List Condition} (hlabel : (labels cs).length ≤ 1) :
    cs.foldl NodeFilter.store .default = ⟨(labels cs).head?, properties cs⟩ := by
  rw [foldl_nodeStore, getLast?_of_length_le_one hlabel]
  exact congrArg (NodeFilter.mk · _) (Option.or_none)

theorem store_of_matchEdges {cs : List Condition} (hlabel : (labels cs).length ≤ 1)
    (hweight : (weights cs).length ≤ 1) :
    cs.foldl EdgeFilter.store .default =
      ⟨(labels cs).head?, (weights cs).head?, properties cs⟩ := by
  rw [foldl_edgeStore, getLast?_of_length_le_one hlabel, getLast?_of_length_le_one hweight]
  exact congrArg₂ (EdgeFilter.mk · · _) Option.or_none Option.or_none

/-- Every spelling of a command, however its tokens are separated, is parsed to the command. -/
theorem parse_of_sentence (u : Unicode) {ts : List String} {cmd : QueryCommand} {text : String}
    (h : Sentence ts cmd) (htext : Separated ts text.toList) : parse u text = .ok cmd := by
  have hupper {kw t : String} (h : isWord kw t = true) (hkw : kw.toList.all isAscii = true)
      (hcap : String.ofList (kw.toList.map Char.toUpper) = kw) : u.toUppercase t = kw :=
    (u.toUppercase_of_eqIgnoreAsciiCase h hkw).trans hcap
  have htokens : tokenize text = ts := tokenizeFrom_separated htext (isToken_sentence h)
  rw [parse_eq_ok, htokens]
  cases h with
  | @matchNodes _ k ts _ hm hk hts hlabel hweight =>
    rw [← store_of_matchNodes hlabel]
    exact ⟨_, k :: ts, [], .select, (List.append_nil _).symm, hupper hm (by decide) (by decide),
      .matchNodes (hupper hk (by decide) (by decide)) (filter_of_where u hts fun _ => hweight)⟩
  | @matchEdges _ k ts _ hm hk hts hlabel hweight =>
    rw [← store_of_matchEdges hlabel hweight]
    exact ⟨_, k :: ts, [], .select, (List.append_nil _).symm, hupper hm (by decide) (by decide),
      .matchEdges (hupper hk (by decide) (by decide))
        (filter_of_where u hts fun h => by cases h)⟩
  | getNode hg hk id =>
    exact ⟨_, [_, _], [], .get, rfl, hupper hg (by decide) (by decide),
      .getNode (hupper hk (by decide) (by decide)) (refNumber_reference id).1⟩
  | getEdge hg hk id =>
    exact ⟨_, [_, _], [], .get, rfl, hupper hg (by decide) (by decide),
      .getEdge (hupper hk (by decide) (by decide)) (refNumber_reference id).2⟩
  | @traverse _ a _ kind ht ha hf id =>
    have ha : u.toUppercase a = kind.keyword := by
      cases kind <;> exact hupper ha (by decide) (by decide)
    exact ⟨_, [_, _, _], [], .traverse, rfl, hupper ht (by decide) (by decide),
      .traverse ha hf (refNumber_reference id).1⟩
  | path hp hf ht id id' =>
    exact ⟨_, [_, _, _, _], [], .path, rfl, hupper hp (by decide) (by decide),
      .path hf (refNumber_reference id).1 ht (refNumber_reference id').1⟩
  | countNodes hc hk =>
    exact ⟨_, [_], [], .count, rfl, hupper hc (by decide) (by decide),
      .countNodes (hupper hk (by decide) (by decide))⟩
  | countEdges hc hk =>
    exact ⟨_, [_], [], .count, rfl, hupper hc (by decide) (by decide),
      .countEdges (hupper hk (by decide) (by decide))⟩

/-- A text with a keyword as a key, and one within quotes. -/
theorem parse_where_quoted_and :
    parse .plain "match\tNODE  Where props.and != \"x AND y\"\n aNd LABEL = \"a b\"" =
      .ok (.matchNodes ⟨some "a b", [⟨"and", .notEq, .text "x AND y"⟩]⟩) := by
  have hand : ConditionSpelling ["props.and", "!=", "\"x AND y\""]
      (.property ⟨"and", .notEq, .text "x AND y"⟩) :=
    @ConditionSpelling.property "props." "and" "\"x AND y\"" .notEq _ (by decide) (by decide)
      (.text (s := "x AND y") (by decide))
  have hlabel : ConditionSpelling ["LABEL", "=", "\"a b\""] (.label "a b") :=
    .label (l := "a b") (by decide) (by decide)
  have hsentence := Sentence.matchNodes (m := "match") (k := "NODE") (by decide) (by decide)
    (.chain (w := "Where") (by decide) (.and (t := "aNd") hand (by decide) (.last hlabel)))
    (by decide) rfl
  have htext := @Separated.cons "match" _ ['\t'] _ (by decide) (by decide) <|
    @Separated.cons "NODE" _ [' ', ' '] _ (by decide) (by decide) <|
    @Separated.cons "Where" _ [' '] _ (by decide) (by decide) <|
    @Separated.cons "props.and" _ [' '] _ (by decide) (by decide) <|
    @Separated.cons "!=" _ [' '] _ (by decide) (by decide) <|
    @Separated.cons "\"x AND y\"" _ ['\n', ' '] _ (by decide) (by decide) <|
    @Separated.cons "aNd" _ [' '] _ (by decide) (by decide) <|
    @Separated.cons "LABEL" _ [' '] _ (by decide) (by decide) <|
    @Separated.cons "=" _ [' '] _ (by decide) (by decide) (.last "\"a b\"")
  exact parse_of_sentence .plain hsentence htext

end SimpleQuery
end AdGraphDb
