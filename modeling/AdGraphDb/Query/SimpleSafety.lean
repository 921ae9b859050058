import AdGraphDb.Query.SimpleText

/-!
# SimpleQuery never panics

Its slices lie between the quotes of a literal, or behind a word that is `props.` up to the
letter case.
-/

namespace AdGraphDb

/-- Beyond ASCII no letter has a small form that starts with one of `props.`. -/
def Unicode.KeepsProps (u : Unicode) : Prop :=
  ∀ c, isAscii c = false → ∃ d ds, u.lowercase c = d :: ds ∧ d ∉ "props.".toList

theorem Unicode.keepsProps_plain : Unicode.plain.KeepsProps := by
  intro c hc
  refine ⟨c, [], rfl, fun hmem => ?_⟩
  have hall : ∀ d ∈ "props.".toList, isAscii d = true := by decide
  cases hc.symm.trans (hall c hmem)

namespace SimpleQuery
open Parsing

variable {u : Unicode}

/-! ## Slices -/

/-- A text whose small form starts with such letters starts with as many ASCII characters. -/
theorem exists_ascii_of_prefix (hu : u.KeepsProps) {word : List Char}
    (hword : ∀ c ∈ word, c ∈ "props.".toList) {cs : List Char}
    (h : word <+: cs.flatMap fun c => if isAscii c then [c.toLower] else u.lowercase c) :
    ∃ start rest, cs = start ++ rest ∧ start.length = word.length ∧ start.all isAscii = true := by
  induction word generalizing cs with
  | nil => exact ⟨[], cs, rfl, rfl, rfl⟩
  | cons d word ih =>
    cases cs with
    | nil => cases List.prefix_nil.mp h
    | cons c cs =>
      rw [List.flatMap_cons] at h
      cases hc : isAscii c with
      | true =>
        rw [hc, if_pos rfl, List.singleton_append, List.cons_prefix_cons] at h
        obtain ⟨start, rest, rfl, hlen, hall⟩ :=
          ih (fun c hc => hword c (List.mem_cons_of_mem d hc)) h.2
        refine ⟨c :: start, rest, rfl, congrArg (· + 1) hlen, ?_⟩
        rw [List.all_cons, hc, hall, Bool.and_self]
      | false =>
        obtain ⟨e, es, hlower, he⟩ := hu c hc
        rw [hc, if_neg Bool.false_ne_true, hlower, List.cons_append, List.cons_prefix_cons] at h
        exact absurd (hword d List.mem_cons_self) (h.1 ▸ he)

/-- `&field[6..]` is in range. -/
theorem exists_sliceFrom? (hu : u.KeepsProps) {field : String}
    (h : startsWithStr (u.toLowercase field) "props." = true) :
    ∃ key, sliceFrom? field 6 = some key := by
  have hlower : (u.toLowercase field).toList =
      field.toList.flatMap fun c => if isAscii c then [c.toLower] else u.lowercase c :=
    String.toList_ofList
  rw [startsWithStr, hlower, List.isPrefixOf_iff_prefix] at h
  obtain ⟨start, rest, hfield, hlen, hall⟩ := exists_ascii_of_prefix hu (fun _ hc => hc) h
  have hsize : (String.ofList start).utf8ByteSize = 6 := by
    rw [utf8ByteSize_of_isAscii (by rwa [String.toList_ofList]), String.toList_ofList, hlen]
    rfl
  refine ⟨String.ofList rest, ?_⟩
  rw [← String.ofList_toList (s := field), hfield, String.ofList_append, ← hsize]
  exact sliceFrom?_append _ _

/-- A text in quotes, of which there are two. -/
theorem exists_quoted {tok : String} (hstart : startsWith tok '"' = true)
    (hend : endsWith tok '"' = true) (hsize : 2 ≤ tok.utf8ByteSize) : ∃ s, tok = quoted s := by
  have hhead : tok.toList.head? = some '"' := of_decide_eq_true hstart
  have hlast : tok.toList.getLast? = some '"' := of_decide_eq_true hend
  obtain ⟨body, hbody⟩ := List.getLast?_eq_some_iff.mp hlast
  cases body with
  | nil =>
    have htok : tok = "\"" := String.toList_inj.mp hbody
    rw [htok] at hsize
    exact absurd hsize (by decide)
  | cons c cs =>
    rw [hbody] at hhead
    have hc : c = '"' := Option.some.inj hhead
    refine ⟨String.ofList cs, String.toList_inj.mp ?_⟩
    rw [toList_quoted, hbody, hc, String.toList_ofList]
    rfl

theorem returns_unquote {tok : String} (hstart : startsWith tok '"' = true)
    (h : (endsWith tok '"' && decide (2 ≤ tok.utf8ByteSize)) = true) : Returns (unquote tok) := by
  rw [Bool.and_eq_true, decide_eq_true_eq] at h
  obtain ⟨s, rfl⟩ := exists_quoted hstart h.1 h.2
  rw [unquote_quoted]
  exact returns_ok s

theorem returns_reject {α : Type} (msg : String) :
    Returns (reject msg : Except (Stop GraphError) α) := returns_error _

/-! ## Literals -/

theorem returns_stringLit (tok : String) : Returns (stringLit tok) := by
  unfold stringLit
  split_ifs with h
  · rw [Bool.and_assoc, Bool.and_eq_true] at h
    exact returns_unquote h.1 h.2
  · exact returns_reject _

theorem returns_valueLit (tok : String) : Returns (valueLit tok) := by
  unfold valueLit
  split_ifs with hstart hend
  · intro s hs
    cases hq : unquote tok with
    | ok text =>
      rw [hq] at hs
      cases hs
    | error stop =>
      rw [hq] at hs
      cases hs
      exact returns_unquote hstart hend _ hq
  · exact returns_reject _
  · exact returns_ok _
  · exact returns_ok _
  · exact returns_ok _
  · split
    · exact returns_ok _
    · exact returns_reject _
  · split
    · exact returns_ok _
    · exact returns_reject _

theorem returns_comparisonOp (tok : String) : Returns (comparisonOp tok) := by
  unfold comparisonOp
  split <;> first | exact returns_ok _ | exact returns_reject _

theorem returns_weightLit (raw : String) : Returns (weightLit raw) := by
  unfold weightLit
  split
  · exact returns_ok _
  · exact returns_reject _

theorem safe_parseOp : Safe parseOp := Safe.nextBy _ returns_comparisonOp

theorem safe_keyword (u : Unicode) : Safe (keyword u) := Safe.nextBy _ fun _ => returns_ok _

theorem safe_expect (expected : String) : Safe (expect expected) := by
  apply Safe.nextBy
  intro tok
  split_ifs
  · exact returns_ok ()
  · exact returns_reject _

/-- A reference to a node or an edge. -/
theorem safe_parseRef {α : Type} (missing : GraphError) (letter : Char) (build : UInt64 → α)
    (invalid : String → String) :
    Safe (nextBy missing fun tok =>
      match refNumber letter tok with
      | some id => .ok (build id)
      | none => reject (invalid tok)) := by
  apply Safe.nextBy
  intro tok
  split
  · exact returns_ok _
  · exact returns_reject _

theorem safe_parseNodeRef : Safe parseNodeRef := safe_parseRef _ 'N' NodeId.mk _

theorem safe_parseEdgeRef : Safe parseEdgeRef := safe_parseRef _ 'E' EdgeId.mk _

/-! ## Filters and commands -/

theorem safe_condition (hu : u.KeepsProps) (weights : Bool) (unknown : String → String) :
    Safe (condition u weights unknown) := by
  refine (Safe.nextBy _ fun _ => returns_ok _).bind fun field => ?_
  split_ifs with hlabel hweight hprops
  · refine safe_parseOp.bind fun op => Safe.ite ?_ (Safe.fail _)
    exact (Safe.nextBy _ returns_stringLit).map _
  · exact safe_parseOp.bind fun op => (Safe.nextBy _ returns_weightLit).map _
  · obtain ⟨key, hkey⟩ := exists_sliceFrom? hu hprops
    rw [hkey]
    exact (Safe.return key).bind fun key => safe_parseOp.bind fun op =>
      (Safe.nextBy _ returns_valueLit).map _
  · exact Safe.fail _

theorem safe_chain (hu : u.KeepsProps) {F : Type} (weights : Bool) (unknown : String → String)
    (store : F → Condition → F) (filter : F) :
    Safe (chain (fun f => do return store f (← condition u weights unknown)) (isWord "AND")
      filter) := by
  refine Safe.chain (fun f => (safe_condition hu weights unknown).map (store f))
    (fun f => (reads_condition u weights unknown).map (store f)) ?_ filter
  rintro f rest _ ⟨c, hc, _⟩
  obtain ⟨field, ts, hts⟩ := hc.exists_cons
  cases hts

theorem safe_parseOptionalNodeFilter (hu : u.KeepsProps) : Safe (parseOptionalNodeFilter u) :=
  (Safe.read _).bind fun _ =>
    (Safe.next.bind fun _ => safe_chain hu false _ NodeFilter.store .default).ite (Safe.return _)

theorem safe_parseOptionalEdgeFilter (hu : u.KeepsProps) : Safe (parseOptionalEdgeFilter u) :=
  (Safe.read _).bind fun _ =>
    (Safe.next.bind fun _ => safe_chain hu true _ EdgeFilter.store .default).ite (Safe.return _)

theorem safe_parseMatch (hu : u.KeepsProps) : Safe (parseMatch u) := by
  apply (safe_keyword u).bind
  intro kind
  split
  · exact (safe_parseOptionalNodeFilter hu).map _
  · exact (safe_parseOptionalEdgeFilter hu).map _
  · exact Safe.fail _

theorem safe_parseGet (u : Unicode) : Safe (parseGet u) := by
  apply (safe_keyword u).bind
  intro kind
  split
  · exact safe_parseNodeRef.map _
  · exact safe_parseEdgeRef.map _
  · exact Safe.fail _

theorem safe_parseTraverse (u : Unicode) : Safe (parseTraverse u) := by
  refine (safe_keyword u).bind fun algo => (Safe.tryRead ?_).bind fun kind =>
    (safe_expect "FROM").bind fun _ => safe_parseNodeRef.map _
  unfold traversalKind
  split <;> first | exact returns_ok _ | exact returns_reject _

theorem safe_parsePath : Safe parsePath :=
  (safe_expect "FROM").bind fun _ => safe_parseNodeRef.bind fun _ =>
    (safe_expect "TO").bind fun _ => safe_parseNodeRef.map _

theorem safe_parseCount (u : Unicode) : Safe (parseCount u) := by
  apply (safe_keyword u).bind
  intro what
  split
  · exact Safe.return _
  · exact Safe.return _
  · exact Safe.fail _

theorem safe_parseCommand (hu : u.KeepsProps) : Safe (parseCommand u) := by
  apply (safe_keyword u).bind
  intro kw
  split
  · exact safe_parseMatch hu
  · exact safe_parseGet u
  · exact safe_parseTraverse u
  · exact safe_parsePath
  · exact safe_parseCount u
  · exact Safe.fail _

/-- Every text is answered with a command or an error. -/
theorem returns_parse (hu : u.KeepsProps) (query : String) : Returns (parse u query) :=
  safe_parseCommand hu ⟨tokenize query, 0⟩

/-- Whatever the text, its slices are in range and its loops end. -/
theorem parse_never_panics (u : Unicode) (hu : u.KeepsProps) (query : String) :
    Returns (parse u query) :=
  returns_parse hu query

/-- A condition on a property in capitals. -/
theorem parse_never_panics_props :
    Returns (parse .plain "MATCH NODE WHERE PROPS.k = \"\"") :=
  parse_never_panics .plain Unicode.keepsProps_plain _

end SimpleQuery
end AdGraphDb
