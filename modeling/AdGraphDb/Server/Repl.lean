import AdGraphDb.Server.Framing
import AdGraphDb.Server.Shared
import Mathlib.Data.List.Destutter
import Mathlib.Data.List.DropRight

/-!
# The remote command line

What is typed reaches the server as it was meant, and what is printed are the answers: the
language of the prompt travels with every query, and the status line is taken off again.
-/

namespace AdGraphDb

/-! ## Trimmed texts -/

/-- No white space at either end. -/
def Trimmed (s : String) : Prop :=
  (∀ c ∈ s.toList.head?, isWhitespace c = false) ∧ ∀ c ∈ s.toList.getLast?, isWhitespace c = false

instance (s : String) : Decidable (Trimmed s) :=
  decidable_of_iff ((s.toList.head?.all fun c => isWhitespace c == false) = true ∧
    (s.toList.getLast?.all fun c => isWhitespace c == false) = true) <| by
    simp only [Trimmed, Option.all_eq_true, beq_iff_eq, Option.mem_def]

theorem dropWhile_of_head? {α : Type} {is : α → Bool} {l : List α}
    (h : ∀ a ∈ l.head?, is a = false) : l.dropWhile is = l := by
  cases l with
  | nil => rfl
  | cons a l => rw [List.dropWhile_cons, h a rfl, if_neg Bool.false_ne_true]

theorem head?_dropWhile {α : Type} (is : α → Bool) (l : List α) :
    ∀ a ∈ (l.dropWhile is).head?, is a = false := by
  intro a ha
  have h := List.head?_dropWhile_not is l
  rw [ha] at h
  exact h

theorem trim_of_trimmed {s : String} (h : Trimmed s) : trim s = s := by
  have hlast : ∀ c ∈ s.toList.reverse.head?, isWhitespace c = false := by
    rw [List.head?_reverse]
    exact h.2
  rw [trim, dropWhile_of_head? h.1, dropWhile_of_head? hlast, List.reverse_reverse,
    String.ofList_toList]

theorem trimmed_trim (s : String) : Trimmed (trim s) := by
  have hlast := head?_dropWhile isWhitespace (s.toList.dropWhile isWhitespace).reverse
  unfold Trimmed trim
  rw [String.toList_ofList, List.head?_reverse, List.getLast?_reverse]
  refine ⟨fun c hc => ?_, hlast⟩
  -- what remains of the end is the end of what was left
  obtain ⟨dropped, hdropped⟩ := List.dropWhile_suffix isWhitespace
    (l := (s.toList.dropWhile isWhitespace).reverse)
  have hlast' : (dropped ++
      (s.toList.dropWhile isWhitespace).reverse.dropWhile isWhitespace).getLast? = _ :=
    List.getLast?_append
  rw [hdropped, List.getLast?_reverse, hc] at hlast'
  exact head?_dropWhile isWhitespace s.toList c hlast'

theorem mem_of_mem_trim {s : String} {c : Char} (h : c ∈ (trim s).toList) : c ∈ s.toList := by
  rw [trim, String.toList_ofList, List.mem_reverse] at h
  exact (List.dropWhile_suffix _).mem (List.mem_reverse.mp ((List.dropWhile_suffix _).mem h))

/-- A trimmed text behind a mark. -/
theorem trimmed_append {pre s : String} (hpre : Trimmed pre) (hne : pre ≠ "") (hs : Trimmed s) :
    Trimmed (pre ++ s) := by
  unfold Trimmed
  have hlist : pre.toList ≠ [] := fun h => hne (String.toList_eq_nil_iff.mp h)
  rw [String.toList_append, List.head?_append_of_ne_nil _ hlist, List.getLast?_append]
  refine ⟨hpre.1, fun c hc => ?_⟩
  cases hlast : s.toList.getLast? with
  | none =>
    rw [hlast] at hc
    exact hpre.2 c hc
  | some d =>
    rw [hlast] at hc
    exact hs.2 c (hlast ▸ hc)

theorem stripReturn_of_trimmed {s : String} (h : Trimmed s) : stripReturn s = s := by
  rw [stripReturn_eq_self, endsWith, decide_eq_false_iff_not]
  intro hr
  exact Bool.noConfusion (h.2 '\r' hr)

theorem newline_not_mem_of_mem_pieces (s : String) : ∀ p ∈ pieces s, '\n' ∉ p.toList := by
  have hcut (cs : List Char) : ∀ line : List Char, '\n' ∉ line →
      ∀ p ∈ (cut line cs).1 ++ [String.ofList (cut line cs).2], '\n' ∉ p.toList := by
    induction cs with
    | nil =>
      intro line hline p hp
      rw [cut, List.nil_append, List.mem_singleton] at hp
      rwa [hp, String.toList_ofList]
    | cons c cs ih =>
      intro line hline p hp
      rw [cut] at hp
      split_ifs at hp with hc
      · rw [List.cons_append] at hp
        rcases List.mem_cons.mp hp with rfl | hp
        · rwa [String.toList_ofList]
        · exact ih [] List.not_mem_nil p hp
      · refine ih (line ++ [c]) (fun hmem => ?_) p hp
        rcases List.mem_append.mp hmem with hmem | hmem
        · exact hline hmem
        · exact hc (List.mem_singleton.mp hmem).symm
  exact hcut s.toList [] List.not_mem_nil

/-! ## The prompt -/

namespace Cli
open Server

structure ReplState where
  lang : Lang
  showTiming : Bool
  /-- 0 is no limit. -/
  resultLimit : Nat
  history : List String
deriving DecidableEq

namespace ReplState

def new : ReplState := ⟨.simple, true, 50, []⟩

/-- An entry that repeats the last one is not kept, and no more than a hundred are. -/
def record (line : String) (state : ReplState) : ReplState :=
  if line ≠ "" ∧ state.history.getLast? ≠ some line then
    let history := state.history ++ [line]
    { state with history := if history.length > 100 then history.tail else history }
  else state

end ReplState

/-- What a line is answered with at the prompt itself. -/
inductive Notice where
  | language (lang : Lang)
  | timing (on : Bool)
  | limit (n : Nat)
  | history (entries : List (Nat × String))
  | clear
  | help
  | helpTopic (topic : String)
  | nothing
  | panicked
deriving DecidableEq

/-- The last twenty entries with their numbers. -/
def lastEntries (history : List String) : List (Nat × String) :=
  ((history.drop (history.length - 20)).zipIdx (history.length - 20 + 1)).map fun e => (e.2, e.1)

/-- `trim_start_matches` of a text, which is taken off as often as it is there. -/
def dropMatches (pat : List Char) : Nat → List Char → List Char
  | 0, cs => cs
  | n + 1, cs => if pat.isPrefixOf cs then dropMatches pat n (cs.drop pat.length) else cs

def trimStartMatches (s pat : String) : String :=
  String.ofList (dropMatches pat.toList s.toList.length s.toList)

/-- The lines that the prompt takes for itself. -/
inductive MetaCommand where
  | use (lang : Lang)
  | lang
  | setTime (on : Bool)
  | time
  | history
  | clear
  | help
  | helpTopic (topic : String)
  | limit
  | setLimit (n : Nat)
  | nothing
  | panicked
deriving DecidableEq

/-- The match of `handle_meta_remote_local`. -/
def metaCommand (u : Unicode) (line : String) : Option MetaCommand :=
  let lower := trim (u.toLowercase line)
  match lower with
  | ":use simple" | ":lang simple" => some (.use .simple)
  | ":use cypher" | ":lang cypher" => some (.use .cypher)
  | ":lang" => some .lang
  | ":time on" => some (.setTime true)
  | ":time off" => some (.setTime false)
  | ":time" => some .time
  | ":history" => some .history
  | ":clear" | ":cls" => some .clear
  | ":help" => some .help
  | _ =>
    if startsWithStr lower ":help " then
      match sliceFrom? line 6 with
      | some topic => some (.helpTopic topic)
      | none => some .panicked
    else if startsWithStr lower ":limit" then
      let n := trim (trimStartMatches lower ":limit")
      if n = "" then some .limit
      else
        match parseU64 n with
        | some limit => some (.setLimit limit.toNat)
        | none => some .nothing
    else none

def MetaCommand.run (state : ReplState) : MetaCommand → Notice × ReplState
  | use l => (.language l, { state with lang := l })
  | lang => (.language state.lang, state)
  | setTime on => (.timing on, { state with showTiming := on })
  | time => (.timing state.showTiming, state)
  | history => (.history (lastEntries state.history), state)
  | clear => (.clear, state)
  | help => (.help, state)
  | helpTopic topic => (.helpTopic topic, state)
  | limit => (.limit state.resultLimit, state)
  | setLimit n => (.limit n, { state with resultLimit := n })
  | nothing => (.nothing, state)
  | panicked => (.panicked, state)

/-- Whether the line is taken, and what it changes. -/
def handleMetaRemoteLocal (u : Unicode) (line : String) (state : ReplState) :
    Option (Notice × ReplState) := (metaCommand u line).map fun c => c.run state

def handleQuit (u : Unicode) (line : String) : Bool :=
  decide (u.toLowercase line = ":quit") || decide (u.toLowercase line = ":exit")

/-- The same code as that of the server. -/
def splitLangPrefix (line : String) (default : Lang) : Lang × String :=
  Server.parseLangPrefix line default

/-- What the prompt sends. -/
inductive Sent where
  | query (lang : Lang) (text : String)
  | quit
deriving DecidableEq

def Sent.wire : Sent → String
  | query .simple text => "simple:" ++ text
  | query .cypher text => "cypher:" ++ text
  | quit => ":quit"

/-- The loop of `run_remote` over the lines typed: what is sent, and the state at the end. -/
def typed (u : Unicode) : List String → ReplState → List Sent × ReplState
  | [], state => ([], state)
  | raw :: rest, state =>
    let input := trim raw
    if input = "" then typed u rest state
    else
      let state := state.record input
      match handleMetaRemoteLocal u input state with
      | some (.panicked, state) => ([], state)
      | some (_, state) => typed u rest state
      | none =>
        if handleQuit u input then ([.quit], state)
        else
          let (lang, query) := splitLangPrefix input state.lang
          (.query lang query :: (typed u rest state).1, (typed u rest state).2)

/-- The lines on the wire. -/
def transmitted (sends : List Sent) : String := String.join (sends.map fun s => s.wire ++ "\n")

/-! ## What the server reads -/

/-- What a line on the wire is meant to do. -/
def Sent.deed : Sent → Deed
  | query lang text => .ask lang text
  | quit => .say .bye

/-- A query that fits on a line. -/
def Sent.Fits : Sent → Prop
  | query _ text => Trimmed text ∧ '\n' ∉ text.toList
  | quit => True

theorem trimmed_wire {s : Sent} (h : s.Fits) : Trimmed s.wire := by
  cases s with
  | quit => decide
  | query lang text => cases lang <;> exact trimmed_append (by decide) (by decide) h.1

theorem newline_not_mem_wire {s : Sent} (h : s.Fits) : '\n' ∉ s.wire.toList := by
  cases s with
  | quit => decide
  | query lang text =>
    cases lang <;>
      exact fun hmem => (List.mem_append.mp (String.toList_append ▸ hmem)).elim
        (fun hpre => absurd hpre (by decide)) h.2

/-- Each transmission is a line, and comes as it was sent. -/
theorem receive_transmitted {sends : List Sent} (h : ∀ s ∈ sends, s.Fits) :
    receive (asBytes (transmitted sends)) = sends.map fun s => some s.wire := by
  induction sends with
  | nil => rfl
  | cons s sends ih =>
    have hs := h s List.mem_cons_self
    have hn : asBytes "\n" = [newline] := by decide
    have hline : '\n' ∉ s.wire.toList := newline_not_mem_wire hs
    have hlines := lines_asBytes_line hline (asBytes (transmitted sends))
    rw [String.ofList_toList, stripReturn_of_trimmed (trimmed_wire hs)] at hlines
    have hbytes : asBytes (transmitted (s :: sends)) =
        asBytes s.wire ++ newline :: asBytes (transmitted sends) := by
      rw [transmitted, List.map_cons, String.join_cons, asBytes_append, asBytes_append, hn,
        List.append_assoc]
      rfl
    rw [receive, hbytes, hlines, List.map_cons, List.map_cons, fromUTF8?_asBytes, ← receive,
      ih fun s hs => h s (List.mem_cons_of_mem _ hs)]

/-- The language in front of a query is the one it was sent in. -/
theorem parseLangPrefix_wire {lang : Lang} {text : String} (h : Trimmed text) (default : Lang) :
    parseLangPrefix (Sent.query lang text).wire default = (lang, text) := by
  have hstrip (pre : String) : stripPrefix (pre ++ text) pre = some text := by
    have hpre : startsWithStr (pre ++ text) pre = true := by
      rw [startsWithStr, String.toList_append, List.isPrefixOf_iff_prefix]
      exact List.prefix_append _ _
    rw [stripPrefix, if_pos hpre, String.toList_append, List.drop_left, String.ofList_toList]
  have hother (pre : String) (hpre : startsWithStr ("cypher:" ++ text) pre = false) :
      stripPrefix ("cypher:" ++ text) pre = none := by
    rw [stripPrefix, hpre, if_neg Bool.false_ne_true]
  cases lang with
  | simple =>
    change parseLangPrefix ("simple:" ++ text) default = _
    rw [parseLangPrefix, hstrip, Option.some_or]
    dsimp only
    rw [trim_of_trimmed h]
  | cypher =>
    have hlist : ("cypher:" ++ text).toList = 'c' :: ("ypher:".toList ++ text.toList) := by
      rw [String.toList_append]
      rfl
    change parseLangPrefix ("cypher:" ++ text) default = _
    rw [parseLangPrefix, hother "simple:" (by rw [startsWithStr, hlist]; rfl),
      hother "simple: " (by rw [startsWithStr, hlist]; rfl), Option.none_or, hstrip, Option.some_or]
    dsimp only
    rw [trim_of_trimmed h]

/-- A query on the wire is no command of the server. -/
theorem no_command_wire (u : Unicode) (lang : Lang) (text : String) :
    (Sent.query lang text).wire ≠ "" ∧
      (eqIgnoreAsciiCase (Sent.query lang text).wire ":quit" ||
        eqIgnoreAsciiCase (Sent.query lang text).wire ":exit") = false ∧
      parseLangSwitch u (Sent.query lang text).wire = none := by
  -- its first letter is that of the language
  have hlist : ∃ c cs, (Sent.query lang text).wire.toList = c :: cs ∧ isAscii c = true ∧
      c.toLower ≠ ':' := by
    cases lang with
    | simple => exact ⟨'s', "imple:".toList ++ text.toList, String.toList_append, rfl, by decide⟩
    | cypher => exact ⟨'c', "ypher:".toList ++ text.toList, String.toList_append, rfl, by decide⟩
  obtain ⟨c, cs, hlist, hascii, hc⟩ := hlist
  refine ⟨fun h => ?_, ?_, ?_⟩
  · rw [h] at hlist
    cases hlist
  · rw [Bool.or_eq_false_iff]
    constructor <;>
    · rw [eqIgnoreAsciiCase, hlist, decide_eq_false_iff_not]
      exact fun h => hc (List.head_eq_of_cons_eq h)
  · have hlower : (u.toLowercase (Sent.query lang text).wire).toList.head? ≠ some ':' := by
      rw [Unicode.toLowercase, String.toList_ofList, hlist, List.flatMap_cons, hascii, if_pos rfl]
      exact fun h => hc (Option.some.inj h)
    unfold parseLangSwitch
    split
    all_goals first | rfl | exact absurd (by rename_i h; rw [h]; rfl) hlower

/-- The server understands each transmission as it was meant, whatever language its connection
is in. -/
theorem script_wires (u : Unicode) {sends : List Sent} (h : ∀ s ∈ sends, s.Fits)
    (hquit : ∀ s ∈ sends.dropLast, s ≠ .quit) (lang : Lang) :
    script u (sends.map fun s => some s.wire) lang = sends.map Sent.deed := by
  induction sends with
  | nil => rfl
  | cons s sends ih =>
    have hs := h s List.mem_cons_self
    rw [List.map_cons, script]
    dsimp only
    rw [trim_of_trimmed (trimmed_wire hs)]
    cases s with
    | quit =>
      -- the last one
      have hnil : sends = [] := by
        by_contra hne
        rw [List.dropLast_cons_of_ne_nil hne] at hquit
        exact hquit .quit List.mem_cons_self rfl
      subst hnil
      rfl
    | query l text =>
      obtain ⟨hne, hcommand, hswitch⟩ := no_command_wire u l text
      rw [if_neg hne, hcommand, if_neg Bool.false_ne_true, hswitch]
      dsimp only
      rw [parseLangPrefix_wire hs.1, ih (fun s hs => h s (List.mem_cons_of_mem _ hs)) fun s hs => ?_]
      · rfl
      · apply hquit
        rw [List.dropLast_cons_of_ne_nil (List.ne_nil_of_mem (List.mem_of_mem_dropLast hs))]
        exact List.mem_cons_of_mem _ hs

/-! ## What is typed -/

theorem mem_of_stripPrefix {line pre rest : String} (h : stripPrefix line pre = some rest)
    {c : Char} (hc : c ∈ rest.toList) : c ∈ line.toList := by
  unfold stripPrefix at h
  split_ifs at h
  rw [← Option.some.inj h, String.toList_ofList] at hc
  exact List.mem_of_mem_drop hc

/-- The query of a line is a part of the line. -/
theorem fits_splitLangPrefix {line : String} (hline : Trimmed line ∧ '\n' ∉ line.toList)
    (default : Lang) : (Sent.query (splitLangPrefix line default).1
      (splitLangPrefix line default).2).Fits := by
  have hrest {pre pre' rest : String}
      (h : (stripPrefix line pre).or (stripPrefix line pre') = some rest) :
      Trimmed (trim rest) ∧ '\n' ∉ (trim rest).toList := by
    refine ⟨trimmed_trim rest, fun hmem => hline.2 ?_⟩
    rcases Option.or_eq_some_iff.mp h with h | ⟨-, h⟩
    · exact mem_of_stripPrefix h (mem_of_mem_trim hmem)
    · exact mem_of_stripPrefix h (mem_of_mem_trim hmem)
  unfold splitLangPrefix parseLangPrefix
  split
  · rename_i rest h
    exact hrest h
  · split
    · rename_i rest h
      exact hrest h
    · exact hline

/-- Queries that fit on a line, of which only the last may be the farewell. -/
theorem typed_fits (u : Unicode) {raws : List String} (h : ∀ raw ∈ raws, '\n' ∉ raw.toList)
    (state : ReplState) : (∀ s ∈ (typed u raws state).1, s.Fits) ∧
      ∀ s ∈ (typed u raws state).1.dropLast, s ≠ .quit := by
  induction raws generalizing state with
  | nil => exact ⟨List.forall_mem_nil _, List.forall_mem_nil _⟩
  | cons raw rest ih =>
    have hrest := ih fun raw hraw => h raw (List.mem_cons_of_mem _ hraw)
    have hinput : Trimmed (trim raw) ∧ '\n' ∉ (trim raw).toList :=
      ⟨trimmed_trim raw, fun hmem => h raw List.mem_cons_self (mem_of_mem_trim hmem)⟩
    rw [typed]
    dsimp only
    by_cases hempty : trim raw = ""
    · rw [if_pos hempty]
      exact hrest state
    rw [if_neg hempty]
    cases handleMetaRemoteLocal u (trim raw) (state.record (trim raw)) with
    | some taken =>
      obtain ⟨notice, state⟩ := taken
      cases notice
      case panicked => exact ⟨List.forall_mem_nil _, List.forall_mem_nil _⟩
      all_goals exact hrest state
    | none =>
      dsimp only
      split_ifs
      · exact ⟨List.forall_mem_singleton.mpr trivial, List.forall_mem_nil _⟩
      obtain ⟨hfits, hlast⟩ := hrest (state.record (trim raw))
      refine ⟨List.forall_mem_cons.mpr ⟨fits_splitLangPrefix hinput _, hfits⟩, fun s hs => ?_⟩
      cases hsends : (typed u rest (state.record (trim raw))).1 with
      | nil =>
        rw [hsends] at hs
        cases hs
      | cons t sends =>
        rw [hsends] at hs hlast
        rw [List.dropLast_cons_of_ne_nil (List.cons_ne_nil _ _)] at hs
        rcases List.mem_cons.mp hs with rfl | hs
        · exact fun h => by cases h
        · exact hlast s hs

/-- Whatever is typed: the server does with the lines that arrive what was meant by them, in the
language of the prompt at the time. -/
theorem typed_understood (u : Unicode) (stdin : String) (state : ReplState) (lang : Lang) :
    script u (receive (asBytes (transmitted (typed u (pieces stdin) state).1))) lang =
      (typed u (pieces stdin) state).1.map Sent.deed := by
  obtain ⟨hfits, hquit⟩ := typed_fits u (newline_not_mem_of_mem_pieces stdin) state
  rw [receive_transmitted hfits, script_wires u hfits hquit]

/-! ## What is printed -/

/-- The response without its status line. -/
def body (response : String) : String :=
  trimStartMatches (trimStartMatches response "OK\n") "ERR\n"

/-- A text that is not taken for a status line. -/
def NoStatus (text : String) : Prop :=
  "OK\n".toList.isPrefixOf text.toList = false ∧ "ERR\n".toList.isPrefixOf text.toList = false

theorem noStatus_of_head {text : String} {c : Char} {cs : List Char} (h : text.toList = c :: cs)
    (hO : c ≠ 'O') (hE : c ≠ 'E') : NoStatus text := by
  unfold NoStatus
  rw [h]
  constructor
  · change ('O' == c && _) = false
    rw [beq_eq_false_iff_ne.mpr (Ne.symm hO), Bool.false_and]
  · change ('E' == c && _) = false
    rw [beq_eq_false_iff_ne.mpr (Ne.symm hE), Bool.false_and]

theorem dropMatches_of_not {pat cs : List Char} (h : pat.isPrefixOf cs = false) (n : Nat) :
    dropMatches pat n cs = cs := by
  cases n with
  | zero => rfl
  | succ n => rw [dropMatches, h, if_neg Bool.false_ne_true]

theorem trimStartMatches_of_not {text pat : String} (h : pat.toList.isPrefixOf text.toList = false) :
    trimStartMatches text pat = text := by
  rw [trimStartMatches, dropMatches_of_not h, String.ofList_toList]

theorem trimStartMatches_append {text pat : String} (hne : pat ≠ "")
    (h : pat.toList.isPrefixOf text.toList = false) :
    trimStartMatches (pat ++ text) pat = text := by
  have hpre : pat.toList.isPrefixOf (pat.toList ++ text.toList) = true :=
    List.isPrefixOf_iff_prefix.mpr (List.prefix_append _ _)
  cases hpat : pat.toList with
  | nil => exact absurd (String.toList_eq_nil_iff.mp hpat) hne
  | cons c cs =>
    rw [trimStartMatches, String.toList_append, hpat, List.cons_append, List.length_cons,
      dropMatches, ← List.cons_append, ← hpat, hpre, if_pos rfl, List.drop_left,
      dropMatches_of_not h, String.ofList_toList]

theorem body_ok {text : String} (h : NoStatus text) : body ("OK\n" ++ text) = text := by
  rw [body, trimStartMatches_append (by decide) h.1, trimStartMatches_of_not h.2]

theorem body_err {text : String} (h : NoStatus text) : body ("ERR\n" ++ text) = text := by
  have hok : "OK\n".toList.isPrefixOf ("ERR\n" ++ text).toList = false := by
    rw [String.toList_append]
    rfl
  rw [body, trimStartMatches_of_not hok, trimStartMatches_append (by decide) h.2]

section

variable (fmt : FloatFormat)

/-- What a reply says behind its status. -/
def shown : Server.Reply → String
  | .bye => "Bye!"
  | .language lang => "Language: " ++ lang.name
  | .answer ord (.ok result) => result.display fmt ord
  | .answer _ (.error e) => e.display

theorem noStatus_append {head : String} (h : NoStatus head) (hlen : 4 ≤ head.toList.length)
    (text : String) : NoStatus (head ++ text) := by
  have hstart {pat : String} (hpat : pat.toList.length ≤ 4)
      (h : pat.toList.isPrefixOf head.toList = false) :
      pat.toList.isPrefixOf (head ++ text).toList = false := by
    rw [String.toList_append, Bool.eq_false_iff, ne_eq, List.isPrefixOf_iff_prefix]
    intro hp
    rw [Bool.eq_false_iff, ne_eq, List.isPrefixOf_iff_prefix] at h
    exact h (List.prefix_of_prefix_length_le hp (List.prefix_append _ _) (hpat.trans hlen))
  exact ⟨hstart (by decide) h.1, hstart (by decide) h.2⟩

instance (text : String) : Decidable (NoStatus text) := inferInstanceAs (Decidable (_ ∧ _))

theorem noStatus_bracket (text : String) : NoStatus ("(" ++ text) :=
  noStatus_of_head (String.toList_append : _ = '(' :: text.toList) (by decide) (by decide)

theorem noStatus_node (ord : HashOrder) (n : Node) : NoStatus (n.display fmt ord) := by
  unfold Node.display
  rw [String.append_assoc, String.append_assoc, String.append_assoc, String.append_assoc]
  exact noStatus_bracket _

theorem noStatus_edge (e : Edge) : NoStatus e.display := by
  unfold Edge.display
  simp only [String.append_assoc]
  exact noStatus_bracket _

theorem noStatus_result (ord : HashOrder) (result : QueryResult) :
    NoStatus (result.display fmt ord) := by
  cases result with
  | nodes ns =>
    change NoStatus ("Nodes (" ++ _ ++ _ ++ _)
    rw [String.append_assoc, String.append_assoc]
    exact noStatus_append (by decide) (by decide) _
  | edges es =>
    change NoStatus ("Edges (" ++ _ ++ _ ++ _)
    rw [String.append_assoc, String.append_assoc]
    exact noStatus_append (by decide) (by decide) _
  | traversal ids =>
    change NoStatus ("Traversal [" ++ _ ++ _ ++ _)
    rw [String.append_assoc, String.append_assoc]
    exact noStatus_append (by decide) (by decide) _
  | path ids totalWeight =>
    change NoStatus ("Path (" ++ _ ++ _ ++ _)
    rw [String.append_assoc, String.append_assoc]
    exact noStatus_append (by decide) (by decide) _
  | singleNode node =>
    cases node with
    | some node => exact noStatus_node fmt ord node
    | none =>
      change NoStatus "(not found)"
      decide
  | singleEdge edge =>
    cases edge with
    | some edge => exact noStatus_edge edge
    | none =>
      change NoStatus "(not found)"
      decide
  | count n => exact noStatus_append (by decide) (by decide) _
  | empty =>
    change NoStatus "(empty)"
    decide

theorem noStatus_error (e : GraphError) : NoStatus e.display := by
  cases e <;> unfold GraphError.display <;> simp only [String.append_assoc] <;>
    exact noStatus_append (by decide) (by decide) _

/-- The status line, and nothing else, is taken off. -/
theorem body_text (r : Server.Reply) : body (r.text fmt) = shown fmt r := by
  cases r with
  | bye => exact @body_ok "Bye!" (by decide)
  | language lang =>
    have h : NoStatus ("Language: " ++ lang.name) := noStatus_append (by decide) (by decide) _
    have htext : Server.Reply.text fmt (.language lang) = "OK\n" ++ ("Language: " ++ lang.name) := by
      cases lang <;> rfl
    rw [htext, body_ok h]
    rfl
  | answer ord result =>
    cases result with
    | ok result => exact body_ok (noStatus_result fmt ord result)
    | error e => exact body_err (noStatus_error e)

/-- What the prompt prints for its queries; the farewell of the server is not printed. -/
def printed : List Sent → List (Option String) → List String
  | [], _ => []
  | .quit :: _, _ => []
  | .query _ _ :: sends, stream =>
    body (readUntilEnd stream).1 :: printed sends (readUntilEnd stream).2

theorem printed_sent {sends : List Sent} (hquit : ∀ s ∈ sends.dropLast, s ≠ .quit)
    {as : List (HashOrder × Except GraphError QueryResult)}
    (hlen : as.length = (queries (sends.map Sent.deed)).length)
    (hclean : ∀ r ∈ written (sends.map Sent.deed) as, r.isClean = true) :
    printed sends (receive (asBytes (Server.sent fmt (written (sends.map Sent.deed) as)))) =
      as.map fun a => shown fmt (.answer a.1 a.2) := by
  induction sends generalizing as with
  | nil => rw [List.eq_nil_of_length_eq_zero hlen]; rfl
  | cons s sends ih =>
    cases s with
    | quit =>
      have hnil : sends = [] := by
        by_contra hne
        rw [List.dropLast_cons_of_ne_nil hne] at hquit
        exact hquit .quit List.mem_cons_self rfl
      subst hnil
      rw [List.eq_nil_of_length_eq_zero hlen]
      rfl
    | query lang text =>
      cases as with
      | nil => cases hlen
      | cons a as =>
        rw [List.map_cons, Sent.deed, written] at hclean ⊢
        rw [List.forall_mem_cons] at hclean
        -- the first response ends where the next one starts
        have hread := (readUntilEnd_framed_iff ((Server.Reply.answer a.1 a.2).text fmt)
          (asBytes (Server.sent fmt (written (sends.map Sent.deed) as)))).mpr
          (List.all_eq_true.mp (((Server.Reply.answer a.1 a.2).all_pieces fmt).trans hclean.1))
        rw [receive_sent_cons, printed, hread]
        dsimp only
        rw [body_text, ih ?_ (Nat.succ.inj hlen) hclean.2]
        · rfl
        · intro s hs
          apply hquit
          rw [List.dropLast_cons_of_ne_nil (List.ne_nil_of_mem (List.mem_of_mem_dropLast hs))]
          exact List.mem_cons_of_mem _ hs

variable {D : Type}

theorem length_answers
    (executeQuery : HashOrder → Lang → String → Action GraphError D QueryResult) (ord : HashOrder)
    (qs : List (Lang × String)) (db : D) : (answers executeQuery ord qs db).length = qs.length := by
  induction qs generalizing ord db with
  | nil => rfl
  | cons q qs ih => exact congrArg (· + 1) (ih _ _)

/-- From the prompt to the server and back: for each query that was typed, in its language, the
result is printed as it is displayed, unless a text in an answer breaks its frame. -/
theorem remote_prints_answers (u : Unicode)
    (executeQuery : HashOrder → Lang → String → Action GraphError D QueryResult) (ord : HashOrder)
    (stdin : String) (state : ReplState) (db : D)
    (hclean : ∀ r ∈ serve u executeQuery ord
      (receive (asBytes (transmitted (typed u (pieces stdin) state).1))) .simple db,
      r.isClean = true) :
    printed (typed u (pieces stdin) state).1 (afterResponse (receive (asBytes
        (handleConnection fmt u executeQuery ord
          (receive (asBytes (transmitted (typed u (pieces stdin) state).1))) db)))) =
      (answers executeQuery ord (queries ((typed u (pieces stdin) state).1.map Sent.deed)) db).map
        fun a => shown fmt (.answer a.1 a.2) := by
  obtain ⟨hfits, hquit⟩ := typed_fits u (newline_not_mem_of_mem_pieces stdin) state
  generalize (typed u (pieces stdin) state).1 = sends at hfits hquit hclean ⊢
  rw [serve_eq_written, receive_transmitted hfits, script_wires u hfits hquit] at hclean
  have hbanner : ∀ p ∈ pieces Server.banner, isPlain p = true := by decide
  rw [receive_transmitted hfits, handleConnection, asBytes_append, afterResponse,
    (readUntilEnd_framed_iff Server.banner _).mpr hbanner, serve_eq_written,
    script_wires u hfits hquit]
  exact printed_sent fmt hquit (length_answers _ _ _ _) hclean

end

/-- A prompt that changes its language between two queries. -/
theorem remote_prints_answers_counts :
    let executeQuery : HashOrder → Lang → String → Action GraphError Nat QueryResult :=
      fun _ _ _ n => (.ok (.count n), n + 1)
    let sends := (typed .plain (pieces "COUNT NODES\n\n:use cypher\n COUNT EDGES\n:quit\n") .new).1
    printed sends (afterResponse (receive (asBytes (handleConnection zeroFormat .plain executeQuery
        .sorted (receive (asBytes (transmitted sends))) 1)))) = ["Count: 1", "Count: 2"] := by
  intro executeQuery sends
  exact (remote_prints_answers zeroFormat .plain executeQuery .sorted _ .new 1
    (by decide +kernel)).trans (by decide +kernel)

/-! ## The history -/

theorem destutter'_append (xs : List String) (a x : String) :
    (xs.destutter' (· ≠ ·) a).getLast? = (a :: xs).getLast? ∧
      (xs ++ [x]).destutter' (· ≠ ·) a = xs.destutter' (· ≠ ·) a ++
        if (a :: xs).getLast? = some x then [] else [x] := by
  induction xs generalizing a with
  | nil =>
    refine ⟨rfl, ?_⟩
    rw [List.nil_append, List.destutter'_cons, List.destutter'_nil, List.destutter'_nil,
      List.getLast?_singleton]
    simp only [Option.some.injEq, ite_not]
    split_ifs <;> rfl
  | cons b xs ih =>
    obtain ⟨hlast, happend⟩ := ih b
    rw [List.cons_append, List.destutter'_cons, List.destutter'_cons, List.getLast?_cons_cons]
    by_cases hab : a = b
    · subst hab
      simpa using ih a
    · rw [if_pos hab, if_pos hab, happend]
      refine ⟨?_, rfl⟩
      rw [← hlast, List.getLast?_cons_of_ne_nil (List.destutter'_ne_nil xs _)]

/-- A new line at the end of the history without repetitions. -/
theorem destutter_append (xs : List String) (x : String) :
    (xs ++ [x]).destutter (· ≠ ·) =
      if (xs.destutter (· ≠ ·)).getLast? = some x then xs.destutter (· ≠ ·)
      else xs.destutter (· ≠ ·) ++ [x] := by
  cases xs with
  | nil => rfl
  | cons a xs =>
    obtain ⟨hlast, happend⟩ := destutter'_append xs a x
    rw [List.cons_append, List.destutter_cons', List.destutter_cons', happend, hlast]
    split_ifs
    · exact List.append_nil _
    · rfl

/-- The history that is kept of lines. -/
def kept (lines : List String) : List String := (lines.destutter (· ≠ ·)).rtake 100

theorem record_kept {state : ReplState} {lines : List String} (h : state.history = kept lines)
    {line : String} (hne : line ≠ "") :
    (state.record line).history = kept (lines ++ [line]) := by
  have hlast : state.history.getLast? = (lines.destutter (· ≠ ·)).getLast? := by
    rw [h, kept, List.rtake, List.getLast?_drop]
    split_ifs with hlen
    · rw [List.eq_nil_of_length_eq_zero (by omega : (lines.destutter (· ≠ ·)).length = 0)]
      rfl
    · rfl
  unfold ReplState.record
  rw [hlast, kept, destutter_append]
  generalize hd : lines.destutter (· ≠ ·) = d at h
  have hhist : state.history = d.drop (d.length - 100) := by
    rw [h, kept, hd, List.rtake]
  by_cases hsame : d.getLast? = some line
  · rw [if_neg fun hc => hc.2 hsame, if_pos hsame]
    exact hhist
  rw [if_pos ⟨hne, hsame⟩, if_neg hsame]
  change (if (state.history ++ [line]).length > 100 then _ else _) = _
  rw [hhist, List.rtake, List.length_append, List.length_append, List.length_drop,
    List.length_singleton]
  split_ifs with hlen
  · -- a hundred entries are there already
    rw [List.tail_append_of_ne_nil, List.tail_drop, List.drop_append_of_le_length (by omega)]
    · congr 2
      omega
    · rw [ne_eq, List.drop_eq_nil_iff]
      omega
  · rw [List.drop_append_of_le_length (by omega)]
    congr 2
    omega

/-- The lines that are entered, up to the one that ends the prompt. -/
def entered (u : Unicode) : List String → List String
  | [] => []
  | raw :: rest =>
    let input := trim raw
    if input = "" then entered u rest
    else
      match metaCommand u input with
      | some .panicked => [input]
      | some _ => input :: entered u rest
      | none => if handleQuit u input then [input] else input :: entered u rest

theorem MetaCommand.run_history (state : ReplState) (c : MetaCommand) :
    (c.run state).2.history = state.history := by
  cases c <;> rfl

theorem typed_kept (u : Unicode) (raws lines : List String) {state : ReplState}
    (h : state.history = kept lines) :
    (typed u raws state).2.history = kept (lines ++ entered u raws) := by
  induction raws generalizing state lines with
  | nil =>
    rw [typed, entered, List.append_nil]
    exact h
  | cons raw rest ih =>
    rw [typed, entered]
    dsimp only
    by_cases hempty : trim raw = ""
    · rw [if_pos hempty, if_pos hempty]
      exact ih lines h
    rw [if_neg hempty, if_neg hempty]
    have hrecord := record_kept h hempty
    rw [handleMetaRemoteLocal]
    cases metaCommand u (trim raw) with
    | some c =>
      have hrun := (c.run_history (state.record (trim raw))).trans hrecord
      cases c
      case panicked => exact hrecord
      all_goals
        rw [List.append_cons]
        exact ih _ hrun
    | none =>
      dsimp only [Option.map_none]
      split_ifs
      · exact hrecord
      · rw [List.append_cons]
        exact ih _ hrecord

/-- The history of a session: the last hundred of the lines entered, where a line that repeats
the one before it does not count. -/
theorem history_of_session (u : Unicode) (stdin : String) :
    (typed u (pieces stdin) .new).2.history =
      ((entered u (pieces stdin)).destutter (· ≠ ·)).rtake 100 := by
  exact typed_kept u (pieces stdin) [] rfl

end Cli

end AdGraphDb
