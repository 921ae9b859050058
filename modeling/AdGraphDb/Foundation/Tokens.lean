import AdGraphDb.Foundation.Action

/-!
# Parsers over a list of tokens

A recursive-descent parser keeps its tokens and a position. `Reads` says which tokens a
method accepts, with what result and in front of which rest; it is exact, and closed
under sequencing, lookahead and chains that a separator holds together.
-/

namespace AdGraphDb

/-- Why a computation ends without a result. `panicked` stands for an index, a slice or an
`unwrap` out of range. -/
inductive Stop (ε : Type) where
  | error (e : ε)
  | panicked
  | outOfFuel
deriving DecidableEq

structure Parser (τ : Type) where
  tokens : List τ
  pos : Nat

abbrev Parsing (ε τ α : Type) : Type := Action (Stop ε) (Parser τ) α

variable {ε τ α β γ F : Type}

namespace Parser

def peek (p : Parser τ) : Option τ := p.tokens[p.pos]?

def advance (p : Parser τ) (n : Nat) : Parser τ := { p with pos := p.pos + n }

/-- What is left to read. -/
def rest (p : Parser τ) : List τ := p.tokens.drop p.pos

theorem peek_eq (p : Parser τ) : p.peek = p.rest.head? := by
  rw [peek, rest, List.head?_drop]

theorem advance_advance (p : Parser τ) (m n : Nat) :
    (p.advance m).advance n = p.advance (m + n) := by
  rw [advance, advance, advance, Nat.add_assoc]

theorem rest_advance {p : Parser τ} {ts rest : List τ} (h : p.rest = ts ++ rest) :
    (p.advance ts.length).rest = rest := by
  rw [Parser.rest, advance, ← List.drop_drop, ← Parser.rest, h, List.drop_left]

theorem rest_advance_one {p : Parser τ} {t : τ} {rest : List τ} (h : p.rest = t :: rest) :
    (p.advance 1).rest = rest := by
  have h' : p.rest = [t] ++ rest := h
  exact rest_advance h'

theorem rest_length_advance_le (p : Parser τ) (n : Nat) :
    (p.advance n).rest.length ≤ p.rest.length := by
  rw [rest, advance, ← List.drop_drop, List.length_drop]
  exact Nat.sub_le _ _

theorem rest_length_le (p : Parser τ) : p.rest.length ≤ p.tokens.length := by
  rw [rest, List.length_drop]
  exact Nat.sub_le _ _

end Parser

namespace Parsing

def fail (e : ε) : Parsing ε τ α := Action.throw (.error e)

def next : Parsing ε τ (Option τ) := Action.update fun p => (p.peek, p.advance 1)

def unwrap : Option α → Parsing ε τ α
  | some a => pure a
  | none => Action.throw .panicked

/-- One token, which `f` interprets. -/
def nextBy (missing : ε) (f : τ → Except (Stop ε) α) : Parsing ε τ α := do
  match ← next with
  | some t => Action.tryRead fun _ => f t
  | none => fail missing

def nextIs (is : τ → Bool) (p : Parser τ) : Bool := p.peek.any is

/-- `loop { apply(&mut f)?; if next is a separator { self.next(); } else { break; } }` -/
def chainFrom (apply : F → Parsing ε τ F) (separator : τ → Bool) : Nat → F → Parsing ε τ F
  | 0, _ => Action.throw .outOfFuel
  | fuel + 1, f => do
    let f ← apply f
    if ← Action.read (nextIs separator) then
      let _ ← next
      chainFrom apply separator fuel f
    else
      return f

/-- The loop, with fuel for one condition a token. -/
def chain (apply : F → Parsing ε τ F) (separator : τ → Bool) (f : F) : Parsing ε τ F := do
  let fuel ← Action.read fun p => p.tokens.length + 1
  chainFrom apply separator fuel f

/-- `loop { if next is not wanted { break; } self.next(); }` -/
def skipWhileFrom (wanted : τ → Bool) : Nat → Parsing ε τ Unit
  | 0 => Action.throw .outOfFuel
  | fuel + 1 => do
    if ← Action.read (nextIs wanted) then
      let _ ← next
      skipWhileFrom wanted fuel
    else
      return ()

def skipWhile (wanted : τ → Bool) : Parsing ε τ Unit := do
  let fuel ← Action.read fun p => p.tokens.length + 1
  skipWhileFrom wanted fuel

/-! ## What a method reads -/

/-- From `p` the method returns exactly what `L` says: the tokens read, the rest and the result. -/
def ReadsAt (a : Parsing ε τ α) (p : Parser τ) (L : List τ → List τ → α → Prop) : Prop :=
  ∀ v p', a p = (.ok v, p') ↔
    ∃ ts rest, p.rest = ts ++ rest ∧ L ts rest v ∧ p' = p.advance ts.length

def Reads (a : Parsing ε τ α) (L : List τ → List τ → α → Prop) : Prop := ∀ p, ReadsAt a p L

theorem ReadsAt.congr {a : Parsing ε τ α} {p : Parser τ} {L M : List τ → List τ → α → Prop}
    (ha : ReadsAt a p L) (h : ∀ ts rest v, p.rest = ts ++ rest → (L ts rest v ↔ M ts rest v)) :
    ReadsAt a p M := by
  intro v p'
  rw [ha v p']
  constructor
  · rintro ⟨ts, rest, hp, hl, he⟩
    exact ⟨ts, rest, hp, (h ts rest v hp).mp hl, he⟩
  · rintro ⟨ts, rest, hp, hm, he⟩
    exact ⟨ts, rest, hp, (h ts rest v hp).mpr hm, he⟩

theorem Reads.congr {a : Parsing ε τ α} {L M : List τ → List τ → α → Prop} (ha : Reads a L)
    (h : ∀ ts rest v, L ts rest v ↔ M ts rest v) : Reads a M :=
  fun p => (ha p).congr fun ts rest v _ => h ts rest v

theorem ReadsAt.pure {p : Parser τ} (v : α) :
    ReadsAt (Pure.pure v : Parsing ε τ α) p fun ts _ w => ts = [] ∧ w = v := by
  intro w p'
  rw [Action.pure_apply]
  constructor
  · intro h
    cases h
    exact ⟨[], p.rest, rfl, ⟨rfl, rfl⟩, rfl⟩
  · rintro ⟨_, rest, _, ⟨rfl, rfl⟩, rfl⟩
    rfl

theorem ReadsAt.fails {p : Parser τ} (e : Stop ε) :
    ReadsAt (Action.throw e : Parsing ε τ α) p fun _ _ _ => False := by
  intro w p'
  constructor
  · intro h
    cases h
  · rintro ⟨_, _, _, h, _⟩
    exact h.elim

theorem ReadsAt.bind {a : Parsing ε τ α} {f : α → Parsing ε τ β} {p : Parser τ}
    {L : List τ → List τ → α → Prop} {M : α → List τ → List τ → β → Prop} (ha : ReadsAt a p L)
    (hf : ∀ v ts rest, p.rest = ts ++ rest → L ts rest v →
      ReadsAt (f v) (p.advance ts.length) (M v)) :
    ReadsAt (a >>= f) p fun ts rest w =>
      ∃ t₁ t₂ v, ts = t₁ ++ t₂ ∧ L t₁ (t₂ ++ rest) v ∧ M v t₂ rest w := by
  intro w p'
  constructor
  · intro h
    rw [Action.bind_apply] at h
    cases hr : a p with
    | mk r q =>
      rw [hr] at h
      cases r with
      | error e => cases h
      | ok v =>
        obtain ⟨t₁, rest₁, hp, hl, rfl⟩ := (ha v q).mp hr
        obtain ⟨t₂, rest, hq, hm, rfl⟩ := (hf v t₁ rest₁ hp hl w p').mp h
        rw [Parser.rest_advance hp] at hq
        subst hq
        refine ⟨t₁ ++ t₂, rest, by rw [hp, List.append_assoc], ⟨t₁, t₂, v, rfl, hl, hm⟩, ?_⟩
        rw [Parser.advance_advance, List.length_append]
  · rintro ⟨_, rest, hp, ⟨t₁, t₂, v, rfl, hl, hm⟩, rfl⟩
    rw [List.append_assoc] at hp
    rw [Action.bind_ok ((ha v (p.advance t₁.length)).mpr ⟨t₁, _, hp, hl, rfl⟩)]
    apply (hf v t₁ _ hp hl w _).mpr
    refine ⟨t₂, rest, Parser.rest_advance hp, hm, ?_⟩
    rw [Parser.advance_advance, List.length_append]

theorem Reads.bind {a : Parsing ε τ α} {f : α → Parsing ε τ β} {L : List τ → List τ → α → Prop}
    {M : α → List τ → List τ → β → Prop} (ha : Reads a L) (hf : ∀ v, Reads (f v) (M v)) :
    Reads (a >>= f) fun ts rest w =>
      ∃ t₁ t₂ v, ts = t₁ ++ t₂ ∧ L t₁ (t₂ ++ rest) v ∧ M v t₂ rest w :=
  fun p => (ha p).bind fun v ts _ _ _ => hf v (p.advance ts.length)

/-- A method that looks at the parser without moving it. -/
theorem ReadsAt.bind_read {f : Parser τ → α} {g : α → Parsing ε τ β} {p : Parser τ}
    {L : List τ → List τ → β → Prop} (h : ReadsAt (g (f p)) p L) :
    ReadsAt (Action.read f >>= g) p L := h

/-- One token, then `f`. -/
theorem ReadsAt.bind_next {f : Option τ → Parsing ε τ β} {p : Parser τ}
    {M : τ → List τ → List τ → β → Prop} (hnone : ∀ q : Parser τ, ReadsAt (f none) q fun _ _ _ => False)
    (hsome : ∀ t rest, p.rest = t :: rest → ReadsAt (f (some t)) (p.advance 1) (M t)) :
    ReadsAt (next >>= f) p fun ts rest w => ∃ t ts', ts = t :: ts' ∧ M t ts' rest w := by
  intro w p'
  change f p.peek (p.advance 1) = _ ↔ _
  rw [Parser.peek_eq]
  cases hp : p.rest with
  | nil =>
    rw [List.head?_nil, hnone (p.advance 1) w p']
    constructor
    · rintro ⟨_, _, _, h, _⟩
      exact h.elim
    · rintro ⟨_, rest, h, ⟨t, ts', rfl, _⟩, _⟩
      cases h
  | cons t rest =>
    have hq := Parser.rest_advance_one hp
    rw [List.head?_cons, hsome t rest hp w p', hq]
    constructor
    · rintro ⟨ts, rest', rfl, hm, rfl⟩
      refine ⟨t :: ts, rest', rfl, ⟨t, ts, rfl, hm⟩, ?_⟩
      rw [Parser.advance_advance, List.length_cons, Nat.add_comm]
    · rintro ⟨_, rest', h, ⟨t', ts', rfl, hm⟩, rfl⟩
      cases h
      refine ⟨ts', rest', rfl, hm, ?_⟩
      rw [Parser.advance_advance, List.length_cons, Nat.add_comm]

theorem ReadsAt.tryRead {p : Parser τ} (r : Except (Stop ε) α) :
    ReadsAt (Action.tryRead fun _ => r : Parsing ε τ α) p fun ts _ w => ts = [] ∧ r = .ok w := by
  intro w p'
  cases r with
  | error e =>
    constructor
    · intro h
      cases h
    · rintro ⟨_, _, _, ⟨_, h⟩, _⟩
      cases h
  | ok v =>
    refine (ReadsAt.pure v w p').trans ?_
    constructor
    · rintro ⟨ts, rest, hp, ⟨hts, rfl⟩, he⟩
      exact ⟨ts, rest, hp, ⟨hts, rfl⟩, he⟩
    · rintro ⟨ts, rest, hp, ⟨hts, h⟩, he⟩
      cases h
      exact ⟨ts, rest, hp, ⟨hts, rfl⟩, he⟩

theorem Reads.nextBy (missing : ε) (f : τ → Except (Stop ε) α) :
    Reads (nextBy missing f) fun ts _ v => ∃ t, ts = [t] ∧ f t = .ok v := by
  intro p
  refine (ReadsAt.bind_next (M := fun t ts _ v => ts = [] ∧ f t = .ok v)
    (fun q => ReadsAt.fails _) fun t _ _ => ReadsAt.tryRead (f t)).congr ?_
  intro ts rest v _
  constructor
  · rintro ⟨t, _, rfl, rfl, h⟩
    exact ⟨t, rfl, h⟩
  · rintro ⟨t, rfl, h⟩
    exact ⟨t, [], rfl, rfl, h⟩

/-- A token that passes a test; another one is an error. -/
theorem Reads.nextIf (missing : ε) (wanted : τ → Prop) [DecidablePred wanted]
    {other : τ → Except (Stop ε) Unit} (hother : ∀ t, other t ≠ .ok ()) :
    Reads (Parsing.nextBy missing fun t => if wanted t then .ok () else other t) fun ts _ _ =>
      ∃ t, ts = [t] ∧ wanted t := by
  apply (Reads.nextBy _ _).congr
  intro ts _ _
  refine exists_congr fun t => and_congr_right fun _ => ?_
  by_cases h : wanted t
  · rw [if_pos h]
    exact iff_of_true rfl h
  · rw [if_neg h]
    exact iff_of_false (hother t) h

theorem Reads.return (v : α) :
    Reads (Pure.pure v : Parsing ε τ α) fun ts _ w => ts = [] ∧ w = v := fun _ => ReadsAt.pure v

theorem Reads.map {a : Parsing ε τ α} {L : List τ → List τ → α → Prop} (ha : Reads a L)
    (g : α → β) :
    Reads (do return g (← a)) fun ts rest w => ∃ v, L ts rest v ∧ w = g v := by
  apply (ha.bind fun v => Reads.return (g v)).congr
  intro ts rest w
  constructor
  · rintro ⟨t₁, _, v, rfl, hl, rfl, rfl⟩
    exact ⟨v, by rwa [List.append_nil], rfl⟩
  · rintro ⟨v, hl, rfl⟩
    exact ⟨ts, [], v, (List.append_nil ts).symm, hl, rfl, rfl⟩

theorem Reads.fail (e : ε) : Reads (fail e : Parsing ε τ α) fun _ _ _ => False :=
  fun _ => ReadsAt.fails _

/-- One token that `f` interprets, then `g`. -/
theorem Reads.bind_nextBy {missing : ε} {f : τ → Except (Stop ε) α} {g : α → Parsing ε τ β}
    {M : α → List τ → List τ → β → Prop} (hg : ∀ v, Reads (g v) (M v)) :
    Reads (Parsing.nextBy missing f >>= g) fun ts rest w =>
      ∃ t ts' v, ts = t :: ts' ∧ f t = .ok v ∧ M v ts' rest w := by
  apply ((Reads.nextBy missing f).bind hg).congr
  intro ts rest w
  constructor
  · rintro ⟨_, t₂, v, rfl, ⟨t, rfl, hf⟩, hm⟩
    exact ⟨t, t₂, v, rfl, hf, hm⟩
  · rintro ⟨t, ts', v, rfl, hf, hm⟩
    exact ⟨[t], ts', v, rfl, ⟨t, rfl, hf⟩, hm⟩

theorem Reads.bind_tryRead {r : Except (Stop ε) α} {g : α → Parsing ε τ β}
    {M : α → List τ → List τ → β → Prop} (hg : ∀ v, Reads (g v) (M v)) :
    Reads ((Action.tryRead fun _ => r) >>= g) fun ts rest w => ∃ v, r = .ok v ∧ M v ts rest w := by
  apply Reads.congr (Reads.bind (fun _ => ReadsAt.tryRead r) hg)
  intro ts rest w
  constructor
  · rintro ⟨_, t₂, v, rfl, ⟨rfl, hr⟩, hm⟩
    exact ⟨v, hr, hm⟩
  · rintro ⟨v, hr, hm⟩
    exact ⟨[], ts, v, rfl, ⟨rfl, hr⟩, hm⟩

theorem Reads.bind_unwrap {o : Option α} {g : α → Parsing ε τ β}
    {M : α → List τ → List τ → β → Prop} (hg : ∀ v, Reads (g v) (M v)) :
    Reads (unwrap o >>= g) fun ts rest w => ∃ v, o = some v ∧ M v ts rest w := by
  cases o with
  | none =>
    refine Reads.congr (L := fun _ _ _ => False) (fun _ => ReadsAt.fails .panicked) ?_
    intro ts rest w
    constructor
    · exact False.elim
    · rintro ⟨_, h, _⟩
      cases h
  | some v =>
    apply Reads.congr (hg v)
    intro ts rest w
    constructor
    · exact fun h => ⟨v, rfl, h⟩
    · rintro ⟨_, hv, h⟩
      cases hv
      exact h

theorem Reads.ite {b : Prop} [Decidable b] {a₁ a₂ : Parsing ε τ α}
    {L M : List τ → List τ → α → Prop} (h₁ : Reads a₁ L) (h₂ : Reads a₂ M) :
    Reads (if b then a₁ else a₂) fun ts rest v => b ∧ L ts rest v ∨ ¬ b ∧ M ts rest v := by
  by_cases hb : b
  · rw [if_pos hb]
    apply h₁.congr
    intro ts rest v
    exact ⟨fun h => .inl ⟨hb, h⟩, fun h => h.elim And.right fun h => absurd hb h.1⟩
  · rw [if_neg hb]
    apply h₂.congr
    intro ts rest v
    exact ⟨fun h => .inr ⟨hb, h⟩, fun h => h.elim (fun h => absurd h.1 hb) And.right⟩

/-! ## Lookahead -/

theorem nextIs_eq (is : τ → Bool) (p : Parser τ) : nextIs is p = p.rest.head?.any is := by
  rw [nextIs, Parser.peek_eq]

/-- One token if it is wanted, and what follows it; otherwise something else. -/
theorem ReadsAt.ifNext {is : τ → Bool} {g : Option τ → Parsing ε τ α} {b : Parsing ε τ α}
    {p : Parser τ} {L : τ → List τ → List τ → α → Prop} {M : List τ → List τ → α → Prop}
    (hg : ∀ t rest, p.rest = t :: rest → is t = true → ReadsAt (g (some t)) (p.advance 1) (L t))
    (hb : ReadsAt b p M) :
    ReadsAt (do if ← Action.read (nextIs is) then next >>= g else b) p fun ts rest v =>
      (∃ t ts', ts = t :: ts' ∧ is t = true ∧ L t ts' rest v) ∨
        (ts ++ rest).head?.any is = false ∧ M ts rest v := by
  apply ReadsAt.bind_read
  cases h : nextIs is p with
  | false =>
    rw [if_neg Bool.false_ne_true]
    apply hb.congr
    intro ts rest v hp
    rw [nextIs_eq, hp] at h
    constructor
    · exact fun hm => .inr ⟨h, hm⟩
    · rintro (⟨t, ts', rfl, ht, _⟩ | ⟨_, hm⟩)
      · rw [List.cons_append, List.head?_cons, Option.any_some, ht] at h
        cases h
      · exact hm
  | true =>
    rw [if_pos rfl]
    intro v p'
    change g p.peek (p.advance 1) = _ ↔ _
    rw [Parser.peek_eq]
    rw [nextIs_eq] at h
    cases hp : p.rest with
    | nil =>
      rw [hp] at h
      cases h
    | cons t rest =>
      rw [hp] at h
      have hq := Parser.rest_advance_one hp
      rw [List.head?_cons, hg t rest hp h v p', hq]
      constructor
      · rintro ⟨ts, rest', rfl, hl, rfl⟩
        refine ⟨t :: ts, rest', rfl, .inl ⟨t, ts, rfl, h, hl⟩, ?_⟩
        rw [Parser.advance_advance, List.length_cons, Nat.add_comm]
      · rintro ⟨ts, rest', hts, ⟨t', ts', rfl, _, hl⟩ | ⟨hn, _⟩, rfl⟩
        · cases hts
          refine ⟨ts', rest', rfl, hl, ?_⟩
          rw [Parser.advance_advance, List.length_cons, Nat.add_comm]
        · rw [← hts] at hn
          cases h.symm.trans hn

theorem Reads.ifNext {is : τ → Bool} {g : Option τ → Parsing ε τ α} {b : Parsing ε τ α}
    {L : τ → List τ → List τ → α → Prop} {M : List τ → List τ → α → Prop}
    (hg : ∀ t, is t = true → Reads (g (some t)) (L t)) (hb : Reads b M) :
    Reads (do if ← Action.read (nextIs is) then next >>= g else b) fun ts rest v =>
      (∃ t ts', ts = t :: ts' ∧ is t = true ∧ L t ts' rest v) ∨
        (ts ++ rest).head?.any is = false ∧ M ts rest v :=
  fun p => ReadsAt.ifNext (fun t _ _ ht => hg t ht (p.advance 1)) (hb p)

/-! ## Chains -/

/-- `condition {separator condition}`, with what the conditions say. -/
inductive Chain (C : List τ → γ → Prop) (separator : τ → Bool) : List τ → List γ → Prop where
  | last {ts : List τ} {c : γ} (h : C ts c) : Chain C separator ts [c]
  | and {ts ts' : List τ} {t : τ} {c : γ} {cs : List γ} (h : C ts c) (ht : separator t = true)
      (hcs : Chain C separator ts' cs) : Chain C separator (ts ++ t :: ts') (c :: cs)

theorem Chain.mem {C : List τ → γ → Prop} {separator : τ → Bool} {ts : List τ} {cs : List γ}
    (h : Chain C separator ts cs) {c : γ} (hc : c ∈ cs) : ∃ ts', ts' ⊆ ts ∧ C ts' c := by
  induction h with
  | last hts =>
    rw [List.mem_singleton.mp hc]
    exact ⟨_, List.Subset.refl _, hts⟩
  | and hts _ _ ih =>
    rcases List.mem_cons.mp hc with rfl | hc
    · exact ⟨_, List.subset_append_left _ _, hts⟩
    · obtain ⟨ts', hsub, h⟩ := ih hc
      exact ⟨ts', fun t ht => List.mem_append_right _ (List.mem_cons_of_mem _ (hsub ht)), h⟩

theorem Chain.mono {C D : List τ → γ → Prop} {separator : τ → Bool} {ts : List τ} {cs : List γ}
    (h : Chain C separator ts cs) (hcd : ∀ ts, ∀ c ∈ cs, C ts c → D ts c) :
    Chain D separator ts cs := by
  induction h with
  | last hts => exact .last (hcd _ _ List.mem_cons_self hts)
  | and hts ht _ ih =>
    exact .and (hcd _ _ List.mem_cons_self hts) ht
      (ih fun ts c hc => hcd ts c (List.mem_cons_of_mem _ hc))

theorem Chain.forall_tokens {C : List τ → γ → Prop} {separator : τ → Bool} {P : τ → Prop}
    {ts : List τ} {cs : List γ} (h : Chain C separator ts cs)
    (hc : ∀ ts c, C ts c → ∀ t ∈ ts, P t) (ht : ∀ t, separator t = true → P t) : ∀ t ∈ ts, P t := by
  induction h with
  | last hts => exact hc _ _ hts
  | and hts hsep _ ih =>
    intro t hmem
    rcases List.mem_append.mp hmem with hmem | hmem
    · exact hc _ _ hts t hmem
    · rcases List.mem_cons.mp hmem with rfl | hmem
      · exact ht t hsep
      · exact ih t hmem

/-- Items that are written one after the other, with a separator between two of them. -/
theorem Chain.of_items {ι : Type} {C : List τ → γ → Prop} {separator : τ → Bool} {s : τ}
    (hs : separator s = true) (text : ι → List τ) (item : ι → γ) (i : ι) (is : List ι)
    (h : ∀ j ∈ i :: is, C (text j) (item j)) :
    Chain C separator (text i ++ is.flatMap fun j => s :: text j) ((i :: is).map item) := by
  induction is generalizing i with
  | nil =>
    rw [List.flatMap_nil, List.append_nil]
    exact .last (h i List.mem_cons_self)
  | cons j is ih =>
    rw [List.flatMap_cons, List.cons_append]
    exact .and (h i List.mem_cons_self) hs (ih j fun k hk => h k (List.mem_cons_of_mem i hk))

/-- The loop folds the conditions of a chain that no separator follows. -/
theorem ReadsAt.chainFrom {apply : F → Parsing ε τ F} {separator : τ → Bool}
    {C : List τ → γ → Prop} {store : F → γ → F} (hne : ∀ c, ¬ C [] c)
    (ha : ∀ f, Reads (apply f) fun ts _ f' => ∃ c, C ts c ∧ f' = store f c) :
    ∀ (fuel : Nat) (f : F) (p : Parser τ), p.rest.length < fuel →
      ReadsAt (chainFrom apply separator fuel f) p fun ts rest f' =>
        rest.head?.any separator = false ∧
          ∃ cs, Chain C separator ts cs ∧ f' = cs.foldl store f := by
  intro fuel
  induction fuel with
  | zero => exact fun _ _ h => absurd h (Nat.not_lt_zero _)
  | succ fuel ih =>
    intro f p hfuel
    rw [Parsing.chainFrom]
    refine ((ha f p).bind (M := fun g ts rest f' =>
      (∃ t ts', ts = t :: ts' ∧ separator t = true ∧ rest.head?.any separator = false ∧
        ∃ cs, Chain C separator ts' cs ∧ f' = cs.foldl store g) ∨
      (ts ++ rest).head?.any separator = false ∧ ts = [] ∧ f' = g)
      fun g ts rest hp hg => ?_).congr ?_
    · -- a condition has a token of its own, so the fuel lasts
      have hlen : rest.length < fuel := by
        obtain ⟨c, hc, _⟩ := hg
        have hts : ts ≠ [] := fun h => hne c (h ▸ hc)
        have hpos := List.length_pos_of_ne_nil hts
        rw [hp, List.length_append] at hfuel
        omega
      apply ReadsAt.ifNext
      · intro t rest' hq _
        apply ih
        rw [Parser.rest_advance_one hq]
        rw [Parser.rest_advance hp] at hq
        rw [hq, List.length_cons] at hlen
        omega
      · exact ReadsAt.pure g
    · intro ts rest f' _
      constructor
      · rintro ⟨t₁, t₂, g, rfl, ⟨c, hc, rfl⟩, ⟨t, t₃, rfl, ht, hend, cs, hcs, rfl⟩ | ⟨hend, rfl, rfl⟩⟩
        · exact ⟨hend, c :: cs, .and hc ht hcs, rfl⟩
        · exact ⟨hend, [c], by rw [List.append_nil]; exact .last hc, rfl⟩
      · rintro ⟨hend, cs, hcs, rfl⟩
        cases hcs with
        | last hc =>
          exact ⟨ts, [], _, (List.append_nil _).symm, ⟨_, hc, rfl⟩, .inr ⟨hend, rfl, rfl⟩⟩
        | and hc ht hcs =>
          exact ⟨_, _, _, rfl, ⟨_, hc, rfl⟩, .inl ⟨_, _, rfl, ht, hend, _, hcs, rfl⟩⟩

theorem Reads.chain {apply : F → Parsing ε τ F} {separator : τ → Bool} {C : List τ → γ → Prop}
    {store : F → γ → F} (hne : ∀ c, ¬ C [] c)
    (ha : ∀ f, Reads (apply f) fun ts _ f' => ∃ c, C ts c ∧ f' = store f c) (f : F) :
    Reads (chain apply separator f) fun ts rest f' =>
      rest.head?.any separator = false ∧ ∃ cs, Chain C separator ts cs ∧ f' = cs.foldl store f :=
  fun p => ReadsAt.bind_read
    (ReadsAt.chainFrom hne ha _ f p (Nat.lt_succ_of_le p.rest_length_le))

theorem ReadsAt.skipWhileFrom (wanted : τ → Bool) :
    ∀ (fuel : Nat) (p : Parser τ), p.rest.length < fuel →
      ReadsAt (skipWhileFrom wanted fuel : Parsing ε τ Unit) p fun ts rest _ =>
        ts.all wanted = true ∧ rest.head?.any wanted = false := by
  intro fuel
  induction fuel with
  | zero => exact fun _ h => absurd h (Nat.not_lt_zero _)
  | succ fuel ih =>
    intro p hfuel
    rw [Parsing.skipWhileFrom]
    refine (ReadsAt.ifNext (L := fun _ ts rest _ => ts.all wanted = true ∧
      rest.head?.any wanted = false) (fun t rest hp _ => ?_) (ReadsAt.pure ())).congr ?_
    · apply ih
      rw [Parser.rest_advance_one hp]
      rw [hp, List.length_cons] at hfuel
      exact Nat.lt_of_succ_lt_succ hfuel
    · intro ts rest _ _
      constructor
      · rintro (⟨t, ts', rfl, ht, hall, hend⟩ | ⟨hend, rfl, _⟩)
        · exact ⟨by rw [List.all_cons, ht, hall]; rfl, hend⟩
        · exact ⟨rfl, hend⟩
      · rintro ⟨hall, hend⟩
        cases ts with
        | nil => exact .inr ⟨hend, rfl, rfl⟩
        | cons t ts =>
          rw [List.all_cons, Bool.and_eq_true] at hall
          exact .inl ⟨t, ts, rfl, hall.1, hall.2, hend⟩

theorem Reads.skipWhile (wanted : τ → Bool) :
    Reads (skipWhile wanted : Parsing ε τ Unit) fun ts rest _ =>
      ts.all wanted = true ∧ rest.head?.any wanted = false :=
  fun p => ReadsAt.bind_read
    (ReadsAt.skipWhileFrom wanted _ p (Nat.lt_succ_of_le p.rest_length_le))

/-- A run from the first token. -/
theorem Reads.run {a : Parsing ε τ α} {L : List τ → List τ → α → Prop} (ha : Reads a L)
    (tokens : List τ) (v : α) :
    (a ⟨tokens, 0⟩).1 = .ok v ↔ ∃ ts rest, tokens = ts ++ rest ∧ L ts rest v := by
  constructor
  · intro h
    obtain ⟨ts, rest, hp, hl, _⟩ := (ha ⟨tokens, 0⟩ v (a ⟨tokens, 0⟩).2).mp (Prod.ext h rfl)
    exact ⟨ts, rest, hp, hl⟩
  · rintro ⟨ts, rest, hp, hl⟩
    rw [(ha ⟨tokens, 0⟩ v _).mpr ⟨ts, rest, hp, hl, rfl⟩]

/-! ## Runs that return

A method is safe if it returns a value or an error of its own: no index is out of range and
the fuel lasts.
-/

/-- A value or an error, but no panic. -/
def Returns (r : Except (Stop ε) α) : Prop := ∀ s, r = .error s → ∃ e, s = .error e

def SafeAt (a : Parsing ε τ α) (p : Parser τ) : Prop := Returns (a p).1

def Safe (a : Parsing ε τ α) : Prop := ∀ p, SafeAt a p

theorem returns_ok (v : α) : Returns (.ok v : Except (Stop ε) α) := fun _ h => by cases h

theorem returns_error (e : ε) : Returns (.error (.error e) : Except (Stop ε) α) := by
  intro s h
  cases h
  exact ⟨e, rfl⟩

theorem SafeAt.bind {a : Parsing ε τ α} {f : α → Parsing ε τ β} {p : Parser τ} (ha : SafeAt a p)
    (hf : ∀ v p', a p = (.ok v, p') → SafeAt (f v) p') : SafeAt (a >>= f) p := by
  rw [SafeAt, Action.bind_apply]
  cases hr : a p with
  | mk r p' =>
    cases r with
    | ok v => exact hf v p' hr
    | error s =>
      intro s' h
      cases h
      exact ha s (by rw [hr])

theorem Safe.bind {a : Parsing ε τ α} {f : α → Parsing ε τ β} (ha : Safe a)
    (hf : ∀ v, Safe (f v)) : Safe (a >>= f) :=
  fun p => (ha p).bind fun v p' _ => hf v p'

theorem Safe.return (v : α) : Safe (Pure.pure v : Parsing ε τ α) := fun _ => returns_ok v

theorem Safe.fail (e : ε) : Safe (Parsing.fail e : Parsing ε τ α) := fun _ => returns_error e

theorem Safe.next : Safe (Parsing.next : Parsing ε τ (Option τ)) := fun _ => returns_ok _

theorem Safe.read (f : Parser τ → α) : Safe (Action.read f : Parsing ε τ α) :=
  fun p => returns_ok (f p)

theorem Safe.tryRead {r : Except (Stop ε) α} (h : Returns r) :
    Safe (Action.tryRead fun _ => r : Parsing ε τ α) := fun _ => h

theorem Safe.nextBy {f : τ → Except (Stop ε) α} (missing : ε) (hf : ∀ t, Returns (f t)) :
    Safe (Parsing.nextBy missing f) := by
  apply Safe.next.bind
  intro t
  cases t with
  | none => exact Safe.fail missing
  | some t => exact Safe.tryRead (hf t)

theorem Safe.map {a : Parsing ε τ α} (ha : Safe a) (g : α → β) : Safe (do return g (← a)) :=
  ha.bind fun v => Safe.return (g v)

theorem Safe.ite {b : Prop} [Decidable b] {a₁ a₂ : Parsing ε τ α} (h₁ : Safe a₁) (h₂ : Safe a₂) :
    Safe (if b then a₁ else a₂) := by
  split_ifs
  · exact h₁
  · exact h₂

/-- A chain whose conditions take a token each does not run out of fuel. -/
theorem SafeAt.chainFrom {apply : F → Parsing ε τ F} {separator : τ → Bool}
    {L : F → List τ → List τ → F → Prop} (hsafe : ∀ f, Safe (apply f))
    (ha : ∀ f, Reads (apply f) (L f)) (hne : ∀ f rest f', ¬ L f [] rest f') :
    ∀ (fuel : Nat) (f : F) (p : Parser τ), p.rest.length < fuel →
      SafeAt (chainFrom apply separator fuel f) p := by
  intro fuel
  induction fuel with
  | zero => exact fun _ _ h => absurd h (Nat.not_lt_zero _)
  | succ fuel ih =>
    intro f p hfuel
    rw [Parsing.chainFrom]
    refine (hsafe f p).bind fun f' q hq => ?_
    obtain ⟨ts, rest, hp, hl, rfl⟩ := (ha f p f' q).mp hq
    have hts : ts ≠ [] := fun h => hne f rest f' (h ▸ hl)
    have hpos := List.length_pos_of_ne_nil hts
    have hlen : (p.advance ts.length).rest.length < fuel := by
      rw [Parser.rest_advance hp]
      rw [hp, List.length_append] at hfuel
      omega
    refine (Safe.read _ _).bind fun b q hq => ?_
    cases hq
    split_ifs
    · refine (Safe.next _).bind fun t q hq => ?_
      cases hq
      apply ih
      exact lt_of_le_of_lt (Parser.rest_length_advance_le _ 1) hlen
    · exact Safe.return f' _

theorem Safe.chain {apply : F → Parsing ε τ F} {separator : τ → Bool}
    {L : F → List τ → List τ → F → Prop} (hsafe : ∀ f, Safe (apply f))
    (ha : ∀ f, Reads (apply f) (L f)) (hne : ∀ f rest f', ¬ L f [] rest f') (f : F) :
    Safe (Parsing.chain apply separator f) :=
  fun p => SafeAt.chainFrom hsafe ha hne _ f p (Nat.lt_succ_of_le p.rest_length_le)

theorem SafeAt.skipWhileFrom (wanted : τ → Bool) :
    ∀ (fuel : Nat) (p : Parser τ), p.rest.length < fuel →
      SafeAt (skipWhileFrom wanted fuel : Parsing ε τ Unit) p := by
  intro fuel
  induction fuel with
  | zero => exact fun _ h => absurd h (Nat.not_lt_zero _)
  | succ fuel ih =>
    intro p hfuel
    rw [Parsing.skipWhileFrom]
    refine (Safe.read _ _).bind fun b q hq => ?_
    cases hq
    split_ifs with h
    · refine (Safe.next _).bind fun t q hq => ?_
      cases hq
      apply ih
      rw [nextIs_eq] at h
      cases hp : p.rest with
      | nil =>
        rw [hp] at h
        cases h
      | cons t rest =>
        rw [Parser.rest_advance_one hp]
        rw [hp, List.length_cons] at hfuel
        exact Nat.lt_of_succ_lt_succ hfuel
    · exact Safe.return () _

theorem Safe.skipWhile (wanted : τ → Bool) : Safe (Parsing.skipWhile wanted : Parsing ε τ Unit) :=
  fun p => SafeAt.skipWhileFrom wanted _ p (Nat.lt_succ_of_le p.rest_length_le)

end Parsing

end AdGraphDb
