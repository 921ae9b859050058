import AdGraphDb.Foundation.Cursor

/-!
# Spans

How far a reader gets and how it ends, without what it reads. A span function computes this
from the bytes ahead of the cursor; spans are put in sequence as readers are.
-/

namespace AdGraphDb

/-- How reading ends. -/
inductive Ending where
  | whole
  | broken
  | refused
deriving DecidableEq

def Outcome.ending {ε α : Type} : Outcome ε α → Ending
  | .ok _ => .whole
  | .err _ => .broken
  | .panicked => .refused

structure Span where
  length : Nat
  ending : Ending
deriving DecidableEq

namespace Span

/-- A span behind `n` bytes. -/
def behind (n : Nat) (s : Span) : Span := ⟨n + s.length, s.ending⟩

/-- `f` goes on where the span `s` of `bytes` ends, if it is whole. -/
def andThen (s : Span) (f : Bytes → Span) (bytes : Bytes) : Span :=
  match s.ending with
  | .whole => (f (bytes.drop s.length)).behind s.length
  | _ => s

theorem andThen_whole {s : Span} (h : s.ending = .whole) (f : Bytes → Span) (bytes : Bytes) :
    s.andThen f bytes = (f (bytes.drop s.length)).behind s.length := by
  rw [andThen, h]

theorem andThen_of_ne {s : Span} (h : s.ending ≠ .whole) (f : Bytes → Span) (bytes : Bytes) :
    s.andThen f bytes = s := by
  obtain ⟨n, e⟩ := s
  cases e with
  | whole => exact absurd rfl h
  | broken => rfl
  | refused => rfl

/-- Spans one behind the other. -/
def inOrder : List (Bytes → Span) → Bytes → Span
  | [], _ => ⟨0, .whole⟩
  | f :: fs, bytes => (f bytes).andThen (inOrder fs) bytes

end Span

namespace Reader

variable {ε α β : Type}

/-- `f` computes how far the reader gets and how it ends. -/
def Measures (p : Reader ε α) (f : Bytes → Span) : Prop := ∀ data pos, pos ≤ data.length →
  (p data pos).1.ending = (f (data.drop pos)).ending ∧
    (p data pos).2 = pos + (f (data.drop pos)).length

theorem Measures.pure (a : α) : Measures (ε := ε) (pure a) fun _ => ⟨0, .whole⟩ :=
  fun _ _ _ => ⟨rfl, rfl⟩

theorem Measures.fail (e : ε) : Measures (α := α) (fail e) fun _ => ⟨0, .broken⟩ :=
  fun _ _ _ => ⟨rfl, rfl⟩

theorem Measures.bind {p : Reader ε α} {g : α → Reader ε β} {f h : Bytes → Span}
    (hp : Measures p f) (hs : Steady p) (hg : ∀ a, Measures (g a) h) :
    Measures (p >>= g) fun bytes => (f bytes).andThen h bytes := by
  intro data pos hpos
  obtain ⟨hending, hnext⟩ := hp data pos hpos
  have hlen := (hs.forward data pos hpos).2
  dsimp only
  rw [bind_apply]
  match he : p data pos with
  | (.ok a, q) =>
    rw [he] at hending hnext hlen
    obtain ⟨hending', hnext'⟩ := hg a data q hlen
    dsimp only at hnext
    rw [hnext, ← List.drop_drop] at hending' hnext'
    rw [Span.andThen_whole hending.symm, hnext]
    exact ⟨hending', hnext'.trans (Nat.add_assoc _ _ _)⟩
  | (.err e, q) =>
    rw [he] at hending hnext
    rw [Span.andThen_of_ne (by rw [← hending]; nofun)]
    exact ⟨hending, hnext⟩
  | (.panicked, q) =>
    rw [he] at hending hnext
    rw [Span.andThen_of_ne (by rw [← hending]; nofun)]
    exact ⟨hending, hnext⟩

/-- A last step that only computes. -/
theorem Measures.map {p : Reader ε α} {f : Bytes → Span} (hp : Measures p f) (g : α → β) :
    Measures (p >>= fun a => Pure.pure (g a)) f := by
  intro data pos hpos
  obtain ⟨hending, hnext⟩ := hp data pos hpos
  rw [bind_apply]
  match he : p data pos with
  | (.ok a, q) => rw [he] at hending hnext; exact ⟨hending, hnext⟩
  | (.err e, q) => rw [he] at hending hnext; exact ⟨hending, hnext⟩
  | (.panicked, q) => rw [he] at hending hnext; exact ⟨hending, hnext⟩

end Reader

end AdGraphDb
