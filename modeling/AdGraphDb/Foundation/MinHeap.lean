import Mathlib.Data.List.Sort

/-!
# Heaps

A heap is known by what it gives back: the least of its elements. It is kept as a sorted list.
-/

namespace AdGraphDb

structure MinHeap (α : Type) [LinearOrder α] where
  entries : List α
  sorted : entries.Pairwise (· ≤ ·)

namespace MinHeap

variable {α : Type} [LinearOrder α]

def empty : MinHeap α := ⟨[], List.Pairwise.nil⟩

def push (a : α) (h : MinHeap α) : MinHeap α :=
  ⟨h.entries.orderedInsert (· ≤ ·) a, h.sorted.orderedInsert a _⟩

/-- The least element and the others. -/
def pop (h : MinHeap α) : Option (α × MinHeap α) :=
  match h with
  | ⟨[], _⟩ => none
  | ⟨a :: l, hs⟩ => some (a, ⟨l, (List.pairwise_cons.mp hs).2⟩)

instance : Membership α (MinHeap α) := ⟨fun h a => a ∈ h.entries⟩

variable {h h' : MinHeap α} {a b : α}

@[simp] theorem mem_push : b ∈ h.push a ↔ b = a ∨ b ∈ h := List.mem_orderedInsert (· ≤ ·)

theorem not_mem_empty : a ∉ (empty : MinHeap α) := List.not_mem_nil

theorem entries_of_pop (hp : h.pop = some (a, h')) : h.entries = a :: h'.entries := by
  obtain ⟨l, hs⟩ := h
  cases l with
  | nil => cases hp
  | cons c l =>
    cases hp
    rfl

theorem mem_of_pop (hp : h.pop = some (a, h')) : b ∈ h ↔ b = a ∨ b ∈ h' := by
  change b ∈ h.entries ↔ b = a ∨ b ∈ h'.entries
  rw [entries_of_pop hp, List.mem_cons]

theorem not_mem_of_pop (hp : h.pop = none) : b ∉ h := by
  obtain ⟨l, hs⟩ := h
  cases l with
  | nil => exact List.not_mem_nil
  | cons c l => cases hp

theorem le_of_pop (hp : h.pop = some (a, h')) (hb : b ∈ h) : a ≤ b := by
  have hsorted := h.sorted
  rw [entries_of_pop hp] at hsorted
  rcases (mem_of_pop hp).mp hb with rfl | hb
  · exact le_rfl
  · exact List.rel_of_pairwise_cons hsorted hb

theorem length_of_pop (hp : h.pop = some (a, h')) :
    h'.entries.length < h.entries.length := by
  rw [entries_of_pop hp, List.length_cons]
  exact Nat.lt_succ_self _

end MinHeap

end AdGraphDb
