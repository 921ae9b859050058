import Mathlib.Tactic

/-!
# Paths, inodes and handles

A path names an inode and a handle is bound to one. A rename moves a name; what is written
through a handle goes to its inode, whether or not a path still names it.
-/

namespace AdGraphDb

/-- No inode has two names, and the next one is new. -/
structure FileSystem (P B : Type*) where
  inode : P → Option ℕ
  content : ℕ → List B
  next : ℕ
  inode_inj : ∀ {p q i}, inode p = some i → inode q = some i → p = q
  inode_lt : ∀ {p i}, inode p = some i → i < next

namespace FileSystem

variable {P B : Type*} {p q : P} {fs : FileSystem P B} {i h : ℕ}

/-- The inode that the path names, or would name if it were created. -/
def slot (p : P) (fs : FileSystem P B) : ℕ := (fs.inode p).getD fs.next

def read (p : P) (fs : FileSystem P B) : Option (List B) := (fs.inode p).map fs.content

/-- Appending through a handle. -/
def write (h : ℕ) (bytes : List B) (fs : FileSystem P B) : FileSystem P B :=
  { fs with content := fun i => if i = h then fs.content h ++ bytes else fs.content i }

theorem eq_of_slot (hq : fs.inode q = some (fs.slot p)) : q = p := by
  unfold slot at hq
  cases hp : fs.inode p with
  | some i =>
    rw [hp] at hq
    exact fs.inode_inj hq hp
  | none =>
    rw [hp] at hq
    exact absurd (fs.inode_lt hq) (Nat.lt_irrefl _)

theorem slot_of_inode (hp : fs.inode p = some i) : fs.slot p = i := by
  rw [slot, hp, Option.getD_some]

/-- A file in use is not the slot of another path. -/
theorem ne_slot (hpq : p ≠ q) (hp : fs.inode p = some i) : i ≠ fs.slot q := by
  rintro rfl
  exact hpq (eq_of_slot hp)

theorem content_write_self (h : ℕ) (bytes : List B) (fs : FileSystem P B) :
    (fs.write h bytes).content h = fs.content h ++ bytes := if_pos rfl

theorem content_write_of_ne (hi : i ≠ h) (bytes : List B) :
    (fs.write h bytes).content i = fs.content i := if_neg hi

variable [DecidableEq P]

/-- A new name for an inode of its own, with the given content. -/
def link (p : P) (content : List B) (fs : FileSystem P B) : FileSystem P B where
  inode q := if q = p then some (fs.slot p) else fs.inode q
  content i := if i = fs.slot p then content else fs.content i
  next := max fs.next (fs.slot p + 1)
  inode_inj {q r i} hq hr := by
    split_ifs at hq hr with hqp hrp hrp
    · exact hqp.trans hrp.symm
    · exact absurd (eq_of_slot (hr.trans hq.symm)) hrp
    · exact absurd (eq_of_slot (hq.trans hr.symm)) hqp
    · exact fs.inode_inj hq hr
  inode_lt {q i} hq := by
    split_ifs at hq
    · cases hq
      exact lt_max_of_lt_right (Nat.lt_succ_self _)
    · exact lt_max_of_lt_left (fs.inode_lt hq)

/-- Creating a file for writing; an existing one is emptied. -/
def create (p : P) (fs : FileSystem P B) : ℕ × FileSystem P B := (fs.slot p, fs.link p [])

/-- Renaming an existing file. The name `q` leaves the inode that it had. -/
def rename (p q : P) (fs : FileSystem P B) : FileSystem P B where
  inode r := if r = q then fs.inode p else if r = p then none else fs.inode r
  content := fs.content
  next := fs.next
  inode_inj {r s i} hr hs := by
    split_ifs at hr hs with hrq hsq hsp hrp hsq hsp
    · exact hrq.trans hsq.symm
    · exact absurd (fs.inode_inj hs hr) hsp
    · exact absurd (fs.inode_inj hr hs) hrp
    · exact fs.inode_inj hr hs
  inode_lt {r i} hr := by
    split_ifs at hr
    · exact fs.inode_lt hr
    · exact fs.inode_lt hr

/-! ## What is where -/

theorem inode_link_self (p : P) (content : List B) (fs : FileSystem P B) :
    (fs.link p content).inode p = some (fs.slot p) := if_pos rfl

theorem inode_link_of_ne (hqp : q ≠ p) (content : List B) :
    (fs.link p content).inode q = fs.inode q := if_neg hqp

theorem content_link_self (p : P) (content : List B) (fs : FileSystem P B) :
    (fs.link p content).content (fs.slot p) = content := if_pos rfl

theorem content_link_of_ne (hi : i ≠ fs.slot p) (content : List B) :
    (fs.link p content).content i = fs.content i := if_neg hi

theorem inode_rename_self (p q : P) (fs : FileSystem P B) :
    (fs.rename p q).inode q = fs.inode p := if_pos rfl

end FileSystem

end AdGraphDb
