import AdGraphDb.Foundation.Cursor

/-!
# Text

The white space of `char::is_whitespace`, and the pieces that `BufRead::lines` reads.
-/

namespace AdGraphDb

/-- `char::is_whitespace`, the Unicode property `White_Space`. -/
def isWhitespace (c : Char) : Bool :=
  let n := c.toNat
  (9 ≤ n && n ≤ 13) || n == 0x20 || n == 0x85 || n == 0xA0 || n == 0x1680 ||
    (0x2000 ≤ n && n ≤ 0x200A) || n == 0x2028 || n == 0x2029 || n == 0x202F || n == 0x205F ||
    n == 0x3000

/-- `s.trim().is_empty()`. -/
def isBlank (s : String) : Bool := s.toList.all isWhitespace

def newline : UInt8 := 10

def carriageReturn : UInt8 := 13

/-- Drops the carriage return in front of a newline; the line is read backwards. -/
def stripCarriageReturn : Bytes → Bytes
  | [] => []
  | b :: rest => if b = carriageReturn then rest else b :: rest

/-- `BufRead::lines` behind the bytes read of a line, which are kept backwards. -/
def linesFrom : Bytes → Bytes → List Bytes
  | [], [] => []
  | line, [] => [line.reverse]
  | line, b :: rest =>
    if b = newline then (stripCarriageReturn line).reverse :: linesFrom [] rest
    else linesFrom (b :: line) rest

def lines (file : Bytes) : List Bytes := linesFrom [] file

theorem linesFrom_append {l : Bytes} (h : newline ∉ l) (line rest : Bytes) :
    linesFrom line (l ++ newline :: rest) =
      (stripCarriageReturn (l.reverse ++ line)).reverse :: lines rest := by
  induction l generalizing line with
  | nil => rw [List.nil_append, linesFrom, if_pos rfl, List.reverse_nil, List.nil_append, lines]
  | cons b l ih =>
    rw [List.mem_cons, not_or] at h
    rw [List.cons_append, linesFrom, if_neg (Ne.symm h.1), ih h.2, List.reverse_cons,
      List.append_assoc, List.singleton_append]

/-- Bytes behind the last newline are a line of their own. -/
theorem linesFrom_rest {l : Bytes} (h : newline ∉ l) (line : Bytes) :
    linesFrom line l = if l = [] ∧ line = [] then [] else [line.reverse ++ l] := by
  induction l generalizing line with
  | nil =>
    cases line with
    | nil => rfl
    | cons b line => simp [linesFrom]
  | cons b l ih =>
    rw [List.mem_cons, not_or] at h
    rw [linesFrom, if_neg (Ne.symm h.1), ih h.2, if_neg (by simp), if_neg (by simp),
      List.reverse_cons, List.append_assoc, List.singleton_append]

theorem lines_rest {l : Bytes} (h : newline ∉ l) (hl : l ≠ []) : lines l = [l] := by
  rw [lines, linesFrom_rest h, if_neg fun h => hl h.1, List.reverse_nil, List.nil_append]

/-- The first character of a text is determined by its bytes. -/
theorem utf8EncodeChar_head {c d : Char} {xs ys : Bytes}
    (h : String.utf8EncodeChar c ++ xs = String.utf8EncodeChar d ++ ys) : c = d := by
  have hdecode (e : Char) (zs : Bytes) :
      ((String.utf8EncodeChar e ++ zs).toByteArray).utf8DecodeChar? 0 = some e := by
    have := ByteArray.utf8DecodeChar?_utf8EncodeChar_append (c := e) (b := zs.toByteArray)
    rwa [← List.toByteArray_append] at this
  have := hdecode c xs
  rw [h, hdecode d ys] at this
  exact (Option.some.inj this).symm

/-- A line that contains no newline and ends in something else than a carriage return
is read back. -/
theorem lines_append {l : Bytes} (h : newline ∉ l) (hr : l.getLast? ≠ some carriageReturn)
    (rest : Bytes) : lines (l ++ newline :: rest) = l :: lines rest := by
  rw [lines, linesFrom_append h, List.append_nil]
  congr 1
  rw [← List.head?_reverse] at hr
  cases hl : l.reverse with
  | nil => rw [List.reverse_eq_nil_iff.mp hl]; rfl
  | cons b k =>
    rw [hl, List.head?_cons, ne_eq, Option.some.injEq] at hr
    rw [stripCarriageReturn, if_neg hr, ← hl, List.reverse_reverse]

end AdGraphDb
