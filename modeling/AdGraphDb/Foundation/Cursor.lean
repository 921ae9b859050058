import Mathlib.Tactic

/-!
# Readers over a byte cursor

A reader takes the whole input and a cursor and returns an outcome together with
the cursor it leaves, also when it fails. `panicked` stands for an index, a slice
or an `unwrap` that is out of range.

Five properties of readers are closed under sequencing: a reader is `Safe` when it
never panics and moves the cursor forward inside the input, it `Decodes` a code
word, it `Rejects` every proper prefix of a code word at the end of the input, it
`Overruns` a code word that other bytes cut short, and it `Shifts` with its input.
A `Regular` reader is safe and shifts, a `Steady` one does so but for panics; a reader that
`Parses` a word decodes it, rejects its prefixes and overruns it.
-/

namespace AdGraphDb

abbrev Bytes := List UInt8

/-- How a computation over a byte cursor ends. -/
inductive Outcome (ε α : Type) where
  | ok (a : α)
  | err (e : ε)
  | panicked
deriving DecidableEq

/-- A function of `(data: &[u8], pos: &mut usize)`. -/
def Reader (ε α : Type) : Type := Bytes → Nat → Outcome ε α × Nat

/-- `data[i..j]`, or `none` where Rust panics. -/
def slice? (data : Bytes) (i j : Nat) : Option Bytes :=
  if i ≤ j ∧ j ≤ data.length then some ((data.drop i).take (j - i)) else none

namespace Reader

variable {ε α β : Type}

protected def bind (p : Reader ε α) (f : α → Reader ε β) : Reader ε β := fun data pos =>
  match p data pos with
  | (.ok a, pos') => f a data pos'
  | (.err e, pos') => (.err e, pos')
  | (.panicked, pos') => (.panicked, pos')

instance : Monad (Reader ε) where
  pure a := fun _ pos => (.ok a, pos)
  bind := Reader.bind

def fail (e : ε) : Reader ε α := fun _ pos => (.err e, pos)

def unwrap : Option α → Reader ε α
  | some a => pure a
  | none => fun _ pos => (.panicked, pos)

/-- One byte, or the error `eof` at the end of the input. -/
def byte (eof : ε) : Reader ε UInt8 := fun data pos =>
  if pos ≥ data.length then (.err eof, pos)
  else match data[pos]? with
    | some v => (.ok v, pos + 1)
    | none => (.panicked, pos)

/-- The next `n` bytes, or the error `eof` when fewer are left. -/
def bytes (eof : ε) (n : Nat) : Reader ε Bytes := fun data pos =>
  if pos + n > data.length then (.err eof, pos)
  else match slice? data pos (pos + n) with
    | some s => (.ok s, pos + n)
    | none => (.panicked, pos)

theorem bind_apply (p : Reader ε α) (f : α → Reader ε β) (data : Bytes) (pos : Nat) :
    (p >>= f) data pos = match p data pos with
      | (.ok a, pos') => f a data pos'
      | (.err e, pos') => (.err e, pos')
      | (.panicked, pos') => (.panicked, pos') := rfl

theorem bind_ok {p : Reader ε α} {f : α → Reader ε β} {data : Bytes} {pos pos' : Nat} {a : α}
    (h : p data pos = (.ok a, pos')) : (p >>= f) data pos = f a data pos' := by
  rw [bind_apply, h]

theorem bind_err {p : Reader ε α} {f : α → Reader ε β} {data : Bytes} {pos pos' : Nat} {e : ε}
    (h : p data pos = (.err e, pos')) : (p >>= f) data pos = (.err e, pos') := by
  rw [bind_apply, h]

theorem bind_eq_ok {p : Reader ε α} {f : α → Reader ε β} {data : Bytes} {pos pos' : Nat} {b : β}
    (h : (p >>= f) data pos = (.ok b, pos')) :
    ∃ a q, p data pos = (.ok a, q) ∧ f a data q = (.ok b, pos') := by
  rw [bind_apply] at h
  match hp : p data pos with
  | (.ok a, q) => rw [hp] at h; exact ⟨a, q, rfl, h⟩
  | (.err _, q) => rw [hp] at h; cases h
  | (.panicked, q) => rw [hp] at h; cases h

/-! ## Safety -/

/-- Never panics, never moves back and never leaves the input. -/
def Safe (p : Reader ε α) : Prop := ∀ data pos, pos ≤ data.length →
  (p data pos).1 ≠ .panicked ∧ pos ≤ (p data pos).2 ∧ (p data pos).2 ≤ data.length

/-- `a` is a possible result. -/
def Returns (p : Reader ε α) (a : α) : Prop := ∃ data pos, (p data pos).1 = .ok a

theorem Safe.pure (a : α) : Safe (ε := ε) (pure a) := fun _ _ h =>
  ⟨nofun, le_rfl, h⟩

theorem Safe.fail (e : ε) : Safe (α := α) (fail e) := fun _ _ h =>
  ⟨nofun, le_rfl, h⟩

theorem Safe.unwrap {o : Option α} (h : o.isSome) : Safe (ε := ε) (unwrap o) := by
  obtain ⟨a, rfl⟩ := Option.isSome_iff_exists.mp h
  exact Safe.pure a

theorem Safe.bind {p : Reader ε α} {f : α → Reader ε β} (hp : Safe p)
    (hf : ∀ a, Returns p a → Safe (f a)) : Safe (p >>= f) := by
  intro data pos h
  obtain ⟨hn, hle, hlen⟩ := hp data pos h
  rw [bind_apply]
  match he : p data pos with
  | (.ok a, pos') =>
    rw [he] at hle hlen
    obtain ⟨hn', hle', hlen'⟩ := hf a ⟨data, pos, by rw [he]⟩ data pos' hlen
    exact ⟨hn', hle.trans hle', hlen'⟩
  | (.err e, pos') =>
    rw [he] at hle hlen
    exact ⟨nofun, hle, hlen⟩
  | (.panicked, pos') => exact absurd (by rw [he]) hn

theorem Safe.byte (eof : ε) : Safe (byte eof) := by
  intro data pos h
  unfold Reader.byte
  split_ifs with hp
  · exact ⟨nofun, le_rfl, h⟩
  · rw [List.getElem?_eq_getElem (by omega)]
    exact ⟨nofun, Nat.le_succ _, by dsimp only; omega⟩

theorem slice?_of_le {data : Bytes} {i n : Nat} (h : i + n ≤ data.length) :
    slice? data i (i + n) = some ((data.drop i).take n) := by
  rw [slice?, if_pos ⟨by omega, h⟩, Nat.add_sub_cancel_left]

theorem Safe.bytes (eof : ε) (n : Nat) : Safe (bytes eof n) := by
  intro data pos h
  unfold Reader.bytes
  split_ifs with hp
  · exact ⟨nofun, le_rfl, h⟩
  · rw [slice?_of_le (by omega)]
    exact ⟨nofun, by dsimp only; omega, by dsimp only; omega⟩

theorem length_of_returns_bytes {eof : ε} {n : Nat} {s : Bytes} (h : Returns (bytes eof n) s) :
    s.length = n := by
  obtain ⟨data, pos, h⟩ := h
  unfold bytes at h
  split_ifs at h with hp
  rw [slice?_of_le (by omega)] at h
  cases h
  simp only [List.length_take, List.length_drop]
  omega

/-! ## Decoding a code word -/

/-- Wherever the code word `w` lies ahead of the cursor, `p` reads it as `a`. -/
def Decodes (p : Reader ε α) (w : Bytes) (a : α) : Prop := ∀ data pos rest,
  pos ≤ data.length → data.drop pos = w ++ rest → p data pos = (.ok a, pos + w.length)

theorem drop_of_drop_append {data u v : Bytes} {pos : Nat} (h : data.drop pos = u ++ v) :
    data.drop (pos + u.length) = v := by
  rw [← List.drop_drop, h, List.drop_left]

theorem length_of_drop {data u : Bytes} {pos : Nat} (hp : pos ≤ data.length)
    (h : data.drop pos = u) : pos + u.length = data.length := by
  have := congrArg List.length h
  rw [List.length_drop] at this
  omega

theorem le_of_drop_append {data u v : Bytes} {pos : Nat} (hp : pos ≤ data.length)
    (h : data.drop pos = u ++ v) : pos + u.length ≤ data.length := by
  have := length_of_drop hp h
  rw [List.length_append] at this
  omega

theorem Decodes.pure (a : α) : Decodes (ε := ε) (pure a) [] a := fun _ _ _ _ _ => rfl

theorem Decodes.bind {p : Reader ε α} {f : α → Reader ε β} {v w : Bytes} {a : α} {b : β}
    (hp : Decodes p v a) (hf : Decodes (f a) w b) : Decodes (p >>= f) (v ++ w) b := by
  intro data pos rest hpos h
  rw [List.append_assoc] at h
  rw [bind_ok (hp data pos _ hpos h),
    hf data _ rest (le_of_drop_append hpos h) (drop_of_drop_append h), List.length_append,
    Nat.add_assoc]

theorem Decodes.byte (eof : ε) (v : UInt8) : Decodes (byte eof) [v] v := by
  intro data pos rest hpos h
  have hl := le_of_drop_append hpos h
  rw [List.length_singleton] at hl
  have hv : data[pos]? = some v := by
    have := congrArg (fun l : Bytes => l[0]?) h
    simpa using this
  rw [Reader.byte, if_neg (by omega), hv]
  rfl

theorem Decodes.bytes (eof : ε) (w : Bytes) : Decodes (bytes eof w.length) w w := by
  intro data pos rest hpos h
  have hl := le_of_drop_append hpos h
  rw [Reader.bytes, if_neg (by omega), slice?_of_le hl, h, List.take_left]

/-! ## Rejecting a torn code word -/

/-- A proper prefix of `w` at the very end of the input is an error. -/
def Rejects (p : Reader ε α) (w : Bytes) : Prop := ∀ data pos t, pos ≤ data.length →
  t <+: w → t ≠ w → data.drop pos = t → ∃ e pos', p data pos = (.err e, pos')

/-- A proper prefix of `v ++ w` is a proper prefix of `v`, or `v` and one of `w`. -/
theorem prefix_append_cases {t v w : Bytes} (h : t <+: v ++ w) (hne : t ≠ v ++ w) :
    (t <+: v ∧ t ≠ v) ∨ ∃ u, t = v ++ u ∧ u <+: w ∧ u ≠ w := by
  rcases List.prefix_or_prefix_of_prefix h (List.prefix_append v w) with ht | ⟨u, rfl⟩
  · by_cases e : t = v
    · refine .inr ⟨[], by simp [e], List.nil_prefix, ?_⟩
      rintro rfl
      exact hne (by simp [e])
    · exact .inl ⟨ht, e⟩
  · exact .inr ⟨u, rfl, (List.prefix_append_right_inj v).mp h, fun e => hne (by rw [e])⟩

theorem Rejects.pure (a : α) : Rejects (ε := ε) (pure a) [] := fun _ _ _ _ h hne _ =>
  absurd (List.prefix_nil.mp h) hne

theorem Rejects.bind {p : Reader ε α} {f : α → Reader ε β} {v w : Bytes} {a : α}
    (hd : Decodes p v a) (hp : Rejects p v) (hf : Rejects (f a) w) :
    Rejects (p >>= f) (v ++ w) := by
  intro data pos t hpos ht hne h
  rcases prefix_append_cases ht hne with ⟨ht, hne⟩ | ⟨u, rfl, hu, hne⟩
  · obtain ⟨e, pos', he⟩ := hp data pos t hpos ht hne h
    exact ⟨e, pos', bind_err he⟩
  · rw [bind_ok (hd data pos u hpos h)]
    exact hf data _ u (le_of_drop_append hpos h) hu hne (drop_of_drop_append h)

theorem length_lt_of_prefix {t w : Bytes} (h : t <+: w) (hne : t ≠ w) : t.length < w.length :=
  lt_of_le_of_ne h.length_le fun e => hne (h.eq_of_length e)

theorem Rejects.byte (eof : ε) (v : UInt8) : Rejects (byte eof) [v] := by
  intro data pos t hpos ht hne h
  have hl := length_of_drop hpos h
  have ht := length_lt_of_prefix ht hne
  rw [List.length_singleton] at ht
  exact ⟨eof, pos, by rw [Reader.byte, if_pos (by omega)]⟩

theorem Rejects.bytes (eof : ε) (w : Bytes) : Rejects (bytes eof w.length) w := by
  intro data pos t hpos ht hne h
  have hl := length_of_drop hpos h
  have ht := length_lt_of_prefix ht hne
  exact ⟨eof, pos, by rw [Reader.bytes, if_pos (by omega)]⟩

/-! ## Overrunning a code word that other bytes cut short -/

/-- When a proper prefix `t` of `w` is followed by enough other bytes, the cursor ends
behind the place where `w` was cut. -/
def Overruns (p : Reader ε α) (w : Bytes) : Prop := ∀ data pos t u, pos ≤ data.length →
  t <+: w → t ≠ w → data.drop pos = t ++ u → w.length ≤ t.length + u.length →
    pos + t.length < (p data pos).2

theorem Overruns.pure (a : α) : Overruns (ε := ε) (pure a) [] := fun _ _ _ _ _ h hne _ _ =>
  absurd (List.prefix_nil.mp h) hne

theorem Overruns.bind {p : Reader ε α} {f : α → Reader ε β} {v w : Bytes} {a : α}
    (hd : Decodes p v a) (hsp : Safe p) (hsf : ∀ b, Returns p b → Safe (f b))
    (hp : Overruns p v) (hf : Overruns (f a) w) : Overruns (p >>= f) (v ++ w) := by
  intro data pos t u hpos ht hne h hlen
  rw [List.length_append] at hlen
  rcases prefix_append_cases ht hne with ⟨ht, hne⟩ | ⟨t', rfl, ht', hne⟩
  · have hlt := hp data pos t u hpos ht hne h (by omega)
    obtain ⟨-, -, hb⟩ := hsp data pos hpos
    rw [bind_apply]
    match he : p data pos with
    | (.ok b, pos') =>
      rw [he] at hlt hb
      exact hlt.trans_le (hsf b ⟨data, pos, by rw [he]⟩ data pos' hb).2.1
    | (.err e, pos') => rw [he] at hlt; exact hlt
    | (.panicked, pos') => rw [he] at hlt; exact hlt
  · rw [List.append_assoc] at h
    rw [List.length_append] at hlen
    rw [bind_ok (hd data pos _ hpos h), List.length_append, ← Nat.add_assoc]
    exact hf data _ t' u (le_of_drop_append hpos h) ht' hne (drop_of_drop_append h) (by omega)

theorem Overruns.byte (eof : ε) (v : UInt8) : Overruns (byte eof) [v] := by
  intro data pos t u hpos ht hne h hlen
  have hl := length_of_drop hpos h
  have ht := length_lt_of_prefix ht hne
  rw [List.length_singleton] at ht hlen
  rw [List.length_append] at hl
  rw [Reader.byte, if_neg (by omega), List.getElem?_eq_getElem (by omega)]
  dsimp only
  omega

theorem Overruns.bytes (eof : ε) {n : Nat} (w : Bytes) (hw : w.length = n) :
    Overruns (bytes eof n) w := by
  intro data pos t u hpos ht hne h hlen
  have hl := length_of_drop hpos h
  have ht := length_lt_of_prefix ht hne
  rw [List.length_append] at hl
  rw [Reader.bytes, if_neg (by omega), slice?_of_le (by omega)]
  dsimp only
  omega

/-! ## Locality -/

/-- Reading behind `k` bytes is reading the rest of the input on its own. -/
def Shifts (p : Reader ε α) : Prop := ∀ data k pos, k ≤ data.length →
  p data (k + pos) = ((p (data.drop k) pos).1, k + (p (data.drop k) pos).2)

theorem Shifts.pure (a : α) : Shifts (ε := ε) (pure a) := fun _ _ _ _ => rfl

theorem Shifts.fail (e : ε) : Shifts (α := α) (fail e) := fun _ _ _ _ => rfl

theorem Shifts.unwrap (o : Option α) : Shifts (ε := ε) (unwrap o) := by
  cases o <;> exact fun _ _ _ _ => rfl

theorem Shifts.bind {p : Reader ε α} {f : α → Reader ε β} (hp : Shifts p)
    (hf : ∀ a, Returns p a → Shifts (f a)) : Shifts (p >>= f) := by
  intro data k pos hk
  rw [bind_apply, bind_apply, hp data k pos hk]
  match he : p (data.drop k) pos with
  | (.ok a, pos') => exact hf a ⟨data.drop k, pos, by rw [he]⟩ data k pos' hk
  | (.err e, pos') => rfl
  | (.panicked, pos') => rfl

theorem Shifts.byte (eof : ε) : Shifts (byte eof) := by
  intro data k pos hk
  simp only [Reader.byte, List.length_drop, List.getElem?_drop]
  by_cases h : pos ≥ data.length - k
  · rw [if_pos h, if_pos (by omega)]
  · rw [if_neg h, if_neg (by omega), List.getElem?_eq_getElem (by omega)]
    rfl

theorem Shifts.bytes (eof : ε) (n : Nat) : Shifts (bytes eof n) := by
  intro data k pos hk
  simp only [Reader.bytes, List.length_drop]
  by_cases h : pos + n > data.length - k
  · rw [if_pos h, if_pos (by omega)]
  · rw [if_neg h, if_neg (by omega), slice?_of_le (by omega),
      slice?_of_le (by rw [List.length_drop]; omega), List.drop_drop, Nat.add_assoc]

/-! ## Bundles -/

structure Regular (p : Reader ε α) : Prop where
  safe : Safe p
  shifts : Shifts p

theorem Regular.pure (a : α) : Regular (ε := ε) (pure a) := ⟨.pure a, .pure a⟩

theorem Regular.fail (e : ε) : Regular (α := α) (fail e) := ⟨.fail e, .fail e⟩

theorem Regular.unwrap {o : Option α} (h : o.isSome) : Regular (ε := ε) (unwrap o) :=
  ⟨.unwrap h, .unwrap o⟩

theorem Regular.byte (eof : ε) : Regular (byte eof) := ⟨.byte eof, .byte eof⟩

theorem Regular.bytes (eof : ε) (n : Nat) : Regular (bytes eof n) := ⟨.bytes eof n, .bytes eof n⟩

theorem Regular.bind_returns {p : Reader ε α} {f : α → Reader ε β} (hp : Regular p)
    (hf : ∀ a, Returns p a → Regular (f a)) : Regular (p >>= f) :=
  ⟨hp.safe.bind fun a h => (hf a h).safe, hp.shifts.bind fun a h => (hf a h).shifts⟩

theorem Regular.bind {p : Reader ε α} {f : α → Reader ε β} (hp : Regular p)
    (hf : ∀ a, Regular (f a)) : Regular (p >>= f) := hp.bind_returns fun a _ => hf a

/-- A reader that may panic, but never moves back, stays in the input and shifts. -/
structure Steady (p : Reader ε α) : Prop where
  forward : ∀ data pos, pos ≤ data.length → pos ≤ (p data pos).2 ∧ (p data pos).2 ≤ data.length
  shifts : Shifts p

theorem Regular.steady {p : Reader ε α} (h : Regular p) : Steady p :=
  ⟨fun data pos hpos => (h.safe data pos hpos).2, h.shifts⟩

theorem Steady.unwrap (o : Option α) : Steady (ε := ε) (unwrap o) := by
  refine ⟨fun _ _ hpos => ?_, .unwrap o⟩
  cases o <;> exact ⟨le_rfl, hpos⟩

theorem Steady.bind {p : Reader ε α} {f : α → Reader ε β} (hp : Steady p)
    (hf : ∀ a, Steady (f a)) : Steady (p >>= f) := by
  refine ⟨fun data pos hpos => ?_, hp.shifts.bind fun a _ => (hf a).shifts⟩
  obtain ⟨hle, hlen⟩ := hp.forward data pos hpos
  rw [bind_apply]
  match he : p data pos with
  | (.ok a, q) =>
    rw [he] at hle hlen
    have hnext := (hf a).forward data q hlen
    exact ⟨hle.trans hnext.1, hnext.2⟩
  | (.err e, q) => rw [he] at hle hlen; exact ⟨hle, hlen⟩
  | (.panicked, q) => rw [he] at hle hlen; exact ⟨hle, hlen⟩

structure Parses (p : Reader ε α) (w : Bytes) (a : α) : Prop where
  decodes : Decodes p w a
  rejects : Rejects p w
  overruns : Overruns p w

theorem Parses.pure (a : α) : Parses (ε := ε) (pure a) [] a := ⟨.pure a, .pure a, .pure a⟩

theorem Parses.byte (eof : ε) (v : UInt8) : Parses (byte eof) [v] v :=
  ⟨.byte eof v, .byte eof v, .byte eof v⟩

theorem Parses.bytes (eof : ε) {n : Nat} (w : Bytes) (hw : w.length = n) :
    Parses (bytes eof n) w w := by
  subst hw
  exact ⟨.bytes eof w, .bytes eof w, .bytes eof w rfl⟩

theorem Parses.bind {p : Reader ε α} {f : α → Reader ε β} {v w : Bytes} {a : α} {b : β}
    (hp : Parses p v a) (hrp : Regular p) (hrf : ∀ c, Returns p c → Regular (f c))
    (hf : Parses (f a) w b) : Parses (p >>= f) (v ++ w) b :=
  ⟨hp.decodes.bind hf.decodes, .bind hp.decodes hp.rejects hf.rejects,
    .bind hp.decodes hrp.safe (fun c h => (hrf c h).safe) hp.overruns hf.overruns⟩

/-- A last step that only computes. -/
theorem Parses.map {p : Reader ε α} {w : Bytes} {a : α} (hp : Parses p w a) (hrp : Regular p)
    (g : α → β) : Parses (p >>= fun c => Pure.pure (g c)) w (g a) := by
  have h := hp.bind hrp (f := fun c => Pure.pure (g c)) (fun c _ => .pure (g c)) (.pure (g a))
  rwa [List.append_nil] at h

end Reader

/-! ## Little-endian numbers -/

/-- The `n` low bytes of `v`, the lowest first. -/
def leBytes : Nat → Nat → Bytes
  | 0, _ => []
  | n + 1, v => UInt8.ofNat v :: leBytes n (v / 256)

def leValue : Bytes → Nat
  | [] => 0
  | b :: bs => b.toNat + 256 * leValue bs

@[simp] theorem leBytes_length (n v : Nat) : (leBytes n v).length = n := by
  induction n generalizing v with
  | zero => rfl
  | succ n ih => rw [leBytes, List.length_cons, ih]

theorem leValue_leBytes (n v : Nat) : leValue (leBytes n v) = v % 256 ^ n := by
  induction n generalizing v with
  | zero => simp [leBytes, leValue, Nat.mod_one]
  | succ n ih =>
    have h : (UInt8.ofNat v).toNat = v % 256 := UInt8.toNat_ofNat'
    rw [leBytes, leValue, ih, h, ← Nat.mod_mul, Nat.pow_succ']

theorem leValue_lt (bs : Bytes) : leValue bs < 256 ^ bs.length := by
  induction bs with
  | nil => simp [leValue]
  | cons b bs ih =>
    have := b.toNat_lt
    rw [leValue, List.length_cons, Nat.pow_succ']
    omega

end AdGraphDb
