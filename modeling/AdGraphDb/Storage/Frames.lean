import AdGraphDb.Storage.Replay
import AdGraphDb.Storage.CodecRoundTrip

/-!
# The frames of a log

The records that the replay loop executes are a function of the bytes behind the
header, `readLog`. Written records are read back in order; what is read behind them
depends on the remaining bytes alone.
-/

namespace AdGraphDb
open Reader

/-- Reading the type byte and the payload. -/
def recordBody [Allocator] : Decoder RecordData := do
  let recordType ← readU8
  decodeRecord recordType

theorem regular_recordBody : Regular recordBody := regular_readU8.bind regular_decodeRecord

theorem steady_recordBody [Allocator] : Steady recordBody :=
  regular_readU8.steady.bind steady_decodeRecord

/-- The bytes that the checksum covers. -/
def bodyBytes (ord : HashOrder) (r : RecordData) : Bytes := writeU8 (typeByte r) ++ payload ord r

theorem parses_recordBody (ord : HashOrder) {r : RecordData} (h : RecordFits r) :
    Parses recordBody (bodyBytes ord r) r :=
  (parses_readU8 _).bind regular_readU8 (fun t _ => regular_decodeRecord t)
    (parses_decodeRecord ord h)

theorem decodes_recordBody [Allocator] (ord : HashOrder) {r : RecordData} (h : RecordFits r)
    (hg : r.Granted) : Decodes recordBody (bodyBytes ord r) r :=
  (parses_readU8 _).decodes.bind (decodes_decodeRecord ord h hg)

theorem encodeRecord_eq_bodyBytes (ord : HashOrder) (r : RecordData) :
    encodeRecord ord r = bodyBytes ord r ++ writeU32 (adler32 (bodyBytes ord r)) :=
  encodeRecord_eq ord r

theorem writeU32_length (v : UInt32) : (writeU32 v).length = 4 := leBytes_length 4 _

theorem bodyBytes_length_pos (ord : HashOrder) (r : RecordData) :
    1 ≤ (bodyBytes ord r).length := by
  rw [bodyBytes, List.length_append]
  exact Nat.le_add_right 1 _

theorem encodeRecord_length (ord : HashOrder) (r : RecordData) :
    (encodeRecord ord r).length = (bodyBytes ord r).length + 4 := by
  rw [encodeRecord_eq_bodyBytes, List.length_append, writeU32_length]

/-! ## One frame -/

theorem readU32_eq (data : Bytes) (pos : Nat) :
    readU32 data pos = if pos + 4 ≤ data.length
      then (.ok (UInt32.ofNat (leValue ((data.drop pos).take 4))), pos + 4)
      else (.err (eof "4 bytes"), pos) := by
  rw [readU32, bind_apply, readLe, bind_apply, readBytes, bytes]
  by_cases h : pos + 4 ≤ data.length
  · have hl : ((data.drop pos).take 4).length = 4 := by
      rw [List.length_take, List.length_drop]
      omega
    rw [if_neg (by omega), slice?_of_le h, if_pos h]
    simp only [fromLeBytes?_isSome hl]
    rfl
  · rw [if_pos (by omega), if_neg h]
    rfl

theorem verifyChecksum_eq {data : Bytes} {recordStart pos : Nat} (found : Frame)
    (hs : recordStart ≤ pos) : verifyChecksum true data recordStart found pos =
      if pos + 4 ≤ data.length then
        (if adler32 ((data.drop recordStart).take (pos - recordStart)) ≠
            UInt32.ofNat (leValue ((data.drop pos).take 4)) then .skipped else found, pos + 4)
      else (.stopped, pos) := by
  rw [verifyChecksum, if_pos rfl, readU32_eq]
  by_cases h : pos + 4 ≤ data.length
  · rw [if_pos h, if_pos h]
    have hl : slice? data recordStart (pos + 4 - 4) =
        some ((data.drop recordStart).take (pos - recordStart)) := by
      rw [Nat.add_sub_cancel, slice?, if_pos ⟨hs, by omega⟩]
    simp only [hl]
    split_ifs <;> rfl
  · rw [if_neg h, if_neg h]

theorem readU8_of_lt {data : Bytes} {pos : Nat} (h : pos < data.length) :
    readU8 data pos = (.ok data[pos], pos + 1) := by
  rw [readU8, byte, if_neg (by omega), List.getElem?_eq_getElem h]

section
variable [Allocator]

/-- The frame at a cursor inside the input, without the cases that cannot happen. -/
theorem nextFrame_eq {data : Bytes} {pos : Nat} (h : pos < data.length) :
    nextFrame true data pos = match recordBody data pos with
      | (.ok r, p) => verifyChecksum true data pos (.record r) p
      | (.err _, p) => verifyChecksum true data pos .stopped p
      | (.panicked, p) => (.panicked, p) := by
  have hbody : recordBody data pos = decodeRecord data[pos] data (pos + 1) :=
    bind_ok (readU8_of_lt h)
  cases hd : decodeRecord data[pos] data (pos + 1) with
  | mk r p => cases r <;> simp only [nextFrame, readU8_of_lt h, hbody, hd]

/-- Reading a record moves the cursor over its type byte at least. -/
theorem lt_recordBody {data : Bytes} {pos : Nat} (h : pos < data.length) :
    pos < (recordBody data pos).2 := by
  rw [recordBody, bind_ok (readU8_of_lt h)]
  exact ((steady_decodeRecord _).forward data (pos + 1) h).1

/-- Every pass moves the cursor forward inside the input, and one that does not end the loop by at
least five bytes. -/
theorem nextFrame_advances {data : Bytes} {pos : Nat} (h : pos < data.length) :
    pos < (nextFrame true data pos).2 ∧ (nextFrame true data pos).2 ≤ data.length ∧
      ((nextFrame true data pos).1 ≠ .stopped → (nextFrame true data pos).1 ≠ .panicked →
        pos + 5 ≤ (nextFrame true data pos).2) := by
  have hlen := (steady_recordBody.forward data pos h.le).2
  have hlt : pos + 1 ≤ (recordBody data pos).2 := lt_recordBody h
  have verified (found : Frame) (p : Nat) (hp : pos + 1 ≤ p) (hl : p ≤ data.length) :
      pos < (verifyChecksum true data pos found p).2 ∧
        (verifyChecksum true data pos found p).2 ≤ data.length ∧
        ((verifyChecksum true data pos found p).1 ≠ .stopped →
          (verifyChecksum true data pos found p).1 ≠ .panicked →
            pos + 5 ≤ (verifyChecksum true data pos found p).2) := by
    rw [verifyChecksum_eq found (by omega)]
    split_ifs with h4 ha
    · exact ⟨by dsimp only; omega, h4, fun _ _ => by dsimp only; omega⟩
    · exact ⟨by dsimp only; omega, h4, fun _ _ => by dsimp only; omega⟩
    · exact ⟨hp, hl, fun e => absurd rfl e⟩
  rw [nextFrame_eq h]
  match hb : recordBody data pos with
  | (.ok r, p) => rw [hb] at hlt hlen; exact verified (.record r) p hlt hlen
  | (.err _, p) => rw [hb] at hlt hlen; exact verified .stopped p hlt hlen
  | (.panicked, p) => rw [hb] at hlt hlen; exact ⟨hlt, hlen, fun _ e => absurd rfl e⟩

/-- A frame depends on the bytes from the cursor on only. -/
theorem nextFrame_shift {data : Bytes} {k pos : Nat} (h : k + pos < data.length) :
    nextFrame true data (k + pos) =
      ((nextFrame true (data.drop k) pos).1, k + (nextFrame true (data.drop k) pos).2) := by
  have hd : pos < (data.drop k).length := by rw [List.length_drop]; omega
  have verified (found : Frame) (p : Nat) (hp : pos ≤ p) :
      verifyChecksum true data (k + pos) found (k + p) =
        ((verifyChecksum true (data.drop k) pos found p).1,
          k + (verifyChecksum true (data.drop k) pos found p).2) := by
    rw [verifyChecksum_eq found (by omega), verifyChecksum_eq found hp]
    simp only [List.length_drop, List.drop_drop, Nat.add_sub_add_left]
    by_cases h4 : k + p + 4 ≤ data.length
    · rw [if_pos h4, if_pos (show p + 4 ≤ data.length - k by omega), Nat.add_assoc]
    · rw [if_neg h4, if_neg (show ¬p + 4 ≤ data.length - k by omega)]
  have hle := (steady_recordBody.forward (data.drop k) pos hd.le).1
  rw [nextFrame_eq h, nextFrame_eq hd, steady_recordBody.shifts data k pos (by omega)]
  match hb : recordBody (data.drop k) pos with
  | (.ok r, p) => rw [hb] at hle; exact verified (.record r) p hle
  | (.err _, p) => rw [hb] at hle; exact verified .stopped p hle
  | (.panicked, p) => rfl

end

/-- Every pass that does not end the loop moves the cursor at least five bytes. -/
theorem nextFrame_safe {data : Bytes} {pos : Nat} (h : pos < data.length) :
    (nextFrame true data pos).1 ≠ .panicked ∧ pos < (nextFrame true data pos).2 ∧
      (nextFrame true data pos).2 ≤ data.length ∧
      ((nextFrame true data pos).1 ≠ .stopped → pos + 5 ≤ (nextFrame true data pos).2) := by
  obtain ⟨hlt, hle, hadvances⟩ := nextFrame_advances h
  have hreturns : (nextFrame true data pos).1 ≠ .panicked := by
    have hsafe := (regular_recordBody.safe data pos h.le).1
    have hforward := (regular_recordBody.safe data pos h.le).2.1
    have verified (found : Frame) (p : Nat) (hp : pos ≤ p) (hf : found ≠ .panicked) :
        (verifyChecksum true data pos found p).1 ≠ .panicked := by
      rw [verifyChecksum_eq found hp]
      split_ifs
      · exact nofun
      · exact hf
      · exact nofun
    rw [nextFrame_eq h]
    match hb : recordBody data pos with
    | (.ok r, p) => rw [hb] at hforward; exact verified (.record r) p hforward nofun
    | (.err _, p) => rw [hb] at hforward; exact verified .stopped p hforward nofun
    | (.panicked, p) => exact absurd (by rw [hb]) hsafe
  exact ⟨hreturns, hlt, hle, fun hs => hadvances hs hreturns⟩

theorem checksum_of_encode (v : UInt32) : UInt32.ofNat (leValue (writeU32 v)) = v := by
  rw [writeU32, leValue_leBytes, Nat.mod_eq_of_lt (by exact v.toNat_lt), UInt32.ofNat_toNat]

/-- A written record is the next frame, where the allocator has room for it. -/
theorem nextFrame_encode_of_granted [Allocator] (ord : HashOrder) {r : RecordData}
    (hr : RecordFits r) (hg : r.Granted) (rest : Bytes) :
    nextFrame true (encodeRecord ord r ++ rest) 0 = (.record r, (encodeRecord ord r).length) := by
  have hpos := bodyBytes_length_pos ord r
  have hlen := encodeRecord_length ord r
  have hd : encodeRecord ord r ++ rest =
      bodyBytes ord r ++ (writeU32 (adler32 (bodyBytes ord r)) ++ rest) := by
    rw [encodeRecord_eq_bodyBytes, List.append_assoc]
  have hbody := decodes_recordBody ord hr hg (encodeRecord ord r ++ rest) 0 _ (Nat.zero_le _) hd
  rw [nextFrame_eq (by rw [List.length_append]; omega), hbody]
  dsimp only
  rw [verifyChecksum_eq _ (Nat.zero_le _), Nat.zero_add, if_pos (by rw [List.length_append]; omega)]
  rw [hd, List.drop_zero, Nat.sub_zero, List.take_left, List.drop_left,
    ← writeU32_length (adler32 (bodyBytes ord r)), List.take_left, checksum_of_encode,
    if_neg (not_not.mpr rfl), hlen, writeU32_length]

theorem nextFrame_encode (ord : HashOrder) {r : RecordData} (hr : RecordFits r) (rest : Bytes) :
    nextFrame true (encodeRecord ord r ++ rest) 0 = (.record r, (encodeRecord ord r).length) :=
  nextFrame_encode_of_granted ord hr (granted_unlimited r) rest

/-- A record cut short by enough other bytes swallows some of them. -/
theorem nextFrame_overrun (ord : HashOrder) {r : RecordData} (hr : RecordFits r) {t u : Bytes}
    (ht : t <+: encodeRecord ord r) (hne : t ≠ encodeRecord ord r) (hnil : t ≠ [])
    (hlen : (encodeRecord ord r).length ≤ t.length + u.length) :
    t.length < (nextFrame true (t ++ u) 0).2 := by
  have hlt : 0 < t.length := List.length_pos_iff.mpr hnil
  have verified (found : Frame) {p : Nat} (hp : t.length < p) :
      t.length < (verifyChecksum true (t ++ u) 0 found p).2 := by
    rw [verifyChecksum_eq _ (Nat.zero_le _)]
    split_ifs <;> dsimp only <;> omega
  rw [nextFrame_eq (by rw [List.length_append]; omega)]
  rw [encodeRecord_length] at hlen
  rw [encodeRecord_eq_bodyBytes] at ht hne
  have hp := parses_recordBody ord hr
  rcases prefix_append_cases ht hne with ⟨ht, hne⟩ | ⟨v, rfl, hv, hne⟩
  · have hlt := hp.overruns (t ++ u) 0 t u (Nat.zero_le _) ht hne rfl (by omega)
    rw [Nat.zero_add] at hlt
    match hb : recordBody (t ++ u) 0 with
    | (.ok s, p) => rw [hb] at hlt; exact verified (.record s) hlt
    | (.err _, p) => rw [hb] at hlt; exact verified .stopped hlt
    | (.panicked, p) => rw [hb] at hlt; exact hlt
  · have := length_lt_of_prefix hv hne
    rw [writeU32_length] at this
    rw [hp.decodes _ 0 (v ++ u) (Nat.zero_le _) (by rw [List.drop_zero, List.append_assoc])]
    dsimp only
    rw [List.length_append] at hlen ⊢
    rw [verifyChecksum_eq _ (Nat.zero_le _), if_pos (by simp only [List.length_append]; omega)]
    dsimp only
    omega

end AdGraphDb
