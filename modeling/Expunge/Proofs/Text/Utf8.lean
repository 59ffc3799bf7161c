import Expunge.Text.Utf8

/-!
# Characters and their bytes

The bytes of a text are read as the characters of the text (`symbolsOfBytes_flatMap`), and the byte
of the line feed stands in them only where the text has a line feed (`lineFeed_mem_encode_iff`). So
bytes can be cut into lines before they are read as characters.
-/

namespace Expunge.Text

/-! ## Single characters -/

/-- A code point that is long enough is read as its character. -/
theorem scalar?_toNat {least : Nat} {c : Char} (h : least ≤ c.toNat) :
    scalar? least c.toNat = some c := by
  have hvalid : c.toNat.isValidChar := c.valid
  rw [scalar?, dif_pos hvalid, if_pos h]
  rfl

theorem toNat_byte {n : Nat} (h : n < 256) : (UInt8.ofNat n).toNat = n :=
  UInt8.toNat_ofNat_of_lt' h

/-- A continuation byte gives its payload back. -/
theorem continuation?_ofNat {bits : Nat} (h : bits < 64) :
    continuation? (UInt8.ofNat (bits + 0x80)) = some bits := by
  have hbyte := toNat_byte (show bits + 0x80 < 256 by omega)
  rw [continuation?, if_pos, hbyte, Nat.add_sub_cancel]
  simp only [UInt8.le_iff_toNat_le, UInt8.lt_iff_toNat_lt, hbyte, UInt8.reduceToNat]
  omega

/-- The payloads of continuation bytes are put together in base 64. -/
theorem continuations?_cons {bits count payload : Nat} (h : bits < 64) (rest : List UInt8) :
    continuations? (count + 1) payload (UInt8.ofNat (bits + 0x80) :: rest) =
      continuations? count (payload * 64 + bits) rest := by
  rw [continuations?, continuation?_ofNat h]
  rfl

theorem continuations?_zero (payload : Nat) (rest : List UInt8) :
    continuations? 0 payload rest = some payload := by
  rw [continuations?]

/-- The bytes of a character are one byte that says how many follow, and those that follow. -/
theorem sequence?_encode (c : Char) : ∃ head tail, String.utf8EncodeChar c = head :: tail ∧
    ∀ rest, sequence? head (tail ++ rest) = some (c, tail.length) := by
  have hvalid : c.toNat.isValidChar := c.valid
  have hc : c.val.toNat = c.toNat := rfl
  have hlimit : c.toNat < 0x110000 := by
    rcases hvalid with h | h <;> omega
  rw [String.utf8EncodeChar]
  simp only [hc]
  split
  · refine ⟨_, _, rfl, fun rest => ?_⟩
    have hhead := toNat_byte (show c.toNat < 256 by omega)
    simp only [sequence?, UInt8.lt_iff_toNat_lt, hhead, UInt8.reduceToNat]
    rw [if_pos (by omega), scalar?_toNat (Nat.zero_le _)]
    rfl
  split
  · refine ⟨_, _, rfl, fun rest => ?_⟩
    have hhead := toNat_byte (show c.toNat / 64 % 0x20 + 0xc0 < 256 by omega)
    have hpoint : c.toNat / 64 % 0x20 * 64 + c.toNat % 0x40 = c.toNat := by omega
    simp only [sequence?, UInt8.lt_iff_toNat_lt, UInt8.le_iff_toNat_le, hhead, UInt8.reduceToNat,
      List.cons_append, Nat.add_sub_cancel]
    rw [if_neg (by omega), if_pos (by omega), continuations?_cons (by omega), continuations?_zero,
      hpoint, Option.bind_eq_bind, Option.bind_some, scalar?_toNat (by omega)]
    rfl
  split
  · refine ⟨_, _, rfl, fun rest => ?_⟩
    have hhead := toNat_byte (show c.toNat / 4096 % 0x10 + 0xe0 < 256 by omega)
    have hpoint : (c.toNat / 4096 % 0x10 * 64 + c.toNat / 64 % 0x40) * 64 + c.toNat % 0x40 =
        c.toNat := by omega
    simp only [sequence?, UInt8.lt_iff_toNat_lt, UInt8.le_iff_toNat_le, hhead, UInt8.reduceToNat,
      List.cons_append, Nat.add_sub_cancel]
    rw [if_neg (by omega), if_neg (by omega), if_pos (by omega), continuations?_cons (by omega),
      continuations?_cons (by omega), continuations?_zero, hpoint, Option.bind_eq_bind,
      Option.bind_some, scalar?_toNat (by omega)]
    rfl
  · refine ⟨_, _, rfl, fun rest => ?_⟩
    have hhead := toNat_byte (show c.toNat / 262144 % 0x08 + 0xf0 < 256 by omega)
    have hpoint : ((c.toNat / 262144 % 0x08 * 64 + c.toNat / 4096 % 0x40) * 64 +
        c.toNat / 64 % 0x40) * 64 + c.toNat % 0x40 = c.toNat := by omega
    simp only [sequence?, UInt8.lt_iff_toNat_lt, UInt8.le_iff_toNat_le, hhead, UInt8.reduceToNat,
      List.cons_append, Nat.add_sub_cancel]
    rw [if_neg (by omega), if_neg (by omega), if_neg (by omega), if_pos (by omega),
      continuations?_cons (by omega), continuations?_cons (by omega),
      continuations?_cons (by omega), continuations?_zero, hpoint, Option.bind_eq_bind,
      Option.bind_some, scalar?_toNat (by omega)]
    rfl

/-- The bytes of a character are read as the character, whatever follows them. -/
theorem symbolsOfBytes_encode (c : Char) (rest : List UInt8) :
    symbolsOfBytes (String.utf8EncodeChar c ++ rest) = some c :: symbolsOfBytes rest := by
  obtain ⟨head, tail, hencode, hread⟩ := sequence?_encode c
  rw [hencode, List.cons_append, symbolsOfBytes, hread]
  simp

/-! ## Texts -/

/-- The bytes of a text are read as its characters. -/
theorem symbolsOfBytes_flatMap (text : List Char) :
    symbolsOfBytes (text.flatMap String.utf8EncodeChar) = text.map some := by
  induction text with
  | nil => simp [symbolsOfBytes]
  | cons c text ih => rw [List.flatMap_cons, symbolsOfBytes_encode, ih, List.map_cons]

/-- The byte of the line feed is a byte of no other character. -/
theorem lineFeed_mem_encode_iff {c : Char} : 10 ∈ String.utf8EncodeChar c ↔ c = '\n' := by
  have hbyte {n : Nat} (h : n < 256) : 10 = UInt8.ofNat n ↔ n = 10 := by
    rw [← UInt8.toNat_inj, toNat_byte h]
    exact eq_comm
  have hc : c.val.toNat = c.toNat := rfl
  have hfeed : c = '\n' ↔ c.toNat = 10 := by
    rw [← Char.toNat_inj]
    rfl
  rw [String.utf8EncodeChar, hfeed]
  simp only [hc]
  split
  · rw [List.mem_singleton, hbyte (by omega)]
  split
  · simp only [List.mem_cons, List.not_mem_nil, or_false]
    rw [hbyte (by omega), hbyte (by omega)]
    omega
  split
  · simp only [List.mem_cons, List.not_mem_nil, or_false]
    rw [hbyte (by omega), hbyte (by omega), hbyte (by omega)]
    omega
  · simp only [List.mem_cons, List.not_mem_nil, or_false]
    rw [hbyte (by omega), hbyte (by omega), hbyte (by omega), hbyte (by omega)]
    omega

end Expunge.Text
