import YamlIndent.Bytes.Utf8

/-!
# Bytes of texts

A text is the text of its bytes: what is encoded is decoded again. So no two texts have the same
bytes.

## Main results

* `Utf8.MakesUp.decodeFrom_append`: bytes that make up a character are read as that character.
* `Utf8.decode_encode`: what is encoded is decoded again.
-/

namespace YamlIndent.Utf8

/-! ### The bytes of a text -/

theorem toList_loop (bytes : ByteArray) (i : Nat) (taken : Bytes) :
    ByteArray.toList.loop bytes i taken = taken.reverse ++ bytes.data.toList.drop i := by
  fun_induction ByteArray.toList.loop bytes i taken with
  | case1 i taken hi ih =>
    have hlength : i < bytes.data.toList.length := hi
    have hget : bytes.get! i = bytes.data.toList[i] := getElem!_pos bytes.data i hi
    rw [ih, hget, List.reverse_cons, List.append_assoc, List.singleton_append,
      ← List.drop_eq_getElem_cons hlength]
  | case2 i taken hi =>
    have hlength : bytes.data.toList.length ≤ i := Nat.le_of_not_lt hi
    rw [List.drop_eq_nil_of_le hlength, List.append_nil]

theorem toList_toByteArray (bytes : Bytes) : bytes.toByteArray.toList = bytes := by
  rw [ByteArray.toList, toList_loop, List.toList_data_toByteArray]
  rfl

/-- The bytes of a text are those of its characters. -/
theorem encode_eq (t : Text) : encode t = t.flatMap String.utf8EncodeChar :=
  toList_toByteArray _

theorem encode_cons (c : Char) (t : Text) :
    encode (c :: t) = String.utf8EncodeChar c ++ encode t := by
  rw [encode_eq, encode_eq, List.flatMap_cons]

/-! ### Reading them -/

theorem toNat_ofNat_of_lt {n : Nat} (h : n < 256) : (UInt8.ofNat n).toNat = n := by
  rw [UInt8.toNat_ofNat', Nat.mod_eq_of_lt h]

theorem tailBytes_zero (low high : Nat) (bs : Bytes) : tailBytes 0 low high bs = [] := by
  cases bs <;> rfl

/-- A byte within its bounds is the next tail byte. -/
theorem tailBytes_cons {count low high b : Nat} {bs : Bytes} (hb : b < 256)
    (h : low ≤ b ∧ b ≤ high) :
    tailBytes (count + 1) low high (UInt8.ofNat b :: bs) = b :: tailBytes count 0x80 0xBF bs := by
  rw [tailBytes, toNat_ofNat_of_lt hb, if_pos (by simpa using h)]

/-- The first tail byte stays within the bounds that the lead byte gives, the others within those of
any tail byte. -/
theorem tailBytes_map {low high b : Nat} (tails : List Nat) (hb : b < 256)
    (hfirst : low ≤ b ∧ b ≤ high) (h : ∀ t ∈ tails, 0x80 ≤ t ∧ t ≤ 0xBF) (bs : Bytes) :
    tailBytes (tails.length + 1) low high ((b :: tails).map UInt8.ofNat ++ bs) = b :: tails := by
  induction tails generalizing low high b with
  | nil =>
    rw [List.map_singleton, List.singleton_append, List.length_nil, tailBytes_cons hb hfirst,
      tailBytes_zero]
  | cons t tails ih =>
    have ht := h t List.mem_cons_self
    rw [List.map_cons, List.cons_append, List.length_cons, tailBytes_cons hb hfirst,
      ih (by omega) ht fun u hu => h u (List.mem_cons_of_mem t hu)]

/-- A lead byte and tail bytes that make up a character: the tail bytes are the promised ones, and
the bits of all are those of the character. -/
structure MakesUp (lead : Lead) (b : Nat) (tails : List Nat) (c : Char) : Prop where
  lead_eq : lead? b = some lead
  lead_lt : b < 256
  tails_eq (bs : Bytes) :
    tailBytes lead.tails lead.low lead.high (tails.map UInt8.ofNat ++ bs) = tails
  length_eq : tails.length = lead.tails
  bits_eq : tails.foldl (fun n t => n * 0x40 + t % 0x40) lead.bits = c.toNat

/-- Bytes that make up a character are read as the character. -/
theorem MakesUp.decodeFrom_append {lead : Lead} {b : Nat} {tails : List Nat} {c : Char}
    (h : MakesUp lead b tails c) (position : Nat) (bs : Bytes) :
    decodeFrom position ((b :: tails).map UInt8.ofNat ++ bs) =
      (decodeFrom (position + (b :: tails).length) bs).map (c :: ·) := by
  have hlength : position + (b :: tails).length = position + 1 + lead.tails := by
    rw [List.length_cons, h.length_eq]
    omega
  have hdrop : (tails.map UInt8.ofNat ++ bs).drop lead.tails = bs := by
    rw [← h.length_eq, ← List.length_map (f := UInt8.ofNat), List.drop_left]
  rw [hlength, List.map_cons, List.cons_append, decodeFrom, toNat_ofNat_of_lt h.lead_lt, h.lead_eq]
  dsimp only
  rw [h.tails_eq, if_pos h.length_eq, hdrop, h.bits_eq, Char.ofNat_toNat]
  cases decodeFrom (position + 1 + lead.tails) bs <;> rfl

/-! ### The bytes of a character -/

section Character

variable {c : Char}

theorem exists_makesUp_one (h : c.toNat ≤ 0x7F) : ∃ lead, MakesUp lead c.toNat [] c := by
  refine ⟨⟨0, 0x80, 0xBF, c.toNat⟩, ?_, by omega, tailBytes_zero _ _, rfl, rfl⟩
  rw [lead?, if_pos (by omega)]

theorem exists_makesUp_two (hl : 0x7F < c.toNat) (h : c.toNat ≤ 0x7FF) :
    ∃ lead, MakesUp lead (c.toNat / 64 % 32 + 192) [c.toNat % 64 + 128] c := by
  have htail : 0x80 ≤ c.toNat % 64 + 128 ∧ c.toNat % 64 + 128 ≤ 0xBF := by omega
  refine ⟨⟨1, 0x80, 0xBF, c.toNat / 64 % 32⟩, ?_, by omega,
    tailBytes_map [] (by omega) htail (by simp), rfl, ?_⟩
  · rw [lead?, if_neg (by omega), if_neg (by omega), if_pos (by omega), Nat.add_sub_cancel]
  · simp only [List.foldl_cons, List.foldl_nil]
    omega

/-- The first tail byte is bounded from below because two bytes do for fewer bits, and from above
because no surrogate is a character. -/
theorem exists_makesUp_three (hl : 0x7FF < c.toNat) (h : c.toNat ≤ 0xFFFF) :
    ∃ lead, MakesUp lead (c.toNat / 4096 % 16 + 224)
      [c.toNat / 64 % 64 + 128, c.toNat % 64 + 128] c := by
  have hvalid : c.toNat < 0xD800 ∨ 0xDFFF < c.toNat ∧ c.toNat < 0x110000 := c.valid
  obtain ⟨low, high, hlead, hfirst⟩ : ∃ low high,
      lead? (c.toNat / 4096 % 16 + 224) = some ⟨2, low, high, c.toNat / 4096 % 16⟩ ∧
        low ≤ c.toNat / 64 % 64 + 128 ∧ c.toNat / 64 % 64 + 128 ≤ high := by
    rw [lead?, if_neg (by omega), if_neg (by omega), if_neg (by omega), if_pos (by omega),
      Nat.add_sub_cancel]
    refine ⟨_, _, rfl, ?_, ?_⟩ <;> split <;> omega
  refine ⟨_, hlead, by omega, tailBytes_map [_] (by omega) hfirst ?_, rfl, ?_⟩
  · simp only [List.mem_singleton, forall_eq]
    omega
  · simp only [List.foldl_cons, List.foldl_nil]
    omega

/-- The first tail byte is bounded from below because three bytes do for fewer bits, and from above
because the characters end. -/
theorem exists_makesUp_four (hl : 0xFFFF < c.toNat) :
    ∃ lead, MakesUp lead (c.toNat / 262144 % 8 + 240)
      [c.toNat / 4096 % 64 + 128, c.toNat / 64 % 64 + 128, c.toNat % 64 + 128] c := by
  have hvalid : c.toNat < 0xD800 ∨ 0xDFFF < c.toNat ∧ c.toNat < 0x110000 := c.valid
  obtain ⟨low, high, hlead, hfirst⟩ : ∃ low high,
      lead? (c.toNat / 262144 % 8 + 240) = some ⟨3, low, high, c.toNat / 262144 % 8⟩ ∧
        low ≤ c.toNat / 4096 % 64 + 128 ∧ c.toNat / 4096 % 64 + 128 ≤ high := by
    rw [lead?, if_neg (by omega), if_neg (by omega), if_neg (by omega), if_neg (by omega),
      if_pos (by omega), Nat.add_sub_cancel]
    refine ⟨_, _, rfl, ?_, ?_⟩ <;> split <;> omega
  refine ⟨_, hlead, by omega, tailBytes_map [_, _] (by omega) hfirst ?_, rfl, ?_⟩
  · simp only [List.mem_cons, List.not_mem_nil, or_false, forall_eq_or_imp, forall_eq]
    omega
  · simp only [List.foldl_cons, List.foldl_nil]
    omega

end Character

/-- The bytes of a character make it up. -/
theorem exists_makesUp (c : Char) : ∃ lead b tails,
    String.utf8EncodeChar c = (b :: tails).map UInt8.ofNat ∧ MakesUp lead b tails c := by
  have hnat : c.val.toNat = c.toNat := rfl
  rw [String.utf8EncodeChar, hnat]
  split
  · rename_i h1
    obtain ⟨lead, h⟩ := exists_makesUp_one h1
    exact ⟨lead, _, _, rfl, h⟩
  split
  · rename_i h1 h2
    obtain ⟨lead, h⟩ := exists_makesUp_two (Nat.lt_of_not_le h1) h2
    exact ⟨lead, _, _, rfl, h⟩
  split
  · rename_i h2 h3
    obtain ⟨lead, h⟩ := exists_makesUp_three (Nat.lt_of_not_le h2) h3
    exact ⟨lead, _, _, rfl, h⟩
  · rename_i h3
    obtain ⟨lead, h⟩ := exists_makesUp_four (Nat.lt_of_not_le h3)
    exact ⟨lead, _, _, rfl, h⟩

/-! ### The bytes of a text are read as the text -/

/-- What is encoded is decoded again. -/
theorem decode_encode (t : Text) : decode (encode t) = .ok t := by
  have h (position : Nat) : decodeFrom position (encode t) = .ok t := by
    induction t generalizing position with
    | nil => rw [encode_eq, List.flatMap_nil, decodeFrom]
    | cons c t ih =>
      obtain ⟨lead, b, tails, hc, h⟩ := exists_makesUp c
      rw [encode_cons, hc, h.decodeFrom_append, ih]
      rfl
  exact h 0

/-- No two texts have the same bytes. -/
theorem encode_injective : Function.Injective encode := by
  intro s t h
  have hs := decode_encode s
  rw [h, decode_encode t] at hs
  exact (Except.ok.inj hs).symm

end YamlIndent.Utf8
