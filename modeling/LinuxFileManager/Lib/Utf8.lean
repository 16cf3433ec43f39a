import Mathlib

/-!
# UTF-8 on lists of bytes

Results:

* `decode_eq_some`: the bytes that can be decoded are the encodings.
* `decode_append_ascii`: the parts on the two sides of an ASCII character are
  decoded by themselves.
* `exists_char_of_mem_encode`: the bytes of an encoding below `0x80` are ASCII
  characters of the text.
-/

namespace LinuxFileManager.Lib

/-- `str.encode('utf-8')` of a text without surrogates. -/
def encode (text : List Char) : List UInt8 := text.flatMap String.utf8EncodeChar

/-- `bytes.decode('utf-8')`; `none` is the exception. -/
def decode (bytes : List UInt8) : Option (List Char) :=
  (ByteArray.mk bytes.toArray).utf8Decode?.map Array.toList

theorem encode_append (s t : List Char) : encode (s ++ t) = encode s ++ encode t :=
  List.flatMap_append

theorem encode_cons (c : Char) (t : List Char) : encode (c :: t) = String.utf8EncodeChar c ++ encode t :=
  rfl

private theorem byteArray_encode (text : List Char) :
    ByteArray.mk (encode text).toArray = text.utf8Encode := by
  apply ByteArray.ext
  rw [List.utf8Encode, List.data_toByteArray]
  rfl

@[simp]
theorem decode_encode (text : List Char) : decode (encode text) = some text := by
  rw [decode, byteArray_encode, List.utf8Decode?_utf8Encode]
  rfl

/-- The bytes that can be decoded are the encodings. -/
theorem decode_eq_some {bytes : List UInt8} {text : List Char} :
    decode bytes = some text ↔ bytes = encode text := by
  constructor
  · intro h
    obtain ⟨chars, hchars, rfl⟩ := Option.map_eq_some_iff.mp h
    have hsome : (ByteArray.mk bytes.toArray).utf8Decode?.isSome := by
      rw [hchars]
      rfl
    have henc := ByteArray.utf8Encode_get_utf8Decode? (h := hsome)
    have hget : (ByteArray.mk bytes.toArray).utf8Decode?.get hsome = chars :=
      Option.get_of_eq_some hsome hchars
    rw [hget, ← byteArray_encode] at henc
    have harray := congrArg (fun b => b.data.toList) henc
    exact harray.symm
  · rintro rfl
    exact decode_encode text

private theorem decode_encode_singleton_append (c : Char) (bytes : List UInt8) :
    decode (encode [c] ++ bytes) = (decode bytes).map (c :: ·) := by
  have happend : ByteArray.mk (encode [c] ++ bytes).toArray =
      [c].utf8Encode ++ ByteArray.mk bytes.toArray := by
    apply ByteArray.ext
    rw [ByteArray.data_append, ← byteArray_encode, List.append_toArray]
  rw [decode, happend, ByteArray.utf8Decode?_utf8Encode_singleton_append, decode, Option.map_map,
    Option.map_map]
  congr 1
  funext chars
  simp

/-- A text at the start is decoded by itself. -/
theorem decode_encode_append (text : List Char) (bytes : List UInt8) :
    decode (encode text ++ bytes) = (decode bytes).map (text ++ ·) := by
  induction text with
  | nil => simp [encode]
  | cons c text ih =>
    have hcons : encode (c :: text) = encode [c] ++ encode text := by
      rw [← encode_append, List.singleton_append]
    rw [hcons, List.append_assoc, decode_encode_singleton_append, ih, Option.map_map]
    rfl

/-- A character has at least one byte. -/
theorem length_le_encode (text : List Char) : text.length ≤ (encode text).length := by
  induction text with
  | nil => exact le_rfl
  | cons c text ih =>
    have hpos := c.utf8Size_pos
    rw [encode_cons, List.length_append, String.length_utf8EncodeChar, List.length_cons]
    omega

/-! ## ASCII characters -/

/-- The bytes of a character: itself when it is ASCII, and otherwise bytes from
    `0x80` on. -/
theorem utf8EncodeChar_cases (c : Char) :
    (c.toNat < 0x80 ∧ String.utf8EncodeChar c = [UInt8.ofNat c.toNat]) ∨
    (0x80 ≤ c.toNat ∧ String.utf8EncodeChar c ≠ [] ∧
      ∀ b ∈ String.utf8EncodeChar c, 0x80 ≤ b.toNat) := by
  by_cases hc : c.toNat < 0x80
  · refine .inl ⟨hc, ?_⟩
    rw [String.utf8EncodeChar, if_pos (by show c.toNat ≤ 0x7f; omega)]
    rfl
  · refine .inr ⟨by omega, ?_, ?_⟩
    · rw [Ne, ← List.length_eq_zero_iff, String.length_utf8EncodeChar]
      have := c.utf8Size_pos
      omega
    · intro b hb
      have hsmall : ¬ c.val.toNat ≤ 0x7f := by
        show ¬ c.toNat ≤ 0x7f
        omega
      simp only [String.utf8EncodeChar, if_neg hsmall] at hb
      split_ifs at hb <;> simp only [List.mem_cons, List.not_mem_nil, or_false] at hb
      all_goals
        rcases hb with rfl | rfl | rfl | rfl <;>
        · rw [UInt8.toNat_ofNat']
          omega

theorem length_encode_ascii {text : List Char} (h : ∀ c ∈ text, c.toNat < 0x80) :
    (encode text).length = text.length := by
  induction text with
  | nil => rfl
  | cons c text ih =>
    rw [List.forall_mem_cons] at h
    rcases utf8EncodeChar_cases c with ⟨-, hbytes⟩ | ⟨hhigh, -⟩
    · rw [encode_cons, hbytes, List.singleton_append, List.length_cons, ih h.2, List.length_cons]
    · omega

/-- The bytes of an encoding below `0x80` are ASCII characters of the text. -/
theorem exists_char_of_mem_encode {text : List Char} {b : UInt8} (hb : b ∈ encode text)
    (hlt : b.toNat < 0x80) : ∃ c ∈ text, c.toNat = b.toNat := by
  obtain ⟨c, hc, hmem⟩ := List.mem_flatMap.mp hb
  rcases utf8EncodeChar_cases c with ⟨hascii, hbytes⟩ | ⟨-, -, hhigh⟩
  · rw [hbytes, List.mem_singleton] at hmem
    refine ⟨c, hc, ?_⟩
    rw [hmem, UInt8.toNat_ofNat']
    omega
  · have := hhigh b hmem
    omega

private theorem split_encode_ascii {text : List Char} {c : Char} (hc : c.toNat < 0x80)
    {a b : List UInt8} (h : encode text = a ++ UInt8.ofNat c.toNat :: b) :
    ∃ s t, a = encode s ∧ b = encode t ∧ text = s ++ c :: t := by
  induction text generalizing a with
  | nil => exact absurd h.symm (by simp [encode])
  | cons d text ih =>
    rw [encode_cons] at h
    have hrest (a' : List UInt8) (ha : a = String.utf8EncodeChar d ++ a')
        (hb : encode text = a' ++ UInt8.ofNat c.toNat :: b) :
        ∃ s t, a = encode s ∧ b = encode t ∧ d :: text = s ++ c :: t := by
      obtain ⟨s, t, rfl, hbt, rfl⟩ := ih hb
      exact ⟨d :: s, t, ha, hbt, rfl⟩
    rcases List.append_eq_append_iff.mp h with ⟨a', ha, hb⟩ | ⟨c', hd, hb⟩
    · exact hrest a' ha hb
    cases c' with
    | nil => exact hrest [] (by rw [hd, List.append_nil, List.append_nil]) hb.symm
    | cons x c' =>
      obtain ⟨rfl, hb⟩ := List.cons.inj hb
      have hmem : UInt8.ofNat c.toNat ∈ String.utf8EncodeChar d := by simp [hd]
      rcases utf8EncodeChar_cases d with ⟨hascii, hbytes⟩ | ⟨-, -, hhigh⟩
      · -- the byte is the character `d`
        rw [hbytes] at hd
        obtain ⟨rfl, hx, rfl⟩ : a = [] ∧ UInt8.ofNat d.toNat = UInt8.ofNat c.toNat ∧ c' = [] := by
          cases a with
          | nil => simpa [eq_comm] using hd
          | cons y a => simp at hd
        have hdc : d = c := by
          have hnat := congrArg UInt8.toNat hx
          rw [UInt8.toNat_ofNat', UInt8.toNat_ofNat'] at hnat
          apply Char.ext
          apply UInt32.toNat.inj
          show d.toNat = c.toNat
          omega
        exact ⟨[], text, rfl, (List.cons.inj hb).2, by rw [hdc, List.nil_append]⟩
      · have := hhigh _ hmem
        rw [UInt8.toNat_ofNat'] at this
        omega

/-- What is before an ASCII character is a text, and so is what is behind it. -/
theorem decode_append_ascii {a b : List UInt8} {p text : List Char} {c : Char}
    (hp : p.head? = some c) (hc : c.toNat < 0x80) (h : decode (a ++ encode p ++ b) = some text) :
    ∃ s t, decode a = some s ∧ decode b = some t ∧ text = s ++ p ++ t := by
  obtain ⟨p, rfl⟩ := List.head?_eq_some_iff.mp hp
  have hbyte : encode (c :: p) = UInt8.ofNat c.toNat :: encode p := by
    rcases utf8EncodeChar_cases c with ⟨-, hbytes⟩ | ⟨hhigh, -⟩
    · rw [encode_cons, hbytes, List.singleton_append]
    · omega
  rw [decode_eq_some, hbyte, List.append_assoc, List.cons_append] at h
  obtain ⟨s, t, rfl, ht, rfl⟩ := split_encode_ascii hc h.symm
  have hdec := decode_encode_append p b
  rw [ht, decode_encode] at hdec
  obtain ⟨t', ht', rfl⟩ := Option.map_eq_some_iff.mp hdec.symm
  exact ⟨s, t', decode_encode s, ht', by simp⟩

/-! ## Byte arrays as lists -/

theorem length_toList_loop (bs : ByteArray) (i : ℕ) (r : List UInt8) :
    (ByteArray.toList.loop bs i r).length = bs.size - i + r.length := by
  fun_induction ByteArray.toList.loop bs i r with
  | case1 i r h ih =>
    rw [ih, List.length_cons]
    omega
  | case2 i r h =>
    rw [List.length_reverse]
    omega

theorem length_toList (bs : ByteArray) : bs.toList.length = bs.size := by
  rw [ByteArray.toList, length_toList_loop, List.length_nil]
  rfl

end LinuxFileManager.Lib
