import LinuxFileManager.Protocol.Frame

/-!
# The codec is a bijection between messages and frames

`frameImage m` is the byte string that the frame layout of `protocol.h` lines
11–21 assigns to the message `m`: header, payload, XOR checksum.

Results:

* `sendFrameRaw_eq_frameImage`: `proto_build_frame` followed by the
  serialisation in `send_frame_raw` emits `frameImage`, whatever the stack
  objects held before.
* `protoParseFrame_eq_frame_iff`: `proto_parse_frame` returns a frame exactly
  on the byte strings that start with a `frameImage`.
* `protoParser`: `proto_parse_frame` as a `Lib.Parser`; its definite answers
  are stable under more data.
* `codec_bijection`: the two directions of the codec together.
-/

namespace LinuxFileManager.Protocol

open Lib

/-! ## Sixteen-bit fields -/

theorem ofLe16_le16 (x : UInt16) :
    ofLe16 (UInt8.ofNat x.toNat) (UInt8.ofNat (x.toNat / 256)) = x := by
  have hx := x.toNat_lt
  apply UInt16.toNat.inj
  simp only [ofLe16, UInt8.toNat_ofNat', UInt16.toNat_ofNat']
  omega

theorem ofLe16_toNat (lo hi : UInt8) : (ofLe16 lo hi).toNat = lo.toNat + 256 * hi.toNat := by
  have hlo := lo.toNat_lt
  have hhi := hi.toNat_lt
  rw [ofLe16, UInt16.toNat_ofNat']
  omega

theorem le16_ofLe16 (lo hi : UInt8) : le16 (ofLe16 lo hi) = [lo, hi] := by
  have hlo := lo.toNat_lt
  have hhi := hi.toNat_lt
  have h1 : UInt8.ofNat (lo.toNat + 256 * hi.toNat) = lo := by
    apply UInt8.toNat.inj
    rw [UInt8.toNat_ofNat']
    omega
  have h2 : UInt8.ofNat ((lo.toNat + 256 * hi.toNat) / 256) = hi := by
    apply UInt8.toNat.inj
    rw [UInt8.toNat_ofNat']
    omega
  rw [le16, ofLe16_toNat, h1, h2]

/-! ## Frame images -/

/-- The payload of the message has the length its length field states. -/
def ProtoMessage.Sized (m : ProtoMessage) : Prop := m.payload.length = m.payloadLen.toNat

instance (m : ProtoMessage) : Decidable m.Sized := inferInstanceAs (Decidable (_ = _))

/-- The header that goes in front of the payload of `m`. -/
def ProtoMessage.header (m : ProtoMessage) : ProtoHeader :=
  ⟨protoMagic1, protoMagic2, m.cmd, m.flags, m.seq, m.payloadLen⟩

/-- The frame layout: header, payload, and the XOR of both. -/
def frameImage (m : ProtoMessage) : List UInt8 :=
  m.header.bytes ++ m.payload ++ [protoChecksum (m.header.bytes ++ m.payload)]

theorem length_frameImage (m : ProtoMessage) :
    (frameImage m).length = protoHeaderSize + m.payload.length + protoChecksumSize := by
  simp [frameImage, protoChecksumSize, Nat.add_assoc]

/-! ## The encoder -/

/-- The pair `payload`, `payload_len` describes the bytes `bs`: an object of at
    least `payload_len` bytes that starts with `bs`, or `NULL` with length `0`. -/
def PayloadArg (payload : Option (List UInt8)) (payloadLen : UInt16) (bs : List UInt8) : Prop :=
  (∃ obj, payload = some obj ∧ payloadLen.toNat ≤ obj.length ∧ bs = obj.take payloadLen.toNat) ∨
    (payload = none ∧ payloadLen = 0 ∧ bs = [])

theorem PayloadArg.length_eq {payload : Option (List UInt8)} {payloadLen : UInt16} {bs : List UInt8}
    (h : PayloadArg payload payloadLen bs) : bs.length = payloadLen.toNat := by
  rcases h with ⟨obj, _, hle, rfl⟩ | ⟨_, rfl, rfl⟩
  · rw [List.length_take]; omega
  · rfl

/-- The guarded copy puts the payload behind the first `off` elements. -/
theorem take_copyPayload {n k : ℕ} {payload : Option (List UInt8)} {payloadLen : UInt16}
    {bs : List UInt8} (hp : PayloadArg payload payloadLen bs) (dst : Buffer UInt8 n) (off : ℕ)
    (h : off + payloadLen.toNat ≤ n) (hk : off + payloadLen.toNat = k) :
    (copyPayload dst off payload payloadLen.toNat h).elems.take k = dst.elems.take off ++ bs := by
  rcases hp with ⟨obj, rfl, hle, rfl⟩ | ⟨rfl, rfl, rfl⟩
  · simp only [copyPayload]
    split_ifs with hpos
    · exact dst.take_elems_write _ (by rw [List.length_take]; omega)
    · have h0 : payloadLen.toNat = 0 := by omega
      simp [← hk, h0]
  · simp [copyPayload, ← hk]

/-- `proto_build_frame` accepts a payload of at most 512 bytes, and fills in
    header, payload and checksum of its frame image. -/
theorem protoBuildFrame_spec (frame : ProtoFrame)
    (tempBuf : Buffer UInt8 (protoHeaderSize + protoMaxPayload)) {m : ProtoMessage}
    {payload : Option (List UInt8)} (hp : PayloadArg payload m.payloadLen m.payload)
    (hle : m.payloadLen.toNat ≤ protoMaxPayload) :
    ∃ f, protoBuildFrame frame tempBuf m.cmd m.flags m.seq payload m.payloadLen = some f ∧
      f.header = m.header ∧ f.payload.elems.take m.payloadLen.toNat = m.payload ∧
      f.checksum = protoChecksum (m.header.bytes ++ m.payload) := by
  rw [protoBuildFrame, dif_neg (by omega)]
  refine ⟨_, rfl, rfl, ?_, ?_⟩
  · simpa using take_copyPayload hp frame.payload 0 (by omega) (by omega)
  · simp only [Buffer.read, List.drop_zero]
    rw [take_copyPayload hp _ protoHeaderSize (by omega) rfl,
      tempBuf.take_elems_write_zero _ (ProtoHeader.length_bytes _)]
    rfl

/-- `send_frame_raw` emits header, payload and checksum of the frame that
    `proto_build_frame` has filled in. -/
theorem sendFrameRaw_built {stack : SendStack} {cmd flags : UInt8} {seq : UInt16}
    {payload : Option (List UInt8)} {payloadLen : UInt16} {f : BuiltFrame}
    (hf : protoBuildFrame stack.frame stack.tempBuf cmd flags seq payload payloadLen = some f) :
    sendFrameRaw stack cmd flags seq payload payloadLen = some
      (f.header.bytes ++ f.payload.elems.take f.header.payloadLen.toNat ++ [f.checksum]) := by
  have htotal : f.totalLen = protoHeaderSize + f.header.payloadLen.toNat + 1 := f.totalLen_eq
  have harg : PayloadArg (some f.payload.elems) f.header.payloadLen
      (f.payload.elems.take f.header.payloadLen.toNat) :=
    Or.inl ⟨_, rfl, by rw [f.payload.length_elems]; exact f.payloadLen_le, rfl⟩
  unfold sendFrameRaw
  rw [hf]
  simp only [Option.some.injEq, Buffer.read, List.drop_zero]
  -- the three copies into `buf`, the last one first
  rw [Buffer.take_elems_write _ _ (by rw [List.length_singleton]; omega),
    take_copyPayload harg _ protoHeaderSize _ (by omega),
    Buffer.take_elems_write_zero _ _ f.header.length_bytes]

/-- What `send_frame_raw` emits does not depend on the stack objects. -/
theorem sendFrameRaw_eq_frameImage (stack : SendStack) {m : ProtoMessage}
    {payload : Option (List UInt8)} (hp : PayloadArg payload m.payloadLen m.payload)
    (hle : m.payloadLen.toNat ≤ protoMaxPayload) :
    sendFrameRaw stack m.cmd m.flags m.seq payload m.payloadLen = some (frameImage m) := by
  obtain ⟨f, hf, hhdr, hpay, hcs⟩ := protoBuildFrame_spec stack.frame stack.tempBuf hp hle
  have hlen : f.header.payloadLen = m.payloadLen := by rw [hhdr]; rfl
  rw [sendFrameRaw_built hf, hlen, hpay, hcs, hhdr]
  rfl

/-! ## The decoder -/

theorem protoParseFrame_short {raw : List UInt8} (h : raw.length < protoHeaderSize) :
    protoParseFrame raw = .more := by
  rw [protoParseFrame, if_pos h]

/-- Data that covers a header, taken apart. -/
theorem exists_header {raw : List UInt8} (h : protoHeaderSize ≤ raw.length) :
    ∃ b0 b1 b2 b3 b4 b5 b6 b7 tail, raw = b0 :: b1 :: b2 :: b3 :: b4 :: b5 :: b6 :: b7 :: tail := by
  rcases raw with _ | ⟨b0, _ | ⟨b1, _ | ⟨b2, _ | ⟨b3, _ | ⟨b4, _ | ⟨b5, _ | ⟨b6, _ | ⟨b7, tail⟩⟩⟩⟩⟩⟩⟩⟩
  case cons.cons.cons.cons.cons.cons.cons.cons => exact ⟨b0, b1, b2, b3, b4, b5, b6, b7, tail, rfl⟩
  all_goals simp [protoHeaderSize] at h

/-- The decoder on data that covers a header. -/
theorem protoParseFrame_cons (b0 b1 b2 b3 b4 b5 b6 b7 : UInt8) (tail : List UInt8) :
    protoParseFrame (b0 :: b1 :: b2 :: b3 :: b4 :: b5 :: b6 :: b7 :: tail) =
      if b0 = protoMagic1 ∧ b1 = protoMagic2 then
        let len := (ofLe16 b6 b7).toNat
        if tail.length < len + 1 then .more
        else if protoChecksum ([b0, b1, b2, b3, b4, b5, b6, b7] ++ tail.take len) ≠ tail.getD len 0 then
          .bad
        else .frame (protoHeaderSize + len + protoChecksumSize)
          ⟨b2, b3, ofLe16 b4 b5, tail.take len, ofLe16 b6 b7⟩
      else .bad := by
  have hlen : ¬ (b0 :: b1 :: b2 :: b3 :: b4 :: b5 :: b6 :: b7 :: tail).length < protoHeaderSize := by
    simp [protoHeaderSize]
  have hmagic : protoVerifyMagic (b0 :: b1 :: b2 :: b3 :: b4 :: b5 :: b6 :: b7 :: tail) =
      decide (b0 = protoMagic1 ∧ b1 = protoMagic2) := by
    simp [protoVerifyMagic, Bool.decide_and, beq_eq_decide]
  rw [protoParseFrame, if_neg hlen, hmagic]
  by_cases hm : b0 = protoMagic1 ∧ b1 = protoMagic2
  · obtain ⟨rfl, rfl⟩ := hm
    have hofBytes : ProtoHeader.ofBytes
        (protoMagic1 :: protoMagic2 :: b2 :: b3 :: b4 :: b5 :: b6 :: b7 :: tail) =
          ⟨protoMagic1, protoMagic2, b2, b3, ofLe16 b4 b5, ofLe16 b6 b7⟩ := rfl
    simp only [hofBytes, and_self, decide_true, Bool.not_true, Bool.false_eq_true, if_false,
      if_true, Nat.add_sub_cancel]
    generalize (ofLe16 b6 b7).toNat = len
    have htake : (protoMagic1 :: protoMagic2 :: b2 :: b3 :: b4 :: b5 :: b6 :: b7 :: tail).take
        (protoHeaderSize + len) =
          [protoMagic1, protoMagic2, b2, b3, b4, b5, b6, b7] ++ tail.take len :=
      @List.take_length_add_append _ [protoMagic1, protoMagic2, b2, b3, b4, b5, b6, b7] tail len
    have hget : (protoMagic1 :: protoMagic2 :: b2 :: b3 :: b4 :: b5 :: b6 :: b7 :: tail).getD
        (protoHeaderSize + len) 0 = tail.getD len 0 := by
      rw [Nat.add_comm]; rfl
    have hshort : (protoMagic1 :: protoMagic2 :: b2 :: b3 :: b4 :: b5 :: b6 :: b7 :: tail).length <
        protoHeaderSize + len + protoChecksumSize ↔ tail.length < len + 1 := by
      simp only [List.length_cons, protoHeaderSize, protoChecksumSize]; omega
    rw [htake, hget]
    simp only [hshort]
    rfl
  · simp [hm]

theorem header_bytes_ofLe16 (b2 b3 b4 b5 b6 b7 : UInt8) (payload : List UInt8) :
    (ProtoMessage.mk b2 b3 (ofLe16 b4 b5) payload (ofLe16 b6 b7)).header.bytes =
      [protoMagic1, protoMagic2, b2, b3, b4, b5, b6, b7] := by
  simp [ProtoMessage.header, ProtoHeader.bytes, le16_ofLe16]

theorem take_append_getD_drop {l : List UInt8} {i : ℕ} (h : i < l.length) :
    l.take i ++ [l.getD i 0] ++ l.drop (i + 1) = l := by
  rw [List.getD_eq_getElem _ _ h, List.append_assoc, List.singleton_append,
    List.getElem_cons_drop, List.take_append_drop]

/-- The decoder returns a frame exactly on data that starts with the image of
    the message it returns. -/
theorem protoParseFrame_eq_frame_iff {raw : List UInt8} {n : ℕ} {m : ProtoMessage} :
    protoParseFrame raw = .frame n m ↔
      m.Sized ∧ n = (frameImage m).length ∧ ∃ rest, raw = frameImage m ++ rest := by
  constructor
  · intro h
    by_cases hraw : raw.length < protoHeaderSize
    · rw [protoParseFrame_short hraw] at h
      cases h
    · obtain ⟨b0, b1, b2, b3, b4, b5, b6, b7, tail, rfl⟩ := exists_header (Nat.le_of_not_lt hraw)
      rw [protoParseFrame_cons] at h
      dsimp only at h
      split_ifs at h with hm hlen hcs
      obtain ⟨rfl, rfl⟩ := hm
      cases h
      have hsized : (tail.take (ofLe16 b6 b7).toNat).length = (ofLe16 b6 b7).toNat := by
        rw [List.length_take]; omega
      refine ⟨hsized, ?_, tail.drop ((ofLe16 b6 b7).toNat + 1), ?_⟩
      · rw [length_frameImage, hsized]
      · rw [not_not] at hcs
        rw [frameImage, header_bytes_ofLe16, hcs, List.append_assoc, List.append_assoc,
          ← List.append_assoc (tail.take _), take_append_getD_drop (by omega)]
        rfl
  · rintro ⟨hsized, rfl, rest, rfl⟩
    have himage : frameImage m ++ rest =
        protoMagic1 :: protoMagic2 :: m.cmd :: m.flags :: UInt8.ofNat m.seq.toNat ::
          UInt8.ofNat (m.seq.toNat / 256) :: UInt8.ofNat m.payloadLen.toNat ::
          UInt8.ofNat (m.payloadLen.toNat / 256) ::
          (m.payload ++ protoChecksum (m.header.bytes ++ m.payload) :: rest) := by
      simp [frameImage, ProtoMessage.header, ProtoHeader.bytes, le16]
    have hbytes : m.header.bytes = [protoMagic1, protoMagic2, m.cmd, m.flags,
        UInt8.ofNat m.seq.toNat, UInt8.ofNat (m.seq.toNat / 256), UInt8.ofNat m.payloadLen.toNat,
        UInt8.ofNat (m.payloadLen.toNat / 256)] := rfl
    rw [himage, protoParseFrame_cons]
    dsimp only
    rw [if_pos ⟨rfl, rfl⟩, ofLe16_le16, ofLe16_le16, ← hbytes, ← hsized, List.take_left,
      List.getD_append_right _ _ _ _ le_rfl, Nat.sub_self, List.getD_cons_zero, if_neg (by simp),
      if_neg (by simp), length_frameImage]

/-- `proto_parse_frame` returns `-1` for good: its verdict on a wrong magic
    number or checksum does not change when more data follows. -/
theorem protoParseFrame_bad_append {raw : List UInt8} (ys : List UInt8)
    (h : protoParseFrame raw = .bad) : protoParseFrame (raw ++ ys) = .bad := by
  by_cases hraw : raw.length < protoHeaderSize
  · rw [protoParseFrame_short hraw] at h
    cases h
  · obtain ⟨b0, b1, b2, b3, b4, b5, b6, b7, tail, rfl⟩ := exists_header (Nat.le_of_not_lt hraw)
    rw [protoParseFrame_cons] at h
    simp only [List.cons_append]
    rw [protoParseFrame_cons]
    dsimp only at h ⊢
    split_ifs at h with hm hlen hcs
    · rw [if_pos hm, if_neg (by rw [List.length_append]; omega), if_pos]
      rwa [List.take_append_of_le_length (by omega), List.getD_append _ _ _ _ (by omega)]
    · rw [if_neg hm]

/-- `proto_parse_frame` as a parser with stable answers. -/
def protoParser : Parser UInt8 ProtoMessage where
  parse := protoParseFrame
  parse_nil := rfl
  frame_len := by
    intro xs n m h
    obtain ⟨-, rfl, rest, rfl⟩ := protoParseFrame_eq_frame_iff.mp h
    rw [List.length_append, length_frameImage, protoChecksumSize]
    omega
  frame_append := by
    intro xs n m ys h
    obtain ⟨hsized, rfl, rest, rfl⟩ := protoParseFrame_eq_frame_iff.mp h
    exact protoParseFrame_eq_frame_iff.mpr ⟨hsized, rfl, rest ++ ys, List.append_assoc _ _ _⟩
  bad_append := protoParseFrame_bad_append

/-! ## The bijection -/

/-- `proto_parse_frame` inverts `send_frame_raw`, whatever bytes follow the
    frame; and the bytes that `proto_parse_frame` takes for a frame with a
    payload of at most 512 bytes are the bytes that `send_frame_raw` emits for
    the message. -/
theorem codec_bijection (stack : SendStack) :
    (∀ (m : ProtoMessage) (payload : Option (List UInt8)) (trailing : List UInt8),
      PayloadArg payload m.payloadLen m.payload → m.payload.length ≤ protoMaxPayload →
      ∃ bytes, sendFrameRaw stack m.cmd m.flags m.seq payload m.payloadLen = some bytes ∧
        protoParseFrame (bytes ++ trailing) = .frame (9 + m.payload.length) m) ∧
    (∀ (raw : List UInt8) (n : ℕ) (m : ProtoMessage),
      protoParseFrame raw = .frame n m → m.payload.length ≤ protoMaxPayload →
      m.payload.length = m.payloadLen.toNat ∧
        sendFrameRaw stack m.cmd m.flags m.seq (some m.payload) m.payloadLen = some (raw.take n)) := by
  constructor
  · intro m payload trailing hp hle
    refine ⟨frameImage m, sendFrameRaw_eq_frameImage stack hp (hp.length_eq ▸ hle), ?_⟩
    refine protoParseFrame_eq_frame_iff.mpr ⟨hp.length_eq, ?_, trailing, rfl⟩
    rw [length_frameImage, protoHeaderSize, protoChecksumSize]
    omega
  · intro raw n m h hle
    obtain ⟨hsized, rfl, rest, rfl⟩ := protoParseFrame_eq_frame_iff.mp h
    have harg : PayloadArg (some m.payload) m.payloadLen m.payload :=
      Or.inl ⟨_, rfl, hsized.ge, by rw [← hsized, List.take_length]⟩
    refine ⟨hsized, ?_⟩
    rw [sendFrameRaw_eq_frameImage stack harg (hsized ▸ hle), List.take_left]

/-- Stack objects that hold a given byte everywhere. -/
def SendStack.filled (b : UInt8) : SendStack where
  frame := ⟨⟨b, b, b, b, ofLe16 b b, ofLe16 b b⟩, .filled _ b, b, 0⟩
  tempBuf := .filled _ b
  buf := .filled _ b

/-- A sensor report with a garbage byte behind it, from a stack full of `0x5A`. -/
theorem codec_bijection_sensorData :
    ∃ bytes, sendFrameRaw (.filled 0x5A) cmdSensorData flagRequest 7 (some [0x10, 0x20]) 2 = some bytes ∧
      protoParseFrame (bytes ++ [0xFF]) = .frame 11 ⟨cmdSensorData, flagRequest, 7, [0x10, 0x20], 2⟩ :=
  (codec_bijection (.filled 0x5A)).1 ⟨cmdSensorData, flagRequest, 7, [0x10, 0x20], 2⟩ (some [0x10, 0x20])
    [0xFF] (Or.inl ⟨_, rfl, by decide, rfl⟩) (by decide)

end LinuxFileManager.Protocol
