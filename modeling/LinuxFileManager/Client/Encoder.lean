import LinuxFileManager.Protocol.Codec

/-!
# The client's own frame encoder

`build_frame` (`test/client.c` lines 48–67) writes a frame byte by byte through
a running index and takes the checksum over what it has written so far.
`proto_build_frame` and `send_frame_raw` copy a packed struct and take the
checksum over a temporary object. `buildFrame` models the first; the model of
the others is `Protocol.sendFrameRaw`.

Results:

* `put_spec`: one `out[i++] = b` extends what has been written by `b`.
* `buildFrame_spec`: `build_frame` writes the frame image of its arguments, and
  nothing behind it.
* `buildFrame_eq_sendFrameRaw`: the two encoders emit the same bytes.
-/

namespace LinuxFileManager.Client

open Lib Protocol

/-! ## Model -/

/-- `checksum` (lines 40–45). -/
def checksum (data : List UInt8) : UInt8 := data.foldl (fun cs b => cs ^^^ b) 0

/-- `out[i++] = b`; `none` when `i` is past the end of the object. -/
def put {n : ℕ} (b : UInt8) (c : Buffer UInt8 n × ℕ) : Option (Buffer UInt8 n × ℕ) :=
  (c.1.tryWrite c.2 [b]).map fun out => (out, c.2 + 1)

/-- `if (payload && plen > 0) { memcpy(out + i, payload, plen); i += plen; }`. -/
def putPayload {n : ℕ} (payload : Option (List UInt8)) (plen : UInt16) (c : Buffer UInt8 n × ℕ) :
    Option (Buffer UInt8 n × ℕ) :=
  match payload with
  | none => some c
  | some obj =>
    if 0 < plen.toNat then
      (c.1.tryWrite c.2 (obj.take plen.toNat)).map fun out => (out, c.2 + plen.toNat)
    else some c

/-- `build_frame` (lines 48–67): the object `out` after the call and the value
    returned; `none` when the frame does not fit into the object. -/
def buildFrame {n : ℕ} (out : Buffer UInt8 n) (cmd flags : UInt8) (seq : UInt16)
    (payload : Option (List UInt8)) (plen : UInt16) : Option (Buffer UInt8 n × ℕ) := do
  let c ← put protoMagic1 (out, 0)
  let c ← put protoMagic2 c
  let c ← put cmd c
  let c ← put flags c
  let c ← put (UInt8.ofNat (seq.toNat &&& 0xFF)) c
  let c ← put (UInt8.ofNat ((seq.toNat >>> 8) &&& 0xFF)) c
  let c ← put (UInt8.ofNat (plen.toNat &&& 0xFF)) c
  let c ← put (UInt8.ofNat ((plen.toNat >>> 8) &&& 0xFF)) c
  let c ← putPayload payload plen c
  put (checksum (c.1.read 0 c.2)) c

/-- `uint8_t frame[2048]` of `send_frame`. -/
def frameSize : ℕ := 2048

/-- The bytes `send_frame` (lines 70–78) hands to `send`; `frame` is what the
    stack holds when the object comes to life. -/
def sendFrame (frame : Buffer UInt8 frameSize) (cmd flags : UInt8) (seq : UInt16)
    (payload : Option (List UInt8)) (plen : UInt16) : Option (List UInt8) :=
  (buildFrame frame cmd flags seq payload plen).map fun c => c.1.read 0 c.2

/-! ## The running index -/

/-- `c` is the state of `build_frame` after it has written `bs` into `out`. -/
structure Written {n : ℕ} (out : Buffer UInt8 n) (bs : List UInt8) (c : Buffer UInt8 n × ℕ) : Prop where
  index : c.2 = bs.length
  written : c.1.elems.take c.2 = bs
  rest : c.1.elems.drop c.2 = out.elems.drop c.2

theorem Written.start {n : ℕ} (out : Buffer UInt8 n) : Written out [] (out, 0) := ⟨rfl, rfl, rfl⟩

/-- A copy at the index, with the index moved behind it. -/
theorem Written.append {n : ℕ} {out : Buffer UInt8 n} {bs src : List UInt8}
    {c : Buffer UInt8 n × ℕ} (hc : Written out bs c) (hn : bs.length + src.length ≤ n) {k : ℕ}
    (hk : k = c.2 + src.length) :
    ∃ c', (c.1.tryWrite c.2 src).map (fun out => (out, k)) = some c' ∧ Written out (bs ++ src) c' := by
  have hfit : c.2 + src.length ≤ n := by rw [hc.index]; exact hn
  subst hk
  refine ⟨(c.1.write c.2 src hfit, c.2 + src.length), ?_, ?_, ?_, ?_⟩
  · rw [Buffer.tryWrite, dif_pos hfit, Option.map_some]
  · show c.2 + src.length = (bs ++ src).length
    rw [List.length_append, hc.index]
  · rw [Buffer.take_elems_write _ hfit rfl, hc.written]
  · show (c.1.write c.2 src hfit).elems.drop (c.2 + src.length) = _
    have hlen : (c.1.elems.take c.2 ++ src).length = c.2 + src.length := by
      rw [List.length_append, hc.written, hc.index]
    rw [Buffer.elems_write, ← hlen, List.drop_left, hlen, ← List.drop_drop, hc.rest, List.drop_drop]

theorem put_spec {n : ℕ} {out : Buffer UInt8 n} {bs : List UInt8} {c : Buffer UInt8 n × ℕ}
    (hc : Written out bs c) (b : UInt8) (hn : bs.length < n) :
    ∃ c', put b c = some c' ∧ Written out (bs ++ [b]) c' :=
  hc.append (by rw [List.length_singleton]; omega) rfl

theorem putPayload_spec {n : ℕ} {out : Buffer UInt8 n} {bs : List UInt8} {c : Buffer UInt8 n × ℕ}
    (hc : Written out bs c) {payload : Option (List UInt8)} {plen : UInt16} {ps : List UInt8}
    (hp : PayloadArg payload plen ps) (hn : bs.length + plen.toNat ≤ n) :
    ∃ c', putPayload payload plen c = some c' ∧ Written out (bs ++ ps) c' := by
  rcases hp with ⟨obj, rfl, hle, rfl⟩ | ⟨rfl, rfl, rfl⟩
  · have hlen : (obj.take plen.toNat).length = plen.toNat := by rw [List.length_take]; omega
    unfold putPayload
    by_cases hpos : 0 < plen.toNat
    · simp only [if_pos hpos]
      exact hc.append (by omega) (by rw [hlen])
    · have h0 : plen.toNat = 0 := by omega
      simp only [if_neg hpos]
      exact ⟨c, rfl, by simpa [h0] using hc⟩
  · exact ⟨c, rfl, by simpa using hc⟩

/-- The two bytes that the client masks out of a `uint16_t` are the ones it has
    in memory. -/
theorem mask_eq_le16 (x : UInt16) :
    [UInt8.ofNat (x.toNat &&& 0xFF), UInt8.ofNat ((x.toNat >>> 8) &&& 0xFF)] = le16 x := by
  have hlow : x.toNat &&& 0xFF = x.toNat % 256 := Nat.and_two_pow_sub_one_eq_mod x.toNat 8
  have hhigh : (x.toNat >>> 8) &&& 0xFF = x.toNat / 256 % 256 := by
    rw [Nat.shiftRight_eq_div_pow]
    exact Nat.and_two_pow_sub_one_eq_mod _ 8
  have hmod (k : ℕ) : UInt8.ofNat (k % 256) = UInt8.ofNat k := by
    apply UInt8.toNat.inj
    rw [UInt8.toNat_ofNat', UInt8.toNat_ofNat']
    omega
  rw [hlow, hhigh, hmod, hmod, le16]

/-! ## The frame -/

/-- `build_frame` writes the frame image of its arguments from the start of the
    object, and leaves the rest of the object alone. -/
theorem buildFrame_spec {n : ℕ} (out : Buffer UInt8 n) {m : ProtoMessage}
    {payload : Option (List UInt8)} (hp : PayloadArg payload m.payloadLen m.payload)
    (hn : protoHeaderSize + m.payloadLen.toNat + protoChecksumSize ≤ n) :
    ∃ c, buildFrame out m.cmd m.flags m.seq payload m.payloadLen = some c ∧
      Written out (frameImage m) c := by
  unfold protoHeaderSize protoChecksumSize at hn
  obtain ⟨c1, e1, h1⟩ := put_spec (Written.start out) protoMagic1 (by simp; omega)
  obtain ⟨c2, e2, h2⟩ := put_spec h1 protoMagic2 (by simp; omega)
  obtain ⟨c3, e3, h3⟩ := put_spec h2 m.cmd (by simp; omega)
  obtain ⟨c4, e4, h4⟩ := put_spec h3 m.flags (by simp; omega)
  obtain ⟨c5, e5, h5⟩ := put_spec h4 (UInt8.ofNat (m.seq.toNat &&& 0xFF)) (by simp; omega)
  obtain ⟨c6, e6, h6⟩ := put_spec h5 (UInt8.ofNat ((m.seq.toNat >>> 8) &&& 0xFF)) (by simp; omega)
  obtain ⟨c7, e7, h7⟩ := put_spec h6 (UInt8.ofNat (m.payloadLen.toNat &&& 0xFF)) (by simp; omega)
  obtain ⟨c8, e8, h8⟩ :=
    put_spec h7 (UInt8.ofNat ((m.payloadLen.toNat >>> 8) &&& 0xFF)) (by simp; omega)
  -- the eight bytes are the packed header
  have hheader : Written out m.header.bytes c8 := by
    have hbytes : m.header.bytes =
        [protoMagic1, protoMagic2, m.cmd, m.flags] ++ le16 m.seq ++ le16 m.payloadLen := rfl
    rw [hbytes, ← mask_eq_le16, ← mask_eq_le16]
    simpa using h8
  have hlen8 : m.header.bytes.length = 8 := ProtoHeader.length_bytes _
  obtain ⟨c9, e9, h9⟩ := putPayload_spec hheader hp (by omega)
  have hlen9 : (m.header.bytes ++ m.payload).length < n := by
    rw [List.length_append, hlen8, hp.length_eq]; omega
  have hsum : checksum (c9.1.read 0 c9.2) = protoChecksum (m.header.bytes ++ m.payload) := by
    rw [Buffer.read, List.drop_zero, h9.written, checksum, protoChecksum]
  obtain ⟨c, e, h⟩ := put_spec h9 (protoChecksum (m.header.bytes ++ m.payload)) hlen9
  refine ⟨c, ?_, h⟩
  simp only [buildFrame, e1, e2, e3, e4, e5, e6, e7, e8, e9, Option.bind_eq_bind,
    Option.bind_some, hsum, e]

/-- For a payload of at most 512 bytes, `build_frame` writes the bytes that
    `proto_build_frame` and `send_frame_raw` emit, and returns their number,
    whatever the objects of the two held before. -/
theorem buildFrame_eq_sendFrameRaw {n : ℕ} (stack : SendStack) (out : Buffer UInt8 n)
    (cmd flags : UInt8) (seq : UInt16) {payload : Option (List UInt8)} {payloadLen : UInt16}
    {bs : List UInt8} (hp : PayloadArg payload payloadLen bs)
    (hle : payloadLen.toNat ≤ protoMaxPayload)
    (hn : protoHeaderSize + payloadLen.toNat + protoChecksumSize ≤ n) :
    ∃ out' bytes, buildFrame out cmd flags seq payload payloadLen = some (out', bytes.length) ∧
      out'.read 0 bytes.length = bytes ∧
      sendFrameRaw stack cmd flags seq payload payloadLen = some bytes := by
  obtain ⟨⟨out', k⟩, he, hw⟩ := buildFrame_spec out (m := ⟨cmd, flags, seq, bs, payloadLen⟩) hp hn
  have hk : k = (frameImage ⟨cmd, flags, seq, bs, payloadLen⟩).length := hw.index
  subst hk
  refine ⟨out', frameImage ⟨cmd, flags, seq, bs, payloadLen⟩, he, ?_, ?_⟩
  · rw [Buffer.read, List.drop_zero]
    exact hw.written
  · exact sendFrameRaw_eq_frameImage stack (m := ⟨cmd, flags, seq, bs, payloadLen⟩) hp hle

/-- The sensor data of the client, from `frame[2048]`. -/
theorem buildFrame_eq_sendFrameRaw_sensor :
    ∃ out' bytes, buildFrame (.filled frameSize 0x5A) cmdSensorData flagRequest 0x1234
        (some [0x01, 0x02, 0x03, 0x04]) 4 = some (out', bytes.length) ∧
      out'.read 0 bytes.length = bytes ∧
      sendFrameRaw (.filled 0xC3) cmdSensorData flagRequest 0x1234
        (some [0x01, 0x02, 0x03, 0x04]) 4 = some bytes :=
  buildFrame_eq_sendFrameRaw (.filled 0xC3) (.filled frameSize 0x5A) cmdSensorData flagRequest 0x1234
    (Or.inl ⟨[0x01, 0x02, 0x03, 0x04], rfl, by decide, rfl⟩) (by decide) (by decide)

/-- What the client's `send_frame` hands to `send` is the frame image, so the
    messages of `Client.Session` are what goes out on the wire. -/
theorem sendFrame_eq_frameImage (frame : Buffer UInt8 frameSize) {m : ProtoMessage}
    {payload : Option (List UInt8)} (hp : PayloadArg payload m.payloadLen m.payload)
    (hle : m.payloadLen.toNat ≤ protoMaxPayload) :
    sendFrame frame m.cmd m.flags m.seq payload m.payloadLen = some (frameImage m) := by
  obtain ⟨c, he, hw⟩ := buildFrame_spec frame hp
    (by unfold protoMaxPayload at hle; unfold protoHeaderSize protoChecksumSize frameSize; omega)
  rw [sendFrame, he, Option.map_some, Buffer.read, List.drop_zero, hw.written]

end LinuxFileManager.Client
