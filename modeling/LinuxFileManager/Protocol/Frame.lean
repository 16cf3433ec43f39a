import LinuxFileManager.Lib.Buffer
import LinuxFileManager.Lib.Stream

/-!
# The frame protocol

Model of `include/protocol.h` and `src/protocol.c`, and of the serialisation in
`send_frame_raw` (`src/gateway.c` lines 645–664), on a little-endian host.

Pointers to byte arrays are `Option (List UInt8)`: `none` is `NULL`, `some obj`
is the object pointed to. Automatic objects that the C code declares without
an initialiser are parameters here (`SendStack`), so that nothing is assumed
about their first contents.

`protoParseFrame` returns a `Verdict`: `.frame n msg` is the return value `n`
with `*msg = msg`, `.more` is the return value `0` and `.bad` is `-1`.
-/

namespace LinuxFileManager.Protocol

open Lib

/-! ## Constants (`protocol.h` lines 35–55) -/

def protoMagic1 : UInt8 := 0xAA
def protoMagic2 : UInt8 := 0x55
def protoHeaderSize : ℕ := 8
def protoChecksumSize : ℕ := 1
def protoMaxPayload : ℕ := 512
def protoFrameMax : ℕ := protoHeaderSize + protoMaxPayload + protoChecksumSize

def cmdPing : UInt8 := 0x01
def cmdPong : UInt8 := 0x01
def cmdStm32Register : UInt8 := 0x10
def cmdSensorData : UInt8 := 0x11
def cmdGpioControl : UInt8 := 0x20
def cmdError : UInt8 := 0xF0

def flagRequest : UInt8 := 0x00
def flagResponse : UInt8 := 0x01
def flagHeartbeat : UInt8 := 0x02

/-! ## Data types (`protocol.h` lines 57–84) -/

/-- The two bytes of a `uint16_t` in memory, low byte first. -/
def le16 (x : UInt16) : List UInt8 := [UInt8.ofNat x.toNat, UInt8.ofNat (x.toNat / 256)]

/-- The `uint16_t` whose bytes in memory are `lo`, `hi`. -/
def ofLe16 (lo hi : UInt8) : UInt16 := UInt16.ofNat (lo.toNat + 256 * hi.toNat)

/-- `ProtoHeader`, a packed struct of 8 bytes. -/
structure ProtoHeader where
  magic1 : UInt8
  magic2 : UInt8
  cmd : UInt8
  flags : UInt8
  seq : UInt16
  payloadLen : UInt16
  deriving DecidableEq, Repr

/-- The header as `memcpy` reads it out of the struct. -/
def ProtoHeader.bytes (h : ProtoHeader) : List UInt8 :=
  [h.magic1, h.magic2, h.cmd, h.flags] ++ le16 h.seq ++ le16 h.payloadLen

@[simp] theorem ProtoHeader.length_bytes (h : ProtoHeader) : h.bytes.length = protoHeaderSize := rfl

/-- `memcpy(&hdr, raw, PROTO_HEADER_SIZE)`. -/
def ProtoHeader.ofBytes (raw : List UInt8) : ProtoHeader where
  magic1 := raw.getD 0 0
  magic2 := raw.getD 1 0
  cmd := raw.getD 2 0
  flags := raw.getD 3 0
  seq := ofLe16 (raw.getD 4 0) (raw.getD 5 0)
  payloadLen := ofLe16 (raw.getD 6 0) (raw.getD 7 0)

/-- `ProtoFrame`. -/
structure ProtoFrame where
  header : ProtoHeader
  payload : Buffer UInt8 protoMaxPayload
  checksum : UInt8
  totalLen : ℕ

/-- A `ProtoFrame` that `proto_build_frame` has filled in. -/
structure BuiltFrame extends ProtoFrame where
  payloadLen_le : header.payloadLen.toNat ≤ protoMaxPayload
  totalLen_eq : totalLen = protoHeaderSize + header.payloadLen.toNat + protoChecksumSize

/-- `ProtoMessage`: `payload` holds the `payload_len` bytes the field points to. -/
structure ProtoMessage where
  cmd : UInt8
  flags : UInt8
  seq : UInt16
  payload : List UInt8
  payloadLen : UInt16
  deriving DecidableEq, Repr

/-! ## `protocol.c` -/

/-- `proto_checksum` (lines 16–22). -/
def protoChecksum (data : List UInt8) : UInt8 := data.foldl (fun cs b => cs ^^^ b) 0

/-- `proto_verify_magic` (`protocol.h` lines 128–130). -/
def protoVerifyMagic (data : List UInt8) : Bool :=
  data.getD 0 0 == protoMagic1 && data.getD 1 0 == protoMagic2

/-- `if (payload && payload_len > 0) memcpy(dst + off, payload, payload_len);` -/
def copyPayload {n : ℕ} (dst : Buffer UInt8 n) (off : ℕ) (payload : Option (List UInt8)) (len : ℕ)
    (h : off + len ≤ n) : Buffer UInt8 n :=
  match payload with
  | none => dst
  | some obj =>
    if 0 < len then dst.write off (obj.take len) (by rw [List.length_take]; omega) else dst

/-- `proto_build_frame` (lines 24–58); `frame` and `tempBuf` are the contents
    of the two objects before the call. `none` is the return value `-1`. -/
def protoBuildFrame (frame : ProtoFrame) (tempBuf : Buffer UInt8 (protoHeaderSize + protoMaxPayload))
    (cmd flags : UInt8) (seq : UInt16) (payload : Option (List UInt8)) (payloadLen : UInt16) :
    Option BuiltFrame :=
  if h : payloadLen.toNat > protoMaxPayload then none
  else
    let header : ProtoHeader := ⟨protoMagic1, protoMagic2, cmd, flags, seq, payloadLen⟩
    let framePayload := copyPayload frame.payload 0 payload payloadLen.toNat (by omega)
    let headerCsLen := protoHeaderSize + payloadLen.toNat
    let tempBuf := tempBuf.write 0 header.bytes (by rw [ProtoHeader.length_bytes]; omega)
    let tempBuf := copyPayload tempBuf protoHeaderSize payload payloadLen.toNat (by omega)
    some {
      header := header
      payload := framePayload
      checksum := protoChecksum (tempBuf.read 0 headerCsLen)
      totalLen := protoHeaderSize + payloadLen.toNat + protoChecksumSize
      payloadLen_le := Nat.le_of_not_lt h
      totalLen_eq := rfl }

/-- `proto_parse_frame` (lines 60–102) on the `raw_len` bytes `raw`; a `NULL`
    pointer, which also returns `0`, is the empty list. -/
def protoParseFrame (raw : List UInt8) : Verdict ProtoMessage :=
  if raw.length < protoHeaderSize then .more
  else if !protoVerifyMagic raw then .bad
  else
    let hdr := ProtoHeader.ofBytes raw
    let payloadLen := hdr.payloadLen
    let frameLen := protoHeaderSize + payloadLen.toNat + protoChecksumSize
    if raw.length < frameLen then .more
    else
      let expectedCs := protoChecksum (raw.take (frameLen - protoChecksumSize))
      let actualCs := raw.getD (frameLen - protoChecksumSize) 0
      if expectedCs ≠ actualCs then .bad
      else
        .frame frameLen {
          cmd := hdr.cmd
          flags := hdr.flags
          seq := hdr.seq
          payload := (raw.drop protoHeaderSize).take payloadLen.toNat
          payloadLen := payloadLen }

/-! ## `send_frame_raw` -/

/-- The automatic objects of `send_frame_raw` and of the `proto_build_frame`
    call it makes, with whatever the stack holds when they come to life. -/
structure SendStack where
  frame : ProtoFrame
  tempBuf : Buffer UInt8 (protoHeaderSize + protoMaxPayload)
  buf : Buffer UInt8 protoFrameMax

/-- The bytes `send_frame_raw` (`src/gateway.c` lines 645–664) hands to `send`;
    `none` when `proto_build_frame` fails. -/
def sendFrameRaw (stack : SendStack) (cmd flags : UInt8) (seq : UInt16)
    (payload : Option (List UInt8)) (payloadLen : UInt16) : Option (List UInt8) :=
  match protoBuildFrame stack.frame stack.tempBuf cmd flags seq payload payloadLen with
  | none => none
  | some frame =>
    have hlen := frame.payloadLen_le
    have htotal := frame.totalLen_eq
    let buf := stack.buf.write 0 frame.header.bytes
      (by rw [ProtoHeader.length_bytes]; unfold protoFrameMax; omega)
    let buf := copyPayload buf protoHeaderSize (some frame.payload.elems)
      frame.header.payloadLen.toNat (by unfold protoFrameMax; omega)
    let buf := buf.write (frame.totalLen - 1) [frame.checksum]
      (by rw [htotal, List.length_singleton]; unfold protoFrameMax protoChecksumSize; omega)
    some (buf.read 0 frame.totalLen)

end LinuxFileManager.Protocol
