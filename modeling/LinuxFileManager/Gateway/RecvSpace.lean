import LinuxFileManager.Gateway.Receive

/-!
# Space for `recv`

`client_worker` treats a return value `0` of `recv` as the end of the
connection (`src/gateway.c` lines 498–501). `recv` also returns `0` when it is
offered no space, which happens when the receive buffer is full of bytes that
the parser wants to see again.

Result:

* `alwaysRoom_iff`: however a stream is cut into blocks, `recv` is always
  offered space and the worker does not drop the connection, if and only if the
  decoder never stands in front of a header that declares a frame longer than
  the buffer, with the buffer filled from there (`Stalls`). Such a header
  declares more than 2074 bytes of payload; the encoder builds none.
-/

namespace LinuxFileManager.Gateway

open Lib Protocol

/-! ## The property and the condition -/

/-- While the stream `xs` arrives, in whatever blocks, the worker has space for
    `recv` and stays in its loop. -/
def AlwaysRoom {σ : Type} (dispatch : σ → ProtoMessage → σ) (recvBuf : Buffer UInt8 recvBufSize) (st : σ)
    (xs : List UInt8) : Prop :=
  ∀ ys w, ys <+: xs → Delivers dispatch (.start recvBuf st) ys w →
    w.recvLen < recvBufSize - 1 ∧ w.closed = false

/-- The bytes that fill the buffer begin with a header of a frame that does not
    fit it. -/
def Unfinishable (raw : List UInt8) : Prop :=
  raw.length = window ∧ protoVerifyMagic raw = true ∧
    window < protoHeaderSize + (ProtoHeader.ofBytes raw).payloadLen.toNat + protoChecksumSize

/-- The decoder comes to such a header. -/
def Stalls (xs : List UInt8) : Prop :=
  ∃ k p, Reaches protoParser window xs k p ∧ Unfinishable ((xs.drop p).take window)

/-! ## The decoder on a full buffer -/

/-- On a full buffer the decoder asks for more data only in front of a header
    of a frame that does not fit. -/
theorem protoParseFrame_more_iff {raw : List UInt8} (hlen : raw.length = window) :
    protoParseFrame raw = .more ↔ Unfinishable raw := by
  have hshort : ¬ raw.length < protoHeaderSize := by
    rw [hlen]
    decide
  rw [protoParseFrame, if_neg hshort, Unfinishable, hlen]
  cases hmagic : protoVerifyMagic raw with
  | false => simp
  | true =>
    simp only [Bool.not_true, Bool.false_eq_true, if_false, true_and]
    split_ifs with hlt
    · exact iff_of_true rfl hlt
    · exact iff_of_false (fun h => by cases h) hlt
    · exact iff_of_false (fun h => by cases h) hlt

/-- What a scan leaves fills the buffer exactly when the decoder stalls. -/
theorem window_le_residue_iff {xs r : List UInt8} {ms : List ProtoMessage}
    (hs : Scans protoParser window xs ms r) : window ≤ r.length ↔ Stalls xs := by
  constructor
  · intro hle
    obtain ⟨k, p, hr, rfl⟩ := Reaches.start.exists_residue hs rfl
    refine ⟨k, p, hr, (protoParseFrame_more_iff ?_).mp hs.residue_more⟩
    rw [List.length_take, min_eq_left hle]
  · rintro ⟨k, p, hr, hfull⟩
    obtain ⟨-, rfl⟩ := (hr.scans hs).more_inv ((protoParseFrame_more_iff hfull.1).mpr hfull)
    have hlen := hfull.1
    rw [List.length_take] at hlen
    omega

/-- The scan stops where the decoder stalls. -/
theorem residue_of_unfinishable {raw ys r : List UInt8} {ms : List ProtoMessage}
    (hfull : Unfinishable raw)
    (hs : Scans protoParser window (raw ++ ys) ms r) : r = raw ++ ys := by
  have hmore : protoParseFrame ((raw ++ ys).take window) = .more := by
    rw [List.take_left' hfull.1]
    exact (protoParseFrame_more_iff hfull.1).mpr hfull
  exact (hs.more_inv hmore).2

/-- More data does not end a stall. -/
theorem Stalls.of_prefix {ys xs : List UInt8} (hpre : ys <+: xs) (h : Stalls ys) : Stalls xs := by
  obtain ⟨zs, rfl⟩ := hpre
  obtain ⟨k, p, hr, hfull⟩ := h
  obtain ⟨hp, hr'⟩ := hr.append zs
  refine ⟨k, p, hr', ?_⟩
  have hlen := hfull.1
  rw [List.length_take] at hlen
  rwa [List.drop_append_of_le_length hp, List.take_append_of_le_length (by omega)]

/-! ## The worker -/

section

variable {σ : Type} {dispatch : σ → ProtoMessage → σ} {recvBuf : Buffer UInt8 recvBufSize} {st : σ}

/-- A worker that has received a stream has space for `recv`, and is in its
    loop, unless the decoder stalls in the stream. -/
theorem Delivers.room_iff {xs : List UInt8} {w : ClientWorker σ}
    (h : Delivers dispatch (.start recvBuf st) xs w) :
    w.recvLen < recvBufSize - 1 ∧ w.closed = false ↔ ¬ Stalls xs := by
  obtain ⟨ms, r, hs, -, hdata, hclosed⟩ := h.scans
  have hlen : w.recvLen = min window r.length := by
    rw [← w.length_data, hdata, List.length_take]
  rw [← window_le_residue_iff hs, ← Bool.not_eq_true, hclosed, hlen]
  unfold window
  omega

/-- The worker always offers space to `recv`, and never drops the connection
    because of what it has received, if and only if the decoder does not stall
    in the stream. -/
theorem alwaysRoom_iff (dispatch : σ → ProtoMessage → σ) (recvBuf : Buffer UInt8 recvBufSize) (st : σ)
    (xs : List UInt8) : AlwaysRoom dispatch recvBuf st xs ↔ ¬ Stalls xs := by
  constructor
  · intro h
    obtain ⟨w, hw⟩ := Delivers.total dispatch (.start recvBuf st) xs
    exact hw.room_iff.mp (h xs w List.prefix_rfl hw)
  · intro hno ys w hpre hw
    exact hw.room_iff.mpr fun hstall => hno (hstall.of_prefix hpre)

end

/-- A header that declares 2075 bytes of payload, and this payload. -/
def oversizedFrame : List UInt8 := [0xAA, 0x55, 0x11, 0, 1, 0, 0x1B, 0x08] ++ List.replicate 2075 0

/-- The header and its payload fill the buffer before the checksum has arrived;
    with the checksum pending the worker drops the connection. -/
theorem oversizedFrame_dropped :
    ¬ AlwaysRoom record (.filled _ 0) [] oversizedFrame ∧
      ∀ w, Delivers record (.start (.filled _ 0) []) (oversizedFrame ++ [0xFC]) w → w.closed = true := by
  have hlen : oversizedFrame.length = window := by
    rw [oversizedFrame, List.length_append, List.length_replicate]
    rfl
  have hfull : Unfinishable oversizedFrame := ⟨hlen, rfl, by decide⟩
  constructor
  · intro h
    obtain ⟨w, hw⟩ := Delivers.total record (.start (.filled _ 0) []) oversizedFrame
    refine hw.room_iff.mp (h _ w List.prefix_rfl hw) ⟨0, 0, .start, ?_⟩
    rwa [List.drop_zero, List.take_of_length_le hlen.le]
  · intro w hw
    obtain ⟨ms, r, hs, -, -, hclosed⟩ := hw.scans
    rw [hclosed, residue_of_unfinishable hfull hs, List.length_append, hlen, List.length_singleton]
    exact Nat.lt_add_one window

end LinuxFileManager.Gateway
