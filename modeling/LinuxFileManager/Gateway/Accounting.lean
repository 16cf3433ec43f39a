import LinuxFileManager.Gateway.Framing

/-!
# Every received byte accounted for

`frames_recovered` says what the receive loop makes of a stream that is put
together from frames and junk. Here the stream is arbitrary: whatever a peer
sends, in whatever blocks it arrives, it falls into frames that the gateway
dispatches in their order, bytes in front of them at which no frame starts,
and an unfinished rest that stays in the buffer (`received_accounted`).

So the gateway dispatches nothing that is not a frame of the stream with the
right checksum, it skips no frame that does not begin inside another one, and
it closes only in front of a header that announces more than the buffer holds.
-/

namespace LinuxFileManager.Gateway

open Lib Protocol

/-- A frame of the received stream, and the bytes skipped in front of it. -/
structure Cut where
  junk : List UInt8
  msg : ProtoMessage

/-- The stream made of `cuts` and of `tail` behind them. -/
def cutStream (cuts : List Cut) (tail : List UInt8) : List UInt8 :=
  (cuts.flatMap fun c => c.junk ++ frameImage c.msg) ++ tail

/-- No frame, of any length, starts in `junk` when `behind` follows. -/
def NoFrame (junk behind : List UInt8) : Prop :=
  ∀ i < junk.length, ∀ m : ProtoMessage, m.Sized → ¬ frameImage m <+: junk.drop i ++ behind

/-- In front of `tail`, the messages of `cuts` are well formed, their frames fit
    the window, and no frame starts in the bytes in front of them. -/
def Sound : List Cut → List UInt8 → Prop
  | [], _ => True
  | c :: cuts, tail =>
    (c.msg.Sized ∧ (frameImage c.msg).length ≤ window ∧
      NoFrame c.junk (frameImage c.msg ++ cutStream cuts tail)) ∧ Sound cuts tail

/-- Less than a header, or a header with the magic number that announces more
    than the window shows. -/
def Unfinished (rest : List UInt8) : Prop :=
  rest.length < protoHeaderSize ∨
    [protoMagic1, protoMagic2] <+: rest ∧
      (rest.take window).length <
        protoHeaderSize + (ProtoHeader.ofBytes rest).payloadLen.toNat + protoChecksumSize

theorem cutStream_cons (c : Cut) (cuts : List Cut) (tail : List UInt8) :
    cutStream (c :: cuts) tail = c.junk ++ (frameImage c.msg ++ cutStream cuts tail) := by
  simp [cutStream]

/-- Where the decoder refuses the data, no frame starts. -/
theorem noFrame_of_refuses {junk behind : List UInt8} (h : Refuses protoParser junk behind) :
    NoFrame junk behind := by
  rintro i hi m hsized ⟨rest, hrest⟩
  have hframe : protoParseFrame (junk.drop i ++ behind) = .frame (frameImage m).length m :=
    protoParseFrame_eq_frame_iff.mpr ⟨hsized, rfl, rest, hrest.symm⟩
  have hbad : protoParseFrame (junk.drop i ++ behind) = .bad := h i hi
  rw [hbad] at hframe
  cases hframe

/-- The decoder asks for more data in front of an unfinished frame only. -/
theorem unfinished_of_more {rest : List UInt8} (h : protoParseFrame (rest.take window) = .more) :
    Unfinished rest := by
  by_cases hlen : rest.length < protoHeaderSize
  · exact Or.inl hlen
  · obtain ⟨b0, b1, b2, b3, b4, b5, b6, b7, tail, rfl⟩ := exists_header (Nat.le_of_not_lt hlen)
    have htake : (b0 :: b1 :: b2 :: b3 :: b4 :: b5 :: b6 :: b7 :: tail).take window =
        b0 :: b1 :: b2 :: b3 :: b4 :: b5 :: b6 :: b7 :: tail.take (window - protoHeaderSize) := rfl
    rw [htake, protoParseFrame_cons] at h
    dsimp only at h
    split_ifs at h with hm hshort
    obtain ⟨rfl, rfl⟩ := hm
    refine Or.inr ⟨⟨_, rfl⟩, ?_⟩
    rw [htake]
    show _ < protoHeaderSize + (ofLe16 b6 b7).toNat + protoChecksumSize
    generalize tail.take (window - protoHeaderSize) = shown at hshort ⊢
    simp only [List.length_cons, protoHeaderSize, protoChecksumSize]
    omega

/-- The stretches of a scan are frames of the stream and bytes at which no frame
    starts. -/
theorem exists_cuts {stretches : List (Stretch UInt8 ProtoMessage)} {tail : List UInt8}
    (hfits : Fits protoParser stretches tail) (hcap : ∀ p ∈ stretches, p.frame.length ≤ window) :
    ∃ cuts, cuts.map Cut.msg = stretches.map Stretch.msg ∧
      cutStream cuts tail = joinStretches stretches tail ∧ Sound cuts tail := by
  induction stretches with
  | nil => exact ⟨[], rfl, rfl, trivial⟩
  | cons p stretches ih =>
    obtain ⟨href, hframe, hfits⟩ := hfits
    obtain ⟨hp, hcap⟩ := List.forall_mem_cons.mp hcap
    obtain ⟨cuts, hmsgs, hstream, hsound⟩ := ih hfits hcap
    obtain ⟨hsized, hlen, rest, hrest⟩ := protoParseFrame_eq_frame_iff.mp hframe
    obtain ⟨himage, -⟩ := List.append_inj hrest hlen
    refine ⟨⟨p.skipped, p.msg⟩ :: cuts, ?_, ?_, ⟨hsized, ?_, ?_⟩, hsound⟩
    · rw [List.map_cons, List.map_cons, hmsgs]
    · rw [cutStream_cons, joinStretches_cons, hstream, himage]
    · rwa [← himage]
    · show NoFrame p.skipped (frameImage p.msg ++ cutStream cuts tail)
      rw [hstream, ← himage]
      exact noFrame_of_refuses href

/-- Whatever arrives, in whatever blocks: the stream is made of frames, bytes at
    which no frame starts, and an unfinished rest; the gateway dispatches the
    messages of these frames in their order and nothing else, keeps the rest,
    and closes exactly when the rest does not fit its buffer. -/
theorem received_accounted {σ : Type} {dispatch : σ → ProtoMessage → σ} {st : σ}
    {recvBuf : Buffer UInt8 recvBufSize} {xs : List UInt8} {w : ClientWorker σ}
    (h : Delivers dispatch (.start recvBuf st) xs w) :
    ∃ (cuts : List Cut) (junk rest : List UInt8), xs = cutStream cuts (junk ++ rest) ∧
      Sound cuts (junk ++ rest) ∧ NoFrame junk rest ∧ Unfinished rest ∧
      w.state = (cuts.map Cut.msg).foldl dispatch st ∧ w.data = rest.take window ∧
      (w.closed = true ↔ window < rest.length) := by
  obtain ⟨ms, rest, hs, hst, hdata, hclosed⟩ := h.scans
  obtain ⟨stretches, junk, hxs, hms, hfits, hcap, href⟩ := hs.exists_stretches
  obtain ⟨cuts, hmsgs, hstream, hsound⟩ := exists_cuts hfits hcap
  refine ⟨cuts, junk, rest, ?_, hsound, noFrame_of_refuses href, unfinished_of_more hs.residue_more,
    ?_, hdata, hclosed⟩
  · rw [hstream, hxs]
  · rw [hst, hmsgs, hms]

/-- A PING behind a stray byte and in front of an unfinished header, in two blocks. -/
theorem received_accounted_ping :
    ∃ w, Delivers record (.start (.filled _ 0) [])
        ([0xFF] ++ frameImage ⟨cmdPing, flagHeartbeat, 7, [], 0⟩ ++ [0xAA, 0x55, 0x01]) w ∧
      ∃ (cuts : List Cut) (junk rest : List UInt8),
        [0xFF] ++ frameImage ⟨cmdPing, flagHeartbeat, 7, [], 0⟩ ++ [0xAA, 0x55, 0x01] =
          cutStream cuts (junk ++ rest) ∧
        Sound cuts (junk ++ rest) ∧ NoFrame junk rest ∧ Unfinished rest ∧
        w.state = (cuts.map Cut.msg).foldl record [] ∧ w.data = rest.take window ∧
        (w.closed = true ↔ window < rest.length) := by
  have h := Delivers.block (w := .start (.filled _ 0) []) (b := [0xFF, 0xAA, 0x55, 0x01, 0x02]) (by decide)
    (by decide) (.block (b := [0x07, 0x00, 0x00, 0x00, 0xFB, 0xAA, 0x55, 0x01]) (by decide) (by decide)
      (.idle (ClientWorker.iterate record _ _)))
  exact ⟨_, h, received_accounted h⟩

end LinuxFileManager.Gateway
