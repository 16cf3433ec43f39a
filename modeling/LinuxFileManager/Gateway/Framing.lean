import LinuxFileManager.Gateway.Receive

/-!
# Frames between junk

The receive loop resynchronises on the magic number. On a stream of frames
with arbitrary bytes between them that do not contain the magic number, it
yields the messages of the frames and nothing else (`frames_recovered`).

The scan is followed from the back of the stream: junk in front of a frame is
skipped byte by byte (`scans_junk`), a frame is taken whole (`scans_frame`),
and junk at the end is skipped down to less than a header
(`scans_last_junk`).
-/

namespace LinuxFileManager.Gateway

open Lib Protocol

/-- No two adjacent bytes of `junk` are the magic number. -/
def NoMagic (junk : List UInt8) : Prop := ¬ [protoMagic1, protoMagic2] <:+: junk

instance (junk : List UInt8) : Decidable (NoMagic junk) := inferInstanceAs (Decidable (¬ _))

/-- A frame on the wire, the message it was built from, and the junk behind it. -/
structure Segment where
  msg : ProtoMessage
  bytes : List UInt8
  junk : List UInt8

/-- `bytes` is what `proto_build_frame` and `send_frame_raw` emit for `msg`,
    and `junk` does not contain the magic number. -/
def Segment.Emitted (s : Segment) : Prop :=
  (∃ stack payload, PayloadArg payload s.msg.payloadLen s.msg.payload ∧
    s.msg.payload.length ≤ protoMaxPayload ∧
    sendFrameRaw stack s.msg.cmd s.msg.flags s.msg.seq payload s.msg.payloadLen = some s.bytes) ∧
  NoMagic s.junk

/-- The stream `junk0 frame1 junk1 ... frameN junkN`. -/
def framedStream (junk0 : List UInt8) (segments : List Segment) : List UInt8 :=
  junk0 ++ segments.flatMap fun s => s.bytes ++ s.junk

theorem Segment.Emitted.bytes_eq {s : Segment} (h : s.Emitted) :
    s.bytes = frameImage s.msg ∧ s.msg.Sized ∧ s.msg.payload.length ≤ protoMaxPayload := by
  obtain ⟨⟨stack, payload, hp, hle, hsend⟩, -⟩ := h
  rw [sendFrameRaw_eq_frameImage stack hp (hp.length_eq ▸ hle), Option.some.injEq] at hsend
  exact ⟨hsend.symm, hp.length_eq, hle⟩

/-! ## Verdicts along the stream -/

/-- A header that does not start with the magic number is skipped. -/
theorem protoParseFrame_not_magic {a b : UInt8} {raw : List UInt8}
    (hlen : protoHeaderSize ≤ (a :: b :: raw).length)
    (h : ¬ (a = protoMagic1 ∧ b = protoMagic2)) : protoParseFrame (a :: b :: raw) = .bad := by
  obtain ⟨b0, b1, b2, b3, b4, b5, b6, b7, tail, heq⟩ := exists_header hlen
  rw [heq, protoParseFrame_cons, if_neg]
  simp only [List.cons.injEq] at heq
  rwa [← heq.1, ← heq.2.1]

theorem noMagic_tail {a : UInt8} {junk : List UInt8} (h : NoMagic (a :: junk)) : NoMagic junk :=
  fun hin => h (hin.trans (List.suffix_cons _ _).isInfix)

theorem noMagic_head {a b : UInt8} {junk : List UInt8} (h : NoMagic (a :: b :: junk)) :
    ¬ (a = protoMagic1 ∧ b = protoMagic2) := by
  rintro ⟨rfl, rfl⟩
  exact h ⟨[], junk, rfl⟩

theorem frameImage_eq_cons (m : ProtoMessage) :
    ∃ tail, frameImage m = protoMagic1 :: tail ∧ protoHeaderSize ≤ tail.length := by
  refine ⟨(frameImage m).tail, rfl, ?_⟩
  rw [List.length_tail, length_frameImage]
  unfold protoChecksumSize
  omega

theorem scans_skip {a b : UInt8} {ys r : List UInt8} {ms : List ProtoMessage}
    (hlen : protoHeaderSize ≤ (a :: b :: ys).length) (h : ¬ (a = protoMagic1 ∧ b = protoMagic2))
    (hs : Scans protoParser window (b :: ys) ms r) :
    Scans protoParser window (a :: b :: ys) ms r := by
  refine .bad ?_ hs
  rw [show window = 2081 + 1 + 1 by rfl, List.take_succ_cons, List.take_succ_cons]
  refine protoParseFrame_not_magic ?_ h
  simp only [List.length_cons, List.length_take, protoHeaderSize] at hlen ⊢
  omega

/-- Junk in front of a frame is skipped. Its last byte may be `0xAA`: the byte
    behind it is the first one of the frame, which is not `0x55`. -/
theorem scans_junk {junk tail r : List UInt8} {ms : List ProtoMessage} (hj : NoMagic junk)
    (htail : protoHeaderSize ≤ tail.length)
    (hs : Scans protoParser window (protoMagic1 :: tail) ms r) :
    Scans protoParser window (junk ++ protoMagic1 :: tail) ms r := by
  induction junk with
  | nil => exact hs
  | cons a junk ih =>
    have hs' := ih (noMagic_tail hj)
    cases junk with
    | nil =>
      refine scans_skip (by simp only [List.length_cons]; omega) ?_ hs'
      rintro ⟨-, h⟩
      exact absurd h (by decide)
    | cons b junk =>
      refine scans_skip ?_ (noMagic_head hj) hs'
      show protoHeaderSize ≤ (a :: b :: (junk ++ protoMagic1 :: tail)).length
      simp only [List.length_cons, List.length_append]
      omega

/-- Junk at the end of the stream is skipped down to less than a header. -/
theorem scans_last_junk {junk : List UInt8} (hj : NoMagic junk) :
    ∃ r, Scans protoParser window junk [] r ∧ r.length < protoHeaderSize := by
  induction junk with
  | nil => exact ⟨[], .more rfl, by decide⟩
  | cons a junk ih =>
    by_cases hlen : (a :: junk).length < protoHeaderSize
    · refine ⟨a :: junk, .more (protoParseFrame_short ?_), hlen⟩
      rw [List.length_take]
      omega
    · obtain ⟨r, hs, hr⟩ := ih (noMagic_tail hj)
      cases junk with
      | nil => exact absurd (by simp [protoHeaderSize]) hlen
      | cons b junk => exact ⟨r, scans_skip (by omega) (noMagic_head hj) hs, hr⟩

/-- A frame that fits the window is taken whole. -/
theorem scans_frame {m : ProtoMessage} {xs r : List UInt8} {ms : List ProtoMessage}
    (hsized : m.Sized) (hfit : (frameImage m).length ≤ window)
    (hs : Scans protoParser window xs ms r) :
    Scans protoParser window (frameImage m ++ xs) (m :: ms) r := by
  refine .frame (n := (frameImage m).length) ?_ ?_
  · rw [Parser.take_append_of_le hfit]
    have hparse : protoParseFrame (frameImage m ++ xs.take (window - (frameImage m).length)) =
        .frame (frameImage m).length m :=
      protoParseFrame_eq_frame_iff.mpr ⟨hsized, rfl, _, rfl⟩
    exact hparse
  · rwa [List.drop_left]

/-- What `proto_build_frame` can encode. -/
def Encodable (m : ProtoMessage) : Prop := m.Sized ∧ m.payload.length ≤ protoMaxPayload

instance (m : ProtoMessage) : Decidable (Encodable m) := inferInstanceAs (Decidable (_ ∧ _))

theorem Encodable.fits {m : ProtoMessage} (h : Encodable m) : (frameImage m).length ≤ window := by
  have hle := h.2
  rw [length_frameImage]
  unfold window recvBufSize protoFrameMax protoHeaderSize protoChecksumSize
  omega

/-- Frames one behind the other are taken one by one. -/
theorem scans_frames {ms : List ProtoMessage} (h : ∀ m ∈ ms, Encodable m) :
    Scans protoParser window (ms.flatMap frameImage) ms [] := by
  induction ms with
  | nil => exact .nil
  | cons m ms ih =>
    obtain ⟨hm, hms⟩ := List.forall_mem_cons.mp h
    rw [List.flatMap_cons]
    exact scans_frame hm.1 hm.fits (ih hms)

/-! ## Framed streams -/

theorem scans_segments {segments : List Segment} (h : ∀ s ∈ segments, s.Emitted) :
    ∀ {junk0 : List UInt8}, NoMagic junk0 →
      ∃ r, Scans protoParser window (framedStream junk0 segments) (segments.map Segment.msg) r ∧
        r.length < protoHeaderSize := by
  induction segments with
  | nil =>
    intro junk0 hj0
    simpa [framedStream] using scans_last_junk hj0
  | cons s segments ih =>
    intro junk0 hj0
    obtain ⟨hbytes, hsized, hle⟩ := (h s (by simp)).bytes_eq
    obtain ⟨r, hs, hr⟩ := ih (fun s' hs' => h s' (by simp [hs'])) (h s (by simp)).2
    have hfit := Encodable.fits ⟨hsized, hle⟩
    have hstream : framedStream junk0 (s :: segments) =
        junk0 ++ (frameImage s.msg ++ framedStream s.junk segments) := by
      simp [framedStream, hbytes]
    obtain ⟨tail, htail, hlen⟩ := frameImage_eq_cons s.msg
    have hframe := scans_frame hsized hfit hs
    rw [htail, List.cons_append] at hframe
    refine ⟨r, ?_, hr⟩
    rw [hstream, htail, List.cons_append]
    exact scans_junk hj0 (by rw [List.length_append]; omega) hframe

/-- The receive loop yields exactly the messages of the frames, in order, and
    does not close, however the stream is cut into blocks. -/
theorem frames_recovered {junk0 : List UInt8} {segments : List Segment} (hj0 : NoMagic junk0)
    (hseg : ∀ s ∈ segments, s.Emitted) {recvBuf : Buffer UInt8 recvBufSize}
    {w : ClientWorker (List ProtoMessage)}
    (h : Delivers record (.start recvBuf []) (framedStream junk0 segments) w) :
    w.state = segments.map Segment.msg ∧ w.closed = false := by
  obtain ⟨ms, r, hs, hst, -, hclosed⟩ := h.scans
  obtain ⟨r', hs', hr'⟩ := scans_segments hseg hj0
  obtain ⟨rfl, rfl⟩ := hs.unique hs'
  refine ⟨by rw [hst, foldl_record, List.nil_append], ?_⟩
  rw [Bool.eq_false_iff, Ne, hclosed]
  unfold protoHeaderSize at hr'
  unfold window recvBufSize protoFrameMax protoMaxPayload
  omega

/-- Junk that ends in `0xAA`, then a PING in two blocks. -/
theorem frames_recovered_ping :
    ∃ w, Delivers record (.start (.filled _ 0) []) (0xAA :: frameImage ⟨1, 2, 7, [], 0⟩) w ∧
      w.state = [⟨1, 2, 7, [], 0⟩] ∧ w.closed = false := by
  have h := Delivers.block (w := .start (.filled _ 0) []) (b := [0xAA, 0xAA, 0x55, 1])
    (by decide) (by decide) (.block (b := [2, 7, 0, 0, 0, 0xFB]) (by decide) (by decide)
      (.idle (ClientWorker.iterate record _ _)))
  have hseg : ∀ s ∈ [Segment.mk ⟨1, 2, 7, [], 0⟩ (frameImage ⟨1, 2, 7, [], 0⟩) []], s.Emitted := by
    intro s hs
    rw [List.mem_singleton] at hs
    subst hs
    have hp : PayloadArg none 0 [] := Or.inr ⟨rfl, rfl, rfl⟩
    exact ⟨⟨.filled 0, none, hp, by decide,
      sendFrameRaw_eq_frameImage (m := ⟨1, 2, 7, [], 0⟩) _ hp (by decide)⟩, by decide⟩
  exact ⟨_, h, frames_recovered (show NoMagic [0xAA] by decide) hseg h⟩

end LinuxFileManager.Gateway
