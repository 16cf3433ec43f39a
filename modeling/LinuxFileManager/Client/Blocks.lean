import LinuxFileManager.Gateway.Receive

/-!
# Frames in the blocks of the client

The bundled client calls `handle_server_data` (`test/client.c` lines 118–172)
on each block that `recv` returns. The function looks for frames in this block
alone: it does not check the checksum, and what is left of the block when it
holds no complete frame is lost, although the code says that it waits for the
next `recv`.

Result:

* `client_agrees_iff`: the client takes the same frames at the same places of
  the stream as the receive loop of the gateway does, if and only if each frame
  that it takes has the right checksum and the gateway takes none that begins in
  what the client drops (`InStep`).
* `splitPing_lost`: a PING in two blocks is lost.
-/

namespace LinuxFileManager.Client

open Lib Protocol Gateway

/-! ## Model -/

/-- The frame that the client finds at the beginning of `raw` (lines 133–141). -/
def frameAt (raw : List UInt8) : ProtoMessage :=
  let hdr := ProtoHeader.ofBytes raw
  { cmd := hdr.cmd
    flags := hdr.flags
    seq := hdr.seq
    payload := (raw.drop protoHeaderSize).take hdr.payloadLen.toNat
    payloadLen := hdr.payloadLen }

/-- `frame_len` (line 134). -/
def frameLenAt (raw : List UInt8) : ℕ :=
  protoHeaderSize + (ProtoHeader.ofBytes raw).payloadLen.toNat + protoChecksumSize

/-- `while (offset + PROTO_HEADER_SIZE <= len) { ... }` (lines 123–169) from a
    given offset: the frames found, with their offsets. `fuel` bounds the number
    of iterations; `handleServerDataLoop_locates` shows that `len` of them
    suffice. -/
def handleServerDataLoop (buf : List UInt8) : ℕ → ℕ → List (ℕ × ProtoMessage)
  | 0, _ => []
  | fuel + 1, offset =>
    if offset + protoHeaderSize ≤ buf.length then
      let raw := buf.drop offset
      if !protoVerifyMagic raw then handleServerDataLoop buf fuel (offset + 1)
      else if offset + frameLenAt raw > buf.length then []
      else (offset, frameAt raw) :: handleServerDataLoop buf fuel (offset + frameLenAt raw)
    else []

/-- `sizeof(buf)` in `main` (line 320), which bounds a block. -/
def recvMax : ℕ := 2048

/-- `handle_server_data` on one block after the other, with the places of the
    frames in the stream; the first block begins at `base`. -/
def handleBlocks (base : ℕ) : List (List UInt8) → List (ℕ × ProtoMessage)
  | [] => []
  | buf :: bufs =>
    (handleServerDataLoop buf buf.length 0).map (fun f => (base + f.1, f.2)) ++
      handleBlocks (base + buf.length) bufs

/-! ## The loop as a parser -/

/-- What the client says about the bytes from an offset to the end of a block. -/
def clientParse (raw : List UInt8) : Verdict ProtoMessage :=
  if raw.length < protoHeaderSize then .more
  else if !protoVerifyMagic raw then .bad
  else if raw.length < frameLenAt raw then .more
  else .frame (frameLenAt raw) (frameAt raw)

/-- A header does not change when more data arrives. -/
theorem ofBytes_append {raw : List UInt8} (h : protoHeaderSize ≤ raw.length) (ys : List UInt8) :
    ProtoHeader.ofBytes (raw ++ ys) = ProtoHeader.ofBytes raw ∧
      protoVerifyMagic (raw ++ ys) = protoVerifyMagic raw := by
  obtain ⟨b0, b1, b2, b3, b4, b5, b6, b7, tail, rfl⟩ := exists_header h
  exact ⟨rfl, rfl⟩

theorem frameLenAt_pos (raw : List UInt8) : protoHeaderSize < frameLenAt raw := by
  unfold frameLenAt protoChecksumSize
  omega

theorem clientParse_eq_bad_iff {raw : List UInt8} :
    clientParse raw = .bad ↔ protoHeaderSize ≤ raw.length ∧ protoVerifyMagic raw = false := by
  unfold clientParse
  split_ifs with hshort hmagic hmore
  · exact iff_of_false nofun fun h => absurd h.1 (not_le.mpr hshort)
  · exact iff_of_true rfl ⟨not_lt.mp hshort, by simpa using hmagic⟩
  · exact iff_of_false nofun fun h => hmagic (by simp [h.2])
  · exact iff_of_false nofun fun h => hmagic (by simp [h.2])

theorem clientParse_eq_frame_iff {raw : List UInt8} {n : ℕ} {m : ProtoMessage} :
    clientParse raw = .frame n m ↔
      protoVerifyMagic raw = true ∧ frameLenAt raw ≤ raw.length ∧ n = frameLenAt raw ∧
        m = frameAt raw := by
  have hpos := frameLenAt_pos raw
  unfold clientParse
  split_ifs with hshort hmagic hmore
  · exact iff_of_false nofun fun h => by omega
  · exact iff_of_false nofun fun h => by simp [h.1] at hmagic
  · exact iff_of_false nofun fun h => by omega
  · rw [Verdict.frame.injEq]
    exact ⟨fun h => ⟨by simpa using hmagic, not_lt.mp hmore, h.1.symm, h.2.symm⟩,
      fun h => ⟨h.2.2.1.symm, h.2.2.2.symm⟩⟩

/-- A complete frame does not change when more data arrives. -/
theorem frameAt_append {raw : List UInt8} (h : frameLenAt raw ≤ raw.length) (ys : List UInt8) :
    frameLenAt (raw ++ ys) = frameLenAt raw ∧ frameAt (raw ++ ys) = frameAt raw := by
  have hpos := frameLenAt_pos raw
  obtain ⟨hhdr, -⟩ := ofBytes_append (by omega : protoHeaderSize ≤ raw.length) ys
  have hpayload : ((raw ++ ys).drop protoHeaderSize).take (ProtoHeader.ofBytes raw).payloadLen.toNat =
      (raw.drop protoHeaderSize).take (ProtoHeader.ofBytes raw).payloadLen.toNat := by
    rw [List.drop_append_of_le_length (by omega), List.take_append_of_le_length]
    rw [List.length_drop]
    unfold frameLenAt at h
    omega
  refine ⟨by rw [frameLenAt, hhdr, frameLenAt], ?_⟩
  simp only [frameAt, hhdr, hpayload]

/-- The client's search for frames in a block, in the terms of `Lib.Stream`. -/
def clientParser : Parser UInt8 ProtoMessage where
  parse := clientParse
  parse_nil := rfl
  frame_len := by
    intro raw n m h
    obtain ⟨-, hle, rfl, -⟩ := clientParse_eq_frame_iff.mp h
    exact ⟨(Nat.zero_le _).trans_lt (frameLenAt_pos raw), hle⟩
  frame_append := by
    intro raw n m ys h
    obtain ⟨hmagic, hle, rfl, rfl⟩ := clientParse_eq_frame_iff.mp h
    have hpos := frameLenAt_pos raw
    obtain ⟨hlen, hframe⟩ := frameAt_append hle ys
    refine clientParse_eq_frame_iff.mpr ⟨?_, ?_, hlen.symm, hframe.symm⟩
    · rw [(ofBytes_append (by omega) ys).2, hmagic]
    · rw [hlen, List.length_append]
      omega
  bad_append := by
    intro raw ys h
    obtain ⟨hlen, hmagic⟩ := clientParse_eq_bad_iff.mp h
    refine clientParse_eq_bad_iff.mpr ⟨?_, by rw [(ofBytes_append hlen ys).2, hmagic]⟩
    rw [List.length_append]
    omega

/-- The frames in a block, the first byte of which is at `base`. -/
def BlockFrames (base : ℕ) (buf : List UInt8) (offset : ℕ) (fs : List (ℕ × ProtoMessage)) : Prop :=
  Locates clientParser buf.length (base + offset) (buf.drop offset) fs

theorem take_drop_length (buf : List UInt8) (offset : ℕ) :
    (buf.drop offset).take buf.length = buf.drop offset :=
  List.take_of_length_le (by rw [List.length_drop]; omega)

theorem handleServerDataLoop_locates (base : ℕ) (buf : List UInt8) (fuel offset : ℕ)
    (hfuel : buf.length - offset ≤ fuel) :
    BlockFrames base buf offset
      ((handleServerDataLoop buf fuel offset).map fun f => (base + f.1, f.2)) := by
  induction fuel generalizing offset with
  | zero =>
    refine .more ?_
    rw [List.drop_eq_nil_of_le (by omega), List.take_nil]
    rfl
  | succ fuel ih =>
    have hlen : (buf.drop offset).length = buf.length - offset := List.length_drop
    rw [handleServerDataLoop]
    dsimp only
    split_ifs with hhdr hmagic hmore
    · refine .bad ?_ ?_
      · rw [take_drop_length]
        refine clientParse_eq_bad_iff.mpr ⟨by omega, by simpa using hmagic⟩
      · rw [List.drop_drop, Nat.add_assoc]
        exact ih (offset + 1) (by omega)
    · refine .more ?_
      rw [take_drop_length]
      show clientParse _ = _
      rw [clientParse, if_neg (by omega), if_neg hmagic, if_pos (by omega)]
    · have hpos := frameLenAt_pos (buf.drop offset)
      refine .frame (n := frameLenAt (buf.drop offset)) ?_ ?_
      · rw [take_drop_length]
        exact clientParse_eq_frame_iff.mpr ⟨by simpa using hmagic, by omega, rfl, rfl⟩
      · rw [List.drop_drop, Nat.add_assoc]
        exact ih _ (by omega)
    · refine .more ?_
      rw [take_drop_length]
      show clientParse _ = _
      have hpos : 0 < protoHeaderSize := by decide
      rw [clientParse, if_pos (by omega)]

/-! ## The two decoders at one place -/

/-- The checksum behind the payload is that of the header and the payload. -/
def ChecksumRight (raw : List UInt8) : Prop :=
  protoChecksum (raw.take (frameLenAt raw - protoChecksumSize)) =
    raw.getD (frameLenAt raw - protoChecksumSize) 0

instance (raw : List UInt8) : Decidable (ChecksumRight raw) := inferInstanceAs (Decidable (_ = _))

/-- `proto_parse_frame` in the words of the client. -/
theorem protoParseFrame_eq (raw : List UInt8) :
    protoParseFrame raw =
      if raw.length < protoHeaderSize then .more
      else if !protoVerifyMagic raw then .bad
      else if raw.length < frameLenAt raw then .more
      else if ¬ ChecksumRight raw then .bad
      else .frame (frameLenAt raw) (frameAt raw) := rfl

/-- The decoder of the gateway sees the frames of the client, less those with a
    wrong checksum. -/
theorem protoParseFrame_frame_iff {raw : List UInt8} {n : ℕ} {m : ProtoMessage} :
    protoParseFrame raw = .frame n m ↔ clientParse raw = .frame n m ∧ ChecksumRight raw := by
  rw [protoParseFrame_eq, clientParse]
  split_ifs with hshort hmagic hmore hsum
  · simp
  · simp
  · simp
  · exact (and_iff_left hsum).symm
  · exact iff_of_false nofun (fun h => hsum h.2)

/-- The checksum of a complete frame does not depend on what follows. -/
theorem checksumRight_append {raw : List UInt8} (h : frameLenAt raw ≤ raw.length) (ys : List UInt8) :
    ChecksumRight (raw ++ ys) ↔ ChecksumRight raw := by
  have hpos := frameLenAt_pos raw
  have hsize : protoChecksumSize = 1 := rfl
  rw [ChecksumRight, (frameAt_append h ys).1, List.take_append_of_le_length (by omega),
    List.getD_append _ _ _ _ (by omega), ChecksumRight]

/-- Both skip a byte that does not begin with the magic number. -/
theorem protoParseFrame_of_clientParse_bad {raw : List UInt8} (h : clientParse raw = .bad) :
    protoParseFrame raw = .bad := by
  obtain ⟨hlen, hmagic⟩ := clientParse_eq_bad_iff.mp h
  rw [protoParseFrame, if_neg (not_lt.mpr hlen), hmagic]
  rfl

/-- Where the client takes a frame of a block, the gateway takes it if and only
    if the checksum is right, and it takes no other. -/
theorem frame_iff_of_accepted {raw rest : List UInt8} {n n' : ℕ} {m m' : ProtoMessage}
    (hclient : clientParse raw = .frame n m) (hfit : raw.length ≤ recvMax) :
    protoParseFrame ((raw ++ rest).take window) = .frame n' m' ↔
      (n' = n ∧ m' = m) ∧ ChecksumRight (raw ++ rest) := by
  obtain ⟨-, hle, -, -⟩ := clientParse_eq_frame_iff.mp hclient
  have hwindow : (raw ++ rest).take window = raw ++ rest.take (window - raw.length) :=
    Parser.take_append_of_le (hfit.trans (by decide)) rest
  have hparse := clientParser.frame_append (rest.take (window - raw.length)) hclient
  rw [protoParseFrame_frame_iff, hwindow, checksumRight_append hle, checksumRight_append hle,
    show clientParse _ = _ from hparse, Verdict.frame.injEq, eq_comm, eq_comm (a := m)]

/-- Where the client skips a byte, so does the gateway. -/
theorem bad_of_clientParse_bad {raw : List UInt8} (rest : List UInt8) (h : clientParse raw = .bad) :
    protoParseFrame ((raw ++ rest).take window) = .bad := by
  obtain ⟨hlen, hmagic⟩ := clientParse_eq_bad_iff.mp (clientParser.bad_append rest h)
  have hwindow : protoHeaderSize ≤ ((raw ++ rest).take window).length := by
    rw [List.length_take]
    exact le_min (by decide) hlen
  have hsame := (ofBytes_append hwindow ((raw ++ rest).drop window)).2
  rw [List.take_append_drop, hmagic] at hsame
  exact protoParseFrame_of_clientParse_bad (clientParse_eq_bad_iff.mpr ⟨hwindow, hsame.symm⟩)

/-! ## Taken and dropped -/

/-- The verdict of the gateway's decoder at place `p` of the stream. -/
def verdictAt (xs : List UInt8) (p : ℕ) : Verdict ProtoMessage :=
  protoParseFrame ((xs.drop p).take window)

/-- The client's search in the block `buf` comes to `offset`, with this verdict. -/
def SearchAt (buf : List UInt8) (offset : ℕ) (verdict : Verdict ProtoMessage) : Prop :=
  (∃ k, Reaches clientParser buf.length buf k offset) ∧ clientParse (buf.drop offset) = verdict

/-- The client takes the frame `m` at place `p`. -/
def Takes (blocks : List (List UInt8)) (p : ℕ) (m : ProtoMessage) : Prop :=
  ∃ before buf after offset n, blocks = before ++ buf :: after ∧ SearchAt buf offset (.frame n m) ∧
    p = before.flatten.length + offset

/-- Place `p` is in what the client drops of a block: its search of the block
    ends at `p` or before. -/
def Drops (blocks : List (List UInt8)) (p : ℕ) : Prop :=
  ∃ before buf after offset, blocks = before ++ buf :: after ∧ SearchAt buf offset .more ∧
    before.flatten.length + offset ≤ p ∧ p < before.flatten.length + buf.length

/-- Each frame that the client takes has the right checksum. When the gateway's
    decoder comes to what the client drops of a block, it takes no frame there,
    and it waits there for more data only if the client takes no frame behind. -/
structure InStep (blocks : List (List UInt8)) : Prop where
  accepted : ∀ p m, Takes blocks p m → ChecksumRight (blocks.flatten.drop p)
  dropped : ∀ k p, Drops blocks p → Reaches protoParser window blocks.flatten k p →
    (∀ n m, verdictAt blocks.flatten p ≠ .frame n m) ∧
      (verdictAt blocks.flatten p = .more → ∀ p' m, Takes blocks p' m → p' < p)

theorem mem_handleServerDataLoop {buf : List UInt8} {offset : ℕ} {m : ProtoMessage} :
    (offset, m) ∈ handleServerDataLoop buf buf.length 0 ↔ ∃ n, SearchAt buf offset (.frame n m) := by
  have hloop := handleServerDataLoop_locates 0 buf buf.length 0 (Nat.sub_le _ _)
  simp only [Nat.zero_add, BlockFrames, Prod.mk.eta, List.map_id'] at hloop
  rw [hloop.mem_iff .start rfl]
  simp only [Nat.zero_le, true_and, take_drop_length]
  constructor
  · rintro ⟨k, n, hr, hp⟩
    exact ⟨n, ⟨k, hr⟩, hp⟩
  · rintro ⟨n, ⟨k, hr⟩, hp⟩
    exact ⟨k, n, hr, hp⟩

/-- The frames of a list of blocks that begins at `base`. -/
theorem mem_handleBlocks {base : ℕ} {bufs : List (List UInt8)} {p : ℕ} {m : ProtoMessage} :
    (p, m) ∈ handleBlocks base bufs ↔
      ∃ before buf after offset n, bufs = before ++ buf :: after ∧ SearchAt buf offset (.frame n m) ∧
        p = base + before.flatten.length + offset := by
  induction bufs generalizing base with
  | nil => simp [handleBlocks]
  | cons buf bufs ih =>
    rw [handleBlocks, List.mem_append, ih]
    constructor
    · rintro (hmem | ⟨before, buf', after, offset, n, rfl, hsearch, rfl⟩)
      · obtain ⟨⟨offset, m'⟩, hloop, heq⟩ := List.mem_map.mp hmem
        cases heq
        obtain ⟨n, hsearch⟩ := mem_handleServerDataLoop.mp hloop
        exact ⟨[], buf, bufs, offset, n, rfl, hsearch, rfl⟩
      · refine ⟨buf :: before, buf', after, offset, n, rfl, hsearch, ?_⟩
        rw [List.flatten_cons, List.length_append, Nat.add_assoc base]
    · rintro ⟨before, buf', after, offset, n, hbufs, hsearch, rfl⟩
      cases before with
      | nil =>
        cases hbufs
        exact Or.inl (List.mem_map.mpr ⟨(offset, m), mem_handleServerDataLoop.mpr ⟨n, hsearch⟩, rfl⟩)
      | cons buf'' before =>
        cases hbufs
        refine Or.inr ⟨before, buf', after, offset, n, rfl, hsearch, ?_⟩
        rw [List.flatten_cons, List.length_append, ← Nat.add_assoc base]

theorem mem_handleBlocks_zero {blocks : List (List UInt8)} {p : ℕ} {m : ProtoMessage} :
    (p, m) ∈ handleBlocks 0 blocks ↔ Takes blocks p m := by
  rw [mem_handleBlocks]
  simp only [Nat.zero_add]
  rfl

section

variable {blocks before after : List (List UInt8)} {buf : List UInt8}

theorem drop_flatten (hsplit : blocks = before ++ buf :: after) {offset : ℕ} (hle : offset ≤ buf.length) :
    blocks.flatten.drop (before.flatten.length + offset) = buf.drop offset ++ after.flatten := by
  rw [hsplit, List.flatten_append, List.flatten_cons, List.drop_length_add_append,
    List.drop_append_of_le_length hle]

/-- A place in a block is in no other block. -/
theorem split_unique {before' after' : List (List UInt8)} {buf' : List UInt8} (offset offset' : ℕ)
    (hsplit : before ++ buf :: after = before' ++ buf' :: after') (hlt : offset < buf.length)
    (hlt' : offset' < buf'.length)
    (hplace : before.flatten.length + offset = before'.flatten.length + offset') :
    before = before' ∧ buf = buf' ∧ offset = offset' := by
  rcases List.append_eq_append_iff.mp hsplit with ⟨mid, rfl, hmid⟩ | ⟨mid, rfl, hmid⟩
  · cases mid with
    | nil =>
      cases hmid
      simp only [List.append_nil] at hplace ⊢
      exact ⟨trivial, trivial, by omega⟩
    | cons buf'' mid =>
      cases hmid
      simp only [List.flatten_append, List.flatten_cons, List.length_append] at hplace
      omega
  · cases mid with
    | nil =>
      cases hmid
      simp only [List.append_nil] at hplace ⊢
      exact ⟨trivial, trivial, by omega⟩
    | cons buf'' mid =>
      cases hmid
      simp only [List.flatten_append, List.flatten_cons, List.length_append] at hplace
      omega

end

/-- What the client drops it does not take. -/
theorem Drops.not_takes {blocks : List (List UInt8)} {p : ℕ} (h : Drops blocks p) (m : ProtoMessage) :
    ¬ Takes blocks p m := by
  rintro ⟨before', buf', after', offset', n, hsplit', ⟨⟨k', hr'⟩, hframe⟩, hp⟩
  obtain ⟨before, buf, after, offset, hsplit, ⟨⟨k, hr⟩, hmore⟩, hle, hlt⟩ := h
  obtain ⟨hpos, hlen⟩ := clientParser.frame_len hframe
  rw [List.length_drop] at hlen
  obtain ⟨-, rfl, heq⟩ := split_unique (p - before.flatten.length) offset'
    (hsplit.symm.trans hsplit') (by omega) (by omega) (by omega)
  rcases (show offset ≤ offset' by omega).lt_or_eq with hlt' | rfl
  · refine (hr.next_le hr' hlt').1 ?_
    rw [take_drop_length]
    exact hmore
  · rw [hmore] at hframe
    cases hframe

/-! ## The two decoders in step -/

section

variable {blocks before after : List (List UInt8)} {buf : List UInt8}

/-- The gateway's search, in what the client drops of a block, comes to the next
    block, or it ends and the client takes nothing more. -/
theorem InStep.locates_dropped (h : InStep blocks) (hsplit : blocks = before ++ buf :: after)
    (hnext : ∀ k, Reaches protoParser window blocks.flatten k (before.flatten.length + buf.length) →
      Locates protoParser window (before.flatten.length + buf.length)
        (blocks.flatten.drop (before.flatten.length + buf.length))
        (handleBlocks (before.flatten.length + buf.length) after))
    {offset : ℕ} (hmore : SearchAt buf offset .more) {k p : ℕ} (rest : ℕ)
    (hrest : p + rest = before.flatten.length + buf.length) (hle : before.flatten.length + offset ≤ p)
    (hr : Reaches protoParser window blocks.flatten k p) :
    Locates protoParser window p (blocks.flatten.drop p)
      (handleBlocks (before.flatten.length + buf.length) after) := by
  induction rest generalizing k p with
  | zero =>
    obtain rfl : p = before.flatten.length + buf.length := hrest
    exact hnext k hr
  | succ rest ih =>
    have hdrops : Drops blocks p := ⟨before, buf, after, offset, hsplit, hmore, hle, by omega⟩
    obtain ⟨hframe, hwait⟩ := h.dropped k p hdrops hr
    cases hverdict : verdictAt blocks.flatten p with
    | frame n m => exact absurd hverdict (hframe n m)
    | more =>
      have hnil : handleBlocks (before.flatten.length + buf.length) after = [] := by
        refine List.eq_nil_iff_forall_not_mem.mpr fun f hf => ?_
        obtain ⟨before', buf', after', offset', n, rfl, hsearch, hp'⟩ :=
          mem_handleBlocks (p := f.1) (m := f.2).mp hf
        have htakes : Takes blocks f.1 f.2 := by
          refine ⟨before ++ buf :: before', buf', after', offset', n, by rw [hsplit]; simp, hsearch, ?_⟩
          rw [hp', List.flatten_append, List.flatten_cons, List.length_append, List.length_append]
          omega
        have := hwait hverdict f.1 f.2 htakes
        omega
      rw [hnil]
      exact .more hverdict
    | bad =>
      refine .bad hverdict ?_
      rw [List.drop_drop]
      exact ih (by omega) (by omega) (hr.bad hverdict)

/-- In a block, the gateway's search takes the frames of the client. -/
theorem InStep.locates_block (h : InStep blocks) (hsplit : blocks = before ++ buf :: after)
    (hfit : buf.length ≤ recvMax)
    (hnext : ∀ k, Reaches protoParser window blocks.flatten k (before.flatten.length + buf.length) →
      Locates protoParser window (before.flatten.length + buf.length)
        (blocks.flatten.drop (before.flatten.length + buf.length))
        (handleBlocks (before.flatten.length + buf.length) after))
    {offset j k : ℕ} {fs : List (ℕ × ProtoMessage)}
    (hfs : BlockFrames before.flatten.length buf offset fs)
    (hclient : Reaches clientParser buf.length buf j offset)
    (hr : Reaches protoParser window blocks.flatten k (before.flatten.length + offset)) :
    Locates protoParser window (before.flatten.length + offset)
      (blocks.flatten.drop (before.flatten.length + offset))
      (fs ++ handleBlocks (before.flatten.length + buf.length) after) := by
  unfold BlockFrames at hfs
  generalize hp : before.flatten.length + offset = p at hfs hr ⊢
  generalize hys : buf.drop offset = ys at hfs
  have hle := (hclient.append []).1
  induction hfs generalizing offset j k with
  | more hverdict =>
    subst hys
    rw [take_drop_length] at hverdict
    exact h.locates_dropped hsplit hnext ⟨⟨j, hclient⟩, hverdict⟩ (buf.length - offset) (by omega)
      hp.le hr
  | @frame p n ys m fs hverdict _ ih =>
    subst hys hp
    have hclient' := hclient.frame hverdict
    rw [take_drop_length] at hverdict
    have hsum := h.accepted _ m ⟨before, buf, after, offset, n, hsplit, ⟨⟨j, hclient⟩, hverdict⟩, rfl⟩
    have hgateway : verdictAt blocks.flatten (before.flatten.length + offset) = .frame n m := by
      rw [drop_flatten hsplit hle] at hsum
      rw [verdictAt, drop_flatten hsplit hle]
      exact (frame_iff_of_accepted hverdict (by rw [List.length_drop]; omega)).mpr ⟨⟨rfl, rfl⟩, hsum⟩
    refine .frame hgateway ?_
    rw [List.drop_drop]
    exact ih hclient' (by omega) (hr.frame hgateway) (by rw [List.drop_drop]) (hclient'.append []).1
  | @bad p ys fs hverdict _ ih =>
    subst hys hp
    have hclient' := hclient.bad hverdict
    rw [take_drop_length] at hverdict
    have hgateway : verdictAt blocks.flatten (before.flatten.length + offset) = .bad := by
      rw [verdictAt, drop_flatten hsplit hle]
      exact bad_of_clientParse_bad _ hverdict
    refine .bad hgateway ?_
    rw [List.drop_drop]
    exact ih hclient' (by omega) (hr.bad hgateway) (by rw [List.drop_drop]) (hclient'.append []).1

end

/-- In step, the gateway's search takes the frames of the client, block by block. -/
theorem InStep.locates {blocks : List (List UInt8)} (h : InStep blocks)
    (hfit : ∀ buf ∈ blocks, buf.length ≤ recvMax) {before bufs : List (List UInt8)} {k : ℕ}
    (hsplit : blocks = before ++ bufs)
    (hr : Reaches protoParser window blocks.flatten k before.flatten.length) :
    Locates protoParser window before.flatten.length (blocks.flatten.drop before.flatten.length)
      (handleBlocks before.flatten.length bufs) := by
  induction bufs generalizing before k with
  | nil =>
    refine .more ?_
    rw [hsplit, List.append_nil, List.drop_length, List.take_nil]
    exact protoParser.parse_nil
  | cons buf bufs ih =>
    have hnext : (before ++ [buf]).flatten.length = before.flatten.length + buf.length := by simp
    have hbuf : buf.length ≤ recvMax := hfit buf (by rw [hsplit]; simp)
    refine h.locates_block hsplit hbuf (fun k' hr' => ?_)
      (handleServerDataLoop_locates _ buf buf.length 0 (Nat.sub_le _ _)) .start hr
    rw [← hnext] at hr' ⊢
    exact ih (by rw [hsplit]; simp) hr'

/-- When both take the same frames at the same places, they are in step. -/
theorem inStep_of_locates {blocks : List (List UInt8)} (hfit : ∀ buf ∈ blocks, buf.length ≤ recvMax)
    (h : Locates protoParser window 0 blocks.flatten (handleBlocks 0 blocks)) : InStep blocks := by
  have hmem : ∀ p m, Takes blocks p m ↔
      ∃ k n, Reaches protoParser window blocks.flatten k p ∧ verdictAt blocks.flatten p = .frame n m := by
    intro p m
    rw [← mem_handleBlocks_zero, h.mem_iff .start rfl]
    simp only [Nat.zero_le, true_and]
    rfl
  refine ⟨fun p m htakes => ?_, fun k p hdrops hr =>
    ⟨fun n m hverdict => ?_, fun hmore p' m htakes => ?_⟩⟩
  · obtain ⟨-, n', -, hverdict⟩ := (hmem p m).mp htakes
    obtain ⟨before, buf, after, offset, n, hsplit, ⟨⟨j, hclient⟩, hframe⟩, rfl⟩ := htakes
    have hbuf : buf.length ≤ recvMax := hfit buf (by rw [hsplit]; simp)
    rw [verdictAt, drop_flatten hsplit (hclient.append []).1] at hverdict
    rw [drop_flatten hsplit (hclient.append []).1]
    exact ((frame_iff_of_accepted hframe (by rw [List.length_drop]; omega)).mp hverdict).2
  · exact hdrops.not_takes m ((hmem p m).mpr ⟨k, n, hr, hverdict⟩)
  · obtain ⟨k', n, hr', hverdict⟩ := (hmem p' m).mp htakes
    by_contra hle
    rcases (not_lt.mp hle).lt_or_eq with hlt | rfl
    · exact (hr.next_le hr' hlt).1 hmore
    · rw [hmore] at hverdict
      cases hverdict

/-- The frames that the receive loop of the gateway takes from the stream have
    places in it. They are those of the client, at the same places, if and only
    if the two are in step. -/
theorem client_agrees_iff {blocks : List (List UInt8)} {recvBuf : Buffer UInt8 recvBufSize}
    {w : ClientWorker (List ProtoMessage)} (hfit : ∀ buf ∈ blocks, buf.length ≤ recvMax)
    (h : Delivers record (.start recvBuf []) blocks.flatten w) :
    ∃ fs, Locates protoParser window 0 blocks.flatten fs ∧ w.state = fs.map Prod.snd ∧
      (fs = handleBlocks 0 blocks ↔ InStep blocks) ∧
      (InStep blocks → w.state = (handleBlocks 0 blocks).map Prod.snd) := by
  obtain ⟨ms, r, hs, hstate, -, -⟩ := h.scans
  obtain ⟨fs, hfs, hms⟩ := Locates.of_scans hs 0
  rw [foldl_record, List.nil_append, ← hms] at hstate
  have hiff : fs = handleBlocks 0 blocks ↔ InStep blocks :=
    ⟨fun heq => inStep_of_locates hfit (heq ▸ hfs),
      fun hin => hfs.unique (hin.locates hfit (List.nil_append blocks).symm .start)⟩
  exact ⟨fs, hfs, hstate, hiff, fun hin => by rw [hstate, hiff.mpr hin]⟩

/-- A PING of the gateway. -/
def ping : ProtoMessage := ⟨cmdPing, flagHeartbeat, 1, [], 0⟩

/-- Of one PING in each of two blocks, both are taken by both. -/
theorem client_agrees_iff_pings :
    ∃ w, Delivers record (.start (.filled _ 0) []) [frameImage ping, frameImage ping].flatten w ∧
      w.state = (handleBlocks 0 [frameImage ping, frameImage ping]).map Prod.snd ∧
      InStep [frameImage ping, frameImage ping] := by
  obtain ⟨w, hw⟩ :=
    Delivers.total record (.start (.filled _ 0) []) [frameImage ping, frameImage ping].flatten
  obtain ⟨fs, hfs, -, hiff, hsame⟩ := client_agrees_iff (by decide) hw
  have hpings : fs = handleBlocks 0 [frameImage ping, frameImage ping] :=
    hfs.unique (.frame (n := 9) (m := ping) rfl (.frame (n := 9) (m := ping) rfl (.more rfl)))
  exact ⟨w, hw, hsame (hiff.mp hpings), hiff.mp hpings⟩

/-- Of a PING in two blocks, the client drops both parts. -/
theorem splitPing_lost :
    ∃ w, frameImage ping = [[0xAA, 0x55, 0x01, 0x02], [0x01, 0x00, 0x00, 0x00, 0xFD]].flatten ∧
      Delivers record (.start (.filled _ 0) []) (frameImage ping) w ∧ w.state = [ping] ∧
      handleBlocks 0 [[0xAA, 0x55, 0x01, 0x02], [0x01, 0x00, 0x00, 0x00, 0xFD]] = [] := by
  obtain ⟨w, hw⟩ := Delivers.total record (.start (.filled _ 0) []) (frameImage ping)
  obtain ⟨ms, r, hs, hstate, -, -⟩ := hw.scans
  obtain ⟨rfl, -⟩ := hs.unique (.frame (n := 9) (m := ping) rfl (.more rfl))
  exact ⟨w, by decide, hw, hstate, by decide⟩

end LinuxFileManager.Client
