import LinuxFileManager.Protocol.Codec

/-!
# Corrupted frames are rejected

The checksum of `proto_checksum` is the XOR of the bytes, so the XOR over a
whole frame, checksum byte included, is `0`. When a frame is changed outside
its length field, this sum changes by the XOR of the byte differences.

Results:

* `protoChecksum_append`, `protoChecksum_differences`: the algebra of the XOR
  fold.
* `protoParseFrame_bad`: data as long as its length field says, whose XOR is not
  `0`, is rejected whatever follows it.
* `protoParseFrame_corrupted`: corrupted frames are rejected.
-/

namespace LinuxFileManager.Protocol

/-! ## The XOR fold -/

theorem foldl_xor (cs : UInt8) (data : List UInt8) :
    data.foldl (fun cs b => cs ^^^ b) cs = cs ^^^ protoChecksum data := by
  unfold protoChecksum
  induction data generalizing cs with
  | nil => rw [List.foldl_nil, List.foldl_nil, UInt8.xor_zero]
  | cons b data ih =>
    rw [List.foldl_cons, List.foldl_cons, ih, ih (0 ^^^ b), UInt8.zero_xor, UInt8.xor_assoc]

theorem protoChecksum_cons (b : UInt8) (data : List UInt8) :
    protoChecksum (b :: data) = b ^^^ protoChecksum data := by
  rw [protoChecksum, List.foldl_cons, foldl_xor, UInt8.zero_xor]

theorem protoChecksum_append (xs ys : List UInt8) :
    protoChecksum (xs ++ ys) = protoChecksum xs ^^^ protoChecksum ys := by
  unfold protoChecksum
  rw [List.foldl_append, foldl_xor, protoChecksum]

theorem protoChecksum_singleton (b : UInt8) : protoChecksum [b] = b := by
  rw [protoChecksum_cons]
  exact UInt8.xor_zero

/-- The byte differences of two strings of one length. -/
def differences (xs ys : List UInt8) : List UInt8 := List.zipWith (fun x y => x ^^^ y) xs ys

/-- The checksum is linear: that of the differences is the difference of the
    checksums. -/
theorem protoChecksum_differences {xs ys : List UInt8} (h : ys.length = xs.length) :
    protoChecksum (differences xs ys) = protoChecksum xs ^^^ protoChecksum ys := by
  induction xs generalizing ys with
  | nil =>
    rw [List.length_eq_zero_iff.mp h]
    rfl
  | cons x xs ih =>
    obtain ⟨y, ys, rfl⟩ := List.exists_cons_of_length_eq_add_one h
    have hys : ys.length = xs.length := Nat.succ.inj h
    show protoChecksum ((x ^^^ y) :: differences xs ys) = _
    rw [protoChecksum_cons, protoChecksum_cons, protoChecksum_cons, ih hys]
    ac_rfl

/-- Two strings that differ in one byte. -/
theorem protoChecksum_differences_set {xs : List UInt8} {i : ℕ} (hi : i < xs.length) (b : UInt8) :
    protoChecksum (differences xs (xs.set i b)) = xs[i] ^^^ b := by
  have hxs : xs = xs.take i ++ xs[i] :: xs.drop (i + 1) := by
    rw [List.getElem_cons_drop, List.take_append_drop]
  have hset : xs.set i b = xs.take i ++ b :: xs.drop (i + 1) := List.set_eq_take_cons_drop _ hi
  rw [protoChecksum_differences (List.length_set ..), hset]
  nth_rewrite 1 [hxs]
  rw [protoChecksum_append, protoChecksum_append, protoChecksum_cons, protoChecksum_cons]
  -- the parts around position `i` cancel
  generalize protoChecksum (xs.take i) = p
  generalize protoChecksum (xs.drop (i + 1)) = q
  calc p ^^^ (xs[i] ^^^ q) ^^^ (p ^^^ (b ^^^ q))
      = (p ^^^ p) ^^^ (q ^^^ q) ^^^ (xs[i] ^^^ b) := by ac_rfl
    _ = xs[i] ^^^ b := by rw [UInt8.xor_self, UInt8.xor_self, UInt8.xor_self, UInt8.zero_xor]

/-! ## Frames -/

/-- The XOR over a whole frame. -/
theorem protoChecksum_frameImage (m : ProtoMessage) : protoChecksum (frameImage m) = 0 := by
  rw [frameImage, protoChecksum_append, protoChecksum_singleton, UInt8.xor_self]

/-- Data that is as long as its length field says and does not have XOR `0` is
    rejected: for its magic number, or else for its checksum. -/
theorem protoParseFrame_bad {b0 b1 b2 b3 b4 b5 b6 b7 : UInt8} {tail : List UInt8}
    (hlen : tail.length = (ofLe16 b6 b7).toNat + 1)
    (hsum : protoChecksum (b0 :: b1 :: b2 :: b3 :: b4 :: b5 :: b6 :: b7 :: tail) ≠ 0)
    (trailing : List UInt8) :
    protoParseFrame (b0 :: b1 :: b2 :: b3 :: b4 :: b5 :: b6 :: b7 :: tail ++ trailing) = .bad := by
  apply protoParseFrame_bad_append
  rw [protoParseFrame_cons]
  dsimp only
  by_cases hm : b0 = protoMagic1 ∧ b1 = protoMagic2
  · rw [if_pos hm, if_neg (by omega), if_pos]
    intro hcs
    apply hsum
    have htail : tail = tail.take (ofLe16 b6 b7).toNat ++ [tail.getD (ofLe16 b6 b7).toNat 0] := by
      have h := take_append_getD_drop (l := tail) (i := (ofLe16 b6 b7).toNat) (by omega)
      rw [List.drop_eq_nil_of_le (by omega), List.append_nil] at h
      exact h.symm
    show protoChecksum ([b0, b1, b2, b3, b4, b5, b6, b7] ++ tail) = 0
    rw [htail, ← List.append_assoc, protoChecksum_append, protoChecksum_singleton, hcs,
      UInt8.xor_self]
  · rw [if_neg hm]

/-- A string as long as the image of `m`, with the length field of `m`, whose
    differences from the image do not cancel out. -/
theorem protoParseFrame_frameImage_corrupted {m : ProtoMessage} (hm : m.Sized)
    {bytes : List UInt8} (hlen : bytes.length = (frameImage m).length)
    (h6 : bytes[6]? = (frameImage m)[6]?) (h7 : bytes[7]? = (frameImage m)[7]?)
    (hdiff : protoChecksum (differences (frameImage m) bytes) ≠ 0) (trailing : List UInt8) :
    protoParseFrame (bytes ++ trailing) = .bad := by
  have himage := length_frameImage m
  unfold protoHeaderSize protoChecksumSize at himage
  have hheader : protoHeaderSize ≤ bytes.length := by unfold protoHeaderSize; omega
  obtain ⟨b0, b1, b2, b3, b4, b5, b6, b7, tail, rfl⟩ := exists_header hheader
  have hb6 : b6 = UInt8.ofNat m.payloadLen.toNat := Option.some.inj h6
  have hb7 : b7 = UInt8.ofNat (m.payloadLen.toNat / 256) := Option.some.inj h7
  have hfield : ofLe16 b6 b7 = m.payloadLen := by rw [hb6, hb7, ofLe16_le16]
  apply protoParseFrame_bad
  · simp only [List.length_cons] at hlen
    rw [hfield, ← hm]
    omega
  · rw [protoChecksum_differences hlen, protoChecksum_frameImage, UInt8.zero_xor] at hdiff
    exact hdiff

/-- Every corruption of an emitted frame outside its length field whose byte
    differences do not cancel out is rejected whatever follows the frame, and so
    is every change of exactly one byte. -/
theorem protoParseFrame_corrupted (stack : SendStack) (cmd flags : UInt8) (seq : UInt16)
    {payload : Option (List UInt8)} {payloadLen : UInt16} {bs bytes : List UInt8}
    (hp : PayloadArg payload payloadLen bs) (hle : payloadLen.toNat ≤ protoMaxPayload)
    (hsend : sendFrameRaw stack cmd flags seq payload payloadLen = some bytes) :
    (∀ bytes' trailing : List UInt8, bytes'.length = bytes.length →
      bytes'[6]? = bytes[6]? → bytes'[7]? = bytes[7]? →
      protoChecksum (differences bytes bytes') ≠ 0 →
      protoParseFrame (bytes' ++ trailing) = .bad) ∧
    (∀ (i : ℕ) (hi : i < bytes.length) (b : UInt8) (trailing : List UInt8),
      i ≠ 6 → i ≠ 7 → b ≠ bytes[i] → protoParseFrame (bytes.set i b ++ trailing) = .bad) := by
  have himage := sendFrameRaw_eq_frameImage stack (m := ⟨cmd, flags, seq, bs, payloadLen⟩) hp hle
  obtain rfl : frameImage ⟨cmd, flags, seq, bs, payloadLen⟩ = bytes := by
    rw [hsend] at himage
    exact (Option.some.inj himage).symm
  have hsized : (ProtoMessage.mk cmd flags seq bs payloadLen).Sized := hp.length_eq
  constructor
  · intro bytes' trailing hlen h6 h7 hdiff
    exact protoParseFrame_frameImage_corrupted hsized hlen h6 h7 hdiff trailing
  · intro i hi b trailing hi6 hi7 hb
    refine protoParseFrame_frameImage_corrupted hsized (List.length_set ..)
      (List.getElem?_set_ne hi6) (List.getElem?_set_ne hi7) ?_ trailing
    rw [protoChecksum_differences_set hi]
    intro hxor
    exact hb (UInt8.xor_eq_zero_iff.mp hxor).symm

/-- A sensor report with one bit of its checksum flipped, and with another first byte. -/
theorem protoParseFrame_corrupted_sensorData :
    protoParseFrame ([0xAA, 0x55, 0x11, 0x00, 0x07, 0x00, 0x02, 0x00, 0x10, 0x20, 0xDA] ++ [0xAA]) = .bad ∧
    protoParseFrame ([0xAA, 0x55, 0x11, 0x00, 0x07, 0x00, 0x02, 0x00, 0x30, 0x20, 0xDB] ++ []) = .bad :=
  have h := protoParseFrame_corrupted (.filled 0x5A) cmdSensorData flagRequest 7
    (Or.inl ⟨_, rfl, by decide, rfl⟩ : PayloadArg (some [0x10, 0x20]) 2 [0x10, 0x20]) (by decide)
    (by decide : sendFrameRaw (.filled 0x5A) cmdSensorData flagRequest 7 (some [0x10, 0x20]) 2 =
      some [0xAA, 0x55, 0x11, 0x00, 0x07, 0x00, 0x02, 0x00, 0x10, 0x20, 0xDB])
  ⟨h.1 [0xAA, 0x55, 0x11, 0x00, 0x07, 0x00, 0x02, 0x00, 0x10, 0x20, 0xDA] [0xAA] rfl rfl rfl (by decide),
    h.2 8 (by decide) 0x30 [] (by decide) (by decide) (by decide)⟩

end LinuxFileManager.Protocol
