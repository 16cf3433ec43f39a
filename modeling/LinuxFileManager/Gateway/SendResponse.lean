import LinuxFileManager.Protocol.Codec

/-!
# What `gateway_send_response` discloses of the stack

`gateway_send_response` (`src/gateway.c` lines 304–308) passes a payload pointer
and a length to `send_frame_raw`. `proto_build_frame` copies the payload only
when the pointer is not `NULL`, but writes the length into the header in any
case, and `send_frame_raw` copies as many bytes as the header says.

Results:

* `sendFrameRaw_null`: with a `NULL` payload the frame carries the bytes that
  the stack held at the place of the payload.
* `gatewaySendResponse_noninterference_iff`: what is sent is independent of the
  stack exactly when the payload is not `NULL` or has length `0`.
-/

namespace LinuxFileManager.Gateway

open Lib Protocol

/-- The bytes that `gateway_send_response` hands to `send`; `none` is a return
    value `-1` with nothing sent. Of `ctx` only whether it is `NULL` matters. -/
def gatewaySendResponse {Ctx : Type} (stack : SendStack) (ctx : Option Ctx) (devFd : ℤ)
    (cmd flags : UInt8) (seq : UInt16) (payload : Option (List UInt8)) (payloadLen : UInt16) :
    Option (List UInt8) :=
  if ctx.isNone ∨ devFd < 0 then none
  else sendFrameRaw stack cmd flags seq payload payloadLen

/-- The frame for a `NULL` payload: its payload is what `frame` held before, and
    its checksum is taken over what `temp_buf` held. -/
theorem sendFrameRaw_null (stack : SendStack) (cmd flags : UInt8) (seq : UInt16)
    {payloadLen : UInt16} (hle : payloadLen.toNat ≤ protoMaxPayload) :
    let header : ProtoHeader := ⟨protoMagic1, protoMagic2, cmd, flags, seq, payloadLen⟩
    ∃ checksum, sendFrameRaw stack cmd flags seq none payloadLen = some
      (header.bytes ++ stack.frame.payload.elems.take payloadLen.toNat ++ [checksum]) := by
  intro header
  obtain ⟨f, hf, hheader, hpayload⟩ : ∃ f, protoBuildFrame stack.frame stack.tempBuf cmd flags seq
      none payloadLen = some f ∧ f.header = header ∧ f.payload = stack.frame.payload := by
    rw [protoBuildFrame, dif_neg (by omega)]
    exact ⟨_, rfl, rfl, rfl⟩
  exact ⟨f.checksum, by rw [sendFrameRaw_built hf, hheader, hpayload]⟩

/-- With a `NULL` payload of positive length, different stacks make different
    frames. -/
theorem sendFrameRaw_null_ne (cmd flags : UInt8) (seq : UInt16) {payloadLen : UInt16}
    (hpos : payloadLen ≠ 0) (hle : payloadLen.toNat ≤ protoMaxPayload) :
    sendFrameRaw (.filled 0) cmd flags seq none payloadLen ≠
      sendFrameRaw (.filled 1) cmd flags seq none payloadLen := by
  obtain ⟨c0, h0⟩ := sendFrameRaw_null (.filled 0) cmd flags seq hle
  obtain ⟨c1, h1⟩ := sendFrameRaw_null (.filled 1) cmd flags seq hle
  rw [h0, h1]
  intro h
  have hlen : 0 < payloadLen.toNat := by
    apply Nat.pos_of_ne_zero
    intro hzero
    exact hpos (UInt16.toNat.inj hzero)
  -- header and checksum aside, the payloads are zeros and ones
  have hcopy := List.append_cancel_left (List.append_inj_left' (Option.some.inj h) rfl)
  have helems (b : UInt8) : (SendStack.filled b).frame.payload.elems.take payloadLen.toNat =
      List.replicate payloadLen.toNat b := by
    show (List.replicate protoMaxPayload b).take payloadLen.toNat = _
    rw [List.take_replicate, Nat.min_eq_left hle]
  rw [helems, helems] at hcopy
  have hbyte := (List.replicate_inj.mp hcopy).2
  rcases hbyte with h0 | h01
  · omega
  · exact absurd h01 (by decide)

/-- The bytes sent do not depend on what the stack objects held before. -/
def StackIndependent {Ctx : Type} (ctx : Option Ctx) (devFd : ℤ) (cmd flags : UInt8) (seq : UInt16)
    (payload : Option (List UInt8)) (payloadLen : UInt16) : Prop :=
  ∀ stack stack' : SendStack,
    gatewaySendResponse stack ctx devFd cmd flags seq payload payloadLen =
      gatewaySendResponse stack' ctx devFd cmd flags seq payload payloadLen

/-- For a payload of at most 512 bytes, `gateway_send_response` sends the same
    bytes from every stack exactly when it sends nothing, the payload is not
    `NULL`, or its length is `0`. -/
theorem gatewaySendResponse_noninterference_iff {Ctx : Type} (ctx : Option Ctx) (devFd : ℤ)
    (cmd flags : UInt8) (seq : UInt16) {payload : Option (List UInt8)} {payloadLen : UInt16}
    (hobj : ∀ obj, payload = some obj → payloadLen.toNat ≤ obj.length)
    (hle : payloadLen.toNat ≤ protoMaxPayload) :
    StackIndependent ctx devFd cmd flags seq payload payloadLen ↔
      ctx = none ∨ devFd < 0 ∨ payload ≠ none ∨ payloadLen = 0 := by
  by_cases hguard : ctx.isNone ∨ devFd < 0
  · -- the call returns `-1` before it builds a frame
    have hindep : StackIndependent ctx devFd cmd flags seq payload payloadLen := by
      intro stack stack'
      unfold gatewaySendResponse
      rw [if_pos hguard, if_pos hguard]
    refine ⟨fun _ => ?_, fun _ => hindep⟩
    rcases hguard with hctx | hfd
    · exact Or.inl (Option.isNone_iff_eq_none.mp hctx)
    · exact Or.inr (Or.inl hfd)
  · have hsend (stack : SendStack) : gatewaySendResponse stack ctx devFd cmd flags seq payload
        payloadLen = sendFrameRaw stack cmd flags seq payload payloadLen := by
      rw [gatewaySendResponse, if_neg hguard]
    rw [not_or, Option.isNone_iff_eq_none] at hguard
    constructor
    · intro hindep
      by_contra hcond
      push Not at hcond
      obtain ⟨-, -, hnull, hpos⟩ := hcond
      have h := hindep (.filled 0) (.filled 1)
      rw [hsend, hsend, hnull] at h
      exact sendFrameRaw_null_ne cmd flags seq hpos hle h
    · rintro (hctx | hfd | hcond)
      · exact absurd hctx hguard.1
      · exact absurd hfd hguard.2
      · obtain ⟨bs, hp⟩ : ∃ bs, PayloadArg payload payloadLen bs := by
          rcases payload with _ | obj
          · exact ⟨[], Or.inr ⟨rfl, hcond.resolve_left (fun h => h rfl), rfl⟩⟩
          · exact ⟨_, Or.inl ⟨obj, rfl, hobj obj rfl, rfl⟩⟩
        intro stack stack'
        have himage (s : SendStack) :=
          sendFrameRaw_eq_frameImage s (m := ⟨cmd, flags, seq, bs, payloadLen⟩) hp hle
        rw [hsend, hsend]
        exact (himage stack).trans (himage stack').symm

/-- The reply of a handler, with its payload. -/
theorem gatewaySendResponse_noninterference_iff_reply :
    StackIndependent (some ()) 4 cmdStm32Register flagResponse 7 (some [0x00]) 1 ↔
      (some () = none ∨ (4 : ℤ) < 0 ∨ some [(0x00 : UInt8)] ≠ none ∨ (1 : UInt16) = 0) :=
  gatewaySendResponse_noninterference_iff (some ()) 4 cmdStm32Register flagResponse 7
    (by intro obj h; cases h; decide) (by decide)

/-- A reply with a `NULL` payload and length `1` sends one byte of the stack. -/
theorem gatewaySendResponse_discloses_stack :
    ¬ StackIndependent (some ()) 4 cmdStm32Register flagResponse 7 none 1 := by
  intro h
  have hne := sendFrameRaw_null_ne cmdStm32Register flagResponse 7 (by decide : (1 : UInt16) ≠ 0)
    (by decide)
  exact hne (h (.filled 0) (.filled 1))

end LinuxFileManager.Gateway
