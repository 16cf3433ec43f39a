import LinuxFileManager.Gateway.Framing
import LinuxFileManager.Gateway.Handlers

/-!
# Dispatching parsed messages

Model of what `client_worker` does with a message that the parser has accepted
(`src/gateway.c` lines 510–537): nothing when the device record is gone, a PONG
for a heartbeat, otherwise a call of the handler registered for the command, or
a `CMD_ERROR` frame.

The copy of the payload into `payload_copy[PROTO_MAX_PAYLOAD]` is a
`Buffer.tryWrite`: the code makes no check, so `none` stands for a `memcpy`
past the end of the object. The device table belongs to other threads as well,
so whether the record of the connection is found for the `k`-th message is a
parameter `found : ℕ → Bool`.

Result:

* `handled_payload_le_iff`: the payload of every message handed to a handler
  fits `payload_copy`, if and only if the scan of the stream reaches no frame
  with a longer payload that goes to a handler (`OversizedAt`). The decoder
  accepts such frames up to 2074 bytes, although the encoder refuses to build
  them.
-/

namespace LinuxFileManager.Gateway

open Lib Protocol

/-! ## Model -/

/-- `msg.cmd == CMD_PING && (msg.flags & FLAG_HEARTBEAT)` (line 516). -/
def isHeartbeat (msg : ProtoMessage) : Bool :=
  msg.cmd == cmdPing && msg.flags &&& flagHeartbeat != 0

/-- What `client_worker` does with a parsed message. -/
inductive Outcome (η : Type) where
  /-- `find_device_by_fd` returned `NULL`. -/
  | noDevice
  /-- A PONG with the sequence number of the message is sent. -/
  | pong (seq : UInt16)
  /-- The handler of `node` is called on `msg`; `payloadCopy` is `none` when the
      copy of the payload leaves `payload_copy`. -/
  | handled (node : HandlerNode η) (msg : ProtoMessage)
      (payloadCopy : Option (Buffer UInt8 protoMaxPayload))
  /-- No handler: `CMD_ERROR` is sent. -/
  | noHandler (seq : UInt16)

variable {η : Type}

/-- Lines 510–537; `payloadCopy` is the uninitialised array. -/
def dispatchMessage (handlers : List (HandlerNode η)) (payloadCopy : Buffer UInt8 protoMaxPayload)
    (found : Bool) (msg : ProtoMessage) : Outcome η :=
  if found then
    if isHeartbeat msg then .pong msg.seq
    else
      match findHandler handlers msg.cmd with
      | some node =>
        .handled node msg
          (if 0 < msg.payloadLen.toNat then payloadCopy.tryWrite 0 msg.payload else some payloadCopy)
      | none => .noHandler msg.seq
  else .noDevice

/-- The frame that `client_worker` or the handler it calls sends back. -/
def Outcome.reply : Outcome MenuHandler → Option ProtoMessage
  | .noDevice => none
  | .pong seq => some ⟨cmdPong, flagHeartbeat, seq, [], 0⟩
  | .handled node msg _ => some (node.handler.response msg.seq)
  | .noHandler seq => some ⟨cmdError, flagResponse, seq, [], 0⟩

/-- The dispatcher that records what it did. -/
def dispatchAll (handlers : List (HandlerNode η)) (payloadCopy : Buffer UInt8 protoMaxPayload)
    (found : ℕ → Bool) (outcomes : List (Outcome η)) (msg : ProtoMessage) : List (Outcome η) :=
  outcomes ++ [dispatchMessage handlers payloadCopy (found outcomes.length) msg]

/-- If a handler is called, its payload has at most `PROTO_MAX_PAYLOAD` bytes
    and the copy stays inside `payload_copy`. -/
def PayloadFits (o : Outcome η) : Prop :=
  ∀ node msg copy, o = .handled node msg copy →
    msg.payloadLen.toNat ≤ protoMaxPayload ∧ copy.isSome = true

/-- The scan of `xs`, standing at byte `p` after `k` frames, finds a frame with
    a right checksum and a payload of more than `PROTO_MAX_PAYLOAD` bytes, which
    is not a heartbeat, has a handler, and finds its device record. -/
def OversizedAt (handlers : List (HandlerNode η)) (found : ℕ → Bool) (xs : List UInt8) (k p : ℕ) :
    Prop :=
  ∃ n m, protoParseFrame ((xs.drop p).take window) = .frame n m ∧
    protoMaxPayload < m.payloadLen.toNat ∧ found k = true ∧ isHeartbeat m = false ∧
    (findHandler handlers m.cmd).isSome = true

/-! ## Which messages fit -/

section

variable (handlers : List (HandlerNode η)) (payloadCopy : Buffer UInt8 protoMaxPayload)

theorem foldl_dispatchAll (found : ℕ → Bool) (ms : List ProtoMessage) (os : List (Outcome η)) :
    ms.foldl (dispatchAll handlers payloadCopy found) os =
      os ++ ms.mapIdx fun k m => dispatchMessage handlers payloadCopy (found (os.length + k)) m := by
  induction ms generalizing os with
  | nil => simp
  | cons m ms ih =>
    rw [List.foldl_cons, ih, dispatchAll, List.mapIdx_cons]
    simp [Nat.add_assoc, Nat.add_comm 1]

/-- The outcome of one message fits unless the message is oversized and
    reaches a handler. -/
theorem payloadFits_dispatchMessage (found : Bool) {m : ProtoMessage} (hsized : m.Sized) :
    PayloadFits (dispatchMessage handlers payloadCopy found m) ↔
      ¬ (protoMaxPayload < m.payloadLen.toNat ∧ found = true ∧ isHeartbeat m = false ∧
        (findHandler handlers m.cmd).isSome = true) := by
  cases found with
  | false => simp [dispatchMessage, PayloadFits]
  | true =>
    cases hbeat : isHeartbeat m with
    | true => simp [dispatchMessage, PayloadFits, hbeat]
    | false =>
      cases hnode : findHandler handlers m.cmd with
      | none => simp [dispatchMessage, PayloadFits, hbeat, hnode]
      | some node =>
        have hlen : m.payload.length = m.payloadLen.toNat := hsized
        simp only [dispatchMessage, hbeat, hnode, PayloadFits, if_true, Bool.false_eq_true, if_false,
          Outcome.handled.injEq, Option.isSome_some, and_true, not_lt]
        constructor
        · exact fun h => (h node m _ ⟨rfl, rfl, rfl⟩).1
        · rintro hle _ _ _ ⟨rfl, rfl, rfl⟩
          refine ⟨hle, ?_⟩
          split_ifs with hpos
          · rw [Buffer.tryWrite_isSome]
            omega
          · rfl

end

/-- However the stream is cut into blocks, every message handed to a handler
    fits `payload_copy` if and only if the scan of the stream reaches no
    oversized frame that goes to a handler. -/
theorem handled_payload_le_iff {handlers : List (HandlerNode η)}
    {payloadCopy : Buffer UInt8 protoMaxPayload} {found : ℕ → Bool}
    {recvBuf : Buffer UInt8 recvBufSize} {xs : List UInt8} {w : ClientWorker (List (Outcome η))}
    (h : Delivers (dispatchAll handlers payloadCopy found) (.start recvBuf []) xs w) :
    (∀ o ∈ w.state, PayloadFits o) ↔
      ∀ k p, Reaches protoParser window xs k p → ¬ OversizedAt handlers found xs k p := by
  obtain ⟨ms, r, hs, hst, -, -⟩ := h.scans
  rw [foldl_dispatchAll, List.nil_append] at hst
  have hget : ∀ k, w.state[k]? = ms[k]?.map fun m =>
      dispatchMessage handlers payloadCopy (found k) m := by
    intro k
    rw [hst, List.getElem?_mapIdx]
    simp
  constructor
  · rintro hall k p hr ⟨n, m, hp, hover⟩
    have hk := (Reaches.frame_iff hs k m).mp ⟨p, n, hr, hp⟩
    have hmem : dispatchMessage handlers payloadCopy (found k) m ∈ w.state :=
      List.mem_of_getElem? (i := k) (by rw [hget, hk]; rfl)
    have hsized := (protoParseFrame_eq_frame_iff.mp hp).1
    exact (payloadFits_dispatchMessage handlers payloadCopy _ hsized).mp (hall _ hmem) hover
  · intro hno o ho
    obtain ⟨k, hk⟩ := List.mem_iff_getElem?.mp ho
    rw [hget, Option.map_eq_some_iff] at hk
    obtain ⟨m, hm, rfl⟩ := hk
    obtain ⟨p, n, hr, hp⟩ := (Reaches.frame_iff hs k m).mpr hm
    have hsized := (protoParseFrame_eq_frame_iff.mp hp).1
    rw [payloadFits_dispatchMessage handlers payloadCopy _ hsized]
    exact fun hover => hno k p hr ⟨n, m, hp, hover⟩

/-- The equivalence for a stream of one sensor report. -/
theorem handled_payload_le_iff_sensorData :
    ∃ w, Delivers (dispatchAll menuHandlers (.filled _ 0) fun _ => true) (.start (.filled _ 0) [])
        (frameImage ⟨cmdSensorData, flagRequest, 7, [0x10, 0x20], 2⟩) w ∧
      ((∀ o ∈ w.state, PayloadFits o) ↔
        ∀ k p, Reaches protoParser window (frameImage ⟨cmdSensorData, flagRequest, 7, [0x10, 0x20], 2⟩) k p →
          ¬ OversizedAt menuHandlers (fun _ => true)
            (frameImage ⟨cmdSensorData, flagRequest, 7, [0x10, 0x20], 2⟩) k p) := by
  obtain ⟨w, h⟩ := Delivers.total (dispatchAll menuHandlers (.filled _ 0) fun _ => true)
    (.start (.filled _ 0) []) (frameImage ⟨cmdSensorData, flagRequest, 7, [0x10, 0x20], 2⟩)
  exact ⟨w, h, handled_payload_le_iff h⟩

/-- A sensor report of 513 zero bytes with the right checksum. -/
def oversizedSensorData : ProtoMessage :=
  ⟨cmdSensorData, flagRequest, 1, List.replicate 513 0, 513⟩

/-- The decoder accepts the oversized report and `client_worker` hands it to
    `handle_sensor_data`, with a `memcpy` past the end of `payload_copy`. -/
theorem oversizedSensorData_overflows :
    ∃ w, Delivers (dispatchAll menuHandlers (.filled _ 0) fun _ => true) (.start (.filled _ 0) [])
        (frameImage oversizedSensorData) w ∧
      w.state = [.handled ⟨cmdSensorData, .handleSensorData⟩ oversizedSensorData none] ∧
      ¬ ∀ o ∈ w.state, PayloadFits o := by
  obtain ⟨w, h⟩ := Delivers.total (dispatchAll menuHandlers (.filled _ 0) fun _ => true)
    (.start (.filled _ 0) [])
    (frameImage oversizedSensorData)
  obtain ⟨ms, r, hs, hst, -, -⟩ := h.scans
  have hsized : oversizedSensorData.Sized := by
    rw [ProtoMessage.Sized, oversizedSensorData, List.length_replicate]
    rfl
  have hfit : (frameImage oversizedSensorData).length ≤ window := by
    rw [length_frameImage, oversizedSensorData, List.length_replicate]
    decide
  have hframe := scans_frame hsized hfit .nil
  rw [List.append_nil] at hframe
  obtain ⟨rfl, rfl⟩ := hs.unique hframe
  have hstate : w.state = [.handled ⟨cmdSensorData, .handleSensorData⟩ oversizedSensorData none] := by
    rw [hst]
    have hover : ¬ 0 + oversizedSensorData.payload.length ≤ protoMaxPayload := by
      rw [oversizedSensorData, List.length_replicate]
      decide
    have hcopy : (Buffer.filled protoMaxPayload (0 : UInt8)).tryWrite 0 oversizedSensorData.payload =
        none := dif_neg hover
    simp only [List.foldl_cons, List.foldl_nil, dispatchAll, dispatchMessage, hcopy]
    rfl
  refine ⟨w, h, hstate, ?_⟩
  rw [hstate]
  intro hall
  exact absurd (hall _ (List.mem_singleton_self _) _ _ _ rfl).2 (by decide)

end LinuxFileManager.Gateway
