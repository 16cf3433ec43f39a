import LinuxFileManager.Client.MainLoop
import LinuxFileManager.Gateway.Replies

/-!
# The client and the gateway

The two programs put together: what the main loop of the client has put on the
wire in any run arrives, in blocks of any size, at the receive loop of the
gateway with the handlers of the menu. For each frame `find_device_by_fd` finds the
record of the client, and no other thread moves the record or writes to it: this is
what goes wrong in `Gateway.Descriptors` and `Gateway.Pointers`, and is assumed here.

Results:

* `client_conversation`: while `send` takes whole frames, the gateway dispatches
  every frame of the client, answers each with its sequence number and none
  with an error, has nothing left over, and knows the client under its name.
-/

namespace LinuxFileManager.Client

open Lib Protocol Gateway

/-- `send` has taken the whole frame. -/
def Sent.Whole (s : Sent) : Prop := ∀ bytes ∈ s.bytes, s.result = bytes.length

/-- What the handlers write into the record of the client, when it stays where it is. -/
def writeRecord (dev : GatewayDevice) : Outcome MenuHandler → GatewayDevice
  | .handled ⟨_, .handleRegister⟩ msg _ => writeDevType msg (writeDevId msg dev)
  | _ => dev

/-- `dev_id` is the string with which the client with the number `id` registers. -/
def Knows (id : ℤ) (dev : GatewayDevice) : Prop :=
  dev.devId.read 0 ((registerId id).toUTF8.toList.length + 1) = (registerId id).toUTF8.toList ++ [0]

/-! ## The frames on the wire -/

theorem Sent.taken_eq {s : Sent} (hbuilt : s.bytes = some (frameImage s.msg)) (hwhole : s.Whole) :
    s.taken = frameImage s.msg := by
  have hresult : s.result = (frameImage s.msg).length := hwhole _ hbuilt
  rw [Sent.taken, hbuilt, hresult, Option.getD_some, Int.toNat_natCast, List.take_length]

theorem wire_eq {c : ClientMain} (hbuilt : ∀ s ∈ c.calls, s.bytes = some (frameImage s.msg))
    (hwhole : ∀ s ∈ c.calls, s.Whole) : c.wire = (c.calls.map Sent.msg).flatMap frameImage := by
  rw [ClientMain.wire, List.flatMap_map]
  exact List.flatMap_congr fun s hs => Sent.taken_eq (hbuilt s hs) (hwhole s hs)

/-- A frame of the client: a request with some number, or a heartbeat. -/
theorem ClientMain.NumberingInv.msg_cases {id : ℤ} {c : ClientMain} (h : c.NumberingInv id) :
    ∀ m ∈ c.calls.map Sent.msg, (∃ n cmd, m = requestMessage id n cmd) ∨ isHeartbeat m = true := by
  rw [List.forall_mem_map]
  intro s hs
  cases hrequest : s.request with
  | none => exact Or.inr (h.heartbeat s hs hrequest)
  | some cmd =>
    have hmem : (cmd, s.msg) ∈ c.requests :=
      List.mem_filterMap.mpr ⟨s, hs, by rw [hrequest]; rfl⟩
    obtain ⟨i, hi⟩ := List.mem_iff_getElem?.mp hmem
    exact Or.inl ⟨i + 1, cmd, h.requests i cmd s.msg hi⟩

/-- A stream of whole frames is dispatched frame by frame, and nothing is left of it. -/
theorem dispatched_of_frames {η : Type} {handlers : List (HandlerNode η)}
    {payloadCopy : Buffer UInt8 protoMaxPayload} {recvBuf : Buffer UInt8 recvBufSize}
    {msgs : List ProtoMessage} (hmsgs : ∀ m ∈ msgs, Encodable m) {w : ClientWorker (List (Outcome η))}
    (h : Delivers (dispatchAll handlers payloadCopy fun _ => true) (.start recvBuf [])
      (msgs.flatMap frameImage) w) :
    w.data = [] ∧ w.closed = false ∧ w.state = msgs.map (dispatchMessage handlers payloadCopy true) := by
  obtain ⟨ms, r, hs, hstate, hdata, hclosed⟩ := h.scans
  obtain ⟨rfl, rfl⟩ := hs.unique (scans_frames hmsgs)
  refine ⟨hdata, ?_, ?_⟩
  · rw [Bool.eq_false_iff, Ne, hclosed]
    exact Nat.not_lt_zero _
  · rw [hstate, foldl_dispatchAll, List.nil_append]
    exact List.ext_getElem? fun i => by simp only [List.getElem?_mapIdx, List.getElem?_map]

/-! ## The answers -/

theorem isHeartbeat_ping (id : ℤ) (n : ℕ) : isHeartbeat (requestMessage id n .ping) = true := by
  show (cmdPing == cmdPing && flagHeartbeat &&& flagHeartbeat != 0) = true
  decide

theorem replyTo_heartbeat {msg : ProtoMessage} (h : isHeartbeat msg = true) :
    (replyTo msg).cmd ≠ cmdError := by
  rw [replyTo, h]
  exact (by decide : cmdPong ≠ cmdError)

/-- The gateway has a handler for each request. -/
theorem replyTo_requestMessage (id : ℤ) (n : ℕ) (cmd : Command) :
    (replyTo (requestMessage id n cmd)).cmd ≠ cmdError := by
  have hother : ∀ msg : ProtoMessage, msg.cmd = cmdStm32Register ∨ msg.cmd = cmdSensorData ∨
      msg.cmd = cmdGpioControl → (replyTo msg).cmd ≠ cmdError := by
    intro msg hcmd
    have hbeat : isHeartbeat msg = false := by
      rcases hcmd with h | h | h <;> rw [isHeartbeat, h] <;> rfl
    rw [replyTo, hbeat]
    rcases hcmd with h | h | h <;> rw [h]
    · exact (by decide : cmdStm32Register ≠ cmdError)
    · exact (by decide : cmdSensorData ≠ cmdError)
    · exact (by decide : cmdGpioControl ≠ cmdError)
  cases cmd with
  | ping => exact replyTo_heartbeat (isHeartbeat_ping id n)
  | register => exact hother _ (Or.inl rfl)
  | sensor => exact hother _ (Or.inr (Or.inl rfl))
  | gpio => exact hother _ (Or.inr (Or.inr rfl))

/-! ## The record -/

/-- A registration with this name writes it into the record. -/
theorem knows_writeDevId {id : ℤ} (hid : IsInt id) (n : ℕ) (dev : GatewayDevice) :
    Knows id (writeDevId (requestMessage id n .register) dev) := by
  have hsized : (requestMessage id n .register).Sized := (encodable_run hid .register).1
  have hpayload : (requestMessage id n .register).payload = (registerId id).toUTF8.toList := rfl
  have hsize : (registerId id).toUTF8.toList.length = (registerId id).utf8ByteSize := length_toList _
  have hbounds := size_registerId hid
  rw [ProtoMessage.Sized, hpayload] at hsized
  unfold writeDevId Knows
  rw [dif_pos (by unfold devIdSize; omega)]
  simp only [Buffer.read, List.drop_zero]
  rw [Buffer.take_elems_write_zero _ _ (by
    rw [List.length_append, List.length_take, hpayload, List.length_singleton]; omega), hpayload,
    ← hsized, List.take_length]

theorem devId_writeDevType (msg : ProtoMessage) (dev : GatewayDevice) :
    (writeDevType msg dev).devId = dev.devId := by
  unfold writeDevType
  split_ifs <;> rfl

theorem writeRecord_heartbeat (payloadCopy : Buffer UInt8 protoMaxPayload) {msg : ProtoMessage}
    (h : isHeartbeat msg = true) (dev : GatewayDevice) :
    writeRecord dev (dispatchMessage menuHandlers payloadCopy true msg) = dev := by
  rw [dispatchMessage, h]
  rfl

/-- What a frame of the client does to the record: a registration writes the name, any
    other frame writes nothing. -/
theorem writeRecord_request (payloadCopy : Buffer UInt8 protoMaxPayload) {id : ℤ} (hid : IsInt id) (n : ℕ)
    (cmd : Command) (dev : GatewayDevice) :
    let dev' := writeRecord dev (dispatchMessage menuHandlers payloadCopy true (requestMessage id n cmd))
    (cmd = .register → Knows id dev') ∧ (cmd ≠ .register → dev' = dev) := by
  cases cmd with
  | register =>
    refine ⟨fun _ => ?_, fun h => absurd rfl h⟩
    show Knows id (writeDevType _ (writeDevId (requestMessage id n .register) dev))
    rw [Knows, devId_writeDevType]
    exact knows_writeDevId hid n dev
  | sensor => exact ⟨nofun, fun _ => rfl⟩
  | gpio => exact ⟨nofun, fun _ => rfl⟩
  | ping => exact ⟨nofun, fun _ => writeRecord_heartbeat payloadCopy (isHeartbeat_ping id n) dev⟩

/-- The record of the client behind its frames, the first of which is a registration. -/
theorem knows_foldl (payloadCopy : Buffer UInt8 protoMaxPayload) {id : ℤ} (hid : IsInt id)
    {msgs : List ProtoMessage}
    (hmsgs : ∀ msg ∈ msgs, (∃ n cmd, msg = requestMessage id n cmd) ∨ isHeartbeat msg = true)
    {dev : GatewayDevice} (h : Knows id dev) :
    Knows id ((msgs.map (dispatchMessage menuHandlers payloadCopy true)).foldl writeRecord dev) := by
  induction msgs generalizing dev with
  | nil => exact h
  | cons msg msgs ih =>
    obtain ⟨hmsg, hmsgs⟩ := List.forall_mem_cons.mp hmsgs
    refine ih hmsgs ?_
    rcases hmsg with ⟨n, cmd, rfl⟩ | hbeat
    · obtain ⟨hregister, hother⟩ := writeRecord_request payloadCopy hid n cmd dev
      by_cases hcmd : cmd = .register
      · exact hregister hcmd
      · rw [hother hcmd]
        exact h
    · rw [writeRecord_heartbeat payloadCopy hbeat]
      exact h

/-! ## The conversation -/

variable {env : SendCalls} {args : List Bytes} {connectTime autoTime : ℤ} {stdin : Bytes}
  {ts : List ClientMain.Turn} {c : ClientMain}

/-- The client has sent `first` before all others. -/
def FirstSent (first : Sent) (c : ClientMain) : Prop := ∃ calls, c.calls = first :: calls

theorem FirstSent.append {first : Sent} (h : FirstSent first c) {c' : ClientMain} {more : List Sent}
    (hcalls : c'.calls = c.calls ++ more) : FirstSent first c' := by
  obtain ⟨calls, heq⟩ := h
  exact ⟨calls ++ more, by rw [hcalls, heq, List.cons_append]⟩

theorem FirstSent.request {first : Sent} (h : FirstSent first c) (cmd : Command) :
    FirstSent first (c.request env cmd) := by
  rw [ClientMain.request_eq]
  exact h.append rfl

theorem FirstSent.receive {first : Sent} (h : FirstSent first c) (buf : List UInt8) (now : ℤ) :
    FirstSent first (c.receive env buf now) := by
  obtain ⟨calls, n, heq, -⟩ := ClientMain.receive_eq env c buf now
  rw [heq]
  exact h.append rfl

/-- The first frame is the registration. -/
theorem exists_calls
    (hrun : exec (ClientMain.step env) (.start env args connectTime autoTime stdin) ts = some c) :
    ∃ calls s, c.calls = s :: calls ∧
      s.msg = requestMessage (parseArgs args ⟨false, 0, []⟩).clientId 1 .register := by
  obtain ⟨first, hfirst, hmsg⟩ : ∃ s, FirstSent s (.start env args connectTime autoTime stdin) ∧
      s.msg = requestMessage (parseArgs args ⟨false, 0, []⟩).clientId 1 .register :=
    ⟨_, ⟨[], rfl⟩, rfl⟩
  obtain ⟨calls, hcalls⟩ := ClientMain.exec_traffic_inv (J := FirstSent first)
    (fun c c' hsame h => h.imp fun _ heq => hsame.calls.trans heq) (fun c cmd h => h.request cmd)
    (fun c buf now h => h.receive buf now) hfirst hrun
  exact ⟨calls, first, hcalls, hmsg⟩

/-- What the client sends in any run, in whatever blocks it arrives: while `send` takes
    whole frames, the gateway dispatches each frame, keeps nothing back and does not close;
    each frame is answered with its sequence number and none with an error, every payload
    fits, and the record of the client holds the name it has registered with. -/
theorem client_conversation
    (hrun : exec (ClientMain.step env) (.start env args connectTime autoTime stdin) ts = some c)
    (hwhole : ∀ s ∈ c.calls, s.Whole) {payloadCopy : Buffer UInt8 protoMaxPayload}
    {recvBuf : Buffer UInt8 recvBufSize} {w : ClientWorker (List (Outcome MenuHandler))}
    (h : Delivers (dispatchAll menuHandlers payloadCopy fun _ => true) (.start recvBuf []) c.wire w)
    (dev : GatewayDevice) :
    w.data = [] ∧ w.closed = false ∧
      List.Forall₂ Answers (c.calls.map Sent.msg) (w.state.filterMap Outcome.reply) ∧
      (∀ reply ∈ w.state.filterMap Outcome.reply, reply.cmd ≠ cmdError) ∧
      (∀ o ∈ w.state, PayloadFits o) ∧
      Knows (parseArgs args ⟨false, 0, []⟩).clientId (w.state.foldl writeRecord dev) := by
  have hid := ClientMain.isInt_parseArgs args ⟨false, 0, []⟩ ⟨by decide, by decide⟩
  have hinv := ClientMain.numberingInv_of_run hrun
  have hmsgs : ∀ m ∈ c.calls.map Sent.msg, Encodable m := by
    rw [List.forall_mem_map]
    exact fun s hs => (hinv.built s hs).1
  rw [wire_eq (fun s hs => (hinv.built s hs).2) hwhole] at h
  obtain ⟨hdata, hclosed, hstate⟩ := dispatched_of_frames hmsgs h
  have hreplies : w.state.filterMap Outcome.reply = (c.calls.map Sent.msg).map replyTo := by
    rw [hstate, List.filterMap_map]
    exact (List.filterMap_congr fun m _ => reply_dispatchMessage payloadCopy m).trans
      (congrFun List.filterMap_eq_map _)
  refine ⟨hdata, hclosed, ?_, ?_, ?_, ?_⟩
  · rw [hreplies]
    exact List.forall₂_map_right_iff.mpr (List.forall₂_same.mpr fun m _ => answers_replyTo m)
  · rw [hreplies, List.forall_mem_map]
    intro m hm
    rcases hinv.msg_cases m hm with ⟨n, cmd, rfl⟩ | hbeat
    · exact replyTo_requestMessage _ n cmd
    · exact replyTo_heartbeat hbeat
  · rw [hstate, List.forall_mem_map]
    intro m hm
    rw [payloadFits_dispatchMessage menuHandlers payloadCopy true (hmsgs m hm).1]
    have hle := (hmsgs m hm).2
    rw [(hmsgs m hm).1] at hle
    exact fun hover => absurd hover.1 (Nat.not_lt.mpr hle)
  · obtain ⟨calls, s, hcalls, hfirst⟩ := exists_calls hrun
    have hcases := hinv.msg_cases
    rw [hcalls, List.map_cons, List.forall_mem_cons] at hcases
    rw [hstate, hcalls, List.map_cons, List.map_cons, List.foldl_cons]
    refine knows_foldl payloadCopy hid hcases.2 ?_
    rw [hfirst]
    exact (writeRecord_request payloadCopy hid 1 .register dev).1 rfl

/-- `send` takes the registration of a client without a number. -/
def registerSend : SendCalls := ⟨fun _ => .filled _ 0x5A, fun _ => 21⟩

theorem client_conversation_register :
    ∃ c w, exec (ClientMain.step registerSend) (.start registerSend [] 0 0 []) [⟨0, .timeout⟩] = some c ∧
      Delivers (dispatchAll menuHandlers (.filled _ 0) fun _ => true) (.start (.filled _ 0) []) c.wire w ∧
      w.closed = false ∧ List.Forall₂ Answers (c.calls.map Sent.msg) (w.state.filterMap Outcome.reply) ∧
      Knows 0 (w.state.foldl writeRecord .zero) := by
  have hrun : exec (ClientMain.step registerSend) (.start registerSend [] 0 0 []) [⟨0, .timeout⟩] =
      some (.start registerSend [] 0 0 []) := rfl
  have hwhole : ∀ s ∈ (ClientMain.start registerSend [] 0 0 []).calls, s.Whole := by
    intro s hs bytes hbytes
    rw [((ClientMain.numberingInv_of_run hrun).built s hs).2] at hbytes
    cases hbytes
    obtain rfl := List.mem_singleton.mp hs
    have hlen : (registerId 0).toUTF8.toList.length = 12 := length_toList _
    rw [length_frameImage]
    show (21 : ℤ) = ((protoHeaderSize + (registerId 0).toUTF8.toList.length + protoChecksumSize : ℕ) : ℤ)
    rw [hlen]
    rfl
  obtain ⟨w, hw⟩ := Delivers.total (dispatchAll menuHandlers (.filled _ 0) fun _ => true)
    (.start (.filled _ 0) []) (ClientMain.start registerSend [] 0 0 []).wire
  obtain ⟨-, hclosed, hanswers, -, -, hknows⟩ := client_conversation hrun hwhole hw .zero
  exact ⟨_, w, hrun, hw, hclosed, hanswers, hknows⟩

end LinuxFileManager.Client
