import LinuxFileManager.Gateway.Framing
import LinuxFileManager.Gateway.Replies

/-!
# Partial sends

`send_frame_raw` (`src/gateway.c` lines 645–664) makes one call of `send` and
tests its result for being negative only. The call may accept any part of the
frame. Here each step of the threads comes with what the kernel answers to its
calls of `send`, and `streamOf` is what the socket of a connection has accepted
since.

Results:

* `Threads.step_sends`: the steps send nothing but messages that
  `proto_build_frame` can encode.
* `wholeFrames_cancel`: what follows whole frames in a concatenation of whole
  frames is one itself.
* `wholeFrames_iff`: every connection has been sent whole frames after each call
  exactly when every call that reported no error accepted its whole frame.
-/

namespace LinuxFileManager.Gateway

open Lib Protocol

/-! ## Model -/

/-- A call of `send`: the connection that the descriptor stands for, the message
    that has been encoded, and the value returned, `none` for `-1`. -/
structure SendCall where
  conn : Option ℕ
  msg : ProtoMessage
  result : Option ℕ

namespace SendCall

/-- What `send` may return: only an open socket accepts bytes, and at least one
    byte and at most the whole frame. -/
def Possible (call : SendCall) : Prop :=
  ∀ n ∈ call.result, call.conn.isSome = true ∧ 0 < n ∧ n ≤ (frameImage call.msg).length

/-- The bytes that the socket has accepted. -/
def bytes (call : SendCall) : List UInt8 :=
  match call.result with
  | none => []
  | some n => (frameImage call.msg).take n

instance (call : SendCall) : Decidable call.Possible :=
  inferInstanceAs (Decidable (∀ n ∈ call.result, _ ∧ _ ∧ _))

end SendCall

/-- The threads, and the calls of `send` they have made. -/
structure Sends where
  threads : Threads
  calls : List SendCall

/-- Before the first step. -/
def Sends.start (time : ℤ) : Sends := ⟨.start time, []⟩

/-- The calls of `send` that put these messages on the wire. -/
def sendCalls (openFds : ℕ → Option ℕ) (sent : List (ℕ × ProtoMessage)) (results : List (Option ℕ)) :
    List SendCall :=
  (sent.zip results).map fun p => ⟨openFds p.1.1, p.1.2, p.2⟩

/-- A step of the threads, with one result for each call of `send` that it makes. -/
def Sends.step (s : Sends) (a : Action × List (Option ℕ)) : Option Sends :=
  match s.threads.step a.1 with
  | none => none
  | some threads =>
    let sent := threads.ctx.wire.drop s.threads.ctx.wire.length
    let calls := sendCalls s.threads.ctx.openFds sent a.2
    if a.2.length = sent.length ∧ ∀ call ∈ calls, call.Possible then some ⟨threads, s.calls ++ calls⟩
    else none

/-- What the socket of the connection has accepted. -/
def streamOf (conn : ℕ) (calls : List SendCall) : List UInt8 :=
  calls.flatMap fun call => if call.conn = some conn then call.bytes else []

/-- A concatenation of frames that `proto_build_frame` can have built. -/
def WholeFrames (bytes : List UInt8) : Prop :=
  ∃ ms : List ProtoMessage, (∀ m ∈ ms, Encodable m) ∧ bytes = ms.flatMap frameImage

/-! ## What the threads send -/

/-- The step has put messages on the wire that can be encoded. -/
def Appends (ctx ctx' : GatewayCtx) : Prop :=
  ∃ sent, ctx'.wire = ctx.wire ++ sent ∧ ∀ p ∈ sent, Encodable p.2

theorem Appends.of_wire_eq {ctx ctx' : GatewayCtx} (h : ctx'.wire = ctx.wire) : Appends ctx ctx' :=
  ⟨[], by rw [h, List.append_nil], by simp⟩

theorem Appends.refl (ctx : GatewayCtx) : Appends ctx ctx := .of_wire_eq rfl

theorem appends_send (ctx : GatewayCtx) (fd : ℕ) {msg : ProtoMessage} (h : Encodable msg) :
    Appends ctx (ctx.send fd msg) :=
  ⟨[(fd, msg)], rfl, by simpa using h⟩

/-- A frame without a payload. -/
theorem encodable_empty (cmd flags : UInt8) (seq : UInt16) : Encodable ⟨cmd, flags, seq, [], 0⟩ :=
  ⟨rfl, Nat.zero_le _⟩

theorem encodable_response (handler : MenuHandler) (seq : UInt16) :
    Encodable (handler.response seq) := by
  cases handler <;> exact ⟨rfl, by simp [MenuHandler.response, protoMaxPayload]⟩

theorem encodable_restartLedFrame (dev : GatewayDevice) : Encodable (restartLedFrame dev).2 :=
  ⟨rfl, by simp [restartLedFrame, protoMaxPayload]⟩

theorem acceptStep_appends {ctx ctx' : GatewayCtx} {locked : Bool} {pc pc' : AcceptPc}
    {a : AcceptAction} (h : acceptStep ctx locked pc a = some (ctx', pc')) : Appends ctx ctx' := by
  apply Appends.of_wire_eq
  unfold acceptStep at h
  split at h
  case h_4 =>
    split_ifs at h
    cases h
    rfl
  case h_5 =>
    split_ifs at h
    split at h <;> (cases h; rfl)
  all_goals
    cases h
    try rfl

theorem heartbeatMove_appends {ctx ctx' : GatewayCtx} {pc pc' : HeartbeatPc}
    (h : HeartbeatMove ctx pc ctx' pc') : Appends ctx ctx' := by
  cases h with
  | sends => exact appends_send ctx _ (encodable_empty _ _ _)
  | _ => exact .of_wire_eq rfl

theorem stopStep_appends {ctx ctx' : GatewayCtx} {accept : AcceptPc} {heartbeat : HeartbeatThread}
    {pc pc' : StopPc} (h : stopStep ctx accept heartbeat pc = some (ctx', pc')) :
    Appends ctx ctx' := by
  apply Appends.of_wire_eq
  unfold stopStep at h
  cases pc with
  | notCalled =>
    cases h
    rfl
  | joinAccept =>
    cases accept <;> cases h
    rfl
  | joinHeartbeat =>
    dsimp only at h
    split at h <;> cases h
    rfl
  | closing i =>
    dsimp only at h
    split_ifs at h <;> (cases h; rfl)
  | done => cases h

theorem access_appends (ctx : GatewayCtx) (j : ℕ) (handler : MenuHandler) (msg : ProtoMessage)
    (access : Access) : Appends ctx (ctx.access j handler msg access) := by
  cases access with
  | respond => exact appends_send ctx _ (encodable_response handler msg.seq)
  | _ => exact .of_wire_eq rfl

theorem workerStep_appends {ctx ctx' : GatewayCtx} {locked : Bool} {fd : ℕ} {pc pc' : WorkerPc}
    {a : WorkerAction} (h : workerStep ctx locked fd pc a = some (ctx', pc')) : Appends ctx ctx' := by
  unfold workerStep at h
  split at h
  case h_8 =>
    -- `find_device_by_fd`
    split_ifs at h
    split at h <;> (cases h; exact .refl ctx)
  case h_9 =>
    split_ifs at h
    cases h
    exact .of_wire_eq rfl
  case h_10 =>
    -- the reply, or the call of the handler
    split at h
    · cases h
      exact .refl ctx
    · cases h
      exact appends_send ctx fd (encodable_empty _ _ _)
    · cases h
      exact .refl ctx
    · cases h
      exact appends_send ctx fd (encodable_empty _ _ _)
  case h_11 =>
    cases h
    exact access_appends ctx _ _ _ _
  case h_13 =>
    split_ifs at h
    cases h
    exact .of_wire_eq rfl
  all_goals
    cases h
    try exact .of_wire_eq rfl

/-- The steps of the threads send nothing but messages that can be encoded. -/
theorem Threads.step_sends {s s' : Threads} {a : Action} (h : s.step a = some s') :
    Appends s.ctx s'.ctx := by
  cases a with
  | accept a =>
    cases a with
    | spawn =>
      simp only [Threads.step] at h
      split at h <;> cases h
      exact .refl s.ctx
    | _ =>
      obtain ⟨⟨ctx, pc⟩, hstep, rfl⟩ := Option.map_eq_some_iff.mp h
      exact acceptStep_appends hstep
  | heartbeat time =>
    obtain ⟨⟨ctx, thread⟩, hstep, rfl⟩ := Option.map_eq_some_iff.mp h
    exact heartbeatMove_appends (heartbeatStep_move hstep)
  | stop =>
    obtain ⟨⟨ctx, pc⟩, hstep, rfl⟩ := Option.map_eq_some_iff.mp h
    exact stopStep_appends hstep
  | quit =>
    cases h
    exact .of_wire_eq rfl
  | restartLed =>
    simp only [Threads.step] at h
    split_ifs at h
    cases h
    refine ⟨s.ctx.devices.live.map restartLedFrame, rfl, ?_⟩
    intro p hp
    obtain ⟨dev, -, rfl⟩ := List.mem_map.mp hp
    exact encodable_restartLedFrame dev
  | worker k a =>
    obtain ⟨w, ctx, pc, -, hstep, rfl⟩ := Threads.worker_step_iff.mp h
    exact workerStep_appends hstep

/-! ## Concatenations of frames -/

theorem WholeFrames.nil : WholeFrames [] := ⟨[], by simp, rfl⟩

theorem WholeFrames.append {xs ys : List UInt8} (h : WholeFrames xs) (h' : WholeFrames ys) :
    WholeFrames (xs ++ ys) := by
  obtain ⟨ms, hms, rfl⟩ := h
  obtain ⟨ms', hms', rfl⟩ := h'
  refine ⟨ms ++ ms', ?_, (List.flatMap_append ..).symm⟩
  intro m hm
  rcases List.mem_append.mp hm with hm | hm
  · exact hms m hm
  · exact hms' m hm

theorem wholeFrames_frameImage {m : ProtoMessage} (h : Encodable m) : WholeFrames (frameImage m) :=
  ⟨[m], by simpa using h, by simp⟩

theorem length_frameImage_pos (m : ProtoMessage) : 0 < (frameImage m).length := by
  rw [length_frameImage]
  unfold protoChecksumSize
  omega

/-- No frame is the beginning of another one. -/
theorem frameImage_append_inj {m m' : ProtoMessage} (hm : m.Sized) (hm' : m'.Sized)
    {xs ys : List UInt8} (h : frameImage m ++ xs = frameImage m' ++ ys) : m = m' ∧ xs = ys := by
  have hparse := protoParseFrame_eq_frame_iff.mpr ⟨hm, rfl, xs, rfl⟩
  have hparse' := protoParseFrame_eq_frame_iff.mpr ⟨hm', rfl, ys, rfl⟩
  rw [h, hparse'] at hparse
  obtain rfl := (Verdict.frame.inj hparse).2
  exact ⟨rfl, List.append_cancel_left h⟩

/-- What follows whole frames in a concatenation of whole frames is one itself. -/
theorem wholeFrames_cancel {xs ys : List UInt8} (h : WholeFrames xs) (h' : WholeFrames (xs ++ ys)) :
    WholeFrames ys := by
  obtain ⟨ms, hms, rfl⟩ := h
  induction ms with
  | nil => exact h'
  | cons m ms ih =>
    obtain ⟨hm, hrest⟩ := List.forall_mem_cons.mp hms
    apply ih hrest
    obtain ⟨ms', hms', heq⟩ := h'
    rw [List.flatMap_cons, List.append_assoc] at heq
    cases ms' with
    | nil =>
      have hlen := congrArg List.length heq
      have hpos := length_frameImage_pos m
      rw [List.length_append, List.flatMap_nil, List.length_nil] at hlen
      omega
    | cons m' ms' =>
      obtain ⟨hm', hrest'⟩ := List.forall_mem_cons.mp hms'
      exact ⟨ms', hrest', (frameImage_append_inj hm.1 hm'.1 heq).2⟩

/-- A non-empty beginning of a frame is whole only if it is the frame. -/
theorem wholeFrames_take_iff {m : ProtoMessage} (hm : Encodable m) {n : ℕ} (hpos : 0 < n)
    (hle : n ≤ (frameImage m).length) :
    WholeFrames ((frameImage m).take n) ↔ n = (frameImage m).length := by
  constructor
  · rintro ⟨ms, hms, heq⟩
    cases ms with
    | nil =>
      have hlen := congrArg List.length heq
      rw [List.length_take, List.flatMap_nil, List.length_nil] at hlen
      omega
    | cons m' ms =>
      rw [List.flatMap_cons] at heq
      have hframe : frameImage m ++ [] =
          frameImage m' ++ (ms.flatMap frameImage ++ (frameImage m).drop n) := by
        rw [← List.append_assoc, ← heq, List.take_append_drop, List.append_nil]
      have hm' := (List.forall_mem_cons.mp hms).1
      obtain ⟨-, hnil⟩ := frameImage_append_inj hm.1 hm'.1 hframe
      have hdrop := (List.append_eq_nil_iff.mp hnil.symm).2
      have hlen := congrArg List.length hdrop
      rw [List.length_drop, List.length_nil] at hlen
      omega
  · rintro rfl
    rw [List.take_length]
    exact wholeFrames_frameImage hm

/-! ## Logs of calls -/

/-- The call accepted its whole frame, or failed. -/
def SendCall.Whole (call : SendCall) : Prop := ∀ n ∈ call.result, n = (frameImage call.msg).length

instance (call : SendCall) : Decidable call.Whole :=
  inferInstanceAs (Decidable (∀ n ∈ call.result, _))

theorem SendCall.Whole.wholeFrames {call : SendCall} (h : call.Whole) (hmsg : Encodable call.msg) :
    WholeFrames call.bytes := by
  unfold SendCall.bytes
  cases hresult : call.result with
  | none => exact .nil
  | some n =>
    rw [h n hresult]
    show WholeFrames ((frameImage call.msg).take _)
    rw [List.take_length]
    exact wholeFrames_frameImage hmsg

theorem streamOf_append (conn : ℕ) (calls calls' : List SendCall) :
    streamOf conn (calls ++ calls') = streamOf conn calls ++ streamOf conn calls' :=
  List.flatMap_append ..

/-- After each call every connection has been sent whole frames, exactly when
    each call that reported no error accepted its whole frame. -/
theorem wholeFrames_iff {calls : List SendCall}
    (h : ∀ call ∈ calls, call.Possible ∧ Encodable call.msg) :
    (∀ k conn, WholeFrames (streamOf conn (calls.take k))) ↔ ∀ call ∈ calls, call.Whole := by
  constructor
  · intro hwhole call hmem n hn
    obtain ⟨k, hk, rfl⟩ := List.mem_iff_getElem.mp hmem
    obtain ⟨hpossible, hmsg⟩ := h _ hmem
    obtain ⟨hconn, hpos, hle⟩ := hpossible n hn
    obtain ⟨conn, hconn⟩ := Option.isSome_iff_exists.mp hconn
    -- the call is what the stream of its connection grows by
    have hgrows : streamOf conn (calls.take (k + 1)) =
        streamOf conn (calls.take k) ++ (frameImage calls[k].msg).take n := by
      rw [List.take_succ_eq_append_getElem hk, streamOf_append]
      have hbytes : calls[k].bytes = (frameImage calls[k].msg).take n := by
        rw [SendCall.bytes, hn]
      rw [streamOf, streamOf, List.flatMap_singleton, if_pos hconn, hbytes]
    have hcut := wholeFrames_cancel (hwhole k conn) (hgrows ▸ hwhole (k + 1) conn)
    exact (wholeFrames_take_iff hmsg hpos hle).mp hcut
  · intro hwhole k conn
    have hprefix : ∀ call ∈ calls.take k, WholeFrames call.bytes := by
      intro call hmem
      have hmem' := List.mem_of_mem_take hmem
      exact (hwhole call hmem').wholeFrames (h call hmem').2
    generalize calls.take k = sent at hprefix ⊢
    induction sent with
    | nil => exact .nil
    | cons call rest ih =>
      obtain ⟨hcall, hrest⟩ := List.forall_mem_cons.mp hprefix
      rw [streamOf, List.flatMap_cons]
      split_ifs
      · exact hcall.append (ih hrest)
      · exact ih hrest

/-! ## Runs -/

theorem Sends.step_calls {s s' : Sends} {a : Action × List (Option ℕ)} (h : s.step a = some s') :
    ∃ calls, s'.calls = s.calls ++ calls ∧ ∀ call ∈ calls, call.Possible ∧ Encodable call.msg := by
  unfold Sends.step at h
  split at h
  · cases h
  · rename_i threads hstep
    dsimp only at h
    split_ifs at h with hpossible
    cases h
    refine ⟨_, rfl, fun call hcall => ⟨hpossible.2 call hcall, ?_⟩⟩
    obtain ⟨sent, hwire, hsent⟩ := Threads.step_sends hstep
    rw [hwire, List.drop_left] at hcall
    obtain ⟨p, hp, rfl⟩ := List.mem_map.mp hcall
    exact hsent p.1 (List.of_mem_zip hp).1

/-- Every call that has been made is one that the kernel can answer so, with a
    message that `send_frame_raw` can encode. -/
def Sends.Sound (s : Sends) : Prop := ∀ call ∈ s.calls, call.Possible ∧ Encodable call.msg

theorem Sends.sound_of_exec {time : ℤ} {as : List (Action × List (Option ℕ))} {s : Sends}
    (h : exec Sends.step (.start time) as = some s) : s.Sound := by
  apply Reachable.inv (J := Sends.Sound) _ _ ⟨as, h⟩
  · intro s a s' hs hstep call hmem
    obtain ⟨calls, hcalls, hnew⟩ := Sends.step_calls hstep
    rw [hcalls] at hmem
    rcases List.mem_append.mp hmem with hmem | hmem
    · exact hs call hmem
    · exact hnew call hmem
  · intro call hcall
    cases hcall

/-- In every run, whatever the order of the senders and the results of their
    calls: each connection has been sent whole frames after each call, exactly
    when each call that reported no error accepted its whole frame. -/
theorem whole_frames_iff_no_partial_send {time : ℤ} {as : List (Action × List (Option ℕ))} {s : Sends}
    (h : exec Sends.step (.start time) as = some s) :
    (∀ k conn, WholeFrames (streamOf conn (s.calls.take k))) ↔ ∀ call ∈ s.calls, call.Whole :=
  wholeFrames_iff (Sends.sound_of_exec h)

/-- A client connects, and a check sends it a PING, of which the call of `send`
    accepts `n` bytes. -/
def pingRun (n : ℕ) : List (Action × List (Option ℕ)) :=
  (connect 0 5 ++ checkAt 11 3).map (fun a => (a, [])) ++ [(.heartbeat 11, [some n])]

theorem whole_frames_iff_no_partial_send_ping :
    ∃ s, exec Sends.step (.start 0) (pingRun 9) = some s ∧ s.calls.length = 1 ∧
      ∀ k conn, WholeFrames (streamOf conn (s.calls.take k)) := by
  obtain ⟨s, hs, hlen, hwhole⟩ : ∃ s, exec Sends.step (.start 0) (pingRun 9) = some s ∧
      s.calls.length = 1 ∧ ∀ call ∈ s.calls, call.Whole := ⟨_, rfl, by decide, by decide⟩
  exact ⟨s, hs, hlen, (whole_frames_iff_no_partial_send hs).mpr hwhole⟩

/-- The call accepts four bytes of the PING; then the command `r` sends a request
    on the same socket. The client has received the head of a frame, and the next
    frame behind it. -/
theorem truncated_frame_on_wire :
    ∃ s, exec Sends.step (.start 0) (pingRun 4 ++ [(.restartLed, [some 11])]) = some s ∧
      streamOf 0 s.calls =
        [0xAA, 0x55, 0x01, 0x02] ++ frameImage ⟨cmdGpioControl, flagRequest, 2, [7, 1], 2⟩ ∧
      ¬ ∀ k conn, WholeFrames (streamOf conn (s.calls.take k)) := by
  obtain ⟨s, hs, hstream, hfirst⟩ : ∃ s,
      exec Sends.step (.start 0) (pingRun 4 ++ [(.restartLed, [some 11])]) = some s ∧
      streamOf 0 s.calls =
        [0xAA, 0x55, 0x01, 0x02] ++ frameImage ⟨cmdGpioControl, flagRequest, 2, [7, 1], 2⟩ ∧
      streamOf 0 (s.calls.take 1) =
        (frameImage ⟨cmdPing, flagHeartbeat, 1, [], 0⟩).take 4 := ⟨_, rfl, by decide, by decide⟩
  refine ⟨s, hs, hstream, fun hwhole => ?_⟩
  have hcut := hwhole 1 0
  rw [hfirst, wholeFrames_take_iff (encodable_empty _ _ _) (by decide) (by decide)] at hcut
  exact absurd hcut (by decide)

end LinuxFileManager.Gateway
