import LinuxFileManager.Gateway.Steps

/-!
# Replies

What `client_worker` sends back for the frames it receives, whatever the other
threads of the gateway do in between. The replies of a worker along a run are
what its steps append to the wire (`sentBy`); the messages it has received are
in its `recv` actions (`received`), and a byte stream determines them.

Results:

* `one_reply_per_frame`: while the record of the connection stays in its slot,
  the worker sends one frame for each frame it has received, in their order and
  with their sequence numbers, on the descriptor of the connection.
* `responses_unanswered_iff`: no response is answered, and so there are at most
  as many replies as there are frames that are no responses, if and only if no
  response is received while the record is in the table.
-/

namespace LinuxFileManager.Gateway

open Lib Protocol

/-! ## What is sent back -/

/-- The reply to a message whose device record is found. -/
def replyTo (msg : ProtoMessage) : ProtoMessage :=
  if isHeartbeat msg then ⟨cmdPong, flagHeartbeat, msg.seq, [], 0⟩
  else
    match findHandler menuHandlers msg.cmd with
    | some node => node.handler.response msg.seq
    | none => ⟨cmdError, flagResponse, msg.seq, [], 0⟩

/-- `reply` answers `msg` as the protocol has it: a PONG to a heartbeat, a
    response to a command with a handler, an error to any other command. -/
structure Answers (msg reply : ProtoMessage) : Prop where
  seq : reply.seq = msg.seq
  heartbeat : isHeartbeat msg = true → reply.cmd = 0x01 ∧ reply.flags = flagHeartbeat
  handled : isHeartbeat msg = false → ∀ node, LastFor menuRegistrations msg.cmd node →
    reply = node.handler.response msg.seq ∧ reply.cmd = msg.cmd ∧ reply.flags = flagResponse
  unhandled : isHeartbeat msg = false → (∀ node ∈ menuRegistrations, node.cmd ≠ msg.cmd) →
    reply.cmd = cmdError ∧ reply.flags = flagResponse ∧ reply.payload = []

/-- `send_frame_raw` puts `msg` on the wire, whatever is on its stack. -/
def Sendable (msg : ProtoMessage) : Prop :=
  ∀ stack payload, PayloadArg payload msg.payloadLen msg.payload →
    sendFrameRaw stack msg.cmd msg.flags msg.seq payload msg.payloadLen = some (frameImage msg)

theorem reply_dispatchMessage (payloadCopy : Buffer UInt8 protoMaxPayload) (msg : ProtoMessage) :
    (dispatchMessage menuHandlers payloadCopy true msg).reply = some (replyTo msg) := by
  simp only [dispatchMessage, replyTo, if_true]
  cases isHeartbeat msg with
  | true => rfl
  | false => cases findHandler menuHandlers msg.cmd <;> rfl

/-- A handler of the menu responds with the command it is registered for. -/
theorem cmd_response {node : HandlerNode MenuHandler} (h : node ∈ menuRegistrations) (seq : UInt16) :
    (node.handler.response seq).cmd = node.cmd ∧ (node.handler.response seq).flags = flagResponse := by
  simp only [menuRegistrations, List.mem_cons, List.not_mem_nil, or_false] at h
  rcases h with rfl | rfl | rfl <;> exact ⟨rfl, rfl⟩

theorem seq_response (handler : MenuHandler) (seq : UInt16) : (handler.response seq).seq = seq := by
  cases handler <;> rfl

theorem answers_replyTo (msg : ProtoMessage) : Answers msg (replyTo msg) := by
  unfold replyTo
  cases hbeat : isHeartbeat msg with
  | true => exact ⟨rfl, fun _ => ⟨rfl, rfl⟩, by simp [hbeat], by simp [hbeat]⟩
  | false =>
    rw [menuHandlers_eq_registerAll]
    rcases findHandler_registerAll menuRegistrations msg.cmd with ⟨node, hfind, hlast⟩ | ⟨hfind, hnone⟩
    · rw [hfind]
      refine ⟨seq_response _ _, by simp [hbeat], fun _ node' hlast' => ?_, fun _ hno => ?_⟩
      · obtain rfl := hlast.unique hlast'
        obtain ⟨hcmd, hflags⟩ := cmd_response hlast.mem.1 msg.seq
        exact ⟨rfl, hcmd.trans hlast.mem.2, hflags⟩
      · exact absurd hlast.mem.2 (hno node hlast.mem.1)
    · rw [hfind]
      refine ⟨rfl, by simp [hbeat], fun _ node' hlast' => ?_, fun _ _ => ⟨rfl, rfl, rfl⟩⟩
      exact absurd hlast'.mem.2 (hnone node' hlast'.mem.1)

theorem payload_response_le (handler : MenuHandler) (seq : UInt16) :
    (handler.response seq).payloadLen.toNat ≤ protoMaxPayload := by
  cases handler <;> simp [MenuHandler.response, protoMaxPayload]

theorem sendable_replyTo (msg : ProtoMessage) : Sendable (replyTo msg) := by
  intro stack payload hp
  refine sendFrameRaw_eq_frameImage stack hp ?_
  unfold replyTo
  split_ifs
  · exact Nat.zero_le _
  · cases findHandler menuHandlers msg.cmd with
    | some node => exact payload_response_le _ _
    | none => exact Nat.zero_le _

/-! ## What a worker receives and sends along a run -/

/-- The messages in what `recv` returns. -/
def WorkerAction.received : WorkerAction → List ProtoMessage
  | .recv (some msgs) => msgs
  | _ => []

/-- The messages that the worker `k` receives. -/
def receivedBy (k : ℕ) : Action → List ProtoMessage
  | .worker k' a => if k' = k then a.received else []
  | _ => []

/-- The messages that the worker `k` has received in a run. -/
def received (k : ℕ) (as : List Action) : List ProtoMessage := as.flatMap (receivedBy k)

/-- What the step of the worker `k` puts on the wire. -/
def sendsBy (k : ℕ) (s : Threads) (a : Action) (s' : Threads) : List (ℕ × ProtoMessage) :=
  match a with
  | .worker k' _ => if k' = k then s'.ctx.wire.drop s.ctx.wire.length else []
  | _ => []

/-- What the worker `k` has put on the wire in a run, with the descriptors. -/
def sentBy (k : ℕ) (s : Threads) (as : List Action) : List (ℕ × ProtoMessage) :=
  output Threads.step (sendsBy k) s as

/-- The replies that the worker still has to send. -/
def WorkerPc.unsent : WorkerPc → List ProtoMessage
  | .dispatching rest => rest.map replyTo
  | .found _ msg rest | .updated _ msg rest => replyTo msg :: rest.map replyTo
  | .handling _ handler todo msg rest =>
    (todo.filter (· = .respond)).map (fun _ => handler.response msg.seq) ++ rest.map replyTo
  | _ => []

/-- The replies that the worker `k` still has to send, if it exists. -/
def Threads.unsent (s : Threads) (k : ℕ) : List ProtoMessage :=
  match s.workers[k]? with
  | some w => w.pc.unsent
  | none => []

/-- The worker `k` serves the descriptor `fd`, and until it leaves its loop the
    record of the connection is in slot `j`. -/
def StaysAt (k fd j : ℕ) (s : Threads) : Prop :=
  ∀ w ∈ s.workers[k]?, w.fd = fd ∧ (w.pc.active = true → s.ctx.devices.findSlot fd = some j)

instance (k fd j : ℕ) : DecidablePred (StaysAt k fd j) := fun s =>
  inferInstanceAs (Decidable (∀ w ∈ s.workers[k]?, _))

/-- The slot that a worker has found. -/
def WorkerPc.slot? : WorkerPc → Option ℕ
  | .found j _ _ | .updated j _ _ | .handling j _ _ _ _ => some j
  | _ => none

/-! ## One step -/

section

variable {ctx ctx' : GatewayCtx} {locked : Bool} {fd j : ℕ} {pc pc' : WorkerPc} {a : WorkerAction}

/-- What a step sends and what is still to be sent after it is what was to be
    sent before it and what answers `msgs`. -/
def Serves (fd j : ℕ) (ctx : GatewayCtx) (pc : WorkerPc) (msgs : List ProtoMessage) (ctx' : GatewayCtx)
    (pc' : WorkerPc) : Prop :=
  (∀ i ∈ pc'.slot?, i = j) ∧
    ctx'.wire.drop ctx.wire.length ++ pc'.unsent.map (fd, ·) =
      pc.unsent.map (fd, ·) ++ msgs.map fun msg => (fd, replyTo msg)

/-- A step that sends nothing. -/
theorem Serves.silent {next : GatewayCtx} {pcNext : WorkerPc} {msgs : List ProtoMessage}
    (h : some (next, pcNext) = some (ctx', pc')) (hwire : next.wire = ctx.wire)
    (hslot : ∀ i ∈ pcNext.slot?, i = j) (hunsent : pcNext.unsent = pc.unsent ++ msgs.map replyTo) :
    Serves fd j ctx pc msgs ctx' pc' := by
  obtain ⟨rfl, rfl⟩ := Prod.mk.inj (Option.some.inj h)
  refine ⟨hslot, ?_⟩
  rw [hwire, List.drop_length, List.nil_append, hunsent, List.map_append, List.map_map]
  rfl

/-- A step that sends the next reply. -/
theorem Serves.sends {reply : ProtoMessage} {pcNext : WorkerPc}
    (h : some (ctx.send fd reply, pcNext) = some (ctx', pc')) (hslot : ∀ i ∈ pcNext.slot?, i = j)
    (hunsent : pc.unsent = reply :: pcNext.unsent) : Serves fd j ctx pc [] ctx' pc' := by
  obtain ⟨rfl, rfl⟩ := Prod.mk.inj (Option.some.inj h)
  refine ⟨hslot, ?_⟩
  rw [hunsent, List.map_nil, List.append_nil, GatewayCtx.send, List.drop_left]
  rfl

/-- Each handler responds once. -/
theorem filter_accesses (handler : MenuHandler) :
    handler.accesses.filter (· = .respond) = [.respond] := by
  cases handler <;> rfl

theorem workerStep_serves (hfind : pc.active = true → ctx.devices.findSlot fd = some j)
    (hslot : ∀ i ∈ pc.slot?, i = j) (h : workerStep ctx locked fd pc a = some (ctx', pc')) :
    Serves fd j ctx pc a.received ctx' pc' := by
  cases pc with
  | queued =>
    cases a with
    | start => exact .silent h rfl (by simp [WorkerPc.slot?]) rfl
    | _ => simp [workerStep] at h
  | top =>
    cases a with
    | check =>
      refine .silent h rfl ?_ ?_ <;> split_ifs <;>
        simp [WorkerPc.slot?, WorkerPc.unsent, WorkerAction.received]
    | _ => simp [workerStep] at h
  | selecting =>
    cases a with
    | notReady => exact .silent h rfl (by simp [WorkerPc.slot?]) rfl
    | selectError => exact .silent h rfl (by simp [WorkerPc.slot?]) rfl
    | recv msgs =>
      cases msgs with
      | none => exact .silent h rfl (by simp [WorkerPc.slot?]) rfl
      | some msgs => exact .silent h rfl (by simp [WorkerPc.slot?]) rfl
    | _ => simp [workerStep] at h
  | dispatching rest =>
    cases a with
    | find =>
      cases rest with
      | nil => exact .silent h rfl (by simp [WorkerPc.slot?]) rfl
      | cons msg rest =>
        simp only [workerStep, hfind rfl] at h
        split_ifs at h
        exact .silent h rfl (by simp [WorkerPc.slot?]) (by simp [WorkerPc.unsent, WorkerAction.received])
    | _ => cases rest <;> simp [workerStep] at h
  | found i msg rest =>
    cases a with
    | update now =>
      simp only [workerStep] at h
      split_ifs at h
      exact .silent h rfl hslot (by simp [WorkerPc.unsent, WorkerAction.received])
    | _ => simp [workerStep] at h
  | updated i msg rest =>
    cases a with
    | act payloadCopy =>
      have hreply := reply_dispatchMessage payloadCopy msg
      simp only [workerStep] at h
      cases hout : dispatchMessage menuHandlers payloadCopy true msg with
      | noDevice => simp [hout, Outcome.reply] at hreply
      | pong seq =>
        simp only [hout, Outcome.reply, Option.some.injEq] at hreply
        simp only [hout] at h
        exact .sends h (by simp [WorkerPc.slot?]) (by simp [WorkerPc.unsent, ← hreply])
      | noHandler seq =>
        simp only [hout, Outcome.reply, Option.some.injEq] at hreply
        simp only [hout] at h
        exact .sends h (by simp [WorkerPc.slot?]) (by simp [WorkerPc.unsent, ← hreply])
      | handled node msg' copy =>
        simp only [hout, Outcome.reply, Option.some.injEq] at hreply
        simp only [hout] at h
        exact .silent h rfl hslot
          (by simp [WorkerPc.unsent, filter_accesses, ← hreply, WorkerAction.received])
    | _ => simp [workerStep] at h
  | handling i handler todo msg rest =>
    cases a with
    | handle =>
      cases todo with
      | nil =>
        exact .silent h rfl (by simp [WorkerPc.slot?]) (by simp [WorkerPc.unsent, WorkerAction.received])
      | cons access todo =>
        simp only [workerStep] at h
        cases access with
        | respond =>
          obtain rfl : i = j := hslot i rfl
          rw [GatewayCtx.access, DeviceTable.fd_slot_of_findSlot (hfind rfl)] at h
          exact .sends h hslot (by simp [WorkerPc.unsent])
        | _ => exact .silent h rfl hslot (by simp [WorkerPc.unsent, WorkerAction.received])
    | _ => cases todo <;> simp [workerStep] at h
  | leaving =>
    cases a with
    | remove =>
      simp only [workerStep] at h
      split_ifs at h
      exact .silent h rfl (by simp [WorkerPc.slot?]) rfl
    | _ => simp [workerStep] at h
  | removed =>
    cases a with
    | close => exact .silent h rfl (by simp [WorkerPc.slot?]) rfl
    | _ => simp [workerStep] at h
  | closed => cases a <;> simp [workerStep] at h

end

/-! ## Runs -/

/-- The pointer of the worker `k` is to slot `j`. -/
def PointsTo (k j : ℕ) (s : Threads) : Prop := ∀ w ∈ s.workers[k]?, ∀ i ∈ w.pc.slot?, i = j

theorem sent_step {k fd j : ℕ} {s s' : Threads} {a : Action} (hpoints : PointsTo k j s)
    (hstay : StaysAt k fd j s) (h : s.step a = some s') :
    PointsTo k j s' ∧
      sendsBy k s a s' ++ (s'.unsent k).map (fd, ·) =
        (s.unsent k).map (fd, ·) ++ (receivedBy k a).map fun msg => (fd, replyTo msg) := by
  by_cases hworker : ∃ b, a = .worker k b
  · obtain ⟨b, rfl⟩ := hworker
    obtain ⟨w, ctx, pc, hw, hstep, rfl⟩ := Threads.worker_step_iff.mp h
    obtain ⟨rfl, hfind⟩ := hstay w hw
    obtain ⟨hslot, heq⟩ := workerStep_serves hfind (hpoints w hw) hstep
    have hw' : (s.workers.set k { w with pc := pc })[k]? = some { w with pc := pc } :=
      List.getElem?_set_self (List.getElem?_eq_some_iff.mp hw).1
    refine ⟨fun v hv => ?_, ?_⟩
    · obtain rfl := Option.some.inj (hw'.symm.trans hv)
      exact hslot
    · simp only [sendsBy, receivedBy, if_true, Threads.unsent, hw, hw']
      exact heq
  · have hne : ∀ b, a ≠ .worker k b := fun b hb => hworker ⟨b, hb⟩
    have hsends : sendsBy k s a s' = [] := by
      cases a with
      | worker k' b => exact if_neg (by rintro rfl; exact hne b rfl)
      | _ => rfl
    have hreceived : receivedBy k a = [] := by
      cases a with
      | worker k' b => exact if_neg (by rintro rfl; exact hne b rfl)
      | _ => rfl
    rw [hsends, hreceived, List.map_nil, List.append_nil, List.nil_append]
    rcases Threads.worker_of_step h hne with hsame | ⟨hnone, fd', conn, hnew⟩
    · rw [Threads.unsent, Threads.unsent, hsame]
      exact ⟨fun w hw => hpoints w (hsame ▸ hw), rfl⟩
    · rw [Threads.unsent, Threads.unsent, hnone, hnew]
      refine ⟨fun w hw => ?_, rfl⟩
      obtain rfl := Option.some.inj (hnew.symm.trans hw)
      simp [WorkerPc.slot?]

/-- What the worker `k` has sent in a run, and what it still has to send, are
    the replies to what it has received. -/
theorem sentBy_append_unsent {time : ℤ} {as : List Action} {s : Threads} {k fd j : ℕ}
    (hstay : Along Threads.step (StaysAt k fd j) (.start time) as)
    (h : exec Threads.step (.start time) as = some s) :
    PointsTo k j s ∧
      sentBy k (.start time) as ++ (s.unsent k).map (fd, ·) =
        (received k as).map fun msg => (fd, replyTo msg) := by
  have hstart : PointsTo k j (.start time) := by simp [PointsTo, Threads.start]
  obtain ⟨hpoints, heq⟩ := output_append_pending (fun s => (s.unsent k).map (fd, ·))
    (fun _ _ _ => sent_step) hstart hstay h
  refine ⟨hpoints, heq.trans ?_⟩
  rw [received, List.map_flatMap]
  rfl

/-! ## The worker on its own -/

/-- The worker is in its loop over the frames of a block. -/
def WorkerPc.parsing : WorkerPc → Bool
  | .dispatching _ | .found _ _ _ | .updated _ _ _ | .handling _ _ _ _ _ => true
  | _ => false

theorem WorkerPc.unsent_of_not_parsing {pc : WorkerPc} (h : pc.parsing = false) : pc.unsent = [] := by
  cases pc <;> first | rfl | cases h

theorem WorkerPc.unsent_of_not_active {pc : WorkerPc} (h : pc.active = false) : pc.unsent = [] := by
  cases pc <;> first | rfl | cases h

/-- A bound for the number of steps to the end of the loop. -/
def WorkerPc.work : WorkerPc → ℕ
  | .dispatching rest => 10 * rest.length
  | .found _ _ rest => 10 * rest.length + 9
  | .updated _ _ rest => 10 * rest.length + 8
  | .handling _ _ todo _ rest => 10 * rest.length + todo.length + 1
  | _ => 0

theorem WorkerPc.unsent_of_work {pc : WorkerPc} (h : pc.work = 0) : pc.unsent = [] := by
  cases pc with
  | dispatching rest =>
    have hrest : rest = [] := by simpa [WorkerPc.work] using h
    rw [hrest]
    rfl
  | _ => first | rfl | simp [WorkerPc.work] at h

theorem length_accesses_le (handler : MenuHandler) : handler.accesses.length ≤ 4 := by
  cases handler <;> decide

/-- A worker with work to do that finds its record and gets the mutex goes on. -/
theorem workerStep_progress {ctx : GatewayCtx} {fd j : ℕ} {pc : WorkerPc}
    (hfind : ctx.devices.findSlot fd = some j) (hwork : pc.work ≠ 0) :
    ∃ a ctx' pc', a.received = [] ∧ workerStep ctx false fd pc a = some (ctx', pc') ∧
      ctx.devices.Kept ctx'.devices ∧ pc'.active = true ∧ pc'.work < pc.work := by
  cases pc with
  | dispatching rest =>
    cases rest with
    | nil => exact absurd rfl hwork
    | cons msg rest =>
      refine ⟨.find, ctx, .found j msg rest, rfl, by simp [workerStep, hfind], .refl _, rfl, ?_⟩
      simp only [WorkerPc.work, List.length_cons]
      omega
  | found i msg rest =>
    exact ⟨.update 0, _, .updated i msg rest, rfl, rfl, DeviceTable.kept_updateDeviceActivity _ fd 0, rfl,
      Nat.lt_succ_self _⟩
  | updated i msg rest =>
    have hreply := reply_dispatchMessage (.filled _ 0) msg
    cases hout : dispatchMessage menuHandlers (.filled _ 0) true msg with
    | noDevice => simp [hout, Outcome.reply] at hreply
    | pong seq =>
      exact ⟨.act (.filled _ 0), ctx.send fd _, .dispatching rest, rfl,
        by simp only [workerStep, hout]; rfl, .refl _, rfl, Nat.lt_add_of_pos_right (by decide)⟩
    | noHandler seq =>
      exact ⟨.act (.filled _ 0), ctx.send fd _, .dispatching rest, rfl,
        by simp only [workerStep, hout]; rfl, .refl _, rfl, Nat.lt_add_of_pos_right (by decide)⟩
    | handled node msg' copy =>
      refine ⟨.act (.filled _ 0), _, .handling i node.handler node.handler.accesses msg' rest, rfl,
        by simp only [workerStep, hout], .refl _, rfl, ?_⟩
      have hle := length_accesses_le node.handler
      simp only [WorkerPc.work]
      omega
  | handling i handler todo msg rest =>
    cases todo with
    | nil => exact ⟨.handle, ctx, .dispatching rest, rfl, rfl, .refl _, rfl, Nat.lt_succ_self _⟩
    | cons access todo =>
      exact ⟨.handle, _, .handling i handler todo msg rest, rfl, rfl,
        (quiet_access ctx i handler msg access).devices, rfl, Nat.lt_succ_self _⟩
  | _ => exact absurd rfl hwork

/-- The mutex is free and the worker `k` finds its record. -/
structure Serving (k fd j : ℕ) (s : Threads) : Prop where
  free : s.locked = false
  worker : ∃ w, s.workers[k]? = some w ∧ w.fd = fd
  found : s.ctx.devices.findSlot fd = some j

def Threads.work (s : Threads) (k : ℕ) : ℕ :=
  match s.workers[k]? with
  | some w => w.pc.work
  | none => 0

theorem Serving.progress {k fd j : ℕ} {s : Threads} (h : Serving k fd j s) (hwork : s.work k ≠ 0) :
    ∃ a s', (∃ b, a = .worker k b ∧ b.received = []) ∧ s.step a = some s' ∧ Serving k fd j s' ∧
      s'.work k < s.work k := by
  obtain ⟨w, hw, rfl⟩ := h.worker
  have hworkers := List.getElem?_set_self (a := w) (List.getElem?_eq_some_iff.mp hw).1
  simp only [Threads.work, hw] at hwork ⊢
  obtain ⟨b, ctx, pc, hreceived, hstep, hkept, hactive, hlt⟩ := workerStep_progress h.found hwork
  rw [← h.free] at hstep
  refine ⟨.worker k b, _, ⟨b, rfl, hreceived⟩, Threads.worker_step_iff.mpr ⟨w, ctx, pc, hw, hstep, rfl⟩,
    ⟨h.free, ⟨{ w with pc := pc }, ?_, rfl⟩, ?_⟩, ?_⟩
  · exact List.getElem?_set_self (List.getElem?_eq_some_iff.mp hw).1
  · exact (hkept.findSlot w.fd).trans h.found
  · simpa only [List.getElem?_set_self (List.getElem?_eq_some_iff.mp hw).1] using hlt

theorem Serving.staysAt {k fd j : ℕ} {s : Threads} (h : Serving k fd j s) : StaysAt k fd j s := by
  obtain ⟨w, hw, hfd⟩ := h.worker
  intro v hv
  obtain rfl := Option.some.inj (hw.symm.trans hv)
  exact ⟨hfd, fun _ => h.found⟩

theorem Threads.unsent_of_work {s : Threads} {k : ℕ} (h : s.work k = 0) : s.unsent k = [] := by
  unfold Threads.work at h
  unfold Threads.unsent
  cases hw : s.workers[k]? with
  | none => rfl
  | some w =>
    rw [hw] at h
    exact WorkerPc.unsent_of_work h

/-- A worker can send what it still has to send without any other thread. -/
theorem Serving.exists_finish {k fd j : ℕ} {s : Threads} (h : Serving k fd j s)
    (hpoints : PointsTo k j s) :
    ∃ as s', (∀ a ∈ as, ∃ b, a = .worker k b) ∧ exec Threads.step s as = some s' ∧
      sentBy k s as = (s.unsent k).map (fd, ·) := by
  have hprogress : ∀ s, Serving k fd j s → s.work k ≠ 0 → ∃ a s',
      (Serving k fd j s ∧ ∃ b, a = Action.worker k b ∧ b.received = []) ∧ s.step a = some s' ∧
        Serving k fd j s' ∧ s'.work k < s.work k := by
    intro s hs hwork
    obtain ⟨a, s', hgood, hrest⟩ := hs.progress hwork
    exact ⟨a, s', ⟨hs, hgood⟩, hrest⟩
  obtain ⟨as, s', hevery, hexec, hserving, hwork⟩ := exists_run hprogress h
  have hmem := (hevery.mono fun _ _ hgood => hgood.2).forall_mem hexec
  have hstay : Along Threads.step (StaysAt k fd j) s as :=
    Along.of_every (hevery.mono fun _ _ hgood => hgood.1.staysAt) hexec hserving.staysAt
  obtain ⟨-, heq⟩ := output_append_pending (fun s => (s.unsent k).map (fd, ·)) (fun _ _ _ => sent_step)
    hpoints hstay hexec
  have hreceived : (as.flatMap fun a => (receivedBy k a).map fun msg => (fd, replyTo msg)) = [] := by
    refine List.flatMap_eq_nil_iff.mpr fun a ha => ?_
    obtain ⟨b, rfl, hb⟩ := hmem a ha
    simp [receivedBy, hb]
  rw [hreceived, Threads.unsent_of_work hwork, List.map_nil, List.append_nil, List.append_nil] at heq
  refine ⟨as, s', fun a ha => ?_, hexec, heq⟩
  obtain ⟨b, rfl, -⟩ := hmem a ha
  exact ⟨b, rfl⟩

/-! ## One reply for each frame -/

/-- While the record of its connection is in its slot, the worker answers the
    frames it receives, however their bytes are cut into blocks: what it has
    sent are the first replies, all of them when it is not in its loop over the
    frames of a block, and otherwise it can send the others without any other
    thread unless the mutex is held. -/
theorem one_reply_per_frame {time : ℤ} {as : List Action} {s : Threads} {k fd j : ℕ}
    {msgs : List ProtoMessage} {recvBuf : Buffer UInt8 recvBufSize} {v : ClientWorker (List ProtoMessage)}
    (h : exec Threads.step (.start time) as = some s)
    (hstay : Along Threads.step (StaysAt k fd j) (.start time) as)
    (hmsgs : ∀ m ∈ msgs, Encodable m)
    (hbytes : Delivers record (.start recvBuf []) (msgs.flatMap frameImage) v)
    (hreceived : received k as = v.state) :
    ∃ replies, List.Forall₂ Answers msgs replies ∧ (∀ reply ∈ replies, Sendable reply) ∧
      sentBy k (.start time) as <+: replies.map (fd, ·) ∧
      ((∀ w ∈ s.workers[k]?, w.pc.parsing = false) →
        sentBy k (.start time) as = replies.map (fd, ·)) ∧
      (s.locked = false → ∃ bs s', (∀ b ∈ bs, ∃ a, b = .worker k a) ∧
        exec Threads.step (.start time) (as ++ bs) = some s' ∧
        sentBy k (.start time) (as ++ bs) = replies.map (fd, ·)) := by
  obtain ⟨hpoints, hsent⟩ := sentBy_append_unsent hstay h
  obtain ⟨ms, r, hs, hst, -, -⟩ := hbytes.scans
  obtain ⟨rfl, rfl⟩ := hs.unique (scans_frames hmsgs)
  rw [foldl_record, List.nil_append] at hst
  rw [hreceived, hst] at hsent
  have hreplies : (ms.map replyTo).map (fd, ·) = ms.map fun msg => (fd, replyTo msg) := by
    rw [List.map_map]
    rfl
  rw [← hreplies] at hsent
  refine ⟨ms.map replyTo, ?_, ?_, ⟨_, hsent⟩, fun hidle => ?_, fun hfree => ?_⟩
  · exact List.forall₂_map_right_iff.mpr (List.forall₂_same.mpr fun m _ => answers_replyTo m)
  · intro reply hreply
    obtain ⟨m, -, rfl⟩ := List.mem_map.mp hreply
    exact sendable_replyTo m
  · have hnone : s.unsent k = [] := by
      unfold Threads.unsent
      cases hw : s.workers[k]? with
      | none => rfl
      | some w => exact WorkerPc.unsent_of_not_parsing (hidle w hw)
    rw [← hsent, hnone, List.map_nil, List.append_nil]
  · by_cases hserving : Serving k fd j s
    · obtain ⟨bs, s', hbs, hexec, hrest⟩ := hserving.exists_finish hpoints
      refine ⟨bs, s', hbs, (exec_append h).trans hexec, ?_⟩
      rw [← hsent, sentBy, output_append h]
      exact congrArg _ hrest
    · -- the worker has left its loop, or does not exist
      have hnone : s.unsent k = [] := by
        unfold Threads.unsent
        cases hw : s.workers[k]? with
        | none => rfl
        | some w =>
          obtain ⟨hfd, hfind⟩ := hstay.last h w hw
          refine WorkerPc.unsent_of_not_active (Bool.eq_false_iff.mpr fun hactive => hserving ?_)
          exact ⟨hfree, ⟨w, hw, hfd⟩, hfind hactive⟩
      refine ⟨[], s, by simp, by rwa [List.append_nil], ?_⟩
      rw [List.append_nil, ← hsent, hnone, List.map_nil, List.append_nil]

/-- A heartbeat, and a command that nobody handles. -/
def heartbeatAndQuery : List ProtoMessage :=
  [⟨cmdPing, flagHeartbeat, 7, [], 0⟩, ⟨0x21, flagRequest, 8, [3], 1⟩]

/-- A client sends both in one block; the first one is answered. -/
def serveOne : List Action :=
  connect 0 5 ++
    [.worker 0 (.recv (some heartbeatAndQuery)), .worker 0 .find, .worker 0 (.update 1),
      .worker 0 (.act (.filled _ 0)), .worker 0 .find]

theorem one_reply_per_frame_serveOne :
    ∃ s, exec Threads.step (.start 0) serveOne = some s ∧
      ∃ replies, List.Forall₂ Answers heartbeatAndQuery replies ∧ (∀ reply ∈ replies, Sendable reply) ∧
        sentBy 0 (.start 0) serveOne <+: replies.map (5, ·) ∧
        ((∀ w ∈ s.workers[0]?, w.pc.parsing = false) →
          sentBy 0 (.start 0) serveOne = replies.map (5, ·)) ∧
        (s.locked = false → ∃ bs s', (∀ b ∈ bs, ∃ a, b = .worker 0 a) ∧
          exec Threads.step (.start 0) (serveOne ++ bs) = some s' ∧
          sentBy 0 (.start 0) (serveOne ++ bs) = replies.map (5, ·)) := by
  have hsome : (exec Threads.step (.start 0) serveOne).isSome = true := by decide +kernel
  have hstay : Along Threads.step (StaysAt 0 5 0) (.start 0) serveOne := by decide +kernel
  have hmsgs : ∀ m ∈ heartbeatAndQuery, Encodable m := by decide
  obtain ⟨s, hs⟩ := Option.isSome_iff_exists.mp hsome
  obtain ⟨v, hv⟩ := Delivers.total record (.start (.filled _ 0) []) (heartbeatAndQuery.flatMap frameImage)
  obtain ⟨ms, r, hscan, hst, -, -⟩ := hv.scans
  obtain ⟨rfl, rfl⟩ := hscan.unique (scans_frames hmsgs)
  rw [foldl_record, List.nil_append] at hst
  exact ⟨s, hs, one_reply_per_frame hs hstay hmsgs hv hst.symm⟩

/-! ## Replies to responses -/

/-- The frame is itself an answer. -/
def isResponse (msg : ProtoMessage) : Bool := msg.flags &&& flagResponse != 0

/-- There are at most as many replies as there are frames that are no
    responses, and no response has triggered one. -/
structure ResponsesUnanswered (msgs : List ProtoMessage) (outcomes : List (Outcome MenuHandler)) :
    Prop where
  count : (outcomes.filterMap Outcome.reply).length ≤ msgs.countP fun msg => !isResponse msg
  unanswered : ∀ (k : ℕ) (msg : ProtoMessage) (o : Outcome MenuHandler), msgs[k]? = some msg →
    outcomes[k]? = some o → isResponse msg = true → o.reply = none

theorem reply_isSome (payloadCopy : Buffer UInt8 protoMaxPayload) (found : Bool) (msg : ProtoMessage) :
    (dispatchMessage menuHandlers payloadCopy found msg).reply.isSome = found := by
  cases found with
  | false => rfl
  | true => rw [reply_dispatchMessage]; rfl

/-- If only elements with `p` give a result, there are at most as many results
    as there are such elements. -/
theorem length_filterMap_mapIdx_le {α β γ : Type} {f : ℕ → α → β} {g : β → Option γ} {p : α → Bool}
    {l : List α} (h : ∀ k a, l[k]? = some a → (g (f k a)).isSome = true → p a = true) :
    ((l.mapIdx f).filterMap g).length ≤ l.countP p := by
  induction l generalizing f with
  | nil => simp
  | cons a l ih =>
    have hrest := ih (f := fun k => f (k + 1)) fun k b hb => h (k + 1) b (by simpa using hb)
    rw [List.mapIdx_cons, List.filterMap_cons, List.countP_cons]
    cases hg : g (f 0 a) with
    | none => exact hrest.trans (Nat.le_add_right _ _)
    | some c =>
      rw [if_pos (h 0 a rfl (by rw [hg]; rfl)), List.length_cons]
      exact Nat.succ_le_succ hrest

/-- However the bytes of the frames are cut into blocks, no response triggers a
    reply if and only if no response is received while the record of the
    connection is in the table. -/
theorem responses_unanswered_iff {payloadCopy : Buffer UInt8 protoMaxPayload} {found : ℕ → Bool}
    {recvBuf : Buffer UInt8 recvBufSize} {msgs : List ProtoMessage}
    {w : ClientWorker (List (Outcome MenuHandler))} (hmsgs : ∀ m ∈ msgs, Encodable m)
    (h : Delivers (dispatchAll menuHandlers payloadCopy found) (.start recvBuf [])
      (msgs.flatMap frameImage) w) :
    ResponsesUnanswered msgs w.state ↔
      ∀ (k : ℕ) (msg : ProtoMessage), msgs[k]? = some msg → isResponse msg = true → found k = false := by
  obtain ⟨ms, r, hs, hst, -, -⟩ := h.scans
  obtain ⟨rfl, rfl⟩ := hs.unique (scans_frames hmsgs)
  rw [foldl_dispatchAll, List.nil_append] at hst
  simp only [List.length_nil, Nat.zero_add] at hst
  rw [hst]
  constructor
  · intro hno k msg hk hresponse
    have hreply := hno.unanswered k msg _ hk (by rw [List.getElem?_mapIdx, hk]; rfl) hresponse
    rw [← reply_isSome payloadCopy (found k) msg, hreply]
    rfl
  · intro hfound
    constructor
    · refine length_filterMap_mapIdx_le fun k msg hk hsome => ?_
      rw [reply_isSome] at hsome
      rw [Bool.not_eq_true', Bool.eq_false_iff]
      intro hresponse
      rw [hfound k msg hk hresponse] at hsome
      cases hsome
    · intro k msg o hk ho hresponse
      rw [List.getElem?_mapIdx, hk] at ho
      cases ho
      rw [hfound k msg hk hresponse]
      rfl

theorem responses_unanswered_iff_query :
    ∃ w, Delivers (dispatchAll menuHandlers (.filled _ 0) fun _ => true) (.start (.filled _ 0) [])
        (heartbeatAndQuery.flatMap frameImage) w ∧
      (ResponsesUnanswered heartbeatAndQuery w.state ↔
        ∀ (k : ℕ) (msg : ProtoMessage), heartbeatAndQuery[k]? = some msg → isResponse msg = true →
          true = false) := by
  obtain ⟨w, h⟩ := Delivers.total (dispatchAll menuHandlers (.filled _ 0) fun _ => true)
    (.start (.filled _ 0) []) (heartbeatAndQuery.flatMap frameImage)
  exact ⟨w, h, responses_unanswered_iff (by decide) h⟩

/-- What a device answers to the command of `r`. -/
def gpioResponse : ProtoMessage := ⟨cmdGpioControl, flagResponse, 1, [0x01], 1⟩

/-- The gateway answers the response of a device with the same response. -/
theorem gpioResponse_answered :
    ∃ w, Delivers (dispatchAll menuHandlers (.filled _ 0) fun _ => true) (.start (.filled _ 0) [])
        (frameImage gpioResponse) w ∧
      w.state.filterMap Outcome.reply = [gpioResponse] ∧
      ¬ ResponsesUnanswered [gpioResponse] w.state := by
  obtain ⟨w, h⟩ := Delivers.total (dispatchAll menuHandlers (.filled _ 0) fun _ => true)
    (.start (.filled _ 0) []) (frameImage gpioResponse)
  obtain ⟨ms, r, hs, hst, -, -⟩ := h.scans
  have hscan := scans_frames (show ∀ m ∈ [gpioResponse], Encodable m by decide)
  rw [List.flatMap_singleton] at hscan
  obtain ⟨rfl, rfl⟩ := hs.unique hscan
  have hreplies : w.state.filterMap Outcome.reply = [gpioResponse] := by
    rw [hst]
    rfl
  refine ⟨w, h, hreplies, fun hno => ?_⟩
  have hcount := hno.count
  rw [hreplies] at hcount
  exact absurd hcount (by decide)

end LinuxFileManager.Gateway
