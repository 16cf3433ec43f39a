import LinuxFileManager.Gateway.Threads
import LinuxFileManager.Lib.Ownership

/-!
# What the steps of the gateway threads do

One inversion lemma for each thread: which of its steps open or close a
descriptor or change which records are in use. All other steps are `Quiet`.
The invariants over the runs of the gateway are derived from these lemmas. For
the heartbeat thread, `HeartbeatMove` also says what it writes and sends.

A worker, and the accept thread between `accept` and the start of the worker,
own a descriptor (`Worker.owner`, `AcceptPc.owner`). A worker has a pointer into
the device table from `find_device_by_fd` to the last access of the handler
(`WorkerPc.pointer`).
-/

namespace LinuxFileManager.Gateway

open Lib Protocol

/-! ## What threads hold -/

/-- The worker has not reached the end of its loop. -/
def WorkerPc.active : WorkerPc → Bool
  | .removed | .closed => false
  | _ => true

/-- The descriptor that the worker still has to close. -/
def Worker.owner (w : Worker) : Option (Owner ℕ) :=
  match w.pc with
  | .closed => none
  | .removed => some ⟨w.fd, w.conn, false⟩
  | _ => some ⟨w.fd, w.conn, true⟩

theorem Worker.owner_of_active {w : Worker} (h : w.pc.active = true) :
    w.owner = some ⟨w.fd, w.conn, true⟩ := by
  unfold WorkerPc.active at h
  unfold Worker.owner
  split at h <;> simp_all

/-- The descriptor for which the accept thread still has to start a worker. -/
def AcceptPc.owner : AcceptPc → Option (Owner ℕ)
  | .accepted fd conn _ _ | .refused fd conn => some ⟨fd, conn, false⟩
  | .added fd conn => some ⟨fd, conn, true⟩
  | _ => none

/-- `client_worker` hands the message to a handler. -/
def reachesHandler (msg : ProtoMessage) : Bool :=
  !isHeartbeat msg && (findHandler menuHandlers msg.cmd).isSome

/-- The slot that a handler still has to access for the worker. -/
def WorkerPc.pointer : WorkerPc → Option ℕ
  | .found j msg _ | .updated j msg _ => if reachesHandler msg then some j else none
  | .handling j _ (_ :: _) _ _ => some j
  | _ => none

/-- No descriptor is opened or closed, and the same records are in use. -/
structure Quiet (ctx ctx' : GatewayCtx) : Prop where
  openFds : ctx'.openFds = ctx.openFds
  nextConn : ctx'.nextConn = ctx.nextConn
  devices : ctx.devices.Kept ctx'.devices

theorem Quiet.refl (ctx : GatewayCtx) : Quiet ctx ctx := ⟨rfl, rfl, .refl _⟩

theorem quiet_send (ctx : GatewayCtx) (fd : ℕ) (msg : ProtoMessage) : Quiet ctx (ctx.send fd msg) :=
  ⟨rfl, rfl, .refl _⟩

theorem quiet_modifySlot (ctx : GatewayCtx) (i : ℕ) {f : GatewayDevice → GatewayDevice}
    (h : ∀ dev, (f dev).key = dev.key) :
    Quiet ctx { ctx with devices := ctx.devices.modifySlot i f } :=
  ⟨rfl, rfl, DeviceTable.kept_modifySlot _ i h⟩

theorem quiet_access (ctx : GatewayCtx) (j : ℕ) (handler : MenuHandler) (msg : ProtoMessage)
    (access : Access) : Quiet ctx (ctx.access j handler msg access) := by
  cases access with
  | read => exact .refl ctx
  | writeDevId => exact quiet_modifySlot ctx j (key_writeDevId msg)
  | writeDevType => exact quiet_modifySlot ctx j (key_writeDevType msg)
  | respond => exact quiet_send ctx _ _

/-! ## Workers -/

/-- A worker deletes a record, or closes its descriptor, or does neither; a new
    pointer is the result of a search for its descriptor. -/
inductive WorkerEffect (ctx : GatewayCtx) (locked : Bool) (fd : ℕ) :
    WorkerPc → WorkerAction → GatewayCtx → WorkerPc → Prop where
  | remove (hfree : locked = false) :
      WorkerEffect ctx locked fd .leaving .remove
        { ctx with devices := ctx.devices.removeDevice fd } .removed
  | close : WorkerEffect ctx locked fd .removed .close (ctx.close fd) .closed
  | quiet {pc pc' : WorkerPc} {a : WorkerAction} {ctx' : GatewayCtx} (hquiet : Quiet ctx ctx')
      (hpc : pc.active = true) (hpc' : pc'.active = true)
      (hpointer : ∀ j, pc'.pointer = some j → pc.pointer = some j ∨ ctx.devices.findSlot fd = some j) :
      WorkerEffect ctx locked fd pc a ctx' pc'

/-- A message that gets to a handler was bound for one. -/
theorem reachesHandler_of_handled {payloadCopy : Buffer UInt8 protoMaxPayload} {msg msg' : ProtoMessage}
    {node : HandlerNode MenuHandler} {copy : Option (Buffer UInt8 protoMaxPayload)}
    (h : dispatchMessage menuHandlers payloadCopy true msg = .handled node msg' copy) :
    reachesHandler msg = true := by
  simp only [dispatchMessage, if_true] at h
  split_ifs at h with hbeat
  all_goals
    rw [Bool.not_eq_true] at hbeat
    cases hnode : findHandler menuHandlers msg.cmd with
    | none => simp [hnode] at h
    | some => simp [reachesHandler, hbeat, hnode]

/-- A quiet step to a place where the worker has no pointer. -/
theorem WorkerEffect.moves {ctx next ctx' : GatewayCtx} {locked : Bool} {fd : ℕ}
    {pc pcNext pc' : WorkerPc} {a : WorkerAction} (hquiet : Quiet ctx next)
    (h : some (next, pcNext) = some (ctx', pc')) (hpc : pc.active = true)
    (hnext : pcNext.active = true) (hpointer : pcNext.pointer = none) :
    WorkerEffect ctx locked fd pc a ctx' pc' := by
  obtain ⟨rfl, rfl⟩ := Prod.mk.inj (Option.some.inj h)
  refine .quiet hquiet hpc hnext fun j hj => ?_
  rw [hpointer] at hj
  cases hj

theorem workerStep_effect {ctx ctx' : GatewayCtx} {locked : Bool} {fd : ℕ} {pc pc' : WorkerPc}
    {a : WorkerAction} (h : workerStep ctx locked fd pc a = some (ctx', pc')) :
    WorkerEffect ctx locked fd pc a ctx' pc' := by
  cases pc with
  | queued =>
    cases a with
    | start => exact .moves (.refl ctx) h rfl rfl rfl
    | _ => simp [workerStep] at h
  | top =>
    cases a with
    | check => exact .moves (.refl ctx) h rfl (by split_ifs <;> rfl) (by split_ifs <;> rfl)
    | _ => simp [workerStep] at h
  | selecting =>
    cases a with
    | notReady => exact .moves (.refl ctx) h rfl rfl rfl
    | selectError => exact .moves (.refl ctx) h rfl rfl rfl
    | recv msgs =>
      cases msgs with
      | none => exact .moves (.refl ctx) h rfl rfl rfl
      | some msgs => exact .moves (.refl ctx) h rfl rfl rfl
    | _ => simp [workerStep] at h
  | dispatching rest =>
    cases a with
    | find =>
      cases rest with
      | nil => exact .moves (.refl ctx) h rfl rfl rfl
      | cons msg rest =>
        simp only [workerStep] at h
        split_ifs at h
        cases hfind : ctx.devices.findSlot fd with
        | none =>
          simp only [hfind] at h
          exact .moves (.refl ctx) h rfl rfl rfl
        | some j =>
          simp only [hfind, Option.some.injEq, Prod.mk.injEq] at h
          obtain ⟨rfl, rfl⟩ := h
          refine .quiet (.refl ctx) rfl rfl fun j' hj' => Or.inr ?_
          rw [hfind]
          simp only [WorkerPc.pointer] at hj'
          split_ifs at hj'
          exact hj'
    | _ => cases rest <;> simp [workerStep] at h
  | found j msg rest =>
    cases a with
    | update now =>
      simp only [workerStep] at h
      split_ifs at h
      obtain ⟨rfl, rfl⟩ := Prod.mk.inj (Option.some.inj h)
      exact .quiet ⟨rfl, rfl, DeviceTable.kept_updateDeviceActivity _ fd now⟩ rfl rfl
        fun _ hj => Or.inl hj
    | _ => simp [workerStep] at h
  | updated j msg rest =>
    cases a with
    | act payloadCopy =>
      simp only [workerStep] at h
      cases hout : dispatchMessage menuHandlers payloadCopy true msg with
      | noDevice =>
        simp only [hout] at h
        exact .moves (.refl ctx) h rfl rfl rfl
      | pong seq =>
        simp only [hout] at h
        exact .moves (quiet_send ctx _ _) h rfl rfl rfl
      | noHandler seq =>
        simp only [hout] at h
        exact .moves (quiet_send ctx _ _) h rfl rfl rfl
      | handled node msg' copy =>
        simp only [hout, Option.some.injEq, Prod.mk.injEq] at h
        obtain ⟨rfl, rfl⟩ := h
        refine .quiet (.refl ctx) rfl rfl fun j' hj' => Or.inl ?_
        have hpointer : (WorkerPc.updated j msg rest).pointer = some j := by
          rw [WorkerPc.pointer, if_pos (reachesHandler_of_handled hout)]
        rw [hpointer]
        cases htodo : node.handler.accesses with
        | nil => simp [WorkerPc.pointer, htodo] at hj'
        | cons => simpa [WorkerPc.pointer, htodo] using hj'
    | _ => simp [workerStep] at h
  | handling j handler todo msg rest =>
    cases a with
    | handle =>
      cases todo with
      | nil => exact .moves (.refl ctx) h rfl rfl rfl
      | cons access todo =>
        simp only [workerStep, Option.some.injEq, Prod.mk.injEq] at h
        obtain ⟨rfl, rfl⟩ := h
        refine .quiet (quiet_access ctx j handler msg access) rfl rfl fun j' hj' => Or.inl ?_
        cases todo with
        | nil => simp [WorkerPc.pointer] at hj'
        | cons => exact hj'
    | _ => cases todo <;> simp [workerStep] at h
  | leaving =>
    cases a with
    | remove =>
      simp only [workerStep] at h
      split_ifs at h with hlocked
      obtain ⟨rfl, rfl⟩ := Prod.mk.inj (Option.some.inj h)
      exact .remove (by simpa using hlocked)
    | _ => simp [workerStep] at h
  | removed =>
    cases a with
    | close =>
      obtain ⟨rfl, rfl⟩ := Prod.mk.inj (Option.some.inj h)
      exact .close
    | _ => simp [workerStep] at h
  | closed => cases a <;> simp [workerStep] at h

/-! ## The accept thread -/

/-- The accept thread opens a descriptor, adds a record for it, closes it, or
    does none of this. -/
inductive AcceptEffect (ctx : GatewayCtx) (locked : Bool) :
    AcceptPc → GatewayCtx → AcceptPc → Prop where
  | opens (fd : ℕ) (ip : String) (port : ℕ) (hclosed : ctx.openFds fd = none) :
      AcceptEffect ctx locked .waiting
        { ctx with
          openFds := Function.update ctx.openFds fd (some ctx.nextConn)
          nextConn := ctx.nextConn + 1 }
        (.accepted fd ctx.nextConn ip port)
  | adds {fd conn : ℕ} {ip : String} {port : ℕ} {now : ℤ} {devices : DeviceTable}
      (hfree : locked = false) (hadd : ctx.devices.addDevice fd ip port now conn = some devices) :
      AcceptEffect ctx locked (.accepted fd conn ip port) { ctx with devices := devices }
        (.added fd conn)
  | refuses (fd conn : ℕ) : AcceptEffect ctx locked (.refused fd conn) (ctx.close fd) .top
  | quiet {pc pc' : AcceptPc} {ctx' : GatewayCtx} (hquiet : Quiet ctx ctx')
      (howner : pc'.owner = pc.owner) : AcceptEffect ctx locked pc ctx' pc'

/-- A step that only moves the accept thread. -/
theorem AcceptEffect.moves {ctx ctx' : GatewayCtx} {locked : Bool} {pc pc' next : AcceptPc}
    (h : some (ctx, next) = some (ctx', pc')) (howner : next.owner = pc.owner) :
    AcceptEffect ctx locked pc ctx' pc' := by
  obtain ⟨rfl, rfl⟩ := Prod.mk.inj (Option.some.inj h)
  exact .quiet (.refl ctx) howner

theorem acceptStep_effect {ctx ctx' : GatewayCtx} {locked : Bool} {pc pc' : AcceptPc}
    {a : AcceptAction} (h : acceptStep ctx locked pc a = some (ctx', pc')) :
    AcceptEffect ctx locked pc ctx' pc' := by
  cases pc with
  | top =>
    cases a with
    | check => exact .moves h (by split_ifs <;> rfl)
    | _ => simp [acceptStep] at h
  | waiting =>
    cases a with
    | nothing => exact .moves h rfl
    | leave => exact .moves h rfl
    | accept fd ip port =>
      simp only [acceptStep] at h
      split_ifs at h with hclosed
      obtain ⟨rfl, rfl⟩ := Prod.mk.inj (Option.some.inj h)
      rw [Bool.and_eq_true, Option.isNone_iff_eq_none] at hclosed
      exact .opens fd ip port hclosed.2
    | _ => simp [acceptStep] at h
  | accepted fd conn ip port =>
    cases a with
    | add now =>
      simp only [acceptStep] at h
      split_ifs at h with hlocked
      cases hadd : ctx.devices.addDevice fd ip port now conn with
      | none =>
        simp only [hadd] at h
        exact .moves h rfl
      | some devices =>
        simp only [hadd, Option.some.injEq, Prod.mk.injEq] at h
        obtain ⟨rfl, rfl⟩ := h
        exact .adds (by simpa using hlocked) hadd
    | _ => simp [acceptStep] at h
  | refused fd conn =>
    cases a with
    | refuse =>
      obtain ⟨rfl, rfl⟩ := Prod.mk.inj (Option.some.inj h)
      exact .refuses fd conn
    | _ => simp [acceptStep] at h
  | added fd conn => cases a <;> simp [acceptStep] at h
  | exited => cases a <;> simp [acceptStep] at h

/-! ## The heartbeat thread -/

/-- The device in slot `i` has been silent for too long and has not answered
    three PINGs: a check at `now` evicts it (lines 427–435). -/
def Evicts (ctx : GatewayCtx) (now : ℤ) (i : ℕ) : Prop :=
  i < ctx.devices.deviceCount ∧
    now - (ctx.devices.slot i).lastActiveTime > gatewayHeartbeatTimeoutS ∧
    (ctx.devices.slot i).heartbeatFail ≥ 3

/-- A write through a pointer to slot `i`. -/
def GatewayCtx.write (ctx : GatewayCtx) (i : ℕ) (f : GatewayDevice → GatewayDevice) : GatewayCtx :=
  { ctx with devices := ctx.devices.modifySlot i f }

/-- What the heartbeat thread does in a step. -/
inductive HeartbeatMove (ctx : GatewayCtx) : HeartbeatPc → GatewayCtx → HeartbeatPc → Prop where
  | idles {pc' : HeartbeatPc} (hpc' : pc' = .sleeping ∨ pc' = .exited) : HeartbeatMove ctx .top ctx pc'
  | sleeps : HeartbeatMove ctx .sleeping ctx .top
  | begins (now : ℤ) : HeartbeatMove ctx .sleeping ctx (.checking now 0)
  | closes {now : ℤ} {i : ℕ} (hevicts : Evicts ctx now i) :
      HeartbeatMove ctx (.checking now i) (ctx.close (ctx.devices.slot i).fd) (.evicting now i)
  | advances {now : ℤ} {i : ℕ} (late : Bool) (hi : i < ctx.devices.deviceCount)
      (hstays : ¬ Evicts ctx now i) :
      HeartbeatMove ctx (.checking now i)
        (ctx.write i fun dev => { dev with lastSeq := (ctx.devices.slot i).lastSeq + 1 })
        (.pinging now i ((ctx.devices.slot i).lastSeq + 1) late)
  | clears {now : ℤ} {i : ℕ} (hi : i < ctx.devices.deviceCount) (hstays : ¬ Evicts ctx now i) :
      HeartbeatMove ctx (.checking now i) (ctx.write i fun dev => { dev with heartbeatFail := 0 })
        (.checking now (i + 1))
  | ends {now : ℤ} {i : ℕ} (hi : ctx.devices.deviceCount ≤ i) :
      HeartbeatMove ctx (.checking now i) ctx .top
  | deletes (now : ℤ) (i : ℕ) :
      HeartbeatMove ctx (.evicting now i) { ctx with devices := ctx.devices.removeSlot i }
        (.checking now i)
  | sends (now : ℤ) (i : ℕ) (seq : UInt16) (late : Bool) :
      HeartbeatMove ctx (.pinging now i seq late)
        (ctx.send (ctx.devices.slot i).fd ⟨cmdPing, flagHeartbeat, seq, [], 0⟩) (.pinged now i late)
  | counts (now : ℤ) (i : ℕ) :
      HeartbeatMove ctx (.pinged now i true)
        (ctx.write i fun dev => { dev with heartbeatFail := dev.heartbeatFail + 1 })
        (.checking now (i + 1))
  | passes (now : ℤ) (i : ℕ) : HeartbeatMove ctx (.pinged now i false) ctx (.checking now (i + 1))

theorem heartbeatCheck_move {ctx ctx' : GatewayCtx} {now : ℤ} {i : ℕ} {pc' : HeartbeatPc}
    (h : heartbeatCheck ctx now i = (ctx', pc')) : HeartbeatMove ctx (.checking now i) ctx' pc' := by
  simp only [heartbeatCheck] at h
  split_ifs at h with hi hlate hfail hidle
  · obtain ⟨rfl, rfl⟩ := Prod.mk.inj h
    exact .closes ⟨hi, hlate, hfail⟩
  · obtain ⟨rfl, rfl⟩ := Prod.mk.inj h
    exact .advances true hi fun hevicts => hfail hevicts.2.2
  · obtain ⟨rfl, rfl⟩ := Prod.mk.inj h
    exact .advances false hi fun hevicts => hlate hevicts.2.1
  · obtain ⟨rfl, rfl⟩ := Prod.mk.inj h
    exact .clears hi fun hevicts => hlate hevicts.2.1
  · obtain ⟨rfl, rfl⟩ := Prod.mk.inj h
    exact .ends (not_lt.mp hi)

theorem heartbeatStep_move {ctx ctx' : GatewayCtx} {locked : Bool} {h h' : HeartbeatThread} {time : ℤ}
    (hs : heartbeatStep ctx locked h time = some (ctx', h')) : HeartbeatMove ctx h.pc ctx' h'.pc := by
  unfold heartbeatStep at hs
  cases hpc : h.pc with
  | top =>
    simp only [hpc, Option.some.injEq, Prod.mk.injEq] at hs
    obtain ⟨rfl, rfl⟩ := hs
    dsimp only
    split_ifs
    · exact .idles (.inl rfl)
    · exact .idles (.inr rfl)
  | sleeping =>
    simp only [hpc] at hs
    split_ifs at hs
    · obtain ⟨rfl, rfl⟩ := Prod.mk.inj (Option.some.inj hs)
      exact .sleeps
    · obtain ⟨rfl, rfl⟩ := Prod.mk.inj (Option.some.inj hs)
      exact .begins time
  | checking now i =>
    simp only [hpc, Option.some.injEq, Prod.mk.injEq] at hs
    obtain ⟨rfl, rfl⟩ := hs
    exact heartbeatCheck_move rfl
  | evicting now i =>
    simp only [hpc, Option.some.injEq, Prod.mk.injEq] at hs
    obtain ⟨rfl, rfl⟩ := hs
    exact .deletes now i
  | pinging now i seq late =>
    simp only [hpc, Option.some.injEq, Prod.mk.injEq] at hs
    obtain ⟨rfl, rfl⟩ := hs
    exact .sends now i seq late
  | pinged now i late =>
    simp only [hpc] at hs
    split_ifs at hs with hlocked hlate
    · subst hlate
      obtain ⟨rfl, rfl⟩ := Prod.mk.inj (Option.some.inj hs)
      exact .counts now i
    · obtain rfl := Bool.eq_false_iff.mpr hlate
      obtain ⟨rfl, rfl⟩ := Prod.mk.inj (Option.some.inj hs)
      exact .passes now i
  | exited => simp [hpc] at hs

/-- The heartbeat thread closes the descriptor of a device that it evicts, then
    deletes the record, or does neither. -/
inductive HeartbeatEffect (ctx : GatewayCtx) :
    HeartbeatPc → GatewayCtx → HeartbeatPc → Prop where
  | closes {now : ℤ} {i : ℕ} (hevicts : Evicts ctx now i) :
      HeartbeatEffect ctx (.checking now i) (ctx.close (ctx.devices.slot i).fd) (.evicting now i)
  | removes (now : ℤ) (i : ℕ) :
      HeartbeatEffect ctx (.evicting now i) { ctx with devices := ctx.devices.removeSlot i }
        (.checking now i)
  | quiet {pc pc' : HeartbeatPc} {ctx' : GatewayCtx} (hquiet : Quiet ctx ctx')
      (hpc' : ∀ now i, pc' ≠ .evicting now i)
      (hstays : ∀ now i, pc = .checking now i → ¬ Evicts ctx now i) : HeartbeatEffect ctx pc ctx' pc'

theorem HeartbeatMove.effect {ctx ctx' : GatewayCtx} {pc pc' : HeartbeatPc}
    (h : HeartbeatMove ctx pc ctx' pc') : HeartbeatEffect ctx pc ctx' pc' := by
  cases h with
  | closes hevicts => exact .closes hevicts
  | deletes now i => exact .removes now i
  | idles hpc' =>
    refine .quiet (.refl ctx) ?_ nofun
    rintro now i rfl
    rcases hpc' with hpc' | hpc' <;> cases hpc'
  | sleeps => exact .quiet (.refl ctx) nofun nofun
  | begins now => exact .quiet (.refl ctx) nofun nofun
  | advances late hi hstays =>
    refine .quiet (quiet_modifySlot ctx _ fun _ => rfl) nofun ?_
    rintro _ _ ⟨⟩
    exact hstays
  | clears hi hstays =>
    refine .quiet (quiet_modifySlot ctx _ fun _ => rfl) nofun ?_
    rintro _ _ ⟨⟩
    exact hstays
  | ends hi =>
    refine .quiet (.refl ctx) nofun ?_
    rintro _ _ ⟨⟩ hevicts
    exact absurd hevicts.1 (not_lt.mpr hi)
  | sends now i seq late => exact .quiet (quiet_send ctx _ _) nofun nofun
  | counts now i => exact .quiet (quiet_modifySlot ctx i fun _ => rfl) nofun nofun
  | passes now i => exact .quiet (.refl ctx) nofun nofun

/-! ## `gateway_stop` -/

/-- `gateway_stop` closes the descriptors of the table one by one, then empties
    the table. -/
inductive StopEffect (ctx : GatewayCtx) : StopPc → GatewayCtx → StopPc → Prop where
  | closes {i : ℕ} (hi : i < ctx.devices.deviceCount) (hpos : 0 < (ctx.devices.slot i).fd) :
      StopEffect ctx (.closing i) (ctx.close (ctx.devices.slot i).fd) (.closing (i + 1))
  | clears {i : ℕ} (hi : ctx.devices.deviceCount ≤ i) :
      StopEffect ctx (.closing i) { ctx with devices := ctx.devices.clear } .done
  | quiet {pc pc' : StopPc} {ctx' : GatewayCtx} (hquiet : Quiet ctx ctx')
      (hpc : ∀ i, pc = .closing i →
        i < ctx.devices.deviceCount ∧ ¬ 0 < (ctx.devices.slot i).fd) : StopEffect ctx pc ctx' pc'

theorem stopStep_effect {ctx ctx' : GatewayCtx} {accept : AcceptPc} {heartbeat : HeartbeatThread}
    {pc pc' : StopPc} (h : stopStep ctx accept heartbeat pc = some (ctx', pc')) :
    StopEffect ctx pc ctx' pc' := by
  cases pc with
  | notCalled =>
    simp only [stopStep, Option.some.injEq, Prod.mk.injEq] at h
    obtain ⟨rfl, rfl⟩ := h
    exact .quiet ⟨rfl, rfl, .refl _⟩ nofun
  | joinAccept =>
    simp only [stopStep] at h
    split at h
    · obtain ⟨rfl, rfl⟩ := Prod.mk.inj (Option.some.inj h)
      exact .quiet (.refl ctx) nofun
    · cases h
  | joinHeartbeat =>
    simp only [stopStep] at h
    split at h
    · obtain ⟨rfl, rfl⟩ := Prod.mk.inj (Option.some.inj h)
      exact .quiet (.refl ctx) nofun
    · cases h
  | closing i =>
    simp only [stopStep] at h
    split_ifs at h with hi hpos
    · obtain ⟨rfl, rfl⟩ := Prod.mk.inj (Option.some.inj h)
      exact .closes hi hpos
    · obtain ⟨rfl, rfl⟩ := Prod.mk.inj (Option.some.inj h)
      refine .quiet (.refl ctx) ?_
      rintro _ ⟨⟩
      exact ⟨hi, hpos⟩
    · obtain ⟨rfl, rfl⟩ := Prod.mk.inj (Option.some.inj h)
      exact .clears (by omega)
  | done => simp [stopStep] at h

/-! ## The system -/

/-- Which thread makes the step, and what it does. -/
inductive StepEffect (s : Threads) : Action → Threads → Prop where
  | spawn (fd conn : ℕ) (haccept : s.accept = .added fd conn) :
      StepEffect s (.accept .spawn)
        { s with accept := .top, workers := s.workers ++ [⟨fd, conn, .queued⟩] }
  | accept (a : AcceptAction) (ctx : GatewayCtx) (pc : AcceptPc)
      (h : AcceptEffect s.ctx s.locked s.accept ctx pc) :
      StepEffect s (.accept a) { s with ctx := ctx, accept := pc }
  | heartbeat (time : ℤ) (ctx : GatewayCtx) (thread : HeartbeatThread)
      (h : HeartbeatEffect s.ctx s.heartbeat.pc ctx thread.pc) :
      StepEffect s (.heartbeat time) { s with ctx := ctx, heartbeat := thread }
  | stop (ctx : GatewayCtx) (pc : StopPc) (h : StopEffect s.ctx s.stop ctx pc) :
      StepEffect s .stop { s with ctx := ctx, stop := pc }
  | command (a : Action) (ctx : GatewayCtx) (ha : a = .quit ∨ a = .restartLed) (h : Quiet s.ctx ctx) :
      StepEffect s a { s with ctx := ctx }
  | worker (k : ℕ) (w : Worker) (a : WorkerAction) (ctx : GatewayCtx) (pc : WorkerPc)
      (hw : s.workers[k]? = some w) (h : WorkerEffect s.ctx s.locked w.fd w.pc a ctx pc) :
      StepEffect s (.worker k a) { s with ctx := ctx, workers := s.workers.set k { w with pc := pc } }

theorem Threads.step_effect {s s' : Threads} {a : Action} (h : s.step a = some s') :
    StepEffect s a s' := by
  cases a with
  | accept a =>
    have haccept : ∀ {a}, (acceptStep s.ctx s.locked s.accept a).map (fun next =>
        { s with ctx := next.1, accept := next.2 }) = some s' → StepEffect s (.accept a) s' := by
      intro a h
      obtain ⟨⟨ctx, pc⟩, hstep, rfl⟩ := Option.map_eq_some_iff.mp h
      exact .accept a ctx pc (acceptStep_effect hstep)
    cases a with
    | spawn =>
      simp only [Threads.step] at h
      cases hpc : s.accept with
      | added fd conn =>
        simp only [hpc, Option.some.injEq] at h
        subst h
        exact .spawn fd conn hpc
      | _ => simp [hpc] at h
    | _ => exact haccept h
  | heartbeat time =>
    obtain ⟨⟨ctx, thread⟩, hstep, rfl⟩ := Option.map_eq_some_iff.mp h
    exact .heartbeat time ctx thread (heartbeatStep_move hstep).effect
  | stop =>
    obtain ⟨⟨ctx, pc⟩, hstep, rfl⟩ := Option.map_eq_some_iff.mp h
    exact .stop ctx pc (stopStep_effect hstep)
  | quit =>
    simp only [Threads.step, Option.some.injEq] at h
    subst h
    exact .command .quit _ (Or.inl rfl) ⟨rfl, rfl, .refl _⟩
  | restartLed =>
    simp only [Threads.step] at h
    split_ifs at h
    cases h
    exact .command .restartLed _ (Or.inr rfl) ⟨rfl, rfl, .refl _⟩
  | worker k a =>
    simp only [Threads.step] at h
    cases hw : s.workers[k]? with
    | none => simp [hw] at h
    | some w =>
      simp only [hw] at h
      obtain ⟨⟨ctx, pc⟩, hstep, rfl⟩ := Option.map_eq_some_iff.mp h
      exact .worker k w a ctx pc hw (workerStep_effect hstep)

/-- A step of a worker. -/
theorem Threads.worker_step_iff {s s' : Threads} {k : ℕ} {a : WorkerAction} :
    s.step (.worker k a) = some s' ↔
      ∃ w ctx pc, s.workers[k]? = some w ∧ workerStep s.ctx s.locked w.fd w.pc a = some (ctx, pc) ∧
        s' = { s with ctx := ctx, workers := s.workers.set k { w with pc := pc } } := by
  simp only [Threads.step]
  cases hw : s.workers[k]? with
  | none => simp
  | some w =>
    simp only [Option.map_eq_some_iff, Option.some.injEq]
    constructor
    · rintro ⟨⟨ctx, pc⟩, hstep, rfl⟩
      exact ⟨w, ctx, pc, rfl, hstep, rfl⟩
    · rintro ⟨w, ctx, pc, rfl, hstep, rfl⟩
      exact ⟨(ctx, pc), hstep, rfl⟩

/-- A step that is not one of the worker `k` leaves it where it is, or starts it. -/
theorem Threads.worker_of_step {s s' : Threads} {a : Action} {k : ℕ} (h : s.step a = some s')
    (hne : ∀ b, a ≠ .worker k b) :
    s'.workers[k]? = s.workers[k]? ∨
      s.workers[k]? = none ∧ ∃ fd conn, s'.workers[k]? = some ⟨fd, conn, .queued⟩ := by
  cases Threads.step_effect h with
  | spawn fd conn haccept =>
    rcases lt_trichotomy k s.workers.length with hlt | rfl | hgt
    · exact Or.inl (List.getElem?_append_left hlt)
    · exact Or.inr ⟨List.getElem?_eq_none le_rfl, fd, conn, by simp⟩
    · refine Or.inl ?_
      rw [List.getElem?_eq_none hgt.le, List.getElem?_eq_none (by simpa using hgt)]
  | accept => exact Or.inl rfl
  | heartbeat => exact Or.inl rfl
  | stop => exact Or.inl rfl
  | command => exact Or.inl rfl
  | worker k' w b ctx pc hw heffect =>
    refine Or.inl (List.getElem?_set_ne ?_)
    rintro rfl
    exact hne b rfl

end LinuxFileManager.Gateway
