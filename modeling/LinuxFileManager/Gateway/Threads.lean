import LinuxFileManager.Gateway.Dispatch
import LinuxFileManager.Lib.System

/-!
# The threads of the gateway

The accept thread, the heartbeat thread, the thread that calls `gateway_stop`,
the interactive commands, and any number of client workers, as one transition
system (`src/gateway.c` lines 246–283, 351–457, 472–559, 562–643). A step is a
critical section of `devices_mutex`, a system call, or a stretch of code that
touches nothing shared. The heartbeat thread and `gateway_stop` hold the mutex
over several steps (`Threads.locked`).

The kernel is the map `openFds` from descriptors to the connections they stand
for; `accept` returns any descriptor that is not open. Connections are numbered
in the order in which they are accepted. These numbers are ghosts: no step
depends on them.

What `recv` returns is up to the peer, so a worker may get any list of messages
(`Gateway.Receive` says which list belongs to a stream).
-/

namespace LinuxFileManager.Gateway

open Lib Protocol

/-! ## Shared state -/

/-- `GATEWAY_HEARTBEAT_INTERVAL_S`. -/
def gatewayHeartbeatIntervalS : ℤ := 10

/-- `GATEWAY_HEARTBEAT_TIMEOUT_S`. -/
def gatewayHeartbeatTimeoutS : ℤ := 30

/-- What the threads share: fields of `GatewayCtx`, the descriptors of the
    process that stand for connections, and the frames sent so far with the
    descriptor that each was sent on. -/
structure GatewayCtx where
  running : Bool
  /-- `listen_fd` is open. -/
  listening : Bool
  devices : DeviceTable
  openFds : ℕ → Option ℕ
  nextConn : ℕ
  wire : List (ℕ × ProtoMessage)

namespace GatewayCtx

/-- After `gateway_init`, with `running` set by `gateway_run_interactive`. -/
def init : GatewayCtx := ⟨true, true, .empty, fun _ => none, 0, []⟩

/-- `shutdown(fd, SHUT_RDWR); close(fd);` -/
def close (ctx : GatewayCtx) (fd : ℕ) : GatewayCtx :=
  { ctx with openFds := Function.update ctx.openFds fd none }

/-- `send_frame_raw` on the descriptor `fd`. -/
def send (ctx : GatewayCtx) (fd : ℕ) (msg : ProtoMessage) : GatewayCtx :=
  { ctx with wire := ctx.wire ++ [(fd, msg)] }

end GatewayCtx

/-! ## The accept thread -/

/-- Where `accept_thread_func` stands. -/
inductive AcceptPc where
  /-- At `while (ctx->running)`. -/
  | top
  /-- In `select` or `accept`. -/
  | waiting
  | accepted (fd conn : ℕ) (ip : String) (port : ℕ)
  /-- `add_device` has succeeded, the worker is not started yet. -/
  | added (fd conn : ℕ)
  /-- `add_device` has failed. -/
  | refused (fd conn : ℕ)
  | exited

inductive AcceptAction where
  | check
  /-- `select` times out or is interrupted, or `accept` fails. -/
  | nothing
  /-- `select` fails, or the gateway is stopping. -/
  | leave
  | accept (fd : ℕ) (ip : String) (port : ℕ)
  | add (now : ℤ)
  | refuse
  /-- `threadPoolAdd` or `pthread_create`. -/
  | spawn

/-- `accept_thread_func` (lines 351–409), all but the start of the worker. -/
def acceptStep (ctx : GatewayCtx) (locked : Bool) :
    AcceptPc → AcceptAction → Option (GatewayCtx × AcceptPc)
  | .top, .check => some (ctx, if ctx.running then .waiting else .exited)
  | .waiting, .nothing => some (ctx, .top)
  | .waiting, .leave => some (ctx, .exited)
  | .waiting, .accept fd ip port =>
    if ctx.listening && (ctx.openFds fd).isNone then
      some ({ ctx with
        openFds := Function.update ctx.openFds fd (some ctx.nextConn)
        nextConn := ctx.nextConn + 1 }, .accepted fd ctx.nextConn ip port)
    else none
  | .accepted fd conn ip port, .add now =>
    if locked then none
    else
      match ctx.devices.addDevice fd ip port now conn with
      | some devices => some ({ ctx with devices := devices }, .added fd conn)
      | none => some (ctx, .refused fd conn)
  | .refused fd _, .refuse => some (ctx.close fd, .top)
  | _, _ => none

/-! ## The heartbeat thread -/

/-- Where `heartbeat_thread_func` stands; `now` and `i` are its locals. -/
inductive HeartbeatPc where
  /-- At `while (ctx->running)`. -/
  | top
  | sleeping
  /-- At the head of the `for` loop, with the mutex. -/
  | checking (now : ℤ) (i : ℕ)
  /-- Behind `close(dev->fd)`, with the mutex. -/
  | evicting (now : ℤ) (i : ℕ)
  /-- Before `send_frame_raw`, without the mutex; `late` in the branch that
      counts a failure. -/
  | pinging (now : ℤ) (i : ℕ) (seq : UInt16) (late : Bool)
  /-- Behind `send_frame_raw`, without the mutex. -/
  | pinged (now : ℤ) (i : ℕ) (late : Bool)
  | exited

structure HeartbeatThread where
  lastCheck : ℤ
  pc : HeartbeatPc

/-- The mutex is held by the heartbeat thread. -/
def HeartbeatThread.locks (h : HeartbeatThread) : Bool :=
  match h.pc with
  | .checking _ _ | .evicting _ _ => true
  | _ => false

/-- One pass of the loop over the devices, up to the `send` or the `close` in
    it (lines 423–453). -/
def heartbeatCheck (ctx : GatewayCtx) (now : ℤ) (i : ℕ) : GatewayCtx × HeartbeatPc :=
  if i < ctx.devices.deviceCount then
    let dev := ctx.devices.slot i
    let idle := now - dev.lastActiveTime
    let seq := dev.lastSeq + 1
    let counted := { ctx with devices := ctx.devices.modifySlot i fun dev => { dev with lastSeq := seq } }
    if idle > gatewayHeartbeatTimeoutS then
      if dev.heartbeatFail ≥ 3 then (ctx.close dev.fd, .evicting now i)
      else (counted, .pinging now i seq true)
    else if idle > gatewayHeartbeatIntervalS then (counted, .pinging now i seq false)
    else
      ({ ctx with devices := ctx.devices.modifySlot i fun dev => { dev with heartbeatFail := 0 } },
        .checking now (i + 1))
  else (ctx, .top)

/-- `heartbeat_thread_func` (lines 412–457); `time` is what `time(NULL)`
    returns when it is called. -/
def heartbeatStep (ctx : GatewayCtx) (locked : Bool) (h : HeartbeatThread) (time : ℤ) :
    Option (GatewayCtx × HeartbeatThread) :=
  match h.pc with
  | .top => some (ctx, { h with pc := if ctx.running then .sleeping else .exited })
  | .sleeping =>
    if time - h.lastCheck < gatewayHeartbeatIntervalS then some (ctx, { h with pc := .top })
    else if locked then none
    else some (ctx, ⟨time, .checking time 0⟩)
  | .checking now i =>
    let (ctx, pc) := heartbeatCheck ctx now i
    some (ctx, { h with pc := pc })
  | .evicting now i =>
    some ({ ctx with devices := ctx.devices.removeSlot i }, { h with pc := .checking now i })
  | .pinging now i seq late =>
    some (ctx.send (ctx.devices.slot i).fd ⟨cmdPing, flagHeartbeat, seq, [], 0⟩,
      { h with pc := .pinged now i late })
  | .pinged now i late =>
    if locked then none
    else if late then
      some ({ ctx with
        devices := ctx.devices.modifySlot i fun dev => { dev with heartbeatFail := dev.heartbeatFail + 1 } },
        { h with pc := .checking now (i + 1) })
    else some (ctx, { h with pc := .checking now (i + 1) })
  | .exited => none

/-! ## `gateway_stop` -/

/-- Where `gateway_stop` stands. -/
inductive StopPc where
  | notCalled
  | joinAccept
  | joinHeartbeat
  /-- In the loop that closes the connections, with the mutex. -/
  | closing (i : ℕ)
  | done

/-- The mutex is held by `gateway_stop`. -/
def StopPc.locks : StopPc → Bool
  | .closing _ => true
  | _ => false

/-- `gateway_stop` (lines 246–283). -/
def stopStep (ctx : GatewayCtx) (accept : AcceptPc) (heartbeat : HeartbeatThread) :
    StopPc → Option (GatewayCtx × StopPc)
  | .notCalled => some ({ ctx with running := false, listening := false }, .joinAccept)
  | .joinAccept =>
    match accept with
    | .exited => some (ctx, .joinHeartbeat)
    | _ => none
  | .joinHeartbeat =>
    match heartbeat.pc with
    | .exited => some (ctx, .closing 0)
    | _ => none
  | .closing i =>
    if i < ctx.devices.deviceCount then
      let fd := (ctx.devices.slot i).fd
      some (if 0 < fd then ctx.close fd else ctx, .closing (i + 1))
    else some ({ ctx with devices := ctx.devices.clear }, .done)
  | .done => none

/-! ## Client workers -/

/-- What a handler of the menu does with the record it was given. -/
inductive Access where
  | read
  | writeDevId
  | writeDevType
  | respond
  deriving DecidableEq

/-- The accesses of a handler, in their order (`src/menu.c` lines 29–87). -/
def MenuHandler.accesses : MenuHandler → List Access
  | .handleSensorData => [.read, .respond]
  | .handleRegister => [.read, .writeDevId, .writeDevType, .respond]
  | .handleGpioControl => [.read, .respond]

/-- An access through a pointer to slot `j`. -/
def GatewayCtx.access (ctx : GatewayCtx) (j : ℕ) (handler : MenuHandler) (msg : ProtoMessage) :
    Access → GatewayCtx
  | .read => ctx
  | .writeDevId => { ctx with devices := ctx.devices.modifySlot j (writeDevId msg) }
  | .writeDevType => { ctx with devices := ctx.devices.modifySlot j (writeDevType msg) }
  | .respond => ctx.send (ctx.devices.slot j).fd (handler.response msg.seq)

/-- Where `client_worker` stands; `j` is the slot that its pointer `dev` points
    to, `rest` are the parsed messages it has not dispatched yet. -/
inductive WorkerPc where
  /-- In the queue of the thread pool. -/
  | queued
  /-- At `while (ctx->running)`. -/
  | top
  | selecting
  | dispatching (rest : List ProtoMessage)
  /-- Behind `find_device_by_fd`. -/
  | found (j : ℕ) (msg : ProtoMessage) (rest : List ProtoMessage)
  /-- Behind `update_device_activity`. -/
  | updated (j : ℕ) (msg : ProtoMessage) (rest : List ProtoMessage)
  /-- In a handler that has the accesses `todo` before it. -/
  | handling (j : ℕ) (handler : MenuHandler) (todo : List Access) (msg : ProtoMessage)
      (rest : List ProtoMessage)
  /-- Before `remove_device`. -/
  | leaving
  /-- Before `shutdown` and `close`. -/
  | removed
  | closed
  deriving DecidableEq

/-- A client worker. The field `conn` is a ghost: the connection that the
    worker was started for. -/
structure Worker where
  fd : ℕ
  conn : ℕ
  pc : WorkerPc
  deriving DecidableEq

inductive WorkerAction where
  /-- The pool, or the new thread, starts to run the worker. -/
  | start
  | check
  /-- `select` times out or is interrupted. -/
  | notReady
  | selectError
  /-- `recv`: `none` is a result of `-1` or `0`, otherwise the messages that the
      block completes. -/
  | recv (msgs : Option (List ProtoMessage))
  /-- `find_device_by_fd` for the next message, or the end of the inner loop. -/
  | find
  | update (now : ℤ)
  /-- The reply, or the call of the handler; `payloadCopy` is not initialised. -/
  | act (payloadCopy : Buffer UInt8 protoMaxPayload)
  /-- The next access of the handler, or its return. -/
  | handle
  | remove
  | close

/-- `client_worker` (lines 472–559). -/
def workerStep (ctx : GatewayCtx) (locked : Bool) (fd : ℕ) :
    WorkerPc → WorkerAction → Option (GatewayCtx × WorkerPc)
  | .queued, .start => some (ctx, .top)
  | .top, .check => some (ctx, if ctx.running then .selecting else .leaving)
  | .selecting, .notReady => some (ctx, .top)
  | .selecting, .selectError => some (ctx, .leaving)
  | .selecting, .recv none => some (ctx, .leaving)
  | .selecting, .recv (some msgs) => some (ctx, .dispatching msgs)
  | .dispatching [], .find => some (ctx, .top)
  | .dispatching (msg :: rest), .find =>
    if locked then none
    else
      match ctx.devices.findSlot fd with
      | some j => some (ctx, .found j msg rest)
      | none => some (ctx, .dispatching rest)
  | .found j msg rest, .update now =>
    if locked then none
    else some ({ ctx with devices := ctx.devices.updateDeviceActivity fd now }, .updated j msg rest)
  | .updated j msg rest, .act payloadCopy =>
    match dispatchMessage menuHandlers payloadCopy true msg with
    | .noDevice => some (ctx, .dispatching rest)
    | .pong seq => some (ctx.send fd ⟨cmdPong, flagHeartbeat, seq, [], 0⟩, .dispatching rest)
    | .handled node msg _ => some (ctx, .handling j node.handler node.handler.accesses msg rest)
    | .noHandler seq => some (ctx.send fd ⟨cmdError, flagResponse, seq, [], 0⟩, .dispatching rest)
  | .handling j handler (access :: todo) msg rest, .handle =>
    some (ctx.access j handler msg access, .handling j handler todo msg rest)
  | .handling _ _ [] _ rest, .handle => some (ctx, .dispatching rest)
  | .leaving, .remove =>
    if locked then none else some ({ ctx with devices := ctx.devices.removeDevice fd }, .removed)
  | .removed, .close => some (ctx.close fd, .closed)
  | _, _ => none

/-! ## The system -/

/-- The threads and what they share. -/
structure Threads where
  ctx : GatewayCtx
  accept : AcceptPc
  heartbeat : HeartbeatThread
  stop : StopPc
  workers : List Worker

/-- Before the first step; `time` is the time when the heartbeat thread starts. -/
def Threads.start (time : ℤ) : Threads := ⟨.init, .top, ⟨time, .top⟩, .notCalled, []⟩

/-- `devices_mutex` is held across steps. -/
def Threads.locked (s : Threads) : Bool := s.heartbeat.locks || s.stop.locks

inductive Action where
  | accept (a : AcceptAction)
  | heartbeat (time : ℤ)
  | stop
  /-- The interactive command `q` clears `running`. -/
  | quit
  /-- The interactive command `r` (lines 621–634). -/
  | restartLed
  | worker (k : ℕ) (a : WorkerAction)

/-- The request that `r` sends to a device. -/
def restartLedFrame (dev : GatewayDevice) : ℕ × ProtoMessage :=
  (dev.fd, ⟨cmdGpioControl, flagRequest, dev.lastSeq + 1, [7, 1], 2⟩)

def Threads.step (s : Threads) : Action → Option Threads
  | .accept .spawn =>
    match s.accept with
    | .added fd conn => some { s with accept := .top, workers := s.workers ++ [⟨fd, conn, .queued⟩] }
    | _ => none
  | .accept a =>
    (acceptStep s.ctx s.locked s.accept a).map fun (ctx, pc) => { s with ctx := ctx, accept := pc }
  | .heartbeat time =>
    (heartbeatStep s.ctx s.locked s.heartbeat time).map fun (ctx, h) =>
      { s with ctx := ctx, heartbeat := h }
  | .stop =>
    (stopStep s.ctx s.accept s.heartbeat s.stop).map fun (ctx, pc) => { s with ctx := ctx, stop := pc }
  | .quit => some { s with ctx := { s.ctx with running := false } }
  | .restartLed =>
    if s.locked then none
    else
      some { s with ctx := { s.ctx with
        wire := s.ctx.wire ++ s.ctx.devices.live.map restartLedFrame } }
  | .worker k a =>
    match s.workers[k]? with
    | none => none
    | some w =>
      (workerStep s.ctx s.locked w.fd w.pc a).map fun (ctx, pc) =>
        { s with ctx := ctx, workers := s.workers.set k { w with pc := pc } }

/-! ## Parts of runs -/

/-- A client connects on `fd`, as the `k`-th one. -/
def connect (k fd : ℕ) : List Action :=
  [.accept .check, .accept (.accept fd "10.0.0.1" 4000), .accept (.add 0), .accept .spawn,
    .worker k .start, .worker k .check]

/-- The steps of a heartbeat check at `time`. -/
def checkAt (time : ℤ) (steps : ℕ) : List Action := List.replicate steps (.heartbeat time)

end LinuxFileManager.Gateway
