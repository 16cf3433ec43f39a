import LinuxFileManager.Client.Blocks
import LinuxFileManager.Client.Encoder
import LinuxFileManager.Client.Session
import LinuxFileManager.Gateway.Dispatch
import LinuxFileManager.Lib.Ascii
import LinuxFileManager.Lib.Fgets
import LinuxFileManager.Lib.System
import LinuxFileManager.Lib.Utf8

/-!
# The main loop of the client

Model of `main` of `test/client.c` (lines 222–374) with `send_frame` (lines
70–78) and the effects of `handle_server_data` (lines 118–172) on the state of
the program. A turn of the loop is driven by what the clock, `select`, `recv`
and the keyboard give it (`Turn`); what the stack holds and what `send` returns
are given by `SendCalls`. The lines typed are read with `fgets` from one text.

The fields `calls`, `blocks`, `typed` and `autoTimes` of the state are ghosts: the
calls of `send`, the blocks received, the lines read, and the times of the automatic
requests, in their order.

Results:

* `client_numbering`: in every run the requests carry the sequence numbers 1,
  2, ... modulo 65536, the PONGs answer the heartbeats found in the blocks one
  by one, and the two counters of the program count.
* `client_schedule`: in the automatic mode the requests after the registration
  go round GPIO, PING, sensor, at least three seconds apart.
* `client_typed`: otherwise they are what the lines typed ask for.
-/

namespace LinuxFileManager.Client

open Lib Protocol

/-! ## The command line -/

/-- What `main` takes from its arguments (lines 224–241). -/
structure Options where
  autoMode : Bool
  clientId : ℤ
  /-- The server and its port. -/
  posArgs : List Bytes

/-- The loop over `argv` (lines 228–236). -/
def parseArgs : List Bytes → Options → Options
  | [], opts => opts
  | arg :: rest, opts =>
    let positional :=
      if opts.posArgs.length < 2 then { opts with posArgs := opts.posArgs ++ [arg] } else opts
    if arg = bytes "-a" then parseArgs rest { opts with autoMode := true }
    else
      match rest with
      | [] => positional
      | next :: rest' =>
        if arg = bytes "-i" then parseArgs rest' { opts with clientId := atoi next }
        else parseArgs (next :: rest') positional

/-! ## The keyboard -/

deriving instance DecidableEq for Command

/-- What the first character of a line asks for (lines 339–367). -/
inductive Key where
  | empty
  | help
  | status
  | quit
  | request (cmd : Command)
  | verbose
  | unknown
  deriving DecidableEq

/-- `line[0]` after the newline has been cut off. -/
def keyOf : Bytes → Key
  | [] => .empty
  | c :: _ =>
    if c = 0 ∨ c = newline then .empty
    else if c = byte 'h' then .help
    else if c = byte 's' then .status
    else if c = byte 'q' then .quit
    else if c = byte 'r' then .request .register
    else if c = byte 'd' then .request .sensor
    else if c = byte 'g' then .request .gpio
    else if c = byte 'p' then .request .ping
    else if c = byte 'v' then .verbose
    else .unknown

def Key.request? : Key → Option Command
  | .request cmd => some cmd
  | _ => none

/-- The request that a line makes. -/
def requestOf (line : Bytes) : Option Command := (keyOf line).request?

/-- `sizeof(line)`. -/
def lineSize : ℕ := 256

/-! ## The state -/

/-- For the `k`-th call of `send`: what the stack holds when `frame` comes to
    life, and what `send` returns. -/
structure SendCalls where
  frame : ℕ → Buffer UInt8 frameSize
  result : ℕ → ℤ

/-- A call of `send`. -/
structure Sent where
  /-- The request that the frame makes; `none` for the answer to a PING. -/
  request : Option Command
  msg : ProtoMessage
  /-- What `build_frame` has written, `none` if that did not fit the object. -/
  bytes : Option (List UInt8)
  result : ℤ

/-- The bytes that `send` has taken. -/
def Sent.taken (s : Sent) : List UInt8 := (s.bytes.getD []).take s.result.toNat

structure ClientMain where
  client : ClientState
  autoMode : Bool
  verbose : Bool
  sentCount : ℕ
  recvCount : ℕ
  connectTime : ℤ
  lastRecv : ℤ
  lastAutoSend : ℤ
  /-- `counter` (line 287). -/
  counter : ℕ
  stdin : Bytes
  running : Bool
  calls : List Sent
  blocks : List (List UInt8)
  typed : List Bytes
  autoTimes : List ℤ

namespace ClientMain

/-- The bytes that the client has put on the wire. -/
def wire (c : ClientMain) : List UInt8 := c.calls.flatMap Sent.taken

/-- The calls that made a request, in their order. -/
def requests (c : ClientMain) : List (Command × ProtoMessage) :=
  c.calls.filterMap fun s => s.request.map (·, s.msg)

/-- The answers to PINGs, in their order. -/
def pongs (c : ClientMain) : List ProtoMessage :=
  c.calls.filterMap fun s => if s.request.isNone then some s.msg else none

/-! ## Sending -/

/-- `payload` of `send_frame`: the requests without a payload pass `NULL`. -/
def payloadArg (msg : ProtoMessage) : Option (List UInt8) :=
  if msg.payloadLen = 0 then none else some msg.payload

variable (env : SendCalls)

/-- The next call of `send`, with the frame for `msg`. -/
def sentNext (c : ClientMain) (request : Option Command) (msg : ProtoMessage) : Sent where
  request := request
  msg := msg
  bytes := sendFrame (env.frame c.calls.length) msg.cmd msg.flags msg.seq (payloadArg msg) msg.payloadLen
  result := env.result c.calls.length

/-- `send_frame` (`test/client.c` lines 70–78). -/
def send (c : ClientMain) (request : Option Command) (msg : ProtoMessage) : ClientMain :=
  let sent := c.sentNext env request msg
  { c with
    sentCount := if 0 < sent.result then c.sentCount + 1 else c.sentCount
    calls := c.calls ++ [sent] }

/-- `do_register`, `do_sensor`, `do_gpio` or `do_ping`. -/
def request (c : ClientMain) (cmd : Command) : ClientMain :=
  let (client, msg) := cmd.run c.client
  { c with client := client }.send env (some cmd) msg

/-- The automatic request at the head of a turn (lines 282–292). -/
def autoSend (c : ClientMain) (now : ℤ) : ClientMain :=
  if c.autoMode && decide (3 ≤ now - c.lastAutoSend) then
    let counter := (c.counter + 1) % 3
    { c with lastAutoSend := now, counter := counter, autoTimes := c.autoTimes ++ [now] }.request env
      (if counter = 0 then .sensor else if counter = 1 then .gpio else .ping)
  else c

/-! ## Receiving -/

/-- What `handle_server_data` does with a frame it has found. -/
def handleFrame (c : ClientMain) (msg : ProtoMessage) : ClientMain :=
  let c := match handleServerData msg with
    | some pong => c.send env none pong
    | none => c
  { c with recvCount := c.recvCount + 1 }

/-- The code behind a successful `recv` (lines 322–326). -/
def receive (c : ClientMain) (buf : List UInt8) (now : ℤ) : ClientMain :=
  ((handleServerDataLoop buf buf.length 0).map Prod.snd).foldl (handleFrame env)
    { c with lastRecv := now, blocks := c.blocks ++ [buf] }

/-! ## A turn of the loop -/

def leave (c : ClientMain) : ClientMain := { c with running := false }

/-- The `switch` (lines 344–367). -/
def switch (c : ClientMain) : Key → ClientMain
  | .quit => c.leave
  | .request cmd => c.request env cmd
  | .verbose => { c with verbose := !c.verbose }
  | .empty | .help | .status | .unknown => c

/-- Lines 334–370; `keyboard` says whether `select` has reported the keyboard. -/
def onKeyboard (c : ClientMain) (keyboard : Bool) : ClientMain :=
  if !c.autoMode && keyboard then
    match fgets newline (lineSize - 1) c.stdin with
    | none => c.leave
    | some (line, rest) => { c with stdin := rest, typed := c.typed ++ [line] }.switch env (keyOf line)
  else c

/-- What `recv` returns. -/
inductive RecvResult where
  | block (buf : List UInt8) (hpos : buf ≠ []) (hle : buf.length ≤ recvMax) (now : ℤ)
  | closed
  /-- `-1` with `EINTR`. -/
  | interrupted
  | failed

/-- What `select` returns, and for a socket that is ready what `recv` does. -/
inductive SelectResult where
  | failed
  /-- `-1` with `EINTR`. -/
  | interrupted
  | timeout
  | ready (socket : Option RecvResult) (keyboard : Bool)

/-- What a turn of `while (running)` meets; `now` is the clock at its head. -/
structure Turn where
  now : ℤ
  selected : SelectResult

/-- One turn of `while (running)` (lines 277–371). -/
def turn (c : ClientMain) (t : Turn) : ClientMain :=
  let c := c.autoSend env t.now
  match t.selected with
  | .failed => c.leave
  | .interrupted | .timeout => c
  | .ready none keyboard => c.onKeyboard env keyboard
  | .ready (some (.block buf _ _ now)) keyboard => (c.receive env buf now).onKeyboard env keyboard
  | .ready (some .interrupted) _ => c
  | .ready (some .closed) _ | .ready (some .failed) _ => c.leave

def step (c : ClientMain) (t : Turn) : Option ClientMain :=
  if c.running then some (c.turn env t) else none

/-- The program in front of its loop (lines 224–276), connected at `connectTime`
    and registered; `autoTime` is the clock after that. -/
def start (args : List Bytes) (connectTime autoTime : ℤ) (stdin : Bytes) : ClientMain :=
  let opts := parseArgs args ⟨false, 0, []⟩
  { client := ⟨opts.clientId, 1⟩
    autoMode := opts.autoMode
    verbose := false
    sentCount := 0
    recvCount := 0
    connectTime := connectTime
    lastRecv := connectTime
    lastAutoSend := autoTime
    counter := 0
    stdin := stdin
    running := true
    calls := []
    blocks := []
    typed := []
    autoTimes := [] : ClientMain }.request env .register

end ClientMain

/-! ## The frames of the client -/

theorem size_repr_le {n k : ℕ} (hk : 0 < k) (h : n < 10 ^ k) : (Nat.repr n).utf8ByteSize ≤ k := by
  have hascii : ∀ cs : List Char, (∀ c ∈ cs, c.isDigit = true) → String.utf8Len cs = cs.length := by
    intro cs hcs
    induction cs with
    | nil => rfl
    | cons c cs ih =>
      obtain ⟨hc, hcs⟩ := List.forall_mem_cons.mp hcs
      have hsize : c.utf8Size = 1 := by
        rw [Char.utf8Size_eq_one_iff, UInt32.le_iff_toNat_le]
        have := (isDigit_bounds hc).2
        exact this.trans (by decide)
      rw [String.utf8Len_cons, ih hcs, hsize, List.length_cons]
  rw [Nat.repr_eq_ofList_toDigits, String.utf8ByteSize_ofList, hascii _ isDigit_toDigits_ten]
  exact Nat.toDigits_length 10 n k hk h

/-- The name with which the client registers fits `id_buf`. -/
theorem size_registerId {id : ℤ} (h : IsInt id) :
    0 < (registerId id).utf8ByteSize ∧ (registerId id).utf8ByteSize ≤ 18 := by
  have hfront : "CLIENT-".utf8ByteSize = 7 := rfl
  have hzero : "0".utf8ByteSize = 1 := rfl
  have hempty : "".utf8ByteSize = 0 := rfl
  by_cases hpos : 0 < id
  · obtain ⟨n, rfl⟩ := Int.eq_ofNat_of_zero_le hpos.le
    have hsize : (toString (n : ℤ)).utf8ByteSize ≤ 10 := size_repr_le (by decide) (by
      have := h.2
      omega)
    rw [registerId, if_pos hpos, String.utf8ByteSize_append, String.utf8ByteSize_append]
    constructor <;> split_ifs <;> omega
  · rw [registerId, if_neg hpos]
    decide

theorem encodable_run {c : ClientState} (h : IsInt c.clientId) (cmd : Command) :
    Gateway.Encodable (cmd.run c).2 := by
  cases cmd with
  | register =>
    have hlen : (registerId c.clientId).toUTF8.toList.length ≤ 18 :=
      (length_toList _).trans_le (size_registerId h).2
    refine ⟨?_, hlen.trans (by decide)⟩
    show (registerId c.clientId).toUTF8.toList.length =
      (UInt16.ofNat (registerId c.clientId).toUTF8.toList.length).toNat
    rw [UInt16.toNat_ofNat']
    omega
  | sensor => exact ⟨rfl, show 4 ≤ 512 by decide⟩
  | gpio => exact ⟨rfl, show 2 ≤ 512 by decide⟩
  | ping => exact ⟨rfl, show 0 ≤ 512 by decide⟩

theorem encodable_pong {msg pong : ProtoMessage} (h : handleServerData msg = some pong) :
    Gateway.Encodable pong ∧ Gateway.isHeartbeat pong = true := by
  unfold handleServerData at h
  split_ifs at h
  cases h
  refine ⟨⟨rfl, Nat.zero_le _⟩, ?_⟩
  show (cmdPing == cmdPing && flagHeartbeat &&& flagHeartbeat != 0) = true
  decide

/-- What `do_register` and the other three send with the sequence number `n`. -/
def requestMessage (id : ℤ) (n : ℕ) (cmd : Command) : ProtoMessage := (cmd.run ⟨id, UInt16.ofNat n⟩).2

namespace ClientMain

variable {env : SendCalls} {c : ClientMain}

theorem payloadArg_spec {msg : ProtoMessage} (h : msg.Sized) :
    PayloadArg (payloadArg msg) msg.payloadLen msg.payload := by
  unfold payloadArg
  split_ifs with hzero
  · refine Or.inr ⟨rfl, hzero, List.eq_nil_of_length_eq_zero ?_⟩
    rw [h, hzero]
    rfl
  · exact Or.inl ⟨_, rfl, h.ge, by rw [← h, List.take_length]⟩

/-! ## Operations on the state -/

theorem request_eq (env : SendCalls) (c : ClientMain) (cmd : Command) :
    c.request env cmd =
      { c with client := { c.client with nextSeq := c.client.nextSeq + 1 } }.send env (some cmd)
        (cmd.run c.client).2 := by
  cases cmd <;> rfl

theorem requests_request (env : SendCalls) (c : ClientMain) (cmd : Command) :
    (c.request env cmd).requests = c.requests ++ [(cmd, (cmd.run c.client).2)] := by
  rw [request_eq]
  simp [requests, send, sentNext]

theorem requests_pong (env : SendCalls) (c : ClientMain) (msg : ProtoMessage) :
    (c.send env none msg).requests = c.requests := by
  simp [requests, send, sentNext]

/-- What a frame of the server changes. -/
theorem handleFrame_eq (env : SendCalls) (c : ClientMain) (msg : ProtoMessage) :
    ∃ calls n, c.handleFrame env msg = { c with
        calls := c.calls ++ calls
        sentCount := n
        recvCount := c.recvCount + 1 } ∧
      (∀ s ∈ calls, s.request = none) ∧ calls.map Sent.msg = (handleServerData msg).toList := by
  unfold handleFrame
  cases handleServerData msg with
  | none => exact ⟨[], c.sentCount, by simp, by simp, rfl⟩
  | some pong => exact ⟨[c.sentNext env none pong], _, rfl, by simp [sentNext], rfl⟩

/-- What the frames of a block change. -/
theorem handleFrames_eq (env : SendCalls) (c : ClientMain) (msgs : List ProtoMessage) :
    ∃ calls n, msgs.foldl (handleFrame env) c = { c with
        calls := c.calls ++ calls
        sentCount := n
        recvCount := c.recvCount + msgs.length } ∧
      (∀ s ∈ calls, s.request = none) ∧ calls.map Sent.msg = msgs.filterMap handleServerData := by
  induction msgs generalizing c with
  | nil => exact ⟨[], c.sentCount, by simp, by simp, rfl⟩
  | cons msg msgs ih =>
    obtain ⟨first, n, hfirst, hnone, hmsg⟩ := handleFrame_eq env c msg
    obtain ⟨calls, n', heq, hnone', hmsgs⟩ := ih (c.handleFrame env msg)
    refine ⟨first ++ calls, n', ?_, ?_, ?_⟩
    · rw [List.foldl_cons, heq, hfirst]
      simp only [List.append_assoc, List.length_cons, Nat.add_assoc, Nat.add_comm 1]
    · exact List.forall_mem_append.mpr ⟨hnone, hnone'⟩
    · rw [List.map_append, hmsg, hmsgs, List.filterMap_cons]
      cases handleServerData msg <;> rfl

/-- What a block of the server changes. -/
theorem receive_eq (env : SendCalls) (c : ClientMain) (buf : List UInt8) (now : ℤ) :
    ∃ calls n, c.receive env buf now = { c with
        lastRecv := now
        blocks := c.blocks ++ [buf]
        calls := c.calls ++ calls
        sentCount := n
        recvCount := c.recvCount + (handleServerDataLoop buf buf.length 0).length } ∧
      (∀ s ∈ calls, s.request = none) ∧
      calls.map Sent.msg =
        ((handleServerDataLoop buf buf.length 0).map Prod.snd).filterMap handleServerData := by
  obtain ⟨calls, n, heq, hspec⟩ :=
    handleFrames_eq env { c with lastRecv := now, blocks := c.blocks ++ [buf] }
      ((handleServerDataLoop buf buf.length 0).map Prod.snd)
  rw [List.length_map] at heq
  exact ⟨calls, n, heq, hspec⟩

/-- No request is made by what the server sends. -/
theorem requests_receive (env : SendCalls) (c : ClientMain) (buf : List UInt8) (now : ℤ) :
    (c.receive env buf now).requests = c.requests := by
  obtain ⟨calls, n, heq, hnone, -⟩ := receive_eq env c buf now
  have hnil : calls.filterMap (fun s => s.request.map (·, s.msg)) = [] :=
    List.filterMap_eq_nil_iff.mpr fun s hs => by rw [hnone s hs]; rfl
  rw [heq]
  show (c.calls ++ calls).filterMap _ = _
  rw [List.filterMap_append, hnil, List.append_nil]
  rfl

/-- A property that the operations of a turn keep is kept by the turn. -/
theorem turn_inv {J : ClientMain → Prop} (hauto : ∀ c now, J c → J (c.autoSend env now))
    (hreceive : ∀ c buf now, J c → J (c.receive env buf now))
    (hkeyboard : ∀ c keyboard, J c → J (c.onKeyboard env keyboard)) (hleave : ∀ c, J c → J c.leave)
    {t : Turn} (h : J c) : J (c.turn env t) := by
  have hc := hauto c t.now h
  unfold turn
  dsimp only
  split
  · exact hleave _ hc
  · exact hc
  · exact hc
  · exact hkeyboard _ _ hc
  · exact hkeyboard _ _ (hreceive _ _ _ hc)
  · exact hc
  · exact hleave _ hc
  · exact hleave _ hc

/-- The same along a run. -/
theorem exec_turn_inv {J : ClientMain → Prop} (hauto : ∀ c now, J c → J (c.autoSend env now))
    (hreceive : ∀ c buf now, J c → J (c.receive env buf now))
    (hkeyboard : ∀ c keyboard, J c → J (c.onKeyboard env keyboard)) (hleave : ∀ c, J c → J c.leave)
    {ts : List Turn} {c' : ClientMain} (h : J c) (hrun : exec (step env) c ts = some c') : J c' := by
  refine Reachable.inv (fun c t c' hc hs => ?_) h ⟨ts, hrun⟩
  unfold step at hs
  split_ifs at hs
  cases hs
  exact turn_inv hauto hreceive hkeyboard hleave hc

/-- Nothing is sent or received from `c` to `c'`. -/
structure SameTraffic (c c' : ClientMain) : Prop where
  client : c'.client = c.client
  calls : c'.calls = c.calls
  blocks : c'.blocks = c.blocks
  sentCount : c'.sentCount = c.sentCount
  recvCount : c'.recvCount = c.recvCount

/-- A property of what is sent and received is kept along a run by the clock and the keyboard,
    if it is kept by a request, and by what the server sends if it is kept by a block. -/
theorem exec_traffic_inv {J : ClientMain → Prop} (hsame : ∀ c c', SameTraffic c c' → J c → J c')
    (hrequest : ∀ c cmd, J c → J (c.request env cmd))
    (hreceive : ∀ c buf now, J c → J (c.receive env buf now))
    {ts : List Turn} {c' : ClientMain} (h : J c) (hrun : exec (step env) c ts = some c') : J c' := by
  refine exec_turn_inv (fun c now hc => ?_) hreceive (fun c keyboard hc => ?_)
    (fun c hc => hsame c _ ⟨rfl, rfl, rfl, rfl, rfl⟩ hc) h hrun
  · unfold autoSend
    split_ifs
    · exact hrequest _ _ (hsame c _ ⟨rfl, rfl, rfl, rfl, rfl⟩ hc)
    · exact hc
  · unfold onKeyboard
    split_ifs
    · split
      · exact hsame c _ ⟨rfl, rfl, rfl, rfl, rfl⟩ hc
      · next line rest _ =>
        cases keyOf line with
        | request cmd => exact hrequest _ cmd (hsame c _ ⟨rfl, rfl, rfl, rfl, rfl⟩ hc)
        | _ => exact hsame c _ ⟨rfl, rfl, rfl, rfl, rfl⟩ hc
    · exact hc

/-! ## The numbers of the requests -/

/-- What holds in every run of the client with the number `id`. -/
structure NumberingInv (id : ℤ) (c : ClientMain) : Prop where
  clientId : c.client.clientId = id
  nextSeq : c.client.nextSeq = UInt16.ofNat (c.requests.length + 1)
  requests : ∀ i cmd msg, c.requests[i]? = some (cmd, msg) → msg = requestMessage id (i + 1) cmd
  built : ∀ s ∈ c.calls, Gateway.Encodable s.msg ∧ s.bytes = some (frameImage s.msg)
  heartbeat : ∀ s ∈ c.calls, s.request = none → Gateway.isHeartbeat s.msg = true
  sentCount : c.sentCount = c.calls.countP fun s => 0 < s.result

/-- The invariant is about the calls of `send`, the counter of them and the numbers. -/
theorem NumberingInv.congr {id : ℤ} {c' : ClientMain} (h : NumberingInv id c)
    (hclient : c'.client = c.client) (hcalls : c'.calls = c.calls)
    (hsent : c'.sentCount = c.sentCount) : NumberingInv id c' := by
  have hrequests : c'.requests = c.requests := by rw [ClientMain.requests, hcalls]; rfl
  refine ⟨?_, ?_, ?_, ?_, ?_, ?_⟩
  · rw [hclient]; exact h.clientId
  · rw [hclient, hrequests]; exact h.nextSeq
  · rw [hrequests]; exact h.requests
  · rw [hcalls]; exact h.built
  · rw [hcalls]; exact h.heartbeat
  · rw [hsent, hcalls]; exact h.sentCount

/-- The frame is built as it should be, and the call is counted if it succeeds. -/
theorem sent_built (env : SendCalls) (request : Option Command) {msg : ProtoMessage}
    (hmsg : Gateway.Encodable msg)
    (hbuilt : ∀ s ∈ c.calls, Gateway.Encodable s.msg ∧ s.bytes = some (frameImage s.msg))
    (hcount : c.sentCount = c.calls.countP fun s => 0 < s.result) :
    (∀ s ∈ (c.send env request msg).calls, Gateway.Encodable s.msg ∧ s.bytes = some (frameImage s.msg)) ∧
      (c.send env request msg).sentCount =
        (c.send env request msg).calls.countP fun s => 0 < s.result := by
  have hle : msg.payloadLen.toNat ≤ protoMaxPayload := hmsg.1 ▸ hmsg.2
  refine ⟨List.forall_mem_append.mpr ⟨hbuilt, ?_⟩, ?_⟩
  · rw [List.forall_mem_singleton]
    exact ⟨hmsg, sendFrame_eq_frameImage _ (payloadArg_spec hmsg.1) hle⟩
  · simp only [send, List.countP_append, List.countP_singleton, ← hcount, decide_eq_true_eq]
    split_ifs <;> rfl

theorem NumberingInv.request {id : ℤ} (hid : IsInt id) (h : NumberingInv id c) (cmd : Command) :
    NumberingInv id (c.request env cmd) := by
  have hencodable := encodable_run (h.clientId.symm ▸ hid) cmd
  have hmsg : (cmd.run c.client).2 = requestMessage id (c.requests.length + 1) cmd := by
    rw [requestMessage, ← h.nextSeq, ← h.clientId]
  have hrequests := requests_request env c cmd
  obtain ⟨hbuilt, hcount⟩ := sent_built
    (c := { c with client := { c.client with nextSeq := c.client.nextSeq + 1 } }) env (some cmd)
    hencodable h.built h.sentCount
  rw [← request_eq] at hbuilt hcount
  refine ⟨?_, ?_, fun i cmd' msg' hi => ?_, hbuilt, ?_, hcount⟩
  · rw [request_eq]
    exact h.clientId
  · rw [hrequests, List.length_append, List.length_singleton, request_eq]
    show c.client.nextSeq + 1 = _
    rw [h.nextSeq, UInt16.ofNat_add (c.requests.length + 1) 1]
    rfl
  · rw [hrequests] at hi
    rcases Nat.lt_or_ge i c.requests.length with hlt | hge
    · exact h.requests i cmd' msg' (by rwa [← List.getElem?_append_left hlt])
    · rw [List.getElem?_append_right hge, List.getElem?_singleton] at hi
      split_ifs at hi with hzero
      cases hi
      rw [hmsg, show i = c.requests.length by omega]
  · rw [request_eq]
    refine List.forall_mem_append.mpr ⟨h.heartbeat, ?_⟩
    rw [List.forall_mem_singleton]
    exact nofun

theorem NumberingInv.handleFrame {id : ℤ} (h : NumberingInv id c) (msg : ProtoMessage) :
    NumberingInv id (c.handleFrame env msg) := by
  unfold ClientMain.handleFrame
  cases hreply : handleServerData msg with
  | none => exact h.congr rfl rfl rfl
  | some pong =>
    obtain ⟨hencodable, hbeat⟩ := encodable_pong hreply
    obtain ⟨hbuilt, hcount⟩ := sent_built env none hencodable h.built h.sentCount
    have hrequests := requests_pong env c pong
    refine ⟨h.clientId, ?_, ?_, hbuilt, ?_, hcount⟩
    · exact hrequests.symm ▸ h.nextSeq
    · exact hrequests.symm ▸ h.requests
    · refine List.forall_mem_append.mpr ⟨h.heartbeat, ?_⟩
      rw [List.forall_mem_singleton]
      exact fun _ => hbeat

theorem NumberingInv.receive {id : ℤ} (h : NumberingInv id c) (buf : List UInt8) (now : ℤ) :
    NumberingInv id (c.receive env buf now) := by
  have hstart : NumberingInv id { c with lastRecv := now, blocks := c.blocks ++ [buf] } :=
    h.congr rfl rfl rfl
  unfold ClientMain.receive
  generalize (handleServerDataLoop buf buf.length 0).map Prod.snd = msgs
  generalize { c with lastRecv := now, blocks := c.blocks ++ [buf] } = c' at hstart ⊢
  induction msgs generalizing c' with
  | nil => exact hstart
  | cons msg msgs ih => exact ih _ (hstart.handleFrame msg)

theorem isInt_parseArgs (args : List Bytes) (opts : Options) (h : IsInt opts.clientId) :
    IsInt (parseArgs args opts).clientId := by
  fun_induction parseArgs args opts with
  | case1 opts => exact h
  | case2 rest opts ih => exact ih h
  | case3 arg opts positional harg =>
    unfold positional
    split_ifs <;> exact h
  | case4 opts next rest harg ih => exact ih (isInt_atoi next)
  | case5 arg opts positional harg next rest hid ih =>
    refine ih ?_
    unfold positional
    split_ifs <;> exact h

/-! ## What the server sends -/

/-- The frames that the client finds in the blocks. -/
def framesIn (blocks : List (List UInt8)) : List ProtoMessage := (handleBlocks 0 blocks).map Prod.snd

theorem handleBlocks_concat (base : ℕ) (blocks : List (List UInt8)) (buf : List UInt8) :
    (handleBlocks base (blocks ++ [buf])).map Prod.snd =
      (handleBlocks base blocks).map Prod.snd ++ (handleServerDataLoop buf buf.length 0).map Prod.snd := by
  induction blocks generalizing base with
  | nil => simp [handleBlocks, Function.comp_def]
  | cons b blocks ih =>
    rw [List.cons_append, handleBlocks, handleBlocks, List.map_append, List.map_append, ih,
      List.append_assoc]

theorem framesIn_concat (blocks : List (List UInt8)) (buf : List UInt8) :
    framesIn (blocks ++ [buf]) =
      framesIn blocks ++ (handleServerDataLoop buf buf.length 0).map Prod.snd :=
  handleBlocks_concat 0 blocks buf

/-- The answers to PINGs, and the counter of the frames. -/
structure AnswersInv (c : ClientMain) : Prop where
  pongs : c.pongs = (framesIn c.blocks).filterMap handleServerData
  recvCount : c.recvCount = (framesIn c.blocks).length

theorem pongs_request (env : SendCalls) (c : ClientMain) (cmd : Command) :
    (c.request env cmd).pongs = c.pongs := by
  rw [request_eq]
  simp [pongs, send, sentNext]

theorem pongs_of_none {calls : List Sent} (h : ∀ s ∈ calls, s.request = none) :
    (calls.filterMap fun s => if s.request.isNone then some s.msg else none) = calls.map Sent.msg := by
  rw [← List.filterMap_eq_map]
  refine List.filterMap_congr fun s hs => ?_
  rw [h s hs]
  rfl

theorem AnswersInv.of_sameTraffic {c' : ClientMain} (h : AnswersInv c) (hsame : SameTraffic c c') :
    AnswersInv c' := by
  refine ⟨?_, ?_⟩
  · rw [ClientMain.pongs, hsame.calls, hsame.blocks]
    exact h.pongs
  · rw [hsame.recvCount, hsame.blocks]
    exact h.recvCount

theorem AnswersInv.request (h : AnswersInv c) (cmd : Command) : AnswersInv (c.request env cmd) := by
  refine ⟨?_, ?_⟩
  · rw [pongs_request, request_eq]
    exact h.pongs
  · rw [request_eq]
    exact h.recvCount

theorem AnswersInv.receive (h : AnswersInv c) (buf : List UInt8) (now : ℤ) :
    AnswersInv (c.receive env buf now) := by
  obtain ⟨calls, n, heq, hnone, hmsgs⟩ := receive_eq env c buf now
  rw [heq]
  refine ⟨?_, ?_⟩
  · show (c.calls ++ calls).filterMap _ = (framesIn (c.blocks ++ [buf])).filterMap handleServerData
    rw [List.filterMap_append, pongs_of_none hnone, hmsgs, framesIn_concat, List.filterMap_append,
      ← h.pongs]
    rfl
  · show c.recvCount + _ = (framesIn (c.blocks ++ [buf])).length
    rw [framesIn_concat, List.length_append, List.length_map, ← h.recvCount]

/-! ## The automatic mode -/

/-- The `k`-th automatic request. -/
def scheduled (k : ℕ) : Command :=
  if (k + 1) % 3 = 0 then .sensor else if (k + 1) % 3 = 1 then .gpio else .ping

/-- Times that are three seconds apart take three seconds each. -/
theorem length_le_of_spaced {times : List ℤ} {first last : ℤ}
    (h : (first :: times).IsChain fun a b => a + 3 ≤ b)
    (hlast : (first :: times).getLast? = some last) : 3 * (times.length : ℤ) ≤ last - first := by
  induction times generalizing first with
  | nil =>
    cases hlast
    simp
  | cons next times ih =>
    rw [List.isChain_cons_cons] at h
    rw [List.getLast?_cons_cons] at hlast
    have hrest := ih h.2 hlast
    rw [List.length_cons]
    push_cast
    omega

/-- What holds in every run in the automatic mode that begins at `autoTime`. -/
structure ScheduleInv (autoTime : ℤ) (c : ClientMain) : Prop where
  autoMode : c.autoMode = true
  commands : c.requests.map Prod.fst = .register :: (List.range c.autoTimes.length).map scheduled
  counter : c.counter = c.autoTimes.length % 3
  last : (autoTime :: c.autoTimes).getLast? = some c.lastAutoSend
  spaced : (autoTime :: c.autoTimes).IsChain fun a b => a + 3 ≤ b

theorem ScheduleInv.autoSend {autoTime : ℤ} (h : ScheduleInv autoTime c) (now : ℤ) :
    ScheduleInv autoTime (c.autoSend env now) := by
  unfold ClientMain.autoSend
  split_ifs with hdue
  · rw [Bool.and_eq_true, decide_eq_true_eq] at hdue
    have hcounter : (c.counter + 1) % 3 = (c.autoTimes.length + 1) % 3 := by
      have := h.counter
      omega
    dsimp only
    rw [request_eq]
    refine ⟨h.autoMode, ?_, ?_, ?_, ?_⟩
    · rw [← request_eq, requests_request, List.map_append, hcounter]
      show c.requests.map Prod.fst ++ [scheduled c.autoTimes.length] =
        .register :: (List.range (c.autoTimes ++ [now]).length).map scheduled
      rw [h.commands, List.length_append, List.length_singleton, List.range_succ, List.map_append]
      rfl
    · show (c.counter + 1) % 3 = (c.autoTimes ++ [now]).length % 3
      rw [hcounter, List.length_append, List.length_singleton]
    · show (autoTime :: (c.autoTimes ++ [now])).getLast? = some now
      rw [← List.cons_append, List.getLast?_concat]
    · show (autoTime :: (c.autoTimes ++ [now])).IsChain _
      rw [← List.cons_append, List.isChain_append]
      refine ⟨h.spaced, .singleton now, fun a ha b hb => ?_⟩
      rw [h.last] at ha
      cases ha
      cases hb
      omega
  · exact h

theorem ScheduleInv.receive {autoTime : ℤ} (h : ScheduleInv autoTime c) (buf : List UInt8) (now : ℤ) :
    ScheduleInv autoTime (c.receive env buf now) := by
  have hcommands := (congrArg (List.map Prod.fst) (requests_receive env c buf now)).trans h.commands
  obtain ⟨calls, n, heq, -⟩ := receive_eq env c buf now
  rw [heq] at hcommands ⊢
  exact ⟨h.autoMode, hcommands, h.counter, h.last, h.spaced⟩

theorem ScheduleInv.onKeyboard {autoTime : ℤ} (h : ScheduleInv autoTime c) (keyboard : Bool) :
    ScheduleInv autoTime (c.onKeyboard env keyboard) := by
  unfold ClientMain.onKeyboard
  rw [h.autoMode]
  exact h

/-! ## The lines typed -/

/-- What holds in every other run, where `stdin` is what is typed. -/
structure TypedInv (stdin : Bytes) (c : ClientMain) : Prop where
  autoMode : c.autoMode = false
  reads : Reads newline (lineSize - 1) stdin c.typed c.stdin
  commands : c.requests.map Prod.fst = .register :: c.typed.filterMap requestOf
  quit : ∀ line ∈ c.typed, keyOf line = .quit → c.running = false

theorem TypedInv.autoSend {stdin : Bytes} (h : TypedInv stdin c) (now : ℤ) :
    TypedInv stdin (c.autoSend env now) := by
  unfold ClientMain.autoSend
  rw [h.autoMode]
  exact h

theorem TypedInv.receive {stdin : Bytes} (h : TypedInv stdin c) (buf : List UInt8) (now : ℤ) :
    TypedInv stdin (c.receive env buf now) := by
  have hcommands := (congrArg (List.map Prod.fst) (requests_receive env c buf now)).trans h.commands
  obtain ⟨calls, n, heq, -⟩ := receive_eq env c buf now
  rw [heq] at hcommands ⊢
  exact ⟨h.autoMode, h.reads, hcommands, h.quit⟩

/-- What the `switch` does to what `TypedInv` is about. -/
theorem switch_spec (env : SendCalls) (c : ClientMain) (key : Key) :
    (c.switch env key).requests.map Prod.fst = c.requests.map Prod.fst ++ key.request?.toList ∧
      (c.switch env key).autoMode = c.autoMode ∧ (c.switch env key).typed = c.typed ∧
      (c.switch env key).stdin = c.stdin ∧
      ((c.switch env key).running = c.running ∧ key ≠ .quit ∨ (c.switch env key).running = false) := by
  cases key with
  | request cmd =>
    refine ⟨?_, ?_⟩
    · show (c.request env cmd).requests.map Prod.fst = _
      rw [requests_request, List.map_append]
      rfl
    · rw [switch, request_eq]
      exact ⟨rfl, rfl, rfl, Or.inl ⟨rfl, nofun⟩⟩
  | quit => exact ⟨(List.append_nil _).symm, rfl, rfl, rfl, Or.inr rfl⟩
  | _ => exact ⟨(List.append_nil _).symm, rfl, rfl, rfl, Or.inl ⟨rfl, nofun⟩⟩

theorem TypedInv.onKeyboard {stdin : Bytes} (h : TypedInv stdin c) (keyboard : Bool) :
    TypedInv stdin (c.onKeyboard env keyboard) := by
  unfold ClientMain.onKeyboard
  split_ifs
  · split
    · exact ⟨h.autoMode, h.reads, h.commands, fun _ _ _ => rfl⟩
    · next line rest hfgets =>
      obtain ⟨hcommands, hauto, htyped, hstdin, hrunning⟩ :=
        switch_spec env { c with stdin := rest, typed := c.typed ++ [line] } (keyOf line)
      refine ⟨hauto.trans h.autoMode, ?_, ?_, fun line' hline' hquit => ?_⟩
      · rw [htyped, hstdin]
        exact h.reads.call hfgets
      · rw [hcommands, htyped, List.filterMap_append, ← List.cons_append, ← h.commands]
        show _ = _ ++ [line].filterMap requestOf
        rw [List.filterMap_cons, List.filterMap_nil, requestOf]
        cases (keyOf line).request? <;> rfl
      · rw [htyped, List.mem_append, List.mem_singleton] at hline'
        rcases hrunning with ⟨hsame, hne⟩ | hstopped
        · rcases hline' with hold | rfl
          · exact hsame.trans (h.quit line' hold hquit)
          · exact absurd hquit hne
        · exact hstopped
  · exact h

/-! ## Runs -/

variable {args : List Bytes} {connectTime autoTime : ℤ} {stdin : Bytes} {ts : List Turn}

theorem commands_start (env : SendCalls) :
    (start env args connectTime autoTime stdin).requests.map Prod.fst = [.register] := by
  rw [start, requests_request]
  rfl

theorem numberingInv_of_run
    (hrun : exec (step env) (start env args connectTime autoTime stdin) ts = some c) :
    NumberingInv (parseArgs args ⟨false, 0, []⟩).clientId c := by
  have hid := isInt_parseArgs args ⟨false, 0, []⟩ ⟨by decide, by decide⟩
  refine exec_traffic_inv (fun c c' hsame h => h.congr hsame.client hsame.calls hsame.sentCount)
    (fun c cmd h => h.request hid cmd) (fun c buf now h => h.receive buf now) ?_ hrun
  show NumberingInv _ (ClientMain.request env _ .register)
  refine NumberingInv.request hid ?_ _
  exact ⟨rfl, rfl, nofun, nofun, nofun, rfl⟩

/-- In every run the requests are numbered one by one from 1 on, modulo 65536, every frame
    is built as the protocol has it, the PONGs answer the heartbeats that were found in the
    blocks, and the counters count. -/
theorem client_numbering
    (hrun : exec (step env) (start env args connectTime autoTime stdin) ts = some c) :
    (∀ i cmd msg, c.requests[i]? = some (cmd, msg) → msg.seq = UInt16.ofNat (i + 1) ∧
        msg = requestMessage (parseArgs args ⟨false, 0, []⟩).clientId (i + 1) cmd) ∧
      c.client.nextSeq = UInt16.ofNat (c.requests.length + 1) ∧
      c.pongs = (framesIn c.blocks).filterMap handleServerData ∧
      (∀ s ∈ c.calls, s.bytes = some (frameImage s.msg)) ∧
      c.sentCount = (c.calls.countP fun s => 0 < s.result) ∧
      c.recvCount = (framesIn c.blocks).length := by
  have hinv := numberingInv_of_run hrun
  have hanswers : AnswersInv c := by
    refine exec_traffic_inv (fun c c' hsame h => h.of_sameTraffic hsame)
      (fun c cmd h => h.request cmd) (fun c buf now h => h.receive buf now) ?_ hrun
    show AnswersInv (ClientMain.request env _ .register)
    refine AnswersInv.request ?_ _
    exact ⟨rfl, rfl⟩
  refine ⟨fun i cmd msg hi => ?_, hinv.nextSeq, hanswers.pongs, fun s hs => (hinv.built s hs).2,
    hinv.sentCount, hanswers.recvCount⟩
  have hmsg := hinv.requests i cmd msg hi
  refine ⟨?_, hmsg⟩
  rw [hmsg]
  cases cmd <;> rfl

/-- Every call of `send` fails. -/
def noSend : SendCalls := ⟨fun _ => .filled _ 0x5A, fun _ => -1⟩

def serverPing : List UInt8 := frameImage ⟨cmdPing, flagHeartbeat, 9, [], 0⟩

/-- A PING together with the first line, and then the second line. -/
def pingAndKeys : List Turn :=
  [⟨0, .ready (some (.block serverPing (List.cons_ne_nil _ _) (by decide) 1)) true⟩,
    ⟨1, .ready none true⟩]

theorem client_numbering_ping :
    ∃ c, exec (step noSend) (start noSend [] 0 0 (bytes "d\nq\n")) pingAndKeys = some c ∧
      c.pongs = (framesIn c.blocks).filterMap handleServerData ∧
      c.sentCount = c.calls.countP fun s => 0 < s.result := by
  have hsome : (exec (step noSend) (start noSend [] 0 0 (bytes "d\nq\n")) pingAndKeys).isSome = true := by
    decide +kernel
  obtain ⟨c, hc⟩ := Option.isSome_iff_exists.mp hsome
  obtain ⟨-, -, hpongs, -, hcount, -⟩ := client_numbering hc
  exact ⟨c, hc, hpongs, hcount⟩

/-- In the automatic mode the requests behind the registration go round GPIO, PING and
    sensor, and between two of them there are at least three seconds. -/
theorem client_schedule (hauto : (parseArgs args ⟨false, 0, []⟩).autoMode = true)
    (hrun : exec (step env) (start env args connectTime autoTime stdin) ts = some c) :
    c.requests.map Prod.fst = .register :: (List.range c.autoTimes.length).map scheduled ∧
      (autoTime :: c.autoTimes).IsChain (fun a b => a + 3 ≤ b) ∧
      3 * (c.autoTimes.length : ℤ) ≤ c.lastAutoSend - autoTime := by
  have hinv : ScheduleInv autoTime c := by
    refine exec_turn_inv (fun c now h => h.autoSend now) (fun c buf now h => h.receive buf now)
      (fun c keyboard h => h.onKeyboard keyboard)
      (fun c h => ⟨h.autoMode, h.commands, h.counter, h.last, h.spaced⟩) ?_ hrun
    exact ⟨hauto, commands_start env, rfl, rfl, .singleton autoTime⟩
  exact ⟨hinv.commands, hinv.spaced, length_le_of_spaced hinv.spaced hinv.last⟩

/-- A turn that is too early, and two that are not. -/
def threeTurns : List Turn := [⟨2, .timeout⟩, ⟨3, .timeout⟩, ⟨9, .timeout⟩]

theorem client_schedule_threeTurns :
    ∃ c, exec (step noSend) (start noSend [bytes "-a"] 0 0 []) threeTurns = some c ∧
      c.requests.map Prod.fst = .register :: (List.range c.autoTimes.length).map scheduled ∧
      ((0 : ℤ) :: c.autoTimes).IsChain (fun a b => a + 3 ≤ b) ∧
      3 * (c.autoTimes.length : ℤ) ≤ c.lastAutoSend - 0 := by
  have hsome : (exec (step noSend) (start noSend [bytes "-a"] 0 0 []) threeTurns).isSome = true := by
    decide +kernel
  obtain ⟨c, hc⟩ := Option.isSome_iff_exists.mp hsome
  exact ⟨c, hc, client_schedule (by decide +kernel) hc⟩

/-- Without the automatic mode the requests are what the lines typed ask for, in their
    order; no line is skipped, and none is read behind one that asks to quit. -/
theorem client_typed (hauto : (parseArgs args ⟨false, 0, []⟩).autoMode = false)
    (hshort : ∀ line ∈ lines newline stdin, line.length ≤ lineSize - 1)
    (hrun : exec (step env) (start env args connectTime autoTime stdin) ts = some c) :
    c.requests.map Prod.fst = .register :: c.typed.filterMap requestOf ∧
      lines newline stdin = c.typed ++ lines newline c.stdin ∧
      (c.running = true → ∀ line ∈ c.typed, keyOf line ≠ .quit) := by
  have hinv : TypedInv stdin c := by
    refine exec_turn_inv (fun c now h => h.autoSend now) (fun c buf now h => h.receive buf now)
      (fun c keyboard h => h.onKeyboard keyboard)
      (fun c h => ⟨h.autoMode, h.reads, h.commands, fun _ _ _ => rfl⟩) ?_ hrun
    exact ⟨hauto, .none, commands_start env, nofun⟩
  refine ⟨hinv.commands, hinv.reads.lines_eq hshort, fun hrunning line hline hquit => ?_⟩
  rw [hinv.quit line hline hquit] at hrunning
  cases hrunning

theorem client_typed_pingAndKeys :
    ∃ c, exec (step noSend) (start noSend [] 0 0 (bytes "d\nq\n")) pingAndKeys = some c ∧
      c.requests.map Prod.fst = .register :: c.typed.filterMap requestOf ∧
      lines newline (bytes "d\nq\n") = c.typed ++ lines newline c.stdin ∧
      (c.running = true → ∀ line ∈ c.typed, keyOf line ≠ .quit) := by
  have hsome : (exec (step noSend) (start noSend [] 0 0 (bytes "d\nq\n")) pingAndKeys).isSome = true := by
    decide +kernel
  obtain ⟨c, hc⟩ := Option.isSome_iff_exists.mp hsome
  exact ⟨c, hc, client_typed (by decide +kernel) (by decide +kernel) hc⟩

end ClientMain

end LinuxFileManager.Client
