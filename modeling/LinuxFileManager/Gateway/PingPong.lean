import LinuxFileManager.Client.Session
import LinuxFileManager.Gateway.Dispatch
import LinuxFileManager.Lib.System

/-!
# Heartbeats between the gateway and a client

One connection between a gateway with the handlers of the menu and the bundled
client: two channels of frames, and the replies of `client_worker` and of
`handle_server_data`. `CMD_PONG` has the value of `CMD_PING` and the PONG
carries the same flag, so neither side can tell them apart.

A packet remembers, as a ghost, how many replies led to it (`hops`): a PING is
a heartbeat frame with no hop, a PONG one that answers a PING.

Result:

* `pingPong_iff_answersNoPong`: a run keeps to "one PONG for a PING, nothing
  for a PONG" if and only if it never delivers a PONG to a side that answers
  heartbeats.
-/

namespace LinuxFileManager.Gateway

open Lib Protocol Client

/-! ## Model -/

/-- A frame in a channel, with the number of replies that led to it. -/
structure Packet where
  msg : ProtoMessage
  hops : ℕ

def Packet.isHeartbeat (p : Packet) : Bool := Gateway.isHeartbeat p.msg

def Packet.isPing (p : Packet) : Bool := p.isHeartbeat && p.hops == 0

def Packet.isPong (p : Packet) : Bool := p.isHeartbeat && p.hops == 1

/-- The two ends and the two channels; `sent` is a ghost, all frames sent so far. -/
structure Link where
  /-- `last_seq` of the device record. -/
  lastSeq : UInt16
  client : ClientState
  toClient : List Packet
  toGateway : List Packet
  sent : List Packet

def Link.start (client : ClientState) : Link := ⟨0, client, [], [], []⟩

def Link.sendToClient (l : Link) (p : Packet) : Link :=
  { l with toClient := l.toClient ++ [p], sent := l.sent ++ [p] }

def Link.sendToGateway (l : Link) (p : Packet) : Link :=
  { l with toGateway := l.toGateway ++ [p], sent := l.sent ++ [p] }

/-- What happens on the connection. -/
inductive Move where
  /-- `heartbeat_thread_func` sends a PING (lines 437–448). -/
  | heartbeatPing
  /-- The interactive command `r` (lines 621–634). -/
  | restartLed
  /-- The client sends a request. -/
  | command (cmd : Command)
  /-- `client_worker` takes the next frame; `found` is the outcome of
      `find_device_by_fd`. -/
  | gatewayRecv (found : Bool)
  /-- `handle_server_data` takes the next frame. -/
  | clientRecv
  /-- The next frame was cut by `recv`, and `handle_server_data` misses it. -/
  | clientMiss

variable (payloadCopy : Buffer UInt8 protoMaxPayload)

def Link.step (l : Link) : Move → Option Link
  | .heartbeatPing =>
    let seq := l.lastSeq + 1
    some ({ l with lastSeq := seq }.sendToClient ⟨⟨cmdPing, flagHeartbeat, seq, [], 0⟩, 0⟩)
  | .restartLed =>
    some (l.sendToClient ⟨⟨cmdGpioControl, flagRequest, l.lastSeq + 1, [7, 1], 2⟩, 0⟩)
  | .command cmd =>
    let (client, msg) := cmd.run l.client
    some ({ l with client := client }.sendToGateway ⟨msg, 0⟩)
  | .gatewayRecv found =>
    match l.toGateway with
    | [] => none
    | p :: rest =>
      let l := { l with toGateway := rest }
      match (dispatchMessage menuHandlers payloadCopy found p.msg).reply with
      | some msg => some (l.sendToClient ⟨msg, p.hops + 1⟩)
      | none => some l
  | .clientRecv =>
    match l.toClient with
    | [] => none
    | p :: rest =>
      let l := { l with toClient := rest }
      match handleServerData p.msg with
      | some msg => some (l.sendToGateway ⟨msg, p.hops + 1⟩)
      | none => some l
  | .clientMiss =>
    match l.toClient with
    | [] => none
    | _ :: rest => some { l with toClient := rest }

/-! ## The rule and the condition -/

/-- At most two heartbeat frames for each PING: a PING causes at most one PONG,
    and a PONG causes nothing. -/
structure PingPong (l : Link) : Prop where
  total : l.sent.countP Packet.isHeartbeat ≤ 2 * l.sent.countP Packet.isPing
  pongs : l.sent.countP Packet.isPong ≤ l.sent.countP Packet.isPing
  ends : ∀ p ∈ l.sent, p.isHeartbeat = true → p.hops ≤ 1

/-- The step does not deliver a PONG to a side that answers heartbeats; the
    gateway does not answer when the device record is gone. -/
def AnswersNoPong (l : Link) : Move → Prop
  | .gatewayRecv found =>
    found = true → ∀ p rest, l.toGateway = p :: rest → p.isHeartbeat = true → p.hops = 0
  | .clientRecv => ∀ p rest, l.toClient = p :: rest → p.isHeartbeat = true → p.hops = 0
  | _ => True

/-! ## What a move does -/

/-- The frames under way. -/
def Link.inFlight (l : Link) : List Packet := l.toClient ++ l.toGateway

/-- The three kinds of moves: a frame is sent unasked, the next frame is taken
    without an answer, or it is taken and answered with a frame of its kind.
    Only the last kind can fail to be `good`. -/
inductive Effect (l l' : Link) (good : Prop) : Prop where
  | unasked (p : Packet) (hhops : p.hops = 0) (hflight : l'.inFlight.Perm (p :: l.inFlight))
      (hsent : l'.sent = l.sent ++ [p]) (hgood : good)
  | taken (p : Packet) (hflight : l.inFlight.Perm (p :: l'.inFlight)) (hsent : l'.sent = l.sent)
      (hgood : good)
  | answered (p q : Packet) (rest : List Packet) (hhops : q.hops = p.hops + 1)
      (hbeat : q.isHeartbeat = p.isHeartbeat) (hflight : l.inFlight.Perm (p :: rest))
      (hflight' : l'.inFlight.Perm (q :: rest)) (hsent : l'.sent = l.sent ++ [q])
      (hgood : good ↔ (p.isHeartbeat = true → p.hops = 0))

@[simp] theorem isHeartbeat_ping (seq : UInt16) (payload : List UInt8) (len : UInt16) :
    isHeartbeat ⟨cmdPing, flagHeartbeat, seq, payload, len⟩ = true := by
  show (cmdPing == cmdPing && flagHeartbeat &&& flagHeartbeat != 0) = true
  decide

theorem isHeartbeat_of_cmd_ne {msg : ProtoMessage} (h : msg.cmd ≠ cmdPing) :
    isHeartbeat msg = false := by
  simp [isHeartbeat, h]

theorem cmd_response_ne (h : MenuHandler) (seq : UInt16) : (h.response seq).cmd ≠ cmdPing := by
  cases h with
  | handleSensorData => exact (by decide : cmdSensorData ≠ cmdPing)
  | handleRegister => exact (by decide : cmdStm32Register ≠ cmdPing)
  | handleGpioControl => exact (by decide : cmdGpioControl ≠ cmdPing)

/-- `client_worker` answers a heartbeat with a heartbeat, and any other frame
    with a frame that is none. -/
theorem isHeartbeat_reply {found : Bool} {msg r : ProtoMessage}
    (h : (dispatchMessage menuHandlers payloadCopy found msg).reply = some r) :
    found = true ∧ isHeartbeat r = isHeartbeat msg := by
  cases found with
  | false => simp [dispatchMessage, Outcome.reply] at h
  | true =>
    refine ⟨rfl, ?_⟩
    simp only [dispatchMessage, if_true] at h
    cases hbeat : isHeartbeat msg with
    | true =>
      simp only [hbeat, if_true, Outcome.reply, Option.some.injEq] at h
      rw [← h]
      exact isHeartbeat_ping _ _ _
    | false =>
      simp only [hbeat, Bool.false_eq_true, if_false] at h
      cases hnode : findHandler menuHandlers msg.cmd with
      | some node =>
        simp only [hnode, Outcome.reply, Option.some.injEq] at h
        rw [← h]
        exact isHeartbeat_of_cmd_ne (cmd_response_ne _ _)
      | none =>
        simp only [hnode, Outcome.reply, Option.some.injEq] at h
        rw [← h]
        exact isHeartbeat_of_cmd_ne (by show cmdError ≠ cmdPing; decide)

/-- A heartbeat with a device record is always answered. -/
theorem isHeartbeat_of_no_reply {msg : ProtoMessage}
    (h : (dispatchMessage menuHandlers payloadCopy true msg).reply = none) : isHeartbeat msg = false := by
  rw [Bool.eq_false_iff]
  intro hbeat
  simp [dispatchMessage, hbeat, Outcome.reply] at h

/-- `handle_server_data` answers nothing but heartbeats, and with heartbeats. -/
theorem isHeartbeat_handleServerData {msg r : ProtoMessage} (h : handleServerData msg = some r) :
    isHeartbeat r = isHeartbeat msg := by
  unfold handleServerData at h
  split_ifs at h with hbeat
  cases h
  rw [show isHeartbeat msg = true from hbeat]
  exact isHeartbeat_ping _ _ _

theorem isHeartbeat_of_handleServerData_none {msg : ProtoMessage} (h : handleServerData msg = none) :
    isHeartbeat msg = false := by
  unfold handleServerData at h
  split_ifs at h with hbeat
  exact Bool.eq_false_iff.mpr hbeat

/-- A frame that is not a heartbeat is no PONG. -/
theorem first_of_not_heartbeat {ps rest : List Packet} {p : Packet} (hin : ps = p :: rest)
    (h : p.isHeartbeat = false) : ∀ q rest, ps = q :: rest → q.isHeartbeat = true → q.hops = 0 := by
  intro q rest' hcons hbeat
  rw [hin, List.cons.injEq] at hcons
  rw [← hcons.1, h] at hbeat
  cases hbeat

theorem inFlight_sendToClient (l : Link) (p : Packet) :
    (l.sendToClient p).inFlight.Perm (p :: l.inFlight) := by
  show (l.toClient ++ [p] ++ l.toGateway).Perm (p :: (l.toClient ++ l.toGateway))
  rw [List.append_assoc]
  exact List.perm_middle

theorem inFlight_sendToGateway (l : Link) (p : Packet) :
    (l.sendToGateway p).inFlight.Perm (p :: l.inFlight) := by
  show (l.toClient ++ (l.toGateway ++ [p])).Perm (p :: (l.toClient ++ l.toGateway))
  rw [← List.append_assoc]
  exact List.perm_append_singleton _ _

theorem step_effect {l l' : Link} {a : Move} (h : l.step payloadCopy a = some l') :
    Effect l l' (AnswersNoPong l a) := by
  cases a with
  | heartbeatPing =>
    simp only [Link.step, Option.some.injEq] at h
    subst h
    exact .unasked _ rfl (inFlight_sendToClient _ _) rfl trivial
  | restartLed =>
    simp only [Link.step, Option.some.injEq] at h
    subst h
    exact .unasked _ rfl (inFlight_sendToClient _ _) rfl trivial
  | command cmd =>
    simp only [Link.step, Option.some.injEq] at h
    subst h
    exact .unasked _ rfl (inFlight_sendToGateway _ _) rfl trivial
  | gatewayRecv found =>
    simp only [Link.step] at h
    cases hin : l.toGateway with
    | nil => simp [hin] at h
    | cons p rest =>
      have hflight : l.inFlight.Perm (p :: (l.toClient ++ rest)) := by
        rw [Link.inFlight, hin]
        exact List.perm_middle
      simp only [hin] at h
      cases hreply : (dispatchMessage menuHandlers payloadCopy found p.msg).reply with
      | none =>
        simp only [hreply, Option.some.injEq] at h
        subst h
        refine .taken p hflight rfl ?_
        rintro rfl
        exact first_of_not_heartbeat hin (isHeartbeat_of_no_reply payloadCopy hreply)
      | some r =>
        simp only [hreply, Option.some.injEq] at h
        subst h
        obtain ⟨hfound, hkind⟩ := isHeartbeat_reply payloadCopy hreply
        refine .answered p ⟨r, p.hops + 1⟩ (l.toClient ++ rest) rfl hkind hflight
          (inFlight_sendToClient _ _) rfl ?_
        simp [AnswersNoPong, hfound, hin]
  | clientRecv =>
    simp only [Link.step] at h
    cases hin : l.toClient with
    | nil => simp [hin] at h
    | cons p rest =>
      have hflight : l.inFlight.Perm (p :: (rest ++ l.toGateway)) := by
        rw [Link.inFlight, hin, List.cons_append]
      simp only [hin] at h
      cases hreply : handleServerData p.msg with
      | none =>
        simp only [hreply, Option.some.injEq] at h
        subst h
        exact .taken p hflight rfl
          (first_of_not_heartbeat hin (isHeartbeat_of_handleServerData_none hreply))
      | some r =>
        simp only [hreply, Option.some.injEq] at h
        subst h
        refine .answered p ⟨r, p.hops + 1⟩ (rest ++ l.toGateway) rfl
          (isHeartbeat_handleServerData hreply) hflight (inFlight_sendToGateway _ _) rfl ?_
        simp [AnswersNoPong, hin]
  | clientMiss =>
    simp only [Link.step] at h
    cases hin : l.toClient with
    | nil => simp [hin] at h
    | cons p rest =>
      simp only [hin, Option.some.injEq] at h
      subst h
      refine .taken p ?_ rfl trivial
      rw [Link.inFlight, hin, List.cons_append]
      rfl

/-! ## The accounts of a run -/

/-- Every PONG sent and every PING under way stands for another PING sent, and
    no heartbeat frame has more than one hop. -/
structure Accounts (l : Link) : Prop where
  pongs : l.sent.countP Packet.isPong + l.inFlight.countP Packet.isPing ≤
    l.sent.countP Packet.isPing
  ends : ∀ p ∈ l.sent, p.isHeartbeat = true → p.hops ≤ 1

theorem accounts_start (client : ClientState) : Accounts (.start client) :=
  ⟨le_rfl, by simp [Link.start]⟩

/-- With at most one hop, a heartbeat frame is a PING or a PONG. -/
theorem countP_isHeartbeat {ps : List Packet}
    (h : ∀ p ∈ ps, p.isHeartbeat = true → p.hops ≤ 1) :
    ps.countP Packet.isHeartbeat = ps.countP Packet.isPing + ps.countP Packet.isPong := by
  induction ps with
  | nil => rfl
  | cons p ps ih =>
    have hp := h p (by simp)
    simp only [List.countP_cons, ih fun q hq => h q (by simp [hq])]
    cases hbeat : p.isHeartbeat with
    | false => simp [Packet.isPing, Packet.isPong, hbeat]
    | true =>
      have hcases : p.hops = 0 ∨ p.hops = 1 := by
        have := hp hbeat
        omega
      rcases hcases with h0 | h1
      · simp [Packet.isPing, Packet.isPong, hbeat, h0]
        omega
      · simp [Packet.isPing, Packet.isPong, hbeat, h1]
        omega

theorem Accounts.pingPong {l : Link} (h : Accounts l) : PingPong l := by
  have hpongs := h.pongs
  refine ⟨?_, by omega, h.ends⟩
  rw [countP_isHeartbeat h.ends]
  omega

theorem ends_append {sent : List Packet} {q : Packet}
    (h : ∀ p ∈ sent, p.isHeartbeat = true → p.hops ≤ 1) (hq : q.isHeartbeat = true → q.hops ≤ 1) :
    ∀ p ∈ sent ++ [q], p.isHeartbeat = true → p.hops ≤ 1 := by
  intro p hp
  rcases List.mem_append.mp hp with hp | hp
  · exact h p hp
  · rw [List.mem_singleton.mp hp]
    exact hq

theorem accounts_step {l l' : Link} {a : Move} (h : Accounts l) (hgood : AnswersNoPong l a)
    (hs : l.step payloadCopy a = some l') : Accounts l' := by
  have hpongs := h.pongs
  cases step_effect payloadCopy hs with
  | unasked p hhops hflight hsent =>
    refine ⟨?_, hsent ▸ ends_append h.ends fun _ => by omega⟩
    have hpong : p.isPong = false := by simp [Packet.isPong, hhops]
    rw [hsent, hflight.countP_eq]
    simp only [List.countP_append, List.countP_cons, List.countP_nil, hpong, Bool.false_eq_true,
      if_false]
    omega
  | taken p hflight hsent =>
    refine ⟨?_, hsent ▸ h.ends⟩
    rw [hflight.countP_eq, List.countP_cons] at hpongs
    rw [hsent]
    omega
  | answered p q rest hhops hbeat hflight hflight' hsent hiff =>
    have hfirst := hiff.mp hgood
    refine ⟨?_, hsent ▸ ends_append h.ends fun hq => ?_⟩
    · -- the PING that is answered leaves the channel for the PONG
      have hping : q.isPing = false := by simp [Packet.isPing, hhops]
      have hpong : q.isPong = p.isPing := by
        simp [Packet.isPong, Packet.isPing, hhops, hbeat]
      rw [hflight.countP_eq, List.countP_cons] at hpongs
      rw [hsent, hflight'.countP_eq]
      simp only [List.countP_append, List.countP_cons, List.countP_nil, hping, hpong,
        Bool.false_eq_true, if_false]
      omega
    · rw [hhops, hfirst (hbeat ▸ hq)]

/-- Once a PONG is answered, a heartbeat frame with two hops has been sent. -/
theorem pingPong_broken {l l' : Link} {a : Move} (hbad : ¬ AnswersNoPong l a)
    (hs : l.step payloadCopy a = some l') : ¬ PingPong l' := by
  intro hpp
  cases step_effect payloadCopy hs with
  | unasked _ _ _ _ hgood => exact hbad hgood
  | taken _ _ _ hgood => exact hbad hgood
  | answered p q rest hhops hbeat hflight hflight' hsent hiff =>
    rw [hiff] at hbad
    push Not at hbad
    obtain ⟨hp, hne⟩ := hbad
    have hq := hpp.ends q (by simp [hsent]) (hbeat ▸ hp)
    omega

/-- Along every run, the frames sent keep to the rule if and only if no step
    delivers a PONG to a side that answers heartbeats. -/
theorem pingPong_iff_answersNoPong {client : ClientState} {as : List Move} {l : Link}
    (h : exec (Link.step payloadCopy) (.start client) as = some l) :
    Along (Link.step payloadCopy) PingPong (.start client) as ↔
      Every (Link.step payloadCopy) AnswersNoPong (.start client) as :=
  along_iff_every (fun _ _ _ => accounts_step payloadCopy) (fun _ => Accounts.pingPong)
    (fun _ _ _ _ => pingPong_broken payloadCopy) (accounts_start client) h

/-- The run in which the client answers a PING and the PONG stays under way. -/
theorem pingPong_iff_answersNoPong_once :
    Along (Link.step (.filled _ 0)) PingPong (.start ⟨0, 1⟩) [.heartbeatPing, .clientRecv] ↔
      Every (Link.step (.filled _ 0)) AnswersNoPong (.start ⟨0, 1⟩) [.heartbeatPing, .clientRecv] :=
  pingPong_iff_answersNoPong (.filled _ 0) rfl

/-- The gateway takes the PONG for a PING and answers it: three heartbeat
    frames for one PING. -/
theorem pong_answered :
    ∃ l, exec (Link.step (.filled _ 0)) (.start ⟨0, 1⟩)
        [.heartbeatPing, .clientRecv, .gatewayRecv true] = some l ∧
      l.sent.countP Packet.isPing = 1 ∧ l.sent.countP Packet.isHeartbeat = 3 ∧ ¬ PingPong l := by
  refine ⟨_, rfl, rfl, rfl, ?_⟩
  intro h
  exact absurd h.total (by decide)

end LinuxFileManager.Gateway
