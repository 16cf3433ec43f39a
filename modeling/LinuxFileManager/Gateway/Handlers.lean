import LinuxFileManager.Gateway.Devices

/-!
# Message handlers

The handler list of `GatewayCtx` (`src/gateway.c` lines 137–151 and 725–737)
and the three handlers that `gateway_server_menu` registers (`src/menu.c` lines
29–87). Each of those reads the device record it is given, `handle_register`
also writes it, and each sends one response on the descriptor it finds in the
record.
-/

namespace LinuxFileManager.Gateway

open Lib Protocol

/-! ## The handler list -/

/-- `struct HandlerNode` without the link; `η` stands for the function pointer. -/
structure HandlerNode (η : Type) where
  cmd : UInt8
  handler : η

variable {η : Type}

/-- `gateway_register_handler` puts the new node in front (lines 146–147). -/
def gatewayRegisterHandler (handlers : List (HandlerNode η)) (cmd : UInt8) (handler : η) :
    List (HandlerNode η) :=
  ⟨cmd, handler⟩ :: handlers

/-- `find_handler` (lines 725–737). -/
def findHandler : List (HandlerNode η) → UInt8 → Option (HandlerNode η)
  | [], _ => none
  | node :: rest, cmd => if node.cmd = cmd then some node else findHandler rest cmd

/-- The list after registrations in the order of `nodes`. -/
def registerAll (nodes : List (HandlerNode η)) : List (HandlerNode η) :=
  nodes.foldl (fun handlers node => gatewayRegisterHandler handlers node.cmd node.handler) []

/-- `node` is the one of `nodes` for `cmd` that comes last. -/
def LastFor (nodes : List (HandlerNode η)) (cmd : UInt8) (node : HandlerNode η) : Prop :=
  ∃ before after, nodes = before ++ node :: after ∧ node.cmd = cmd ∧ ∀ n ∈ after, n.cmd ≠ cmd

theorem registerAll_concat (nodes : List (HandlerNode η)) (node : HandlerNode η) :
    registerAll (nodes ++ [node]) = node :: registerAll nodes := by
  rw [registerAll, List.foldl_append]
  rfl

/-- `find_handler` finds the handler that was registered last for the command. -/
theorem findHandler_registerAll (nodes : List (HandlerNode η)) (cmd : UInt8) :
    (∃ node, findHandler (registerAll nodes) cmd = some node ∧ LastFor nodes cmd node) ∨
      (findHandler (registerAll nodes) cmd = none ∧ ∀ node ∈ nodes, node.cmd ≠ cmd) := by
  induction nodes using List.reverseRecOn with
  | nil => exact Or.inr ⟨rfl, by simp⟩
  | append_singleton nodes last ih =>
    rw [registerAll_concat, findHandler]
    split_ifs with hcmd
    · exact Or.inl ⟨last, rfl, nodes, [], rfl, hcmd, by simp⟩
    · rcases ih with ⟨node, hfind, before, after, rfl, hnode, hafter⟩ | ⟨hfind, hnone⟩
      · refine Or.inl ⟨node, hfind, before, after ++ [last], by simp, hnode, ?_⟩
        simpa [or_imp, forall_and] using ⟨hafter, hcmd⟩
      · refine Or.inr ⟨hfind, ?_⟩
        simpa [or_imp, forall_and] using ⟨hnone, hcmd⟩

/-- No two nodes of a list are the last for one command. -/
theorem LastFor.unique {nodes : List (HandlerNode η)} {cmd : UInt8} {node node' : HandlerNode η}
    (h : LastFor nodes cmd node) (h' : LastFor nodes cmd node') : node = node' := by
  obtain ⟨before, after, heq, hcmd, hafter⟩ := h
  obtain ⟨before', after', heq', hcmd', hafter'⟩ := h'
  rcases List.append_eq_append_iff.mp (heq.symm.trans heq') with ⟨l, rfl, hl⟩ | ⟨l, rfl, hl⟩
  · cases l with
    | nil => exact (List.cons.inj hl).1
    | cons a l =>
      refine absurd hcmd' (hafter node' ?_)
      rw [(List.cons.inj hl).2]
      simp
  · cases l with
    | nil => exact (List.cons.inj hl).1.symm
    | cons a l =>
      refine absurd hcmd (hafter' node ?_)
      rw [(List.cons.inj hl).2]
      simp

theorem LastFor.mem {nodes : List (HandlerNode η)} {cmd : UInt8} {node : HandlerNode η}
    (h : LastFor nodes cmd node) : node ∈ nodes ∧ node.cmd = cmd := by
  obtain ⟨before, after, rfl, hcmd, -⟩ := h
  exact ⟨by simp, hcmd⟩

/-! ## The handlers of the menu -/

/-- The three functions that `gateway_server_menu` registers. -/
inductive MenuHandler where
  | handleSensorData
  | handleRegister
  | handleGpioControl
  deriving DecidableEq, Repr

/-- The registrations of `gateway_server_menu` (lines 122–124), in their order. -/
def menuRegistrations : List (HandlerNode MenuHandler) :=
  [⟨cmdSensorData, .handleSensorData⟩, ⟨cmdStm32Register, .handleRegister⟩,
    ⟨cmdGpioControl, .handleGpioControl⟩]

/-- The handler list that `gateway_server_menu` sets up. -/
def menuHandlers : List (HandlerNode MenuHandler) :=
  let handlers := gatewayRegisterHandler [] cmdSensorData .handleSensorData
  let handlers := gatewayRegisterHandler handlers cmdStm32Register .handleRegister
  gatewayRegisterHandler handlers cmdGpioControl .handleGpioControl

theorem menuHandlers_eq_registerAll : menuHandlers = registerAll menuRegistrations := rfl

/-- `memcpy(dev->dev_id, payload, payload_len); dev->dev_id[payload_len] = 0;`
    in `handle_register` (lines 54–58). -/
def writeDevId (msg : ProtoMessage) (dev : GatewayDevice) : GatewayDevice :=
  if h : 0 < msg.payloadLen.toNat ∧ msg.payloadLen.toNat < devIdSize then
    { dev with
      devId := dev.devId.write 0 (msg.payload.take msg.payloadLen.toNat ++ [0]) (by
        rw [List.length_append, List.length_take, List.length_singleton]; omega) }
  else dev

/-- The assignment to `dev_type` in `handle_register` (lines 60–68). -/
def writeDevType (msg : ProtoMessage) (dev : GatewayDevice) : GatewayDevice :=
  if 2 ≤ msg.payloadLen.toNat then
    -- "ST" and "ES"
    if msg.payload.take 2 = [0x53, 0x54] then { dev with devType := devTypeStm32 }
    else if msg.payload.take 2 = [0x45, 0x53] then { dev with devType := devTypeEsp8266 }
    else dev
  else dev

/-- The frame that a handler sends with `gateway_send_response`. -/
def MenuHandler.response (h : MenuHandler) (seq : UInt16) : ProtoMessage :=
  match h with
  | .handleSensorData => ⟨cmdSensorData, flagResponse, seq, [0x01], 1⟩
  | .handleRegister => ⟨cmdStm32Register, flagResponse, seq, [0x00, 0x01], 2⟩
  | .handleGpioControl => ⟨cmdGpioControl, flagResponse, seq, [0x01], 1⟩

@[simp] theorem key_writeDevId (msg : ProtoMessage) (dev : GatewayDevice) :
    (writeDevId msg dev).key = dev.key := by
  unfold writeDevId
  split_ifs <;> rfl

@[simp] theorem key_writeDevType (msg : ProtoMessage) (dev : GatewayDevice) :
    (writeDevType msg dev).key = dev.key := by
  unfold writeDevType
  split_ifs <;> rfl

end LinuxFileManager.Gateway
