import LinuxFileManager.Protocol.Frame

/-!
# The bundled client

Model of `test/client.c` at the level of frames: the four requests of a user or
of the automatic mode (lines 182–219), each of which takes the next sequence
number, and the answer of `handle_server_data` to a complete frame (lines
137–148). The constants of the client have the values of those in `protocol.h`.
-/

namespace LinuxFileManager.Client

open Protocol

/-- `g_client_id` and `g_next_seq`. -/
structure ClientState where
  clientId : ℤ
  nextSeq : UInt16

/-- `send_frame(cmd, flags, g_next_seq++, payload, plen)`. -/
def sendRequest (c : ClientState) (cmd flags : UInt8) (payload : List UInt8) :
    ClientState × ProtoMessage :=
  ({ c with nextSeq := c.nextSeq + 1 },
    ⟨cmd, flags, c.nextSeq, payload, UInt16.ofNat payload.length⟩)

/-- `id_buf` in `do_register`: `CLIENT-%02d` or `LINUX-CLIENT`. -/
def registerId (clientId : ℤ) : String :=
  if 0 < clientId then "CLIENT-" ++ (if clientId < 10 then "0" else "") ++ toString clientId
  else "LINUX-CLIENT"

def doRegister (c : ClientState) : ClientState × ProtoMessage :=
  sendRequest c cmdStm32Register flagRequest (registerId c.clientId).toUTF8.toList

def doSensor (c : ClientState) : ClientState × ProtoMessage :=
  sendRequest c cmdSensorData flagRequest [0x01, 0x02, 0x03, 0x04]

def doGpio (c : ClientState) : ClientState × ProtoMessage :=
  sendRequest c cmdGpioControl flagRequest [0x07, 0x01]

def doPing (c : ClientState) : ClientState × ProtoMessage :=
  sendRequest c cmdPing flagHeartbeat []

/-- What a user can ask for. -/
inductive Command where
  | register
  | sensor
  | gpio
  | ping

def Command.run (cmd : Command) (c : ClientState) : ClientState × ProtoMessage :=
  match cmd with
  | .register => doRegister c
  | .sensor => doSensor c
  | .gpio => doGpio c
  | .ping => doPing c

/-- The frame that `handle_server_data` sends on receiving `msg` (lines 137–148):
    one with the command of a PING for a heartbeat frame, otherwise none. -/
def handleServerData (msg : ProtoMessage) : Option ProtoMessage :=
  if msg.cmd == cmdPing && msg.flags &&& flagHeartbeat != 0 then
    some ⟨cmdPing, flagHeartbeat, msg.seq, [], 0⟩
  else none

end LinuxFileManager.Client
