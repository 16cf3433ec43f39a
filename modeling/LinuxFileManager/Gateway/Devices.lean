import LinuxFileManager.Lib.Shift
import LinuxFileManager.Protocol.Frame

/-!
# The device table

Model of `GatewayDevice` (`include/gateway.h` lines 54–63), of the array
`devices[GATEWAY_MAX_CLIENTS]` with its `device_count`, and of the critical
sections that work on it (`src/gateway.c` lines 666–723). The array keeps all
its slots: a slot at or above `device_count` still holds the record that was
there last, and a pointer into the array is a slot number.

`live` is the list of records in use. Each critical section is described by
what it does to `live`; `findSlot` is the search that three of them share.
-/

namespace LinuxFileManager.Gateway

open Lib Protocol

/-! ## Model -/

def gatewayMaxClients : ℕ := 32

def devTypeStm32 : UInt8 := 0x01
def devTypeEsp8266 : UInt8 := 0x02
def devTypeUnknown : UInt8 := 0xFF

/-- `sizeof(dev->dev_id)`. -/
def devIdSize : ℕ := 32

/-- `GatewayDevice`. The field `conn` is a ghost: the number of the accepted
    connection that the record was made for. -/
structure GatewayDevice where
  fd : ℕ
  ip : String
  port : ℕ
  devType : UInt8
  devId : Buffer UInt8 devIdSize
  lastSeq : UInt16
  heartbeatFail : ℕ
  lastActiveTime : ℤ
  conn : ℕ

/-- What identifies a record: its descriptor and its connection. -/
def GatewayDevice.key (dev : GatewayDevice) : ℕ × ℕ := (dev.fd, dev.conn)

/-- A slot as `calloc` leaves it. -/
def GatewayDevice.zero : GatewayDevice := ⟨0, "", 0, 0, .filled _ 0, 0, 0, 0, 0⟩

/-- `devices` and `device_count` of `GatewayCtx`. -/
structure DeviceTable where
  devices : List GatewayDevice
  deviceCount : ℕ
  length_devices : devices.length = gatewayMaxClients
  deviceCount_le : deviceCount ≤ gatewayMaxClients

namespace DeviceTable

/-- The table of a fresh `GatewayCtx`. -/
def empty : DeviceTable :=
  ⟨List.replicate gatewayMaxClients .zero, 0, List.length_replicate, Nat.zero_le _⟩

/-- The records in use, `devices[0..device_count)`. -/
def live (t : DeviceTable) : List GatewayDevice := t.devices.take t.deviceCount

/-- `for (i = 0; i < device_count; i++) if (devices[i].fd == fd) ...`: the
    first slot in use whose record has this descriptor. -/
def findSlot (t : DeviceTable) (fd : ℕ) : Option ℕ := t.live.findIdx? fun dev => dev.fd == fd

/-- A write through a pointer to slot `i`, in use or not. -/
def modifySlot (t : DeviceTable) (i : ℕ) (f : GatewayDevice → GatewayDevice) : DeviceTable :=
  { t with devices := t.devices.modify i f, length_devices := by simp [t.length_devices] }

/-- `for (j = i; j < device_count - 1; j++) devices[j] = devices[j + 1];
    device_count--;` (lines 431–433 and 691–693). -/
def removeSlot (t : DeviceTable) (i : ℕ) : DeviceTable where
  devices := shiftDown t.devices i (t.deviceCount - 1 - i)
  deviceCount := t.deviceCount - 1
  length_devices := by rw [length_shiftDown, t.length_devices]
  deviceCount_le := (Nat.sub_le _ _).trans t.deviceCount_le

/-- A read through a pointer to slot `i`. -/
def slot (t : DeviceTable) (i : ℕ) : GatewayDevice := t.devices.getD i .zero

/-- `device_count = 0` (line 281). -/
def clear (t : DeviceTable) : DeviceTable := { t with deviceCount := 0, deviceCount_le := Nat.zero_le _ }

/-- The writes of `add_device` to the record (lines 674–681). -/
def initDevice (fd : ℕ) (ip : String) (port : ℕ) (now : ℤ) (conn : ℕ) (dev : GatewayDevice) :
    GatewayDevice where
  fd := fd
  ip := ip
  port := port
  devType := devTypeUnknown
  devId := dev.devId.write 0 [0] (by decide)
  lastSeq := 0
  heartbeatFail := 0
  lastActiveTime := now
  conn := conn

/-- `add_device` (lines 666–685); `none` when the table is full. -/
def addDevice (t : DeviceTable) (fd : ℕ) (ip : String) (port : ℕ) (now : ℤ) (conn : ℕ) :
    Option DeviceTable :=
  if h : t.deviceCount ≥ gatewayMaxClients then none
  else
    let t' := t.modifySlot t.deviceCount (initDevice fd ip port now conn)
    some { t' with deviceCount := t.deviceCount + 1, deviceCount_le := by omega }

/-- `remove_device` (lines 687–698). -/
def removeDevice (t : DeviceTable) (fd : ℕ) : DeviceTable :=
  match t.findSlot fd with
  | some i => t.removeSlot i
  | none => t

/-- `update_device_activity` (lines 700–709). -/
def updateDeviceActivity (t : DeviceTable) (fd : ℕ) (now : ℤ) : DeviceTable :=
  match t.findSlot fd with
  | some i => t.modifySlot i fun dev => { dev with lastActiveTime := now }
  | none => t

/-! ## What the critical sections do to the records in use -/

theorem length_live (t : DeviceTable) : t.live.length = t.deviceCount := by
  rw [live, List.length_take, t.length_devices, min_eq_left t.deviceCount_le]

theorem live_modifySlot (t : DeviceTable) (i : ℕ) (f : GatewayDevice → GatewayDevice) :
    (t.modifySlot i f).live = t.live.modify i f := by
  simp [live, modifySlot, List.take_modify]

theorem live_removeSlot (t : DeviceTable) {i : ℕ} (h : i < t.deviceCount) :
    (t.removeSlot i).live = t.live.eraseIdx i :=
  take_shiftDown h (t.deviceCount_le.trans t.length_devices.ge)

theorem live_removeSlot_sublist (t : DeviceTable) (i : ℕ) : (t.removeSlot i).live.Sublist t.live := by
  by_cases h : i < t.deviceCount
  · rw [live_removeSlot t h]
    exact List.eraseIdx_sublist _ _
  · have hnone : t.deviceCount - 1 - i = 0 := by omega
    show ((shiftDown t.devices i (t.deviceCount - 1 - i)).take (t.deviceCount - 1)).Sublist _
    rw [hnone]
    exact List.take_sublist_take_left (Nat.sub_le _ _)

/-- A successful `add_device` appends one record. -/
theorem live_addDevice {t t' : DeviceTable} {fd : ℕ} {ip : String} {port : ℕ} {now : ℤ} {conn : ℕ}
    (h : t.addDevice fd ip port now conn = some t') :
    ∃ old, t'.live = t.live ++ [initDevice fd ip port now conn old] := by
  unfold addDevice at h
  split_ifs at h with hfull
  cases h
  have hlt : t.deviceCount < t.devices.length := by rw [t.length_devices]; omega
  refine ⟨t.devices[t.deviceCount], ?_⟩
  simp only [live, modifySlot]
  rw [List.take_add_one, List.take_modify, List.getElem?_modify_eq, List.getElem?_eq_getElem hlt,
    List.modify_eq_self (by rw [List.length_take]; omega)]
  rfl

/-! ## The search by descriptor -/

theorem findSlot_eq_some {t : DeviceTable} {fd i : ℕ} :
    t.findSlot fd = some i ↔ (∃ dev, t.live[i]? = some dev ∧ dev.fd = fd) ∧
      ∀ j < i, ∀ dev, t.live[j]? = some dev → dev.fd ≠ fd := by
  rw [findSlot, List.findIdx?_eq_some_iff_getElem]
  constructor
  · rintro ⟨hi, heq, hne⟩
    refine ⟨⟨_, List.getElem?_eq_getElem hi, by simpa using heq⟩, fun j hj dev hdev => ?_⟩
    obtain ⟨_, rfl⟩ := List.getElem?_eq_some_iff.mp hdev
    simpa using hne j hj
  · rintro ⟨⟨dev, hdev, heq⟩, hne⟩
    obtain ⟨hi, rfl⟩ := List.getElem?_eq_some_iff.mp hdev
    refine ⟨hi, by simpa using heq, fun j hj => ?_⟩
    simpa using hne j hj _ (List.getElem?_eq_getElem (hj.trans hi))

theorem findSlot_eq_none {t : DeviceTable} {fd : ℕ} :
    t.findSlot fd = none ↔ ∀ dev ∈ t.live, dev.fd ≠ fd := by
  simp [findSlot]

theorem lt_of_findSlot {t : DeviceTable} {fd i : ℕ} (h : t.findSlot fd = some i) :
    i < t.deviceCount := by
  obtain ⟨⟨dev, hdev, -⟩, -⟩ := findSlot_eq_some.mp h
  rw [← t.length_live]
  exact (List.getElem?_eq_some_iff.mp hdev).1

/-- A record that is found stays found at its slot when records are appended. -/
theorem findSlot_addDevice {t t' : DeviceTable} {fd i fd' : ℕ} {ip : String} {port : ℕ} {now : ℤ}
    {conn : ℕ} (h : t.findSlot fd = some i) (hadd : t.addDevice fd' ip port now conn = some t') :
    t'.findSlot fd = some i := by
  obtain ⟨old, hlive⟩ := live_addDevice hadd
  simp only [findSlot] at h ⊢
  rw [hlive, List.findIdx?_append, h]
  rfl

theorem findSlot_eq_findIdx?_map (t : DeviceTable) (fd : ℕ) :
    t.findSlot fd = (t.live.map GatewayDevice.fd).findIdx? (· == fd) := by
  rw [findSlot, List.findIdx?_map]
  rfl

/-- A record that is found stays found at its slot when a record behind it is
    removed. -/
theorem findSlot_removeSlot {t : DeviceTable} {fd i j : ℕ} (h : t.findSlot fd = some j) (hji : j < i)
    (hi : i < t.deviceCount) : (t.removeSlot i).findSlot fd = some j := by
  rw [findSlot_eq_some] at h ⊢
  rw [live_removeSlot t hi]
  have hget : ∀ k ≤ j, (t.live.eraseIdx i)[k]? = t.live[k]? :=
    fun k hk => List.getElem?_eraseIdx_of_lt (by omega)
  refine ⟨by rw [hget j le_rfl]; exact h.1, fun k hk dev hdev => ?_⟩
  rw [hget k hk.le] at hdev
  exact h.2 k hk dev hdev

/-! ## Writes that keep the records -/

/-- `t'` has the same records in use as `t`, possibly with other contents. -/
def Kept (t t' : DeviceTable) : Prop := t'.live.map GatewayDevice.key = t.live.map GatewayDevice.key

theorem Kept.refl (t : DeviceTable) : Kept t t := rfl

theorem Kept.findSlot {t t' : DeviceTable} (h : Kept t t') (fd : ℕ) :
    t'.findSlot fd = t.findSlot fd := by
  have hfd : ∀ t : DeviceTable, t.live.map GatewayDevice.fd =
      (t.live.map GatewayDevice.key).map Prod.fst := by
    intro t
    rw [List.map_map]
    rfl
  rw [findSlot_eq_findIdx?_map, findSlot_eq_findIdx?_map, hfd, hfd, h]

theorem Kept.deviceCount {t t' : DeviceTable} (h : Kept t t') : t'.deviceCount = t.deviceCount := by
  have hlen := congrArg List.length h
  rwa [List.length_map, List.length_map, length_live, length_live] at hlen

theorem kept_modifySlot (t : DeviceTable) (i : ℕ) {f : GatewayDevice → GatewayDevice}
    (h : ∀ dev, (f dev).key = dev.key) : Kept t (t.modifySlot i f) := by
  rw [Kept, live_modifySlot, map_modify_of_forall h]

theorem kept_updateDeviceActivity (t : DeviceTable) (fd : ℕ) (now : ℤ) :
    Kept t (t.updateDeviceActivity fd now) := by
  unfold updateDeviceActivity
  split
  · exact kept_modifySlot t _ fun _ => rfl
  · exact .refl t

/-- A pointer to a slot in use points to the record there. -/
theorem slot_eq {t : DeviceTable} {i : ℕ} {dev : GatewayDevice} (h : t.live[i]? = some dev) :
    t.slot i = dev := by
  obtain ⟨hi, heq⟩ := List.getElem?_eq_some_iff.mp h
  rw [length_live] at hi
  rw [live, List.getElem?_take_of_lt hi] at h
  rw [slot, List.getD_eq_getElem?_getD, h]
  rfl

theorem mem_live_slot {t : DeviceTable} {i : ℕ} (h : i < t.deviceCount) : t.slot i ∈ t.live := by
  rw [← t.length_live] at h
  rw [slot_eq (List.getElem?_eq_getElem h)]
  exact List.getElem_mem h

/-- The slot that a search finds holds a record with the descriptor. -/
theorem fd_slot_of_findSlot {t : DeviceTable} {fd i : ℕ} (h : t.findSlot fd = some i) :
    (t.slot i).fd = fd := by
  obtain ⟨⟨dev, hdev, heq⟩, -⟩ := findSlot_eq_some.mp h
  rw [slot_eq hdev, heq]

end DeviceTable

end LinuxFileManager.Gateway
