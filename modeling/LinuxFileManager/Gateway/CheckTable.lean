import LinuxFileManager.Gateway.DeviceCheck

/-!
# A heartbeat check is a filter and a map

The loop of `heartbeat_thread_func` (`src/gateway.c` lines 422–454) deletes from
the array it walks over and leaves its index where it is when it does. Here the
table after a check that nothing interrupts is given in terms of the table
before it: which records are dropped, what happens to the others, what is sent
and what is closed.

Results:

* `deviceCheck_eq`: the body of the loop as conditions on the record.
* `heartbeat_check_table`: the check as a whole.
-/

namespace LinuxFileManager.Gateway

open Lib Protocol

/-! ## The abstract check -/

/-- The device has been silent for too long, and has failed to answer too often. -/
def Expired (now : ℤ) (dev : GatewayDevice) : Prop :=
  30 < now - dev.lastActiveTime ∧ 3 ≤ dev.heartbeatFail

instance (now : ℤ) : DecidablePred (Expired now) := fun _ => inferInstanceAs (Decidable (_ ∧ _))

/-- The record of a device that a check keeps. -/
def checked (now : ℤ) (dev : GatewayDevice) : GatewayDevice :=
  if 30 < now - dev.lastActiveTime then
    { dev with lastSeq := dev.lastSeq + 1, heartbeatFail := dev.heartbeatFail + 1 }
  else if 10 < now - dev.lastActiveTime then { dev with lastSeq := dev.lastSeq + 1 }
  else { dev with heartbeatFail := 0 }

/-- The records that a check keeps. -/
def kept (now : ℤ) (live : List GatewayDevice) : List GatewayDevice :=
  live.filter fun dev => ¬ Expired now dev

/-- The PINGs of a check, each with the descriptor it is sent on. -/
def pings (now : ℤ) (live : List GatewayDevice) : List (ℕ × ProtoMessage) :=
  ((kept now live).filter fun dev => 10 < now - dev.lastActiveTime).map fun dev =>
    (dev.fd, ⟨cmdPing, flagHeartbeat, dev.lastSeq + 1, [], 0⟩)

/-- The descriptors of the records that a check drops. -/
def evictedFds (now : ℤ) (live : List GatewayDevice) : List ℕ :=
  (live.filter fun dev => Expired now dev).map GatewayDevice.fd

/-! ## One device -/

theorem lastSeq_checked {now : ℤ} {dev : GatewayDevice} (h : 10 < now - dev.lastActiveTime) :
    (checked now dev).lastSeq = dev.lastSeq + 1 := by
  unfold checked
  by_cases hlate : 30 < now - dev.lastActiveTime
  · rw [if_pos hlate]
  · rw [if_neg hlate, if_pos h]

theorem fd_checked (now : ℤ) (dev : GatewayDevice) : (checked now dev).fd = dev.fd := by
  unfold checked
  split_ifs <;> rfl

/-- The body of the loop in terms of the abstract check. -/
theorem deviceCheck_eq (now : ℤ) (dev : GatewayDevice) :
    deviceCheck now dev =
      if Expired now dev then .evicted
      else if 10 < now - dev.lastActiveTime then
        .pinged (checked now dev) (30 < now - dev.lastActiveTime)
      else .active (checked now dev) := by
  have hcase := checkCase now dev
  generalize deviceCheck now dev = result at hcase ⊢
  unfold checked
  cases hcase with
  | evicted hlate hfail => exact (if_pos ⟨hlate, hfail⟩).symm
  | late hlate hfail =>
    have hkept : ¬ Expired now dev := fun h => absurd h.2 (not_le.mpr hfail)
    have h30 : 30 < now - dev.lastActiveTime := hlate
    rw [if_neg hkept, if_pos (by omega), if_pos h30, decide_eq_true h30]
  | idle hintime hidle =>
    have h30 : ¬ 30 < now - dev.lastActiveTime := not_lt.mpr hintime
    have hkept : ¬ Expired now dev := fun h => h30 h.1
    have h10 : 10 < now - dev.lastActiveTime := hidle
    rw [if_neg hkept, if_pos h10, if_neg h30, if_pos h10, decide_eq_false h30]
  | active hactive =>
    have h10 : ¬ 10 < now - dev.lastActiveTime := not_lt.mpr hactive
    have h30 : ¬ 30 < now - dev.lastActiveTime := by omega
    have hkept : ¬ Expired now dev := fun h => h30 h.1
    rw [if_neg hkept, if_neg h10, if_neg h30, if_neg h10]

theorem dev?_eq (now : ℤ) (dev : GatewayDevice) :
    (deviceCheck now dev).dev? = if ¬ Expired now dev then some (checked now dev) else none := by
  rw [deviceCheck_eq, ite_not]
  split_ifs <;> rfl

theorem ping?_eq (now : ℤ) (dev : GatewayDevice) :
    (deviceCheck now dev).ping? = if ¬ Expired now dev then
        if 10 < now - dev.lastActiveTime then
          some (dev.fd, ⟨cmdPing, flagHeartbeat, dev.lastSeq + 1, [], 0⟩)
        else none
      else none := by
  rw [deviceCheck_eq, ite_not]
  split_ifs with hevicts hidle
  · rfl
  · show some ((checked now dev).fd, pingFrame (checked now dev)) = _
    rw [pingFrame, fd_checked, lastSeq_checked hidle]
  · rfl

theorem closeEvicted_eq (now : ℤ) (openFds : ℕ → Option ℕ) (dev : GatewayDevice) :
    closeEvicted now openFds dev =
      if Expired now dev then Function.update openFds dev.fd none else openFds := by
  rw [closeEvicted, deviceCheck_eq]
  split_ifs <;> rfl

/-! ## All devices -/

theorem filterMap_dev?_eq (now : ℤ) (live : List GatewayDevice) :
    live.filterMap (fun dev => (deviceCheck now dev).dev?) = (kept now live).map (checked now) := by
  rw [kept, ← List.filterMap_eq_map', List.filterMap_filter]
  simp only [dev?_eq, decide_eq_true_eq]

theorem filterMap_ping?_eq (now : ℤ) (live : List GatewayDevice) :
    live.filterMap (fun dev => (deviceCheck now dev).ping?) = pings now live := by
  rw [pings, kept, ← List.filterMap_eq_map', List.filterMap_filter, List.filterMap_filter]
  simp only [ping?_eq, decide_eq_true_eq]

theorem foldl_closeEvicted (now : ℤ) (live : List GatewayDevice) (openFds : ℕ → Option ℕ) (fd : ℕ) :
    live.foldl (closeEvicted now) openFds fd =
      if fd ∈ evictedFds now live then none else openFds fd := by
  induction live generalizing openFds with
  | nil => rfl
  | cons dev live ih =>
    rw [List.foldl_cons, ih, closeEvicted_eq, evictedFds, evictedFds]
    by_cases h : Expired now dev
    · rw [if_pos h, List.filter_cons_of_pos (by simpa using h), List.map_cons]
      by_cases hfd : fd = dev.fd
      · rw [hfd, Function.update_self, ite_self, if_pos List.mem_cons_self]
      · simp only [Function.update_of_ne hfd, List.mem_cons, hfd, false_or]
    · rw [if_neg h, List.filter_cons_of_neg (by simpa using h)]

/-- A heartbeat check that no other thread interrupts keeps the records of the
    devices it does not evict, in their order, each with the update that its
    silence calls for; it sends one PING to each kept device that has been silent
    for more than 10 seconds, in the order of the table and with the new sequence
    number; and it closes the descriptors of the dropped records and no others. -/
theorem heartbeat_check_table {s : Threads} {now : ℤ} (h : AtSlot s now 0) (time : ℤ) :
    ∃ n s', CheckRun time s n s' ∧ s'.heartbeat.pc = .top ∧
      s'.ctx.devices.live = (kept now s.ctx.devices.live).map (checked now) ∧
      s'.ctx.wire = s.ctx.wire ++ pings now s.ctx.devices.live ∧
      ∀ fd, s'.ctx.openFds fd =
        if fd ∈ evictedFds now s.ctx.devices.live then none else s.ctx.openFds fd := by
  obtain ⟨n, s', hrun, hpc, hlive, hwire, hopen⟩ := exists_check_from h (Nat.zero_le _) time
  rw [List.take_zero, List.nil_append, List.drop_zero, filterMap_dev?_eq] at hlive
  rw [List.drop_zero, filterMap_ping?_eq] at hwire
  rw [List.drop_zero] at hopen
  refine ⟨n, s', hrun, hpc, hlive, hwire, ?_⟩
  intro fd
  rw [hopen, foldl_closeEvicted]

/-- A device with the given descriptor, failures and activity. -/
def sampleDevice (fd heartbeatFail : ℕ) (lastActiveTime : ℤ) : GatewayDevice :=
  { GatewayDevice.zero with
    fd := fd, lastSeq := 65535, heartbeatFail := heartbeatFail, lastActiveTime := lastActiveTime }

/-- The heartbeat thread at the beginning of a check at time `100`, with five
    devices, of which it evicts the second, the third and the last. -/
def sampleThreads : Threads :=
  { Threads.start 0 with
    heartbeat := ⟨100, .checking 100 0⟩
    ctx := { GatewayCtx.init with
      openFds := some
      devices := {
        devices := [sampleDevice 5 2 0, sampleDevice 6 3 0, sampleDevice 7 4 69, sampleDevice 8 3 80,
          sampleDevice 9 5 1] ++ List.replicate 27 .zero
        deviceCount := 5
        length_devices := by decide
        deviceCount_le := by decide } } }

theorem heartbeat_check_table_sample :
    ∃ n s', CheckRun 100 sampleThreads n s' ∧ s'.heartbeat.pc = .top ∧
      s'.ctx.devices.live.map (fun dev => (dev.fd, dev.heartbeatFail, dev.lastSeq)) =
        [(5, 3, 0), (8, 3, 0)] ∧
      s'.ctx.wire.map Prod.fst = [5, 8] ∧
      [5, 6, 7, 8, 9].map s'.ctx.openFds = [some 5, none, none, some 8, none] := by
  obtain ⟨n, s', hrun, hpc, hlive, hwire, hopen⟩ :=
    heartbeat_check_table (⟨rfl, rfl⟩ : AtSlot sampleThreads 100 0) 100
  have hopen' : s'.ctx.openFds = fun fd =>
      if fd ∈ evictedFds 100 sampleThreads.ctx.devices.live then none
      else sampleThreads.ctx.openFds fd := funext hopen
  refine ⟨n, s', hrun, hpc, ?_, ?_, ?_⟩
  · rw [hlive]
    decide +kernel
  · rw [hwire]
    decide +kernel
  · rw [hopen']
    decide +kernel

end LinuxFileManager.Gateway
