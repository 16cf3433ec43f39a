import LinuxFileManager.Gateway.Threads

/-!
# What a heartbeat check does to a device

A check of the heartbeat thread (`src/gateway.c` lines 422–454) goes over the
array of devices in place: it deletes the records of the devices it evicts and
writes to the others, in several critical sections. When nothing interferes,
every device gets what its own record calls for (`deviceCheck`).

Results:

* `exists_check_from`: a check without interference goes over the rest of the
  table record by record, with what it does to table, wire and descriptors.
* `heartbeat_check_live`: a check without interference is a `filterMap` of
  `deviceCheck` over the records in use, and sends a PING to the devices for
  which `deviceCheck` has one, in the order of the records.
-/

namespace LinuxFileManager.Gateway

open Lib Protocol

/-! ## Model -/

/-- What becomes of a device in a check. -/
inductive CheckResult where
  | evicted
  /-- The record after the check, and whether a failure was counted. -/
  | pinged (dev : GatewayDevice) (late : Bool)
  | active (dev : GatewayDevice)

/-- The body of the loop (lines 423–453) for one device. -/
def deviceCheck (now : ℤ) (dev : GatewayDevice) : CheckResult :=
  let idle := now - dev.lastActiveTime
  if idle > gatewayHeartbeatTimeoutS then
    if dev.heartbeatFail ≥ 3 then .evicted
    else .pinged { dev with lastSeq := dev.lastSeq + 1, heartbeatFail := dev.heartbeatFail + 1 } true
  else if idle > gatewayHeartbeatIntervalS then .pinged { dev with lastSeq := dev.lastSeq + 1 } false
  else .active { dev with heartbeatFail := 0 }

/-- When a check has which result. -/
inductive CheckCase (now : ℤ) (dev : GatewayDevice) : CheckResult → Prop where
  | evicted (hlate : gatewayHeartbeatTimeoutS < now - dev.lastActiveTime)
      (hfail : 3 ≤ dev.heartbeatFail) : CheckCase now dev .evicted
  | late (hlate : gatewayHeartbeatTimeoutS < now - dev.lastActiveTime) (hfail : dev.heartbeatFail < 3) :
      CheckCase now dev
        (.pinged { dev with lastSeq := dev.lastSeq + 1, heartbeatFail := dev.heartbeatFail + 1 } true)
  | idle (hintime : now - dev.lastActiveTime ≤ gatewayHeartbeatTimeoutS)
      (hidle : gatewayHeartbeatIntervalS < now - dev.lastActiveTime) :
      CheckCase now dev (.pinged { dev with lastSeq := dev.lastSeq + 1 } false)
  | active (hactive : now - dev.lastActiveTime ≤ gatewayHeartbeatIntervalS) :
      CheckCase now dev (.active { dev with heartbeatFail := 0 })

theorem checkCase (now : ℤ) (dev : GatewayDevice) : CheckCase now dev (deviceCheck now dev) := by
  simp only [deviceCheck]
  split_ifs with hlate hfail hidle
  · exact .evicted hlate hfail
  · exact .late hlate (not_le.mp hfail)
  · exact .idle (not_lt.mp hlate) hidle
  · exact .active (not_lt.mp hidle)

/-- The PING to a device whose `last_seq` has just been advanced. -/
def pingFrame (dev : GatewayDevice) : ProtoMessage := ⟨cmdPing, flagHeartbeat, dev.lastSeq, [], 0⟩

namespace CheckResult

/-- The record after the check, if it stays in the table. -/
def dev? : CheckResult → Option GatewayDevice
  | .evicted => none
  | .pinged dev _ | .active dev => some dev

/-- The PING that is sent, with the descriptor. -/
def ping? : CheckResult → Option (ℕ × ProtoMessage)
  | .pinged dev _ => some (dev.fd, pingFrame dev)
  | _ => none

end CheckResult

/-- The open descriptors after the check of one device. -/
def closeEvicted (now : ℤ) (openFds : ℕ → Option ℕ) (dev : GatewayDevice) : ℕ → Option ℕ :=
  match deviceCheck now dev with
  | .evicted => Function.update openFds dev.fd none
  | _ => openFds

/-! ## Steps of the heartbeat thread -/

section

variable {s : Threads} (time : ℤ) {now : ℤ} {i : ℕ}

/-- The thread has its program counter at `pc`, and the context is `ctx`. -/
def Threads.heartbeatAt (s : Threads) (ctx : GatewayCtx) (pc : HeartbeatPc) : Threads :=
  { s with ctx := ctx, heartbeat := { s.heartbeat with pc := pc } }

theorem step_checking (h : s.heartbeat.pc = .checking now i) :
    s.step (.heartbeat time) =
      some (s.heartbeatAt (heartbeatCheck s.ctx now i).1 (heartbeatCheck s.ctx now i).2) := by
  simp [Threads.step, heartbeatStep, h, Threads.heartbeatAt]

theorem step_evicting (h : s.heartbeat.pc = .evicting now i) :
    s.step (.heartbeat time) =
      some (s.heartbeatAt { s.ctx with devices := s.ctx.devices.removeSlot i } (.checking now i)) := by
  simp [Threads.step, heartbeatStep, h, Threads.heartbeatAt]

theorem step_pinging {seq : UInt16} {late : Bool} (h : s.heartbeat.pc = .pinging now i seq late) :
    s.step (.heartbeat time) =
      some (s.heartbeatAt (s.ctx.send (s.ctx.devices.slot i).fd ⟨cmdPing, flagHeartbeat, seq, [], 0⟩)
        (.pinged now i late)) := by
  simp [Threads.step, heartbeatStep, h, Threads.heartbeatAt]

/-- Behind the PING, a failure is counted in the branch that counts one. -/
def countFailure (ctx : GatewayCtx) (i : ℕ) (late : Bool) : GatewayCtx :=
  if late then
    { ctx with
      devices := ctx.devices.modifySlot i fun dev => { dev with heartbeatFail := dev.heartbeatFail + 1 } }
  else ctx

theorem step_pinged {late : Bool} (h : s.heartbeat.pc = .pinged now i late) (hfree : s.locked = false) :
    s.step (.heartbeat time) =
      some (s.heartbeatAt (countFailure s.ctx i late) (.checking now (i + 1))) := by
  cases late <;> simp [Threads.step, heartbeatStep, h, Threads.heartbeatAt, hfree, countFailure]

end

/-- The heartbeat thread alone takes `n` steps from `s` to `s'`, and leaves the
    loop over the devices in the last one at the earliest. -/
structure CheckRun (time : ℤ) (s : Threads) (n : ℕ) (s' : Threads) : Prop where
  run : exec Threads.step s (List.replicate n (.heartbeat time)) = some s'
  inside : ∀ m < n, ∀ s₁, exec Threads.step s (List.replicate m (.heartbeat time)) = some s₁ →
    s₁.heartbeat.pc ≠ .top

theorem CheckRun.refl (time : ℤ) (s : Threads) : CheckRun time s 0 s where
  run := rfl
  inside := fun m hm => absurd hm (Nat.not_lt_zero m)

theorem CheckRun.cons {time : ℤ} {s s₁ s' : Threads} {n : ℕ} (hpc : s.heartbeat.pc ≠ .top)
    (hstep : s.step (.heartbeat time) = some s₁) (h : CheckRun time s₁ n s') :
    CheckRun time s (n + 1) s' where
  run := exec_cons_eq_some.mpr ⟨s₁, hstep, h.run⟩
  inside := by
    intro m hm s₂ hexec
    cases m with
    | zero =>
      cases hexec
      exact hpc
    | succ m =>
      rw [List.replicate_succ, exec, hstep, Option.bind_some] at hexec
      exact h.inside m (by omega) s₂ hexec

theorem CheckRun.trans {time : ℤ} {s s₁ s' : Threads} {n n' : ℕ} (h : CheckRun time s n s₁)
    (h' : CheckRun time s₁ n' s') : CheckRun time s (n + n') s' where
  run := by rw [← List.replicate_append_replicate, exec_append h.run, h'.run]
  inside := by
    intro m hm s₂ hexec
    by_cases hlt : m < n
    · exact h.inside m hlt s₂ hexec
    · obtain ⟨k, rfl⟩ : ∃ k, m = n + k := ⟨m - n, by omega⟩
      rw [← List.replicate_append_replicate, exec_append h.run] at hexec
      exact h'.inside k (by omega) s₂ hexec

/-! ## One device -/

/-- The records after a write to slot `i`. -/
theorem live_modifySlot_of_getElem? {t : DeviceTable} {i : ℕ} {dev : GatewayDevice}
    (h : t.live[i]? = some dev) (f : GatewayDevice → GatewayDevice) :
    (t.modifySlot i f).live = t.live.take i ++ f dev :: t.live.drop (i + 1) := by
  obtain ⟨hi, rfl⟩ := List.getElem?_eq_some_iff.mp h
  rw [DeviceTable.live_modifySlot, List.modify_eq_take_cons_drop hi]

/-- The heartbeat thread is at the head of the loop, with slot `i` next, and the
    mutex is not held by `gateway_stop`. -/
structure AtSlot (s : Threads) (now : ℤ) (i : ℕ) : Prop where
  pc : s.heartbeat.pc = .checking now i
  stop : s.stop.locks = false

theorem heartbeatCheck_of_getElem? {ctx : GatewayCtx} {i : ℕ} {dev : GatewayDevice} (now : ℤ)
    (h : ctx.devices.live[i]? = some dev) :
    heartbeatCheck ctx now i =
      match deviceCheck now dev with
      | .evicted => (ctx.close dev.fd, .evicting now i)
      | .pinged dev' late =>
        ({ ctx with devices := ctx.devices.modifySlot i fun dev => { dev with lastSeq := dev'.lastSeq } },
          .pinging now i dev'.lastSeq late)
      | .active _ =>
        ({ ctx with devices := ctx.devices.modifySlot i fun dev => { dev with heartbeatFail := 0 } },
          .checking now (i + 1)) := by
  have hi : i < ctx.devices.deviceCount := by
    rw [← DeviceTable.length_live]
    exact (List.getElem?_eq_some_iff.mp h).1
  rw [heartbeatCheck, if_pos hi, DeviceTable.slot_eq h, deviceCheck]
  dsimp only
  split_ifs <;> rfl

theorem wire_countFailure (ctx : GatewayCtx) (i : ℕ) (late : Bool) :
    (countFailure ctx i late).wire = ctx.wire := by
  unfold countFailure
  split_ifs <;> rfl

section

variable {ctx : GatewayCtx} {table : DeviceTable} {now : ℤ} {i : ℕ} {dev dev' : GatewayDevice}
  {late : Bool}

/-- The two writes around a PING make the record that the check calls for. -/
theorem live_countFailure (hdevices : ctx.devices =
      table.modifySlot i fun dev => { dev with lastSeq := dev'.lastSeq })
    (hdev : table.live[i]? = some dev) (hresult : deviceCheck now dev = .pinged dev' late) :
    (countFailure ctx i late).devices.live = table.live.take i ++ dev' :: table.live.drop (i + 1) := by
  obtain ⟨hlen, rfl⟩ := List.getElem?_eq_some_iff.mp hdev
  have hcase := checkCase now table.live[i]
  rw [hresult] at hcase
  cases hcase with
  | late =>
    show (ctx.devices.modifySlot i _).live = _
    rw [hdevices, DeviceTable.live_modifySlot, DeviceTable.live_modifySlot, List.modify_modify_eq,
      List.modify_eq_take_cons_drop hlen]
    rfl
  | idle =>
    show ctx.devices.live = _
    rw [hdevices, DeviceTable.live_modifySlot, List.modify_eq_take_cons_drop hlen]

/-- The PING goes to the descriptor of the device. -/
theorem fd_slot_pinged (hdev : table.live[i]? = some dev)
    (hresult : deviceCheck now dev = .pinged dev' late) :
    ((table.modifySlot i fun dev => { dev with lastSeq := dev'.lastSeq }).slot i).fd = dev'.fd := by
  have hget : (table.modifySlot i fun dev => { dev with lastSeq := dev'.lastSeq }).live[i]? =
      some { dev with lastSeq := dev'.lastSeq } := by
    rw [DeviceTable.live_modifySlot, List.getElem?_modify_eq, hdev]
    rfl
  rw [DeviceTable.slot_eq hget]
  have hcase := checkCase now dev
  rw [hresult] at hcase
  cases hcase <;> rfl

end

/-- Without interference a check does to the device in slot `i` what its record
    calls for. -/
theorem exists_check_slot {s : Threads} {now : ℤ} {i : ℕ} {dev : GatewayDevice} (h : AtSlot s now i)
    (hdev : s.ctx.devices.live[i]? = some dev) (time : ℤ) :
    ∃ n s', CheckRun time s n s' ∧
      AtSlot s' now (i + (deviceCheck now dev).dev?.toList.length) ∧
      s'.ctx.devices.live = s.ctx.devices.live.take i ++ (deviceCheck now dev).dev?.toList ++
        s.ctx.devices.live.drop (i + 1) ∧
      s'.ctx.wire = s.ctx.wire ++ (deviceCheck now dev).ping?.toList ∧
      s'.ctx.openFds = closeEvicted now s.ctx.openFds dev := by
  have hi := (List.getElem?_eq_some_iff.mp hdev).1
  have hpc : s.heartbeat.pc ≠ .top := by
    rw [h.pc]
    exact HeartbeatPc.noConfusion
  have hstep := step_checking time h.pc
  rw [heartbeatCheck_of_getElem? now hdev] at hstep
  unfold closeEvicted
  cases hresult : deviceCheck now dev with
  | evicted =>
    simp only [hresult] at hstep
    refine ⟨2, _, .cons hpc hstep (.cons HeartbeatPc.noConfusion (step_evicting time rfl) (.refl _ _)),
      ⟨rfl, h.stop⟩, ?_, by simp [CheckResult.ping?, Threads.heartbeatAt, GatewayCtx.close], rfl⟩
    show (s.ctx.devices.removeSlot i).live = _
    rw [DeviceTable.live_removeSlot _ (by rwa [DeviceTable.length_live] at hi),
      List.eraseIdx_eq_take_drop_succ]
    simp [CheckResult.dev?]
  | pinged dev' late =>
    simp only [hresult] at hstep
    refine ⟨3, _, .cons hpc hstep (.cons HeartbeatPc.noConfusion (step_pinging time rfl)
      (.cons HeartbeatPc.noConfusion (step_pinged time rfl h.stop) (.refl _ _))),
      ⟨rfl, h.stop⟩, ?_, ?_, by cases late <;> rfl⟩
    · refine (live_countFailure rfl hdev hresult).trans ?_
      simp [CheckResult.dev?]
    · show (countFailure _ i late).wire = _
      rw [wire_countFailure]
      exact congrArg (fun fd => s.ctx.wire ++ [(fd, pingFrame dev')]) (fd_slot_pinged hdev hresult)
  | active dev' =>
    simp only [hresult] at hstep
    have hcase := checkCase now dev
    rw [hresult] at hcase
    cases hcase
    refine ⟨1, _, .cons hpc hstep (.refl _ _), ⟨rfl, h.stop⟩, ?_,
      by simp [CheckResult.ping?, Threads.heartbeatAt], rfl⟩
    show (s.ctx.devices.modifySlot i _).live = _
    rw [live_modifySlot_of_getElem? hdev]
    simp [CheckResult.dev?]

/-! ## All devices -/

theorem filterMap_cons_toList {α β : Type} (f : α → Option β) (a : α) (l : List α) :
    (a :: l).filterMap f = (f a).toList ++ l.filterMap f := by
  rw [List.filterMap_cons]
  cases f a <;> rfl

/-- A check without interference goes on from slot `i` to the end of the table. -/
theorem exists_check_from {s : Threads} {now : ℤ} {i : ℕ} (h : AtSlot s now i)
    (hi : i ≤ s.ctx.devices.deviceCount) (time : ℤ) :
    ∃ n s', CheckRun time s n s' ∧ s'.heartbeat.pc = .top ∧
      s'.ctx.devices.live = s.ctx.devices.live.take i ++
        (s.ctx.devices.live.drop i).filterMap (fun dev => (deviceCheck now dev).dev?) ∧
      s'.ctx.wire = s.ctx.wire ++
        (s.ctx.devices.live.drop i).filterMap (fun dev => (deviceCheck now dev).ping?) ∧
      s'.ctx.openFds = (s.ctx.devices.live.drop i).foldl (closeEvicted now) s.ctx.openFds := by
  induction hleft : s.ctx.devices.deviceCount - i generalizing s i with
  | zero =>
    have hend : ¬ i < s.ctx.devices.deviceCount := by omega
    have hdrop : s.ctx.devices.live.drop i = [] :=
      List.drop_eq_nil_of_le (by rw [DeviceTable.length_live]; omega)
    have hpc : s.heartbeat.pc ≠ .top := by
      rw [h.pc]
      exact HeartbeatPc.noConfusion
    have hstep := step_checking time h.pc
    rw [heartbeatCheck, if_neg hend] at hstep
    refine ⟨1, _, .cons hpc hstep (.refl _ _), rfl, ?_, ?_, ?_⟩
    · rw [hdrop, List.filterMap_nil, List.append_nil, List.take_of_length_le]
      · rfl
      · rw [DeviceTable.length_live]
        omega
    · rw [hdrop, List.filterMap_nil, List.append_nil]
      rfl
    · rw [hdrop]
      rfl
  | succ left ih =>
    have hlen : i < s.ctx.devices.live.length := by rw [DeviceTable.length_live]; omega
    obtain ⟨n, s₁, hrun, hat, hlive, hwire, hopen⟩ :=
      exists_check_slot h (List.getElem?_eq_getElem hlen) time
    generalize hkept : (deviceCheck now s.ctx.devices.live[i]).dev?.toList = kept at hat hlive
    have hfront : (s.ctx.devices.live.take i ++ kept).length = i + kept.length := by
      rw [List.length_append, List.length_take, min_eq_left hlen.le]
    have hcount : s₁.ctx.devices.deviceCount = i + kept.length + left := by
      rw [← DeviceTable.length_live, hlive, List.length_append, hfront, List.length_drop,
        DeviceTable.length_live]
      omega
    obtain ⟨n', s', hrun', hpc, hlive', hwire', hopen'⟩ := ih hat (by omega) (by omega)
    rw [hlive, List.take_left' hfront, List.drop_left' hfront] at hlive'
    rw [hlive, List.drop_left' hfront, hwire] at hwire'
    rw [hlive, List.drop_left' hfront, hopen] at hopen'
    rw [List.drop_eq_getElem_cons hlen, filterMap_cons_toList, filterMap_cons_toList, hkept]
    exact ⟨n + n', s', hrun.trans hrun', hpc, by rw [hlive', List.append_assoc],
      by rw [hwire', List.append_assoc], hopen'⟩

/-- A check without interference evicts, pings and clears exactly the devices
    whose records call for it. -/
theorem heartbeat_check_live {s : Threads} {now : ℤ} (h : AtSlot s now 0) (time : ℤ) :
    ∃ n s', exec Threads.step s (List.replicate n (.heartbeat time)) = some s' ∧ s'.heartbeat.pc = .top ∧
      s'.ctx.devices.live = s.ctx.devices.live.filterMap (fun dev => (deviceCheck now dev).dev?) ∧
      s'.ctx.wire = s.ctx.wire ++ s.ctx.devices.live.filterMap (fun dev => (deviceCheck now dev).ping?) := by
  obtain ⟨n, s', hrun, hpc, hlive, hwire, -⟩ := exists_check_from h (Nat.zero_le _) time
  exact ⟨n, s', hrun.run, hpc, hlive, hwire⟩

end LinuxFileManager.Gateway
