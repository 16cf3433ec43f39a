import LinuxFileManager.Gateway.HeartbeatPolicy
import LinuxFileManager.Gateway.Steps

/-!
# Consecutive failures

A check of one device in its two critical sections (`src/gateway.c` lines 423–453).
In the first the thread looks at the record, and evicts the device, advances
`last_seq` for a PING, or clears `heartbeat_fail`. In the second, behind the PING, it
counts the failure. The mutex is free in between: a frame of the device may be processed
there.

`heartbeat_fail` is cleared only by a check that finds the device active in the last
ten seconds. Activity itself does not clear it, nor the failure of a check that has
found the device late and is still to be counted.

Results:

* `heartbeatCheck_look`, `countFailure_late`: the two critical sections in the threads of
  the gateway.
* `evicts_consecutive_iff`: the failures that lead to an eviction are consecutive if and
  only if the check that evicts the device finds none in the counter for which the device
  was late before its latest activity (`carried`).
* `exec_settled`: with each failure counted when the device is found late, the runs are
  those of `DeviceRun`.
-/

namespace LinuxFileManager.Gateway

open Lib Protocol

/-! ## Model -/

/-- The first critical section for a device (lines 424–451). A failure is still to be
    counted when the device is late. -/
def deviceLook (now : ℤ) (dev : GatewayDevice) : CheckResult :=
  let idle := now - dev.lastActiveTime
  if idle > gatewayHeartbeatTimeoutS then
    if dev.heartbeatFail ≥ 3 then .evicted else .pinged { dev with lastSeq := dev.lastSeq + 1 } true
  else if idle > gatewayHeartbeatIntervalS then .pinged { dev with lastSeq := dev.lastSeq + 1 } false
  else .active { dev with heartbeatFail := 0 }

/-- `dev->heartbeat_fail++` (line 443). -/
def GatewayDevice.countFail (dev : GatewayDevice) : GatewayDevice :=
  { dev with heartbeatFail := dev.heartbeatFail + 1 }

/-- What happens to a device. -/
inductive LifeEvent where
  /-- The first critical section of a check, with the time that the check has read. -/
  | look (now : ℤ)
  /-- The second one, behind the PING to a late device. -/
  | count
  /-- A frame of the device is processed. -/
  | activity (time : ℤ)
  /-- The interactive command `r`. -/
  | restartLed

/-- A device between two events. The last two fields are ghosts: no event depends on
    them. -/
structure DeviceLife where
  run : DeviceRun
  /-- The latest check has found the device late and has not counted the failure yet. -/
  pending : Bool
  /-- The checks since the latest activity that found the device late. -/
  lates : ℕ
  /-- The failures, in `heartbeat_fail` or still to be counted, of checks that found the
      device late before its latest activity. -/
  carried : ℕ

namespace DeviceLife

def start (dev : GatewayDevice) : DeviceLife := ⟨.start dev, false, 0, 0⟩

/-- After a look with the given result. -/
def looked (s : DeviceLife) (now : ℤ) (result : CheckResult) : DeviceLife :=
  match result with
  | .evicted => { s with run := s.run.checked now result }
  | .pinged _ late =>
    { s with
      run := s.run.checked now result
      pending := late
      lates := if late then s.lates + 1 else s.lates }
  | .active _ => { s with run := s.run.checked now result, carried := 0 }

/-- A check comes to the device, or to its empty place. -/
def look (s : DeviceLife) (now : ℤ) : DeviceLife :=
  match s.run.record with
  | none => { s with run := { s.run with lastCheck := some now } }
  | some dev => s.looked now (deviceLook now dev)

def step (s : DeviceLife) : LifeEvent → Option DeviceLife
  | .look now =>
    if s.pending = false ∧ ∀ last ∈ s.run.lastCheck, gatewayHeartbeatIntervalS ≤ now - last then
      some (s.look now)
    else none
  | .count =>
    if s.pending then
      some { s with
        run := { s.run with record := s.run.record.map GatewayDevice.countFail }
        pending := false }
    else none
  | .activity time =>
    some { s with
      run := { s.run with
        record := s.run.record.map fun dev => { dev with lastActiveTime := time }
        awaiting := false }
      lates := 0
      carried := (s.run.record.map GatewayDevice.heartbeatFail).getD 0 + s.pending.toNat }
  | .restartLed =>
    some { s with
      run := { s.run with
        requests := s.run.requests ++ (s.run.record.map fun dev => (restartLedFrame dev).2).toList } }

end DeviceLife

/-- When a look has which result. -/
inductive LookCase (now : ℤ) (dev : GatewayDevice) : CheckResult → Prop where
  | evicted (hlate : gatewayHeartbeatTimeoutS < now - dev.lastActiveTime)
      (hfail : 3 ≤ dev.heartbeatFail) : LookCase now dev .evicted
  | late (hlate : gatewayHeartbeatTimeoutS < now - dev.lastActiveTime) (hfail : dev.heartbeatFail < 3) :
      LookCase now dev (.pinged { dev with lastSeq := dev.lastSeq + 1 } true)
  | idle (hintime : now - dev.lastActiveTime ≤ gatewayHeartbeatTimeoutS) :
      LookCase now dev (.pinged { dev with lastSeq := dev.lastSeq + 1 } false)
  | active (hactive : now - dev.lastActiveTime ≤ gatewayHeartbeatIntervalS) :
      LookCase now dev (.active { dev with heartbeatFail := 0 })

theorem lookCase (now : ℤ) (dev : GatewayDevice) : LookCase now dev (deviceLook now dev) := by
  simp only [deviceLook]
  split_ifs with hlate hfail hidle
  · exact .evicted hlate hfail
  · exact .late hlate (not_le.mp hfail)
  · exact .idle (not_lt.mp hlate)
  · exact .active (not_lt.mp hidle)

/-- The first critical section of `heartbeat_thread_func` for the device in slot `i`. -/
theorem heartbeatCheck_look {ctx : GatewayCtx} {i : ℕ} (now : ℤ) (hi : i < ctx.devices.deviceCount) :
    heartbeatCheck ctx now i =
      match deviceLook now (ctx.devices.slot i) with
      | .evicted => (ctx.close (ctx.devices.slot i).fd, .evicting now i)
      | .pinged dev late =>
        (ctx.write i fun old => { old with lastSeq := dev.lastSeq }, .pinging now i dev.lastSeq late)
      | .active dev =>
        (ctx.write i fun old => { old with heartbeatFail := dev.heartbeatFail }, .checking now (i + 1)) := by
  simp only [heartbeatCheck, deviceLook, if_pos hi]
  split_ifs <;> rfl

/-- The second one. -/
theorem countFailure_late (ctx : GatewayCtx) (i : ℕ) :
    countFailure ctx i true = ctx.write i GatewayDevice.countFail := rfl

/-- What an event does to a device. -/
inductive LifeEffect (s : DeviceLife) : LifeEvent → DeviceLife → Prop where
  | gone (now : ℤ) (hrecord : s.run.record = none) (hfree : s.pending = false)
      (hspaced : ∀ last ∈ s.run.lastCheck, gatewayHeartbeatIntervalS ≤ now - last) :
      LifeEffect s (.look now) { s with run := { s.run with lastCheck := some now } }
  | looked (now : ℤ) (dev : GatewayDevice) (hrecord : s.run.record = some dev)
      (hfree : s.pending = false)
      (hspaced : ∀ last ∈ s.run.lastCheck, gatewayHeartbeatIntervalS ≤ now - last) :
      LifeEffect s (.look now) (s.looked now (deviceLook now dev))
  | counts (hpending : s.pending = true) :
      LifeEffect s .count
        { s with
          run := { s.run with record := s.run.record.map GatewayDevice.countFail }
          pending := false }
  | activity (time : ℤ) :
      LifeEffect s (.activity time)
        { s with
          run := { s.run with
            record := s.run.record.map fun dev => { dev with lastActiveTime := time }
            awaiting := false }
          lates := 0
          carried := (s.run.record.map GatewayDevice.heartbeatFail).getD 0 + s.pending.toNat }
  | restartLed :
      LifeEffect s .restartLed
        { s with
          run := { s.run with
            requests := s.run.requests ++
              (s.run.record.map fun dev => (restartLedFrame dev).2).toList } }

theorem DeviceLife.step_effect {s s' : DeviceLife} {e : LifeEvent} (h : s.step e = some s') :
    LifeEffect s e s' := by
  cases e with
  | look now =>
    simp only [DeviceLife.step] at h
    split_ifs at h with hguard
    cases h
    unfold DeviceLife.look
    cases hrecord : s.run.record with
    | none => exact .gone now hrecord hguard.1 hguard.2
    | some dev => exact .looked now dev hrecord hguard.1 hguard.2
  | count =>
    simp only [DeviceLife.step] at h
    split_ifs at h with hpending
    cases h
    exact .counts hpending
  | activity time =>
    cases h
    exact .activity time
  | restartLed =>
    cases h
    exact .restartLed

/-! ## Failures -/

/-- A check evicts the device only after three checks since its latest activity
    have found it late. -/
def EvictsConsecutive (s : DeviceLife) : LifeEvent → Prop
  | .look now => ∀ dev ∈ s.run.record, (deviceLook now dev).dev?.isNone = true → 3 ≤ s.lates
  | _ => True

instance (s : DeviceLife) : DecidablePred (EvictsConsecutive s)
  | .look now =>
    inferInstanceAs
      (Decidable (∀ dev ∈ s.run.record, (deviceLook now dev).dev?.isNone = true → 3 ≤ s.lates))
  | .count | .activity _ | .restartLed => inferInstanceAs (Decidable True)

/-- When a check evicts the device, the counter holds no failure of a check that found
    the device late before its latest activity. -/
def EvictsUncarried (s : DeviceLife) : LifeEvent → Prop
  | .look now => ∀ dev ∈ s.run.record, (deviceLook now dev).dev?.isNone = true → s.carried = 0
  | _ => True

/-- The counter, with the failure that is still to be counted, is made up of the failures
    before and since the latest activity. -/
structure Counted (s : DeviceLife) : Prop where
  fail : ∀ dev ∈ s.run.record, dev.heartbeatFail + s.pending.toNat = s.carried + s.lates
  le : ∀ dev ∈ s.run.record, dev.heartbeatFail + s.pending.toNat ≤ 3
  late : ∀ dev ∈ s.run.record, 0 < s.lates →
    ∃ last ∈ s.run.lastCheck, gatewayHeartbeatTimeoutS < last - dev.lastActiveTime

theorem counted_start {dev : GatewayDevice} (hfresh : dev.heartbeatFail = 0) : Counted (.start dev) := by
  refine ⟨?_, ?_, ?_⟩ <;> simp [DeviceLife.start, DeviceRun.start, hfresh]

theorem counted_step {s s' : DeviceLife} {e : LifeEvent} (h : Counted s) (hs : s.step e = some s') :
    Counted s' := by
  cases DeviceLife.step_effect hs with
  | gone now hrecord => refine ⟨?_, ?_, ?_⟩ <;> simp [hrecord]
  | restartLed => exact ⟨h.fail, h.le, h.late⟩
  | counts hpending =>
    cases hrecord : s.run.record with
    | none => exact ⟨by simp, by simp, by simp⟩
    | some dev =>
      have hfail := h.fail dev hrecord
      have hle := h.le dev hrecord
      have hlate := h.late dev hrecord
      rw [hpending, Bool.toNat_true] at hfail hle
      refine ⟨?_, ?_, ?_⟩ <;> simp only [Option.map_some, Option.mem_some_iff, forall_eq']
      · exact hfail
      · exact hle
      · exact hlate
  | activity time =>
    cases hrecord : s.run.record with
    | none => exact ⟨by simp, by simp, by simp⟩
    | some dev =>
      have hle := h.le dev hrecord
      exact ⟨by simp, by simpa using hle, by simp⟩
  | looked now dev hrecord hfree hspaced =>
    have hfail := h.fail dev hrecord
    have hle := h.le dev hrecord
    rw [hfree, Bool.toNat_false, Nat.add_zero] at hfail hle
    -- a check that is late stays late until the next activity
    have hnone : now - dev.lastActiveTime ≤ gatewayHeartbeatTimeoutS → s.lates = 0 := by
      intro hintime
      by_contra hlates
      obtain ⟨last, hlast, hlate⟩ := h.late dev hrecord (Nat.pos_of_ne_zero hlates)
      have hspace := hspaced last hlast
      unfold gatewayHeartbeatIntervalS at hspace
      omega
    have hcase := lookCase now dev
    generalize deviceLook now dev = result at hcase
    cases hcase with
    | evicted => exact ⟨nofun, nofun, nofun⟩
    | late hlate hlt =>
      refine ⟨?_, ?_, ?_⟩ <;>
        simp only [DeviceLife.looked, DeviceRun.checked, Option.mem_some_iff, forall_eq', if_true,
          Bool.toNat_true]
      · omega
      · omega
      · exact fun _ => ⟨now, rfl, hlate⟩
    | idle hintime =>
      have hzero := hnone hintime
      refine ⟨?_, ?_, ?_⟩ <;>
        simp only [DeviceLife.looked, DeviceRun.checked, Option.mem_some_iff, forall_eq',
          Bool.false_eq_true, if_false, Bool.toNat_false, Nat.add_zero]
      · exact hfail
      · exact hle
      · omega
    | active hactive =>
      have hzero := hnone (hactive.trans (by decide))
      refine ⟨?_, ?_, ?_⟩ <;>
        simp only [DeviceLife.looked, DeviceRun.checked, Option.mem_some_iff, forall_eq', hfree,
          Bool.toNat_false, Nat.add_zero]
      · omega
      · omega
      · omega

/-- The failures behind an eviction are consecutive if and only if the counter holds none,
    when a check evicts the device, of a check that found it late before its latest
    activity. -/
theorem evicts_consecutive_iff {dev : GatewayDevice} (hfresh : dev.heartbeatFail = 0)
    (es : List LifeEvent) :
    Every DeviceLife.step EvictsConsecutive (.start dev) es ↔
      Every DeviceLife.step EvictsUncarried (.start dev) es := by
  refine every_iff_of_inv (fun _ _ _ => counted_step) (fun s e h => ?_) (counted_start hfresh) es
  cases e with
  | look now =>
    refine forall₂_congr fun dev hdev => imp_congr_right fun hevicts => ?_
    have hfail := h.fail dev hdev
    have hle := h.le dev hdev
    have hcase := lookCase now dev
    generalize deviceLook now dev = result at hevicts hcase
    cases hcase with
    | evicted hlate hthree => omega
    | _ => cases hevicts
  | _ => exact Iff.rfl

theorem evicts_consecutive_iff_fresh :
    Every DeviceLife.step EvictsConsecutive (.start freshDevice) [.look 31, .count, .activity 32] ↔
      Every DeviceLife.step EvictsUncarried (.start freshDevice) [.look 31, .count, .activity 32] :=
  evicts_consecutive_iff rfl _

/-- A device that answers each PING of a check that has found it late, at once,
    and no other. The first answer is processed before the failure is counted. -/
def answersLate : List LifeEvent :=
  [.look 11, .look 21, .look 31, .activity 31, .count, .look 42, .look 52, .look 62, .count,
    .activity 62, .look 73, .look 83, .look 93, .count, .activity 93, .look 104, .look 114, .look 124]

/-- The device is evicted when no check since its latest activity has found it
    late. -/
theorem answersLate_evicted :
    ∃ s, exec DeviceLife.step (.start freshDevice) answersLate = some s ∧
      s.run.record.isNone = true ∧ s.lates = 0 ∧
      ¬ Every DeviceLife.step EvictsConsecutive (.start freshDevice) answersLate := by
  have hend : (exec DeviceLife.step (.start freshDevice) answersLate).map (fun s =>
      (s.run.record.isNone, s.lates)) = some (true, 0) := by decide +kernel
  obtain ⟨s, hs, heq⟩ := Option.map_eq_some_iff.mp hend
  obtain ⟨hrecord, hlates⟩ := Prod.mk.inj heq
  exact ⟨s, hs, hrecord, hlates, by decide +kernel⟩

/-! ## Checks in one step -/

/-- The event of `DeviceRun`, if there is one. -/
def LifeEvent.settled : LifeEvent → List DeviceEvent
  | .look now => [.check now]
  | .count => []
  | .activity time => [.activity time]
  | .restartLed => [.restartLed]

/-- The device with the failure counted that is still to be. -/
def DeviceLife.settled (s : DeviceLife) : DeviceRun :=
  if s.pending then { s.run with record := s.run.record.map GatewayDevice.countFail } else s.run

theorem DeviceLife.settled_of_free {s : DeviceLife} (hfree : s.pending = false) : s.settled = s.run := by
  rw [DeviceLife.settled, if_neg (by rw [hfree]; exact Bool.false_ne_true)]

theorem DeviceLife.settled_looked {s : DeviceLife} (hfree : s.pending = false) (now : ℤ)
    (dev : GatewayDevice) :
    (s.looked now (deviceLook now dev)).settled = s.run.checked now (deviceCheck now dev) := by
  simp only [deviceLook, deviceCheck]
  split_ifs
  · exact settled_of_free hfree
  · rfl
  · rfl
  · exact settled_of_free hfree

/-- An event does to the settled device what it does in `DeviceRun`. -/
theorem DeviceLife.step_settled {s s' : DeviceLife} {e : LifeEvent} (h : s.step e = some s') :
    exec DeviceRun.step s.settled e.settled = some s'.settled := by
  cases DeviceLife.step_effect h with
  | gone now hrecord hfree hspaced =>
    have hstep : s.run.step (.check now) = some { s.run with lastCheck := some now } := by
      simp only [DeviceRun.step, DeviceRun.check, if_pos hspaced, hrecord]
    have hafter : ({ s with run := { s.run with lastCheck := some now } } : DeviceLife).settled =
        { s.run with lastCheck := some now } := settled_of_free hfree
    rw [settled_of_free hfree, hafter]
    exact exec_cons_eq_some.mpr ⟨_, hstep, rfl⟩
  | looked now dev hrecord hfree hspaced =>
    have hstep : s.run.step (.check now) = some (s.run.checked now (deviceCheck now dev)) := by
      simp only [DeviceRun.step, DeviceRun.check, if_pos hspaced, hrecord]
    rw [settled_of_free hfree, settled_looked hfree]
    exact exec_cons_eq_some.mpr ⟨_, hstep, rfl⟩
  | counts hpending =>
    rw [DeviceLife.settled, if_pos hpending]
    rfl
  | activity time =>
    -- the count and the activity change different fields
    obtain ⟨⟨record, lastCheck, requests, awaiting⟩, pending, lates, carried⟩ := s
    cases pending <;> cases record <;> rfl
  | restartLed =>
    -- the request does not depend on the counter
    obtain ⟨⟨record, lastCheck, requests, awaiting⟩, pending, lates, carried⟩ := s
    cases pending <;> cases record <;> rfl

/-- A run of the device leads to where the checks in one step lead. -/
theorem DeviceLife.exec_settled {s s' : DeviceLife} {es : List LifeEvent}
    (h : exec DeviceLife.step s es = some s') :
    exec DeviceRun.step s.settled (es.flatMap LifeEvent.settled) = some s'.settled := by
  induction es generalizing s with
  | nil =>
    cases h
    rfl
  | cons e es ih =>
    obtain ⟨s₁, hstep, hrest⟩ := exec_cons_eq_some.mp h
    rw [List.flatMap_cons, exec_append (DeviceLife.step_settled hstep)]
    exact ih hrest

end LinuxFileManager.Gateway
