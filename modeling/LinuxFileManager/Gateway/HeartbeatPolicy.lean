import LinuxFileManager.Gateway.DeviceCheck

/-!
# The heartbeat policy

One device through the heartbeat checks, its own activity, and the requests of
the interactive command `r`: what `heartbeat_thread_func` (`src/gateway.c` lines
412–457), `update_device_activity` (lines 700–709) and the command (lines
621–634) do to its record and send to it. A check does to the device what
`heartbeat_check_live` shows. It is one step here: what comes between its PING and
its count of a failure can as well come behind the count (`Gateway.Failures`).

`last_seq` is advanced by a PING, but not by the command. The requests are in the
order in which their numbers are taken.

Results:

* `responsive_kept_silent_evicted`: a device that answers every PING is never
  evicted, and a silent one is evicted at exactly the fourth check that finds it
  late.
* `requests_distinct_iff`: the sequence numbers of the requests to a device are
  distinct if and only if no request follows one of the command.
-/

namespace LinuxFileManager.Gateway

open Lib Protocol

/-! ## Model -/

/-- What happens to a device. -/
inductive DeviceEvent where
  /-- A check, with the time it has read. -/
  | check (now : ℤ)
  /-- A frame of the device is processed. -/
  | activity (time : ℤ)
  /-- The interactive command `r`. -/
  | restartLed

/-- The time of a check. -/
def DeviceEvent.check? : DeviceEvent → Option ℤ
  | .check now => some now
  | _ => none

def DeviceEvent.isActivity : DeviceEvent → Bool
  | .activity _ => true
  | _ => false

/-- A device between two events. The last two fields are ghosts: no event depends on
    them. -/
structure DeviceRun where
  /-- The record, until the device is evicted. -/
  record : Option GatewayDevice
  /-- `last_check`, when there was one in the run. -/
  lastCheck : Option ℤ
  /-- The requests sent to the device. -/
  requests : List ProtoMessage
  /-- No frame has been processed since the latest PING. -/
  awaiting : Bool

namespace DeviceRun

def start (dev : GatewayDevice) : DeviceRun := ⟨some dev, none, [], false⟩

/-- After a check with the given result. -/
def checked (s : DeviceRun) (now : ℤ) : CheckResult → DeviceRun
  | .evicted => { s with lastCheck := some now, record := none }
  | .pinged dev _ =>
    { s with
      lastCheck := some now
      record := some dev
      requests := s.requests ++ [pingFrame dev]
      awaiting := true }
  | .active dev => { s with lastCheck := some now, record := some dev }

/-- A check that comes to the device, or to its empty place. -/
def check (s : DeviceRun) (now : ℤ) : DeviceRun :=
  match s.record with
  | none => { s with lastCheck := some now }
  | some dev => s.checked now (deviceCheck now dev)

def step (s : DeviceRun) : DeviceEvent → Option DeviceRun
  | .check now =>
    if ∀ last ∈ s.lastCheck, gatewayHeartbeatIntervalS ≤ now - last then some (s.check now) else none
  | .activity time =>
    some { s with
      record := s.record.map fun dev => { dev with lastActiveTime := time }
      awaiting := false }
  | .restartLed =>
    some { s with requests := s.requests ++ (s.record.map fun dev => (restartLedFrame dev).2).toList }

end DeviceRun

/-- What an event does to a device. -/
inductive DeviceEffect (s : DeviceRun) : DeviceEvent → DeviceRun → Prop where
  | gone (now : ℤ) (hrecord : s.record = none)
      (hspaced : ∀ last ∈ s.lastCheck, gatewayHeartbeatIntervalS ≤ now - last) :
      DeviceEffect s (.check now) { s with lastCheck := some now, record := none }
  | checked (now : ℤ) (dev : GatewayDevice) (result : CheckResult) (hrecord : s.record = some dev)
      (hspaced : ∀ last ∈ s.lastCheck, gatewayHeartbeatIntervalS ≤ now - last)
      (hresult : deviceCheck now dev = result) (hcase : CheckCase now dev result) :
      DeviceEffect s (.check now) (s.checked now result)
  | activity (time : ℤ) :
      DeviceEffect s (.activity time)
        { s with
          record := s.record.map fun dev => { dev with lastActiveTime := time }
          awaiting := false }
  | restartLed :
      DeviceEffect s .restartLed
        { s with requests := s.requests ++ (s.record.map fun dev => (restartLedFrame dev).2).toList }

theorem DeviceRun.step_effect {s s' : DeviceRun} {e : DeviceEvent} (h : s.step e = some s') :
    DeviceEffect s e s' := by
  cases e with
  | check now =>
    simp only [DeviceRun.step] at h
    split_ifs at h with hspaced
    cases h
    unfold DeviceRun.check
    cases hrecord : s.record with
    | none => exact .gone now hrecord hspaced
    | some dev => exact .checked now dev _ hrecord hspaced rfl (checkCase now dev)
  | activity time =>
    cases h
    exact .activity time
  | restartLed =>
    cases h
    exact .restartLed

/-- The record of a device that connects at time 0. -/
def freshDevice : GatewayDevice := DeviceTable.initDevice 5 "10.0.0.1" 4000 0 0 .zero

/-! ## Responsive and silent devices -/

/-- The checks are at most `GATEWAY_HEARTBEAT_TIMEOUT_S` apart, and between a
    PING and the next check a frame of the device is processed. -/
def Responsive (s : DeviceRun) : DeviceEvent → Prop
  | .check now => (∀ last ∈ s.lastCheck, now - last ≤ gatewayHeartbeatTimeoutS) ∧ s.awaiting = false
  | .activity time => ∀ last ∈ s.lastCheck, last ≤ time
  | .restartLed => True

instance (s : DeviceRun) : DecidablePred (Responsive s)
  | .check _ => inferInstanceAs (Decidable (_ ∧ _))
  | .activity time => inferInstanceAs (Decidable (∀ last ∈ s.lastCheck, last ≤ time))
  | .restartLed => inferInstanceAs (Decidable True)

/-- The device is in the table, and if it has a failure then the latest check has
    sent it a PING, or it has been active since. -/
def Alive (s : DeviceRun) : Prop :=
  ∃ dev, s.record = some dev ∧
    (dev.heartbeatFail = 0 ∨ ∃ last ∈ s.lastCheck, s.awaiting = true ∨ last ≤ dev.lastActiveTime)

theorem alive_step {s s' : DeviceRun} {e : DeviceEvent} (h : Alive s) (hgood : Responsive s e)
    (hs : s.step e = some s') : Alive s' := by
  obtain ⟨dev, hrecord, hfail⟩ := h
  cases DeviceRun.step_effect hs with
  | gone now hnone hspaced =>
    rw [hrecord] at hnone
    cases hnone
  | restartLed => exact ⟨dev, hrecord, hfail⟩
  | activity time =>
    refine ⟨{ dev with lastActiveTime := time }, by simp [hrecord], hfail.imp_right ?_⟩
    rintro ⟨last, hlast, -⟩
    exact ⟨last, hlast, Or.inr (hgood last hlast)⟩
  | checked now dev' result hrecord' hspaced hresult hcase =>
    obtain rfl := Option.some.inj (hrecord.symm.trans hrecord')
    obtain ⟨hspaced', hawaiting⟩ := hgood
    -- a device with a failure has been active since the latest check
    have hintime : dev.heartbeatFail ≠ 0 → now - dev.lastActiveTime ≤ gatewayHeartbeatTimeoutS := by
      intro hne
      obtain ⟨last, hlast, hpinged | hactive⟩ := hfail.resolve_left hne
      · rw [hawaiting] at hpinged
        cases hpinged
      · have hspace := hspaced' last hlast
        omega
    cases hcase with
    | evicted hlate hthree =>
      have hle := hintime (by omega)
      omega
    | late => exact ⟨_, rfl, Or.inr ⟨now, rfl, Or.inl rfl⟩⟩
    | idle => exact ⟨_, rfl, Or.inr ⟨now, rfl, Or.inl rfl⟩⟩
    | active => exact ⟨_, rfl, Or.inl rfl⟩

/-- How many of the checks find a device late that was active last at the time
    `active`. -/
def latesSince (active : ℤ) (es : List DeviceEvent) : ℕ :=
  (es.filterMap DeviceEvent.check?).countP fun now => gatewayHeartbeatTimeoutS < now - active

/-- A device that has been silent since the time `active` and late for `n`
    checks: as long as it is in the table, these are its failures. -/
structure Silent (active : ℤ) (n : ℕ) (s : DeviceRun) : Prop where
  kept : ∀ dev ∈ s.record, dev.lastActiveTime = active ∧ dev.heartbeatFail = n ∧ n ≤ 3
  evicted : s.record = none → 3 < n
  late : 0 < n → ∃ last ∈ s.lastCheck, gatewayHeartbeatTimeoutS < last - active

theorem latesSince_check (active now : ℤ) :
    latesSince active [.check now] = if gatewayHeartbeatTimeoutS < now - active then 1 else 0 := by
  simp [latesSince, DeviceEvent.check?, List.countP_cons]

theorem latesSince_cons (active : ℤ) (e : DeviceEvent) (es : List DeviceEvent) :
    latesSince active (e :: es) = latesSince active [e] + latesSince active es := by
  rw [← List.singleton_append, latesSince, List.filterMap_append, List.countP_append]
  rfl

theorem silent_step {active : ℤ} {n : ℕ} {s s' : DeviceRun} {e : DeviceEvent} (h : Silent active n s)
    (hquiet : e.isActivity = false) (hs : s.step e = some s') :
    Silent active (n + latesSince active [e]) s' := by
  -- once late, always late
  have hlater : ∀ now, (∀ last ∈ s.lastCheck, gatewayHeartbeatIntervalS ≤ now - last) → 0 < n →
      gatewayHeartbeatTimeoutS < now - active := by
    intro now hspaced hpos
    obtain ⟨last, hlast, hlate⟩ := h.late hpos
    have hspace := hspaced last hlast
    unfold gatewayHeartbeatIntervalS at hspace
    omega
  cases DeviceRun.step_effect hs with
  | activity => cases hquiet
  | restartLed => exact ⟨h.kept, h.evicted, h.late⟩
  | gone now hnone hspaced =>
    have hmany := h.evicted hnone
    have hlate := hlater now hspaced (by omega)
    exact ⟨nofun, fun _ => by omega, fun _ => ⟨now, rfl, hlate⟩⟩
  | checked now dev result hrecord hspaced hresult hcase =>
    obtain ⟨rfl, hfail, hle⟩ := h.kept dev hrecord
    cases hcase with
    | evicted hlate hthree =>
      rw [latesSince_check, if_pos hlate]
      exact ⟨nofun, fun _ => by omega, fun _ => ⟨now, rfl, hlate⟩⟩
    | late hlate hlt =>
      rw [latesSince_check, if_pos hlate]
      refine ⟨?_, nofun, fun _ => ⟨now, rfl, hlate⟩⟩
      simp only [DeviceRun.checked, Option.mem_some_iff, forall_eq', true_and]
      omega
    | idle hintime hidle =>
      rw [latesSince_check, if_neg (not_lt.mpr hintime)]
      refine ⟨?_, nofun, fun hpos => absurd (hlater now hspaced hpos) (not_lt.mpr hintime)⟩
      simp only [DeviceRun.checked, Option.mem_some_iff, forall_eq', true_and]
      omega
    | active hactive =>
      have hintime : now - dev.lastActiveTime ≤ gatewayHeartbeatTimeoutS := hactive.trans (by decide)
      have hzero : n = 0 := by
        by_contra hne
        exact absurd (hlater now hspaced (Nat.pos_of_ne_zero hne)) (not_lt.mpr hintime)
      rw [latesSince_check, if_neg (not_lt.mpr hintime)]
      refine ⟨?_, nofun, fun hpos => by omega⟩
      simp only [DeviceRun.checked, Option.mem_some_iff, forall_eq', true_and]
      omega

theorem silent_exec {active : ℤ} {n : ℕ} {s s' : DeviceRun} {es : List DeviceEvent}
    (h : Silent active n s)
    (hquiet : ∀ e ∈ es, e.isActivity = false) (hs : exec DeviceRun.step s es = some s') :
    Silent active (n + latesSince active es) s' := by
  induction es generalizing s n with
  | nil =>
    cases hs
    exact h
  | cons e es ih =>
    obtain ⟨he, hes⟩ := List.forall_mem_cons.mp hquiet
    obtain ⟨s₁, hstep, hrest⟩ := exec_cons_eq_some.mp hs
    rw [latesSince_cons, ← Nat.add_assoc]
    exact ih (silent_step h he hstep) hes hrest

/-- A device that answers each PING before the next check is never evicted. One
    that is silent from the start is in the table as long as at most three
    checks have found it late: it is removed at exactly the fourth. -/
theorem responsive_kept_silent_evicted {dev : GatewayDevice} (hfresh : dev.heartbeatFail = 0) :
    (∀ es, Every DeviceRun.step Responsive (.start dev) es →
      Along DeviceRun.step (fun s => s.record.isSome = true) (.start dev) es) ∧
    (∀ es s, (∀ e ∈ es, e.isActivity = false) → exec DeviceRun.step (.start dev) es = some s →
      (s.record.isSome = true ↔ latesSince dev.lastActiveTime es ≤ 3)) := by
  constructor
  · intro es hgood
    refine Along.of_inv (fun _ _ _ => alive_step) (fun s h => ?_) ⟨dev, rfl, Or.inl hfresh⟩ hgood
    obtain ⟨dev', hrecord, -⟩ := h
    rw [hrecord]
    rfl
  · intro es s hquiet hs
    have hstart : Silent dev.lastActiveTime 0 (.start dev) :=
      ⟨by simp [DeviceRun.start, hfresh], nofun, nofun⟩
    have h := silent_exec hstart hquiet hs
    rw [Nat.zero_add] at h
    cases hrecord : s.record with
    | none =>
      have hmany := h.evicted hrecord
      exact iff_of_false Bool.false_ne_true (by omega)
    | some dev' => exact iff_of_true rfl (h.kept dev' hrecord).2.2

/-- A device that answers each PING, the last of them late. -/
def answersAll : List DeviceEvent :=
  [.check 11, .activity 12, .check 21, .check 51, .activity 52, .check 81, .activity 82]

theorem responsive_kept_silent_evicted_fresh :
    Along DeviceRun.step (fun s => s.record.isSome = true) (.start freshDevice) answersAll ∧
      ∃ s,
        exec DeviceRun.step (.start freshDevice) [.check 31, .check 41, .check 51, .check 61] = some s ∧
        (s.record.isSome = true ↔
          latesSince freshDevice.lastActiveTime [.check 31, .check 41, .check 51, .check 61] ≤ 3) := by
  obtain ⟨hkept, hevicted⟩ := responsive_kept_silent_evicted (show freshDevice.heartbeatFail = 0 from rfl)
  have hsome : (exec DeviceRun.step (.start freshDevice)
      [.check 31, .check 41, .check 51, .check 61]).isSome = true := by decide +kernel
  obtain ⟨s, hs⟩ := Option.isSome_iff_exists.mp hsome
  exact ⟨hkept answersAll (by decide +kernel), s, hs, hevicted _ s (by decide) hs⟩

/-! ## Sequence numbers of requests -/

/-- The first 65535 requests have distinct sequence numbers. -/
def SeqsDistinct (s : DeviceRun) : Prop :=
  s.requests.length < 65536 → (s.requests.map ProtoMessage.seq).Nodup

/-- A request of the interactive command. -/
def isLedRequest (msg : ProtoMessage) : Bool := msg.cmd == cmdGpioControl

/-- A request of the command has been sent to the device. -/
def DeviceRun.led (s : DeviceRun) : Bool := s.requests.any isLedRequest

/-- The event sends a request to the device. -/
def DeviceRun.sends (s : DeviceRun) : DeviceEvent → Bool
  | .check now => s.record.any fun dev => (deviceCheck now dev).ping?.isSome
  | .activity _ => false
  | .restartLed => s.record.isSome

/-- No request, up to the 65535th, follows one of the command. -/
def LedLast (s : DeviceRun) (e : DeviceEvent) : Prop :=
  s.requests.length + 1 < 65536 → s.sends e = true → s.led = false

/-- The sequence numbers that follow `base`. -/
def seqsAfter (base : UInt16) (n : ℕ) : List UInt16 :=
  (List.range n).map fun i => base + UInt16.ofNat (i + 1)

theorem seqsAfter_nodup {base : UInt16} {n : ℕ} (h : n < 65536) : (seqsAfter base n).Nodup := by
  refine List.Nodup.map_on ?_ List.nodup_range
  intro i hi j hj heq
  rw [List.mem_range] at hi hj
  have hofNat := congrArg UInt16.toNat (add_left_cancel heq)
  rw [UInt16.toNat_ofNat', UInt16.toNat_ofNat'] at hofNat
  omega

/-- The requests so far have the sequence numbers behind `base`, and `last_seq`
    is the last of them, or the one before it when a request of the command was
    the last. -/
structure Numbered (base : UInt16) (s : DeviceRun) : Prop where
  seqs : s.requests.map ProtoMessage.seq = seqsAfter base s.requests.length
  lastSeq : ∀ dev ∈ s.record,
    (if s.led then dev.lastSeq + 1 else dev.lastSeq) = base + UInt16.ofNat s.requests.length

/-- An event sends no request and leaves `last_seq`, or sends one that has the
    next number and advances `last_seq` unless it is one of the command. -/
inductive RequestEffect (s : DeviceRun) (e : DeviceEvent) (s' : DeviceRun) : Prop where
  | silent (hsends : s.sends e = false) (hrequests : s'.requests = s.requests)
      (hlastSeq : ∀ dev' ∈ s'.record, ∃ dev ∈ s.record, dev'.lastSeq = dev.lastSeq)
  | request (dev : GatewayDevice) (msg : ProtoMessage) (hsends : s.sends e = true)
      (hrecord : s.record = some dev) (hrequests : s'.requests = s.requests ++ [msg])
      (hseq : msg.seq = dev.lastSeq + 1)
      (hlastSeq : ∀ dev' ∈ s'.record,
        dev'.lastSeq = if isLedRequest msg then dev.lastSeq else dev.lastSeq + 1)

theorem DeviceRun.step_requests {s s' : DeviceRun} {e : DeviceEvent} (h : s.step e = some s') :
    RequestEffect s e s' := by
  cases DeviceRun.step_effect h with
  | gone now hnone hspaced => exact .silent (by simp [DeviceRun.sends, hnone]) rfl nofun
  | activity time =>
    refine .silent rfl rfl fun dev' hdev' => ?_
    obtain ⟨dev, hdev, rfl⟩ := Option.map_eq_some_iff.mp hdev'
    exact ⟨dev, hdev, rfl⟩
  | restartLed =>
    cases hrecord : s.record with
    | none => exact .silent (by simp [DeviceRun.sends, hrecord]) (by simp) (by simp [hrecord])
    | some dev =>
      refine .request dev (restartLedFrame dev).2 (by simp [DeviceRun.sends, hrecord]) hrecord rfl rfl
        fun dev' hdev' => ?_
      obtain rfl := Option.some.inj hdev'
      rfl
  | checked now dev result hrecord hspaced hresult hcase =>
    have hsends : s.sends (.check now) = result.ping?.isSome := by
      simp [DeviceRun.sends, hrecord, hresult]
    cases hcase with
    | evicted => exact .silent hsends rfl nofun
    | active =>
      refine .silent hsends rfl fun dev' hdev' => ⟨dev, hrecord, ?_⟩
      obtain rfl := Option.some.inj hdev'
      rfl
    | late =>
      refine .request dev (pingFrame _) hsends hrecord rfl rfl fun dev' hdev' => ?_
      obtain rfl := Option.some.inj hdev'
      rfl
    | idle =>
      refine .request dev (pingFrame _) hsends hrecord rfl rfl fun dev' hdev' => ?_
      obtain rfl := Option.some.inj hdev'
      rfl

theorem seqsAfter_succ (base : UInt16) (n : ℕ) :
    seqsAfter base (n + 1) = seqsAfter base n ++ [base + UInt16.ofNat n + 1] := by
  rw [seqsAfter, List.range_succ, List.map_append, List.map_singleton, UInt16.ofNat_add, add_assoc]
  rfl

theorem numbered_step {base : UInt16} {s s' : DeviceRun} {e : DeviceEvent}
    (h : s.requests.length < 65536 → Numbered base s) (hgood : LedLast s e) (hs : s.step e = some s') :
    s'.requests.length < 65536 → Numbered base s' := by
  intro hlen
  cases DeviceRun.step_requests hs with
  | silent hsends hrequests hlastSeq =>
    rw [hrequests] at hlen
    obtain ⟨hseqs, hlast⟩ := h hlen
    refine ⟨by rw [hrequests, hseqs], fun dev' hdev' => ?_⟩
    obtain ⟨dev, hdev, heq⟩ := hlastSeq dev' hdev'
    rw [DeviceRun.led, hrequests, heq]
    exact hlast dev hdev
  | request dev msg hsends hrecord hrequests hseq hlastSeq =>
    rw [hrequests, List.length_append, List.length_singleton] at hlen
    obtain ⟨hseqs, hlast⟩ := h (by omega)
    have hled := hgood hlen hsends
    have hnumber := hlast dev hrecord
    rw [hled, if_neg Bool.false_ne_true] at hnumber
    constructor
    · rw [hrequests, List.map_append, hseqs, List.length_append, List.length_singleton,
        seqsAfter_succ, ← hnumber, ← hseq]
      rfl
    · intro dev' hdev'
      have hled' : s'.led = isLedRequest msg := by
        rw [DeviceRun.led, hrequests, List.any_append, ← DeviceRun.led, hled, Bool.false_or,
          List.any_cons, List.any_nil, Bool.or_false]
      rw [hled', hlastSeq dev' hdev', hrequests, List.length_append, List.length_singleton,
        UInt16.ofNat_add, ← add_assoc, ← hnumber]
      split_ifs <;> rfl

/-- A request behind one of the command repeats its number. -/
theorem seqs_repeat {base : UInt16} {s s' : DeviceRun} {e : DeviceEvent}
    (h : s.requests.length < 65536 → Numbered base s) (hbad : ¬ LedLast s e) (hs : s.step e = some s') :
    ¬ SeqsDistinct s' := by
  simp only [LedLast, not_forall, Bool.not_eq_false] at hbad
  obtain ⟨hlen, hsends, hled⟩ := hbad
  intro hdistinct
  cases DeviceRun.step_requests hs with
  | silent hnone =>
    rw [hsends] at hnone
    cases hnone
  | request dev msg _ hrecord hrequests hseq hlastSeq =>
    obtain ⟨hseqs, hlast⟩ := h (by omega)
    have hnumber := hlast dev hrecord
    rw [hled, if_pos rfl] at hnumber
    have hnodup := hdistinct (by rw [hrequests, List.length_append]; exact hlen)
    rw [hrequests, List.map_append, hseqs, List.map_singleton, hseq, hnumber] at hnodup
    -- the command's request is the last one so far
    obtain ⟨n, hn⟩ : ∃ n, s.requests.length = n + 1 := by
      refine Nat.exists_eq_succ_of_ne_zero fun hzero => ?_
      rw [DeviceRun.led, List.length_eq_zero_iff.mp hzero] at hled
      cases hled
    rw [hn, seqsAfter_succ, UInt16.ofNat_add, ← add_assoc] at hnodup
    refine List.disjoint_of_nodup_append hnodup ?_ (List.mem_singleton_self _)
    exact List.mem_append_right _ (List.mem_singleton_self _)

/-- The sequence numbers of the requests to a device, up to the 65535th, are
    distinct if and only if no request follows one of the interactive command,
    which does not advance `last_seq`. -/
theorem requests_distinct_iff {dev : GatewayDevice} {es : List DeviceEvent} {s : DeviceRun}
    (h : exec DeviceRun.step (.start dev) es = some s) :
    Along DeviceRun.step SeqsDistinct (.start dev) es ↔ Every DeviceRun.step LedLast (.start dev) es := by
  refine along_iff_every (J := fun s => s.requests.length < 65536 → Numbered dev.lastSeq s)
    (fun _ _ _ => numbered_step) (fun s hnumbered hlen => ?_) (fun _ _ _ => seqs_repeat) (fun _ => ?_) h
  · rw [(hnumbered hlen).seqs]
    exact seqsAfter_nodup hlen
  · refine ⟨rfl, fun dev' hdev' => ?_⟩
    obtain rfl := Option.some.inj hdev'
    exact (add_zero _).symm

theorem requests_distinct_iff_fresh :
    ∃ s, exec DeviceRun.step (.start freshDevice) [.check 11, .activity 12, .restartLed] = some s ∧
      (Along DeviceRun.step SeqsDistinct (.start freshDevice) [.check 11, .activity 12, .restartLed] ↔
        Every DeviceRun.step LedLast (.start freshDevice) [.check 11, .activity 12, .restartLed]) := by
  have hsome : (exec DeviceRun.step (.start freshDevice)
      [.check 11, .activity 12, .restartLed]).isSome = true := by decide +kernel
  obtain ⟨s, hs⟩ := Option.isSome_iff_exists.mp hsome
  exact ⟨s, hs, requests_distinct_iff hs⟩

/-- The command and the next PING have the same sequence number. -/
theorem restartLed_repeats :
    ∃ s, exec DeviceRun.step (.start freshDevice) [.restartLed, .check 11] = some s ∧
      s.requests.map (fun msg => (msg.cmd, msg.seq)) = [(cmdGpioControl, 1), (cmdPing, 1)] ∧
      ¬ Along DeviceRun.step SeqsDistinct (.start freshDevice) [.restartLed, .check 11] := by
  have hend : (exec DeviceRun.step (.start freshDevice) [.restartLed, .check 11]).map (fun s =>
      s.requests.map fun msg => (msg.cmd, msg.seq)) = some [(cmdGpioControl, 1), (cmdPing, 1)] := by
    decide +kernel
  obtain ⟨s, hs, heq⟩ := Option.map_eq_some_iff.mp hend
  refine ⟨s, hs, heq, fun hdistinct => ?_⟩
  have hseqs : s.requests.map ProtoMessage.seq = [1, 1] := by
    have hmap := congrArg (List.map Prod.snd) heq
    rwa [List.map_map] at hmap
  have hlen : s.requests.length = 2 := by rw [← List.length_map ProtoMessage.seq, hseqs]; rfl
  have hnodup := hdistinct.last hs (by rw [hlen]; decide)
  rw [hseqs] at hnodup
  exact absurd hnodup (by decide)

end LinuxFileManager.Gateway
