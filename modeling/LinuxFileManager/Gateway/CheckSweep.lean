import LinuxFileManager.Gateway.Acceptance
import LinuxFileManager.Gateway.DeviceCheck
import LinuxFileManager.Lib.Sweep

/-!
# A heartbeat check among other threads

The loop of a heartbeat check (`src/gateway.c` lines 422–454) keeps an index and
a pointer to a slot of the device table while it has released the mutex to send
a PING. Workers that leave in this time move the records behind theirs down.

`Watch` adds to the threads what a check has gone over: the records that were in
the table when it began, those that its loop has come to, and the one it has
come to last, which is the one whose `last_seq` it advances. The check is a
sweep in the sense of `Lib.Sweep`.

Results:

* `Watch.threads_exec`: the ghosts do not influence a run.
* `check_sound`: in every run in which no worker deletes a record at or before
  the slot of a device that a PING is being sent to (`Disturbs`), a check sends
  every PING to the device whose `last_seq` it has advanced, counts failures only
  for this device, and comes to every device that stays in the table once. The
  pointer and the index are right in every state exactly in these runs.
-/

namespace LinuxFileManager.Gateway

open Lib Protocol

/-! ## Model -/

/-- The threads, and the ghosts of the check under way: no step of the threads
    depends on them. -/
structure Watch where
  threads : Threads
  /-- The records in the table when the check began. -/
  original : List (ℕ × ℕ)
  /-- The records that the loop has come to. -/
  visited : List (ℕ × ℕ)
  /-- The record that the loop has come to last. -/
  current : Option (ℕ × ℕ)

namespace Watch

def start (time : ℤ) : Watch := ⟨.start time, [], [], none⟩

/-- After a step of the heartbeat thread to `s'`. -/
def heartbeat (w : Watch) (s' : Threads) : Watch :=
  match w.threads.heartbeat.pc with
  | .sleeping => ⟨s', w.threads.keys, [], none⟩
  | .checking _ i =>
    if i < w.threads.ctx.devices.deviceCount then
      let key := (w.threads.ctx.devices.slot i).key
      ⟨s', w.original, w.visited ++ [key], some key⟩
    else { w with threads := s' }
  | _ => { w with threads := s' }

def step (w : Watch) (a : Action) : Option Watch :=
  (w.threads.step a).map fun s' =>
    match a with
    | .heartbeat _ => w.heartbeat s'
    | _ => { w with threads := s' }

theorem threads_heartbeat (w : Watch) (s' : Threads) : (w.heartbeat s').threads = s' := by
  unfold heartbeat
  split
  · rfl
  · dsimp only
    split_ifs <;> rfl
  · rfl

/-- The ghosts do not influence the threads. -/
theorem threads_step (w : Watch) (a : Action) :
    (w.step a).map Watch.threads = w.threads.step a := by
  rw [step, Option.map_map]
  refine (Option.map_congr fun s' _ => ?_).trans Option.map_id'
  cases a with
  | heartbeat time => exact threads_heartbeat w s'
  | _ => rfl

/-- The runs are those of the threads. -/
theorem threads_exec (w : Watch) (as : List Action) :
    (exec step w as).map Watch.threads = exec Threads.step w.threads as :=
  exec_map threads_step w as

end Watch

/-! ## The property and the condition -/

/-- The slot of the record that the thread will still use through `dev`, which it
    holds without the mutex. -/
def HeartbeatPc.uses : HeartbeatPc → Option ℕ
  | .pinging _ i _ _ | .pinged _ i true => some i
  | _ => none

/-- The index behind the record that the loop has come to last. -/
def HeartbeatPc.next : HeartbeatPc → Option ℕ
  | .checking _ i => some i
  | .evicting _ i | .pinging _ i _ _ | .pinged _ i _ => some (i + 1)
  | _ => none

/-- A PING goes out on the descriptor of the device whose `last_seq` has been
    advanced; only the failures of this device are counted; and at the end of a
    check the loop has come once to each device that was in the table when the
    check began and still is. -/
structure CheckSound (w : Watch) (a : Action) : Prop where
  sends : ∀ time now i seq late s', a = .heartbeat time → w.threads.step a = some s' →
    w.threads.heartbeat.pc = .pinging now i seq late →
      ∃ key, w.current = some key ∧
        s'.ctx.wire = w.threads.ctx.wire ++ [(key.1, ⟨cmdPing, flagHeartbeat, seq, [], 0⟩)]
  advances : ∀ time w', a = .heartbeat time → w.step a = some w' →
    ∀ dev ∈ w.threads.ctx.devices.live, ∀ dev' ∈ w'.threads.ctx.devices.live, dev'.key = dev.key →
      dev'.lastSeq ≠ dev.lastSeq → w'.current = some dev.key
  counts : ∀ time s', a = .heartbeat time → w.threads.step a = some s' →
    ∀ dev ∈ w.threads.ctx.devices.live, ∀ dev' ∈ s'.ctx.devices.live, dev'.key = dev.key →
      dev.heartbeatFail < dev'.heartbeatFail → w.current = some dev.key
  visits : ∀ time now i s', a = .heartbeat time → w.threads.step a = some s' →
    w.threads.heartbeat.pc = .checking now i → s'.heartbeat.pc = .top →
      ∀ key ∈ w.original, key ∈ w.threads.keys → w.visited.count key = 1

/-- The pointer that the thread will still use points to the record that the loop
    has come to last, and the loop has come to each record before its index that
    was there when the check began. -/
structure OnTrack (w : Watch) : Prop where
  pointer : ∀ i, w.threads.heartbeat.pc.uses = some i →
    ∃ key, w.current = some key ∧ w.threads.keys[i]? = some key
  passed : ∀ n, w.threads.heartbeat.pc.next = some n → ∀ j < n, ∀ key,
    w.threads.keys[j]? = some key → key ∈ w.original → key ∈ w.visited

/-- A worker deletes a record at or before the slot that the thread has released
    the mutex for, while the thread will still use its pointer to this slot, or
    the record behind it was in the table when the check began. -/
def Disturbs (w : Watch) (a : Action) : Prop :=
  ∃ k i m, a = .worker k .remove ∧ RemovesSlot w.threads a m ∧ m ≤ i ∧
    w.threads.heartbeat.pc.next = some (i + 1) ∧
    (w.threads.heartbeat.pc.uses = some i ∨ ∃ key ∈ w.original, w.threads.keys[i + 1]? = some key)

/-! ## Steps of the heartbeat thread -/

theorem Threads.heartbeat_move {s s' : Threads} {time : ℤ} (hs : s.step (.heartbeat time) = some s') :
    ∃ ctx last pc, s' = { s with ctx := ctx, heartbeat := ⟨last, pc⟩ } ∧
      HeartbeatMove s.ctx s.heartbeat.pc ctx pc := by
  obtain ⟨⟨ctx, thread⟩, hstep, rfl⟩ := Option.map_eq_some_iff.mp hs
  exact ⟨ctx, thread.lastCheck, thread.pc, rfl, heartbeatStep_move hstep⟩

theorem keys_write (ctx : GatewayCtx) (i : ℕ) {f : GatewayDevice → GatewayDevice}
    (h : ∀ dev, (f dev).key = dev.key) :
    (ctx.write i f).devices.live.map GatewayDevice.key = ctx.devices.live.map GatewayDevice.key :=
  DeviceTable.kept_modifySlot _ i h

theorem Threads.getElem?_keys {s : Threads} {i : ℕ} {key : ℕ × ℕ} :
    s.keys[i]? = some key ↔ ∃ dev, s.ctx.devices.live[i]? = some dev ∧ dev.key = key := by
  rw [Threads.keys, List.getElem?_map, Option.map_eq_some_iff]

theorem Threads.getElem?_keys_slot {s : Threads} {i : ℕ} (hi : i < s.ctx.devices.deviceCount) :
    s.keys[i]? = some (s.ctx.devices.slot i).key := by
  rw [← DeviceTable.length_live] at hi
  have hget := List.getElem?_eq_getElem hi
  rw [DeviceTable.slot_eq hget]
  exact Threads.getElem?_keys.mpr ⟨_, hget, rfl⟩

/-! ## The invariant -/

/-- The check as a sweep that has come to the index `n`. -/
def Watch.sweep (w : Watch) (n : ℕ) : Sweep (ℕ × ℕ) := ⟨w.threads.keys, n, w.original, w.visited⟩

/-- The sweep is sound, and the pointer that the thread will still use points to
    the record that the loop has come to last. -/
structure Tracked (w : Watch) : Prop where
  inOrder : InOrder w.threads
  past : ∀ key, key ∈ w.original ∨ key ∈ w.visited → Past w.threads key.2
  sweep : ∀ n, w.threads.heartbeat.pc.next = some n → (w.sweep n).Sound
  pointer : ∀ i, w.threads.heartbeat.pc.uses = some i →
    ∃ key, w.current = some key ∧ w.threads.keys[i]? = some key
  evicting : ∀ now i, w.threads.heartbeat.pc = .evicting now i → i < w.threads.ctx.devices.deviceCount
  joined : w.threads.stop.joined = true → w.threads.heartbeat.pc = .exited

theorem InOrder.nodup {s : Threads} (h : InOrder s) : s.keys.Nodup :=
  h.ordered.imp fun hlt heq => absurd (heq ▸ hlt) (lt_irrefl _)

theorem tracked_start (time : ℤ) : Tracked (.start time) where
  inOrder := inOrder_start time
  past := by
    rintro key (hkey | hkey)
    · cases hkey
    · cases hkey
  sweep := nofun
  pointer := nofun
  evicting := nofun
  joined := nofun

theorem HeartbeatPc.next_of_uses {pc : HeartbeatPc} {i : ℕ} (h : pc.uses = some i) :
    pc.next = some (i + 1) := by
  unfold HeartbeatPc.uses at h
  split at h
  · cases h
    rfl
  · cases h
    rfl
  · cases h

theorem HeartbeatPc.outside {pc : HeartbeatPc} (h : pc.next = none) :
    (∀ i, pc.uses ≠ some i) ∧ ∀ now i, pc ≠ .evicting now i := by
  constructor
  · intro i huses
    rw [HeartbeatPc.next_of_uses huses] at h
    cases h
  · rintro now i rfl
    cases h

section

variable {w : Watch} (h : Tracked w) {time last : ℤ} {ctx : GatewayCtx} {pc' : HeartbeatPc}
  (hs : w.threads.step (.heartbeat time) =
    some { w.threads with ctx := ctx, heartbeat := ⟨last, pc'⟩ })
include h hs

theorem Tracked.not_joined : w.threads.stop.joined = true → pc' = .exited :=
  fun hjoined => absurd (h.joined hjoined) (heartbeat_not_exited hs)

/-- The loop comes to the record in slot `i`. -/
theorem Tracked.comes_to {now : ℤ} {i : ℕ} (hpc : w.threads.heartbeat.pc = .checking now i)
    (hi : i < w.threads.ctx.devices.deviceCount)
    (hkeys : ctx.devices.live.map GatewayDevice.key = w.threads.keys) (hnext : pc'.next = some (i + 1))
    (huses : ∀ j, pc'.uses = some j → j = i) (hevicting : ∀ now' j, pc' = .evicting now' j → j = i) :
    Tracked (w.heartbeat { w.threads with ctx := ctx, heartbeat := ⟨last, pc'⟩ }) := by
  have hkey := Threads.getElem?_keys_slot hi
  have hpast := h.inOrder.past _ (List.mem_of_getElem? hkey)
  have hcount : ctx.devices.deviceCount = w.threads.ctx.devices.deviceCount :=
    DeviceTable.Kept.deviceCount hkeys
  simp only [Watch.heartbeat, hpc, if_pos hi]
  refine ⟨inOrder_step h.inOrder hs, ?_, fun n hn => ?_, fun j hj => ?_, fun now' j hj => ?_,
    h.not_joined hs⟩
  · rintro key (hold | hvisited)
    · exact (h.past key (Or.inl hold)).step hs
    · rcases List.mem_append.mp hvisited with hold | hnew
      · exact (h.past key (Or.inr hold)).step hs
      · rw [List.mem_singleton.mp hnew]
        exact hpast.step hs
  · obtain rfl := Option.some.inj (hnext.symm.trans hn)
    have hsound := (h.sweep i (by rw [hpc]; rfl)).visit hkey
    rw [Watch.sweep, Threads.keys, hkeys]
    exact hsound
  · obtain rfl := huses j hj
    exact ⟨_, rfl, by rw [Threads.keys, hkeys]; exact hkey⟩
  · rw [hevicting now' j hj]
    exact hcount ▸ hi

/-- The thread makes a step that comes to no record. -/
theorem Tracked.goes_on
    (hsweep : ∀ n, pc'.next = some n →
      Sweep.Sound ⟨ctx.devices.live.map GatewayDevice.key, n, w.original, w.visited⟩)
    (hpointer : ∀ i, pc'.uses = some i →
      w.threads.heartbeat.pc.uses = some i ∧ ctx.devices.live.map GatewayDevice.key = w.threads.keys)
    (hevicting : ∀ now i, pc' ≠ .evicting now i) :
    Tracked { w with threads := { w.threads with ctx := ctx, heartbeat := ⟨last, pc'⟩ } } where
  inOrder := inOrder_step h.inOrder hs
  past := fun key hkey => (h.past key hkey).step hs
  sweep := hsweep
  pointer := by
    intro i hi
    obtain ⟨hold, hkeys⟩ := hpointer i hi
    rw [Threads.keys, hkeys]
    exact h.pointer i hold
  evicting := fun now i hpc => absurd hpc (hevicting now i)
  joined := h.not_joined hs

/-- The thread is not in a check any more. -/
theorem Tracked.leaves (hnext : pc'.next = none) :
    Tracked { w with threads := { w.threads with ctx := ctx, heartbeat := ⟨last, pc'⟩ } } := by
  obtain ⟨huses, hevicting⟩ := HeartbeatPc.outside hnext
  refine h.goes_on hs (fun n hn => ?_) (fun i hi => absurd hi (huses i)) hevicting
  rw [hnext] at hn
  cases hn

theorem Tracked.heartbeat (hmove : HeartbeatMove w.threads.ctx w.threads.heartbeat.pc ctx pc') :
    Tracked (w.heartbeat { w.threads with ctx := ctx, heartbeat := ⟨last, pc'⟩ }) := by
  generalize hpc : w.threads.heartbeat.pc = pc at hmove
  cases hmove with
  | idles hpc' =>
    simp only [Watch.heartbeat, hpc]
    refine h.leaves hs ?_
    rcases hpc' with rfl | rfl <;> rfl
  | sleeps =>
    simp only [Watch.heartbeat, hpc]
    exact { h.leaves hs rfl with
      past := fun key hkey => ((h.inOrder.past key (hkey.resolve_right List.not_mem_nil)).step hs)
      sweep := nofun
      pointer := nofun }
  | begins now =>
    simp only [Watch.heartbeat, hpc]
    refine ⟨inOrder_step h.inOrder hs, fun key hkey => ?_, fun n hn => ?_, nofun, nofun, h.not_joined hs⟩
    · exact (h.inOrder.past key (hkey.resolve_right List.not_mem_nil)).step hs
    · cases hn
      exact Sweep.sound_initial h.inOrder.nodup
  | closes hevicts =>
    refine h.comes_to hs hpc hevicts.1 rfl rfl nofun ?_
    rintro _ _ ⟨⟩
    rfl
  | advances late hi hstays =>
    refine h.comes_to hs hpc hi (keys_write _ _ fun _ => rfl) rfl ?_ nofun
    rintro _ ⟨⟩
    rfl
  | clears hi hstays => exact h.comes_to hs hpc hi (keys_write _ _ fun _ => rfl) rfl nofun nofun
  | ends hi =>
    simp only [Watch.heartbeat, hpc, if_neg (not_lt.mpr hi)]
    exact h.leaves hs rfl
  | deletes now i =>
    simp only [Watch.heartbeat, hpc]
    refine h.goes_on hs (fun n hn => ?_) nofun nofun
    cases hn
    rw [keys_removeSlot _ (h.evicting now i hpc)]
    exact (h.sweep (i + 1) (by rw [hpc]; rfl)).eraseLast rfl
  | sends now i seq late =>
    simp only [Watch.heartbeat, hpc]
    refine h.goes_on hs (fun n hn => ?_) (fun j hj => ⟨?_, rfl⟩) nofun
    · cases hn
      exact h.sweep (i + 1) (by rw [hpc]; rfl)
    · cases late with
      | true => exact hpc ▸ hj
      | false => cases hj
  | counts now i =>
    simp only [Watch.heartbeat, hpc]
    refine h.goes_on hs (fun n hn => ?_) nofun nofun
    cases hn
    have hkeys := keys_write w.threads.ctx i
      (f := fun dev => { dev with heartbeatFail := dev.heartbeatFail + 1 }) fun _ => rfl
    rw [hkeys]
    exact h.sweep (i + 1) (by rw [hpc]; rfl)
  | passes now i =>
    simp only [Watch.heartbeat, hpc]
    refine h.goes_on hs (fun n hn => ?_) nofun nofun
    cases hn
    exact h.sweep (i + 1) (by rw [hpc]; rfl)

end

/-! ## Steps of the other threads -/

theorem Threads.heartbeat_of_step {s s' : Threads} {a : Action} (hs : s.step a = some s')
    (hne : ∀ time, a ≠ .heartbeat time) : s'.heartbeat = s.heartbeat := by
  cases Threads.step_effect hs with
  | heartbeat time => exact absurd rfl (hne time)
  | _ => rfl

/-- The heartbeat thread is between two critical sections whenever another thread
    is in one. -/
theorem HeartbeatPc.next_of_free {s : Threads} (hfree : s.locked = false) {n : ℕ}
    (hn : s.heartbeat.pc.next = some n) : ∃ i, n = i + 1 ∧ ∀ now j, s.heartbeat.pc ≠ .evicting now j := by
  have hlocks : s.heartbeat.locks = false := (Bool.or_eq_false_iff.mp hfree).1
  unfold HeartbeatThread.locks at hlocks
  cases hpc : s.heartbeat.pc with
  | pinging now i seq late =>
    rw [hpc] at hn
    cases hn
    exact ⟨i, rfl, nofun⟩
  | pinged now i late =>
    rw [hpc] at hn
    cases hn
    exact ⟨i, rfl, nofun⟩
  | checking now i => simp [hpc] at hlocks
  | evicting now i => simp [hpc] at hlocks
  | top => simp [hpc, HeartbeatPc.next] at hn
  | sleeping => simp [hpc, HeartbeatPc.next] at hn
  | exited => simp [hpc, HeartbeatPc.next] at hn

/-- A worker that leaves deletes the record it has found. -/
theorem Threads.keys_of_removes {s s' : Threads} {k m : ℕ}
    (hremoves : RemovesSlot s (.worker k .remove) m) (hs : s.step (.worker k .remove) = some s') :
    s'.keys = s.keys.eraseIdx m := by
  obtain ⟨w, hw, hpc, hfind⟩ := hremoves
  obtain ⟨w', ctx, pc, hw', hstep, rfl⟩ := Threads.worker_step_iff.mp hs
  obtain rfl := Option.some.inj (hw.symm.trans hw')
  simp only [hpc, workerStep] at hstep
  split_ifs at hstep
  obtain ⟨rfl, rfl⟩ := Prod.mk.inj (Option.some.inj hstep)
  exact keys_removeDevice hfind

section

variable {w : Watch} (h : Tracked w) {a : Action} {s' : Threads} (hs : w.threads.step a = some s')
  (hne : ∀ time, a ≠ .heartbeat time)
include h hs hne

theorem Tracked.joined_step : s'.stop.joined = true → s'.heartbeat.pc = .exited := by
  rw [Threads.heartbeat_of_step hs hne]
  intro hjoined
  cases Threads.step_effect hs with
  | heartbeat time => exact absurd rfl (hne time)
  | stop ctx pc heffect =>
    rcases joined_of_stop hs hjoined with hold | hexited
    · exact h.joined hold
    · exact hexited
  | _ => exact h.joined hjoined

/-- A step of another thread after which the sweep is still sound. -/
theorem Tracked.other
    (hsweep : ∀ n, w.threads.heartbeat.pc.next = some n →
      Sweep.Sound ⟨s'.keys, n, w.original, w.visited⟩)
    (hpointer : ∀ i key, w.threads.heartbeat.pc.uses = some i → w.threads.keys[i]? = some key →
      s'.keys[i]? = some key)
    (hevicting : ∀ now i, w.threads.heartbeat.pc = .evicting now i → i < w.threads.keys.length →
      i < s'.keys.length) : Tracked { w with threads := s' } := by
  have hpc := Threads.heartbeat_of_step hs hne
  refine ⟨inOrder_step h.inOrder hs, fun key hkey => (h.past key hkey).step hs, fun n hn => ?_,
    fun i hi => ?_, fun now i hi => ?_, h.joined_step hs hne⟩
  · exact hsweep n (hpc ▸ hn)
  · obtain ⟨key, hcurrent, hkey⟩ := h.pointer i (hpc ▸ hi)
    exact ⟨key, hcurrent, hpointer i key (hpc ▸ hi) hkey⟩
  · have hold := h.evicting now i (hpc ▸ hi)
    rw [← Threads.length_keys] at hold ⊢
    exact hevicting now i (hpc ▸ hi) hold

/-- A step of another thread that does not disturb the check. -/
theorem Tracked.undisturbed (hcalm : ¬ Disturbs w a) : Tracked { w with threads := s' } := by
  cases Threads.step_keys hs with
  | same hkeys =>
    refine h.other hs hne (fun n hn => ?_) (fun i key _ hkey => ?_) (fun now i _ hi => ?_)
    · rw [hkeys]
      exact h.sweep n hn
    · rwa [hkeys]
    · rwa [hkeys]
  | adds fd conn hpending hadded hnext hkeys =>
    -- the new connection is younger than all that the check knows
    have hnew : ∀ key, Past w.threads key.2 → (fd, conn) ≠ key := by
      rintro key hpast rfl
      exact absurd (hpast.earlier fd conn hpending) (lt_irrefl _)
    refine h.other hs hne (fun n hn => ?_) (fun i key _ hkey => ?_) (fun now i _ hi => ?_)
    · rw [hkeys]
      refine (h.sweep n hn).append (fun hmem => ?_) (fun hmem => ?_) (fun hmem => ?_)
      · exact hnew _ (h.inOrder.past _ hmem) rfl
      · exact hnew _ (h.past _ (Or.inr hmem)) rfl
      · exact hnew _ (h.past _ (Or.inl hmem)) rfl
    · rw [hkeys, List.getElem?_append_left (List.getElem?_eq_some_iff.mp hkey).1, hkey]
    · rw [hkeys, List.length_append]
      exact hi.trans_le (Nat.le_add_right _ _)
  | leaves k m ha hfree hremoves hkeys =>
    refine h.other hs hne (fun n hn => ?_) (fun i key huses hkey => ?_) (fun now i hpc => ?_)
    · obtain ⟨i, rfl, -⟩ := HeartbeatPc.next_of_free hfree hn
      rw [hkeys]
      by_cases hm : m ≤ i
      · refine (h.sweep _ hn).eraseBefore (Nat.lt_succ_of_le hm) fun key hkey horiginal => ?_
        exact hcalm ⟨k, i, m, ha, hremoves, hm, hn, Or.inr ⟨key, horiginal, hkey⟩⟩
      · exact (h.sweep _ hn).eraseBehind (not_le.mp hm)
    · have hm : ¬ m ≤ i := fun hm =>
        hcalm ⟨k, i, m, ha, hremoves, hm, HeartbeatPc.next_of_uses huses, Or.inl huses⟩
      rw [hkeys, List.getElem?_eraseIdx_of_lt (not_le.mp hm), hkey]
    · obtain ⟨_, -, hno⟩ := HeartbeatPc.next_of_free hfree (n := i + 1) (by rw [hpc]; rfl)
      exact absurd hpc (hno now i)
  | evicts time now i ha => exact absurd ha (hne time)
  | clears i hpc hkeys =>
    have hexited := h.joined (by rw [hpc]; rfl)
    refine h.other hs hne (fun n hn => ?_) (fun i key huses => ?_) (fun now i hpc' => ?_)
    · rw [hexited] at hn
      cases hn
    · rw [hexited] at huses
      cases huses
    · rw [hexited] at hpc'
      cases hpc'

end

/-! ## Runs -/

theorem Tracked.onTrack {w : Watch} (h : Tracked w) : OnTrack w :=
  ⟨h.pointer, fun n hn => (h.sweep n hn).passed⟩

theorem tracked_step {w w' : Watch} {a : Action} (h : Tracked w) (hcalm : ¬ Disturbs w a)
    (hs : w.step a = some w') : Tracked w' := by
  obtain ⟨s', hstep, heq⟩ := Option.map_eq_some_iff.mp hs
  cases a with
  | heartbeat time =>
    subst heq
    obtain ⟨ctx, last, pc', rfl, hmove⟩ := Threads.heartbeat_move hstep
    exact h.heartbeat hstep hmove
  | _ =>
    subst heq
    exact h.undisturbed hstep nofun hcalm

/-- After a disturbing step the pointer or the index is wrong. -/
theorem onTrack_broken {w w' : Watch} {a : Action} (h : Tracked w) (hbad : ¬ ¬ Disturbs w a)
    (hs : w.step a = some w') : ¬ OnTrack w' := by
  obtain ⟨k, i, m, rfl, hremoves, hm, hnext, hlost⟩ := not_not.mp hbad
  obtain ⟨s', hstep, heq⟩ := Option.map_eq_some_iff.mp hs
  subst heq
  have hpc := Threads.heartbeat_of_step hstep nofun
  have hkeys := Threads.keys_of_removes hremoves hstep
  have hget : s'.keys[i]? = w.threads.keys[i + 1]? := by rw [hkeys, List.getElem?_eraseIdx_of_ge hm]
  intro htrack
  have hpassed := htrack.passed (i + 1) (hpc ▸ hnext) i (Nat.lt_add_one i)
  rcases hlost with huses | ⟨key, horiginal, hkey⟩
  · obtain ⟨key, hcurrent, hkey⟩ := h.pointer i huses
    obtain ⟨key', hcurrent', hkey'⟩ := htrack.pointer i (hpc ▸ huses)
    obtain rfl := Option.some.inj (hcurrent.symm.trans hcurrent')
    change s'.keys[i]? = _ at hkey'
    rw [hget] at hkey'
    have heq := (List.getElem?_inj (List.getElem?_eq_some_iff.mp hkey).1 h.inOrder.nodup).mp
      (hkey.trans hkey'.symm)
    exact absurd heq (Nat.ne_of_lt (Nat.lt_add_one i))
  · obtain ⟨hmoved, hnot⟩ := (h.sweep (i + 1) hnext).passes_over (Nat.lt_succ_of_le hm) hkey
    change (w.threads.keys.eraseIdx m)[i]? = some key at hmoved
    exact hnot (hpassed key (by rw [hkeys]; exact hmoved) horiginal)

/-! ## What the invariant promises -/

/-- Records with the same key are the same. -/
theorem InOrder.eq_of_key_eq {s : Threads} (h : InOrder s) {dev dev' : GatewayDevice}
    (hdev : dev ∈ s.ctx.devices.live) (hdev' : dev' ∈ s.ctx.devices.live) (hkey : dev'.key = dev.key) :
    dev' = dev :=
  List.inj_on_of_nodup_map h.nodup hdev' hdev hkey

/-- A record after a write to slot `i`. -/
theorem mem_write {ctx : GatewayCtx} {i : ℕ} {f : GatewayDevice → GatewayDevice} {dev' : GatewayDevice}
    (h : dev' ∈ (ctx.write i f).devices.live) :
    dev' ∈ ctx.devices.live ∨ ∃ dev, ctx.devices.live[i]? = some dev ∧ dev' = f dev := by
  obtain ⟨j, hj⟩ := List.getElem?_of_mem h
  rw [GatewayCtx.write, DeviceTable.live_modifySlot, List.getElem?_modify] at hj
  split_ifs at hj with hij
  · obtain ⟨dev, hdev, rfl⟩ := Option.map_eq_some_iff.mp hj
    exact Or.inr ⟨dev, hij ▸ hdev, rfl⟩
  · exact Or.inl (List.mem_of_getElem? (by simpa using hj))

/-- What a step of the heartbeat thread has written to a record. -/
inductive RecordMove (ctx : GatewayCtx) (dev : GatewayDevice) : HeartbeatPc → GatewayDevice → Prop where
  | keeps (pc : HeartbeatPc) : RecordMove ctx dev pc dev
  | advances {now : ℤ} {i : ℕ} (hdev : ctx.devices.live[i]? = some dev) (seq : UInt16) :
      RecordMove ctx dev (.checking now i) { dev with lastSeq := seq }
  | clears {now : ℤ} {i : ℕ} (hdev : ctx.devices.live[i]? = some dev) :
      RecordMove ctx dev (.checking now i) { dev with heartbeatFail := 0 }
  | counts {now : ℤ} {i : ℕ} (hdev : ctx.devices.live[i]? = some dev) :
      RecordMove ctx dev (.pinged now i true) { dev with heartbeatFail := dev.heartbeatFail + 1 }

theorem HeartbeatMove.record {s : Threads} (h : InOrder s) {ctx : GatewayCtx} {pc pc' : HeartbeatPc}
    (hmove : HeartbeatMove s.ctx pc ctx pc') {dev dev' : GatewayDevice} (hdev : dev ∈ s.ctx.devices.live)
    (hdev' : dev' ∈ ctx.devices.live) (hkey : dev'.key = dev.key) : RecordMove s.ctx dev pc dev' := by
  have hsame : dev' ∈ s.ctx.devices.live → RecordMove s.ctx dev pc dev' := by
    intro hmem
    rw [h.eq_of_key_eq hdev hmem hkey]
    exact .keeps pc
  have hwritten : ∀ {i : ℕ} {f : GatewayDevice → GatewayDevice}, dev' ∈ (s.ctx.write i f).devices.live →
      (∀ dev, (f dev).key = dev.key) →
        dev' ∈ s.ctx.devices.live ∨ s.ctx.devices.live[i]? = some dev ∧ dev' = f dev := by
    intro i f hmem hf
    rcases mem_write hmem with hold | ⟨dev₀, hget, rfl⟩
    · exact Or.inl hold
    · obtain rfl := h.eq_of_key_eq hdev (List.mem_of_getElem? hget) ((hf dev₀).symm.trans hkey)
      exact Or.inr ⟨hget, rfl⟩
  cases hmove with
  | advances late hi hstays =>
    rcases hwritten hdev' fun _ => rfl with hold | ⟨hget, rfl⟩
    · exact hsame hold
    · exact .advances hget _
  | clears hi hstays =>
    rcases hwritten hdev' fun _ => rfl with hold | ⟨hget, rfl⟩
    · exact hsame hold
    · exact .clears hget
  | counts now i =>
    rcases hwritten hdev' fun _ => rfl with hold | ⟨hget, rfl⟩
    · exact hsame hold
    · exact .counts hget
  | deletes now i => exact hsame ((s.ctx.devices.live_removeSlot_sublist i).subset hdev')
  | _ => exact hsame hdev'

theorem Tracked.checkSound {w : Watch} (h : Tracked w) (a : Action) : CheckSound w a where
  sends := by
    rintro time now i seq late s' rfl hs hpc
    obtain ⟨key, hcurrent, hkey⟩ := h.pointer i (by rw [hpc]; rfl)
    obtain ⟨dev, hdev, rfl⟩ := Threads.getElem?_keys.mp hkey
    refine ⟨_, hcurrent, ?_⟩
    rw [step_pinging time hpc, Option.some.injEq] at hs
    subst hs
    rw [← DeviceTable.slot_eq hdev]
    rfl
  advances := by
    rintro time w' rfl hs dev hdev dev' hdev' hkey hne
    obtain ⟨s', hstep, rfl⟩ := Option.map_eq_some_iff.mp hs
    obtain ⟨ctx, last, pc', rfl, hmove⟩ := Threads.heartbeat_move hstep
    rw [Watch.threads_heartbeat] at hdev'
    have hrecord := hmove.record h.inOrder hdev hdev' hkey
    generalize hpc : w.threads.heartbeat.pc = pc at hrecord
    cases hrecord with
    | keeps => exact absurd rfl hne
    | clears => exact absurd rfl hne
    | counts => exact absurd rfl hne
    | @advances now i hget seq =>
      have hi : i < w.threads.ctx.devices.deviceCount := by
        rw [← DeviceTable.length_live]
        exact (List.getElem?_eq_some_iff.mp hget).1
      simp only [Watch.heartbeat, hpc, if_pos hi]
      rw [DeviceTable.slot_eq hget]
  counts := by
    rintro time s' rfl hs dev hdev dev' hdev' hkey hlt
    obtain ⟨ctx, last, pc', rfl, hmove⟩ := Threads.heartbeat_move hs
    have hrecord := hmove.record h.inOrder hdev hdev' hkey
    generalize hpc : w.threads.heartbeat.pc = pc at hrecord
    cases hrecord with
    | keeps => exact absurd hlt (lt_irrefl _)
    | advances => exact absurd hlt (lt_irrefl _)
    | clears => exact absurd hlt (Nat.not_lt_zero _)
    | counts hget =>
      obtain ⟨key, hcurrent, hkey⟩ := h.pointer _ (by rw [hpc]; rfl)
      obtain ⟨dev₀, hget₀, rfl⟩ := Threads.getElem?_keys.mp hkey
      obtain rfl := Option.some.inj (hget.symm.trans hget₀)
      exact hcurrent
  visits := by
    rintro time now i s' rfl hs hpc htop key horiginal hkey
    obtain ⟨ctx, last, pc', rfl, hmove⟩ := Threads.heartbeat_move hs
    obtain rfl : pc' = .top := htop
    rw [hpc] at hmove
    cases hmove with
    | ends hi =>
      rw [← Threads.length_keys] at hi
      exact (h.sweep i (by rw [hpc]; rfl)).visited_once hi horiginal hkey

/-- As long as no worker deletes a record at or before the slot of the device that
    a PING is being sent to, every check is sound. The pointer and the index of the
    check are right in every state if and only if no worker does. -/
theorem check_sound {time : ℤ} {as : List Action} {w : Watch}
    (h : exec Watch.step (.start time) as = some w) :
    (Every Watch.step (fun w a => ¬ Disturbs w a) (.start time) as →
      Every Watch.step CheckSound (.start time) as) ∧
    (Along Watch.step OnTrack (.start time) as ↔
      Every Watch.step (fun w a => ¬ Disturbs w a) (.start time) as) := by
  refine ⟨fun hcalm => ?_, ?_⟩
  · exact Every.of_inv (fun _ _ _ => tracked_step) (fun _ a hw _ => hw.checkSound a)
      (tracked_start time) hcalm
  · exact along_iff_every (fun _ _ _ => tracked_step) (fun _ => Tracked.onTrack)
      (fun _ _ _ => onTrack_broken) (tracked_start time) h

/-- A silent client, and a check at time 31. -/
def silentCheck : List Action := connect 0 5 ++ checkAt 31 6

theorem check_sound_silentCheck :
    ∃ w, exec Watch.step (.start 0) silentCheck = some w ∧ w.visited = [(5, 0)] ∧
      Every Watch.step CheckSound (.start 0) silentCheck ∧
      Along Watch.step OnTrack (.start 0) silentCheck := by
  have hend : (exec Watch.step (.start 0) silentCheck).map Watch.visited = some [(5, 0)] := by
    decide +kernel
  obtain ⟨w, hw, hvisited⟩ := Option.map_eq_some_iff.mp hend
  have hcalm : Every Watch.step (fun w a => ¬ Disturbs w a) (.start 0) silentCheck := by
    refine .of_forall fun w a ha => ?_
    rintro ⟨k, i, m, rfl, -⟩
    exact absurd ha (by simp [silentCheck, connect, checkAt])
  obtain ⟨hsound, htrack⟩ := check_sound hw
  exact ⟨w, hw, hvisited, hsound hcalm, htrack.mpr hcalm⟩

deriving instance DecidableEq for HeartbeatPc

/-- Three silent clients. The worker of the first leaves when the check at time 31
    is about to send it a PING. -/
def leavesBeforePing : List Action :=
  List.flatten [connect 0 5, connect 1 6, connect 2 7, checkAt 31 3,
    [.worker 0 (.recv none), .worker 0 .remove]]

/-- The PING for the device on descriptor 5 goes out on descriptor 6, the failure
    is counted for the device there, and the check passes over this device. -/
theorem leavesBeforePing_redirects :
    ∃ w, exec Watch.step (.start 0) (leavesBeforePing ++ checkAt 31 6) = some w ∧
      w.threads.ctx.wire.map Prod.fst = [6, 7] ∧
      w.threads.ctx.devices.live.map (fun dev => (dev.key, dev.lastSeq, dev.heartbeatFail)) =
        [((6, 1), 0, 1), ((7, 2), 1, 1)] ∧
      w.original = [(5, 0), (6, 1), (7, 2)] ∧ w.visited = [(5, 0), (7, 2)] ∧
      ¬ Every Watch.step CheckSound (.start 0) (leavesBeforePing ++ checkAt 31 6) := by
  have hmid : (exec Watch.step (.start 0) leavesBeforePing).map (fun w =>
      (w.threads.heartbeat.pc, w.current, w.threads.ctx.wire, (w.threads.ctx.devices.slot 0).fd)) =
        some (.pinging 31 0 1 true, some (5, 0), [], 6) := by decide +kernel
  have hend : (exec Watch.step (.start 0) (leavesBeforePing ++ checkAt 31 6)).map (fun w =>
      (w.threads.ctx.wire.map Prod.fst, w.original, w.visited)) =
        some ([6, 7], [(5, 0), (6, 1), (7, 2)], [(5, 0), (7, 2)]) := by decide +kernel
  have htable : (exec Watch.step (.start 0) (leavesBeforePing ++ checkAt 31 6)).map (fun w =>
      w.threads.ctx.devices.live.map fun dev => (dev.key, dev.lastSeq, dev.heartbeatFail)) =
        some [((6, 1), 0, 1), ((7, 2), 1, 1)] := by decide +kernel
  obtain ⟨w, hw, heq⟩ := Option.map_eq_some_iff.mp hmid
  simp only [Prod.mk.injEq] at heq
  obtain ⟨hpc, hcurrent, hwire, hfd⟩ := heq
  obtain ⟨w', hw', heq'⟩ := Option.map_eq_some_iff.mp hend
  simp only [Prod.mk.injEq] at heq'
  obtain ⟨hsent, horiginal, hvisited⟩ := heq'
  rw [hw', Option.map_some, Option.some.injEq] at htable
  refine ⟨w', hw', hsent, htable, horiginal, hvisited, fun hevery => ?_⟩
  have hsound : CheckSound w (.heartbeat 31) := hevery.at hw
  obtain ⟨key, hkey, hping⟩ := hsound.sends 31 31 0 1 true _ rfl (step_pinging 31 hpc) hpc
  obtain rfl := Option.some.inj (hcurrent.symm.trans hkey)
  simp [Threads.heartbeatAt, GatewayCtx.send, hwire, hfd] at hping

end LinuxFileManager.Gateway
