import LinuxFileManager.Gateway.Descriptors

/-!
# Device pointers across critical sections

`find_device_by_fd` returns a pointer into the device table after it has
released the mutex, and a handler reads and writes through it and sends on the
descriptor it finds there. A removal moves the records behind the removed one
down by a slot, so that a pointer to one of these points to the next record.

Result:

* `handlers_use_own_record`: in every run in which no record at or before the
  slot of such a pointer is removed, every access of a handler is to the record
  that is found under the descriptor of its worker, and every response is sent
  on this descriptor. In runs without evictions and `gateway_stop` the condition
  is exact.
-/

namespace LinuxFileManager.Gateway

open Lib Protocol

/-! ## The property and the condition -/

/-- The step deletes the record in slot `i`: `remove_device`, the eviction by
    the heartbeat thread, or `gateway_stop`, which deletes all records. -/
def RemovesSlot (s : Threads) (a : Action) (i : ℕ) : Prop :=
  match a with
  | .worker k .remove => ∃ w, s.workers[k]? = some w ∧ w.pc = .leaving ∧
      s.ctx.devices.findSlot w.fd = some i
  | .heartbeat _ => ∃ now, s.heartbeat.pc = .evicting now i
  | .stop => ∃ n, s.stop = .closing n ∧ s.ctx.devices.deviceCount ≤ n ∧ i < s.ctx.devices.deviceCount
  | _ => False

/-- No record is deleted at or before a slot that a handler is still to access. -/
def SparesPointers (s : Threads) (a : Action) : Prop :=
  ∀ i, RemovesSlot s a i → ∀ w ∈ s.workers, ∀ j, w.pc.pointer = some j → j < i

/-- Every pointer that a handler is still to use points to the record that is
    found under the descriptor of its worker. -/
def PointersCurrent (s : Threads) : Prop :=
  ∀ w ∈ s.workers, ∀ j, w.pc.pointer = some j → s.ctx.devices.findSlot w.fd = some j

/-- If the step is an access of a handler, the slot holds the record that is
    found under the descriptor of the worker, and a response goes out on this
    descriptor. -/
def UsesOwnRecord (s : Threads) (a : Action) : Prop :=
  ∀ k w j handler access todo msg rest, a = .worker k .handle → s.workers[k]? = some w →
    w.pc = .handling j handler (access :: todo) msg rest →
      s.ctx.devices.findSlot w.fd = some j ∧
      (access = .respond → ∀ s', s.step a = some s' →
        s'.ctx.wire = s.ctx.wire ++ [(w.fd, handler.response msg.seq)])

/-! ## The invariant -/

/-- `gateway_stop` has joined the heartbeat thread. -/
def StopPc.joined : StopPc → Bool
  | .closing _ | .done => true
  | _ => false

/-- The pointers are current, the slot of an eviction under way is in use, and
    `gateway_stop` works on the table only when the heartbeat thread has ended. -/
structure PointersValid (s : Threads) : Prop where
  held : PointersCurrent s
  evicting : ∀ now i, s.heartbeat.pc = .evicting now i → i < s.ctx.devices.deviceCount
  joined : s.stop.joined = true → s.heartbeat.pc = .exited

theorem pointersValid_start (time : ℤ) : PointersValid (.start time) :=
  ⟨by simp [PointersCurrent, Threads.start], nofun, nofun⟩

theorem heartbeat_not_exited {s s' : Threads} {time : ℤ} (h : s.step (.heartbeat time) = some s') :
    s.heartbeat.pc ≠ .exited := by
  intro hpc
  simp [Threads.step, heartbeatStep, hpc] at h

theorem joined_of_stop {s s' : Threads} (h : s.step .stop = some s') (hj : s'.stop.joined = true) :
    s.stop.joined = true ∨ s.heartbeat.pc = .exited := by
  cases hpc : s.stop with
  | notCalled =>
    simp only [Threads.step, hpc, stopStep, Option.map_some, Option.some.injEq] at h
    subst h
    cases hj
  | joinAccept =>
    simp only [Threads.step, hpc, stopStep] at h
    split at h
    · simp only [Option.map_some, Option.some.injEq] at h
      subst h
      cases hj
    · cases h
  | joinHeartbeat =>
    simp only [Threads.step, hpc, stopStep] at h
    split at h
    · next hexited => exact Or.inr hexited
    · cases h
  | closing i => exact Or.inl rfl
  | done => exact Or.inl rfl

/-- What is found in `t` is found in the same slot of `t'`. -/
structure Extends (t t' : DeviceTable) : Prop where
  findSlot : ∀ fd j, t.findSlot fd = some j → t'.findSlot fd = some j
  deviceCount : t.deviceCount ≤ t'.deviceCount

theorem extends_of_kept {t t' : DeviceTable} (h : t.Kept t') : Extends t t' :=
  ⟨fun fd _ hj => (h.findSlot fd).trans hj, h.deviceCount.ge⟩

theorem extends_addDevice {t t' : DeviceTable} {fd : ℕ} {ip : String} {port : ℕ} {now : ℤ} {conn : ℕ}
    (h : t.addDevice fd ip port now conn = some t') : Extends t t' := by
  refine ⟨fun fd' j hj => DeviceTable.findSlot_addDevice hj h, ?_⟩
  obtain ⟨old, hlive⟩ := DeviceTable.live_addDevice h
  have hcount := congrArg List.length hlive
  rw [DeviceTable.length_live, List.length_append, DeviceTable.length_live] at hcount
  omega

theorem AcceptEffect.extends {ctx ctx' : GatewayCtx} {locked : Bool} {pc pc' : AcceptPc}
    (h : AcceptEffect ctx locked pc ctx' pc') : Extends ctx.devices ctx'.devices := by
  cases h with
  | opens => exact extends_of_kept (.refl _)
  | refuses => exact extends_of_kept (.refl _)
  | quiet hquiet => exact extends_of_kept hquiet.devices
  | adds hfree hadd => exact extends_addDevice hadd

section

variable {s : Threads} (h : PointersValid s)
include h

theorem PointersValid.held_extends {t : DeviceTable} (ht : Extends s.ctx.devices t) :
    ∀ w ∈ s.workers, ∀ j, w.pc.pointer = some j → t.findSlot w.fd = some j :=
  fun w hw j hj => ht.findSlot _ _ (h.held w hw j hj)

theorem PointersValid.evicting_extends {t : DeviceTable} (ht : Extends s.ctx.devices t) :
    ∀ now i, s.heartbeat.pc = .evicting now i → i < t.deviceCount :=
  fun now i hpc => (h.evicting now i hpc).trans_le ht.deviceCount

/-- A removal behind the pointers in use keeps them. -/
theorem PointersValid.held_removeSlot {i : ℕ} (hi : i < s.ctx.devices.deviceCount)
    (hspare : ∀ w ∈ s.workers, ∀ j, w.pc.pointer = some j → j < i) :
    ∀ w ∈ s.workers, ∀ j, w.pc.pointer = some j →
      (s.ctx.devices.removeSlot i).findSlot w.fd = some j :=
  fun w hw j hj => DeviceTable.findSlot_removeSlot (h.held w hw j hj) (hspare w hw j hj) hi

end

/-- One worker makes a step: it goes on with a pointer that is valid, or with
    none. -/
theorem held_set {t : DeviceTable} {ws : List Worker} {k : ℕ} {w : Worker} {pc : WorkerPc}
    (h : ∀ w ∈ ws, ∀ j, w.pc.pointer = some j → t.findSlot w.fd = some j)
    (hpc : ∀ j, pc.pointer = some j → t.findSlot w.fd = some j) :
    ∀ w' ∈ ws.set k { w with pc := pc }, ∀ j, w'.pc.pointer = some j → t.findSlot w'.fd = some j := by
  intro w' hw' j hj
  rcases List.mem_or_eq_of_mem_set hw' with hw' | rfl
  · exact h w' hw' j hj
  · exact hpc j hj

theorem pointersValid_heartbeat {s : Threads} {time : ℤ} {ctx : GatewayCtx} {thread : HeartbeatThread}
    (h : PointersValid s) (hspare : SparesPointers s (.heartbeat time)) (hpc : s.heartbeat.pc ≠ .exited)
    (heffect : HeartbeatEffect s.ctx s.heartbeat.pc ctx thread.pc) :
    PointersValid { s with ctx := ctx, heartbeat := thread } := by
  generalize hold : s.heartbeat.pc = pc at heffect
  generalize hnew : thread.pc = pc' at heffect
  have hjoined : s.stop.joined = true → thread.pc = .exited := fun hj => absurd (h.joined hj) hpc
  cases heffect with
  | @closes now i hevicts =>
    refine ⟨h.held, fun now' i' hpc' => ?_, hjoined⟩
    rw [hnew] at hpc'
    cases hpc'
    exact hevicts.1
  | removes now i =>
    refine ⟨h.held_removeSlot (h.evicting now i hold) (hspare i ⟨now, hold⟩), fun now' i' hpc' => ?_,
      hjoined⟩
    rw [hnew] at hpc'
    cases hpc'
  | quiet hquiet hpc' hstays =>
    exact ⟨h.held_extends (extends_of_kept hquiet.devices),
      fun now i hev => absurd (hnew ▸ hev) (hpc' now i), hjoined⟩

theorem pointersValid_stop {s : Threads} {ctx : GatewayCtx} {pc : StopPc} (h : PointersValid s)
    (hspare : SparesPointers s .stop) (hjoined : pc.joined = true → s.heartbeat.pc = .exited)
    (heffect : StopEffect s.ctx s.stop ctx pc) : PointersValid { s with ctx := ctx, stop := pc } := by
  generalize hold : s.stop = pc' at heffect
  cases heffect with
  | closes => exact ⟨h.held, h.evicting, hjoined⟩
  | quiet hquiet =>
    have hext := extends_of_kept hquiet.devices
    exact ⟨h.held_extends hext, h.evicting_extends hext, hjoined⟩
  | @clears n hn =>
    refine ⟨fun w hw j hj => ?_, fun now i hpc => ?_, hjoined⟩
    · -- the record that a pointer in use points to would be deleted
      have hlt := DeviceTable.lt_of_findSlot (h.held w hw j hj)
      exact absurd (hspare j ⟨n, hold, hn, hlt⟩ w hw j hj) (Nat.lt_irrefl j)
    · rw [show s.heartbeat.pc = .exited from h.joined (hold ▸ rfl)] at hpc
      cases hpc

theorem pointersValid_worker {s : Threads} {k : ℕ} {w : Worker} {a : WorkerAction} {ctx : GatewayCtx}
    {pc : WorkerPc} (h : PointersValid s) (hspare : SparesPointers s (.worker k a))
    (hw : s.workers[k]? = some w) (heffect : WorkerEffect s.ctx s.locked w.fd w.pc a ctx pc) :
    PointersValid { s with ctx := ctx, workers := s.workers.set k { w with pc := pc } } := by
  generalize hold : w.pc = pc' at heffect
  cases heffect with
  | close => exact ⟨held_set h.held nofun, h.evicting, h.joined⟩
  | quiet hquiet hpc hpc' hpointer =>
    have hext := extends_of_kept hquiet.devices
    refine ⟨held_set (h.held_extends hext) fun j hj => hext.findSlot _ _ ?_, h.evicting_extends hext,
      h.joined⟩
    rcases hpointer j hj with hj | hj
    · exact h.held w (List.mem_of_getElem? hw) j (hold ▸ hj)
    · exact hj
  | remove hfree =>
    refine ⟨held_set ?_ nofun, fun now i hpc => ?_, h.joined⟩
    · show ∀ w' ∈ s.workers, ∀ j, w'.pc.pointer = some j →
        (s.ctx.devices.removeDevice w.fd).findSlot w'.fd = some j
      cases hfind : s.ctx.devices.findSlot w.fd with
      | none =>
        rw [DeviceTable.removeDevice, hfind]
        exact h.held
      | some i =>
        rw [DeviceTable.removeDevice, hfind]
        exact h.held_removeSlot (DeviceTable.lt_of_findSlot hfind) (hspare i ⟨w, hw, hold, hfind⟩)
    · -- the heartbeat thread holds the mutex during an eviction
      have hlocks : s.heartbeat.locks = true := by
        rw [HeartbeatThread.locks, show s.heartbeat.pc = .evicting now i from hpc]
      rw [Threads.locked, hlocks] at hfree
      cases hfree

theorem pointersValid_step {s s' : Threads} {a : Action} (h : PointersValid s)
    (hspare : SparesPointers s a) (hs : s.step a = some s') : PointersValid s' := by
  cases Threads.step_effect hs with
  | spawn fd conn haccept =>
    refine ⟨fun w hw j hj => ?_, h.evicting, h.joined⟩
    rcases List.mem_append.mp hw with hw | hw
    · exact h.held w hw j hj
    · rw [List.mem_singleton.mp hw] at hj
      cases hj
  | accept a ctx pc heffect =>
    exact ⟨h.held_extends heffect.extends, h.evicting_extends heffect.extends, h.joined⟩
  | heartbeat time ctx thread heffect =>
    exact pointersValid_heartbeat h hspare (heartbeat_not_exited hs) heffect
  | stop ctx pc heffect =>
    refine pointersValid_stop h hspare (fun hj => ?_) heffect
    rcases joined_of_stop hs hj with hold | hexited
    · exact h.joined hold
    · exact hexited
  | command a ctx ha hquiet =>
    have hext := extends_of_kept hquiet.devices
    exact ⟨h.held_extends hext, h.evicting_extends hext, h.joined⟩
  | worker k w a ctx pc hw heffect => exact pointersValid_worker h hspare hw heffect

/-! ## Runs -/

theorem PointersValid.usesOwnRecord {s : Threads} (h : PointersValid s) (a : Action) :
    UsesOwnRecord s a := by
  rintro k w j handler access todo msg rest rfl hw hpc
  have hfind : s.ctx.devices.findSlot w.fd = some j :=
    h.held w (List.mem_of_getElem? hw) j (by rw [hpc]; rfl)
  refine ⟨hfind, ?_⟩
  rintro rfl s' hs
  simp only [Threads.step, hw, hpc, workerStep, Option.map_some, Option.some.injEq] at hs
  rw [← hs, ← DeviceTable.fd_slot_of_findSlot hfind]
  rfl

/-- A removal at or before the slot of a pointer leaves it at another record,
    if no two records have the same descriptor. -/
theorem findSlot_removeSlot_ne {t : DeviceTable} {fd i j : ℕ} (h : t.findSlot fd = some j)
    (hij : i ≤ j) (hnodup : (t.live.map GatewayDevice.fd).Nodup) :
    (t.removeSlot i).findSlot fd ≠ some j := by
  intro h'
  have hi : i < t.deviceCount := hij.trans_lt (DeviceTable.lt_of_findSlot h)
  obtain ⟨⟨dev, hdev, hfd⟩, -⟩ := DeviceTable.findSlot_eq_some.mp h
  obtain ⟨⟨dev', hdev', hfd'⟩, -⟩ := DeviceTable.findSlot_eq_some.mp h'
  rw [DeviceTable.live_removeSlot t hi, List.getElem?_eraseIdx_of_ge hij] at hdev'
  have hj : (t.live.map GatewayDevice.fd)[j]? = some fd := by rw [List.getElem?_map, hdev, ← hfd]; rfl
  have hj' : (t.live.map GatewayDevice.fd)[j + 1]? = some fd := by
    rw [List.getElem?_map, hdev', ← hfd']; rfl
  have heq := (List.getElem?_inj (List.getElem?_eq_some_iff.mp hj).1 hnodup).mp (hj.trans hj'.symm)
  omega

theorem pointersCurrent_broken {s s' : Threads} {a : Action} (h : PointersValid s) (hd : Disciplined s)
    (hbad : ¬ SparesPointers s a) (hs : s.step a = some s') : ¬ PointersCurrent s' := by
  intro hcurrent
  simp only [SparesPointers, not_forall, not_lt] at hbad
  obtain ⟨i, hremoves, w, hw, j, hj, hij⟩ := hbad
  have hfind := h.held w hw j hj
  cases a with
  | worker k a =>
    cases a with
    | remove =>
      obtain ⟨v, hv, hpc, hslot⟩ := hremoves
      simp only [Threads.step, hv, hpc, workerStep] at hs
      obtain ⟨⟨ctx, pc⟩, hstep, rfl⟩ := Option.map_eq_some_iff.mp hs
      split_ifs at hstep
      obtain ⟨rfl, rfl⟩ := Prod.mk.inj (Option.some.inj hstep)
      -- the worker with the pointer is not the one that leaves
      have hw' : w ∈ s.workers.set k { v with pc := .removed } := by
        refine mem_set_of_ne hv hw ?_ _
        rintro rfl
        rw [hpc] at hj
        cases hj
      have hfind' : (s.ctx.devices.removeDevice v.fd).findSlot w.fd = some j := hcurrent w hw' j hj
      rw [DeviceTable.removeDevice, hslot] at hfind'
      exact findSlot_removeSlot_ne hfind hij hd.ownsDescriptors.nodup hfind'
    | _ => exact hremoves.elim
  | heartbeat time =>
    obtain ⟨now, hpc⟩ := hremoves
    exact hd.evictsNone now i hpc
  | stop =>
    obtain ⟨n, hpc, hn, hi⟩ := hremoves
    simp only [Threads.step, hpc, stopStep, if_neg (Nat.not_lt.mpr hn), Option.map_some,
      Option.some.injEq] at hs
    subst hs
    have hlt := DeviceTable.lt_of_findSlot (hcurrent w hw j hj)
    exact absurd hlt (Nat.not_lt_zero j)
  | _ => exact hremoves.elim

/-- As long as no record is deleted at or before a slot that a handler is still
    to access, handlers read and write the record of their own connection and
    respond on its descriptor, whatever other records come and go. As long as
    descriptors are closed by their owners only, any other removal leaves a
    handler with the record of another connection, or with none. -/
theorem handlers_use_own_record {time : ℤ} {as : List Action} {s : Threads}
    (h : exec Threads.step (.start time) as = some s) :
    (Every Threads.step SparesPointers (.start time) as →
      Every Threads.step UsesOwnRecord (.start time) as ∧
        Along Threads.step PointersCurrent (.start time) as) ∧
    (Every Threads.step (fun s a => ¬ ClosesDevice s a) (.start time) as →
      (Along Threads.step PointersCurrent (.start time) as ↔
        Every Threads.step SparesPointers (.start time) as)) := by
  have h0 := pointersValid_start time
  refine ⟨fun hspare => ⟨?_, ?_⟩, fun hkeep => ?_⟩
  · exact Every.of_inv (fun _ _ _ => pointersValid_step) (fun _ a hv _ => hv.usesOwnRecord a) h0 hspare
  · exact Along.of_inv (fun _ _ _ => pointersValid_step) (fun _ hv => hv.held) h0 hspare
  · refine along_iff_every_of (J := fun s => PointersValid s ∧ Disciplined s) ?_ (fun _ hJ => hJ.1.held)
      ?_ ⟨h0, disciplined_start time⟩ hkeep h
    · exact fun _ _ _ hJ henv hspare hs =>
        ⟨pointersValid_step hJ.1 hspare hs, disciplined_step hJ.2 henv hs⟩
    · exact fun _ _ _ hJ _ hbad hs => pointersCurrent_broken hJ.1 hJ.2 hbad hs

/-- The registration of a device of type `"ST"`. -/
def registerFrame : ProtoMessage := ⟨cmdStm32Register, flagRequest, 1, [0x53, 0x54], 2⟩

/-- A client that connects and registers. -/
def registration : List Action :=
  [.accept .check, .accept (.accept 5 "10.0.0.1" 4000), .accept (.add 0), .accept .spawn,
    .worker 0 .start, .worker 0 .check,
    .worker 0 (.recv (some [registerFrame])),
    .worker 0 .find, .worker 0 (.update 1), .worker 0 (.act (.filled _ 0)),
    .worker 0 .handle, .worker 0 .handle, .worker 0 .handle, .worker 0 .handle]

theorem handlers_use_own_record_registration :
    ∃ s, exec Threads.step (.start 0) registration = some s ∧
      (Every Threads.step SparesPointers (.start 0) registration →
        Every Threads.step UsesOwnRecord (.start 0) registration ∧
          Along Threads.step PointersCurrent (.start 0) registration) ∧
      (Every Threads.step (fun s a => ¬ ClosesDevice s a) (.start 0) registration →
        (Along Threads.step PointersCurrent (.start 0) registration ↔
          Every Threads.step SparesPointers (.start 0) registration)) := by
  have hsome : (exec Threads.step (.start 0) registration).isSome = true := by decide +kernel
  obtain ⟨s, hs⟩ := Option.isSome_iff_exists.mp hsome
  exact ⟨s, hs, handlers_use_own_record hs⟩

/-- Three clients; the record of the first is deleted while `handle_register`
    is about to start for the second. -/
def departure : List Action :=
  List.flatten
    [connect 0 5, connect 1 6, connect 2 7,
      [.worker 1 (.recv (some [registerFrame])), .worker 1 .find, .worker 1 (.update 1),
        .worker 1 (.act (.filled _ 0)), .worker 0 (.recv none), .worker 0 .remove]]

/-- The accesses of `handle_register`. -/
def handling : List Action := List.replicate 4 (.worker 1 .handle)

/-- The handler that runs for descriptor 6 writes the type of the device on
    descriptor 7, and sends the response there. -/
theorem departure_redirects :
    ∃ s, exec Threads.step (.start 0) (departure ++ handling) = some s ∧
      s.ctx.devices.live.map (fun dev => (dev.fd, dev.devType)) =
        [(6, devTypeUnknown), (7, devTypeStm32)] ∧
      s.ctx.wire.map Prod.fst = [7] ∧
      ¬ Every Threads.step UsesOwnRecord (.start 0) (departure ++ handling) := by
  have hmid : (exec Threads.step (.start 0) departure).map (fun s =>
      (s.workers[1]?, s.ctx.devices.findSlot 6)) =
        some (some ⟨6, 1, .handling 1 .handleRegister MenuHandler.handleRegister.accesses registerFrame []⟩,
          some 0) := by decide +kernel
  have hend : (exec Threads.step (.start 0) (departure ++ handling)).map (fun s =>
      (s.ctx.devices.live.map (fun dev => (dev.fd, dev.devType)), s.ctx.wire.map Prod.fst)) =
        some ([(6, devTypeUnknown), (7, devTypeStm32)], [7]) := by decide +kernel
  obtain ⟨s, hs, heq⟩ := Option.map_eq_some_iff.mp hmid
  obtain ⟨hworker, hslot⟩ := Prod.mk.inj heq
  obtain ⟨s', hs', heq'⟩ := Option.map_eq_some_iff.mp hend
  obtain ⟨hlive, hwire⟩ := Prod.mk.inj heq'
  refine ⟨s', hs', hlive, hwire, fun hevery => ?_⟩
  have huses : UsesOwnRecord s (.worker 1 .handle) := hevery.at hs
  have hfind := (huses 1 _ 1 .handleRegister .read _ registerFrame [] rfl hworker rfl).1
  rw [hslot] at hfind
  cases hfind

end LinuxFileManager.Gateway
