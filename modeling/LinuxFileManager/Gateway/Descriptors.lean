import LinuxFileManager.Gateway.Steps

/-!
# Descriptors and connections

Whether the descriptors that workers use still stand for the connections they
were started for. Descriptor numbers are reused, and besides the worker of a
connection the heartbeat thread and `gateway_stop` close the descriptors in the
device table.

The threads own descriptors in the sense of `Lib.Ownership`: the accept thread
from `accept` to the start of the worker, then the worker up to its `close`.
The device table is the registry.

Result:

* `ownsDescriptors_iff`: along a run, every owner's descriptor stands for its
  own connection, no record of another connection is found under it, and the
  descriptors in the table are distinct, if and only if neither the heartbeat
  thread nor `gateway_stop` ever closes the descriptor of a device.
-/

namespace LinuxFileManager.Gateway

open Lib Protocol Relation

/-! ## The property and the condition -/

/-- Those who will close a descriptor. -/
def Threads.owners (s : Threads) : Multiset (Owner ℕ) :=
  addOwner s.accept.owner ((s.workers : Multiset Worker).filterMap Worker.owner)

/-- Every descriptor that is still to be used and closed stands for the
    connection of its owner, the records that are found under it are of this
    connection, and no two records have the same descriptor. -/
structure OwnsDescriptors (s : Threads) : Prop where
  own : ∀ w ∈ s.owners, s.ctx.openFds w.handle = some w.object
  record : ∀ w ∈ s.owners, ∀ dev ∈ s.ctx.devices.live, dev.fd = w.handle → dev.conn = w.object
  nodup : (s.ctx.devices.live.map GatewayDevice.fd).Nodup

/-- A worker that receives, or closes its descriptor, does this to its own
    connection; a record that it deletes is of its own connection; and the
    accept thread closes only a connection that it has accepted. -/
def ActsOnOwn (s : Threads) : Action → Prop
  | .worker k a => ∀ w, s.workers[k]? = some w →
    match w.pc, a with
    | .selecting, .recv _ => s.ctx.openFds w.fd = some w.conn
    | .leaving, .remove =>
      ∀ i, s.ctx.devices.findSlot w.fd = some i → (s.ctx.devices.slot i).conn = w.conn
    | .removed, .close => s.ctx.openFds w.fd = some w.conn
    | _, _ => True
  | .accept .refuse => ∀ fd conn, s.accept = .refused fd conn → s.ctx.openFds fd = some conn
  | _ => True

/-- The step closes the descriptor of a device: an eviction by the heartbeat
    thread (line 430) or the loop of `gateway_stop` (line 278). -/
def ClosesDevice (s : Threads) : Action → Prop
  | .heartbeat _ => ∃ now i, s.heartbeat.pc = .checking now i ∧ Evicts s.ctx now i
  | .stop => ∃ i, s.stop = .closing i ∧ i < s.ctx.devices.deviceCount ∧ 0 < (s.ctx.devices.slot i).fd
  | _ => False

/-! ## Refinement of the ownership discipline -/

/-- The ownership that a state of the gateway shows. -/
def ownershipOf (ctx : GatewayCtx) (owners : Multiset (Owner ℕ)) : Ownership ℕ where
  table := ctx.openFds
  next := ctx.nextConn
  owners := owners
  registry := (ctx.devices.live.map GatewayDevice.key : List (ℕ × ℕ))

def Threads.ownership (s : Threads) : Ownership ℕ := ownershipOf s.ctx s.owners

theorem Quiet.ownershipOf_eq {ctx ctx' : GatewayCtx} (h : Quiet ctx ctx')
    (owners : Multiset (Owner ℕ)) : ownershipOf ctx' owners = ownershipOf ctx owners := by
  have hkept : ctx'.devices.live.map GatewayDevice.key = ctx.devices.live.map GatewayDevice.key :=
    h.devices
  rw [ownershipOf, ownershipOf, h.openFds, h.nextConn, hkept]

theorem filterMap_owner_cons (w : Worker) (ws : Multiset Worker) :
    (w ::ₘ ws).filterMap Worker.owner = addOwner w.owner (ws.filterMap Worker.owner) := by
  cases h : w.owner with
  | none => exact Multiset.filterMap_cons_none w ws h
  | some o => exact Multiset.filterMap_cons_some Worker.owner w ws h

/-- The owners among the workers when one of them makes a step. -/
theorem owners_set {ws : List Worker} {k : ℕ} {w : Worker} (h : ws[k]? = some w) (w' : Worker) :
    ∃ rest : Multiset (Owner ℕ),
      (ws : Multiset Worker).filterMap Worker.owner = addOwner w.owner rest ∧
      (ws.set k w' : Multiset Worker).filterMap Worker.owner = addOwner w'.owner rest := by
  obtain ⟨rest, hperm, hset⟩ := exists_perm_set h
  refine ⟨(rest : Multiset Worker).filterMap Worker.owner, ?_, ?_⟩
  · rw [← filterMap_owner_cons, Multiset.cons_coe, Multiset.coe_eq_coe.mpr hperm]
  · rw [← filterMap_owner_cons, Multiset.cons_coe, Multiset.coe_eq_coe.mpr (hset w')]

theorem AcceptEffect.refines {ctx ctx' : GatewayCtx} {locked : Bool} {pc pc' : AcceptPc}
    (h : AcceptEffect ctx locked pc ctx' pc') (rest : Multiset (Owner ℕ)) :
    ReflGen Ownership.Step (ownershipOf ctx (addOwner pc.owner rest))
      (ownershipOf ctx' (addOwner pc'.owner rest)) := by
  cases h with
  | opens fd ip port hclosed => exact .single (.create fd hclosed)
  | @adds fd conn ip port now devices hfree hadd =>
    obtain ⟨old, hlive⟩ := DeviceTable.live_addDevice hadd
    have hregistry : ownershipOf { ctx with devices := devices } (⟨fd, conn, true⟩ ::ₘ rest) =
        ⟨ctx.openFds, ctx.nextConn, ⟨fd, conn, true⟩ ::ₘ rest,
          (fd, conn) ::ₘ (ctx.devices.live.map GatewayDevice.key : List (ℕ × ℕ))⟩ := by
      rw [ownershipOf, hlive, List.map_append, Multiset.cons_coe]
      congr 1
      exact Multiset.coe_eq_coe.mpr (List.perm_append_singleton _ _)
    refine .single ?_
    show Ownership.Step _ (ownershipOf { ctx with devices := devices } (⟨fd, conn, true⟩ ::ₘ rest))
    rw [hregistry]
    exact .register fd conn rest rfl
  | refuses fd conn => exact .single (.close fd conn rest rfl)
  | quiet hquiet howner =>
    rw [hquiet.ownershipOf_eq, howner]

/-- `remove_device` deletes one entry with the descriptor, or finds none. -/
theorem refines_removeDevice (ctx : GatewayCtx) (fd conn : ℕ) (rest : Multiset (Owner ℕ)) :
    Ownership.Step (ownershipOf ctx (⟨fd, conn, true⟩ ::ₘ rest))
      (ownershipOf { ctx with devices := ctx.devices.removeDevice fd } (⟨fd, conn, false⟩ ::ₘ rest)) := by
  cases hfind : ctx.devices.findSlot fd with
  | none =>
    have hdevices : ctx.devices.removeDevice fd = ctx.devices := by
      rw [DeviceTable.removeDevice, hfind]
    rw [hdevices]
    refine .absent fd conn rest rfl fun c' hmem => ?_
    obtain ⟨dev, hdev, hkey⟩ := List.mem_map.mp (Multiset.mem_coe.mp hmem)
    exact DeviceTable.findSlot_eq_none.mp hfind dev hdev (Prod.mk.inj hkey).1
  | some i =>
    have hdevices : ctx.devices.removeDevice fd = ctx.devices.removeSlot i := by
      rw [DeviceTable.removeDevice, hfind]
    obtain ⟨⟨dev, hdev, hfd⟩, -⟩ := DeviceTable.findSlot_eq_some.mp hfind
    obtain ⟨hi, heq⟩ := List.getElem?_eq_some_iff.mp hdev
    rw [hdevices, ownershipOf, ownershipOf,
      DeviceTable.live_removeSlot _ (DeviceTable.lt_of_findSlot hfind)]
    refine .unregister fd conn dev.conn rest _ rfl ?_
    show ((ctx.devices.live.map GatewayDevice.key : List (ℕ × ℕ)) : Multiset (ℕ × ℕ)) = _
    rw [Multiset.cons_coe, ← hfd, ← heq, Multiset.coe_eq_coe]
    exact (List.getElem_cons_eraseIdx_perm hi).symm.map GatewayDevice.key

theorem WorkerEffect.refines {ctx ctx' : GatewayCtx} {locked : Bool} {w : Worker} {pc' : WorkerPc}
    {a : WorkerAction} (h : WorkerEffect ctx locked w.fd w.pc a ctx' pc') (rest : Multiset (Owner ℕ)) :
    ReflGen Ownership.Step (ownershipOf ctx (addOwner w.owner rest))
      (ownershipOf ctx' (addOwner (Worker.owner { w with pc := pc' }) rest)) := by
  obtain ⟨fd, conn, pc⟩ := w
  cases h with
  | remove hfree => exact .single (refines_removeDevice ctx fd conn rest)
  | close => exact .single (.close fd conn rest rfl)
  | quiet hquiet hpc hpc' hpointer =>
    rw [hquiet.ownershipOf_eq, Worker.owner_of_active hpc, Worker.owner_of_active hpc']

/-- The heartbeat thread has not closed a descriptor whose record it still has
    to delete. -/
def HeartbeatPc.evictsNone (pc : HeartbeatPc) : Prop := ∀ now i, pc ≠ .evicting now i

/-- A step that closes no descriptor of a device is an operation of the
    ownership discipline, or none. -/
theorem Threads.step_refines {s s' : Threads} {a : Action} (hpc : s.heartbeat.pc.evictsNone)
    (hkeep : ¬ ClosesDevice s a) (h : s.step a = some s') :
    ReflGen Ownership.Step s.ownership s'.ownership ∧ s'.heartbeat.pc.evictsNone := by
  cases Threads.step_effect h with
  | spawn fd conn haccept =>
    refine ⟨?_, hpc⟩
    have howners : (s.workers ++ [Worker.mk fd conn .queued] : Multiset Worker).filterMap Worker.owner =
        s.owners := by
      rw [Threads.owners, haccept, ← Multiset.coe_add, Multiset.filterMap_add]
      exact Multiset.add_comm _ _
    rw [Threads.ownership, Threads.ownership, ← howners]
    rfl
  | accept a ctx pc heffect => exact ⟨heffect.refines _, hpc⟩
  | heartbeat time ctx thread heffect =>
    generalize hold : s.heartbeat.pc = pc at heffect
    generalize hnew : thread.pc = pc' at heffect
    cases heffect with
    | @closes now i hevicts => exact absurd ⟨now, i, hold, hevicts⟩ hkeep
    | removes now i => exact absurd hold (hpc now i)
    | quiet hquiet hpc' hstays =>
      refine ⟨?_, fun now i => hnew ▸ hpc' now i⟩
      rw [Threads.ownership, Threads.ownership, hquiet.ownershipOf_eq]
      rfl
  | stop ctx pc heffect =>
    refine ⟨?_, hpc⟩
    generalize hold : s.stop = pc' at heffect
    cases heffect with
    | @closes i hi hpos => exact absurd ⟨i, hold, hi, hpos⟩ hkeep
    | clears hi => exact .single .clear
    | quiet hquiet =>
      rw [Threads.ownership, Threads.ownership, hquiet.ownershipOf_eq]
      rfl
  | command a ctx ha hquiet =>
    refine ⟨?_, hpc⟩
    rw [Threads.ownership, Threads.ownership, hquiet.ownershipOf_eq]
    rfl
  | worker k w a ctx pc hw heffect =>
    refine ⟨?_, hpc⟩
    obtain ⟨rest, hold, hnew⟩ := owners_set hw { w with pc := pc }
    rw [Threads.ownership, Threads.ownership, Threads.owners, Threads.owners, hold, hnew,
      addOwner_comm, addOwner_comm _ (Worker.owner _)]
    exact heffect.refines _

/-! ## Runs -/

/-- The bookkeeping is sound and no eviction is under way. -/
structure Disciplined (s : Threads) : Prop where
  sound : s.ownership.Sound
  evictsNone : s.heartbeat.pc.evictsNone

theorem disciplined_start (time : ℤ) : Disciplined (.start time) :=
  ⟨Ownership.sound_initial _ _, nofun⟩

theorem disciplined_step {s s' : Threads} {a : Action} (h : Disciplined s) (hkeep : ¬ ClosesDevice s a)
    (hs : s.step a = some s') : Disciplined s' := by
  obtain ⟨hrefines, hpc⟩ := Threads.step_refines h.evictsNone hkeep hs
  refine ⟨?_, hpc⟩
  rcases (reflGen_iff _ _ _).mp hrefines with heq | hstep
  · exact heq ▸ h.sound
  · exact h.sound.step hstep

theorem Disciplined.mem_registry {s : Threads} {dev : GatewayDevice} (hdev : dev ∈ s.ctx.devices.live) :
    (dev.fd, dev.conn) ∈ s.ownership.registry :=
  Multiset.mem_coe.mpr (List.mem_map_of_mem (f := GatewayDevice.key) hdev)

theorem Disciplined.ownsDescriptors {s : Threads} (h : Disciplined s) : OwnsDescriptors s := by
  refine ⟨h.sound.isOpen, ?_, ?_⟩
  · intro w hw dev hdev hfd
    have hmem := Disciplined.mem_registry hdev
    rw [hfd] at hmem
    exact h.sound.registry_object hw hmem
  · have hnodup := h.sound.registry_handles_nodup
    have hmap : (s.ctx.devices.live.map GatewayDevice.key).map Prod.fst =
        s.ctx.devices.live.map GatewayDevice.fd := by
      rw [List.map_map]
      rfl
    rw [← hmap]
    exact Multiset.coe_nodup.mp hnodup

theorem mem_owners_of_worker {s : Threads} {k : ℕ} {w : Worker} {o : Owner ℕ}
    (hw : s.workers[k]? = some w) (ho : w.owner = some o) : o ∈ s.owners := by
  have hmem : o ∈ (s.workers : Multiset Worker).filterMap Worker.owner :=
    (Multiset.mem_filterMap _ _).mpr ⟨w, Multiset.mem_coe.mpr (List.mem_of_getElem? hw), ho⟩
  unfold Threads.owners
  cases s.accept.owner with
  | none => exact hmem
  | some o' => exact Multiset.mem_cons_of_mem hmem

theorem Disciplined.actsOnOwn {s : Threads} (h : Disciplined s) (a : Action) : ActsOnOwn s a := by
  have hown := h.ownsDescriptors
  cases a with
  | worker k a =>
    intro w hw
    split
    · next hpc =>
        exact hown.own ⟨w.fd, w.conn, true⟩ (mem_owners_of_worker hw (by simp [Worker.owner, hpc]))
    · next hpc =>
      intro i hfind
      exact hown.record ⟨w.fd, w.conn, true⟩ (mem_owners_of_worker hw (by simp [Worker.owner, hpc])) _
        (DeviceTable.mem_live_slot (DeviceTable.lt_of_findSlot hfind))
        (DeviceTable.fd_slot_of_findSlot hfind)
    · next hpc =>
        exact hown.own ⟨w.fd, w.conn, false⟩ (mem_owners_of_worker hw (by simp [Worker.owner, hpc]))
    · trivial
  | accept a =>
    cases a with
    | refuse =>
      intro fd conn hpc
      refine hown.own ⟨fd, conn, false⟩ ?_
      simp [Threads.owners, hpc, AcceptPc.owner, addOwner]
    | _ => trivial
  | _ => trivial

/-- When the descriptor of a device is closed, its owner still counts on it. -/
theorem Disciplined.broken_by_close {s s' : Threads} (h : Disciplined s) {i : ℕ}
    (hi : i < s.ctx.devices.deviceCount) (howners : s'.owners = s.owners)
    (hctx : s'.ctx = s.ctx.close (s.ctx.devices.slot i).fd) : ¬ OwnsDescriptors s' := by
  intro hown
  have hbacked := h.sound.backed _ _ (Disciplined.mem_registry (DeviceTable.mem_live_slot hi))
  rw [show s.ownership.owners = s'.owners from howners.symm] at hbacked
  have hopen := hown.own _ hbacked
  rw [hctx] at hopen
  simp [GatewayCtx.close] at hopen

theorem ownsDescriptors_broken {s s' : Threads} {a : Action} (h : Disciplined s)
    (hbad : ¬ ¬ ClosesDevice s a) (hs : s.step a = some s') : ¬ OwnsDescriptors s' := by
  rw [not_not] at hbad
  cases Threads.step_effect hs with
  | heartbeat time ctx thread heffect =>
    obtain ⟨now, i, hpc, hevicts⟩ := hbad
    rw [hpc] at heffect
    generalize thread.pc = pc' at heffect
    cases heffect with
    | closes _ => exact h.broken_by_close hevicts.1 rfl rfl
    | quiet hquiet hpc' hstays => exact absurd hevicts (hstays now i rfl)
  | stop ctx pc heffect =>
    obtain ⟨i, hpc, hi, hpos⟩ := hbad
    rw [hpc] at heffect
    cases heffect with
    | closes _ _ => exact h.broken_by_close hi rfl rfl
    | clears hle => omega
    | quiet _ hquiet => exact absurd hpos (hquiet i rfl).2
  | command a ctx ha hquiet => rcases ha with rfl | rfl <;> exact hbad.elim
  | spawn => exact hbad.elim
  | accept => exact hbad.elim
  | worker => exact hbad.elim

/-- Along a run the threads keep to their own connections if and only if no
    step closes the descriptor of a device: evictions by the heartbeat thread
    and the loop of `gateway_stop` do, while the worker of the device still
    uses the descriptor and will close it again. -/
theorem ownsDescriptors_iff {time : ℤ} {as : List Action} {s : Threads}
    (h : exec Threads.step (.start time) as = some s) :
    (Along Threads.step OwnsDescriptors (.start time) as ∧
        Every Threads.step ActsOnOwn (.start time) as) ↔
      Every Threads.step (fun s a => ¬ ClosesDevice s a) (.start time) as := by
  have hiff := along_iff_every (fun _ _ _ => disciplined_step) (fun _ => Disciplined.ownsDescriptors)
    (fun _ _ _ => ownsDescriptors_broken) (disciplined_start time) h
  refine ⟨fun hprop => hiff.mp hprop.1, fun hkeep => ⟨hiff.mpr hkeep, ?_⟩⟩
  exact Every.of_inv (fun _ _ _ => disciplined_step) (fun _ a hd _ => hd.actsOnOwn a)
    (disciplined_start time) hkeep

/-- A client that connects, sends nothing and leaves. -/
def visit : List Action :=
  [.accept .check, .accept (.accept 5 "10.0.0.1" 4000), .accept (.add 0), .accept .spawn,
    .worker 0 .start, .worker 0 .check, .worker 0 (.recv none), .worker 0 .remove, .worker 0 .close]

theorem ownsDescriptors_iff_visit :
    ∃ s, exec Threads.step (.start 0) visit = some s ∧
      ((Along Threads.step OwnsDescriptors (.start 0) visit ∧
          Every Threads.step ActsOnOwn (.start 0) visit) ↔
        Every Threads.step (fun s a => ¬ ClosesDevice s a) (.start 0) visit) := by
  have hsome : (exec Threads.step (.start 0) visit).isSome = true := by decide +kernel
  obtain ⟨s, hs⟩ := Option.isSome_iff_exists.mp hsome
  exact ⟨s, hs, ownsDescriptors_iff hs⟩

/-- The heartbeat thread evicts a silent client on descriptor 5 at time 61, a
    second client is accepted on it, and the worker of the first sees its end of
    stream. -/
def reuse : List Action :=
  List.flatten
    [[.accept .check, .accept (.accept 5 "10.0.0.1" 4000), .accept (.add 0), .accept .spawn,
        .worker 0 .start, .worker 0 .check],
      checkAt 10 4, checkAt 20 6, checkAt 31 6, checkAt 41 6, checkAt 51 6, checkAt 61 5,
      [.accept .check, .accept (.accept 5 "10.0.0.2" 4001), .accept (.add 62), .accept .spawn,
        .worker 0 (.recv none), .worker 0 .remove, .worker 0 .close]]

/-- The worker of the evicted client deletes the record of the second client and
    closes its descriptor, which the worker of the second client still owns. -/
theorem reuse_closes_other :
    ∃ s, exec Threads.step (.start 0) reuse = some s ∧
      s.ctx.openFds 5 = none ∧ s.workers.filterMap Worker.owner = [⟨5, 1, true⟩] ∧
      s.ctx.devices.deviceCount = 0 ∧
      ¬ (Along Threads.step OwnsDescriptors (.start 0) reuse ∧
        Every Threads.step ActsOnOwn (.start 0) reuse) := by
  have hend : (exec Threads.step (.start 0) reuse).map (fun s =>
      (s.ctx.openFds 5, s.workers.filterMap Worker.owner, s.ctx.devices.deviceCount)) =
        some (none, [⟨5, 1, true⟩], 0) := by decide +kernel
  obtain ⟨s, hs, heq⟩ := Option.map_eq_some_iff.mp hend
  simp only [Prod.mk.injEq] at heq
  obtain ⟨hclosed, howners, hcount⟩ := heq
  refine ⟨s, hs, hclosed, howners, hcount, fun hprop => ?_⟩
  have hmem : (⟨5, 1, true⟩ : Owner ℕ) ∈ (s.workers.filterMap Worker.owner : Multiset (Owner ℕ)) := by
    simp [howners]
  have hopen := (hprop.1.last hs).own ⟨5, 1, true⟩ (by
    unfold Threads.owners
    cases s.accept.owner with
    | none => exact hmem
    | some o => exact Multiset.mem_cons_of_mem hmem)
  rw [hclosed] at hopen
  cases hopen

end LinuxFileManager.Gateway
