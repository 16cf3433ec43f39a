import LinuxFileManager.Gateway.Pointers

/-!
# The device table while connections come and go

What the device table holds as long as neither the heartbeat thread nor
`gateway_stop` closes the descriptor of a device: `add_device` precedes the
hand-over of a connection to its worker, and `remove_device` precedes the
`close` of the worker.

Result:

* `table_holds_accepted`: at the end of every such run the table is sound
  (`TableSound`), and a connection that does not fit is refused
  (`RefusesWhenFull`).
-/

namespace LinuxFileManager.Gateway

open Lib Protocol

/-! ## The property -/

/-- The worker is in the queue of the pool or runs. -/
def WorkerPc.unfinished : WorkerPc → Bool
  | .closed => false
  | _ => true

/-- The accept thread has added the device on `fd` and has not started the
    worker. -/
def AcceptPc.handsOver (pc : AcceptPc) (fd : ℕ) : Bool :=
  match pc with
  | .added fd' _ => fd' == fd
  | _ => false

/-- The workers for `fd` that are queued or running, and the accept thread while
    it hands `fd` over. -/
def Threads.holders (s : Threads) (fd : ℕ) : ℕ :=
  s.workers.countP (fun w => w.pc.unfinished && w.fd == fd) + if s.accept.handsOver fd then 1 else 0

/-- The records in use are at most as many as the slots, their descriptors are
    distinct and stand for the connections of the records, each has one holder,
    and they are in the order in which the connections were accepted. -/
structure TableSound (s : Threads) : Prop where
  count : s.ctx.devices.deviceCount ≤ gatewayMaxClients
  distinct : (s.ctx.devices.live.map GatewayDevice.fd).Nodup
  isOpen : ∀ dev ∈ s.ctx.devices.live, s.ctx.openFds dev.fd = some dev.conn
  held : ∀ dev ∈ s.ctx.devices.live, s.holders dev.fd = 1
  ordered : (s.ctx.devices.live.map GatewayDevice.conn).Pairwise (· < ·)

/-- When the table is full, `add_device` leaves it as it is, and the connection
    is refused. All that the accept thread can do with a refused connection,
    which has no record and no holder, is to close it; this leaves the table,
    too. -/
structure RefusesWhenFull (s : Threads) : Prop where
  refuses : ∀ fd conn ip port now s', s.accept = .accepted fd conn ip port →
    s.ctx.devices.deviceCount = gatewayMaxClients → s.step (.accept (.add now)) = some s' →
    s'.accept = .refused fd conn ∧ s'.ctx.devices = s.ctx.devices
  closes : ∀ fd conn, s.accept = .refused fd conn →
    s.ctx.openFds fd = some conn ∧ s.holders fd = 0 ∧ (∀ dev ∈ s.ctx.devices.live, dev.fd ≠ fd) ∧
      (∃ s', s.step (.accept .refuse) = some s') ∧
      ∀ a s', s.step (.accept a) = some s' →
        s'.accept = .top ∧ s'.ctx.devices = s.ctx.devices ∧ s'.ctx.openFds fd = none

/-! ## Holders -/

/-- The holders of a descriptor are among its owners. -/
theorem countP_unfinished (ws : List Worker) (fd : ℕ) :
    ws.countP (fun w => w.pc.unfinished && w.fd == fd) =
      ((ws : Multiset Worker).filterMap Worker.owner).countP fun o => o.handle = fd := by
  rw [Multiset.filterMap_coe, Multiset.coe_countP, List.countP_filterMap]
  refine List.countP_congr fun w _ => ?_
  unfold WorkerPc.unfinished Worker.owner
  split <;> split <;> simp_all

theorem Disciplined.holders_of_live {s : Threads} (h : Disciplined s) {dev : GatewayDevice}
    (hdev : dev ∈ s.ctx.devices.live) : s.holders dev.fd = 1 := by
  obtain ⟨hcount, hunique⟩ := h.sound.countP_handle (Disciplined.mem_registry hdev)
  change s.owners.countP _ = 1 at hcount
  change ∀ w ∈ s.owners, _ at hunique
  rw [Threads.holders, countP_unfinished]
  unfold Threads.owners at hcount hunique
  cases haccept : s.accept with
  | accepted fd conn ip port =>
    rw [haccept, AcceptPc.owner, addOwner] at hcount hunique
    have hne : fd ≠ dev.fd := by
      rintro rfl
      cases hunique _ (Multiset.mem_cons_self _ _) rfl
    rwa [Multiset.countP_cons, if_neg hne] at hcount
  | refused fd conn =>
    rw [haccept, AcceptPc.owner, addOwner] at hcount hunique
    have hne : fd ≠ dev.fd := by
      rintro rfl
      cases hunique _ (Multiset.mem_cons_self _ _) rfl
    rwa [Multiset.countP_cons, if_neg hne] at hcount
  | added fd conn =>
    rw [haccept, AcceptPc.owner, addOwner, Multiset.countP_cons] at hcount
    simpa [AcceptPc.handsOver] using hcount
  | _ =>
    rw [haccept] at hcount
    exact hcount

/-- Nobody else has the descriptor of a refused connection. -/
theorem Disciplined.refused {s : Threads} (h : Disciplined s) {fd conn : ℕ}
    (haccept : s.accept = .refused fd conn) :
    s.ctx.openFds fd = some conn ∧ s.holders fd = 0 ∧ ∀ dev ∈ s.ctx.devices.live, dev.fd ≠ fd := by
  have howners : s.ownership.owners = ⟨fd, conn, false⟩ ::ₘ
      (s.workers : Multiset Worker).filterMap Worker.owner := by
    show s.owners = _
    rw [Threads.owners, haccept, AcceptPc.owner, addOwner]
  have hmine : (⟨fd, conn, false⟩ : Owner ℕ) ∈ s.ownership.owners := by
    rw [howners]
    exact Multiset.mem_cons_self _ _
  refine ⟨h.sound.isOpen _ hmine, ?_, fun dev hdev hfd => ?_⟩
  · rw [Threads.holders, countP_unfinished, haccept]
    exact Multiset.countP_eq_zero.mpr fun o ho => (h.sound.ne_of_mem_rest howners ho).2
  · have hunique := (h.sound.countP_handle (Disciplined.mem_registry hdev)).2 _ hmine hfd.symm
    cases hunique

/-! ## Which records come and go -/

/-- The descriptors and connections of the records in use. -/
def Threads.keys (s : Threads) : List (ℕ × ℕ) := s.ctx.devices.live.map GatewayDevice.key

/-- A step leaves the records in use, adds one for the connection that the
    accept thread holds, or deletes one or all of them. -/
inductive KeysEffect (s : Threads) (a : Action) (s' : Threads) : Prop where
  | same (hkeys : s'.keys = s.keys)
  | adds (fd conn : ℕ) (hpending : s.accept.owner = some ⟨fd, conn, false⟩)
      (hadded : s'.accept.owner = some ⟨fd, conn, true⟩) (hnext : s'.ctx.nextConn = s.ctx.nextConn)
      (hkeys : s'.keys = s.keys ++ [(fd, conn)])
  | leaves (k i : ℕ) (ha : a = .worker k .remove) (hfree : s.locked = false)
      (hremoves : RemovesSlot s a i) (hkeys : s'.keys = s.keys.eraseIdx i)
  | evicts (time now : ℤ) (i : ℕ) (ha : a = .heartbeat time) (hpc : s.heartbeat.pc = .evicting now i)
      (hsub : s'.keys.Sublist s.keys)
      (hkeys : i < s.ctx.devices.deviceCount → s'.keys = s.keys.eraseIdx i)
  | clears (i : ℕ) (hpc : s.stop = .closing i) (hkeys : s'.keys = [])

theorem Threads.length_keys (s : Threads) : s.keys.length = s.ctx.devices.deviceCount := by
  rw [Threads.keys, List.length_map, DeviceTable.length_live]

theorem Quiet.keys_eq {ctx ctx' : GatewayCtx} (h : Quiet ctx ctx') :
    ctx'.devices.live.map GatewayDevice.key = ctx.devices.live.map GatewayDevice.key := h.devices

theorem keys_removeSlot (t : DeviceTable) {i : ℕ} (h : i < t.deviceCount) :
    (t.removeSlot i).live.map GatewayDevice.key = (t.live.map GatewayDevice.key).eraseIdx i := by
  rw [DeviceTable.live_removeSlot t h, List.eraseIdx_map]

theorem keys_removeDevice {t : DeviceTable} {fd i : ℕ} (hfind : t.findSlot fd = some i) :
    (t.removeDevice fd).live.map GatewayDevice.key = (t.live.map GatewayDevice.key).eraseIdx i := by
  rw [DeviceTable.removeDevice, hfind]
  exact keys_removeSlot t (DeviceTable.lt_of_findSlot hfind)

theorem Threads.step_keys {s s' : Threads} {a : Action} (hs : s.step a = some s') :
    KeysEffect s a s' := by
  cases Threads.step_effect hs with
  | spawn => exact .same rfl
  | accept a ctx pc heffect =>
    generalize hold : s.accept = pc₀ at heffect
    cases heffect with
    | opens => exact .same rfl
    | @adds fd conn ip port now devices hfree hadd =>
      obtain ⟨old, hlive⟩ := DeviceTable.live_addDevice hadd
      refine .adds fd conn (by rw [hold]; rfl) rfl rfl ?_
      show devices.live.map GatewayDevice.key = _
      rw [hlive, List.map_append]
      rfl
    | refuses => exact .same rfl
    | quiet hquiet => exact .same hquiet.keys_eq
  | heartbeat time ctx thread heffect =>
    generalize hold : s.heartbeat.pc = pc at heffect
    generalize thread.pc = pc' at heffect
    cases heffect with
    | closes => exact .same rfl
    | removes now i =>
      exact .evicts time now i rfl hold ((s.ctx.devices.live_removeSlot_sublist i).map _)
        (keys_removeSlot _)
    | quiet hquiet => exact .same hquiet.keys_eq
  | stop ctx pc heffect =>
    generalize hold : s.stop = pc₀ at heffect
    cases heffect with
    | closes => exact .same rfl
    | @clears i => exact .clears i hold rfl
    | quiet hquiet => exact .same hquiet.keys_eq
  | command a ctx ha hquiet => exact .same hquiet.keys_eq
  | worker k w a ctx pc hw heffect =>
    generalize hold : w.pc = pc₀ at heffect
    cases heffect with
    | remove hfree =>
      cases hfind : s.ctx.devices.findSlot w.fd with
      | none =>
        refine .same ?_
        show (s.ctx.devices.removeDevice w.fd).live.map _ = _
        rw [DeviceTable.removeDevice, hfind]
        rfl
      | some i => exact .leaves k i rfl hfree ⟨w, hw, hold, hfind⟩ (keys_removeDevice hfind)
    | close => exact .same rfl
    | quiet hquiet => exact .same hquiet.keys_eq

/-! ## Order of acceptance -/

/-- The connection has been accepted, and before the one that the accept thread
    has no record for. -/
structure Past (s : Threads) (conn : ℕ) : Prop where
  accepted : conn < s.ctx.nextConn
  earlier : ∀ fd pending, s.accept.owner = some ⟨fd, pending, false⟩ → conn < pending

/-- The records are in the order of acceptance, and the connection that the
    accept thread has no record for is younger than all of them. -/
structure InOrder (s : Threads) : Prop where
  ordered : s.keys.Pairwise fun k k' => k.2 < k'.2
  past : ∀ k ∈ s.keys, Past s k.2
  pending : ∀ fd conn, s.accept.owner = some ⟨fd, conn, false⟩ → conn < s.ctx.nextConn

theorem inOrder_start (time : ℤ) : InOrder (.start time) where
  ordered := .nil
  past := nofun
  pending := nofun

/-- A connection is accepted, or none is. -/
theorem Threads.step_pending {s s' : Threads} {a : Action} (hs : s.step a = some s') :
    s.ctx.nextConn ≤ s'.ctx.nextConn ∧ ∀ fd conn, s'.accept.owner = some ⟨fd, conn, false⟩ →
      s.accept.owner = some ⟨fd, conn, false⟩ ∨
        conn = s.ctx.nextConn ∧ s'.ctx.nextConn = s.ctx.nextConn + 1 := by
  have hkeeps : s.ctx.nextConn ≤ s'.ctx.nextConn → s'.accept = s.accept →
      s.ctx.nextConn ≤ s'.ctx.nextConn ∧ ∀ fd conn, s'.accept.owner = some ⟨fd, conn, false⟩ →
        s.accept.owner = some ⟨fd, conn, false⟩ ∨
          conn = s.ctx.nextConn ∧ s'.ctx.nextConn = s.ctx.nextConn + 1 :=
    fun hnext haccept => ⟨hnext, fun _ _ ho => Or.inl (haccept ▸ ho)⟩
  cases Threads.step_effect hs with
  | spawn => exact ⟨le_rfl, nofun⟩
  | accept a ctx pc heffect =>
    generalize s.accept = pc₀ at heffect ⊢
    cases heffect with
    | opens fd ip port hclosed =>
      refine ⟨Nat.le_add_right _ 1, ?_⟩
      rintro _ _ ⟨⟩
      exact Or.inr ⟨rfl, rfl⟩
    | adds => exact ⟨le_rfl, nofun⟩
    | refuses => exact ⟨le_rfl, nofun⟩
    | quiet hquiet howner => exact ⟨hquiet.nextConn.ge, fun fd conn ho => Or.inl (howner ▸ ho)⟩
  | heartbeat time ctx thread heffect =>
    generalize s.heartbeat.pc = pc at heffect
    generalize thread.pc = pc' at heffect
    cases heffect with
    | closes => exact hkeeps le_rfl rfl
    | removes => exact hkeeps le_rfl rfl
    | quiet hquiet => exact hkeeps hquiet.nextConn.ge rfl
  | stop ctx pc heffect =>
    generalize s.stop = pc₀ at heffect
    cases heffect with
    | closes => exact hkeeps le_rfl rfl
    | clears => exact hkeeps le_rfl rfl
    | quiet hquiet => exact hkeeps hquiet.nextConn.ge rfl
  | command a ctx ha hquiet => exact hkeeps hquiet.nextConn.ge rfl
  | worker k w a ctx pc hw heffect =>
    generalize w.pc = pc₀ at heffect
    cases heffect with
    | remove => exact hkeeps le_rfl rfl
    | close => exact hkeeps le_rfl rfl
    | quiet hquiet => exact hkeeps hquiet.nextConn.ge rfl

theorem Past.step {s s' : Threads} {a : Action} {conn : ℕ} (h : Past s conn) (hs : s.step a = some s') :
    Past s' conn := by
  obtain ⟨hnext, hpending⟩ := Threads.step_pending hs
  refine ⟨h.accepted.trans_le hnext, fun fd pending ho => ?_⟩
  rcases hpending fd pending ho with hold | ⟨rfl, -⟩
  · exact h.earlier fd pending hold
  · exact h.accepted

theorem inOrder_step {s s' : Threads} {a : Action} (h : InOrder s) (hs : s.step a = some s') :
    InOrder s' := by
  have hpending : ∀ fd conn, s'.accept.owner = some ⟨fd, conn, false⟩ → conn < s'.ctx.nextConn := by
    obtain ⟨hnext, hnew⟩ := Threads.step_pending hs
    intro fd conn ho
    rcases hnew fd conn ho with hold | ⟨rfl, heq⟩
    · exact (h.pending fd conn hold).trans_le hnext
    · exact heq ▸ Nat.lt_add_one _
  have hsublist : s'.keys.Sublist s.keys → InOrder s' := fun hsub =>
    ⟨h.ordered.sublist hsub, fun k hk => (h.past k (hsub.subset hk)).step hs, hpending⟩
  cases Threads.step_keys hs with
  | same hkeys => exact hsublist (hkeys ▸ .refl _)
  | leaves k i ha hfree hremoves hkeys => exact hsublist (hkeys ▸ List.eraseIdx_sublist _ _)
  | evicts time now i ha hpc hsub hkeys => exact hsublist hsub
  | clears i hpc hkeys => exact hsublist (hkeys ▸ List.nil_sublist _)
  | adds fd conn hold hadded hnext hkeys =>
    refine ⟨?_, fun k hk => ?_, hpending⟩
    · rw [hkeys, List.pairwise_append]
      refine ⟨h.ordered, List.pairwise_singleton _ _, fun k hk k' hk' => ?_⟩
      rw [List.mem_singleton.mp hk']
      exact (h.past k hk).earlier fd conn hold
    · rw [hkeys] at hk
      rcases List.mem_append.mp hk with hk | hk
      · exact (h.past k hk).step hs
      · rw [List.mem_singleton.mp hk]
        refine ⟨hnext ▸ h.pending fd conn hold, fun fd' conn' ho => ?_⟩
        rw [hadded] at ho
        cases ho

/-! ## Runs -/

theorem tableSound_of {s : Threads} (h : Disciplined s) (horder : InOrder s) : TableSound s where
  count := s.ctx.devices.deviceCount_le
  distinct := h.ownsDescriptors.nodup
  isOpen := fun dev hdev => h.sound.isOpen _ (h.sound.backed _ _ (Disciplined.mem_registry hdev))
  held := fun _ hdev => h.holders_of_live hdev
  ordered := by
    have hmap : s.ctx.devices.live.map GatewayDevice.conn = s.keys.map Prod.snd := by
      rw [Threads.keys, List.map_map]
      rfl
    rw [hmap, List.pairwise_map]
    exact horder.ordered

theorem refusesWhenFull_of {s : Threads} (h : Disciplined s) : RefusesWhenFull s where
  refuses := by
    intro fd conn ip port now s' haccept hfull hs
    simp only [Threads.step, haccept, acceptStep] at hs
    rw [DeviceTable.addDevice, dif_pos hfull.ge] at hs
    split_ifs at hs with hlocked
    · cases hs
    · cases hs
      exact ⟨rfl, rfl⟩
  closes := by
    intro fd conn haccept
    obtain ⟨hopen, hholders, hlive⟩ := h.refused haccept
    refine ⟨hopen, hholders, hlive, ⟨_, by simp only [Threads.step, haccept, acceptStep]; rfl⟩, ?_⟩
    intro a s' hs
    cases a with
    | refuse =>
      simp only [Threads.step, haccept, acceptStep, Option.map_some, Option.some.injEq] at hs
      subst hs
      exact ⟨rfl, rfl, Function.update_self ..⟩
    | _ => simp [Threads.step, haccept, acceptStep] at hs

/-- Whatever the threads do, as long as neither the heartbeat thread nor
    `gateway_stop` closes the descriptor of a device, the table is sound in
    every state reached, and a connection that it has no space for is refused. -/
theorem table_holds_accepted {time : ℤ} {as : List Action} {s : Threads}
    (hkeep : Every Threads.step (fun s a => ¬ ClosesDevice s a) (.start time) as)
    (h : exec Threads.step (.start time) as = some s) : TableSound s ∧ RefusesWhenFull s := by
  have hinv : Disciplined s ∧ InOrder s := by
    refine exec_inv (J := fun s => Disciplined s ∧ InOrder s) ?_
      ⟨disciplined_start time, inOrder_start time⟩
      hkeep h
    exact fun _ _ _ hJ hkeep hs =>
      ⟨disciplined_step hJ.1 hkeep hs, inOrder_step hJ.2 hs⟩
  exact ⟨tableSound_of hinv.1 hinv.2, refusesWhenFull_of hinv.1⟩

/-- Two clients connect, and the first one leaves. -/
def twoClients : List Action :=
  connect 0 5 ++ connect 1 6 ++ [.worker 0 (.recv none), .worker 0 .remove, .worker 0 .close]

theorem table_holds_accepted_twoClients :
    ∃ s, exec Threads.step (.start 0) twoClients = some s ∧
      s.ctx.devices.live.map GatewayDevice.key = [(6, 1)] ∧ TableSound s ∧ RefusesWhenFull s := by
  have hend : (exec Threads.step (.start 0) twoClients).map (fun s =>
      s.ctx.devices.live.map GatewayDevice.key) = some [(6, 1)] := by decide +kernel
  obtain ⟨s, hs, hkeys⟩ := Option.map_eq_some_iff.mp hend
  have hkeep : Every Threads.step (fun s a => ¬ ClosesDevice s a) (.start 0) twoClients := by
    refine .of_forall fun s a ha => ?_
    simp only [twoClients, connect, List.mem_append, List.mem_cons, List.not_mem_nil, or_false] at ha
    rcases ha with
      ((rfl | rfl | rfl | rfl | rfl | rfl) | rfl | rfl | rfl | rfl | rfl | rfl) | rfl | rfl | rfl
    all_goals exact id
  exact ⟨s, hs, hkeys, table_holds_accepted hkeep hs⟩

end LinuxFileManager.Gateway
