import LinuxFileManager.ThreadPool.Entries

/-!
# The thread counters

The bounds on `liveNUM` and `busyNUM` before shutdown, for every interleaving
(`counters_bounded`). The manager decides on a copy of `liveNUM` that may be
out of date and may create two threads when the copy is one below the maximum.
What bounds `liveNUM` is that each thread needs a free entry of `threadIDs`:
`liveNUM` counts the threads that have not begun to exit, and those are among
the owners of entries.
-/

namespace LinuxFileManager.ThreadPool

open Lib

variable {τ : Type}

/-! ## The property -/

/-- The copies that the manager has made satisfy `busyNum ≤ liveNum`. -/
def ManagerPc.snapshotsOk : ManagerPc → Prop
  | .adding _ liveNum busyNum | .ending liveNum busyNum => busyNum ≤ liveNum
  | _ => True

/-- The counters are within their bounds. -/
structure CountersOk (s : Pool τ) : Prop where
  live : (s.pool.minNUM : ℤ) ≤ s.pool.liveNUM ∧ s.pool.liveNUM ≤ s.pool.maxNUM
  busy : 0 ≤ s.pool.busyNUM ∧ s.pool.busyNUM ≤ s.pool.liveNUM
  entries : s.pool.liveNUM ≤ (used s.pool.threadIDs).length
  snapshots : s.manager.snapshotsOk

/-! ## What the counters count -/

/-- The thread has not begun to exit. -/
def WorkerPc.live : WorkerPc τ → Bool
  | .exiting | .exited => false
  | _ => true

/-- The thread has counted itself as busy. -/
def WorkerPc.isBusy : WorkerPc τ → Bool
  | .busy _ => true
  | _ => false

/-- The copies of the manager are no smaller than what they were copied from. -/
def ManagerPc.bounds (liveNUM : ℤ) : ManagerPc → Prop
  | .counted _ liveNum => liveNUM ≤ liveNum
  | .adding _ liveNum busyNum | .ending liveNum busyNum => busyNum ≤ liveNum
  | _ => True

/-- What the counters count, as long as the pool is not shut down. -/
structure Counts (s : Pool τ) : Prop where
  live : s.pool.liveNUM = s.workers.countP fun w => w.pc.live
  busy : s.pool.busyNUM = s.workers.countP fun w => w.pc.isBusy
  min_le : (s.pool.minNUM : ℤ) ≤ s.pool.liveNUM
  manager : s.manager.bounds s.pool.liveNUM

structure CountersInv (s : Pool τ) : Prop where
  entries : EntriesInv s
  length : s.pool.threadIDs.length = s.pool.maxNUM
  counts : s.pool.shutdown = false → Counts s

theorem countersInv_init {min max : ℕ} (h : min ≤ max) (taskqueue : List τ) :
    CountersInv (threadInit min max taskqueue) := by
  refine ⟨entriesInv_init min max taskqueue, ?_, fun _ => ⟨?_, ?_, le_rfl, trivial⟩⟩
  · simp only [threadInit, List.length_append, List.length_range', List.length_replicate]
    omega
  · simp only [threadInit]
    rw [countP_new (fun _ => rfl), List.length_range']
  · simp only [threadInit]
    rw [countP_new_eq_zero fun _ => rfl]
    rfl

theorem WorkerPc.live_of_looking {pc : WorkerPc τ} (h : pc.looking = true) :
    pc.live = true ∧ pc.isBusy = false := by
  cases pc <;> simp_all [looking, live, isBusy]

theorem Worker.live_wake {w : Worker τ} (h : w.sleeps = true) (signalled : Bool) :
    (w.wake signalled).pc.live = w.pc.live := by
  rw [Worker.pc_of_sleeps h]
  rfl

theorem Worker.isBusy_wake {w : Worker τ} (h : w.sleeps = true) (signalled : Bool) :
    (w.wake signalled).pc.isBusy = w.pc.isBusy := by
  rw [Worker.pc_of_sleeps h]
  rfl

theorem ManagerPc.bounds_mono {pc : ManagerPc} {l l' : ℤ} (h : pc.bounds l) (hle : l' ≤ l) :
    pc.bounds l' := by
  cases pc with
  | counted q liveNum => exact hle.trans h
  | _ => exact h

/-! ## The invariant -/

section

variable {s : Pool τ} (h : Counts s)
include h

/-- One thread goes from one place to another, and the counters follow. -/
theorem Counts.of_set (s' : Pool τ) (pc' : WorkerPc τ) {k : ℕ} {w : Worker τ} (hw : s.workers[k]? = some w)
    (hworkers : s'.workers = s.workers.set k { w with pc := pc' })
    (hlive : s'.pool.liveNUM + (if w.pc.live then 1 else 0) =
      s.pool.liveNUM + (if pc'.live then 1 else 0))
    (hbusy : s'.pool.busyNUM + (if w.pc.isBusy then 1 else 0) =
      s.pool.busyNUM + (if pc'.isBusy then 1 else 0))
    (hmin : (s'.pool.minNUM : ℤ) ≤ s'.pool.liveNUM) (hle : s'.pool.liveNUM ≤ s.pool.liveNUM)
    (hmanager : s'.manager = s.manager) : Counts s' := by
  have hl := countP_set_add hw (fun w => w.pc.live) { w with pc := pc' }
  have hb := countP_set_add hw (fun w => w.pc.isBusy) { w with pc := pc' }
  have hlive' := h.live
  have hbusy' := h.busy
  dsimp only at hl hb
  refine ⟨?_, ?_, hmin, hmanager ▸ ManagerPc.bounds_mono h.manager hle⟩
  · rw [hworkers]
    split_ifs at hlive hl <;> omega
  · rw [hworkers]
    split_ifs at hbusy hb <;> omega

/-- Sleepers wake up, and the counters stay. -/
theorem Counts.of_wakes {s' : Pool τ}
    (hlive : s'.workers.map (fun w => w.pc.live) = s.workers.map fun w => w.pc.live)
    (hbusy : s'.workers.map (fun w => w.pc.isBusy) = s.workers.map fun w => w.pc.isBusy)
    (hpool : s'.pool.liveNUM = s.pool.liveNUM ∧ s'.pool.busyNUM = s.pool.busyNUM ∧
      s'.pool.minNUM = s.pool.minNUM)
    (hmanager : s'.manager.bounds s.pool.liveNUM) : Counts s' := by
  obtain ⟨hl, hb, hm⟩ := hpool
  refine ⟨?_, ?_, ?_, hl ▸ hmanager⟩
  · rw [hl, h.live, countP_eq_of_map_eq hlive]
  · rw [hb, h.busy, countP_eq_of_map_eq hbusy]
  · rw [hl, hm]
    exact h.min_le

theorem Counts.worker {k : ℕ} {w : Worker τ} {s' : Pool τ} (hw : s.workers[k]? = some w)
    (heffect : WorkerEffect s k w w.pc s') (hrun : s'.pool.shutdown = false) : Counts s' := by
  have hof := fun pc' => h.of_set s' pc' hw
  generalize hpc : w.pc = pc at heffect hof
  have hmin := h.min_le
  cases heffect with
  | sleeps e hlook _ hempty =>
    obtain ⟨hl, hb⟩ := WorkerPc.live_of_looking hlook
    exact hof .asleep rfl (by rw [hl]; rfl) (by rw [hb]; rfl) hmin le_rfl rfl
  | takes e task producers hlook _ hsize htask =>
    obtain ⟨hl, hb⟩ := WorkerPc.live_of_looking hlook
    exact hof (.took task) rfl (by rw [hl]; rfl) (by rw [hb]; rfl) hmin le_rfl rfl
  | leaves e hlook hdown =>
    rw [show s.pool.shutdown = false from hrun] at hdown
    cases hdown
  | exits signalled hexit hlive =>
    refine hof .exiting rfl ?_ rfl ?_ ?_ rfl
    · show s.pool.liveNUM - 1 + 1 = s.pool.liveNUM + 0
      omega
    · show (s.pool.minNUM : ℤ) ≤ s.pool.liveNUM - 1
      omega
    · show s.pool.liveNUM - 1 ≤ s.pool.liveNUM
      omega
  | starts task => exact hof (.busy task) rfl rfl (by simp [WorkerPc.isBusy, Pool.setWorker]) hmin le_rfl rfl
  | finishes task =>
    exact hof .ready rfl rfl (by simp [WorkerPc.isBusy, Pool.setWorker]) hmin le_rfl rfl
  | clears => exact hof .exited rfl rfl rfl hmin le_rfl rfl

/-- The threads that have not begun to exit have entries. -/
theorem Counts.live_le_used (hentries : EntriesInv s) :
    s.pool.liveNUM ≤ (used s.pool.threadIDs).length := by
  have hle : (s.workers.countP fun w => w.pc.live) ≤ (s.workers.filterMap Worker.entry).length := by
    rw [List.length_filterMap_eq_countP]
    refine List.countP_mono_left fun w _ hlive => ?_
    unfold Worker.entry
    split
    · next hpc => simp [hpc, WorkerPc.live] at hlive
    · rfl
  rw [h.live, hentries.entries.length_eq]
  exact_mod_cast hle

theorem Counts.busy_le_live : 0 ≤ s.pool.busyNUM ∧ s.pool.busyNUM ≤ s.pool.liveNUM := by
  have hle : (s.workers.countP fun w => w.pc.isBusy) ≤ s.workers.countP fun w => w.pc.live := by
    refine List.countP_mono_left fun w _ hbusy => ?_
    cases hpc : w.pc <;> simp_all [WorkerPc.isBusy, WorkerPc.live]
  rw [h.busy, h.live]
  exact ⟨Int.natCast_nonneg _, by exact_mod_cast hle⟩

theorem Counts.manager_step {s' : Pool τ} (heffect : ManagerEffect s s.manager s') : Counts s' := by
  have hmanager := h.manager
  generalize hpc : s.manager = pc at heffect hmanager
  cases heffect with
  | quiet hne hpc' => exact ⟨h.live, h.busy, h.min_le, by rcases hpc' with rfl | rfl | rfl <;> trivial⟩
  | counts => exact ⟨h.live, h.busy, h.min_le, le_rfl⟩
  | snaps q l => exact ⟨h.live, h.busy, h.min_le, h.busy_le_live.2.trans hmanager⟩
  | skips q l b => exact ⟨h.live, h.busy, h.min_le, hmanager⟩
  | ends l b => exact ⟨h.live, h.busy, h.min_le, trivial⟩
  | signals n choice workers hsignal =>
    exact h.of_wakes (map_signal (fun w hw => w.live_wake hw true) hsignal)
      (map_signal (fun w hw => w.isBusy_wake hw true) hsignal) ⟨rfl, rfl, rfl⟩ trivial
  | @creates q l b entries new hlive hcreate =>
    refine ⟨?_, ?_, ?_, hmanager⟩
    · show s.pool.liveNUM + new.length =
        ((s.workers ++ new.map fun tid => (⟨tid, .ready⟩ : Worker τ)).countP fun w => w.pc.live : ℕ)
      rw [List.countP_append, countP_new (fun _ => rfl), h.live]
      push_cast
      rfl
    · show s.pool.busyNUM =
        ((s.workers ++ new.map fun tid => (⟨tid, .ready⟩ : Worker τ)).countP fun w => w.pc.isBusy : ℕ)
      rw [List.countP_append, countP_new_eq_zero (fun _ => rfl), h.busy]
      rfl
    · show (s.pool.minNUM : ℤ) ≤ s.pool.liveNUM + new.length
      have hmin := h.min_le
      omega

end

section

variable {s : Pool τ} (h : CountersInv s)
include h

theorem CountersInv.length_step {a : Action τ} {s' : Pool τ} (hs : s.step a = some s') :
    s'.pool.threadIDs.length = s'.pool.maxNUM := by
  cases Pool.step_effect hs with
  | worker hw heffect =>
    generalize Worker.pc _ = pc at heffect
    cases heffect with
    | clears => exact (length_clearEntry _ _).trans h.length
    | _ => exact h.length
  | wakes => exact h.length
  | producer heffect => cases heffect <;> exact h.length
  | manager heffect =>
    generalize s.manager = pc at heffect
    cases heffect with
    | creates hlive hcreate => exact (createThreads_spec h.entries.fresh hcreate).1.trans h.length
    | _ => exact h.length
  | destroy heffect =>
    generalize s.destroyer = pc at heffect
    cases heffect with
    | joins => exact List.length_set.trans h.length
    | _ => exact h.length

theorem CountersInv.step {a : Action τ} {s' : Pool τ} (hs : s.step a = some s') : CountersInv s' := by
  refine ⟨h.entries.step hs, h.length_step hs, fun hrun => ?_⟩
  have hcounts := h.counts (Pool.running_of_step hs hrun)
  cases Pool.step_effect hs with
  | worker hw heffect => exact hcounts.worker hw heffect hrun
  | @wakes k w hw hsleeps =>
    have hpc := Worker.pc_of_sleeps hsleeps
    refine hcounts.of_set _ (.woken false) hw rfl ?_ ?_ hcounts.min_le le_rfl rfl
    · rw [hpc]
      rfl
    · rw [hpc]
      rfl
  | producer heffect =>
    cases heffect with
    | quiet producers => exact ⟨hcounts.live, hcounts.busy, hcounts.min_le, hcounts.manager⟩
    | adds task choice workers producers _ hsize hsignal =>
      exact hcounts.of_wakes (map_signal (fun w hw => w.live_wake hw true) hsignal)
        (map_signal (fun w hw => w.isBusy_wake hw true) hsignal) ⟨rfl, rfl, rfl⟩ hcounts.manager
  | manager heffect => exact hcounts.manager_step heffect
  | destroy heffect =>
    generalize s.destroyer = pc at heffect
    cases heffect with
    | flags => cases hrun
    | broadcasts =>
      exact hcounts.of_wakes (map_broadcast (fun w hw => w.live_wake hw true) _)
        (map_broadcast (fun w hw => w.isBusy_wake hw true) _) ⟨rfl, rfl, rfl⟩ hcounts.manager
    | _ => exact ⟨hcounts.live, hcounts.busy, hcounts.min_le, hcounts.manager⟩

theorem CountersInv.countersOk (hrun : s.pool.shutdown = false) : CountersOk s := by
  have hcounts := h.counts hrun
  have hused := hcounts.live_le_used h.entries
  have hmax : (used s.pool.threadIDs).length ≤ s.pool.maxNUM := h.length ▸ List.length_filter_le _ _
  refine ⟨⟨hcounts.min_le, by omega⟩, hcounts.busy_le_live, hused, ?_⟩
  have hmanager := hcounts.manager
  cases hpc : s.manager <;> rw [hpc] at hmanager <;> first | exact hmanager | trivial

end

/-- In every state reached before shutdown the counters are within their bounds. -/
theorem counters_bounded {min max : ℕ} (hmax : min ≤ max) {taskqueue : List τ} {s : Pool τ}
    (h : Reachable Pool.step (threadInit min max taskqueue) s) (hrun : s.pool.shutdown = false) :
    s.pool.minNUM = min ∧ s.pool.maxNUM = max ∧ CountersOk s := by
  have hinv := h.inv (fun _ _ _ hinv => hinv.step) (countersInv_init hmax taskqueue)
  have hbounds := h.inv (J := fun s => s.pool.minNUM = min ∧ s.pool.maxNUM = max)
    (fun s a s' hJ hs => by rwa [(Pool.step_bounds hs).1, (Pool.step_bounds hs).2]) ⟨rfl, rfl⟩
  exact ⟨hbounds.1, hbounds.2, hinv.countersOk hrun⟩

/-- Two tasks are added before the one worker looks at the queue, and the
    manager creates a second worker. -/
def growth : List (Action ℕ) :=
  [.call 7, .call 8, .producer 0 0, .producer 1 0, .manager 0, .manager 0, .manager 0, .manager 0]

theorem counters_bounded_growth :
    ∃ s, exec Pool.step (threadInit 1 2 [0, 0]) growth = some s ∧
      s.pool.minNUM = 1 ∧ s.pool.maxNUM = 2 ∧ CountersOk s := by
  have hrun : (exec Pool.step (threadInit 1 2 [0, 0]) growth).map (fun s => s.pool.shutdown) =
      some false := by decide +kernel
  obtain ⟨s, hs, hrun⟩ := Option.map_eq_some_iff.mp hrun
  exact ⟨s, hs, counters_bounded (by decide) ⟨growth, hs⟩ hrun⟩

end LinuxFileManager.ThreadPool
