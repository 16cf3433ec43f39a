import LinuxFileManager.ThreadPool.Queue

/-!
# The wake-ups of the workers

A signal on `notEmpty` stands for a task or for a request to exit, and a worker
that wakes up looks at `exitNUM` first. `exitNUM` may be left over from a
decision whose own signals were lost, and then the worker exits with the signal
of a task: the task stays in the queue while other workers sleep
(`exit_takes_wakeup`).

Results:

* `wakeups_kept`: along every run without such an exit, no wake-up is lost. Any
  such exit loses one: the workers that are still signalled may all look at the
  queue and leave a task behind.
-/

namespace LinuxFileManager.ThreadPool

open Lib

variable {τ : Type}

/-! ## The property -/

/-- A task in the queue and a worker asleep on `notEmpty` are never left without
    a worker that has been signalled and has yet to look at the queue. -/
def NoLostWakeup (s : Pool τ) : Prop :=
  s.pool.shutdown = false → 0 < s.pool.queueSize → (∃ w ∈ s.workers, w.sleeps = true) →
    ∃ w ∈ s.workers, w.signalled = true

/-- The worker would take the exit branch behind `pthread_cond_wait`
    (lines 71–78). -/
def Pool.exitsNext (s : Pool τ) : Prop := s.pool.exitNUM > 0 ∧ s.pool.liveNUM > s.pool.minNUM

/-- A signalled worker exits although the signal is needed: no more workers are
    signalled than there are tasks, and another one is asleep. -/
def TakesWakeup (s : Pool τ) : Action τ → Prop
  | .worker k _ =>
    ∃ w, s.workers[k]? = some w ∧ w.signalled = true ∧ s.exitsNext ∧ s.pool.shutdown = false ∧
      (∃ v ∈ s.workers, v.sleeps = true) ∧ s.workers.countP Worker.signalled ≤ s.pool.queueSize
  | _ => False

/-- The step is one of a signalled worker. -/
def BySignalled (s : Pool τ) : Action τ → Prop
  | .worker k _ => ∃ w, s.workers[k]? = some w ∧ w.signalled = true
  | _ => False

/-! ## The invariant -/

/-- While a worker sleeps, each task in the queue has a signalled worker. -/
def Covered (s : Pool τ) : Prop :=
  s.pool.shutdown = false → (∃ w ∈ s.workers, w.sleeps = true) →
    s.pool.queueSize ≤ s.workers.countP Worker.signalled

theorem covered_init (min max : ℕ) (taskqueue : List τ) : Covered (threadInit min max taskqueue) :=
  fun _ _ => Int.natCast_nonneg _

theorem Covered.noLostWakeup {s : Pool τ} (h : Covered s) : NoLostWakeup s := by
  intro hrun hsize hsleeper
  have hcount := h hrun hsleeper
  exact List.countP_pos_iff.mp (by omega)

theorem Worker.pc_of_signalled {w : Worker τ} (h : w.signalled = true) : w.pc = .woken true := by
  unfold Worker.signalled at h
  split at h
  · next hpc => rw [hpc, h]
  · cases h

/-- Who sleeps after a worker has left the queue was asleep before. -/
theorem sleeper_of_set {workers : List (Worker τ)} {k : ℕ} {w' : Worker τ} (hw' : w'.sleeps = false)
    (h : ∃ v ∈ workers.set k w', v.sleeps = true) : ∃ v ∈ workers, v.sleeps = true := by
  obtain ⟨v, hv, hsleeps⟩ := h
  rcases List.mem_or_eq_of_mem_set hv with hv | rfl
  · exact ⟨v, hv, hsleeps⟩
  · rw [hw'] at hsleeps
    cases hsleeps

/-- A signal on `notEmpty` counts if somebody is asleep afterwards. -/
theorem countP_signalled_signal {workers workers' : List (Worker τ)} {choice : ℕ}
    (h : signalNotEmpty workers choice = some workers') (hsleeper : ∃ v ∈ workers', v.sleeps = true) :
    workers'.countP Worker.signalled = workers.countP Worker.signalled + 1 ∧
      ∃ v ∈ workers, v.sleeps = true := by
  rcases signalNotEmpty_eq_some h with ⟨rfl, hnone⟩ | ⟨w, hw, hsleeps, rfl⟩
  · obtain ⟨v, hv, hsleeps⟩ := hsleeper
    rw [hnone v hv] at hsleeps
    cases hsleeps
  · have hcount := countP_set_add hw Worker.signalled (w.wake true)
    have hbefore : w.signalled = false := by simp [Worker.signalled, Worker.pc_of_sleeps hsleeps]
    have hafter : (w.wake true).signalled = true := rfl
    rw [hbefore, hafter, if_neg Bool.false_ne_true, if_pos rfl] at hcount
    exact ⟨hcount, w, List.mem_of_getElem? hw, hsleeps⟩

section

variable {s : Pool τ} (h : Covered s)
include h

/-- A worker moves on, and takes no more signals than tasks with it. -/
theorem Covered.of_set {s' : Pool τ} {k : ℕ} {w w' : Worker τ} (hw : s.workers[k]? = some w)
    (hworkers : s'.workers = s.workers.set k w') (hsleeps : w'.sleeps = false)
    (hsignalled : w'.signalled = false) (hrun : s'.pool.shutdown = s.pool.shutdown)
    (hsize : s.pool.shutdown = false → (∃ v ∈ s.workers, v.sleeps = true) →
      s.pool.queueSize ≤ s.workers.countP Worker.signalled →
      s'.pool.queueSize + (if w.signalled then 1 else 0) ≤ s.workers.countP Worker.signalled) :
    Covered s' := by
  intro hrun' hsleeper
  rw [hworkers] at hsleeper ⊢
  have hsleeper' := sleeper_of_set hsleeps hsleeper
  have hle := hsize (hrun ▸ hrun') hsleeper' (h (hrun ▸ hrun') hsleeper')
  have hcount := countP_set_add hw Worker.signalled w'
  rw [hsignalled, if_neg Bool.false_ne_true] at hcount
  split_ifs at hle hcount <;> omega

/-- A worker moves on that has not been signalled, and no task comes or goes. -/
theorem Covered.of_set_unsignalled {s' : Pool τ} {k : ℕ} {w w' : Worker τ} (hw : s.workers[k]? = some w)
    (hworkers : s'.workers = s.workers.set k w') (hsleeps : w'.sleeps = false)
    (hsignalled' : w'.signalled = false) (hpool : s'.pool.shutdown = s.pool.shutdown ∧
      s'.pool.queueSize = s.pool.queueSize) (hsignalled : w.signalled = false) : Covered s' := by
  refine h.of_set hw hworkers hsleeps hsignalled' hpool.1 fun _ _ hle => ?_
  rwa [hsignalled, if_neg Bool.false_ne_true, add_zero, hpool.2]

theorem Covered.worker {k choice : ℕ} {w : Worker τ} {s' : Pool τ} (hw : s.workers[k]? = some w)
    (hgood : ¬ TakesWakeup s (.worker k choice)) (heffect : WorkerEffect s k w w.pc s') : Covered s' := by
  generalize hpc : w.pc = pc at heffect
  have hnot : pc ≠ .woken true → w.signalled = false := fun hne =>
    Bool.eq_false_iff.mpr fun hsig => hne (hpc ▸ Worker.pc_of_signalled hsig)
  cases heffect with
  | sleeps e hlook hrun hempty =>
    intro _ _
    show s.pool.queueSize ≤ _
    rw [hempty]
    exact Int.natCast_nonneg _
  | takes e task producers hlook hrun hsize htask =>
    refine h.of_set hw rfl rfl rfl rfl fun _ _ hle => ?_
    show s.pool.queueSize - 1 + _ ≤ _
    split_ifs <;> omega
  | leaves e hlook hdown => exact fun hrun => absurd (hrun.symm.trans hdown) Bool.false_ne_true
  | exits signalled hexit hlive =>
    refine h.of_set hw rfl rfl rfl rfl fun hrun hsleeper hle => ?_
    show s.pool.queueSize + _ ≤ _
    split_ifs with hsig
    · by_contra hlt
      exact hgood ⟨w, hw, hsig, ⟨hexit, hlive⟩, hrun, hsleeper, by omega⟩
    · omega
  | starts task => exact h.of_set_unsignalled hw rfl rfl rfl ⟨rfl, rfl⟩ (hnot nofun)
  | finishes task => exact h.of_set_unsignalled hw rfl rfl rfl ⟨rfl, rfl⟩ (hnot nofun)
  | clears => exact h.of_set_unsignalled hw rfl rfl rfl ⟨rfl, rfl⟩ (hnot nofun)

theorem Covered.manager {s' : Pool τ} (heffect : ManagerEffect s s.manager s') : Covered s' := by
  generalize s.manager = pc at heffect
  cases heffect with
  | signals n choice workers hsignal =>
    intro hrun hsleeper
    obtain ⟨hcount, hbefore⟩ := countP_signalled_signal hsignal hsleeper
    have hle := h hrun hbefore
    show s.pool.queueSize ≤ workers.countP Worker.signalled
    omega
  | @creates q l b entries new hlive hcreate =>
    rintro hrun ⟨v, hv, hsleeps⟩
    show s.pool.queueSize ≤
      ((s.workers ++ new.map fun tid => (⟨tid, .ready⟩ : Worker τ)).countP Worker.signalled : ℕ)
    rw [List.countP_append, countP_new_eq_zero (fun _ => rfl), add_zero]
    refine h hrun ?_
    rcases List.mem_append.mp hv with hv | hv
    · exact ⟨v, hv, hsleeps⟩
    · obtain ⟨tid, -, rfl⟩ := List.mem_map.mp hv
      cases hsleeps
  | _ => exact h

theorem Covered.destroy {s' : Pool τ} (heffect : DestroyEffect s s.destroyer s') : Covered s' := by
  generalize s.destroyer = pc at heffect
  cases heffect with
  | flags => exact nofun
  | broadcasts =>
    rintro hrun ⟨v, hv, hsleeps⟩
    obtain ⟨w, -, rfl⟩ := List.mem_map.mp hv
    split_ifs at hsleeps with hw
    · cases hsleeps
    · exact absurd hsleeps hw
  | _ => exact h

theorem Covered.step {a : Action τ} {s' : Pool τ} (hgood : ¬ TakesWakeup s a)
    (hs : s.step a = some s') : Covered s' := by
  cases Pool.step_effect hs with
  | worker hw heffect => exact h.worker hw hgood heffect
  | @wakes k w hw hsleeps =>
    have hsignalled : w.signalled = false := by simp [Worker.signalled, Worker.pc_of_sleeps hsleeps]
    exact h.of_set_unsignalled hw rfl rfl rfl ⟨rfl, rfl⟩ hsignalled
  | producer heffect =>
    cases heffect with
    | quiet producers => exact h
    | adds task choice workers producers hrun hsize hsignal =>
      intro _ hsleeper
      obtain ⟨hcount, hbefore⟩ := countP_signalled_signal hsignal hsleeper
      have hle := h hrun hbefore
      show s.pool.queueSize + 1 ≤ workers.countP Worker.signalled
      omega
  | manager heffect => exact h.manager heffect
  | destroy heffect => exact h.destroy heffect

end

/-! ## How a wake-up is lost -/

/-- Fewer workers are signalled than there are tasks, and one is asleep. -/
structure Short (s : Pool τ) : Prop where
  running : s.pool.shutdown = false
  sleeper : ∃ v ∈ s.workers, v.sleeps = true
  short : (s.workers.countP Worker.signalled : ℤ) < s.pool.queueSize

/-- A signalled worker looks at the queue or exits, and there are too many tasks
    for the others. -/
theorem short_of_set {s s' : Pool τ} {k : ℕ} {w w' : Worker τ} (hw : s.workers[k]? = some w)
    (hsignalled : w.signalled = true) (hworkers : s'.workers = s.workers.set k w')
    (hsignalled' : w'.signalled = false) (hrun : s'.pool.shutdown = false)
    (hsleeper : ∃ v ∈ s.workers, v.sleeps = true)
    (hsize : (s.workers.countP Worker.signalled : ℤ) ≤ s'.pool.queueSize) :
    Short s' ∧ s'.workers.countP Worker.signalled < s.workers.countP Worker.signalled := by
  have hawake : w.sleeps = false := by simp [Worker.sleeps, Worker.pc_of_signalled hsignalled]
  have hcount := countP_set_add hw Worker.signalled w'
  rw [hsignalled, hsignalled', if_pos rfl, if_neg Bool.false_ne_true, add_zero] at hcount
  have hsleepers := countP_set_add hw Worker.sleeps w'
  rw [hawake, if_neg Bool.false_ne_true, add_zero] at hsleepers
  have hpos := List.countP_pos_iff.mpr hsleeper
  rw [hworkers]
  refine ⟨⟨hrun, ?_, ?_⟩, by omega⟩
  · rw [hworkers]
    exact List.countP_pos_iff.mp (by omega)
  · rw [hworkers]
    omega

theorem short_of_takesWakeup {s s' : Pool τ} {a : Action τ} (h : TakesWakeup s a)
    (hs : s.step a = some s') : Short s' := by
  cases a with
  | worker k choice =>
    obtain ⟨w, hw, hsignalled, ⟨hexit, hlive⟩, hrun, hsleeper, hsize⟩ := h
    simp only [Pool.step, hw, Pool.workerStep, Worker.pc_of_signalled hsignalled, if_pos hexit,
      if_pos hlive, Option.some.injEq] at hs
    subst hs
    exact And.left (short_of_set hw hsignalled rfl rfl hrun hsleeper hsize)
  | _ => exact h.elim

/-- A signalled worker is not blocked when there is a task. -/
theorem signalled_enabled {s : Pool τ} {size : ℕ} (h : RingInv s size) (hrun : s.pool.shutdown = false)
    (hsize : s.pool.queueSize ≠ 0) {k : ℕ} {w : Worker τ} (hw : s.workers[k]? = some w)
    (hsignalled : w.signalled = true) : ∃ choice s', s.step (.worker k choice) = some s' := by
  have hfront : s.pool.queueFront < s.pool.taskqueue.length := h.capacity ▸ h.front
  obtain ⟨choice, producers, hsignal⟩ := exists_signal Producer.sleeps Producer.wake s.producers
  have hlook : ∀ e, ∃ s', (s.withExitNUM e).look k w choice = some s' := by
    intro e
    simp [Pool.look, Pool.withExitNUM, hrun, hsize, List.getElem?_eq_getElem hfront, signalNotFull,
      hsignal]
  refine ⟨choice, ?_⟩
  simp only [Pool.step, hw, Pool.workerStep, Worker.pc_of_signalled hsignalled]
  split_ifs
  · exact ⟨_, rfl⟩
  · exact hlook _
  · exact hlook s.pool.exitNUM

/-- The next signalled worker leaves the others as short as before. -/
theorem Short.progress {s : Pool τ} (hqueue : QueueInv s) (h : Short s)
    (hpos : s.workers.countP Worker.signalled ≠ 0) :
    ∃ a s', BySignalled s a ∧ s.step a = some s' ∧ (QueueInv s' ∧ Short s') ∧
      s'.workers.countP Worker.signalled < s.workers.countP Worker.signalled := by
  obtain ⟨w, hmem, hsignalled⟩ := List.countP_pos_iff.mp (Nat.pos_of_ne_zero hpos)
  obtain ⟨k, hw⟩ := List.mem_iff_getElem?.mp hmem
  have hshort := h.short
  have hsize : s.pool.queueSize ≠ 0 := by omega
  obtain ⟨size, hring⟩ := hqueue.ring
  obtain ⟨choice, s', hs⟩ := signalled_enabled hring h.running hsize hw hsignalled
  refine ⟨.worker k choice, s', ⟨w, hw, hsignalled⟩, hs, ?_⟩
  rw [and_assoc]
  refine ⟨hqueue.step hs, ?_⟩
  simp only [Pool.step, hw] at hs
  have heffect := workerStep_effect hs
  rw [Worker.pc_of_signalled hsignalled] at heffect
  cases heffect with
  | sleeps e hlook hrun hempty => exact absurd hempty hsize
  | leaves e hlook hdown => exact absurd (h.running.symm.trans hdown) Bool.false_ne_true
  | takes e task producers hlook hrun hne htask =>
    refine short_of_set hw hsignalled rfl rfl hrun h.sleeper ?_
    show _ ≤ s.pool.queueSize - 1
    omega
  | exits _ hexit hlive => exact short_of_set hw hsignalled rfl rfl h.running h.sleeper hshort.le

/-- Behind such an exit, the workers that are still signalled may all make their
    step, and a task is left while another worker sleeps. -/
theorem lost_of_takesWakeup {s s' : Pool τ} {a : Action τ} (hqueue : QueueInv s) (h : TakesWakeup s a)
    (hs : s.step a = some s') :
    ∃ bs s'', Every Pool.step BySignalled s' bs ∧ exec Pool.step s' bs = some s'' ∧
      ¬ NoLostWakeup s'' := by
  obtain ⟨bs, s'', hevery, hexec, ⟨-, hshort⟩, hzero⟩ :=
    exists_run (J := fun s => QueueInv s ∧ Short s) (m := fun s => s.workers.countP Worker.signalled)
      (fun _ hinv => hinv.2.progress hinv.1) ⟨hqueue.step hs, short_of_takesWakeup h hs⟩
  refine ⟨bs, s'', hevery, hexec, fun hkept => ?_⟩
  have hsize := hshort.short
  obtain ⟨w, hmem, hsignalled⟩ := hkept hshort.running (by omega) hshort.sleeper
  exact absurd hzero (List.countP_pos_iff.mpr ⟨w, hmem, hsignalled⟩).ne'

/-- Along every run in which no signalled worker exits with a signal that is
    needed, no wake-up is lost. When one does, then the steps of the workers that
    are still signalled can lead to a state where a wake-up is lost. -/
theorem wakeups_kept {min max : ℕ} {taskqueue : List τ} (hcapacity : 1 ≤ taskqueue.length)
    {as : List (Action τ)} {s : Pool τ} (h : exec Pool.step (threadInit min max taskqueue) as = some s) :
    (Every Pool.step (fun s a => ¬ TakesWakeup s a) (threadInit min max taskqueue) as →
        Along Pool.step NoLostWakeup (threadInit min max taskqueue) as) ∧
      ∀ a s', TakesWakeup s a → s.step a = some s' →
        ∃ bs s'', Every Pool.step BySignalled s' bs ∧ exec Pool.step s' bs = some s'' ∧
          ¬ NoLostWakeup s'' := by
  constructor
  · exact Along.of_inv (fun _ _ _ hcovered hgood => hcovered.step hgood)
      (fun _ => Covered.noLostWakeup) (covered_init min max taskqueue)
  · have hqueue : QueueInv s :=
      Reachable.inv (fun _ _ _ hinv => hinv.step) (queueInv_init min max hcapacity) ⟨as, h⟩
    exact fun a s' => lost_of_takesWakeup hqueue

/-- The manager adds a second worker for two tasks and then finds both workers
    idle, before they sleep: its signals are lost and `exitNUM` stays. A third
    task wakes the first worker. -/
def staleExit : List (Action ℕ) :=
  List.flatten
    [[.call 7, .call 8, .producer 0 0, .producer 1 0], List.replicate 5 (.manager 0),
      [.worker 0 0, .worker 1 0], List.replicate 8 (.manager 0),
      List.replicate 3 (.worker 0 0), List.replicate 3 (.worker 1 0), [.call 9, .producer 2 0]]

theorem wakeups_kept_staleExit :
    ∃ s, exec Pool.step (threadInit 1 2 [0, 0]) staleExit = some s ∧
      (Every Pool.step (fun s a => ¬ TakesWakeup s a) (threadInit 1 2 [0, 0]) staleExit →
        Along Pool.step NoLostWakeup (threadInit 1 2 [0, 0]) staleExit) ∧
      ∀ a s', TakesWakeup s a → s.step a = some s' →
        ∃ bs s'', Every Pool.step BySignalled s' bs ∧ exec Pool.step s' bs = some s'' ∧
          ¬ NoLostWakeup s'' := by
  have hsome : (exec Pool.step (threadInit 1 2 [0, 0]) staleExit).isSome = true := by decide +kernel
  obtain ⟨s, hs⟩ := Option.isSome_iff_exists.mp hsome
  exact ⟨s, hs, wakeups_kept (by decide) hs⟩

/-- The first worker exits instead of taking the third task, which waits while
    the second worker sleeps. -/
theorem exit_takes_wakeup :
    ∃ s, exec Pool.step (threadInit 1 2 [0, 0]) (staleExit ++ [.worker 0 0]) = some s ∧
      s.queued = [9] ∧ s.workers = [⟨1, .exiting⟩, ⟨2, .asleep⟩] ∧ ¬ NoLostWakeup s := by
  have hend : (exec Pool.step (threadInit 1 2 [0, 0]) (staleExit ++ [.worker 0 0])).map (fun s =>
      (s.pool.shutdown, s.pool.queueSize, s.queued, s.workers)) =
        some (false, 1, [9], [⟨1, .exiting⟩, ⟨2, .asleep⟩]) := by decide +kernel
  obtain ⟨s, hs, heq⟩ := Option.map_eq_some_iff.mp hend
  simp only [Prod.mk.injEq] at heq
  obtain ⟨hrun, hsize, hqueued, hworkers⟩ := heq
  refine ⟨s, hs, hqueued, hworkers, fun hkept => ?_⟩
  obtain ⟨w, hmem, hsignalled⟩ := hkept hrun (by omega) ⟨⟨2, .asleep⟩, by simp [hworkers], rfl⟩
  rw [hworkers] at hmem
  simp only [List.mem_cons, List.not_mem_nil, or_false] at hmem
  rcases hmem with rfl | rfl <;> cases hsignalled

end LinuxFileManager.ThreadPool
