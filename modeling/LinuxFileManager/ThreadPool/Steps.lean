import LinuxFileManager.Lib.Shift
import LinuxFileManager.ThreadPool.Model

/-!
# What the steps of the thread pool do

One inversion lemma for each kind of thread, with the state after the step
written out. The invariants of the pool are derived from these lemmas.
-/

namespace LinuxFileManager.ThreadPool

open Lib

variable {τ : Type}

/-! ## Workers -/

/-- The worker is about to look at the queue. -/
def WorkerPc.looking : WorkerPc τ → Bool
  | .ready | .woken _ => true
  | _ => false

def Pool.withExitNUM (s : Pool τ) (exitNUM : ℤ) : Pool τ :=
  { s with pool := { s.pool with exitNUM := exitNUM } }

/-- The steps of a worker that stands at `pc`. -/
inductive WorkerEffect (s : Pool τ) (k : ℕ) (w : Worker τ) : WorkerPc τ → Pool τ → Prop where
  | sleeps (exitNUM : ℤ) {pc : WorkerPc τ} (hpc : pc.looking = true) (hrun : s.pool.shutdown = false)
      (hempty : s.pool.queueSize = 0) :
      WorkerEffect s k w pc ((s.withExitNUM exitNUM).setWorker k w .asleep)
  | takes (exitNUM : ℤ) (task : τ) (producers : List (Producer τ)) {pc : WorkerPc τ}
      (hpc : pc.looking = true) (hrun : s.pool.shutdown = false) (hsize : s.pool.queueSize ≠ 0)
      (htask : s.pool.taskqueue[s.pool.queueFront]? = some task) :
      WorkerEffect s k w pc
        { s with
          pool := { s.pool with
            queueFront := (s.pool.queueFront + 1) % s.pool.queueCapacity
            queueSize := s.pool.queueSize - 1
            exitNUM := exitNUM }
          workers := s.workers.set k { w with pc := .took task }
          producers := producers
          taken := s.taken ++ [task] }
  | leaves (exitNUM : ℤ) {pc : WorkerPc τ} (hpc : pc.looking = true) (hdown : s.pool.shutdown = true) :
      WorkerEffect s k w pc ((s.withExitNUM exitNUM).setWorker k w .exiting)
  | exits (signalled : Bool) (hexit : s.pool.exitNUM > 0) (hlive : s.pool.liveNUM > s.pool.minNUM) :
      WorkerEffect s k w (.woken signalled)
        ({ s with pool := { s.pool with
            exitNUM := s.pool.exitNUM - 1
            liveNUM := s.pool.liveNUM - 1 } }.setWorker k w .exiting)
  | starts (task : τ) :
      WorkerEffect s k w (.took task)
        ({ s with
          pool := { s.pool with busyNUM := s.pool.busyNUM + 1 }
          started := s.started ++ [task] }.setWorker k w (.busy task))
  | finishes (task : τ) :
      WorkerEffect s k w (.busy task)
        ({ s with pool := { s.pool with busyNUM := s.pool.busyNUM - 1 } }.setWorker k w .ready)
  | clears :
      WorkerEffect s k w .exiting
        ({ s with pool := { s.pool with
            threadIDs := clearEntry w.tid s.pool.threadIDs } }.setWorker k w .exited)

theorem look_effect {s s' : Pool τ} {k : ℕ} {w : Worker τ} {choice : ℕ} {pc : WorkerPc τ} (e : ℤ)
    (hpc : pc.looking = true) (h : (s.withExitNUM e).look k w choice = some s') :
    WorkerEffect s k w pc s' := by
  simp only [Pool.look] at h
  split_ifs at h with hempty hdown
  · cases h
    exact .sleeps e hpc hempty.2 hempty.1
  · cases h
    exact .leaves e hpc hdown
  · split at h
    · next task producers htask hsignal =>
      cases h
      have hrun : s.pool.shutdown = false := Bool.eq_false_iff.mpr hdown
      exact .takes e task producers hpc hrun (fun h0 => hempty ⟨h0, hrun⟩) htask
    · cases h

theorem workerStep_effect {s s' : Pool τ} {k : ℕ} {w : Worker τ} {choice : ℕ}
    (h : s.workerStep k w choice = some s') : WorkerEffect s k w w.pc s' := by
  simp only [Pool.workerStep] at h
  cases hpc : w.pc with
  | ready =>
    simp only [hpc] at h
    exact look_effect s.pool.exitNUM rfl h
  | asleep => simp [hpc] at h
  | woken signalled =>
    simp only [hpc] at h
    split_ifs at h with hexit hlive
    · cases h
      exact .exits signalled hexit hlive
    · exact look_effect (s.pool.exitNUM - 1) rfl h
    · exact look_effect s.pool.exitNUM rfl h
  | took task =>
    simp only [hpc, Option.some.injEq] at h
    exact h ▸ .starts task
  | busy task =>
    simp only [hpc, Option.some.injEq] at h
    exact h ▸ .finishes task
  | exiting =>
    simp only [hpc, Option.some.injEq] at h
    exact h ▸ .clears
  | exited => simp [hpc] at h

/-! ## Producers, the manager and the destroyer -/

theorem Worker.pc_of_sleeps {w : Worker τ} (h : w.sleeps = true) : w.pc = .asleep := by
  unfold Worker.sleeps at h
  split at h
  · next hpc => exact hpc
  · cases h

/-- The workers after a signal on `notEmpty`: the same, with none asleep, or one
    of the sleepers is awake. -/
theorem signalNotEmpty_eq_some {workers workers' : List (Worker τ)} {choice : ℕ}
    (h : signalNotEmpty workers choice = some workers') :
    (workers' = workers ∧ ∀ w ∈ workers, w.sleeps = false) ∨
      ∃ w, workers[choice]? = some w ∧ w.sleeps = true ∧
        workers' = workers.set choice (w.wake true) :=
  (signal_eq_some _ _).mp h

/-- A count among new threads. -/
theorem countP_new {p : Worker τ → Bool} (hp : ∀ tid, p ⟨tid, .ready⟩ = true) (tids : List ℕ) :
    (tids.map fun tid => (⟨tid, .ready⟩ : Worker τ)).countP p = tids.length := by
  rw [List.countP_map]
  exact List.countP_eq_length.mpr fun tid _ => hp tid

theorem countP_new_eq_zero {p : Worker τ → Bool} (hp : ∀ tid, p ⟨tid, .ready⟩ = false)
    (tids : List ℕ) : (tids.map fun tid => (⟨tid, .ready⟩ : Worker τ)).countP p = 0 := by
  rw [List.countP_map]
  exact List.countP_eq_zero.mpr fun tid _ => by simp [hp tid]

/-- A step of a call of `threadPoolAdd`. -/
inductive ProducerEffect (s : Pool τ) : Pool τ → Prop where
  | quiet (producers : List (Producer τ)) : ProducerEffect s { s with producers := producers }
  | adds (task : τ) (choice : ℕ) (workers : List (Worker τ)) (producers : List (Producer τ))
      (hrun : s.pool.shutdown = false) (hsize : s.pool.queueSize ≠ s.pool.queueCapacity)
      (hsignal : signalNotEmpty s.workers choice = some workers) :
      ProducerEffect s
        { s with
          pool := { s.pool with
            taskqueue := s.pool.taskqueue.set s.pool.queueRear task
            queueRear := (s.pool.queueRear + 1) % s.pool.queueCapacity
            queueSize := s.pool.queueSize + 1 }
          workers := workers
          producers := producers
          added := s.added ++ [task] }

theorem producerStep_effect {s s' : Pool τ} {k choice : ℕ} {p : Producer τ}
    (h : s.producerStep k choice p = some s') : ProducerEffect s s' := by
  have hadd : ∀ {task}, s.addTask k task choice = some s' → ProducerEffect s s' := by
    intro task h
    simp only [Pool.addTask] at h
    split_ifs at h with hfull hdown
    · cases h
      exact .quiet _
    · cases h
      exact .quiet _
    · obtain ⟨workers, hsignal, rfl⟩ := Option.map_eq_some_iff.mp h
      have hrun : s.pool.shutdown = false := by simpa using hdown
      exact .adds task choice workers _ hrun (fun heq => hfull ⟨heq, hrun⟩) hsignal
  cases p with
  | calling task => exact hadd h
  | woken task => exact hadd h
  | asleep task => cases h
  | returned => cases h

/-- A step of the manager that stands at `pc`. -/
inductive ManagerEffect (s : Pool τ) : ManagerPc → Pool τ → Prop where
  | quiet {pc pc' : ManagerPc} (hpc : pc ≠ .exited)
      (hpc' : pc' = .top ∨ pc' = .sleeping ∨ pc' = .exited) :
      ManagerEffect s pc { s with manager := pc' }
  | counts : ManagerEffect s .sleeping { s with manager := .counted s.pool.queueSize s.pool.liveNUM }
  | snaps (q l : ℤ) : ManagerEffect s (.counted q l) { s with manager := .adding q l s.pool.busyNUM }
  | skips (q l b : ℤ) : ManagerEffect s (.adding q l b) { s with manager := .ending l b }
  | creates {q l b : ℤ} {entries new : List ℕ} (hlive : l < s.pool.maxNUM)
      (hcreate : createThreads s.pool.threadIDs number s.nextTid = (entries, new)) :
      ManagerEffect s (.adding q l b)
        { s with
          pool := { s.pool with threadIDs := entries, liveNUM := s.pool.liveNUM + new.length }
          workers := s.workers ++ new.map fun tid => ⟨tid, .ready⟩
          manager := .ending l b
          nextTid := s.nextTid + new.length }
  | ends (l b : ℤ) :
      ManagerEffect s (.ending l b)
        { s with pool := { s.pool with exitNUM := number }, manager := .signalling number }
  | signals (n choice : ℕ) (workers : List (Worker τ))
      (hsignal : signalNotEmpty s.workers choice = some workers) :
      ManagerEffect s (.signalling (n + 1)) { s with workers := workers, manager := .signalling n }

theorem managerStep_effect {s s' : Pool τ} {choice : ℕ} (h : s.managerStep choice = some s') :
    ManagerEffect s s.manager s' := by
  simp only [Pool.managerStep] at h
  cases hpc : s.manager with
  | top =>
    simp only [hpc, Option.some.injEq] at h
    subst h
    refine .quiet (by simp) ?_
    split_ifs <;> simp
  | sleeping =>
    simp only [hpc, Option.some.injEq] at h
    exact h ▸ .counts
  | counted q l =>
    simp only [hpc, Option.some.injEq] at h
    exact h ▸ .snaps q l
  | adding q l b =>
    simp only [hpc] at h
    split_ifs at h with hadd
    · cases h
      exact .creates hadd.2 rfl
    · cases h
      exact .skips q l b
  | ending l b =>
    simp only [hpc] at h
    split_ifs at h with hend
    · cases h
      exact .ends l b
    · cases h
      exact .quiet (by simp) (Or.inl rfl)
  | signalling n =>
    cases n with
    | zero =>
      simp only [hpc, Option.some.injEq] at h
      exact h ▸ .quiet (by simp) (Or.inl rfl)
    | succ n =>
      simp only [hpc] at h
      obtain ⟨workers, hsignal, rfl⟩ := Option.map_eq_some_iff.mp h
      exact .signals n choice workers hsignal
  | exited => simp [hpc] at h

/-- A step of `threadPoolDestory` that stands at `pc`. -/
inductive DestroyEffect (s : Pool τ) : DestroyPc → Pool τ → Prop where
  | flags : DestroyEffect s .notCalled
      { s with pool := { s.pool with shutdown := true }, destroyer := .flagged }
  | broadcasts : DestroyEffect s .flagged
      { s with
        workers := broadcast Worker.sleeps (Worker.wake true) s.workers
        producers := broadcast Producer.sleeps Producer.wake s.producers
        destroyer := .joinManager }
  | joinsManager (hexited : s.manager = .exited) :
      DestroyEffect s .joinManager { s with destroyer := .joinSlot 0 }
  | done {i : ℕ} (hi : s.pool.threadIDs[i]? = none) :
      DestroyEffect s (.joinSlot i) { s with destroyer := .destroyed }
  | free {i : ℕ} (hi : s.pool.threadIDs[i]? = some 0) :
      DestroyEffect s (.joinSlot i) { s with destroyer := .joinSlot (i + 1) }
  | finds {i tid : ℕ} (hi : s.pool.threadIDs[i]? = some tid) :
      DestroyEffect s (.joinSlot i) { s with destroyer := .joinEntry i }
  | misses {i : ℕ} : DestroyEffect s (.joinEntry i) { s with destroyer := .joinsZero }
  | waits {i tid : ℕ} (hi : s.pool.threadIDs.getD i 0 = tid) :
      DestroyEffect s (.joinEntry i) { s with destroyer := .joinThread i tid }
  | joins {i tid : ℕ} (hended : s.ended tid = true) :
      DestroyEffect s (.joinThread i tid)
        { s with
          pool := { s.pool with threadIDs := s.pool.threadIDs.set i 0 }
          destroyer := .joinSlot (i + 1) }

theorem destroyStep_effect {s s' : Pool τ} (h : s.destroyStep = some s') :
    DestroyEffect s s.destroyer s' := by
  simp only [Pool.destroyStep] at h
  cases hpc : s.destroyer with
  | notCalled =>
    simp only [hpc, Option.some.injEq] at h
    exact h ▸ .flags
  | flagged =>
    simp only [hpc, Option.some.injEq] at h
    exact h ▸ .broadcasts
  | joinManager =>
    simp only [hpc] at h
    split at h
    · next hexited =>
      cases h
      exact .joinsManager hexited
    · cases h
  | joinSlot i =>
    simp only [hpc] at h
    split at h
    · next hi =>
      cases h
      exact .done hi
    · next hi =>
      cases h
      exact .free hi
    · next tid hi hget =>
      cases h
      exact .finds hget
  | joinEntry i =>
    simp only [hpc] at h
    split at h
    · cases h
      exact .misses
    · cases h
      exact .waits rfl
  | joinThread i tid =>
    simp only [hpc] at h
    split_ifs at h with hended
    cases h
    exact .joins hended
  | joinsZero => simp [hpc] at h
  | destroyed => simp [hpc] at h

/-! ## The system -/

/-- Which thread makes the step, and what it does. -/
inductive StepEffect (s : Pool τ) : Action τ → Pool τ → Prop where
  | worker {k choice : ℕ} {w : Worker τ} {s' : Pool τ} (hw : s.workers[k]? = some w)
      (h : WorkerEffect s k w w.pc s') : StepEffect s (.worker k choice) s'
  | wakes {k : ℕ} {w : Worker τ} (hw : s.workers[k]? = some w) (hsleeps : w.sleeps = true) :
      StepEffect s (.wakeWorker k) (s.setWorker k w (.woken false))
  | producer {a : Action τ} {s' : Pool τ} (h : ProducerEffect s s') : StepEffect s a s'
  | manager {choice : ℕ} {s' : Pool τ} (h : ManagerEffect s s.manager s') :
      StepEffect s (.manager choice) s'
  | destroy {s' : Pool τ} (h : DestroyEffect s s.destroyer s') : StepEffect s .destroy s'

theorem Pool.step_effect {s s' : Pool τ} {a : Action τ} (h : s.step a = some s') :
    StepEffect s a s' := by
  cases a with
  | worker k choice =>
    simp only [Pool.step] at h
    split at h
    · next w hw => exact .worker hw (workerStep_effect h)
    · cases h
  | wakeWorker k =>
    simp only [Pool.step] at h
    split at h
    · next w hw =>
      split_ifs at h with hsleeps
      cases h
      exact .wakes hw hsleeps
    · cases h
  | call task =>
    cases h
    exact .producer (.quiet _)
  | producer k choice =>
    simp only [Pool.step] at h
    split at h
    · exact .producer (producerStep_effect h)
    · cases h
  | wakeProducer k =>
    simp only [Pool.step] at h
    split at h
    · split_ifs at h
      cases h
      exact .producer (.quiet _)
    · cases h
  | manager choice => exact .manager (managerStep_effect h)
  | destroy => exact .destroy (destroyStep_effect h)

/-- No step takes `shutdown` back. -/
theorem Pool.running_of_step {s s' : Pool τ} {a : Action τ} (h : s.step a = some s')
    (hrun : s'.pool.shutdown = false) : s.pool.shutdown = false := by
  cases Pool.step_effect h with
  | worker hw heffect =>
    generalize Worker.pc _ = pc at heffect
    cases heffect <;> exact hrun
  | wakes => exact hrun
  | producer heffect => cases heffect <;> exact hrun
  | manager heffect =>
    generalize s.manager = pc at heffect
    cases heffect <;> exact hrun
  | destroy heffect =>
    generalize s.destroyer = pc at heffect
    cases heffect with
    | flags => cases hrun
    | _ => exact hrun

/-- `minNUM` and `maxNUM` never change. -/
theorem Pool.step_bounds {s s' : Pool τ} {a : Action τ} (h : s.step a = some s') :
    s'.pool.minNUM = s.pool.minNUM ∧ s'.pool.maxNUM = s.pool.maxNUM := by
  cases Pool.step_effect h with
  | worker hw heffect =>
    generalize Worker.pc _ = pc at heffect
    cases heffect <;> exact ⟨rfl, rfl⟩
  | wakes => exact ⟨rfl, rfl⟩
  | producer heffect => cases heffect <;> exact ⟨rfl, rfl⟩
  | manager heffect =>
    generalize s.manager = pc at heffect
    cases heffect <;> exact ⟨rfl, rfl⟩
  | destroy heffect =>
    generalize s.destroyer = pc at heffect
    cases heffect <;> exact ⟨rfl, rfl⟩

end LinuxFileManager.ThreadPool
