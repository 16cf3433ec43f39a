import LinuxFileManager.ThreadPool.Steps

/-!
# Shutting down the pool

`threadPoolDestory` sets `shutdown` before it takes `mutexPool`, and workers and
producers read it twice in their critical sections: in the test of the wait loop
and behind the loop (`src/thread_pool.c` lines 68 and 80, 111 and 115). In
`ThreadPool.Model` such a section is one step. Here the two reads, the wait and
the end of a section are steps of their own, so that `shutdown` may change
between any two of them, and the mutex is explicit. The other sections do not
read `shutdown` and stay one step, which needs the mutex.

Results:

* `exists_race_run`: a run of the pool is a run of this finer system.
* `drained_after_broadcast`: in every run, once the broadcasts are done, no thread
  waits, none goes to sleep, and the queue is left alone.
-/

namespace LinuxFileManager.ThreadPool

open Lib

variable {τ : Type}

/-! ## Model -/

/-- Where a worker or a producer stands that holds `mutexPool`. -/
inductive Section where
  /-- At the test of the wait loop. -/
  | testing
  /-- Before `pthread_cond_wait`. -/
  | waiting
  /-- Behind the loop, before `if (pool->shutdown)`. -/
  | deciding
  /-- `shutdown` was set. -/
  | leaving
  /-- `shutdown` was not set: about to take a task from the queue or to add one. -/
  | working
  deriving DecidableEq

/-- Who holds `mutexPool` between two steps. -/
inductive Holder where
  | worker (k : ℕ) (place : Section)
  | producer (k : ℕ) (place : Section)
  deriving DecidableEq

def Holder.place : Holder → Section
  | .worker _ place | .producer _ place => place

structure Race (τ : Type) where
  pool : Pool τ
  holder : Option Holder

/-- The test of the wait loop, where `stuck` says that the queue is empty, or full. -/
def testLoop (stuck shutdown : Bool) : Section := if stuck && !shutdown then .waiting else .deciding

/-- `if (pool->shutdown)`. -/
def testShutdown (shutdown : Bool) : Section := if shutdown then .leaving else .working

/-- A worker gets the mutex. When it comes from `pthread_cond_wait`, it looks at
    `exitNUM` first (lines 71–78) and may end. -/
def Pool.enter (s : Pool τ) (k : ℕ) (w : Worker τ) : Race τ :=
  match w.pc with
  | .woken _ =>
    if s.pool.exitNUM > 0 then
      let s := { s with pool := { s.pool with exitNUM := s.pool.exitNUM - 1 } }
      if s.pool.liveNUM > s.pool.minNUM then
        ⟨{ s with pool := { s.pool with liveNUM := s.pool.liveNUM - 1 } }.setWorker k w .exiting, none⟩
      else ⟨s, some (.worker k .testing)⟩
    else ⟨s, some (.worker k .testing)⟩
  | _ => ⟨s, some (.worker k .testing)⟩

/-- Lines 84–90. -/
def Pool.takeTask (s : Pool τ) (k : ℕ) (w : Worker τ) (choice : ℕ) : Option (Pool τ) :=
  match s.pool.taskqueue[s.pool.queueFront]?, signalNotFull s.producers choice with
  | some task, some producers =>
    some { s.setWorker k w (.took task) with
      pool := { s.pool with
        queueFront := (s.pool.queueFront + 1) % s.pool.queueCapacity
        queueSize := s.pool.queueSize - 1 }
      producers := producers
      taken := s.taken ++ [task] }
  | _, _ => none

/-- Lines 120–125. -/
def Pool.putTask (s : Pool τ) (k : ℕ) (task : τ) (choice : ℕ) : Option (Pool τ) :=
  (signalNotEmpty s.workers choice).map fun workers =>
    { s with
      pool := { s.pool with
        taskqueue := s.pool.taskqueue.set s.pool.queueRear task
        queueRear := (s.pool.queueRear + 1) % s.pool.queueCapacity
        queueSize := s.pool.queueSize + 1 }
      workers := workers
      producers := s.producers.set k .returned
      added := s.added ++ [task] }

/-- The next step of a worker in its section. -/
def Pool.workerSection (s : Pool τ) (k : ℕ) (w : Worker τ) (choice : ℕ) : Section → Option (Race τ)
  | .testing => some ⟨s, some (.worker k (testLoop (s.pool.queueSize = 0) s.pool.shutdown))⟩
  | .waiting => some ⟨s.setWorker k w .asleep, none⟩
  | .deciding => some ⟨s, some (.worker k (testShutdown s.pool.shutdown))⟩
  | .leaving => some ⟨s.setWorker k w .exiting, none⟩
  | .working => (s.takeTask k w choice).map fun s => ⟨s, none⟩

/-- The next step of a call of `threadPoolAdd` in its section. -/
def Pool.producerSection (s : Pool τ) (k : ℕ) (task : τ) (choice : ℕ) : Section → Option (Race τ)
  | .testing =>
    some ⟨s, some (.producer k (testLoop (s.pool.queueSize = s.pool.queueCapacity) s.pool.shutdown))⟩
  | .waiting => some ⟨{ s with producers := s.producers.set k (.asleep task) }, none⟩
  | .deciding => some ⟨s, some (.producer k (testShutdown s.pool.shutdown))⟩
  | .leaving => some ⟨{ s with producers := s.producers.set k .returned }, none⟩
  | .working => (s.putTask k task choice).map fun s => ⟨s, none⟩

/-- The task of a call that is about to take the mutex or holds it. -/
def Producer.wants : Producer τ → Option τ
  | .calling task | .woken task => some task
  | _ => none

/-- The next step of the manager takes the mutex. -/
def Pool.managerLocks (s : Pool τ) : Bool :=
  match s.manager with
  | .sleeping => true
  | .adding queueSize liveNum busyNum => queueSize > liveNum - busyNum ∧ liveNum < s.pool.maxNUM
  | .ending liveNum busyNum => busyNum * 2 < liveNum ∧ liveNum > s.pool.minNUM
  | _ => false

/-- The step needs no mutex, or takes it and releases it. -/
def Race.unlocked (r : Race τ) : Action τ → Bool
  | .worker k _ => r.pool.workers[k]?.all fun w => !w.pc.looking
  | .producer _ _ => false
  | .manager _ => !r.pool.managerLocks || r.holder.isNone
  | .destroy => r.pool.destroyer != .flagged || r.holder.isNone
  | .wakeWorker _ | .call _ | .wakeProducer _ => true

inductive RaceAction (τ : Type) where
  /-- A step that is no part of a section that reads `shutdown`. -/
  | other (a : Action τ)
  | lockWorker (k : ℕ)
  | lockProducer (k : ℕ)
  /-- The next step of the thread that holds the mutex. -/
  | inside (choice : ℕ)

def Race.step (r : Race τ) : RaceAction τ → Option (Race τ)
  | .other a => if r.unlocked a then (r.pool.step a).map fun s => { r with pool := s } else none
  | .lockWorker k =>
    match r.holder, r.pool.workers[k]? with
    | none, some w => if w.pc.looking then some (r.pool.enter k w) else none
    | _, _ => none
  | .lockProducer k =>
    match r.holder, r.pool.producers[k]?.bind Producer.wants with
    | none, some _ => some { r with holder := some (.producer k .testing) }
    | _, _ => none
  | .inside choice =>
    match r.holder with
    | some (.worker k place) =>
      match r.pool.workers[k]? with
      | some w => r.pool.workerSection k w choice place
      | none => none
    | some (.producer k place) =>
      match r.pool.producers[k]?.bind Producer.wants with
      | some task => r.pool.producerSection k task choice place
      | none => none
    | none => none

def Race.start (min max : ℕ) (taskqueue : List τ) : Race τ := ⟨threadInit min max taskqueue, none⟩

/-! ## The steps of the pool as runs -/

/-- Where a section ends if `shutdown` does not change in it. -/
def Section.last (stuck shutdown : Bool) : Section :=
  if stuck && !shutdown then .waiting else testShutdown shutdown

/-- A thread with the mutex goes through its section. `stands` is the state with
    the thread at a place, `next` the step that it makes there. -/
theorem exists_run_of_section (stands : Section → Race τ) (next : Section → Option (Race τ))
    {r' : Race τ} {choice : ℕ} {stuck shutdown : Bool}
    (hstep : ∀ place, (stands place).step (.inside choice) = next place)
    (htesting : next .testing = some (stands (testLoop stuck shutdown)))
    (hdeciding : next .deciding = some (stands (testShutdown shutdown)))
    (hlast : next (.last stuck shutdown) = some r') :
    ∃ bs, exec Race.step (stands .testing) bs = some r' := by
  have htest := (hstep _).trans htesting
  have hend := (hstep _).trans hlast
  cases hwait : stuck && !shutdown with
  | true =>
    rw [testLoop, hwait, if_pos rfl] at htest
    rw [Section.last, hwait, if_pos rfl] at hend
    refine ⟨List.replicate 2 (.inside choice), ?_⟩
    exact exec_cons_eq_some.mpr ⟨_, htest, exec_cons_eq_some.mpr ⟨_, hend, rfl⟩⟩
  | false =>
    rw [testLoop, hwait, if_neg Bool.false_ne_true] at htest
    rw [Section.last, hwait, if_neg Bool.false_ne_true] at hend
    refine ⟨List.replicate 3 (.inside choice), ?_⟩
    exact exec_cons_eq_some.mpr ⟨_, htest, exec_cons_eq_some.mpr ⟨_, (hstep _).trans hdeciding,
      exec_cons_eq_some.mpr ⟨_, hend, rfl⟩⟩⟩

/-- The look at the queue, section by section. -/
theorem exists_run_of_look {s s' : Pool τ} {k choice : ℕ} {w : Worker τ} (hw : s.workers[k]? = some w)
    (hs : s.look k w choice = some s') :
    ∃ bs, exec Race.step ⟨s, some (.worker k .testing)⟩ bs = some ⟨s', none⟩ := by
  have hstep : ∀ place, Race.step ⟨s, some (.worker k place)⟩ (.inside choice) =
      s.workerSection k w choice place := by
    intro place
    simp only [Race.step, hw]
  refine exists_run_of_section (fun place => ⟨s, some (.worker k place)⟩) _ hstep rfl rfl ?_
  simp only [Pool.look] at hs
  split_ifs at hs with hempty hdown
  · cases hs
    simp [Section.last, hempty, Pool.workerSection]
  · cases hs
    simp [Section.last, testShutdown, hdown, Pool.workerSection]
  · have hrun : s.pool.shutdown = false := Bool.eq_false_iff.mpr hdown
    have hsize : s.pool.queueSize ≠ 0 := fun h0 => hempty ⟨h0, hrun⟩
    have htake : s.takeTask k w choice = some s' := hs
    simp [Section.last, testShutdown, hrun, hsize, Pool.workerSection, htake]

theorem exists_run_of_addTask {s s' : Pool τ} {k choice : ℕ} {task : τ}
    (hp : s.producers[k]?.bind Producer.wants = some task) (hs : s.addTask k task choice = some s') :
    ∃ bs, exec Race.step ⟨s, some (.producer k .testing)⟩ bs = some ⟨s', none⟩ := by
  have hstep : ∀ place, Race.step ⟨s, some (.producer k place)⟩ (.inside choice) =
      s.producerSection k task choice place := by
    intro place
    simp only [Race.step, hp]
  refine exists_run_of_section (fun place => ⟨s, some (.producer k place)⟩) _ hstep rfl rfl ?_
  simp only [Pool.addTask] at hs
  split_ifs at hs with hfull hdown
  · cases hs
    simp [Section.last, hfull, Pool.producerSection]
  · cases hs
    simp [Section.last, testShutdown, hdown, Pool.producerSection]
  · have hrun : s.pool.shutdown = false := Bool.eq_false_iff.mpr hdown
    have hsize : s.pool.queueSize ≠ s.pool.queueCapacity := fun heq => hfull ⟨heq, hrun⟩
    have hput : s.putTask k task choice = some s' := hs
    simp [Section.last, testShutdown, hrun, hsize, Pool.producerSection, hput]

/-- A worker that comes from the head of its loop or from its wait. -/
theorem exists_run_of_worker {s s' : Pool τ} {k choice : ℕ} {w : Worker τ} (hw : s.workers[k]? = some w)
    (hlooking : w.pc.looking = true) (hs : s.workerStep k w choice = some s') :
    ∃ bs, exec Race.step ⟨s, none⟩ bs = some ⟨s', none⟩ := by
  have hlock : Race.step ⟨s, none⟩ (.lockWorker k) = some (s.enter k w) := by
    simp only [Race.step, hw, hlooking, if_true]
  have hlook : ∀ s₁ : Pool τ, s₁.workers[k]? = some w → s₁.look k w choice = some s' →
      s.enter k w = ⟨s₁, some (.worker k .testing)⟩ →
      ∃ bs, exec Race.step ⟨s, none⟩ bs = some ⟨s', none⟩ := by
    intro s₁ hw₁ hs₁ henter
    obtain ⟨bs, hbs⟩ := exists_run_of_look hw₁ hs₁
    exact ⟨.lockWorker k :: bs, exec_cons_eq_some.mpr ⟨_, hlock, henter ▸ hbs⟩⟩
  cases hpc : w.pc with
  | ready =>
    simp only [Pool.workerStep, hpc] at hs
    exact hlook s hw hs (by simp only [Pool.enter, hpc])
  | woken signalled =>
    simp only [Pool.workerStep, hpc] at hs
    split_ifs at hs with hexit hlive
    · cases hs
      refine ⟨[.lockWorker k], exec_cons_eq_some.mpr ⟨_, hlock, ?_⟩⟩
      simp only [exec, Pool.enter, hpc, if_pos hexit, if_pos hlive]
    · exact hlook (s.withExitNUM (s.pool.exitNUM - 1)) hw hs
        (by simp only [Pool.enter, hpc, if_pos hexit, if_neg hlive, Pool.withExitNUM])
    · exact hlook s hw hs (by simp only [Pool.enter, hpc, if_neg hexit])
  | _ =>
    rw [hpc] at hlooking
    cases hlooking

/-- Every step of the pool is a run of the finer system, from free mutex to free
    mutex. -/
theorem exists_race_of_step {s s' : Pool τ} {a : Action τ} (hs : s.step a = some s') :
    ∃ bs, exec Race.step ⟨s, none⟩ bs = some ⟨s', none⟩ := by
  by_cases hfree : (Race.mk s none).unlocked a = true
  · refine ⟨[.other a], exec_cons_eq_some.mpr ⟨⟨s', none⟩, ?_, rfl⟩⟩
    simp only [Race.step, if_pos hfree, hs, Option.map_some]
  · cases a with
    | worker k choice =>
      simp only [Pool.step] at hs
      split at hs
      · next w hw => exact exists_run_of_worker hw (by simpa [Race.unlocked, hw] using hfree) hs
      · cases hs
    | producer k choice =>
      simp only [Pool.step] at hs
      split at hs
      · next p hp =>
        have hrun : ∀ task, p.wants = some task → s.addTask k task choice = some s' →
            ∃ bs, exec Race.step ⟨s, none⟩ bs = some ⟨s', none⟩ := by
          intro task hwants hadd
          have hbind : s.producers[k]?.bind Producer.wants = some task := by simp [hp, hwants]
          obtain ⟨bs, hbs⟩ := exists_run_of_addTask hbind hadd
          refine ⟨.lockProducer k :: bs, exec_cons_eq_some.mpr ⟨_, ?_, hbs⟩⟩
          simp only [Race.step, hbind]
        cases p with
        | calling task => exact hrun task rfl hs
        | woken task => exact hrun task rfl hs
        | asleep task => cases hs
        | returned => cases hs
      · cases hs
    | _ => simp [Race.unlocked] at hfree

/-- Every run of the pool is one of the finer system. -/
theorem exists_race_run {s s' : Pool τ} {as : List (Action τ)} (h : exec Pool.step s as = some s') :
    ∃ bs, exec Race.step ⟨s, none⟩ bs = some ⟨s', none⟩ :=
  exec_refines (f := fun s => (⟨s, none⟩ : Race τ)) (fun _ _ _ => exists_race_of_step) h

/-! ## What a step leaves alone -/

/-- The broadcasts of `threadPoolDestory` are done. -/
def DestroyPc.broadcastDone : DestroyPc → Bool
  | .notCalled | .flagged => false
  | _ => true

/-- The section ends without a wait, and without work on the queue, if `shutdown`
    is set. -/
def Section.idle : Section → Bool
  | .waiting | .working => false
  | _ => true

/-- No thread waits on `notEmpty` or `notFull`. -/
structure NoneAsleep (s : Pool τ) : Prop where
  workers : ∀ w ∈ s.workers, w.sleeps = false
  producers : ∀ p ∈ s.producers, p.sleeps = false

/-- No task is taken from the queue or added to it, and no thread goes to sleep. -/
structure Harmless (s s' : Pool τ) : Prop where
  taken : s'.taken = s.taken
  added : s'.added = s.added
  awake : NoneAsleep s → NoneAsleep s'

theorem Harmless.of_eq {s s' : Pool τ} (hworkers : s'.workers = s.workers)
    (hproducers : s'.producers = s.producers) (htaken : s'.taken = s.taken)
    (hadded : s'.added = s.added) : Harmless s s' :=
  ⟨htaken, hadded, fun h => ⟨hworkers ▸ h.workers, hproducers ▸ h.producers⟩⟩

/-- A worker moves to a place where it does not sleep. -/
theorem Harmless.of_set {s s' : Pool τ} (k : ℕ) (w : Worker τ) (hw : w.sleeps = false)
    (hworkers : s'.workers = s.workers.set k w) (hproducers : s'.producers = s.producers)
    (htaken : s'.taken = s.taken) (hadded : s'.added = s.added) : Harmless s s' := by
  refine ⟨htaken, hadded, fun h => ⟨fun w' hw' => ?_, by rw [hproducers]; exact h.producers⟩⟩
  rw [hworkers] at hw'
  rcases List.mem_or_eq_of_mem_set hw' with hold | rfl
  · exact h.workers w' hold
  · exact hw

theorem Harmless.of_set_producer (s : Pool τ) (k : ℕ) {p : Producer τ} (hp : p.sleeps = false) :
    Harmless s { s with producers := s.producers.set k p } := by
  refine ⟨rfl, rfl, fun h => ⟨h.workers, fun p' hp' => ?_⟩⟩
  rcases List.mem_or_eq_of_mem_set hp' with hold | rfl
  · exact h.producers p' hold
  · exact hp

theorem Harmless.worker {s s' : Pool τ} {k : ℕ} {w : Worker τ} (hdown : s.pool.shutdown = true)
    (heffect : WorkerEffect s k w w.pc s') : Harmless s s' := by
  generalize w.pc = pc at heffect
  cases heffect with
  | sleeps e hpc hrun hempty => rw [hdown] at hrun; cases hrun
  | takes e task producers hpc hrun hsize htask => rw [hdown] at hrun; cases hrun
  | leaves => exact .of_set k { w with pc := .exiting } rfl rfl rfl rfl rfl
  | exits => exact .of_set k { w with pc := .exiting } rfl rfl rfl rfl rfl
  | starts task => exact .of_set k { w with pc := .busy task } rfl rfl rfl rfl rfl
  | finishes => exact .of_set k { w with pc := .ready } rfl rfl rfl rfl rfl
  | clears => exact .of_set k { w with pc := .exited } rfl rfl rfl rfl rfl

theorem Harmless.manager {s s' : Pool τ} (heffect : ManagerEffect s s.manager s') : Harmless s s' := by
  generalize s.manager = pc at heffect
  cases heffect with
  | @creates q l b entries new hlive hcreate =>
    refine ⟨rfl, rfl, fun h => ⟨fun w hw => ?_, h.producers⟩⟩
    rcases List.mem_append.mp hw with hold | hnew
    · exact h.workers w hold
    · obtain ⟨tid, -, rfl⟩ := List.mem_map.mp hnew
      rfl
  | signals n choice workers hsignal =>
    refine ⟨rfl, rfl, fun h => ⟨?_, h.producers⟩⟩
    rcases signalNotEmpty_eq_some hsignal with ⟨rfl, -⟩ | ⟨w, hw, hsleeps, -⟩
    · exact h.workers
    · rw [h.workers w (List.mem_of_getElem? hw)] at hsleeps
      cases hsleeps
  | _ => exact .of_eq rfl rfl rfl rfl

/-- After a broadcast nobody sleeps. -/
theorem noneAsleep_broadcast (s : Pool τ) :
    NoneAsleep { s with
      workers := broadcast Worker.sleeps (Worker.wake true) s.workers
      producers := broadcast Producer.sleeps Producer.wake s.producers
      destroyer := .joinManager } := by
  constructor
  · intro w hw
    obtain ⟨w₀, -, rfl⟩ := List.mem_map.mp hw
    split_ifs with hsleeps
    · rfl
    · exact Bool.eq_false_iff.mpr hsleeps
  · intro p hp
    obtain ⟨p₀, -, rfl⟩ := List.mem_map.mp hp
    cases p₀ <;> rfl

theorem Harmless.destroy {s s' : Pool τ} (heffect : DestroyEffect s s.destroyer s') : Harmless s s' := by
  generalize s.destroyer = pc at heffect
  cases heffect with
  | broadcasts => exact ⟨rfl, rfl, fun _ => noneAsleep_broadcast s⟩
  | _ => exact .of_eq rfl rfl rfl rfl

/-- With `shutdown` set, a step that is no part of a section is harmless. -/
theorem Harmless.other {r : Race τ} {a : Action τ} {s' : Pool τ} (hdown : r.pool.pool.shutdown = true)
    (hfree : r.unlocked a = true) (hs : r.pool.step a = some s') : Harmless r.pool s' := by
  cases a with
  | call task =>
    cases hs
    refine ⟨rfl, rfl, fun h => ⟨h.workers, fun p hp => ?_⟩⟩
    rcases List.mem_append.mp hp with hold | hnew
    · exact h.producers p hold
    · rw [List.mem_singleton.mp hnew]
      rfl
  | producer k choice => cases hfree
  | wakeProducer k =>
    simp only [Pool.step] at hs
    split at hs
    · next p hp =>
      split_ifs at hs
      cases hs
      exact .of_set_producer _ k (by cases p <;> rfl)
    · cases hs
  | worker k choice =>
    simp only [Pool.step] at hs
    split at hs
    · exact .worker hdown (workerStep_effect hs)
    · cases hs
  | wakeWorker k =>
    simp only [Pool.step] at hs
    split at hs
    · next w hw =>
      split_ifs at hs
      cases hs
      exact .of_set k { w with pc := .woken false } rfl rfl rfl rfl rfl
    · cases hs
  | manager choice => exact .manager (managerStep_effect hs)
  | destroy => exact .destroy (destroyStep_effect hs)

/-! ## Sections -/

/-- What a step inside a section does once `shutdown` is set: it is harmless, and
    the section is still idle. -/
structure Idle (s : Pool τ) (r' : Race τ) : Prop where
  harmless : Harmless s r'.pool
  idle : ∀ h ∈ r'.holder, h.place.idle = true

/-- What a step at `place` does: `threadPoolDestory` stays where it is, and with
    `shutdown` set an idle section stays idle. -/
structure SectionStep (s : Pool τ) (place : Section) (r' : Race τ) : Prop where
  destroyer : r'.pool.destroyer = s.destroyer
  shutdown : r'.pool.pool.shutdown = s.pool.shutdown
  idle : s.pool.shutdown = true → place.idle = true → Idle s r'

theorem Idle.of_release {s s' : Pool τ} (h : Harmless s s') : Idle s ⟨s', none⟩ := ⟨h, nofun⟩

/-- The thread keeps the mutex and moves to an idle place. -/
theorem Idle.of_hold {s s' : Pool τ} {holder : Holder} (h : Harmless s s')
    (hidle : holder.place.idle = true) : Idle s ⟨s', some holder⟩ := by
  refine ⟨h, fun holder' hmem => ?_⟩
  cases hmem
  exact hidle

theorem enter_step (s : Pool τ) (k : ℕ) (w : Worker τ) : SectionStep s .testing (s.enter k w) := by
  unfold Pool.enter
  split
  · dsimp only
    split_ifs
    · exact ⟨rfl, rfl, fun _ _ => .of_release (.of_set k { w with pc := .exiting } rfl rfl rfl rfl rfl)⟩
    · exact ⟨rfl, rfl, fun _ _ => .of_hold (.of_eq rfl rfl rfl rfl) rfl⟩
    · exact ⟨rfl, rfl, fun _ _ => .of_hold (.of_eq rfl rfl rfl rfl) rfl⟩
  · exact ⟨rfl, rfl, fun _ _ => .of_hold (.of_eq rfl rfl rfl rfl) rfl⟩

/-- With `shutdown` set, the wait loop ends. -/
theorem testLoop_idle {stuck shutdown : Bool} (hdown : shutdown = true) :
    (testLoop stuck shutdown).idle = true := by
  simp [testLoop, hdown, Section.idle]

theorem testShutdown_idle {shutdown : Bool} (hdown : shutdown = true) :
    (testShutdown shutdown).idle = true := by
  simp [testShutdown, hdown, Section.idle]

theorem workerSection_step {s : Pool τ} {k choice : ℕ} {w : Worker τ} {place : Section} {r' : Race τ}
    (hs : s.workerSection k w choice place = some r') : SectionStep s place r' := by
  cases place with
  | testing =>
    cases hs
    exact ⟨rfl, rfl, fun hdown _ => .of_hold (.of_eq rfl rfl rfl rfl) (testLoop_idle hdown)⟩
  | waiting =>
    cases hs
    exact ⟨rfl, rfl, fun _ hidle => nomatch hidle⟩
  | deciding =>
    cases hs
    exact ⟨rfl, rfl, fun hdown _ => .of_hold (.of_eq rfl rfl rfl rfl) (testShutdown_idle hdown)⟩
  | leaving =>
    cases hs
    exact ⟨rfl, rfl, fun _ _ => .of_release (.of_set k { w with pc := .exiting } rfl rfl rfl rfl rfl)⟩
  | working =>
    obtain ⟨s', hs', rfl⟩ := Option.map_eq_some_iff.mp hs
    unfold Pool.takeTask at hs'
    split at hs'
    · cases hs'
      exact ⟨rfl, rfl, fun _ hidle => nomatch hidle⟩
    · cases hs'

theorem producerSection_step {s : Pool τ} {k choice : ℕ} {task : τ} {place : Section} {r' : Race τ}
    (hs : s.producerSection k task choice place = some r') : SectionStep s place r' := by
  cases place with
  | testing =>
    cases hs
    exact ⟨rfl, rfl, fun hdown _ => .of_hold (.of_eq rfl rfl rfl rfl) (testLoop_idle hdown)⟩
  | waiting =>
    cases hs
    exact ⟨rfl, rfl, fun _ hidle => nomatch hidle⟩
  | deciding =>
    cases hs
    exact ⟨rfl, rfl, fun hdown _ => .of_hold (.of_eq rfl rfl rfl rfl) (testShutdown_idle hdown)⟩
  | leaving =>
    cases hs
    exact ⟨rfl, rfl, fun _ _ => .of_release (.of_set_producer s k rfl)⟩
  | working =>
    obtain ⟨s', hs', rfl⟩ := Option.map_eq_some_iff.mp hs
    obtain ⟨workers, hsignal, rfl⟩ := Option.map_eq_some_iff.mp hs'
    exact ⟨rfl, rfl, fun _ hidle => nomatch hidle⟩

/-! ## The invariant -/

/-- Only `threadPoolDestory` moves the destroyer. -/
theorem Pool.destroyer_of_step {s s' : Pool τ} {a : Action τ} (hs : s.step a = some s') :
    s'.destroyer = s.destroyer ∨ a = .destroy := by
  cases Pool.step_effect hs with
  | worker hw heffect =>
    generalize Worker.pc _ = pc at heffect
    cases heffect <;> exact .inl rfl
  | wakes => exact .inl rfl
  | producer heffect => cases heffect <;> exact .inl rfl
  | manager heffect =>
    generalize s.manager = pc at heffect
    cases heffect <;> exact .inl rfl
  | destroy => exact .inr rfl

/-- The flag is up before the broadcasts; behind them nobody waits, and whoever
    holds the mutex leaves the queue alone. -/
structure ShutdownInv (r : Race τ) : Prop where
  flagged : r.pool.destroyer ≠ .notCalled → r.pool.pool.shutdown = true
  awake : r.pool.destroyer.broadcastDone = true → NoneAsleep r.pool
  idle : r.pool.destroyer.broadcastDone = true → ∀ h ∈ r.holder, h.place.idle = true

theorem shutdownInv_start (min max : ℕ) (taskqueue : List τ) :
    ShutdownInv (Race.start min max taskqueue) :=
  ⟨fun h => absurd rfl h, nofun, nofun⟩

theorem DestroyPc.ne_notCalled {pc : DestroyPc} (h : pc.broadcastDone = true) : pc ≠ .notCalled := by
  rintro rfl
  cases h

/-- Once the broadcasts are done they stay done, and the step is harmless. -/
def Settled (r r' : Race τ) : Prop :=
  r.pool.destroyer.broadcastDone = true →
    r'.pool.destroyer.broadcastDone = true ∧ Harmless r.pool r'.pool

section

variable {r r' : Race τ} (h : ShutdownInv r)
include h

/-- A step that leaves `threadPoolDestory` where it is. -/
theorem ShutdownInv.of_destroyer (hdestroyer : r'.pool.destroyer = r.pool.destroyer)
    (hshutdown : r.pool.pool.shutdown = true → r'.pool.pool.shutdown = true)
    (hidle : r.pool.pool.shutdown = true → (∀ h ∈ r.holder, h.place.idle = true) → Idle r.pool r') :
    ShutdownInv r' ∧ Settled r r' := by
  have hdone : r.pool.destroyer.broadcastDone = true → Idle r.pool r' := fun hdone =>
    hidle (h.flagged (DestroyPc.ne_notCalled hdone)) (h.idle hdone)
  refine ⟨⟨?_, ?_, ?_⟩, fun hbefore => ⟨by rw [hdestroyer]; exact hbefore, (hdone hbefore).harmless⟩⟩
  · rw [hdestroyer]
    exact fun hcalled => hshutdown (h.flagged hcalled)
  · rw [hdestroyer]
    exact fun hbefore => (hdone hbefore).harmless.awake (h.awake hbefore)
  · rw [hdestroyer]
    exact fun hbefore => (hdone hbefore).idle

theorem ShutdownInv.sectionStep {place : Section} (hstep : SectionStep r.pool place r')
    (hplace : (∀ h ∈ r.holder, h.place.idle = true) → place.idle = true) :
    ShutdownInv r' ∧ Settled r r' :=
  h.of_destroyer hstep.destroyer (fun hdown => hstep.shutdown.trans hdown)
    fun hdown hidle => hstep.idle hdown (hplace hidle)

/-- A step of `threadPoolDestory`. It broadcasts with the mutex, so that no other
    thread is between its test and its wait. -/
theorem ShutdownInv.destroy {s' : Pool τ} (hfree : r.unlocked .destroy = true)
    (heffect : DestroyEffect r.pool r.pool.destroyer s') :
    ShutdownInv { r with pool := s' } ∧ Settled r { r with pool := s' } := by
  have hharmless := Harmless.destroy heffect
  generalize hpc : r.pool.destroyer = pc at heffect
  have hflagged : pc ≠ .notCalled → r.pool.pool.shutdown = true := hpc ▸ h.flagged
  have hawake : pc.broadcastDone = true → NoneAsleep r.pool := hpc ▸ h.awake
  have hidle : pc.broadcastDone = true → ∀ h ∈ r.holder, h.place.idle = true := hpc ▸ h.idle
  cases heffect with
  | flags => exact ⟨⟨fun _ => rfl, nofun, nofun⟩, fun hdone => by rw [hpc] at hdone; cases hdone⟩
  | broadcasts =>
    have hnone : r.holder = none := by simpa [Race.unlocked, hpc] using hfree
    refine ⟨⟨fun _ => hflagged nofun, fun _ => noneAsleep_broadcast r.pool, fun _ holder hmem => ?_⟩,
      fun _ => ⟨rfl, hharmless⟩⟩
    rw [hnone] at hmem
    cases hmem
  | _ =>
    exact ⟨⟨fun _ => hflagged nofun, fun _ => hharmless.awake (hawake rfl), fun _ => hidle rfl⟩,
      fun _ => ⟨rfl, hharmless⟩⟩

theorem ShutdownInv.step {a : RaceAction τ} (hs : r.step a = some r') :
    ShutdownInv r' ∧ Settled r r' := by
  cases a with
  | other a =>
    simp only [Race.step] at hs
    split_ifs at hs with hfree
    obtain ⟨s', hs', rfl⟩ := Option.map_eq_some_iff.mp hs
    rcases Pool.destroyer_of_step hs' with hdestroyer | rfl
    · refine h.of_destroyer hdestroyer (fun hdown => ?_) fun hdown hidle =>
        ⟨.other hdown hfree hs', hidle⟩
      refine Bool.of_not_eq_false fun hrun => ?_
      rw [Pool.running_of_step hs' hrun] at hdown
      cases hdown
    · exact h.destroy hfree (destroyStep_effect hs')
  | lockWorker k =>
    simp only [Race.step] at hs
    split at hs
    · next w hnone hw =>
      split_ifs at hs
      cases hs
      exact h.sectionStep (enter_step r.pool k w) fun _ => rfl
    · cases hs
  | lockProducer k =>
    simp only [Race.step] at hs
    split at hs
    · cases hs
      exact h.of_destroyer rfl id fun _ _ => .of_hold (.of_eq rfl rfl rfl rfl) rfl
    · cases hs
  | inside choice =>
    simp only [Race.step] at hs
    split at hs
    · next k place hholder =>
      split at hs
      · exact h.sectionStep (workerSection_step hs) fun hidle => hidle _ hholder
      · cases hs
    · next k place hholder =>
      split at hs
      · exact h.sectionStep (producerSection_step hs) fun hidle => hidle _ hholder
      · cases hs
    · cases hs

end

/-! ## The theorem -/

/-- Behind the broadcasts, every further run leaves all threads awake and the
    queue alone. -/
theorem ShutdownInv.settled {r r' : Race τ} (h : ShutdownInv r)
    (hdone : r.pool.destroyer.broadcastDone = true) {bs : List (RaceAction τ)}
    (hbs : exec Race.step r bs = some r') :
    NoneAsleep r'.pool ∧ r'.pool.taken = r.pool.taken ∧ r'.pool.added = r.pool.added := by
  induction bs generalizing r with
  | nil =>
    cases hbs
    exact ⟨h.awake hdone, rfl, rfl⟩
  | cons b bs ih =>
    obtain ⟨r₁, hs, hrest⟩ := exec_cons_eq_some.mp hbs
    obtain ⟨hinv, hsettled⟩ := h.step hs
    obtain ⟨hdone', hharmless⟩ := hsettled hdone
    obtain ⟨hawake, htaken, hadded⟩ := ih hinv hdone' hrest
    exact ⟨hawake, htaken.trans hharmless.taken, hadded.trans hharmless.added⟩

/-- In every run of the pool: once `threadPoolDestory` has made its broadcasts,
    no worker waits on `notEmpty` and no producer on `notFull`, in that state and
    in every later one, and no task is taken from the queue or added to it. So
    the thread that `threadPoolDestory` joins does not wait. -/
theorem drained_after_broadcast {min max : ℕ} {taskqueue : List τ} {as bs : List (RaceAction τ)}
    {r r' : Race τ} (has : exec Race.step (.start min max taskqueue) as = some r)
    (hdone : r.pool.destroyer.broadcastDone = true) (hbs : exec Race.step r bs = some r') :
    NoneAsleep r'.pool ∧ r'.pool.taken = r.pool.taken ∧ r'.pool.added = r.pool.added := by
  have hinv : ShutdownInv r :=
    Reachable.inv (fun _ _ _ h hs => (h.step hs).1) (shutdownInv_start min max taskqueue) ⟨as, has⟩
  exact hinv.settled hdone hbs

/-- The manager has seen two tasks for one worker and is about to add threads.
    The worker has run both and has found the queue empty when `shutdown` is set:
    it still goes to sleep, and the broadcast finds it. -/
def lateFlag : List (RaceAction ℕ) :=
  let takes := .lockWorker 0 :: List.replicate 3 (.inside 0) ++ List.replicate 2 (.other (.worker 0 0))
  List.flatten
    [[.other (.call 7), .other (.call 8)],
      .lockProducer 0 :: List.replicate 3 (.inside 0), .lockProducer 1 :: List.replicate 3 (.inside 0),
      List.replicate 3 (.other (.manager 0)), takes, takes,
      [.lockWorker 0, .inside 0, .other .destroy, .inside 0, .other .destroy]]

/-- The manager adds a thread, and both workers and a late call leave. -/
def farewell : List (RaceAction ℕ) :=
  List.flatten
    [[.other (.manager 0), .other (.call 9)],
      .lockWorker 1 :: List.replicate 3 (.inside 0), .lockProducer 2 :: List.replicate 3 (.inside 0),
      .lockWorker 0 :: List.replicate 3 (.inside 0)]

example : (exec Race.step (.start 1 2 [0, 0]) (lateFlag ++ farewell)).map (fun r =>
    (r.pool.workers, r.pool.producers, r.holder.isNone, r.pool.taken, r.pool.added)) =
    some ([⟨1, .exiting⟩, ⟨2, .exiting⟩], [.returned, .returned, .returned], true, [7, 8], [7, 8]) := by
  decide +kernel

theorem drained_after_broadcast_lateFlag :
    ∃ r r', exec Race.step (.start 1 2 [0, 0]) lateFlag = some r ∧
      r.pool.destroyer.broadcastDone = true ∧ exec Race.step r farewell = some r' ∧
      NoneAsleep r'.pool ∧ r'.pool.taken = r.pool.taken ∧ r'.pool.added = r.pool.added := by
  have hbefore : (exec Race.step (.start 1 2 [0, 0]) lateFlag).map (fun r =>
      r.pool.destroyer.broadcastDone) = some true := by decide +kernel
  have hafter : (exec Race.step (.start 1 2 [0, 0]) (lateFlag ++ farewell)).isSome = true := by
    decide +kernel
  obtain ⟨r, hr, hdone⟩ := Option.map_eq_some_iff.mp hbefore
  rw [exec_append hr] at hafter
  obtain ⟨r', hr'⟩ := Option.isSome_iff_exists.mp hafter
  exact ⟨r, r', hr, hdone, hr', drained_after_broadcast hr hdone hr'⟩

end LinuxFileManager.ThreadPool
