import LinuxFileManager.Lib.Condvar
import LinuxFileManager.Lib.System

/-!
# The thread pool

Model of `src/thread_pool.c`: the workers, the manager, any number of calls of
`threadPoolAdd`, and `threadPoolDestory`, as one transition system. A step is a
critical section, or the code between two of them that touches nothing shared.
`pthread_cond_wait` ends a critical section and puts the thread to sleep; a
signal wakes one sleeper, which one is part of the action, and is lost when
there is none. Sleepers may also wake up without a signal.

A task, the pair of `fuction` and `arg`, is a value of a type `τ`. The lists
`added`, `taken` and `started` are ghosts: what `threadPoolAdd` has put into
the queue, what workers have taken out of it, and the tasks whose function has
been called.
-/

namespace LinuxFileManager.ThreadPool

open Lib

/-! ## State -/

/-- `NUMBER`, the number of threads that the manager adds or ends at a time. -/
def number : ℕ := 2

/-- `struct Threadpool`, without the mutexes and condition variables. A thread
    is known by its `pthread_t`, and `0` in `threadIDs` is a free entry. -/
structure Threadpool (τ : Type) where
  taskqueue : List τ
  queueCapacity : ℕ
  queueSize : ℤ
  queueFront : ℕ
  queueRear : ℕ
  threadIDs : List ℕ
  minNUM : ℕ
  maxNUM : ℕ
  busyNUM : ℤ
  liveNUM : ℤ
  exitNUM : ℤ
  shutdown : Bool

/-- Where a thread that runs `worker` stands. -/
inductive WorkerPc (τ : Type) where
  /-- Before it takes the mutex at the head of its loop. -/
  | ready
  /-- In `pthread_cond_wait(&pool->notEmpty, ...)`. -/
  | asleep
  /-- Awake, before it has the mutex again; `signalled` if by a signal. -/
  | woken (signalled : Bool)
  /-- It has taken a task, before `busyNUM++`. -/
  | took (task : τ)
  /-- Behind `busyNUM++`, up to `busyNUM--`. -/
  | busy (task : τ)
  /-- In `threadexit`, before it has freed its entry. -/
  | exiting
  | exited
  deriving DecidableEq

structure Worker (τ : Type) where
  tid : ℕ
  pc : WorkerPc τ
  deriving DecidableEq

/-- Where a call of `threadPoolAdd` stands. -/
inductive Producer (τ : Type) where
  | calling (task : τ)
  /-- In `pthread_cond_wait(&pool->notFull, ...)`. -/
  | asleep (task : τ)
  | woken (task : τ)
  | returned
  deriving DecidableEq

/-- Where the manager stands; the arguments are its locals `queueSize`,
    `liveNum` and `busyNum`. -/
inductive ManagerPc where
  /-- At `while (!pool->shutdown)`. -/
  | top
  | sleeping
  /-- Between the two snapshots. -/
  | counted (queueSize liveNum : ℤ)
  /-- Before the test that adds threads. -/
  | adding (queueSize liveNum busyNum : ℤ)
  /-- Before the test that ends threads. -/
  | ending (liveNum busyNum : ℤ)
  /-- In the loop that signals `notEmpty`, with `n` signals to go. -/
  | signalling (n : ℕ)
  | exited
  deriving DecidableEq

/-- Where `threadPoolDestory` stands. -/
inductive DestroyPc where
  | notCalled
  /-- Behind `shutdown = 1`. -/
  | flagged
  /-- Behind the broadcasts, joining the manager. -/
  | joinManager
  /-- At the test of entry `i` of `threadIDs`. -/
  | joinSlot (i : ℕ)
  /-- Behind the test, which has found a thread, before entry `i` is read again. -/
  | joinEntry (i : ℕ)
  /-- In `pthread_join` on `0`: the thread has cleared its entry behind the test. -/
  | joinsZero
  /-- In `pthread_join` on the thread in entry `i`. -/
  | joinThread (i tid : ℕ)
  | destroyed
  deriving DecidableEq

/-- The pool and the threads that work on it. -/
structure Pool (τ : Type) where
  pool : Threadpool τ
  workers : List (Worker τ)
  producers : List (Producer τ)
  manager : ManagerPc
  destroyer : DestroyPc
  /-- The `pthread_t` of the next thread. -/
  nextTid : ℕ
  added : List τ
  taken : List τ
  started : List τ

variable {τ : Type}

/-- `Thread_init(min, max, queuesize)` (lines 128–174) with all allocations and
    `pthread_create` calls succeeding; `taskqueue` is what `malloc` returns. A
    manager that runs before the last worker is created finds no task and
    `liveNUM` at `minNUM`, so it does nothing. -/
def threadInit (min max : ℕ) (taskqueue : List τ) : Pool τ where
  pool := {
    taskqueue := taskqueue
    queueCapacity := taskqueue.length
    queueSize := 0
    queueFront := 0
    queueRear := 0
    threadIDs := List.range' 1 min ++ List.replicate (max - min) 0
    minNUM := min
    maxNUM := max
    busyNUM := 0
    liveNUM := min
    exitNUM := 0
    shutdown := false }
  workers := (List.range' 1 min).map fun tid => ⟨tid, .ready⟩
  producers := []
  manager := .top
  destroyer := .notCalled
  nextTid := min + 1
  added := []
  taken := []
  started := []

/-! ## Condition variables -/

/-- The worker waits on `notEmpty`. -/
def Worker.sleeps (w : Worker τ) : Bool :=
  match w.pc with
  | .asleep => true
  | _ => false

/-- The worker has been signalled and has not looked at the queue since. -/
def Worker.signalled (w : Worker τ) : Bool :=
  match w.pc with
  | .woken signalled => signalled
  | _ => false

def Worker.wake (signalled : Bool) (w : Worker τ) : Worker τ := { w with pc := .woken signalled }

/-- The producer waits on `notFull`. -/
def Producer.sleeps : Producer τ → Bool
  | .asleep _ => true
  | _ => false

def Producer.wake : Producer τ → Producer τ
  | .asleep task => .woken task
  | p => p

/-- `pthread_cond_signal(&pool->notEmpty)`. -/
def signalNotEmpty (workers : List (Worker τ)) (choice : ℕ) : Option (List (Worker τ)) :=
  signal Worker.sleeps (Worker.wake true) workers choice

/-- `pthread_cond_signal(&pool->notFull)`. -/
def signalNotFull (producers : List (Producer τ)) (choice : ℕ) : Option (List (Producer τ)) :=
  signal Producer.sleeps Producer.wake producers choice

/-! ## Workers -/

def Pool.setWorker (s : Pool τ) (k : ℕ) (w : Worker τ) (pc : WorkerPc τ) : Pool τ :=
  { s with workers := s.workers.set k { w with pc := pc } }

/-- The test of the wait loop and what follows it in the critical section
    (lines 68 and 80–90). `choice` is the producer that the signal wakes. -/
def Pool.look (s : Pool τ) (k : ℕ) (w : Worker τ) (choice : ℕ) : Option (Pool τ) :=
  if s.pool.queueSize = 0 ∧ s.pool.shutdown = false then some (s.setWorker k w .asleep)
  else if s.pool.shutdown then some (s.setWorker k w .exiting)
  else
    match s.pool.taskqueue[s.pool.queueFront]?, signalNotFull s.producers choice with
    | some task, some producers =>
      some { s.setWorker k w (.took task) with
        pool := { s.pool with
          queueFront := (s.pool.queueFront + 1) % s.pool.queueCapacity
          queueSize := s.pool.queueSize - 1 }
        producers := producers
        taken := s.taken ++ [task] }
    | _, _ => none

/-- The loop in `threadexit` (lines 11–17): free the entry of the thread. -/
def clearEntry (tid : ℕ) : List ℕ → List ℕ
  | [] => []
  | entry :: rest => if entry = tid then 0 :: rest else entry :: clearEntry tid rest

/-- `worker` (lines 64–107). -/
def Pool.workerStep (s : Pool τ) (k : ℕ) (w : Worker τ) (choice : ℕ) : Option (Pool τ) :=
  match w.pc with
  | .ready => s.look k w choice
  | .asleep => none
  | .woken _ =>
    if s.pool.exitNUM > 0 then
      let s := { s with pool := { s.pool with exitNUM := s.pool.exitNUM - 1 } }
      if s.pool.liveNUM > s.pool.minNUM then
        some ({ s with pool := { s.pool with liveNUM := s.pool.liveNUM - 1 } }.setWorker k w .exiting)
      else s.look k w choice
    else s.look k w choice
  | .took task =>
    some ({ s with
      pool := { s.pool with busyNUM := s.pool.busyNUM + 1 }
      started := s.started ++ [task] }.setWorker k w (.busy task))
  | .busy _ =>
    some ({ s with pool := { s.pool with busyNUM := s.pool.busyNUM - 1 } }.setWorker k w .ready)
  | .exiting =>
    some ({ s with pool := { s.pool with threadIDs := clearEntry w.tid s.pool.threadIDs } }.setWorker k w
      .exited)
  | .exited => none

/-! ## Producers -/

/-- `threadPoolAdd` (lines 109–126). `choice` is the worker that the signal
    wakes. -/
def Pool.addTask (s : Pool τ) (k : ℕ) (task : τ) (choice : ℕ) : Option (Pool τ) :=
  if s.pool.queueSize = s.pool.queueCapacity ∧ s.pool.shutdown = false then
    some { s with producers := s.producers.set k (.asleep task) }
  else if s.pool.shutdown then some { s with producers := s.producers.set k .returned }
  else
    (signalNotEmpty s.workers choice).map fun workers =>
      { s with
        pool := { s.pool with
          taskqueue := s.pool.taskqueue.set s.pool.queueRear task
          queueRear := (s.pool.queueRear + 1) % s.pool.queueCapacity
          queueSize := s.pool.queueSize + 1 }
        workers := workers
        producers := s.producers.set k .returned
        added := s.added ++ [task] }

def Pool.producerStep (s : Pool τ) (k : ℕ) (choice : ℕ) : Producer τ → Option (Pool τ)
  | .calling task | .woken task => s.addTask k task choice
  | .asleep _ | .returned => none

/-! ## The manager -/

/-- The loop over the entries (lines 38–46), which creates at most `room`
    threads, numbered from `tid`: the entries after it and the new threads. -/
def createThreads : List ℕ → ℕ → ℕ → List ℕ × List ℕ
  | [], _, _ => ([], [])
  | entries, 0, _ => (entries, [])
  | entry :: rest, room + 1, tid =>
    if entry = 0 then
      let (rest, new) := createThreads rest room (tid + 1)
      (tid :: rest, tid :: new)
    else
      let (rest, new) := createThreads rest (room + 1) tid
      (entry :: rest, new)

/-- `manager` (lines 21–62). The loop tests `liveNum<pool->maxNUM` again at every
    entry, but on the local, which does not change. -/
def Pool.managerStep (s : Pool τ) (choice : ℕ) : Option (Pool τ) :=
  match s.manager with
  | .top => some { s with manager := if s.pool.shutdown then .exited else .sleeping }
  | .sleeping => some { s with manager := .counted s.pool.queueSize s.pool.liveNUM }
  | .counted queueSize liveNum => some { s with manager := .adding queueSize liveNum s.pool.busyNUM }
  | .adding queueSize liveNum busyNum =>
    if queueSize > liveNum - busyNum ∧ liveNum < s.pool.maxNUM then
      let (entries, new) := createThreads s.pool.threadIDs number s.nextTid
      some { s with
        pool := { s.pool with threadIDs := entries, liveNUM := s.pool.liveNUM + new.length }
        workers := s.workers ++ new.map fun tid => ⟨tid, .ready⟩
        manager := .ending liveNum busyNum
        nextTid := s.nextTid + new.length }
    else some { s with manager := .ending liveNum busyNum }
  | .ending liveNum busyNum =>
    if busyNum * 2 < liveNum ∧ liveNum > s.pool.minNUM then
      some { s with
        pool := { s.pool with exitNUM := number }
        manager := .signalling number }
    else some { s with manager := .top }
  | .signalling 0 => some { s with manager := .top }
  | .signalling (n + 1) =>
    (signalNotEmpty s.workers choice).map fun workers =>
      { s with workers := workers, manager := .signalling n }
  | .exited => none

/-! ## `threadPoolDestory` -/

/-- The thread `tid` has ended. -/
def Pool.ended (s : Pool τ) (tid : ℕ) : Bool :=
  s.workers.all fun w =>
    match w.pc with
    | .exited => true
    | _ => w.tid != tid

/-- `threadPoolDestory` (lines 190–229). It reads an entry twice without the mutex, for the
    test and for `pthread_join`. What `pthread_join` does with `0` is not defined; it
    makes no further step here. -/
def Pool.destroyStep (s : Pool τ) : Option (Pool τ) :=
  match s.destroyer with
  | .notCalled => some { s with pool := { s.pool with shutdown := true }, destroyer := .flagged }
  | .flagged =>
    some { s with
      workers := broadcast Worker.sleeps (Worker.wake true) s.workers
      producers := broadcast Producer.sleeps Producer.wake s.producers
      destroyer := .joinManager }
  | .joinManager =>
    match s.manager with
    | .exited => some { s with destroyer := .joinSlot 0 }
    | _ => none
  | .joinSlot i =>
    match s.pool.threadIDs[i]? with
    | none => some { s with destroyer := .destroyed }
    | some 0 => some { s with destroyer := .joinSlot (i + 1) }
    | some _ => some { s with destroyer := .joinEntry i }
  | .joinEntry i =>
    match s.pool.threadIDs.getD i 0 with
    | 0 => some { s with destroyer := .joinsZero }
    | tid => some { s with destroyer := .joinThread i tid }
  | .joinThread i tid =>
    if s.ended tid then
      some { s with
        pool := { s.pool with threadIDs := s.pool.threadIDs.set i 0 }
        destroyer := .joinSlot (i + 1) }
    else none
  | .joinsZero | .destroyed => none

/-! ## The system -/

inductive Action (τ : Type) where
  | worker (k choice : ℕ)
  /-- A worker wakes up without a signal. -/
  | wakeWorker (k : ℕ)
  /-- A thread calls `threadPoolAdd`. -/
  | call (task : τ)
  | producer (k choice : ℕ)
  /-- A producer wakes up without a signal. -/
  | wakeProducer (k : ℕ)
  | manager (choice : ℕ)
  | destroy

def Pool.step (s : Pool τ) : Action τ → Option (Pool τ)
  | .worker k choice =>
    match s.workers[k]? with
    | some w => s.workerStep k w choice
    | none => none
  | .wakeWorker k =>
    match s.workers[k]? with
    | some w => if w.sleeps then some (s.setWorker k w (.woken false)) else none
    | none => none
  | .call task => some { s with producers := s.producers ++ [.calling task] }
  | .producer k choice =>
    match s.producers[k]? with
    | some p => s.producerStep k choice p
    | none => none
  | .wakeProducer k =>
    match s.producers[k]? with
    | some p => if p.sleeps then some { s with producers := s.producers.set k p.wake } else none
    | none => none
  | .manager choice => s.managerStep choice
  | .destroy => s.destroyStep

end LinuxFileManager.ThreadPool
