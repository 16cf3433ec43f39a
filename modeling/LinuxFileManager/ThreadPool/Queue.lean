import LinuxFileManager.Lib.Ring
import LinuxFileManager.ThreadPool.Entries

/-!
# The task queue

The ring buffer of the pool is a FIFO queue under every interleaving of
producers and workers, through wrap-around, blocking and shutdown
(`queue_fifo`): the tasks taken so far, followed by the contents of the
buffer, are the tasks added so far. When the pool is destroyed, the tasks that
were never started are those in the buffer.
-/

namespace LinuxFileManager.ThreadPool

open Lib

variable {τ : Type}

/-! ## The property -/

/-- The tasks in the ring buffer. -/
def Pool.queued (s : Pool τ) : List τ :=
  ringContents s.pool.taskqueue s.pool.queueFront s.pool.queueSize.toNat

/-- The ring buffer is well formed and behaves as a queue. -/
structure QueueOk (s : Pool τ) : Prop where
  size : 0 ≤ s.pool.queueSize ∧ s.pool.queueSize ≤ s.pool.queueCapacity
  front : s.pool.queueFront < s.pool.queueCapacity
  rear : s.pool.queueRear < s.pool.queueCapacity ∧
    (s.pool.queueRear : ℤ) = (s.pool.queueFront + s.pool.queueSize) % s.pool.queueCapacity
  fifo : s.added = s.taken ++ s.queued
  destroyed : s.destroyer = .destroyed →
    (s.added : Multiset τ) = (s.started : Multiset τ) + (s.queued : Multiset τ)

/-! ## The invariant -/

/-- The task that a worker has taken and not started yet. -/
def Worker.pending (w : Worker τ) : Option τ :=
  match w.pc with
  | .took task => some task
  | _ => none

/-- The buffer with `size` tasks in it. -/
structure RingInv (s : Pool τ) (size : ℕ) : Prop where
  queueSize : s.pool.queueSize = size
  capacity : s.pool.taskqueue.length = s.pool.queueCapacity
  size_le : size ≤ s.pool.queueCapacity
  front : s.pool.queueFront < s.pool.queueCapacity
  rear : s.pool.queueRear = (s.pool.queueFront + size) % s.pool.queueCapacity
  fifo : s.added = s.taken ++ ringContents s.pool.taskqueue s.pool.queueFront size

structure QueueInv (s : Pool τ) : Prop where
  ring : ∃ size, RingInv s size
  /-- Every task taken has been started or is with a worker that is about to
      start it. -/
  pending : s.taken.Perm (s.started ++ s.workers.filterMap Worker.pending)
  entries : EntriesInv s

theorem filterMap_pending_new (tids : List ℕ) :
    (tids.map fun tid => (⟨tid, .ready⟩ : Worker τ)).filterMap Worker.pending = [] := by
  rw [List.filterMap_map]
  exact List.filterMap_eq_nil_iff.mpr fun _ _ => rfl

theorem queueInv_init (min max : ℕ) {taskqueue : List τ} (h : 1 ≤ taskqueue.length) :
    QueueInv (threadInit min max taskqueue) := by
  refine ⟨⟨0, rfl, rfl, Nat.zero_le _, h, ?_, rfl⟩, ?_, entriesInv_init min max taskqueue⟩
  · show 0 = (0 + 0) % taskqueue.length
    rw [Nat.zero_mod]
  · simp only [threadInit]
    rw [filterMap_pending_new, List.append_nil]

theorem Worker.pending_of_looking {w : Worker τ} (h : w.pc.looking = true) : w.pending = none := by
  unfold WorkerPc.looking at h
  unfold Worker.pending
  split at h <;> simp_all

theorem Worker.pending_wake {w : Worker τ} (h : w.sleeps = true) (signalled : Bool) :
    (w.wake signalled).pending = w.pending := by
  simp [Worker.pending, Worker.wake, Worker.pc_of_sleeps h]

section

variable {s : Pool τ} {size : ℕ} (h : RingInv s size)
include h

/-- `threadPoolAdd` appends a task to the queue. -/
theorem RingInv.push (hsize : s.pool.queueSize ≠ s.pool.queueCapacity) (task : τ)
    (workers : List (Worker τ)) (producers : List (Producer τ)) :
    RingInv { s with
      pool := { s.pool with
        taskqueue := s.pool.taskqueue.set s.pool.queueRear task
        queueRear := (s.pool.queueRear + 1) % s.pool.queueCapacity
        queueSize := s.pool.queueSize + 1 }
      workers := workers
      producers := producers
      added := s.added ++ [task] } (size + 1) := by
  have hlt : size < s.pool.queueCapacity := by
    have hle := h.size_le
    have hq := h.queueSize
    omega
  refine ⟨?_, ?_, hlt, h.front, ?_, ?_⟩
  · show s.pool.queueSize + 1 = ((size + 1 : ℕ) : ℤ)
    rw [h.queueSize]
    rfl
  · rw [← h.capacity]
    exact List.length_set
  · show (s.pool.queueRear + 1) % s.pool.queueCapacity =
      (s.pool.queueFront + (size + 1)) % s.pool.queueCapacity
    rw [h.rear, Nat.mod_add_mod, Nat.add_assoc]
  · show s.added ++ [task] = s.taken ++
      ringContents (s.pool.taskqueue.set s.pool.queueRear task) s.pool.queueFront (size + 1)
    rw [h.rear, ← h.capacity, ringContents_push task (by rw [h.capacity]; exact hlt), h.fifo,
      List.append_assoc]

/-- A worker takes the head of the queue. -/
theorem RingInv.pop (hsize : s.pool.queueSize ≠ 0) {task : τ}
    (htask : s.pool.taskqueue[s.pool.queueFront]? = some task) (exitNUM : ℤ)
    (workers : List (Worker τ)) (producers : List (Producer τ)) :
    RingInv { s with
      pool := { s.pool with
        queueFront := (s.pool.queueFront + 1) % s.pool.queueCapacity
        queueSize := s.pool.queueSize - 1
        exitNUM := exitNUM }
      workers := workers
      producers := producers
      taken := s.taken ++ [task] } (size - 1) := by
  have hpos : 0 < size := by
    have hq := h.queueSize
    omega
  have hle := h.size_le
  have hcap : 0 < s.pool.queueCapacity := by omega
  obtain ⟨n, rfl⟩ : ∃ n, size = n + 1 := ⟨size - 1, by omega⟩
  rw [Nat.add_sub_cancel]
  refine ⟨?_, h.capacity, Nat.le_of_succ_le hle, Nat.mod_lt _ hcap, ?_, ?_⟩
  · show s.pool.queueSize - 1 = (n : ℤ)
    rw [h.queueSize, Nat.cast_succ, add_sub_cancel_right]
  · show s.pool.queueRear = ((s.pool.queueFront + 1) % s.pool.queueCapacity + n) % s.pool.queueCapacity
    rw [h.rear, Nat.mod_add_mod, Nat.add_assoc, Nat.add_comm 1]
  · show s.added = s.taken ++ [task] ++
      ringContents s.pool.taskqueue ((s.pool.queueFront + 1) % s.pool.queueCapacity) n
    obtain ⟨hlt, heq⟩ := List.getElem?_eq_some_iff.mp htask
    rw [h.fifo, ringContents_pop hlt (by rw [h.capacity]; exact hle), heq, h.capacity,
      List.append_assoc, List.singleton_append]

end

section

variable {s : Pool τ} (h : QueueInv s)
include h

theorem QueueInv.worker {k : ℕ} {w : Worker τ} {s' : Pool τ} (hw : s.workers[k]? = some w)
    (heffect : WorkerEffect s k w w.pc s') : QueueInv s' := by
  have hentries := h.entries.worker hw heffect
  generalize hpc : w.pc = pc at heffect
  obtain ⟨size, hring⟩ := h.ring
  have hkeep : ∀ pc' : WorkerPc τ, ({ w with pc := pc' } : Worker τ).pending = w.pending →
      s.taken.Perm (s.started ++ (s.workers.set k { w with pc := pc' }).filterMap Worker.pending) :=
    fun pc' heq => h.pending.trans ((filterMap_set_perm hw heq).symm.append_left _)
  have hlooks : pc.looking = true → none = w.pending := by
    intro hlook
    exact (Worker.pending_of_looking (hpc ▸ hlook)).symm
  cases heffect with
  | sleeps e hlook hrun hempty =>
    exact ⟨⟨size, { hring with }⟩, hkeep _ (hlooks hlook), hentries⟩
  | leaves e hlook hdown =>
    exact ⟨⟨size, { hring with }⟩, hkeep _ (hlooks hlook), hentries⟩
  | exits signalled hexit hlive =>
    exact ⟨⟨size, { hring with }⟩, hkeep _ (by simp [Worker.pending, hpc]), hentries⟩
  | finishes task =>
    exact ⟨⟨size, { hring with }⟩, hkeep _ (by simp [Worker.pending, hpc]), hentries⟩
  | clears => exact ⟨⟨size, { hring with }⟩, hkeep _ (by simp [Worker.pending, hpc]), hentries⟩
  | takes e task producers hlook hrun hsize htask =>
    refine ⟨⟨size - 1, hring.pop hsize htask e _ producers⟩, ?_, hentries⟩
    obtain ⟨rest, hperm, hset⟩ := exists_perm_set hw
    have hbefore : (s.workers.filterMap Worker.pending).Perm (rest.filterMap Worker.pending) := by
      refine (hperm.filterMap _).trans ?_
      rw [List.filterMap_cons_none (hlooks hlook).symm]
    have hafter := (hset { w with pc := .took task }).filterMap Worker.pending
    rw [List.filterMap_cons_some (show Worker.pending _ = some task from rfl)] at hafter
    show (s.taken ++ [task]).Perm (s.started ++ _)
    refine (h.pending.append_right [task]).trans ?_
    rw [List.append_assoc]
    refine List.Perm.append_left _ (.trans ?_ hafter.symm)
    exact (hbefore.append_right [task]).trans (List.perm_append_singleton _ _)
  | starts task =>
    refine ⟨⟨size, { hring with }⟩, ?_, hentries⟩
    obtain ⟨rest, hperm, hset⟩ := exists_perm_set hw
    have hbefore := hperm.filterMap Worker.pending
    rw [List.filterMap_cons_some (show w.pending = some task by simp [Worker.pending, hpc])] at hbefore
    have hafter := (hset { w with pc := .busy task }).filterMap Worker.pending
    rw [List.filterMap_cons_none (show Worker.pending _ = none from rfl)] at hafter
    show s.taken.Perm (s.started ++ [task] ++ _)
    refine h.pending.trans ?_
    rw [List.append_assoc, List.singleton_append]
    exact List.Perm.append_left _ (hbefore.trans (hafter.symm.cons task))

theorem QueueInv.step {a : Action τ} {s' : Pool τ} (hs : s.step a = some s') : QueueInv s' := by
  have hentries := h.entries.step hs
  obtain ⟨size, hring⟩ := h.ring
  have hsignal : ∀ {choice workers}, signalNotEmpty s.workers choice = some workers →
      s.taken.Perm (s.started ++ workers.filterMap Worker.pending) := by
    intro choice workers hsignal
    rw [filterMap_eq_of_map_eq (map_signal (fun w hw => Worker.pending_wake hw true) hsignal)]
    exact h.pending
  cases Pool.step_effect hs with
  | worker hw heffect => exact h.worker hw heffect
  | wakes hw hsleeps =>
    refine ⟨⟨size, { hring with }⟩, ?_, hentries⟩
    exact h.pending.trans
      ((filterMap_set_perm hw (Worker.pending_wake hsleeps false)).symm.append_left _)
  | producer heffect =>
    cases heffect with
    | quiet producers => exact ⟨⟨size, { hring with }⟩, h.pending, hentries⟩
    | adds task choice workers producers hrun hsize hsig =>
      exact ⟨⟨size + 1, hring.push hsize task workers producers⟩, hsignal hsig, hentries⟩
  | manager heffect =>
    generalize s.manager = pc at heffect
    cases heffect with
    | signals n choice workers hsig => exact ⟨⟨size, { hring with }⟩, hsignal hsig, hentries⟩
    | @creates q l b entries new hlive hcreate =>
      refine ⟨⟨size, { hring with }⟩, ?_, hentries⟩
      show s.taken.Perm (s.started ++
        (s.workers ++ new.map fun tid => (⟨tid, .ready⟩ : Worker τ)).filterMap Worker.pending)
      rw [List.filterMap_append, filterMap_pending_new, List.append_nil]
      exact h.pending
    | _ => exact ⟨⟨size, { hring with }⟩, h.pending, hentries⟩
  | destroy heffect =>
    generalize s.destroyer = pc at heffect
    cases heffect with
    | broadcasts =>
      refine ⟨⟨size, { hring with }⟩, ?_, hentries⟩
      show s.taken.Perm (s.started ++
        (broadcast Worker.sleeps (Worker.wake true) s.workers).filterMap Worker.pending)
      rw [filterMap_eq_of_map_eq (map_broadcast (fun w hw => Worker.pending_wake hw true) s.workers)]
      exact h.pending
    | _ => exact ⟨⟨size, { hring with }⟩, h.pending, hentries⟩

theorem QueueInv.queueOk : QueueOk s := by
  obtain ⟨size, hring⟩ := h.ring
  have hsize := hring.queueSize
  have hle := hring.size_le
  have hqueued : s.queued = ringContents s.pool.taskqueue s.pool.queueFront size := by
    rw [Pool.queued, hsize, Int.toNat_natCast]
  refine ⟨⟨by omega, by omega⟩, hring.front, ⟨?_, ?_⟩, by rw [hqueued, hring.fifo], fun hd => ?_⟩
  · rw [hring.rear]
    exact Nat.mod_lt _ (Nat.zero_lt_of_lt hring.front)
  · rw [hring.rear, hsize]
    push_cast
    rfl
  · -- all workers have ended, so no task taken is still to be started
    have hnone : s.workers.filterMap Worker.pending = [] := by
      rw [List.filterMap_eq_nil_iff]
      intro w hw
      simp [Worker.pending, h.entries.exited_of_destroyed hd w hw]
    have htaken := h.pending
    rw [hnone, List.append_nil] at htaken
    rw [hring.fifo, ← hqueued, ← Multiset.coe_add, Multiset.coe_eq_coe.mpr htaken]

end

/-- In every reachable state the ring buffer is well formed, workers have taken
    a prefix of the tasks added, and the rest is in the buffer; when the pool is
    destroyed, the tasks never started are those in the buffer. -/
theorem queue_fifo {min max : ℕ} {taskqueue : List τ} (hcapacity : 1 ≤ taskqueue.length) {s : Pool τ}
    (h : Reachable Pool.step (threadInit min max taskqueue) s) : QueueOk s :=
  (h.inv (fun _ _ _ hinv => hinv.step) (queueInv_init min max hcapacity)).queueOk

/-- Two tasks are added to a queue of two slots, one worker runs them, and the pool is destroyed. -/
def twoTasks : List (Action ℕ) :=
  [.call 7, .producer 0 0, .call 8, .producer 1 0, .worker 0 0, .worker 0 0, .worker 0 0, .worker 0 0,
    .worker 0 0, .worker 0 0, .destroy, .destroy, .manager 0, .destroy, .worker 0 0, .worker 0 0, .destroy,
    .destroy, .destroy]

theorem queue_fifo_twoTasks :
    ∃ s, exec Pool.step (threadInit 1 2 [0, 0]) twoTasks = some s ∧ QueueOk s := by
  have hsome : (exec Pool.step (threadInit 1 2 [0, 0]) twoTasks).isSome = true := by decide
  obtain ⟨s, hs⟩ := Option.isSome_iff_exists.mp hsome
  exact ⟨s, hs, queue_fifo (by decide) ⟨twoTasks, hs⟩⟩

end LinuxFileManager.ThreadPool
