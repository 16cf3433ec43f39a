import LinuxFileManager.Config.Settings
import LinuxFileManager.ThreadPool.Counters
import LinuxFileManager.ThreadPool.Queue

/-!
# The sizes of the server's pool

`gateway_server_menu` (`src/menu.c` lines 96–106) takes the sizes of its thread pool
from the settings, with defaults for numbers that are not positive.

Results:

* `poolMax_isInt_iff`: `pool_min + 1` overflows only for `thread_min` equal to
  `INT_MAX`.
* `pool_of_file`: otherwise, whatever `config.ini` holds, or when it cannot be read,
  the pool keeps the bounds of its counters and its queue in every run. `malloc` finds
  room for `taskqueue`, whose size is not bounded by the file and whose result
  `Thread_init` does not look at, and `pthread_create` succeeds.
-/

namespace LinuxFileManager.ThreadPool

open Lib Config

/-! ## Model -/

/-- `INT_MAX`. -/
def intMax : ℤ := 2 ^ 31 - 1

/-- `pool_min`. -/
def poolMin (config : GlobalConfig) : ℤ := if config.threadMin > 0 then config.threadMin else 2

/-- `pool_max`, without the wrap of an overflow. -/
def poolMax (config : GlobalConfig) : ℤ :=
  if config.threadMax > poolMin config then config.threadMax else poolMin config + 1

/-- `pool_queue`. -/
def poolQueue (config : GlobalConfig) : ℤ := if config.taskNum > 0 then config.taskNum else 100

/-- `Thread_init(pool_min, pool_max, pool_queue)`, where `taskqueue` is what `malloc` returns. -/
def serverPool {τ : Type} (config : GlobalConfig) (taskqueue : List τ) : Pool τ :=
  threadInit (poolMin config).toNat (poolMax config).toNat taskqueue

/-! ## Bounds -/

theorem elim_atoi_isInt (value : Option Bytes) : IsInt (value.elim 0 atoi) := by
  cases value with
  | none => exact ⟨by norm_num, by norm_num⟩
  | some value => exact isInt_atoi value

/-- The numbers of a loaded configuration are values of an `int`. -/
theorem configLoad_isInt (below : UInt8) (file : Option Bytes) :
    IsInt (configLoad below file).2.taskNum ∧ IsInt (configLoad below file).2.threadMax ∧
      IsInt (configLoad below file).2.threadMin := by
  obtain ⟨-, hshows⟩ := configLoad_fields below file
  rw [hshows.taskNum, hshows.threadMax, hshows.threadMin]
  exact ⟨elim_atoi_isInt _, elim_atoi_isInt _, elim_atoi_isInt _⟩

theorem poolMin_pos (config : GlobalConfig) : 1 ≤ poolMin config := by
  unfold poolMin
  split_ifs <;> omega

theorem poolMin_lt_poolMax (config : GlobalConfig) : poolMin config < poolMax config := by
  unfold poolMax
  split_ifs <;> omega

theorem poolQueue_pos (config : GlobalConfig) : 1 ≤ poolQueue config := by
  unfold poolQueue
  split_ifs <;> omega

/-- The addition overflows exactly when `thread_min` is `INT_MAX`. -/
theorem poolMax_isInt_iff (below : UInt8) (file : Option Bytes) :
    IsInt (poolMax (configLoad below file).2) ↔ (configLoad below file).2.threadMin ≠ intMax := by
  obtain ⟨-, ⟨hmaxlow, hmaxhigh⟩, ⟨hminlow, hminhigh⟩⟩ := configLoad_isInt below file
  generalize (configLoad below file).2 = config at *
  unfold IsInt poolMax poolMin intMax
  split_ifs <;> omega

/-! ## The pool -/

variable {τ : Type}

/-- Whatever the file holds, the pool of the server keeps its bounds, if there is room for
    `taskqueue`. -/
theorem pool_of_file (below : UInt8) (file : Option Bytes) {taskqueue : List τ}
    (hmin : (configLoad below file).2.threadMin ≠ intMax)
    (htasks : (taskqueue.length : ℤ) = poolQueue (configLoad below file).2) {s : Pool τ}
    (h : Reachable Pool.step (serverPool (configLoad below file).2 taskqueue) s) :
    IsInt (poolMax (configLoad below file).2) ∧ QueueOk s ∧
      (s.pool.shutdown = false → CountersOk s ∧ 1 ≤ s.pool.minNUM ∧ s.pool.minNUM < s.pool.maxNUM) := by
  have hqueue := poolQueue_pos (configLoad below file).2
  have hpos := poolMin_pos (configLoad below file).2
  have hlt := poolMin_lt_poolMax (configLoad below file).2
  refine ⟨(poolMax_isInt_iff below file).mpr hmin, ?_, fun hrun => ?_⟩
  · exact (h.inv (fun _ _ _ hinv => hinv.step) (queueInv_init _ _ (by omega))).queueOk
  · have hinv := h.inv (fun _ _ _ hinv => hinv.step) (countersInv_init (by omega) taskqueue)
    have hbounds := h.inv (J := fun s => s.pool.minNUM = (poolMin (configLoad below file).2).toNat ∧
        s.pool.maxNUM = (poolMax (configLoad below file).2).toNat)
      (fun s a s' hJ hs => by rwa [(Pool.step_bounds hs).1, (Pool.step_bounds hs).2]) ⟨rfl, rfl⟩
    exact ⟨hinv.countersOk hrun, by omega, by omega⟩

/-- A file with a queue of two and one thread: a task is added and taken. -/
theorem pool_of_file_small :
    ∃ s, exec Pool.step (serverPool (configLoad 0 (some (bytes
        "[thread_pool]\ntask_num=2\nthread_min = 1\nthread_max=x"))).2 [0, 0])
        [.call 7, .producer 0 0, .worker 0 0] = some s ∧ QueueOk s := by
  have hsome : (exec Pool.step (serverPool (configLoad 0 (some (bytes
      "[thread_pool]\ntask_num=2\nthread_min = 1\nthread_max=x"))).2 [0, 0])
      [.call 7, .producer 0 0, .worker 0 0]).isSome = true := by decide +kernel
  obtain ⟨s, hs⟩ := Option.isSome_iff_exists.mp hsome
  exact ⟨s, hs, (pool_of_file 0 _ (by decide +kernel) (by decide +kernel) ⟨_, hs⟩).2.1⟩

end LinuxFileManager.ThreadPool
