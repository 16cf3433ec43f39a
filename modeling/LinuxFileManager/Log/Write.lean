import LinuxFileManager.Lib.Ascii
import LinuxFileManager.Lib.FileSystem

/-!
# `log_write`

Model of `log_write` (`src/log.c` lines 126–235), the last thing that an operation of
`file_manager.c` does: one line at the end of the file that `log_fd` is open for. That
file may be one of those that the operation works on.

`log_fd` is open with `O_APPEND`, or is `-1`. What the system says about the time and
the caller, and how much of the line `write` takes, is an argument (`LogCall`); the
result of `write` is not looked at.

Results:

* `contentAt_logWrite`: the contents by name after the call.
* `loggedTo_of_ne`: a file that is not the log stays as it is.
-/

namespace LinuxFileManager.Log

open Lib

/-- `sizeof(buffer)`. -/
def logBufferSize : ℕ := 1024

/-- The file that `log_fd` is open for; `none` when `log_fd` is `-1`. -/
structure LogFd {Path : Type} (fs : FileSystem Path) where
  inode : Option ℕ
  inode_lt : ∀ i ∈ inode, i < fs.nextInode

/-- What one call of `log_write` gets from the system. -/
structure LogCall where
  /-- `time_str`. -/
  time : Bytes
  pid : Int32
  /-- `pthread_self()`. -/
  tid : UInt64
  write : WriteOutcome

/-- `snprintf(buffer, sizeof(buffer), "[%s][%s][PID:%d][TID:%lu]%s\n", ...)`. -/
def logLine (call : LogCall) (level msg : String) : Bytes :=
  (bytes "[" ++ call.time ++ bytes "][" ++ bytes level ++ bytes "][PID:" ++ decimal call.pid.toInt ++
    bytes "][TID:" ++ decimal call.tid.toNat ++ bytes "]" ++ bytes msg ++ bytes "\n").take
      (logBufferSize - 1)

/-- What the call of `write` takes of the line. -/
def logged (call : LogCall) (level msg : String) : Bytes :=
  let buffer := logLine call level msg
  match call.write.accepted buffer.length with
  | none => []
  | some n => buffer.take n

section

variable {Path : Type}

/-- `log_write` (`src/log.c` lines 126–235). -/
def logWrite (logFd : Option ℕ) (call : LogCall) (level msg : String) (fs : FileSystem Path) :
    FileSystem Path :=
  match logFd with
  | none => fs
  | some i => fs.appendTo i (logged call level msg)

/-- The bytes that a call adds to the file with a name: none, unless it is the log. -/
def loggedTo (logFd : Option ℕ) (call : LogCall) (level msg : String) (fs : FileSystem Path) (p : Path) :
    Bytes :=
  if ∃ i, fs.names p = some i ∧ logFd = some i then logged call level msg else []

variable {logFd : Option ℕ} {call : LogCall} {level msg : String} {fs : FileSystem Path} {p : Path}

@[simp] theorem names_logWrite : (logWrite logFd call level msg fs).names = fs.names := by
  cases logFd <;> rfl

/-- A file that is not the log stays as it is. -/
theorem loggedTo_of_ne (h : ∀ i, fs.names p = some i → logFd ≠ some i) :
    loggedTo logFd call level msg fs p = [] :=
  if_neg fun ⟨i, hi, heq⟩ => h i hi heq

theorem loggedTo_congr {fs' : FileSystem Path} {q : Path} (h : fs'.names q = fs.names p) :
    loggedTo logFd call level msg fs' q = loggedTo logFd call level msg fs p := by
  rw [loggedTo, loggedTo, h]

/-- The contents by name after a call. -/
theorem contentAt_logWrite : (logWrite logFd call level msg fs).contentAt p =
    (fs.contentAt p).map (· ++ loggedTo logFd call level msg fs p) := by
  rcases fs.contentAt_cases p with ⟨hname, hnone⟩ | ⟨i, hname, hsome⟩
  · rw [hnone, FileSystem.contentAt, names_logWrite, hname]
    rfl
  · rw [hsome, FileSystem.contentAt, names_logWrite, hname, Option.map_some, Option.map_some,
      Option.some.injEq]
    cases logFd with
    | none =>
      rw [loggedTo_of_ne fun i _ => (Option.some_ne_none i).symm, List.append_nil]
      rfl
    | some j =>
      by_cases hij : i = j
      · subst hij
        rw [loggedTo, if_pos ⟨i, hname, rfl⟩]
        exact FileSystem.content_appendTo_self i _
      · have hother : ∀ k, fs.names p = some k → some j ≠ some k := by
          intro k hk heq
          rw [hname] at hk
          exact hij (Option.some.inj (hk.trans heq.symm))
        rw [loggedTo_of_ne hother, List.append_nil]
        exact FileSystem.content_appendTo_of_ne hij _

end

end LinuxFileManager.Log
