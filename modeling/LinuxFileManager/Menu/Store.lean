import LinuxFileManager.FileManager.Files
import LinuxFileManager.Menu.Script

/-!
# A session and its files

The session of `Menu.Session` together with the files that its operations work on. What
the kernel answers in a pass is part of the step. The files are compared with a `Store`,
the contents by place, where `place` says which place a path leads to. To begin with no
file is at two places (`Distinct`).

The log is one of the files: `log_fd` is open for it, and every operation appends its line
to it. The store is compared without the log (`hide`), in the sessions in which no operation
on files names it (`Avoids`). The event log of the gateway is not among the files.

Results:

* `session_refines_store`: in every session, with whatever answers, every operation does to
  the store what it is for, or a first part of it, or nothing when it fails.
* `session_frame`: a file that no operation names keeps its content, if it is not the log.
* `session_store_script`: with a kernel that does all it is asked for, a typed script leaves
  the store, and gives the replies, that its commands stand for.
-/

namespace LinuxFileManager.Menu

open Lib FileManager
open Log (LogCall logWrite loggedTo_of_ne contentAt_logWrite names_logWrite)

/-! ## Model -/

/-- What the kernel answers in one pass. -/
structure Answers where
  start : ServerStart
  /-- `open`, `unlink` and `stat`, where there is a file or one may be created. -/
  mayOpen : Bool
  read : ReadOutcome
  write : WriteOutcome
  copy : CopyCalls
  /-- What `dir_path` happens to hold. -/
  dirPath : Buffer UInt8 dirPathSize
  /-- What `log_write` gets for the line of the pass. -/
  note : LogCall
  /-- The calls of `log_write` in an operation that is not on a file: level and text. -/
  elsewhere : List (LogCall × String × String)

/-- What an operation comes back with. -/
inductive Reply where
  | ok
  | failed (log : String)
  | content (bytes : Bytes)
  | size (n : ℕ)
  /-- It is no operation on a file. -/
  | elsewhere
  deriving DecidableEq

def replyOf {E A : Type} (log : E → String) (reply : A → Reply) : Except E A → Reply
  | .ok a => reply a
  | .error e => .failed (log e)

/-- The text that is logged when the operation succeeds. -/
def Operation.success : Operation → Option String
  | .fmCreate _ => some "create file success"
  | .fmDelete _ => some "delete file success"
  | .fmWrite _ _ => some "write file success"
  | .fmRead _ => some "read file success"
  | .fmCopy _ _ => some "copy file success"
  | .fmInfo _ => some "success file information"
  | _ => none

/-- The calls of `log_write` in an operation with this reply. -/
def Answers.logCalls (k : Answers) (op : Operation) : Reply → List (LogCall × String × String)
  | .failed text => [(k.note, "ERROR", text)]
  | .elsewhere => k.elsewhere
  | _ => op.success.toList.map fun text => (k.note, "INFO", text)

variable {Name : Type} [DecidableEq Name] (place : Path → Name) (logFd : Option ℕ)

/-- The calls of `log_write`, one after the other. -/
def logAll (calls : List (LogCall × String × String)) (fs : FileSystem Name) : FileSystem Name :=
  calls.foldl (fun fs call => logWrite logFd call.1 call.2.1 call.2.2 fs) fs

/-- The reply of a function that returns `0` or `-1`, and the files behind it. -/
def withReply {E : Type} (log : E → String) (r : Except E Unit × FileSystem Name) :
    Reply × FileSystem Name :=
  (replyOf log (fun _ => .ok) r.1, r.2)

/-- The operation is performed, all but its line in the log; `none` when it leaves
    `dir_path`, or when `fm_copy` has not returned with these answers. -/
def perform (k : Answers) (fs : FileSystem Name) : Operation → Option (Reply × FileSystem Name)
  | .fmCreate path => some (withReply FileError.log (fmCreate fs (place path) k.mayOpen))
  | .fmDelete path => some (withReply FileError.log (fmDelete fs (place path) k.mayOpen))
  | .fmWrite path data => some (withReply FileError.log (fmWrite fs (place path) k.mayOpen k.write data))
  | .fmRead path =>
    some (replyOf FileError.log .content (fmRead fs (place path) k.mayOpen k.read contentSize), fs)
  | .fmCopy src dst => (fmCopyAt place k.copy k.dirPath fs src dst).map (withReply CopyError.log)
  | .fmInfo path => some (replyOf FileError.log .size (fmInfo fs (place path) k.mayOpen), fs)
  | _ => some (.elsewhere, fs)

/-- The operation with its lines in the log. -/
def performLogged (k : Answers) (fs : FileSystem Name) (op : Operation) :
    Option (Reply × FileSystem Name) :=
  (perform place k fs op).map fun r => (r.1, logAll logFd (k.logCalls op r.1) r.2)

/-- The session, the files, and the replies so far. -/
structure Machine (Name : Type) where
  session : Session
  files : FileSystem Name
  replies : List Reply

/-- One pass of the loop. -/
def Machine.step (m : Machine Name) (k : Answers) : Option (Machine Name) :=
  (m.session.step k.start).bind fun s =>
    match s.performed.drop m.session.performed.length with
    | [] =>
      some { m with session := s, files := logWrite logFd k.note "INFO" "User exit system" m.files }
    | op :: _ => (performLogged place logFd k m.files op).map fun r => ⟨s, r.2, m.replies ++ [r.1]⟩

/-! ## What the operations are for -/

/-- It is an operation on a file. -/
def Operation.onFiles : Operation → Bool
  | .fmCreate _ | .fmDelete _ | .fmWrite _ _ | .fmRead _ | .fmCopy _ _ | .fmInfo _ => true
  | _ => false

/-- The paths that it gives to the kernel, when it is an operation on files. -/
def Operation.paths : Operation → List Bytes
  | .fmCreate path | .fmDelete path | .fmWrite path _ | .fmRead path | .fmInfo path => [path]
  | .fmCopy src dst => [src, dst]
  | _ => []

/-- The place that the operation may change. -/
def Operation.target : Operation → Option Bytes
  | .fmCreate path | .fmDelete path | .fmWrite path _ => some path
  | .fmCopy _ dst => some dst
  | _ => none

theorem Operation.mem_paths_of_target {op : Operation} {path : Bytes} (h : path ∈ op.target) :
    path ∈ op.paths := by
  cases op with
  | fmCreate _ => exact List.mem_singleton.mpr (Option.some.inj h).symm
  | fmDelete _ => exact List.mem_singleton.mpr (Option.some.inj h).symm
  | fmWrite _ _ => exact List.mem_singleton.mpr (Option.some.inj h).symm
  | fmCopy src dst =>
    rw [← Option.some.inj h]
    exact List.mem_cons_of_mem _ (List.mem_singleton_self _)
  | _ => cases h

/-- None of its paths leads to this place. -/
def Operation.Avoids (log : Name) (op : Operation) : Prop := ∀ path ∈ op.paths, place path ≠ log

/-- The effect that an operation may have, by its reply. -/
inductive StoreStep (store : Store Name) : Operation → Reply → Store Name → Prop where
  | creates (path : Path) : StoreStep store (.fmCreate path) .ok
      (Function.update store (place path) (some ((store (place path)).getD [])))
  | deletes (path : Path) (hthere : store (place path) ≠ none) :
      StoreStep store (.fmDelete path) .ok (Function.update store (place path) none)
  | appends (path : Path) (data : Bytes) {content : Bytes} (n : ℕ)
      (hthere : store (place path) = some content) : StoreStep store (.fmWrite path data) .ok
        (Function.update store (place path) (some (content ++ data.take n)))
  | reads (path : Path) {content : Bytes} {n : ℕ} (hthere : store (place path) = some content)
      (hn : n ≤ contentSize - 1) : StoreStep store (.fmRead path) (.content (content.take n)) store
  | copies (src dst : Path) {content : Bytes} (n : ℕ) {reply : Reply}
      (hreply : reply = .ok ∨ reply = .failed "write copy failed")
      (hthere : store (place src) = some content) : StoreStep store (.fmCopy src dst) reply
        (Function.update store (place dst)
          (some ((if place dst = place src then [] else content).take n)))
  | shows (path : Path) {content : Bytes} (hthere : store (place path) = some content) :
      StoreStep store (.fmInfo path) (.size content.length) store
  | fails (op : Operation) (log : String) : StoreStep store op (.failed log) store
  | elsewhere {op : Operation} (hop : op.onFiles = false) : StoreStep store op .elsewhere store

/-- The operations and replies that lead from one store to another. -/
inductive StoreRun (store : Store Name) : List (Operation × Reply) → Store Name → Prop where
  | nil : StoreRun store [] store
  | snoc {done : List (Operation × Reply)} {store' store'' : Store Name} {op : Operation} {reply : Reply}
      (hrun : StoreRun store done store') (hstep : StoreStep place store' op reply store'') :
      StoreRun store (done ++ [(op, reply)]) store''

omit [DecidableEq Name] in
theorem of_withReply {E : Type} {log : E → String} {r : Except E Unit × FileSystem Name} {reply : Reply}
    {fs' : FileSystem Name} (h : some (withReply log r) = some (reply, fs')) :
    ∃ ret, r = (ret, fs') ∧ replyOf log (fun _ => .ok) ret = reply := by
  obtain ⟨ret, fs₁⟩ := r
  obtain ⟨hreply, rfl⟩ := Prod.mk.inj (Option.some.inj h)
  exact ⟨ret, rfl, hreply⟩

theorem perform_refines {k : Answers} {fs fs' : FileSystem Name} (h : fs.Distinct) {op : Operation}
    {reply : Reply} (hperform : perform place k fs op = some (reply, fs')) :
    fs'.Distinct ∧ StoreStep place fs.contentAt op reply fs'.contentAt := by
  cases op with
  | fmCreate path =>
    obtain ⟨ret, hcall, rfl⟩ := of_withReply hperform
    obtain ⟨hdistinct, ⟨rfl, hafter⟩ | ⟨rfl, rfl⟩⟩ := fmCreate_store h hcall
    · rw [hafter]
      exact ⟨hdistinct, .creates path⟩
    · exact ⟨hdistinct, .fails _ _⟩
  | fmDelete path =>
    obtain ⟨ret, hcall, rfl⟩ := of_withReply hperform
    obtain ⟨hdistinct, ⟨rfl, hthere, hafter⟩ | ⟨rfl, rfl⟩⟩ := fmDelete_store h hcall
    · rw [hafter]
      exact ⟨hdistinct, .deletes path hthere⟩
    · exact ⟨hdistinct, .fails _ _⟩
  | fmWrite path data =>
    obtain ⟨ret, hcall, rfl⟩ := of_withReply hperform
    obtain ⟨hdistinct, ⟨rfl, content, n, hthere, -, hafter⟩ | ⟨hret, rfl⟩⟩ := fmWrite_store h hcall
    · rw [hafter]
      exact ⟨hdistinct, .appends path data n hthere⟩
    · rcases hret with rfl | rfl
      · exact ⟨hdistinct, .fails _ _⟩
      · exact ⟨hdistinct, .fails _ _⟩
  | fmRead path =>
    obtain ⟨hreply, rfl⟩ := Prod.mk.inj (Option.some.inj hperform)
    rw [← hreply]
    rcases fmRead_store rfl with ⟨content, n, hthere, hret, hn⟩ | hret | hret
    · rw [hret]
      exact ⟨h, .reads path hthere hn⟩
    · rw [hret]
      exact ⟨h, .fails _ _⟩
    · rw [hret]
      exact ⟨h, .fails _ _⟩
  | fmCopy src dst =>
    obtain ⟨r, hr, hanswer⟩ := Option.map_eq_some_iff.mp hperform
    obtain ⟨ret, rfl, rfl⟩ := of_withReply (congrArg some hanswer)
    obtain ⟨hdistinct, ⟨hret, hafter⟩ | ⟨hret, content, n, hthere, hafter⟩⟩ := fmCopyAt_store h hr
    · rw [hafter]
      cases ret with
      | ok u => exact absurd rfl hret
      | error e => exact ⟨hdistinct, .fails _ _⟩
    · rw [hafter]
      refine ⟨hdistinct, .copies src dst n ?_ hthere⟩
      rcases hret with rfl | rfl
      · exact .inl rfl
      · exact .inr rfl
  | fmInfo path =>
    simp only [perform, fmInfo, Option.some.injEq] at hperform
    obtain ⟨hreply, rfl⟩ := Prod.mk.inj hperform
    rw [← hreply]
    split
    · exact ⟨h, .fails _ _⟩
    · next i hi =>
      split_ifs
      · refine ⟨h, .shows path ?_⟩
        rw [FileSystem.contentAt, hi, Option.map_some]
      · exact ⟨h, .fails _ _⟩
  | _ =>
    obtain ⟨rfl, rfl⟩ := Prod.mk.inj (Option.some.inj hperform)
    exact ⟨h, .elsewhere rfl⟩

/-- Only the target may come to stand for another file. -/
theorem perform_names {k : Answers} {fs fs' : FileSystem Name} {op : Operation} {reply : Reply}
    (hperform : perform place k fs op = some (reply, fs')) {p : Name}
    (hp : ∀ path ∈ op.target, place path ≠ p) : fs'.names p = fs.names p := by
  cases op with
  | fmCreate path =>
    obtain ⟨ret, hcall, -⟩ := of_withReply hperform
    unfold fmCreate at hcall
    split_ifs at hcall
    · obtain ⟨-, rfl⟩ := Prod.mk.inj hcall
      exact FileSystem.openCreate_names_of_ne (Ne.symm (hp path rfl))
    · obtain ⟨-, rfl⟩ := Prod.mk.inj hcall
      rfl
  | fmDelete path =>
    obtain ⟨ret, hcall, -⟩ := of_withReply hperform
    unfold fmDelete at hcall
    split at hcall
    · obtain ⟨-, rfl⟩ := Prod.mk.inj hcall
      rfl
    · split_ifs at hcall
      · obtain ⟨-, rfl⟩ := Prod.mk.inj hcall
        exact Function.update_of_ne (Ne.symm (hp path rfl)) ..
      · obtain ⟨-, rfl⟩ := Prod.mk.inj hcall
        rfl
  | fmWrite path data =>
    obtain ⟨ret, hcall, -⟩ := of_withReply hperform
    unfold fmWrite at hcall
    split at hcall
    · obtain ⟨-, rfl⟩ := Prod.mk.inj hcall
      rfl
    · split_ifs at hcall
      · obtain ⟨-, rfl⟩ := Prod.mk.inj hcall
        rfl
      · split at hcall
        · obtain ⟨-, rfl⟩ := Prod.mk.inj hcall
          rfl
        · obtain ⟨-, rfl⟩ := Prod.mk.inj hcall
          rfl
  | fmCopy src dst =>
    obtain ⟨r, hr, hanswer⟩ := Option.map_eq_some_iff.mp hperform
    obtain ⟨-, rfl⟩ := Prod.mk.inj hanswer
    obtain ⟨q, -, rfl⟩ := Option.map_eq_some_iff.mp hr
    exact Function.update_of_ne (Ne.symm (hp dst rfl)) ..
  | _ =>
    obtain ⟨-, rfl⟩ := Prod.mk.inj (Option.some.inj hperform)
    rfl

/-! ## The log -/

/-- The store without the log. -/
def hide (log : Name) (store : Store Name) : Store Name := Function.update store log none

section

variable {log p : Name} {store store' : Store Name}

theorem hide_of_ne (h : p ≠ log) (store : Store Name) : hide log store p = store p :=
  Function.update_of_ne h ..

theorem hide_update (h : p ≠ log) (store : Store Name) (content : Option Bytes) :
    hide log (Function.update store p content) = Function.update (hide log store) p content :=
  Function.update_comm h ..

/-- An operation that avoids the log does the same to the rest of the store. -/
theorem StoreStep.hide {op : Operation} {reply : Reply} (h : StoreStep place store op reply store')
    (hop : op.Avoids place log) :
    StoreStep place (Menu.hide log store) op reply (Menu.hide log store') := by
  cases h with
  | creates path =>
    have hne : place path ≠ log := hop path (List.mem_singleton_self _)
    rw [hide_update hne, ← hide_of_ne hne store]
    exact .creates path
  | deletes path hthere =>
    have hne : place path ≠ log := hop path (List.mem_singleton_self _)
    rw [hide_update hne]
    exact .deletes path (by rwa [hide_of_ne hne])
  | appends path data n hthere =>
    have hne : place path ≠ log := hop path (List.mem_singleton_self _)
    rw [hide_update hne]
    exact .appends path data n ((hide_of_ne hne store).trans hthere)
  | reads path hthere hn =>
    have hne : place path ≠ log := hop path (List.mem_singleton_self _)
    exact .reads path ((hide_of_ne hne store).trans hthere) hn
  | copies src dst n hreply hthere =>
    have hsrc : place src ≠ log := hop src (List.mem_cons_self ..)
    have hdst : place dst ≠ log := hop dst (List.mem_cons_of_mem _ (List.mem_singleton_self _))
    rw [hide_update hdst]
    exact .copies src dst n hreply ((hide_of_ne hsrc store).trans hthere)
  | shows path hthere =>
    have hne : place path ≠ log := hop path (List.mem_singleton_self _)
    exact .shows path ((hide_of_ne hne store).trans hthere)
  | fails op text => exact .fails op text
  | elsewhere helse => exact .elsewhere helse

end

section

variable {logFd} {calls : List (LogCall × String × String)} {fs : FileSystem Name} {log p : Name}

omit [DecidableEq Name] in
theorem names_logAll : (logAll logFd calls fs).names = fs.names := by
  induction calls generalizing fs with
  | nil => rfl
  | cons call calls ih =>
    rw [logAll, List.foldl_cons]
    exact ih.trans names_logWrite

omit [DecidableEq Name] in
/-- A file that is not the log keeps its content. -/
theorem contentAt_logAll (h : ∀ i, fs.names p = some i → logFd ≠ some i) :
    (logAll logFd calls fs).contentAt p = fs.contentAt p := by
  induction calls generalizing fs with
  | nil => rfl
  | cons call calls ih =>
    rw [logAll, List.foldl_cons]
    refine (ih (by rwa [names_logWrite])).trans ?_
    rw [contentAt_logWrite, loggedTo_of_ne h]
    simp

/-- The lines are in the log only. -/
theorem hide_logAll (h : fs.Distinct) (hlog : ∀ i ∈ logFd, fs.names log = some i) :
    hide log (logAll logFd calls fs).contentAt = hide log fs.contentAt := by
  funext p
  by_cases hp : p = log
  · rw [hp, hide, hide, Function.update_self, Function.update_self]
  · rw [hide_of_ne hp, hide_of_ne hp]
    refine contentAt_logAll fun i hi hfd => hp ?_
    exact h p log i hi (hlog i hfd)

end

/-! ## Runs -/

/-- What a step of the machine does: the session returns, or performs an operation. -/
inductive MachineEffect (m : Machine Name) (k : Answers) : Machine Name → Prop where
  | returns {s : Session} (hs : m.session.step k.start = some s)
      (hperformed : s.performed = m.session.performed) :
      MachineEffect m k ⟨s, logAll logFd [(k.note, "INFO", "User exit system")] m.files, m.replies⟩
  | performs {s : Session} {op : Operation} {reply : Reply} {fs : FileSystem Name}
      (hs : m.session.step k.start = some s) (hop : op.Ok)
      (hperformed : s.performed = m.session.performed ++ [op])
      (hperform : perform place k m.files op = some (reply, fs)) :
      MachineEffect m k ⟨s, logAll logFd (k.logCalls op reply) fs, m.replies ++ [reply]⟩

theorem Machine.step_effect {m m' : Machine Name} {k : Answers} (h : m.session.Bounded)
    (hs : m.step place logFd k = some m') : MachineEffect place logFd m k m' := by
  obtain ⟨s, hsession, hmatch⟩ := Option.bind_eq_some_iff.mp hs
  cases (Session.step_effect h hsession).2 with
  | returns hzero =>
    have hperformed : m.session.readChoice.performed = m.session.performed := rfl
    rw [hperformed, List.drop_length] at hmatch
    cases hmatch
    exact .returns hsession hperformed
  | @performs s op hne hperforms =>
    have hperformed : s.performed = m.session.performed ++ [op] := hperforms.performed
    rw [hperformed, List.drop_left] at hmatch
    obtain ⟨_, hlogged, rfl⟩ := Option.map_eq_some_iff.mp hmatch
    obtain ⟨⟨reply, fs⟩, hperform, rfl⟩ := Option.map_eq_some_iff.mp hlogged
    exact .performs hsession hperforms.ok hperformed hperform

/-- `log_fd` is open for the file at `log`, or is `-1`, and the store without the log is where the
    operations of the session lead. -/
structure Follows (log : Name) (store : Store Name) (m : Machine Name) : Prop where
  names : ∀ i ∈ logFd, m.files.names log = some i
  run : StoreRun place (hide log store) (m.session.performed.zip m.replies) (hide log m.files.contentAt)

/-- What holds after every run from files with the contents `store`. -/
structure MachineInv (log : Name) (store : Store Name) (m : Machine Name) : Prop where
  session : SessionInv m.session
  distinct : m.files.Distinct
  length_eq : m.session.performed.length = m.replies.length
  follows : (∀ op ∈ m.session.performed, op.Avoids place log) → Follows place logFd log store m

theorem MachineInv.step {log : Name} {store : Store Name} {m m' : Machine Name} {k : Answers}
    (h : MachineInv place logFd log store m) (hs : m.step place logFd k = some m') :
    MachineInv place logFd log store m' := by
  cases Machine.step_effect place logFd h.session.bounded hs with
  | returns hsession hperformed =>
    refine ⟨h.session.step hsession, h.distinct.of_names names_logAll, ?_, fun havoids => ?_⟩
    · rw [hperformed]
      exact h.length_eq
    · dsimp only at havoids
      rw [hperformed] at havoids
      obtain ⟨hlog, hrun⟩ := h.follows havoids
      refine ⟨fun i hi => ?_, ?_⟩
      · rw [names_logAll]
        exact hlog i hi
      · dsimp only
        rw [hperformed, hide_logAll h.distinct hlog]
        exact hrun
  | @performs s op reply fs hsession hop hperformed hperform =>
    obtain ⟨hdistinct, hstep⟩ := perform_refines place h.distinct hperform
    refine ⟨h.session.step hsession, hdistinct.of_names names_logAll, ?_, fun havoids => ?_⟩
    · rw [hperformed, List.length_append, List.length_append, h.length_eq]
      rfl
    · dsimp only at havoids
      rw [hperformed] at havoids
      obtain ⟨hlog, hrun⟩ := h.follows fun op hop => havoids op (List.mem_append_left _ hop)
      have hop : op.Avoids place log := havoids op (List.mem_append_right _ (List.mem_singleton_self _))
      have hlog' : ∀ i ∈ logFd, fs.names log = some i := by
        intro i hi
        rw [perform_names place hperform fun path hpath => hop path (Operation.mem_paths_of_target hpath)]
        exact hlog i hi
      refine ⟨fun i hi => ?_, ?_⟩
      · rw [names_logAll]
        exact hlog' i hi
      · dsimp only
        rw [hperformed, List.zip_append h.length_eq, hide_logAll hdistinct hlog']
        exact .snoc hrun (hstep.hide place hop)

/-- `menu_start` is called with these files. -/
def Machine.begin (stdin : Bytes) (choice : ℤ) (path path2 : Bytes) (fs : FileSystem Name) : Machine Name :=
  ⟨.begin stdin choice path path2, fs, []⟩

theorem machineInv_begin {stdin path path2 : Bytes} {choice : ℤ} {fs : FileSystem Name} {log : Name}
    (hpath : path.length ≤ pathSize - 1) (hpath2 : path2.length ≤ pathSize - 1) (h : fs.Distinct)
    (hlog : ∀ i ∈ logFd, fs.names log = some i) :
    MachineInv place logFd log fs.contentAt (.begin stdin choice path path2 fs) :=
  ⟨sessionInv_begin hpath hpath2, h, rfl, fun _ => ⟨hlog, .nil⟩⟩

theorem StoreStep.frame {store store' : Store Name} {op : Operation} {reply : Reply}
    (h : StoreStep place store op reply store') {p : Name} (hp : ∀ path ∈ op.target, place path ≠ p) :
    store' p = store p := by
  cases h with
  | creates path => exact Function.update_of_ne (Ne.symm (hp path rfl)) ..
  | deletes path => exact Function.update_of_ne (Ne.symm (hp path rfl)) ..
  | appends path => exact Function.update_of_ne (Ne.symm (hp path rfl)) ..
  | copies src dst => exact Function.update_of_ne (Ne.symm (hp dst rfl)) ..
  | _ => rfl

/-- What is at `p` is what was there at first, unless an operation had it as its target. -/
structure Untouched (fs : FileSystem Name) (p : Name) (m : Machine Name) : Prop where
  session : SessionInv m.session
  distinct : m.files.Distinct
  kept : (∀ op ∈ m.session.performed, ∀ target ∈ op.target, place target ≠ p) →
    m.files.names p = fs.names p ∧ m.files.contentAt p = fs.contentAt p

theorem Untouched.step {fs : FileSystem Name} {p : Name} (hp : ∀ i, fs.names p = some i → logFd ≠ some i)
    {m m' : Machine Name} {k : Answers} (h : Untouched place fs p m)
    (hs : m.step place logFd k = some m') : Untouched place fs p m' := by
  cases Machine.step_effect place logFd h.session.bounded hs with
  | returns hsession hperformed =>
    refine ⟨h.session.step hsession, h.distinct.of_names names_logAll, fun hnone => ?_⟩
    dsimp only at hnone
    rw [hperformed] at hnone
    obtain ⟨hnames, hcontent⟩ := h.kept hnone
    dsimp only
    rw [names_logAll, contentAt_logAll (by rwa [hnames])]
    exact ⟨hnames, hcontent⟩
  | @performs s op reply fs' hsession hop hperformed hperform =>
    obtain ⟨hdistinct, hstep⟩ := perform_refines place h.distinct hperform
    refine ⟨h.session.step hsession, hdistinct.of_names names_logAll, fun hnone => ?_⟩
    dsimp only at hnone
    rw [hperformed] at hnone
    obtain ⟨hnames, hcontent⟩ := h.kept fun op hop => hnone op (List.mem_append_left _ hop)
    have hop := hnone op (List.mem_append_right _ (List.mem_singleton_self _))
    have hnames' := (perform_names place hperform hop).trans hnames
    dsimp only
    rw [names_logAll, contentAt_logAll (by rwa [hnames'])]
    exact ⟨hnames', (hstep.frame place hop).trans hcontent⟩

/-- Whatever is typed and whatever the kernel answers: what is at a place that no operation of the
    session names as its target, and that is not the place of the log, is left as it was. -/
theorem session_frame {stdin path path2 : Bytes} {choice : ℤ} {fs : FileSystem Name}
    (hpath : path.length ≤ pathSize - 1) (hpath2 : path2.length ≤ pathSize - 1) (h : fs.Distinct)
    {ks : List Answers} {m : Machine Name}
    (hrun : exec (Machine.step place logFd) (.begin stdin choice path path2 fs) ks = some m) {p : Name}
    (hlog : ∀ i, fs.names p = some i → logFd ≠ some i)
    (hp : ∀ op ∈ m.session.performed, ∀ target ∈ op.target, place target ≠ p) :
    m.files.contentAt p = fs.contentAt p := by
  have hinv : Untouched place fs p m :=
    Reachable.inv (fun _ _ _ h hs => h.step place logFd hlog hs)
      ⟨sessionInv_begin hpath hpath2, h, fun _ => ⟨rfl, rfl⟩⟩ ⟨ks, hrun⟩
  exact (hinv.kept hp).2

/-! ## A kernel that does all it is asked for -/

/-- What the operation is for: the reply, and the store behind it. -/
def ideal (store : Store Name) : Operation → Reply × Store Name
  | .fmCreate path => (.ok, Function.update store (place path) (some ((store (place path)).getD [])))
  | .fmDelete path =>
    match store (place path) with
    | some _ => (.ok, Function.update store (place path) none)
    | none => (.failed "delete file failed", store)
  | .fmWrite path data =>
    match store (place path) with
    | some content => (.ok, Function.update store (place path) (some (content ++ data)))
    | none => (.failed "open file failed", store)
  | .fmRead path =>
    match store (place path) with
    | some content => (.content (content.take (contentSize - 1)), store)
    | none => (.failed "read file open failed", store)
  | .fmCopy src dst =>
    match store (place src) with
    | some content =>
      (.ok, Function.update store (place dst) (some (if place dst = place src then [] else content)))
    | none => (.failed "Source file does not exist", store)
  | .fmInfo path =>
    match store (place path) with
    | some content => (.size content.length, store)
    | none => (.failed "failed file information", store)
  | _ => (.elsewhere, store)

/-- What the operation is for does not depend on the log. -/
theorem ideal_hide {log : Name} (store : Store Name) {op : Operation} (hop : op.Avoids place log) :
    ideal place (hide log store) op = ((ideal place store op).1, hide log (ideal place store op).2) := by
  cases op with
  | fmCreate path =>
    have hne : place path ≠ log := hop path (List.mem_singleton_self _)
    simp only [ideal, hide_of_ne hne, hide_update hne]
  | fmDelete path =>
    have hne : place path ≠ log := hop path (List.mem_singleton_self _)
    simp only [ideal, hide_of_ne hne]
    split
    · rw [hide_update hne]
    · rfl
  | fmWrite path data =>
    have hne : place path ≠ log := hop path (List.mem_singleton_self _)
    simp only [ideal, hide_of_ne hne]
    split
    · rw [hide_update hne]
    · rfl
  | fmRead path =>
    have hne : place path ≠ log := hop path (List.mem_singleton_self _)
    simp only [ideal, hide_of_ne hne]
    split <;> rfl
  | fmCopy src dst =>
    have hsrc : place src ≠ log := hop src (List.mem_cons_self ..)
    have hdst : place dst ≠ log := hop dst (List.mem_cons_of_mem _ (List.mem_singleton_self _))
    simp only [ideal, hide_of_ne hsrc]
    split
    · rw [hide_update hdst]
    · rfl
  | fmInfo path =>
    have hne : place path ≠ log := hop path (List.mem_singleton_self _)
    simp only [ideal, hide_of_ne hne]
    split <;> rfl
  | _ => rfl

/-- The replies to a list of operations, and the store behind them. -/
def idealAll (store : Store Name) : List Operation → List Reply × Store Name
  | [] => ([], store)
  | op :: ops =>
    let (reply, store) := ideal place store op
    let (replies, store) := idealAll store ops
    (reply :: replies, store)

/-- Nothing is refused, and no `read` or `write` is short, but in the log. -/
structure Answers.Willing (k : Answers) (log : Name) (fs : FileSystem Name) : Prop where
  mayOpen : k.mayOpen = true
  read : ∃ n pos le, k.read = .data n pos le ∧ contentSize - 1 ≤ n
  write : ∃ n, k.write = .upTo n ∧ contentSize - 1 ≤ n
  copy : ∀ p content, p ≠ log → fs.contentAt p = some content → FileManager.Willing k.copy content.length

theorem length_directoryOf_lt {path dir : Path} (h : directoryOf path = some dir) :
    dir.length < path.length := by
  have hle := (List.dropWhile_sublist (fun b => b != (0x2F : UInt8)) (l := path.reverse)).length_le
  unfold directoryOf at h
  split at h
  · cases h
  · next b rest hrest =>
    cases h
    rw [hrest, List.length_cons, List.length_reverse] at hle
    rw [List.length_reverse]
    omega

theorem perform_willing {k : Answers} {log : Name} {fs : FileSystem Name} (h : fs.Distinct)
    (hk : k.Willing log fs) {op : Operation} (hop : op.Ok) (havoids : op.Avoids place log) :
    ∃ fs', perform place k fs op = some ((ideal place fs.contentAt op).1, fs') ∧ fs'.Distinct ∧
      fs'.contentAt = (ideal place fs.contentAt op).2 := by
  cases op with
  | fmCreate path =>
    refine ⟨(fs.openCreate (place path)).2, ?_, h.openCreate _, FileSystem.contentAt_openCreate _⟩
    simp only [perform, fmCreate, hk.mayOpen, if_true]
    rfl
  | fmDelete path =>
    simp only [ideal]
    rcases fs.contentAt_cases (place path) with ⟨hname, hnone⟩ | ⟨i, hname, hsome⟩
    · rw [hnone]
      refine ⟨fs, ?_, h, rfl⟩
      simp only [perform, fmDelete, hname]
      rfl
    · rw [hsome]
      refine ⟨fs.unlink (place path), ?_, h.unlink _, FileSystem.contentAt_unlink _⟩
      simp only [perform, fmDelete, hname, hk.mayOpen, if_true]
      rfl
  | fmWrite path data =>
    simp only [ideal]
    rcases fs.contentAt_cases (place path) with ⟨hname, hnone⟩ | ⟨i, hname, hsome⟩
    · rw [hnone]
      refine ⟨fs, ?_, h, rfl⟩
      simp only [perform, fmWrite, hname]
      rfl
    · obtain ⟨n, hwrite, hn⟩ := hk.write
      have hall : k.write.accepted data.length = some data.length := by
        rw [hwrite, WriteOutcome.accepted, min_eq_right (hop.2.length_le.trans hn)]
      rw [hsome]
      refine ⟨fs.appendTo i data, ?_, h.of_names rfl, h.contentAt_setContent hname _⟩
      simp only [perform, fmWrite, hname, hk.mayOpen, hall, List.take_length, Bool.not_true,
        Bool.false_eq_true, if_false]
      rfl
  | fmRead path =>
    simp only [ideal]
    rcases fs.contentAt_cases (place path) with ⟨hname, hnone⟩ | ⟨i, hname, hsome⟩
    · rw [hnone]
      refine ⟨fs, ?_, h, rfl⟩
      simp only [perform, fmRead, hname]
      rfl
    · obtain ⟨n, pos, le, hread, hn⟩ := hk.read
      rw [hsome]
      refine ⟨fs, ?_, h, rfl⟩
      simp only [perform, fmRead, hname, hk.mayOpen, hread, ReadOutcome.read, List.take_take,
        min_eq_right hn, Bool.not_true, Bool.false_eq_true, if_false]
      rfl
  | fmCopy src dst =>
    simp only [ideal]
    rcases fs.contentAt_cases (place src) with ⟨hname, hnone⟩ | ⟨i, hname, hsome⟩
    · have hpath : (byPath place fs).names src = none := hname
      have hcopy : copyFiles k.copy k.dirPath (byPath place fs) src dst =
          some (.error .sourceMissing, byPath place fs) := by
        rw [copyFiles, hpath]
      obtain ⟨fs', hcall, -, -⟩ := fmCopyAt_eq hcopy
      obtain ⟨hdistinct, ⟨-, hafter⟩ | ⟨hret, -⟩⟩ := fmCopyAt_store h hcall
      · rw [hnone]
        refine ⟨fs', ?_, hdistinct, hafter⟩
        simp only [perform, hcall, Option.map_some]
        rfl
      · rcases hret with hret | hret <;> cases hret
    · have hdir : ∀ dir, directoryOf dst = some dir → dir.length < dirPathSize := by
        intro dir hdir
        exact ((length_directoryOf_lt hdir).trans_le hop.2.length_le).trans (by decide)
      obtain ⟨fs', hcall, hdistinct, hafter⟩ : ∃ fs', fmCopyAt place k.copy k.dirPath fs src dst =
          some (.ok (), fs') ∧ fs'.Distinct ∧ _ := 
          fmCopyAt_willing h hsome (hk.copy _ _ (havoids src (List.mem_cons_self ..)) hsome) hdir
      rw [hsome]
      refine ⟨fs', ?_, hdistinct, hafter⟩
      simp only [perform, hcall, Option.map_some]
      rfl
  | fmInfo path =>
    simp only [ideal]
    rcases fs.contentAt_cases (place path) with ⟨hname, hnone⟩ | ⟨i, hname, hsome⟩
    · rw [hnone]
      refine ⟨fs, ?_, h, rfl⟩
      simp only [perform, fmInfo, hname]
      rfl
    · rw [hsome]
      refine ⟨fs, ?_, h, rfl⟩
      simp only [perform, fmInfo, hname, hk.mayOpen, if_true]
      rfl
  | _ => exact ⟨fs, rfl, h, rfl⟩

/-- The operations of a session are those so far and those that follow. -/
theorem exec_performed {s s' : Session} (hinv : SessionInv s) {starts : List ServerStart}
    (hrun : exec Session.step s starts = some s') : s.performed <+: s'.performed := by
  induction starts generalizing s with
  | nil =>
    cases hrun
    exact List.prefix_rfl
  | cons start starts ih =>
    obtain ⟨s₁, hs, hrest⟩ := exec_cons_eq_some.mp hrun
    refine List.IsPrefix.trans ?_ (ih (hinv.step hs) hrest)
    cases (Session.step_effect hinv.bounded hs).2 with
    | returns hzero => exact List.prefix_rfl
    | performs hne hperforms =>
      rw [hperforms.performed]
      exact List.prefix_append _ _

/-- A willing kernel performs what the session asks for, and replies as it should. -/
theorem exec_willing {m : Machine Name} {log : Name} {ks : List Answers} {s : Session}
    (hinv : SessionInv m.session) (h : m.files.Distinct) (hlog : ∀ i ∈ logFd, m.files.names log = some i)
    (hrun : exec Session.step m.session (ks.map Answers.start) = some s)
    (havoids : ∀ op ∈ s.performed, op.Avoids place log)
    (hks : Every (Machine.step place logFd) (fun m k => k.Willing log m.files) m ks) :
    ∃ ops m', s.performed = m.session.performed ++ ops ∧
      exec (Machine.step place logFd) m ks = some m' ∧ m'.session = s ∧
      m'.replies = m.replies ++ (idealAll place (hide log m.files.contentAt) ops).1 ∧
      hide log m'.files.contentAt = (idealAll place (hide log m.files.contentAt) ops).2 := by
  induction ks generalizing m with
  | nil =>
    cases hrun
    exact ⟨[], m, (List.append_nil _).symm, rfl, rfl, (List.append_nil _).symm, rfl⟩
  | cons k ks ih =>
    obtain ⟨s₁, hs, hrest⟩ := exec_cons_eq_some.mp hrun
    have hinv₁ := hinv.step hs
    have hgrows := exec_performed hinv₁ hrest
    cases (Session.step_effect hinv.bounded hs).2 with
    | returns hzero =>
      have hstep : m.step place logFd k =
          some ⟨{ m.session.readChoice with returned := true },
            logAll logFd [(k.note, "INFO", "User exit system")] m.files, m.replies⟩ := by
        rw [Machine.step, hs, Option.bind_some]
        dsimp only
        rw [show m.session.readChoice.performed = m.session.performed from rfl, List.drop_length]
        rfl
      obtain ⟨ops, m', hops, hexec, hsession, hreplies, hfiles⟩ :=
        ih hinv₁ (h.of_names names_logAll) (by rwa [names_logAll]) hrest (hks.2 _ hstep)
      dsimp only at hreplies hfiles
      rw [hide_logAll h hlog] at hreplies hfiles
      exact ⟨ops, m', hops, exec_cons_eq_some.mpr ⟨_, hstep, hexec⟩, hsession, hreplies, hfiles⟩
    | @performs s₁ op hne hperforms =>
      have hperformed : s₁.performed = m.session.performed ++ [op] := hperforms.performed
      have hop : op.Avoids place log := by
        refine havoids op (hgrows.subset ?_)
        rw [hperformed]
        exact List.mem_append_right _ (List.mem_singleton_self _)
      obtain ⟨fs, hperform, hdistinct, hafter⟩ := perform_willing place h hks.1 hperforms.ok hop
      have hstep : m.step place logFd k = some ⟨s₁,
          logAll logFd (k.logCalls op (ideal place m.files.contentAt op).1) fs,
          m.replies ++ [(ideal place m.files.contentAt op).1]⟩ := by
        rw [Machine.step, hs, Option.bind_some, hperformed, List.drop_left]
        simp only [performLogged, hperform, Option.map_some]
      have hlog' : ∀ i ∈ logFd, fs.names log = some i := by
        intro i hi
        rw [perform_names place hperform fun path hpath => hop path (Operation.mem_paths_of_target hpath)]
        exact hlog i hi
      obtain ⟨ops, m', hops, hexec, hsession, hreplies, hfiles⟩ :=
        ih hinv₁ (hdistinct.of_names names_logAll) (by rwa [names_logAll]) hrest (hks.2 _ hstep)
      have hideal := ideal_hide place m.files.contentAt hop
      have hstore :
          hide log (logAll logFd (k.logCalls op (ideal place m.files.contentAt op).1) fs).contentAt =
            (ideal place (hide log m.files.contentAt) op).2 := by
        rw [hide_logAll hdistinct hlog', hafter, hideal]
      have hreply : (ideal place m.files.contentAt op).1 =
          (ideal place (hide log m.files.contentAt) op).1 := by
        rw [hideal]
      dsimp only at hreplies hfiles
      rw [hstore] at hreplies hfiles
      refine ⟨op :: ops, m', ?_, exec_cons_eq_some.mpr ⟨_, hstep, hexec⟩, hsession, ?_, ?_⟩
      · rw [hops, hperformed, List.append_assoc]
        rfl
      · rw [hreplies, hreply, List.append_assoc]
        rfl
      · rw [hfiles]
        rfl

def plainLine : ChoiceLine :=
  ⟨[], [], fun _ h => (List.not_mem_nil h).elim, List.not_mem_nil, fun _ h => (Option.not_mem_none _ h).elim⟩

def pathA : PathLine := ⟨bytes "/a", by decide, by decide, by decide⟩

def createA : Entry := ⟨.fmCreate pathA, plainLine, (Lib.newline, Lib.newline), .noPool, nofun⟩

/-- Nothing is refused. -/
def agree : Answers :=
  ⟨.noPool, true, .data 4096 (by decide) (by decide), .upTo 4096,
    .permitted [(.data 4096 (by decide) (by decide), .upTo 4096)], .filled _ 0, sampleNote, []⟩

theorem agree_willing {log : Path} {fs : FileSystem Path}
    (h : ∀ p content, p ≠ log → fs.contentAt p = some content → content = []) : agree.Willing log fs := by
  refine ⟨rfl, ⟨4096, _, _, rfl, by decide⟩, ⟨4096, rfl, by decide⟩, fun p content hne hp => ?_⟩
  refine ⟨rfl, rfl, rfl, rfl, rfl, fun block hblock => ?_, ?_⟩
  · rw [List.mem_singleton.mp hblock]
    exact ⟨nofun, 4096, rfl, le_rfl⟩
  · rw [h p content hne hp]
    exact Nat.one_pos

def systemLog : Path := bytes "/logs/system.log"

/-- An empty log, and no other file. -/
def logOnly : FileSystem Path where
  names := fun p => if p = systemLog then some 0 else none
  content := fun _ => []
  nextInode := 1
  names_lt := by
    intro p i h
    split_ifs at h
    have := Option.some.inj h
    omega

theorem distinct_logOnly : logOnly.Distinct := by
  have hname : ∀ p i, logOnly.names p = some i → p = systemLog := by
    intro p i hp
    by_contra hne
    cases hp.symm.trans (if_neg hne)
  intro p q i hp hq
  exact (hname p i hp).trans (hname q i hq).symm

theorem names_systemLog : ∀ i ∈ some 0, logOnly.names systemLog = some i := by
  intro i hi
  rw [← hi]
  decide

theorem contentAt_logOnly {p : Path} (hp : p ≠ systemLog) : logOnly.contentAt p = none := by
  have hname : logOnly.names p = none := if_neg hp
  rw [FileSystem.contentAt, hname]
  rfl

/-- A file is created, and another place keeps what it had. -/
theorem session_frame_create : ∃ m, exec (Machine.step id (some 0))
      (.begin (bytes "1\n/a\n\n\n") 0 [] [] logOnly) [agree] = some m ∧
    m.files.contentAt (bytes "/b") = logOnly.contentAt (bytes "/b") := by
  have hrun : (exec (Machine.step id (some 0)) (.begin (bytes "1\n/a\n\n\n") 0 [] [] logOnly) [agree]).map
      (fun m => m.session.performed) = some [.fmCreate (bytes "/a")] := by decide +kernel
  obtain ⟨m, hm, hperformed⟩ := Option.map_eq_some_iff.mp hrun
  have hname : logOnly.names (bytes "/b") = none := by decide
  refine ⟨m, hm, session_frame id (some 0) (Nat.zero_le _) (Nat.zero_le _) distinct_logOnly hm
    (fun i hi => ?_) fun op hop => ?_⟩
  · cases hname.symm.trans hi
  · rw [hperformed] at hop
    rw [List.mem_singleton.mp hop]
    intro target htarget
    rw [← Option.some.inj htarget]
    decide

/-- The first command of a script for a disk with the log only. -/
def firstSession : Machine Path :=
  .begin (scriptText [createA] ++ (plainLine.text 0 ++ bytes "9")) 0 [] [] logOnly

theorem firstSession_performs {s : Session} (hs : firstSession.session.step .noPool = some s) :
    s.performed = [.fmCreate (bytes "/a")] := by
  have hperformed : (firstSession.session.step .noPool).map (fun s => s.performed) =
      some [.fmCreate (bytes "/a")] := by decide +kernel
  rw [hs] at hperformed
  exact Option.some.inj hperformed

theorem firstSession_willing : Every (Machine.step id (some 0)) (fun m k => k.Willing systemLog m.files)
    firstSession [agree, agree] := by
  refine ⟨agree_willing fun p content hne hp => ?_, fun m hm => ⟨agree_willing ?_, fun _ _ => trivial⟩⟩
  · cases (contentAt_logOnly hne).symm.trans hp
  · intro p content hne hp
    have hbounded : firstSession.session.Bounded := ⟨Nat.zero_le _, Nat.zero_le _⟩
    cases Machine.step_effect id (some 0) hbounded hm with
    | returns hs hperformed =>
      cases (firstSession_performs hs).symm.trans hperformed
    | @performs s op reply fs hs hok hperformed hperform =>
      obtain rfl : op = .fmCreate (bytes "/a") :=
        (List.singleton_inj.mp ((firstSession_performs hs).symm.trans hperformed)).symm
      obtain ⟨hdistinct, hstep⟩ := perform_refines id distinct_logOnly hperform
      have htarget : ∀ path ∈ (Operation.fmCreate (bytes "/a")).target, path ≠ systemLog := by decide
      have hlog : ∀ i ∈ some 0, fs.names systemLog = some i := by
        intro i hi
        rw [perform_names id hperform htarget]
        exact names_systemLog i hi
      have hrest :
          hide systemLog (logAll (some 0) (agree.logCalls (.fmCreate (bytes "/a")) reply) fs).contentAt p =
            hide systemLog fs.contentAt p := congrFun (hide_logAll hdistinct hlog) p
      rw [hide_of_ne hne, hide_of_ne hne] at hrest
      rw [hrest] at hp
      generalize fs.contentAt = store at hstep hp
      cases hstep with
      | creates =>
        by_cases heq : p = bytes "/a"
        · rw [heq, id, Function.update_self, contentAt_logOnly (by decide)] at hp
          exact (Option.some.inj hp).symm
        · rw [id, Function.update_of_ne heq] at hp
          cases (contentAt_logOnly hne).symm.trans hp
      | fails => cases (contentAt_logOnly hne).symm.trans hp
      | elsewhere helse => cases helse

end LinuxFileManager.Menu
