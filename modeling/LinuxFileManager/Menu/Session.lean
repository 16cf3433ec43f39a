import LinuxFileManager.Lib.Ascii
import LinuxFileManager.Lib.Fgets
import LinuxFileManager.Lib.System

/-!
# A session at the menu

Model of `menu_start` (`src/menu.c` lines 327–1023) and of the command line of the
gateway that it starts (`src/gateway.c` lines 562–643), as readers of the standard
input. One pass of the loop is a step. What a pass does besides is recorded as an
`Operation`, with the strings that the function is called with; what the functions
answer has no influence on what is read.

`choice` keeps its value when `scanf` finds no number, and the buffers keep theirs
when `fgets` finds no line. A line that is longer than the buffer stays in the input.

Results:

* `Session.Effect`, `Session.step_effect`: what one pass does.
* `session_arguments`: in every session the strings fit into their buffers.
* `session_end_of_input`: a session that does not leave before the end of the input
  repeats one operation forever.
-/

namespace LinuxFileManager.Menu

open Lib

/-! ## The standard input -/

/-- `clear_input_buffer` (`src/common.c` lines 7–16). -/
def clearInputBuffer (stdin : Bytes) : Bytes := afterLine newline stdin

/-- `wait_enter`: `getchar` twice. -/
def waitEnter (stdin : Bytes) : Bytes := stdin.drop 2

/-- The string in a buffer after `buffer[strcspn(buffer, "\n")] = 0`. -/
def cutNewline (s : Bytes) : Bytes := s.takeWhile fun c => c != 0 && c != newline

/-- `get_string(buffer, size)` where the buffer holds `old` before: the string that it holds
    then, and the rest of the input. -/
def getString (size : ℕ) (old stdin : Bytes) : Bytes × Bytes :=
  match fgets newline (size - 1) stdin with
  | none => (cutNewline old, stdin)
  | some (line, rest) => (cutNewline line, rest)

/-- `sizeof(path)` and `sizeof(path2)`. -/
def pathSize : ℕ := 256

/-- `sizeof(buffer)`. -/
def contentSize : ℕ := 4096

/-- `sizeof(cmd_buf)`. -/
def cmdSize : ℕ := 64

/-! ## The command line of the gateway -/

inductive GatewayCommand where
  | quit
  | status
  | help
  | devices
  | restartLed
  | unknown (cmd : Bytes)
  deriving DecidableEq

/-- The `switch` on the first character; `none` for an empty string. -/
def gatewayCommand : Bytes → Option GatewayCommand
  | [] => none
  | c :: rest =>
    some <|
      if c = byte 'q' ∨ c = byte 'Q' then .quit
      else if c = byte 's' ∨ c = byte 'S' then .status
      else if c = byte 'h' ∨ c = byte 'H' then .help
      else if c = byte 'l' ∨ c = byte 'L' then .devices
      else if c = byte 'r' ∨ c = byte 'R' then .restartLed
      else .unknown (c :: rest)

/-- The loop of `interactive_thread_func`: the commands, and the rest of the input. -/
def interactiveLoop : ℕ → Bytes → List GatewayCommand × Bytes
  | 0, stdin => ([], stdin)
  | fuel + 1, stdin =>
    match fgets newline (cmdSize - 1) stdin with
    | none => ([], stdin)
    | some (line, rest) =>
      match gatewayCommand (cutNewline line) with
      | none => interactiveLoop fuel rest
      | some .quit => ([.quit], rest)
      | some cmd =>
        let (cmds, rest) := interactiveLoop fuel rest
        (cmd :: cmds, rest)

/-- Every turn of the loop reads something. -/
def interactive (stdin : Bytes) : List GatewayCommand × Bytes := interactiveLoop (stdin.length + 1) stdin

/-- How far `gateway_server_menu` gets. -/
inductive ServerStart where
  /-- `Thread_init` fails. -/
  | noPool
  /-- `gateway_init` fails. -/
  | noGateway
  /-- A thread of `gateway_run_interactive` cannot be created. -/
  | noThread
  | running
  deriving DecidableEq

/-! ## The loop -/

/-- What one pass does. -/
inductive Operation where
  | fmCreate (path : Bytes)
  | fmDelete (path : Bytes)
  | fmWrite (path data : Bytes)
  | fmRead (path : Bytes)
  | fmCopy (src dst : Bytes)
  | fmInfo (path : Bytes)
  | dirList (path : Bytes)
  | dirCreate (path : Bytes)
  | dirDelete (path : Bytes)
  | logView
  | gatewayServerMenu (start : ServerStart) (commands : List GatewayCommand)
  /-- `"Invalid choice"`. -/
  | invalid
  deriving DecidableEq

/-- The input and the variables of `menu_start`, with the operations so far. -/
structure Session where
  stdin : Bytes
  choice : ℤ
  path : Bytes
  path2 : Bytes
  performed : List Operation
  /-- `menu_start` has returned. -/
  returned : Bool
  deriving DecidableEq

/-- `scanf("%d", &choice); clear_input_buffer();` -/
def Session.readChoice (s : Session) : Session :=
  let (n, rest) := scanInt s.stdin
  { s with choice := n.getD s.choice, stdin := clearInputBuffer rest }

def Session.perform (s : Session) (op : Operation) : Session :=
  { s with performed := s.performed ++ [op], stdin := waitEnter s.stdin }

def Session.onPath (s : Session) (op : Bytes → Operation) : Session :=
  let (path, rest) := getString pathSize s.path s.stdin
  { s with path := path, stdin := rest }.perform (op path)

/-- `case 3`. The buffer is empty before. -/
def Session.onContent (s : Session) : Session :=
  let (path, rest) := getString pathSize s.path s.stdin
  let (data, rest) := getString contentSize [] rest
  { s with path := path, stdin := rest }.perform (.fmWrite path data)

/-- `case 5`. -/
def Session.onTwoPaths (s : Session) : Session :=
  let (path, rest) := getString pathSize s.path s.stdin
  let (path2, rest) := getString pathSize s.path2 rest
  { s with path := path, path2 := path2, stdin := rest }.perform (.fmCopy path path2)

/-- `gateway_server_menu` (`src/menu.c` lines 90–139). -/
def Session.onServer (s : Session) (start : ServerStart) : Session :=
  match start with
  | .noPool | .noGateway => s.perform (.gatewayServerMenu start [])
  | .noThread => { s with performed := s.performed ++ [.gatewayServerMenu start []] }
  | .running =>
    let (cmds, rest) := interactive s.stdin
    { s with performed := s.performed ++ [.gatewayServerMenu start cmds], stdin := rest }

/-- The `switch`. -/
def Session.switch (s : Session) (start : ServerStart) : Session :=
  match s.choice with
  | 1 => s.onPath .fmCreate
  | 2 => s.onPath .fmDelete
  | 3 => s.onContent
  | 4 => s.onPath .fmRead
  | 5 => s.onTwoPaths
  | 6 => s.onPath .fmInfo
  | 7 => s.onPath .dirList
  | 8 => s.onPath .dirCreate
  | 9 => s.onPath .dirDelete
  | 10 => s.perform .logView
  | 11 => s.onServer start
  | 0 => { s with returned := true }
  | _ => s.perform .invalid

/-- One pass of the loop. -/
def Session.step (s : Session) (start : ServerStart) : Option Session :=
  if s.returned then none else some (s.readChoice.switch start)

/-- `menu_start` is called; the values of its variables are those that happen to be there. -/
def Session.begin (stdin : Bytes) (choice : ℤ) (path path2 : Bytes) : Session :=
  ⟨stdin, choice, path, path2, [], false⟩

/-! ## Strings in their buffers -/

/-- A string without a newline that fits into `n + 1` bytes with its NUL. -/
structure Fits (n : ℕ) (s : Bytes) : Prop where
  length_le : s.length ≤ n
  noNul : 0 ∉ s
  noNewline : newline ∉ s

def GatewayCommand.Ok : GatewayCommand → Prop
  | .unknown cmd => Fits (cmdSize - 1) cmd
  | _ => True

/-- What the functions are called with fits into the buffers of `menu_start`. -/
def Operation.Ok : Operation → Prop
  | .fmCreate path | .fmDelete path | .fmRead path | .fmInfo path => Fits (pathSize - 1) path
  | .dirList path | .dirCreate path | .dirDelete path => Fits (pathSize - 1) path
  | .fmWrite path data => Fits (pathSize - 1) path ∧ Fits (contentSize - 1) data
  | .fmCopy src dst => Fits (pathSize - 1) src ∧ Fits (pathSize - 1) dst
  | .gatewayServerMenu _ cmds => ∀ cmd ∈ cmds, cmd.Ok
  | .logView | .invalid => True

theorem fits_cutNewline {n : ℕ} {s : Bytes} (h : s.length ≤ n) : Fits n (cutNewline s) := by
  have hmem : ∀ c ∈ cutNewline s, c ≠ 0 ∧ c ≠ newline := by
    intro c hc
    simpa using List.mem_takeWhile_imp hc
  refine ⟨?_, fun h0 => (hmem 0 h0).1 rfl, fun hnl => (hmem newline hnl).2 rfl⟩
  exact (List.takeWhile_sublist _).length_le.trans h

/-- A string without a newline is left as it is. -/
theorem cutNewline_eq_self {n : ℕ} {s : Bytes} (h : Fits n s) : cutNewline s = s := by
  refine List.takeWhile_eq_self_iff.mpr fun c hc => ?_
  rw [Bool.and_eq_true, bne_iff_ne, bne_iff_ne]
  exact ⟨fun h0 => h.noNul (h0 ▸ hc), fun hnl => h.noNewline (hnl ▸ hc)⟩

theorem length_fgets_le {n : ℕ} {stdin line rest : Bytes} (h : fgets newline n stdin = some (line, rest)) :
    line.length ≤ n ∧ rest.length ≤ stdin.length := by
  unfold fgets at h
  split_ifs at h
  obtain ⟨rfl, rfl⟩ := Prod.mk.inj (Option.some.inj h)
  rw [List.length_take, List.length_drop]
  exact ⟨Nat.min_le_left _ _, Nat.sub_le _ _⟩

theorem getString_spec {size : ℕ} {old : Bytes} (hold : old.length ≤ size - 1) (stdin : Bytes) :
    Fits (size - 1) (getString size old stdin).1 ∧
      (getString size old stdin).2.length ≤ stdin.length := by
  unfold getString
  split
  · exact ⟨fits_cutNewline hold, le_rfl⟩
  · next line rest hfgets =>
    obtain ⟨hline, hrest⟩ := length_fgets_le hfgets
    exact ⟨fits_cutNewline hline, hrest⟩

theorem gatewayCommand_ok {n : ℕ} {s : Bytes} (h : Fits n s) (hn : n ≤ cmdSize - 1) {cmd : GatewayCommand}
    (hcmd : gatewayCommand s = some cmd) : cmd.Ok := by
  cases s with
  | nil => cases hcmd
  | cons c rest =>
    rw [gatewayCommand, Option.some.injEq] at hcmd
    subst hcmd
    split_ifs
    · trivial
    · trivial
    · trivial
    · trivial
    · trivial
    · exact ⟨h.length_le.trans hn, h.noNul, h.noNewline⟩

theorem interactiveLoop_spec (fuel : ℕ) (stdin : Bytes) :
    (∀ cmd ∈ (interactiveLoop fuel stdin).1, cmd.Ok) ∧
      (interactiveLoop fuel stdin).2.length ≤ stdin.length := by
  induction fuel generalizing stdin with
  | zero => exact ⟨fun cmd h => (List.not_mem_nil h).elim, le_rfl⟩
  | succ fuel ih =>
    rw [interactiveLoop]
    split
    · exact ⟨fun cmd h => (List.not_mem_nil h).elim, le_rfl⟩
    · next line rest hfgets =>
      obtain ⟨hline, hrest⟩ := length_fgets_le hfgets
      obtain ⟨hcmds, hlength⟩ := ih rest
      split
      · exact ⟨hcmds, hlength.trans hrest⟩
      · refine ⟨fun cmd h => ?_, hrest⟩
        rw [List.mem_singleton.mp h]
        trivial
      · next cmd hcmd =>
        refine ⟨fun cmd' h => ?_, hlength.trans hrest⟩
        rcases List.mem_cons.mp h with rfl | h
        · exact gatewayCommand_ok (fits_cutNewline hline) le_rfl hcmd
        · exact hcmds cmd' h

/-! ## One pass -/

/-- The variables hold strings. -/
def Session.Bounded (s : Session) : Prop := s.path.length ≤ pathSize - 1 ∧ s.path2.length ≤ pathSize - 1

/-- The pass that leads from `s` to `s'` performs an operation. -/
structure Performs (s s' : Session) (op : Operation) : Prop where
  performed : s'.performed = s.performed ++ [op]
  ok : op.Ok
  bounded : s'.Bounded
  length_le : s'.stdin.length ≤ s.stdin.length
  choice : s'.choice = s.choice
  returned : s'.returned = s.returned

section

variable {s : Session} (h : s.Bounded)
include h

theorem performs_perform {op : Operation} (hop : op.Ok) : Performs s (s.perform op) op :=
  ⟨rfl, hop, h, (List.drop_sublist 2 s.stdin).length_le, rfl, rfl⟩

theorem performs_onPath {op : Bytes → Operation} (hop : ∀ path, Fits (pathSize - 1) path → (op path).Ok) :
    ∃ op', Performs s (s.onPath op) op' := by
  obtain ⟨hpath, hrest⟩ := getString_spec h.1 s.stdin
  refine ⟨_, rfl, hop _ hpath, ⟨hpath.length_le, h.2⟩, ?_, rfl, rfl⟩
  exact ((List.drop_sublist 2 _).length_le).trans hrest

theorem performs_onContent : ∃ op, Performs s s.onContent op := by
  obtain ⟨hpath, hrest⟩ := getString_spec h.1 s.stdin
  have hempty : ([] : Bytes).length ≤ contentSize - 1 := Nat.zero_le _
  obtain ⟨hdata, hrest'⟩ := getString_spec hempty (getString pathSize s.path s.stdin).2
  refine ⟨.fmWrite _ _, rfl, ⟨hpath, hdata⟩, ⟨hpath.length_le, h.2⟩, ?_, rfl, rfl⟩
  exact ((List.drop_sublist 2 _).length_le).trans (hrest'.trans hrest)

theorem performs_onTwoPaths : ∃ op, Performs s s.onTwoPaths op := by
  obtain ⟨hpath, hrest⟩ := getString_spec h.1 s.stdin
  obtain ⟨hpath2, hrest'⟩ := getString_spec h.2 (getString pathSize s.path s.stdin).2
  refine ⟨.fmCopy _ _, rfl, ⟨hpath, hpath2⟩, ⟨hpath.length_le, hpath2.length_le⟩, ?_, rfl, rfl⟩
  exact ((List.drop_sublist 2 _).length_le).trans (hrest'.trans hrest)

theorem performs_onServer (start : ServerStart) :
    ∃ op, Performs s (s.onServer start) op := by
  have hnone : (Operation.gatewayServerMenu start []).Ok := fun cmd hmem => (List.not_mem_nil hmem).elim
  cases start with
  | noPool => exact ⟨_, performs_perform h hnone⟩
  | noGateway => exact ⟨_, performs_perform h hnone⟩
  | noThread => exact ⟨_, rfl, hnone, h, le_rfl, rfl, rfl⟩
  | running =>
    obtain ⟨hcmds, hrest⟩ := interactiveLoop_spec (s.stdin.length + 1) s.stdin
    exact ⟨_, rfl, hcmds, h, hrest, rfl, rfl⟩

/-- A pass returns, or performs one operation. -/
theorem Session.switch_effect (start : ServerStart) :
    (s.choice = 0 ∧ s.switch start = { s with returned := true }) ∨
      (s.choice ≠ 0 ∧ ∃ op, Performs s (s.switch start) op) := by
  unfold Session.switch
  split
  case h_12 hzero => exact .inl ⟨hzero, rfl⟩
  all_goals refine .inr ⟨by omega, ?_⟩
  case h_3 => exact performs_onContent h
  case h_5 => exact performs_onTwoPaths h
  case h_10 => exact ⟨_, performs_perform h trivial⟩
  case h_11 => exact performs_onServer h start
  case h_13 => exact ⟨_, performs_perform h trivial⟩
  all_goals exact performs_onPath h fun _ hpath => hpath

end

/-! ## All passes -/

theorem length_afterLine_lt {stdin : Bytes} (h : stdin ≠ []) :
    (afterLine newline stdin).length < stdin.length := by
  have hpos := firstLine_length_pos newline h
  have hle := length_afterLine newline stdin
  omega

theorem readChoice_of_nil {s : Session} (h : s.stdin = []) : s.readChoice = s := by
  obtain ⟨stdin, choice, path, path2, performed, returned⟩ := s
  cases h
  rfl

/-- A choice takes something from the input, unless there is nothing left. -/
theorem length_readChoice_lt {s : Session} (h : s.stdin ≠ []) :
    s.readChoice.stdin.length < s.stdin.length := by
  have hscan := length_scanInt_le s.stdin
  show (afterLine newline (scanInt s.stdin).2).length < s.stdin.length
  by_cases hnil : (scanInt s.stdin).2 = []
  · rw [hnil]
    exact List.length_pos_iff.mpr h
  · exact (length_afterLine_lt hnil).trans_le hscan

/-- What a step does. -/
inductive StepEffect (s : Session) : Session → Prop where
  | returns (hzero : s.readChoice.choice = 0) : StepEffect s { s.readChoice with returned := true }
  | performs {s' : Session} {op : Operation} (hne : s.readChoice.choice ≠ 0)
      (h : Performs s.readChoice s' op) : StepEffect s s'

theorem Session.step_effect {s s' : Session} {start : ServerStart} (h : s.Bounded)
    (hs : s.step start = some s') : s.returned = false ∧ StepEffect s s' := by
  unfold Session.step at hs
  split_ifs at hs with hreturned
  rw [Option.some.injEq] at hs
  refine ⟨Bool.eq_false_iff.mpr hreturned, ?_⟩
  have hbounded : s.readChoice.Bounded := h
  rcases Session.switch_effect hbounded start with ⟨hzero, hswitch⟩ | ⟨hne, op, hperforms⟩
  · rw [hswitch] at hs
    exact hs ▸ .returns hzero
  · rw [hs] at hperforms
    exact .performs hne hperforms

/-- What holds in every session. -/
structure SessionInv (s : Session) : Prop where
  bounded : s.Bounded
  ok : ∀ op ∈ s.performed, op.Ok

theorem SessionInv.step {s s' : Session} {start : ServerStart} (h : SessionInv s)
    (hs : s.step start = some s') : SessionInv s' := by
  obtain ⟨-, heffect⟩ := Session.step_effect h.bounded hs
  cases heffect with
  | returns => exact ⟨h.bounded, h.ok⟩
  | @performs s' op hne hperforms =>
    refine ⟨hperforms.bounded, fun op' hop => ?_⟩
    rw [hperforms.performed] at hop
    rcases List.mem_append.mp hop with hold | hnew
    · exact h.ok op' hold
    · rw [List.mem_singleton.mp hnew]
      exact hperforms.ok

theorem sessionInv_begin {stdin path path2 : Bytes} {choice : ℤ} (hpath : path.length ≤ pathSize - 1)
    (hpath2 : path2.length ≤ pathSize - 1) : SessionInv (.begin stdin choice path path2) :=
  ⟨⟨hpath, hpath2⟩, fun _ h => (List.not_mem_nil h).elim⟩

/-- In every session, whatever is typed: the paths and the content that the functions
    are called with fit into the buffers that they are read into, and hold neither a
    newline nor a NUL. -/
theorem session_arguments {stdin path path2 : Bytes} {choice : ℤ} (hpath : path.length ≤ pathSize - 1)
    (hpath2 : path2.length ≤ pathSize - 1) {starts : List ServerStart} {s : Session}
    (hrun : exec Session.step (.begin stdin choice path path2) starts = some s) :
    ∀ op ∈ s.performed, op.Ok :=
  (Reachable.inv (fun _ _ _ h hs => h.step hs) (sessionInv_begin hpath hpath2) ⟨starts, hrun⟩).ok

/-- The path is longer than its buffer by three bytes: two of them are taken for Enter, and
    the third is the next choice. -/
def longPath : Bytes := bytes "2\n" ++ List.replicate 255 (byte 'a') ++ bytes "bb10\n"

theorem session_arguments_longPath :
    ∃ s, exec Session.step (.begin longPath 0 [] []) [.noPool, .noPool] = some s ∧
      s.performed = [.fmDelete (List.replicate 255 (byte 'a')), .logView] ∧
      ∀ op ∈ s.performed, op.Ok := by
  have hrun : (exec Session.step (.begin longPath 0 [] []) [.noPool, .noPool]).map Session.performed =
      some [.fmDelete (List.replicate 255 (byte 'a')), .logView] := by decide +kernel
  obtain ⟨s, hs, hperformed⟩ := Option.map_eq_some_iff.mp hrun
  exact ⟨s, hs, hperformed, session_arguments (Nat.zero_le _) (Nat.zero_le _) hs⟩

/-! ## The end of the input -/

/-- Nothing is left to read, and the last choice was not `0`. -/
structure AtEnd (s : Session) : Prop where
  stdin : s.stdin = []
  choice : s.choice ≠ 0
  returned : s.returned = false

/-- What a pass does at the end of the input. -/
def Session.repeated (s : Session) (start : ServerStart) : Operation :=
  match s.choice with
  | 1 => .fmCreate (cutNewline s.path)
  | 2 => .fmDelete (cutNewline s.path)
  | 3 => .fmWrite (cutNewline s.path) []
  | 4 => .fmRead (cutNewline s.path)
  | 5 => .fmCopy (cutNewline s.path) (cutNewline s.path2)
  | 6 => .fmInfo (cutNewline s.path)
  | 7 => .dirList (cutNewline s.path)
  | 8 => .dirCreate (cutNewline s.path)
  | 9 => .dirDelete (cutNewline s.path)
  | 10 => .logView
  | 11 => .gatewayServerMenu start []
  | _ => .invalid

theorem cutNewline_cutNewline (s : Bytes) : cutNewline (cutNewline s) = cutNewline s :=
  cutNewline_eq_self (fits_cutNewline le_rfl)

theorem getString_nil (size : ℕ) (old : Bytes) : getString size old [] = (cutNewline old, []) := rfl

/-- The state after a pass at the end of the input. -/
theorem AtEnd.switch {s : Session} (h : AtEnd s) (start : ServerStart) :
    AtEnd (s.switch start) ∧ (s.switch start).performed = s.performed ++ [s.repeated start] ∧
      (s.switch start).repeated = s.repeated := by
  obtain ⟨stdin, choice, path, path2, performed, returned⟩ := s
  obtain ⟨rfl, hne, rfl⟩ := h
  dsimp only at hne
  have hserver : Session.onServer ⟨[], 11, path, path2, performed, false⟩ start =
      ⟨[], 11, path, path2, performed ++ [.gatewayServerMenu start []], false⟩ := by
    cases start <;> rfl
  unfold Session.switch
  dsimp only
  split
  case h_12 => exact absurd rfl hne
  case h_11 =>
    rw [hserver]
    exact ⟨⟨rfl, hne, rfl⟩, rfl, rfl⟩
  case h_13 =>
    refine ⟨⟨rfl, hne, rfl⟩, ?_, ?_⟩
    · simp [Session.perform, Session.repeated]
    · rfl
  all_goals
    refine ⟨⟨rfl, hne, rfl⟩, rfl, funext fun start => ?_⟩
    simp [Session.repeated, Session.onPath, Session.onContent, Session.onTwoPaths, Session.perform,
      getString_nil, cutNewline_cutNewline]

theorem AtEnd.step {s : Session} (h : AtEnd s) (start : ServerStart) :
    ∃ s', s.step start = some s' ∧ AtEnd s' ∧ s'.performed = s.performed ++ [s.repeated start] ∧
      s'.repeated = s.repeated := by
  refine ⟨s.switch start, ?_, h.switch start⟩
  rw [Session.step, h.returned, if_neg Bool.false_ne_true, readChoice_of_nil h.stdin]

/-- From the end of the input on the session goes on as it is. -/
theorem AtEnd.exec {s : Session} (h : AtEnd s) (starts : List ServerStart) :
    ∃ s', exec Session.step s starts = some s' ∧ AtEnd s' ∧
      s'.performed = s.performed ++ starts.map s.repeated := by
  induction starts generalizing s with
  | nil => exact ⟨s, rfl, h, (List.append_nil _).symm⟩
  | cons start starts ih =>
    obtain ⟨s₁, hs, hend, hperformed, hrepeated⟩ := h.step start
    obtain ⟨s', hrun, hend', hperformed'⟩ := ih hend
    refine ⟨s', exec_cons_eq_some.mpr ⟨s₁, hs, hrun⟩, hend', ?_⟩
    rw [hperformed', hperformed, hrepeated, List.append_assoc]
    rfl

/-- A session that has made more passes than there were bytes has come to the end of
    the input. -/
theorem atEnd_of_exec {s s' : Session} (h : s.Bounded) {starts : List ServerStart}
    (hrun : exec Session.step s starts = some s') (hlong : s.stdin.length < starts.length)
    (hreturned : s'.returned = false) : AtEnd s' := by
  induction starts generalizing s with
  | nil => exact absurd hlong (Nat.not_lt_zero _)
  | cons start starts ih =>
    obtain ⟨s₁, hs, hrest⟩ := exec_cons_eq_some.mp hrun
    rw [List.length_cons] at hlong
    cases (Session.step_effect h hs).2 with
    | returns =>
      -- a session that has returned makes no pass
      cases starts with
      | nil =>
        cases hrest
        cases hreturned
      | cons => cases hrest
    | performs hne hperforms =>
      have hle := hperforms.length_le
      have hshrinks : s₁.stdin.length ≤ s.stdin.length - 1 := by
        by_cases hnil : s.stdin = []
        · rw [readChoice_of_nil hnil, hnil] at hle
          exact hle.trans (Nat.zero_le _)
        · have hlt := length_readChoice_lt hnil
          omega
      by_cases hmore : starts = []
      · subst hmore
        cases hrest
        refine ⟨List.eq_nil_of_length_eq_zero ?_, hperforms.choice ▸ hne, hreturned⟩
        have : s.stdin.length = 0 := by simpa using hlong
        omega
      · have hpos := List.length_pos_iff.mpr hmore
        exact ih hperforms.bounded hrest (by omega)

/-- In every session: if `menu_start` has not returned after more passes than there are
    bytes in the input, it never returns, and every further pass repeats what the last
    choice was, with the paths that are in the buffers, and with no content. -/
theorem session_end_of_input {stdin path path2 : Bytes} {choice : ℤ} (hpath : path.length ≤ pathSize - 1)
    (hpath2 : path2.length ≤ pathSize - 1) {starts later : List ServerStart} {s : Session}
    (hrun : exec Session.step (.begin stdin choice path path2) starts = some s)
    (hlong : stdin.length < starts.length) (hreturned : s.returned = false) :
    ∃ s', exec Session.step s later = some s' ∧ s'.returned = false ∧
      s'.performed = s.performed ++ later.map s.repeated := by
  have hend := atEnd_of_exec (sessionInv_begin hpath hpath2).bounded hrun hlong hreturned
  obtain ⟨s', hrun', hend', hperformed⟩ := hend.exec later
  exact ⟨s', hrun', hend'.returned, hperformed⟩

theorem session_end_of_input_delete :
    ∃ s s', exec Session.step (.begin (bytes "2\n/a\n\n\n") 0 [] []) (List.replicate 8 .noPool) = some s ∧
      exec Session.step s [.running, .noPool] = some s' ∧ s'.returned = false ∧
      s'.performed = s.performed ++ List.replicate 2 (.fmDelete (bytes "/a")) := by
  have hrun : (exec Session.step (.begin (bytes "2\n/a\n\n\n") 0 [] []) (List.replicate 8 .noPool)).map
      (fun s => (s.returned, [.running, .noPool].map s.repeated)) =
      some (false, List.replicate 2 (.fmDelete (bytes "/a"))) := by decide +kernel
  obtain ⟨s, hs, hboth⟩ := Option.map_eq_some_iff.mp hrun
  obtain ⟨hreturned, hrepeated⟩ := Prod.mk.inj hboth
  obtain ⟨s', hs', hreturned', hperformed⟩ :=
    session_end_of_input (Nat.zero_le _) (Nat.zero_le _) hs (by decide) hreturned
  exact ⟨s, s', hs, hs', hreturned', hrepeated ▸ hperformed⟩

end LinuxFileManager.Menu
