import LinuxFileManager.Menu.Session

/-!
# What is typed is what is done

The text that a user types for a list of commands: the number of the menu, the strings
that it asks for, and two more characters for `wait_enter`. A string and its newline
have to fit into the buffer, so a path has at most 254 bytes and a content 4094.

Results:

* `session_script`: a session performs the commands that were typed, in order, returns at
  `0`, and leaves what is behind it in the input.
-/

namespace LinuxFileManager.Menu

open Lib

/-! ## Commands -/

/-- A line for a string of at most `n` bytes. -/
structure Line (n : ℕ) where
  text : Bytes
  fits : Fits n text

abbrev PathLine := Line (pathSize - 2)

/-- A line at the prompt of the gateway that does not end it. -/
structure GatewayLine extends Line (cmdSize - 2) where
  ne_quit : gatewayCommand text ≠ some .quit

structure QuitLine extends Line (cmdSize - 2) where
  quit : gatewayCommand text = some .quit

inductive Command where
  | fmCreate (path : PathLine)
  | fmDelete (path : PathLine)
  | fmWrite (path : PathLine) (data : Line (contentSize - 2))
  | fmRead (path : PathLine)
  | fmCopy (src dst : PathLine)
  | fmInfo (path : PathLine)
  | dirList (path : PathLine)
  | dirCreate (path : PathLine)
  | dirDelete (path : PathLine)
  | logView
  | gatewayServerMenu (lines : List GatewayLine) (quit : QuitLine)
  | invalid (n : ℤ) (isInt : IsInt n) (range : n < 0 ∨ 11 < n)

/-- The number in the menu. -/
def Command.number : Command → ℤ
  | .fmCreate _ => 1
  | .fmDelete _ => 2
  | .fmWrite _ _ => 3
  | .fmRead _ => 4
  | .fmCopy _ _ => 5
  | .fmInfo _ => 6
  | .dirList _ => 7
  | .dirCreate _ => 8
  | .dirDelete _ => 9
  | .logView => 10
  | .gatewayServerMenu _ _ => 11
  | .invalid n _ _ => n

/-- What the menu asks for. -/
def Command.lines : Command → List Bytes
  | .fmCreate path | .fmDelete path | .fmRead path | .fmInfo path => [path.text]
  | .dirList path | .dirCreate path | .dirDelete path => [path.text]
  | .fmWrite path data => [path.text, data.text]
  | .fmCopy src dst => [src.text, dst.text]
  | .gatewayServerMenu lines quit => lines.map (·.text) ++ [quit.text]
  | .logView | .invalid _ _ _ => []

/-- What the command stands for. -/
def Command.operation : Command → Operation
  | .fmCreate path => .fmCreate path.text
  | .fmDelete path => .fmDelete path.text
  | .fmWrite path data => .fmWrite path.text data.text
  | .fmRead path => .fmRead path.text
  | .fmCopy src dst => .fmCopy src.text dst.text
  | .fmInfo path => .fmInfo path.text
  | .dirList path => .dirList path.text
  | .dirCreate path => .dirCreate path.text
  | .dirDelete path => .dirDelete path.text
  | .logView => .logView
  | .gatewayServerMenu lines _ =>
    .gatewayServerMenu .running (lines.filterMap (fun line => gatewayCommand line.text) ++ [.quit])
  | .invalid _ _ _ => .invalid

/-! ## Typing -/

/-- The line with the number: blanks before it, and something else behind it. -/
structure ChoiceLine where
  space : Bytes
  junk : Bytes
  allSpace : ∀ c ∈ space, isspace c = true
  noNewline : newline ∉ junk
  noDigit : ∀ c ∈ junk.head?, isdigit c = false

def ChoiceLine.text (line : ChoiceLine) (n : ℤ) : Bytes :=
  line.space ++ (decimal n ++ (line.junk ++ [newline]))

def typedLines (lines : List Bytes) : Bytes := lines.flatMap fun line => line ++ [newline]

/-- A command as it is typed, with the two characters for `wait_enter` and with how far
    the gateway gets when it is called. -/
structure Entry where
  command : Command
  choice : ChoiceLine
  enter : UInt8 × UInt8
  start : ServerStart
  starts : ∀ lines quit, command = .gatewayServerMenu lines quit → start = .running

/-- There is no `wait_enter` behind the gateway. -/
def Entry.enters (e : Entry) : Bytes :=
  match e.command with
  | .gatewayServerMenu _ _ => []
  | _ => [e.enter.1, e.enter.2]

def Entry.text (e : Entry) : Bytes :=
  e.choice.text e.command.number ++ (typedLines e.command.lines ++ e.enters)

def scriptText (script : List Entry) : Bytes := script.flatMap Entry.text

/-! ## Reading the lines -/

theorem isInt_number (c : Command) : IsInt c.number := by
  cases c with
  | invalid n isInt range => exact isInt
  | _ => norm_num [IsInt, Command.number]

theorem readChoice_text {s : Session} {line : ChoiceLine} {n : ℤ} (hn : IsInt n) {rest : Bytes}
    (hstdin : s.stdin = line.text n ++ rest) : s.readChoice = { s with choice := n, stdin := rest } := by
  have hdigit : ∀ c ∈ (line.junk ++ newline :: rest).head?, isdigit c = false := by
    intro c hc
    cases hjunk : line.junk with
    | nil =>
      rw [hjunk] at hc
      cases hc
      decide
    | cons d junk =>
      rw [hjunk] at hc
      cases hc
      exact line.noDigit _ (by rw [hjunk]; rfl)
  have hscan : scanInt s.stdin = (some n, line.junk ++ newline :: rest) := by
    rw [hstdin, ChoiceLine.text]
    simp only [List.append_assoc, List.singleton_append]
    exact scanInt_decimal hn line.allSpace _ hdigit
  simp only [Session.readChoice, hscan, clearInputBuffer, afterLine_append line.noNewline, Option.getD_some]

/-- A whole line comes with one call of `fgets`. -/
theorem fgets_line {n : ℕ} {text : Bytes} (h : Fits n text) (rest : Bytes) :
    fgets newline (n + 1) (text ++ newline :: rest) = some (text ++ [newline], rest) := by
  have hlength : (text ++ [newline]).length ≤ n + 1 := by
    rw [List.length_append, List.length_singleton]
    exact Nat.succ_le_succ h.length_le
  rw [fgets, if_neg (by simp), firstLine_append h.noNewline, List.take_of_length_le hlength,
    List.append_cons text newline rest, List.drop_left]

theorem cutNewline_append {n : ℕ} {text : Bytes} (h : Fits n text) :
    cutNewline (text ++ [newline]) = text := by
  have hself := List.takeWhile_eq_self_iff.mp (cutNewline_eq_self h)
  rw [cutNewline, List.takeWhile_append_of_pos hself, List.takeWhile_cons_of_neg (by decide),
    List.append_nil]

theorem getString_line {size : ℕ} (hsize : 2 ≤ size) {text : Bytes} (h : Fits (size - 2) text)
    (old rest : Bytes) : getString size old (text ++ newline :: rest) = (text, rest) := by
  have hfgets := fgets_line h rest
  rw [show size - 2 + 1 = size - 1 by omega] at hfgets
  simp only [getString, hfgets, cutNewline_append h]

theorem typedLines_cons (line : Bytes) (lines : List Bytes) (rest : Bytes) :
    typedLines (line :: lines) ++ rest = line ++ newline :: (typedLines lines ++ rest) := by
  simp [typedLines]

theorem typedLines_one (line rest : Bytes) : typedLines [line] ++ rest = line ++ newline :: rest :=
  typedLines_cons line [] rest

theorem typedLines_two (line line' rest : Bytes) :
    typedLines [line, line'] ++ rest = line ++ newline :: (line' ++ newline :: rest) := by
  rw [typedLines_cons, typedLines_one]

/-- The gateway reads its lines up to the one that ends it. -/
theorem interactiveLoop_lines (lines : List GatewayLine) (quit : QuitLine) (rest : Bytes) {fuel : ℕ}
    (hfuel : lines.length < fuel) :
    interactiveLoop fuel (typedLines (lines.map (·.text) ++ [quit.text]) ++ rest) =
      (lines.filterMap (fun line => gatewayCommand line.text) ++ [.quit], rest) := by
  induction lines generalizing fuel with
  | nil =>
    obtain ⟨fuel, rfl⟩ := Nat.exists_eq_add_of_lt hfuel
    rw [List.map_nil, List.nil_append, typedLines_cons]
    have hfgets := fgets_line quit.fits ((typedLines []) ++ rest)
    simp only [interactiveLoop]
    rw [show cmdSize - 1 = cmdSize - 2 + 1 from rfl, hfgets]
    simp only [cutNewline_append quit.fits, quit.quit]
    rfl
  | cons line lines ih =>
    obtain ⟨fuel, rfl⟩ : ∃ m, fuel = m + 1 := ⟨fuel - 1, by rw [List.length_cons] at hfuel; omega⟩
    have hrest := @ih fuel (by rw [List.length_cons] at hfuel; omega)
    rw [List.map_cons, List.cons_append, typedLines_cons]
    have hfgets := fgets_line line.fits (typedLines (lines.map (·.text) ++ [quit.text]) ++ rest)
    simp only [interactiveLoop]
    rw [show cmdSize - 1 = cmdSize - 2 + 1 from rfl, hfgets]
    simp only [cutNewline_append line.fits, List.filterMap_cons]
    cases hcmd : gatewayCommand line.text with
    | none => exact hrest
    | some cmd =>
      cases cmd with
      | quit => exact absurd hcmd line.ne_quit
      | _ => simp only [hrest, List.cons_append]

theorem length_le_typedLines (lines : List Bytes) : lines.length ≤ (typedLines lines).length := by
  induction lines with
  | nil => exact le_rfl
  | cons line lines ih =>
    have hcons := typedLines_cons line lines []
    rw [List.append_nil, List.append_nil] at hcons
    rw [hcons, List.length_append, List.length_cons, List.length_cons]
    omega

/-! ## One command -/

/-- The pass from `s` to `s'` has performed `op` and left `rest` in the input. -/
structure Done (s s' : Session) (op : Operation) (rest : Bytes) : Prop where
  performed : s'.performed = s.performed ++ [op]
  stdin : s'.stdin = rest
  returned : s'.returned = s.returned

section

variable {s : Session} {a b : UInt8} {rest : Bytes}

theorem perform_enters (hstdin : s.stdin = a :: b :: rest) (op : Operation) :
    Done s (s.perform op) op rest :=
  ⟨rfl, by rw [Session.perform, hstdin]; rfl, rfl⟩

theorem onPath_line (path : PathLine) (hstdin : s.stdin = path.text ++ newline :: a :: b :: rest)
    (op : Bytes → Operation) : Done s (s.onPath op) (op path.text) rest := by
  have hread := getString_line (by decide) path.fits s.path (a :: b :: rest)
  simp only [Session.onPath, hstdin, hread]
  exact ⟨rfl, rfl, rfl⟩

theorem onContent_lines (path : PathLine) (data : Line (contentSize - 2))
    (hstdin : s.stdin = path.text ++ newline :: (data.text ++ newline :: a :: b :: rest)) :
    Done s s.onContent (.fmWrite path.text data.text) rest := by
  have hread := getString_line (by decide) path.fits s.path (data.text ++ newline :: a :: b :: rest)
  have hread' := getString_line (by decide) data.fits [] (a :: b :: rest)
  simp only [Session.onContent, hstdin, hread, hread']
  exact ⟨rfl, rfl, rfl⟩

theorem onTwoPaths_lines (src dst : PathLine)
    (hstdin : s.stdin = src.text ++ newline :: (dst.text ++ newline :: a :: b :: rest)) :
    Done s s.onTwoPaths (.fmCopy src.text dst.text) rest := by
  have hread := getString_line (by decide) src.fits s.path (dst.text ++ newline :: a :: b :: rest)
  have hread' := getString_line (by decide) dst.fits s.path2 (a :: b :: rest)
  simp only [Session.onTwoPaths, hstdin, hread, hread']
  exact ⟨rfl, rfl, rfl⟩

theorem onServer_lines (lines : List GatewayLine) (quit : QuitLine)
    (hstdin : s.stdin = typedLines (lines.map (·.text) ++ [quit.text]) ++ rest) :
    Done s (s.onServer .running)
      (.gatewayServerMenu .running (lines.filterMap (fun line => gatewayCommand line.text) ++ [.quit]))
      rest := by
  have hlength : lines.length < s.stdin.length + 1 := by
    have hlines := length_le_typedLines (lines.map (·.text) ++ [quit.text])
    rw [List.length_append, List.length_map, List.length_singleton] at hlines
    rw [hstdin, List.length_append]
    omega
  have hread := interactiveLoop_lines lines quit rest hlength
  simp only [Session.onServer, interactive]
  rw [← hstdin] at hread
  rw [hread]
  exact ⟨rfl, rfl, rfl⟩

end

/-- The `switch` reads what belongs to the command, and performs it. -/
theorem switch_command (e : Entry) {s : Session} {rest : Bytes} (hchoice : s.choice = e.command.number)
    (hstdin : s.stdin = typedLines e.command.lines ++ (e.enters ++ rest)) :
    Done s (s.switch e.start) e.command.operation rest := by
  obtain ⟨command, choice, ⟨a, b⟩, start, starts⟩ := e
  have hpath : ∀ (path : PathLine) op, s.stdin = typedLines [path.text] ++ (a :: b :: rest) →
      Done s (s.onPath op) (op path.text) rest :=
    fun path op h => onPath_line path (h.trans (typedLines_one _ _)) op
  unfold Session.switch
  rw [hchoice]
  cases command with
  | fmCreate path => exact hpath path _ hstdin
  | fmDelete path => exact hpath path _ hstdin
  | fmRead path => exact hpath path _ hstdin
  | fmInfo path => exact hpath path _ hstdin
  | dirList path => exact hpath path _ hstdin
  | dirCreate path => exact hpath path _ hstdin
  | dirDelete path => exact hpath path _ hstdin
  | fmWrite path data => exact onContent_lines path data (hstdin.trans (typedLines_two _ _ (a :: b :: rest)))
  | fmCopy src dst => exact onTwoPaths_lines src dst (hstdin.trans (typedLines_two _ _ (a :: b :: rest)))
  | logView => exact perform_enters hstdin _
  | gatewayServerMenu lines quit =>
    obtain rfl := starts lines quit rfl
    exact onServer_lines lines quit hstdin
  | invalid n isInt range =>
    dsimp only [Command.number]
    split <;> first | omega | exact perform_enters hstdin _

theorem step_entry (e : Entry) {s : Session} {rest : Bytes} (hreturned : s.returned = false)
    (hstdin : s.stdin = e.text ++ rest) :
    ∃ s', s.step e.start = some s' ∧ Done s s' e.command.operation rest := by
  rw [Entry.text, List.append_assoc, List.append_assoc] at hstdin
  have hchoice := readChoice_text (isInt_number e.command) hstdin
  have hdone := switch_command e (s := s.readChoice) (by rw [hchoice]) (by rw [hchoice])
  have hstep : s.step e.start = some (s.readChoice.switch e.start) := by
    rw [Session.step, hreturned, if_neg Bool.false_ne_true]
  refine ⟨_, hstep, ?_, hdone.stdin, ?_⟩
  · exact hdone.performed
  · exact hdone.returned

/-! ## Scripts -/

theorem exec_script (script : List Entry) {s : Session} {rest : Bytes} (hreturned : s.returned = false)
    (hstdin : s.stdin = scriptText script ++ rest) :
    ∃ s', exec Session.step s (script.map Entry.start) = some s' ∧
      s'.performed = s.performed ++ script.map (fun e => e.command.operation) ∧ s'.stdin = rest ∧
      s'.returned = false := by
  induction script generalizing s with
  | nil => exact ⟨s, rfl, (List.append_nil _).symm, hstdin, hreturned⟩
  | cons e script ih =>
    rw [scriptText, List.flatMap_cons, List.append_assoc] at hstdin
    obtain ⟨s₁, hs, hdone⟩ := step_entry e hreturned hstdin
    obtain ⟨s', hrun, hperformed, hrest, hend⟩ := ih (hdone.returned.trans hreturned) hdone.stdin
    refine ⟨s', exec_cons_eq_some.mpr ⟨s₁, hs, hrun⟩, ?_, hrest, hend⟩
    rw [hperformed, hdone.performed, List.append_assoc]
    rfl

/-- The last pass. -/
theorem step_exit {s : Session} {line : ChoiceLine} {rest : Bytes} (hreturned : s.returned = false)
    (hstdin : s.stdin = line.text 0 ++ rest) (start : ServerStart) :
    s.step start = some { s with choice := 0, stdin := rest, returned := true } := by
  have hchoice := readChoice_text ⟨by decide, by decide⟩ hstdin
  rw [Session.step, hreturned, if_neg Bool.false_ne_true, hchoice]
  rfl

/-- Whatever happens to be in the variables, a session in which a list of commands and then
    `0` is typed performs these commands with these arguments, in order, and nothing else.
    It returns at the `0` and leaves what is behind it unread. -/
theorem session_script (script : List Entry) (line : ChoiceLine) (last : ServerStart) (choice : ℤ)
    (path path2 rest : Bytes) :
    ∃ s, exec Session.step (.begin (scriptText script ++ (line.text 0 ++ rest)) choice path path2)
        (script.map Entry.start ++ [last]) = some s ∧
      s.performed = script.map (fun e => e.command.operation) ∧ s.stdin = rest ∧ s.returned = true := by
  obtain ⟨s, hrun, hperformed, hstdin, hreturned⟩ :=
    exec_script script (s := .begin (scriptText script ++ (line.text 0 ++ rest)) choice path path2) rfl rfl
  refine ⟨{ s with choice := 0, stdin := rest, returned := true }, ?_, hperformed, rfl, rfl⟩
  rw [exec_append hrun]
  exact exec_cons_eq_some.mpr ⟨_, step_exit hreturned hstdin last, rfl⟩

end LinuxFileManager.Menu
