import LinuxFileManager.Lib.Ascii
import LinuxFileManager.Lib.Fgets

/-!
# The parser of the configuration file

Model of `ini_parse` (`src/third_reporty/inih/ini.c`) as the header sets it up:
continuation lines, a BOM and inline comments are allowed, the line buffer is on the
stack, parsing goes on behind an error, and the handler does not see new sections.
The text is what the file holds, in bytes, and `fgets` reads it in pieces of at most
199 bytes; the rest of a longer line is consumed in pieces of at most 15 bytes.

A piece may hold a NUL, which ends the string for everything but the stream. When a
piece in `abyss` starts with a NUL, `abyss[strlen(abyss) - 1]` is the byte in front
of the array: `below`.

Results:

* `iniParseStream_eq_lines`: for a text without NUL the pieces are not seen: the
  parser works line by line on the first 199 bytes of each line, and a line of
  200 bytes or more is an error.
* `iniParse_eq_calls`: a handler that refuses nothing gets the same calls, with the
  same result, whatever it does with them.
-/

namespace LinuxFileManager.Config

open Lib

/-! ## Bytes -/

/-- The string in an array: the bytes before the first NUL. -/
def cstr (b : Bytes) : Bytes := b.takeWhile fun c => c != 0

/-! ## Scanning -/

/-- `INI_MAX_LINE`. -/
def iniMaxLine : ℕ := 200

/-- `MAX_SECTION`. -/
def maxSection : ℕ := 50

/-- `MAX_NAME`. -/
def maxName : ℕ := 50

/-- The UTF-8 byte order mark. -/
def bom : Bytes := [0xEF, 0xBB, 0xBF]

/-- `ini_rstrip` (`inih/ini.c` lines 49–54). -/
def iniRstrip (s : Bytes) : Bytes := s.rdropWhile isspace

/-- `ini_lskip` (`inih/ini.c` lines 57–62). -/
def iniLskip (s : Bytes) : Bytes := s.dropWhile isspace

/-- The loop of `ini_find_chars_or_comment`: what it has gone over, and the rest. -/
def scan (chars : Bytes) : Bool → Bytes → Bytes × Bytes
  | _, [] => ([], [])
  | wasSpace, c :: s =>
    if chars.contains c || (wasSpace && c = byte ';') then ([], c :: s)
    else
      let (before, rest) := scan chars (isspace c) s
      (c :: before, rest)

/-- `ini_find_chars_or_comment`; a NULL `chars` is the empty list. -/
def iniFindCharsOrComment (s chars : Bytes) : Bytes × Bytes := scan chars false s

/-- `ini_strncpy0` (`inih/ini.c` lines 86–94). -/
def iniStrncpy0 (src : Bytes) (size : ℕ) : Bytes := src.take (size - 1)

/-! ## The parser -/

/-- `ini_handler`: from the user's data, the section, the name and the value to the
    user's data behind the call; `false` is a `0`. -/
abbrev Handler (σ : Type) := σ → Bytes → Bytes → Bytes → σ × Bool

/-- The variables of `ini_parse_stream` that live as long as the loop. The two numbers are
    `int` in the source; a file of `2^31` lines would overflow them. -/
structure IniState (σ : Type) where
  sect : Bytes
  prevName : Bytes
  lineno : ℕ
  error : ℕ
  user : σ
  deriving DecidableEq

variable {σ : Type}

def IniState.start (user : σ) : IniState σ := ⟨[], [], 0, 0, user⟩

/-- `if (!error) error = lineno`. -/
def IniState.fail (st : IniState σ) : IniState σ :=
  { st with error := if st.error = 0 then st.lineno else st.error }

/-- `HANDLER(user, section, name, value)` and the test of what it returns. -/
def IniState.call (st : IniState σ) (handler : Handler σ) (name value : Bytes) : IniState σ :=
  let (user, accepted) := handler st.user st.sect name value
  let st := { st with user := user }
  if accepted then st else st.fail

/-- A continuation of the value of `prev_name` (lines 188–199). -/
def IniState.continuation (st : IniState σ) (handler : Handler σ) (start : Bytes) : IniState σ :=
  st.call handler st.prevName (iniRstrip (iniFindCharsOrComment start []).1)

/-- A "[section]" line, behind its bracket (lines 201–219). -/
def IniState.sectionLine (st : IniState σ) (start : Bytes) : IniState σ :=
  match iniFindCharsOrComment start (bytes "]") with
  | (title, c :: _) =>
    if c = byte ']' then { st with sect := iniStrncpy0 title maxSection, prevName := [] } else st.fail
  | (_, []) => st.fail

/-- A name[=:]value line (lines 220–256). -/
def IniState.pairLine (st : IniState σ) (handler : Handler σ) (start : Bytes) : IniState σ :=
  match iniFindCharsOrComment start (bytes "=:") with
  | (name, c :: value) =>
    if c = byte '=' ∨ c = byte ':' then
      let name := iniRstrip name
      let value := iniRstrip (iniLskip (iniFindCharsOrComment value []).1)
      { st with prevName := iniStrncpy0 name maxName }.call handler name value
    else st.fail
  | (_, []) => st.fail

/-- The tests on `start` (lines 183–256), where `indented` says that `start > line`. -/
def IniState.stripped (st : IniState σ) (handler : Handler σ) (indented : Bool) : Bytes → IniState σ
  | [] => st
  | c :: start =>
    if c = byte ';' ∨ c = byte '#' then st
    else if st.prevName ≠ [] ∧ indented then st.continuation handler (c :: start)
    else if c = byte '[' then st.sectionLine start
    else st.pairLine handler (c :: start)

/-- `start` behind the BOM (lines 172–179). -/
def skipBom (lineno : ℕ) (line : Bytes) : Bytes :=
  if lineno = 1 ∧ bom <+: line then line.drop bom.length else line

/-- The body of the loop behind the reading (lines 172–256), on the string in `line`. -/
def IniState.line (st : IniState σ) (handler : Handler σ) (line : Bytes) : IniState σ :=
  let start := iniLskip (skipBom st.lineno line)
  st.stripped handler (start.length < line.length) (iniRstrip start)

/-- The loop that consumes the rest of a line that is too long (lines 164–169):
    whether there was any, and the stream behind it. -/
def discard (below : UInt8) : ℕ → Bytes → Bool × Bytes
  | 0, s => (false, s)
  | fuel + 1, s =>
    match fgets newline 15 s with
    | none => (false, s)
    | some (abyss, s) =>
      if (cstr abyss).getLast?.getD below = newline then (true, s) else (true, (discard below fuel s).2)

/-- The reading at the head of the loop of `ini_parse_stream` (lines 139–169): the string
    in `line`, whether the rest of its line had to be consumed, and the stream. -/
def readLine (below : UInt8) (s : Bytes) : Option (Bytes × Bool × Bytes) :=
  (fgets newline (iniMaxLine - 1) s).map fun (piece, s) =>
    let line := cstr piece
    if line.length = iniMaxLine - 1 ∧ line.getLast? ≠ some newline then
      (line, discard below s.length s)
    else (line, false, s)

/-- The loop of `ini_parse_stream` (lines 139–262). Each turn makes the stream
    shorter, so its length is enough fuel. -/
def iniLoop (below : UInt8) (handler : Handler σ) : ℕ → IniState σ → Bytes → IniState σ
  | 0, st, _ => st
  | fuel + 1, st, s =>
    match readLine below s with
    | none => st
    | some (line, long, s) =>
      let st := { st with lineno := st.lineno + 1 }
      let st := if long then st.fail else st
      iniLoop below handler fuel (st.line handler line) s

/-- `ini_parse_stream` with `fgets` on a file that holds `text`. -/
def iniParseStream (below : UInt8) (handler : Handler σ) (user : σ) (text : Bytes) : IniState σ :=
  iniLoop below handler text.length (.start user) text

/-- `ini_parse`: its value and the user's data behind it; `file` is `none` when
    `fopen` fails. -/
def iniParse (below : UInt8) (handler : Handler σ) (user : σ) (file : Option Bytes) : ℤ × σ :=
  match file with
  | none => (-1, user)
  | some text =>
    let st := iniParseStream below handler user text
    (st.error, st.user)

/-- The handler that keeps a list of its calls. -/
def record : Handler (List (Bytes × Bytes × Bytes)) :=
  fun calls sect name value => (calls ++ [(sect, name, value)], true)

example : iniParse 0 record [] (some (bytes "a=1\n[s]\nb : 2 ; two\n  3\nc\n;d=4")) =
    (5, [([], bytes "a", bytes "1"), (bytes "s", bytes "b", bytes "2"),
      (bytes "s", bytes "b", bytes "3")]) := by decide

/-! ## Line by line -/

/-- The parser on a whole line, with its newline. -/
def IniState.wholeLine (handler : Handler σ) (st : IniState σ) (line : Bytes) : IniState σ :=
  let st := { st with lineno := st.lineno + 1 }
  let st := if iniMaxLine ≤ line.length then st.fail else st
  st.line handler (line.take (iniMaxLine - 1))

theorem cstr_eq_self {b : Bytes} (h : 0 ∉ b) : cstr b = b := by
  rw [cstr, List.takeWhile_eq_self_iff]
  exact fun c hc => bne_iff_ne.mpr (ne_of_mem_of_not_mem hc h)

theorem getLast?_ne_of_notMem {b : Bytes} {c : UInt8} (h : c ∉ b) : b.getLast? ≠ some c :=
  fun hlast => h (List.mem_of_getLast? hlast)

theorem getLast?_getD_ne {b : Bytes} {c : UInt8} (h : c ∉ b) (hb : b ≠ []) (below : UInt8) :
    b.getLast?.getD below ≠ c := by
  rw [List.getLast?_eq_some_getLast hb, Option.getD_some]
  exact ne_of_mem_of_not_mem (List.getLast_mem hb) h

/-- The rest of a line is consumed up to its newline and no further. -/
theorem discard_eq (below : UInt8) {fuel : ℕ} {s : Bytes} (hfuel : s.length ≤ fuel) (hs : 0 ∉ s) :
    discard below fuel s = (decide (s ≠ []), afterLine newline s) := by
  induction fuel generalizing s with
  | zero =>
    have hnil : s = [] := List.eq_nil_of_length_eq_zero (by omega)
    rw [hnil]
    rfl
  | succ fuel ih =>
    by_cases hnil : s = []
    · rw [hnil]
      rfl
    · obtain ⟨piece, rest, hfgets, hpiece⟩ := exists_piece newline hnil 15
      have hlt := hpiece.length_lt (by omega) hnil
      have hrest : 0 ∉ rest := fun h => hs (by rw [← hpiece.append]; exact List.mem_append_right _ h)
      have hcstr : cstr piece = piece :=
        cstr_eq_self fun h => hs (by rw [← hpiece.append]; exact List.mem_append_left _ h)
      have hne : piece ≠ [] := List.length_pos_iff.mp (hpiece.length_pos (by omega) hnil)
      rw [decide_eq_true hnil]
      simp only [discard, hfgets, hcstr, ih (by omega) hrest]
      cases hpiece with
      | whole h =>
        rcases firstLine_cases newline s with ⟨hno, hself, hafter⟩ | ⟨body, hbody, hline⟩
        · rw [hself, if_neg (getLast?_getD_ne hno hnil below), hafter]
          rfl
        · rw [hline, List.getLast?_concat, Option.getD_some, if_pos rfl]
      | cut hlength hno hfirst hrest hafter =>
        rw [if_neg (getLast?_getD_ne hno hne below), hafter]

/-- One round of reading takes a line, cut to the buffer. -/
theorem readLine_eq (below : UInt8) {s : Bytes} (hnil : s ≠ []) (hs : 0 ∉ s) :
    readLine below s = some ((firstLine newline s).take (iniMaxLine - 1),
      decide (iniMaxLine ≤ (firstLine newline s).length), afterLine newline s) := by
  have hmax : iniMaxLine = 200 := rfl
  obtain ⟨piece, rest, hfgets, hpiece⟩ := exists_piece newline hnil (iniMaxLine - 1)
  have hrest : 0 ∉ rest := fun h => hs (by rw [← hpiece.append]; exact List.mem_append_right _ h)
  have hcstr : cstr piece = piece :=
    cstr_eq_self fun h => hs (by rw [← hpiece.append]; exact List.mem_append_left _ h)
  rw [readLine, hfgets, Option.map_some]
  simp only [hcstr, discard_eq below le_rfl hrest]
  cases hpiece with
  | whole h =>
    have hshort : ¬ iniMaxLine ≤ (firstLine newline s).length := by omega
    rw [List.take_of_length_le h, decide_eq_false hshort]
    split_ifs with hlong
    · -- a last line of 199 bytes: it looks like a long one, but nothing is left
      rcases firstLine_cases newline s with ⟨-, -, hafter⟩ | ⟨body, -, hline⟩
      · rw [hafter]
        rfl
      · rw [hline, List.getLast?_concat] at hlong
        exact absurd rfl hlong.2
    · rfl
  | cut hlength hno hfirst hne hafter =>
    have hpos := firstLine_length_pos newline hne
    rw [if_pos ⟨hlength, getLast?_ne_of_notMem hno⟩, hfirst, List.take_left' hlength, hafter,
      decide_eq_true hne, decide_eq_true (by rw [List.length_append]; omega)]

theorem readLine_nil (below : UInt8) : readLine below [] = none := rfl

theorem iniLoop_eq (below : UInt8) (handler : Handler σ) {fuel : ℕ} {s : Bytes} (st : IniState σ)
    (hfuel : s.length ≤ fuel) (hs : 0 ∉ s) :
    iniLoop below handler fuel st s = (lines newline s).foldl (IniState.wholeLine handler) st := by
  induction fuel generalizing s st with
  | zero =>
    have hnil : s = [] := List.eq_nil_of_length_eq_zero (by omega)
    rw [hnil]
    rfl
  | succ fuel ih =>
    by_cases hnil : s = []
    · rw [hnil]
      rfl
    · have hle := length_afterLine newline s
      have hpos := firstLine_length_pos newline hnil
      simp only [iniLoop, readLine_eq below hnil hs, lines_of_ne_nil hnil, List.foldl_cons,
        IniState.wholeLine, decide_eq_true_eq]
      exact ih _ (by omega) fun h => hs (mem_of_mem_afterLine h)

/-- For a text without NUL the parser works on whole lines, each cut to the buffer. -/
theorem iniParseStream_eq_lines (below : UInt8) (handler : Handler σ) (user : σ) {text : Bytes}
    (h : 0 ∉ text) : iniParseStream below handler user text =
      (lines newline text).foldl (IniState.wholeLine handler) (.start user) :=
  iniLoop_eq below handler _ le_rfl h

/-! ## Other handlers -/

variable {τ : Type}

/-- The same state with other user's data. -/
def IniState.map (f : σ → τ) (st : IniState σ) : IniState τ :=
  ⟨st.sect, st.prevName, st.lineno, st.error, f st.user⟩

/-- `handler'` does to the image of the user's data what `handler` does to them. -/
def Follows (f : σ → τ) (handler : Handler σ) (handler' : Handler τ) : Prop :=
  ∀ user sect name value, handler' (f user) sect name value =
    (f (handler user sect name value).1, (handler user sect name value).2)

section

variable {f : σ → τ} {handler : Handler σ} {handler' : Handler τ}

theorem IniState.fail_map (f : σ → τ) (st : IniState σ) : (st.map f).fail = st.fail.map f := rfl

theorem IniState.call_map (h : Follows f handler handler') (st : IniState σ) (name value : Bytes) :
    (st.map f).call handler' name value = (st.call handler name value).map f := by
  have hcall : handler' (st.map f).user (st.map f).sect name value = _ := h st.user st.sect name value
  rw [IniState.call, IniState.call, hcall]
  rcases handler st.user st.sect name value with ⟨user, accepted⟩
  cases accepted <;> rfl

theorem IniState.sectionLine_map (f : σ → τ) (st : IniState σ) (start : Bytes) :
    (st.map f).sectionLine start = (st.sectionLine start).map f := by
  rcases hscan : iniFindCharsOrComment start (bytes "]") with ⟨title, _ | ⟨c, rest⟩⟩
  · simp only [IniState.sectionLine, hscan, IniState.fail_map]
  · simp only [IniState.sectionLine, hscan, IniState.fail_map]
    split_ifs <;> rfl

theorem IniState.pairLine_map (h : Follows f handler handler') (st : IniState σ) (start : Bytes) :
    (st.map f).pairLine handler' start = (st.pairLine handler start).map f := by
  rcases hscan : iniFindCharsOrComment start (bytes "=:") with ⟨name, _ | ⟨c, rest⟩⟩
  · simp only [IniState.pairLine, hscan, IniState.fail_map]
  · simp only [IniState.pairLine, hscan, IniState.fail_map]
    split_ifs
    · exact IniState.call_map h { st with prevName := iniStrncpy0 (iniRstrip name) maxName } _ _
    · rfl

theorem IniState.line_map (h : Follows f handler handler') (st : IniState σ) (line : Bytes) :
    (st.map f).line handler' line = (st.line handler line).map f := by
  have hprev : (st.map f).prevName = st.prevName := rfl
  have hlineno : (st.map f).lineno = st.lineno := rfl
  rw [IniState.line, IniState.line, hlineno]
  cases iniRstrip (iniLskip (skipBom st.lineno line)) with
  | nil => rfl
  | cons c start =>
    simp only [IniState.stripped, hprev]
    split_ifs
    · rfl
    · exact IniState.call_map h st _ _
    · exact IniState.sectionLine_map f st _
    · exact IniState.pairLine_map h st _

theorem iniLoop_map (h : Follows f handler handler') (below : UInt8) (fuel : ℕ) (st : IniState σ)
    (s : Bytes) : iniLoop below handler' fuel (st.map f) s = (iniLoop below handler fuel st s).map f := by
  induction fuel generalizing st s with
  | zero => rfl
  | succ fuel ih =>
    rcases hread : readLine below s with _ | ⟨line, long, rest⟩
    · simp only [iniLoop, hread]
    · cases long with
      | false =>
        simp only [iniLoop, hread, Bool.false_eq_true, if_false, ← ih, ← IniState.line_map h]
        rfl
      | true =>
        simp only [iniLoop, hread, if_true, ← ih, ← IniState.line_map h]
        rfl

end

/-- A call of the handler: section, name and value. -/
abbrev Call := Bytes × Bytes × Bytes

/-- The calls that a handler gets that refuses nothing, and what `ini_parse` returns. -/
def iniCalls (below : UInt8) (file : Option Bytes) : ℤ × List Call := iniParse below record [] file

/-- A handler that refuses nothing is called the same way whatever it does. -/
theorem iniParse_eq_calls (below : UInt8) (handler : Handler σ)
    (haccepts : ∀ user sect name value, (handler user sect name value).2 = true) (user : σ)
    (file : Option Bytes) : iniParse below handler user file =
      ((iniCalls below file).1,
        (iniCalls below file).2.foldl (fun user call => (handler user call.1 call.2.1 call.2.2).1) user) := by
  cases file with
  | none => rfl
  | some text =>
    have hfollows : Follows
        (fun calls : List Call =>
          calls.foldl (fun user call => (handler user call.1 call.2.1 call.2.2).1) user)
        record handler := by
      intro calls sect name value
      simp only [record, List.foldl_append, List.foldl_cons, List.foldl_nil]
      exact Prod.ext rfl (haccepts _ _ _ _)
    have hmap := iniLoop_map hfollows below text.length (.start []) text
    simp only [iniCalls, iniParse, iniParseStream]
    rw [show IniState.start user = (IniState.start ([] : List Call)).map (fun calls : List Call =>
      calls.foldl (fun user call => (handler user call.1 call.2.1 call.2.2).1) user) from rfl, hmap]
    rfl

end LinuxFileManager.Config
