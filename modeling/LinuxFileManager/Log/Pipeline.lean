import LinuxFileManager.Lib.FileSystem
import LinuxFileManager.Lib.Lines
import LinuxFileManager.Lib.System

/-!
# From the event log to the database

Three programs share the event log `events.json.log`. The gateway appends lines
to the file that it opened when it started (`src/log_json.c` lines 112–126 and
185–194), `log_etl.py` imports the lines behind an offset that it keeps in a file
of its own, and `log_rotate.sh` (lines 45–66) moves the log to the archive,
creates a new one and deletes the offset.

Each program is a state machine, with a step for each of its system calls, and
the steps of the three come in any order. A run of `log_etl.py` may fail at any
point (`EtlAction.fail`): with an exception, with a database error, which rolls
the batch back, or because the process dies. So may a run of `log_rotate.sh`.

What the loop of `log_etl.py` makes of the bytes of a line, from decoding to the
record of `parse_line`, is the parameter `parse`.

The ghosts `events` and `epoch` record what has been appended where, and count
the steps of `log_rotate.sh` that move the log or delete the offset. No step
depends on them.

Results:

* `etlStep_move`: what the steps of `log_etl.py` do.
* `readLine_of_lineAt`: in a file without carriage returns, what `log_etl.py`
  takes for a line is one, and it counts its bytes.
-/

namespace LinuxFileManager.Log

open Lib

def lf : UInt8 := 0x0A
def cr : UInt8 := 0x0D

/-! ## Reading lines -/

/-- A line as a text file yields it: the bytes it has in the file, and its
    text, in UTF-8, in which the line ends with a line feed. -/
structure TextLine where
  raw : List UInt8
  text : List UInt8

/-- The next line of a text file opened with universal newlines: the terminators
    CR, LF and CR LF are all read as a line feed. -/
def readLine : List UInt8 → TextLine
  | [] => ⟨[], []⟩
  | b :: bs =>
    if b = lf then ⟨[lf], [lf]⟩
    else if b = cr then if bs.head? = some lf then ⟨[cr, lf], [lf]⟩ else ⟨[cr], [lf]⟩
    else ⟨b :: (readLine bs).raw, b :: (readLine bs).text⟩

/-! ## State -/

/-- `BATCH_SIZE`. -/
def batchSize : ℕ := 1000

/-- What the loop makes of a line: a record, nothing (`None`), or an exception. -/
inductive Parsed (ρ : Type) where
  | record (r : ρ)
  | skipped
  | raised
  deriving DecidableEq

/-- A row of `gateway_events`. The first three fields are ghosts: the file and the
    bytes of it that the record was read from. -/
structure Row (ρ : Type) where
  inode : ℕ
  start : ℕ
  stop : ℕ
  record : ρ

/-- A line that the gateway has appended: the file, where it starts and its bytes. -/
structure Event where
  inode : ℕ
  start : ℕ
  line : List UInt8

/-- The names that the programs use for the log. -/
inductive FileName where
  | log
  | archive (timestamp : ℕ)
  deriving DecidableEq

/-- The loop over the lines: the open file and the position in it,
    `current_offset` and `batch`. The field `epoch` is a ghost: the epoch when the
    run read the offset. -/
structure Reading (ρ : Type) where
  inode : ℕ
  pos : ℕ
  currentOffset : ℕ
  batch : List (Row ρ)
  epoch : ℕ

/-- Where `main` of `log_etl.py` stands. -/
inductive EtlPc (ρ : Type) where
  /-- Not running. -/
  | idle
  /-- Behind `os.path.exists(LOG_FILE)`. -/
  | started
  /-- Behind `read_last_offset()`. -/
  | offsetRead (lastOffset epoch : ℕ)
  /-- Behind the comparison with the size of the file. -/
  | sized (lastOffset epoch : ℕ)
  /-- In the loop. -/
  | reading (r : Reading ρ)
  /-- Behind the loop, with a batch that is not empty. -/
  | flushing (r : Reading ρ)
  /-- At `save_last_offset(current_offset)`. -/
  | saving (offset epoch : ℕ)
  /-- Behind `open(OFFSET_FILE, 'w')`, before the offset is written. -/
  | truncated (offset epoch : ℕ)

/-- Where `log_rotate.sh` stands. -/
inductive RotatePc where
  | idle
  /-- Before `mv`. -/
  | moving
  /-- Before `touch`. -/
  | moved
  /-- Before `rm -f .last_offset`. -/
  | touched

structure Pipeline (ρ : Type) where
  /-- The log and the archive. -/
  fs : FileSystem FileName
  /-- The file that `json_fd` of the gateway stands for. -/
  gateway : Option ℕ
  /-- `OFFSET_FILE`: missing, empty, or with an offset. -/
  offsetFile : Option (Option ℕ)
  /-- The committed rows of `gateway_events`, in the order of their commits. -/
  table : List (Row ρ)
  etl : EtlPc ρ
  rotate : RotatePc
  events : List Event
  epoch : ℕ

/-- What the offset file says: `0` when it is missing or empty. -/
def offsetOf : Option (Option ℕ) → ℕ
  | some (some offset) => offset
  | _ => 0

theorem offsetOf_map (file : Option (Option ℕ)) (offset : ℕ) :
    offsetOf (file.map fun _ => some offset) = if file = none then 0 else offset := by
  cases file <;> rfl

namespace Pipeline

variable {ρ : Type}

/-- Nothing has run yet. -/
def init (ρ : Type) : Pipeline ρ := ⟨.empty, none, none, [], .idle, .idle, [], 0⟩

/-- The file at `events.json.log`. -/
def log (s : Pipeline ρ) : Option ℕ := s.fs.names .log

/-- What `read_last_offset` (lines 42–49) returns when it can read the file. -/
def savedOffset (s : Pipeline ρ) : ℕ := offsetOf s.offsetFile

/-- The files after `mv "$LOG_FILE" "$ARCHIVE_FILE"`. -/
def mvLog (s : Pipeline ρ) (timestamp : ℕ) : FileSystem FileName :=
  if s.log.isSome then s.fs.rename .log (.archive timestamp) else s.fs

theorem content_mvLog (s : Pipeline ρ) (timestamp : ℕ) :
    (s.mvLog timestamp).content = s.fs.content := by
  unfold mvLog
  split_ifs <;> rfl

theorem nextInode_mvLog (s : Pipeline ρ) (timestamp : ℕ) :
    (s.mvLog timestamp).nextInode = s.fs.nextInode := by
  unfold mvLog
  split_ifs <;> rfl

theorem names_mvLog (s : Pipeline ρ) (timestamp : ℕ) : (s.mvLog timestamp).names .log = none := by
  unfold mvLog
  split_ifs with hlog
  · exact FileSystem.rename_names_self ..
  · exact Option.not_isSome_iff_eq_none.mp hlog

end Pipeline

/-! ## Steps -/

variable {ρ : Type}

inductive EtlAction where
  | start
  /-- `read_last_offset`, which returns `0` when the file cannot be read. -/
  | readOffset (ioError : Bool)
  | checkSize
  | openLog
  | nextLine
  /-- `executemany` and `commit`. -/
  | commit
  | endOfFile
  /-- `open(OFFSET_FILE, 'w')`. -/
  | openOffset
  /-- `f.write(str(offset))`, with the end of the `with` block. -/
  | writeOffset
  /-- The run ends at this point: an exception, a database error, or a kill. -/
  | fail

/-- The body of the loop (lines 118–125) up to the test of the size of the batch;
    `none` when it raises an exception. -/
def Reading.nextLine (parse : List UInt8 → Parsed ρ) (content : List UInt8) (r : Reading ρ) :
    Option (Reading ρ) :=
  let line := readLine (content.drop r.pos)
  let pos := r.pos + line.raw.length
  let currentOffset := r.currentOffset + line.text.length
  match parse line.text with
  | .raised => none
  | .skipped => some { r with pos := pos, currentOffset := currentOffset }
  | .record record =>
    some { r with
      pos := pos
      currentOffset := currentOffset
      batch := r.batch ++ [⟨r.inode, r.pos, pos, record⟩] }

/-- `main` of `log_etl.py` (lines 84–153). -/
def etlStep (parse : List UInt8 → Parsed ρ) (s : Pipeline ρ) :
    EtlPc ρ → EtlAction → Option (Pipeline ρ)
  | .idle, .start => some { s with etl := if s.log.isSome then .started else .idle }
  | .started, .readOffset ioError =>
    some { s with etl := .offsetRead (if ioError then 0 else s.savedOffset) s.epoch }
  | .offsetRead lastOffset epoch, .checkSize =>
    match s.log with
    | none => none
    | some i =>
      some { s with
        etl := if lastOffset ≥ (s.fs.content i).length then .idle else .sized lastOffset epoch }
  | .sized lastOffset epoch, .openLog =>
    match s.log with
    | none => none
    | some i => some { s with etl := .reading ⟨i, lastOffset, lastOffset, [], epoch⟩ }
  | .reading r, .nextLine =>
    if r.batch.length < batchSize ∧ r.pos < (s.fs.content r.inode).length then
      (r.nextLine parse (s.fs.content r.inode)).map fun r' => { s with etl := .reading r' }
    else none
  | .reading r, .commit =>
    if r.batch.length ≥ batchSize then
      some { s with table := s.table ++ r.batch, etl := .reading { r with batch := [] } }
    else none
  | .reading r, .endOfFile =>
    if r.batch.length < batchSize ∧ (s.fs.content r.inode).length ≤ r.pos then
      some { s with etl := if r.batch = [] then .saving r.currentOffset r.epoch else .flushing r }
    else none
  | .flushing r, .commit =>
    some { s with table := s.table ++ r.batch, etl := .saving r.currentOffset r.epoch }
  | .saving offset epoch, .openOffset =>
    some { s with offsetFile := some none, etl := .truncated offset epoch }
  | .truncated offset _, .writeOffset =>
    -- a file that has been deleted in between stays deleted
    some { s with offsetFile := s.offsetFile.map fun _ => some offset, etl := .idle }
  | .idle, .fail => none
  | _, .fail => some { s with etl := .idle }
  | _, _ => none

inductive RotateAction where
  /-- The two tests; `old` is the verdict of `find -mtime`. -/
  | start (old : Bool)
  | mv (timestamp : ℕ)
  | touch
  /-- `rm -f .last_offset`. -/
  | reset
  /-- The script is killed. -/
  | fail

/-- `log_rotate.sh` (lines 45–66). -/
def rotateStep (s : Pipeline ρ) : RotatePc → RotateAction → Option (Pipeline ρ)
  | .idle, .start old => some { s with rotate := if s.log.isSome && old then .moving else .idle }
  | .moving, .mv timestamp =>
    some { s with
      fs := s.mvLog timestamp
      rotate := .moved
      epoch := s.epoch + 1 }
  | .moved, .touch => some { s with fs := (s.fs.openCreate .log).2, rotate := .touched }
  | .touched, .reset => some { s with offsetFile := none, rotate := .idle, epoch := s.epoch + 1 }
  | .idle, .fail => none
  | _, .fail => some { s with rotate := .idle }
  | _, _ => none

inductive PipelineAction where
  /-- `log_json_init` (lines 112–126), when the gateway starts or starts again. -/
  | gatewayStart
  /-- `log_json_close`. -/
  | gatewayStop
  /-- `log_event_json` writes a line (lines 185–194). -/
  | append (body : List UInt8)
  | etl (a : EtlAction)
  | rotate (a : RotateAction)

def Pipeline.step (parse : List UInt8 → Parsed ρ) (s : Pipeline ρ) :
    PipelineAction → Option (Pipeline ρ)
  | .gatewayStart =>
    some { s with fs := (s.fs.openCreate .log).2, gateway := some (s.fs.openCreate .log).1 }
  | .gatewayStop => some { s with gateway := none }
  | .append body =>
    match s.gateway with
    | none => some s
    | some i =>
      some { s with
        fs := s.fs.appendTo i (body ++ [lf])
        events := s.events ++ [⟨i, (s.fs.content i).length, body ++ [lf]⟩] }
  | .etl a => etlStep parse s s.etl a
  | .rotate a => rotateStep s s.rotate a

/-! ## What the steps of `log_etl.py` do -/

section

variable {parse : List UInt8 → Parsed ρ}

/-- The body of the loop moves behind the line, counts its text, and puts its
    record, if it has one, into the batch. -/
structure Advances (parse : List UInt8 → Parsed ρ) (content : List UInt8) (r r' : Reading ρ) : Prop where
  inode : r'.inode = r.inode
  epoch : r'.epoch = r.epoch
  pos : r'.pos = r.pos + (readLine (content.drop r.pos)).raw.length
  currentOffset : r'.currentOffset = r.currentOffset + (readLine (content.drop r.pos)).text.length
  batch : r'.batch = r.batch ∧ parse (readLine (content.drop r.pos)).text = .skipped ∨
    ∃ record, parse (readLine (content.drop r.pos)).text = .record record ∧
      r'.batch = r.batch ++ [⟨r.inode, r.pos, r'.pos, record⟩]

theorem Reading.nextLine_advances {content : List UInt8} {r r' : Reading ρ}
    (h : r.nextLine parse content = some r') : Advances parse content r r' := by
  unfold Reading.nextLine at h
  dsimp only at h
  cases hparse : parse (readLine (content.drop r.pos)).text with
  | record record =>
    rw [hparse] at h
    cases h
    exact ⟨rfl, rfl, rfl, rfl, .inr ⟨record, hparse, rfl⟩⟩
  | skipped =>
    rw [hparse] at h
    cases h
    exact ⟨rfl, rfl, rfl, rfl, .inl ⟨rfl, hparse⟩⟩
  | raised =>
    rw [hparse] at h
    cases h

/-- The steps of `log_etl.py`. -/
inductive EtlMove (parse : List UInt8 → Parsed ρ) (s : Pipeline ρ) :
    EtlPc ρ → EtlAction → Pipeline ρ → Prop where
  | starts {i : ℕ} (hlog : s.log = some i) : EtlMove parse s .idle .start { s with etl := .started }
  | absent (hlog : s.log = none) : EtlMove parse s .idle .start { s with etl := .idle }
  | reads (ioError : Bool) :
      EtlMove parse s .started (.readOffset ioError)
        { s with etl := .offsetRead (if ioError then 0 else s.savedOffset) s.epoch }
  | upToDate {i lastOffset epoch : ℕ} (hlog : s.log = some i)
      (hle : (s.fs.content i).length ≤ lastOffset) :
      EtlMove parse s (.offsetRead lastOffset epoch) .checkSize { s with etl := .idle }
  | goesOn {i lastOffset epoch : ℕ} (hlog : s.log = some i)
      (hlt : lastOffset < (s.fs.content i).length) :
      EtlMove parse s (.offsetRead lastOffset epoch) .checkSize
        { s with etl := .sized lastOffset epoch }
  | opens {i lastOffset epoch : ℕ} (hlog : s.log = some i) :
      EtlMove parse s (.sized lastOffset epoch) .openLog
        { s with etl := .reading ⟨i, lastOffset, lastOffset, [], epoch⟩ }
  | takes {r r' : Reading ρ} (hpos : r.pos < (s.fs.content r.inode).length)
      (hr : Advances parse (s.fs.content r.inode) r r') :
      EtlMove parse s (.reading r) .nextLine { s with etl := .reading r' }
  | commits {r : Reading ρ} :
      EtlMove parse s (.reading r) .commit
        { s with table := s.table ++ r.batch, etl := .reading { r with batch := [] } }
  | ends {r : Reading ρ} (hend : (s.fs.content r.inode).length ≤ r.pos) (hbatch : r.batch = []) :
      EtlMove parse s (.reading r) .endOfFile { s with etl := .saving r.currentOffset r.epoch }
  | flushes {r : Reading ρ} (hend : (s.fs.content r.inode).length ≤ r.pos) :
      EtlMove parse s (.reading r) .endOfFile { s with etl := .flushing r }
  | commitsLast {r : Reading ρ} :
      EtlMove parse s (.flushing r) .commit
        { s with table := s.table ++ r.batch, etl := .saving r.currentOffset r.epoch }
  | truncates {offset epoch : ℕ} :
      EtlMove parse s (.saving offset epoch) .openOffset
        { s with offsetFile := some none, etl := .truncated offset epoch }
  | writes {offset epoch : ℕ} :
      EtlMove parse s (.truncated offset epoch) .writeOffset
        { s with offsetFile := s.offsetFile.map fun _ => some offset, etl := .idle }
  | fails {pc : EtlPc ρ} : EtlMove parse s pc .fail { s with etl := .idle }

theorem etlStep_move {s s' : Pipeline ρ} {pc : EtlPc ρ} {a : EtlAction}
    (h : etlStep parse s pc a = some s') : EtlMove parse s pc a s' := by
  unfold etlStep at h
  split at h
  case h_1 =>
    cases h
    cases hlog : s.log with
    | none => exact .absent hlog
    | some i => exact .starts hlog
  case h_2 =>
    cases h
    exact .reads _
  case h_3 =>
    split at h
    · cases h
    · rename_i i hlog
      cases h
      split_ifs with hle
      · exact .upToDate hlog hle
      · exact .goesOn hlog (Nat.lt_of_not_le hle)
  case h_4 =>
    split at h
    · cases h
    · rename_i i hlog
      cases h
      exact .opens hlog
  case h_5 =>
    split_ifs at h with hnext
    obtain ⟨r', hr, rfl⟩ := Option.map_eq_some_iff.mp h
    exact .takes hnext.2 (Reading.nextLine_advances hr)
  case h_6 =>
    split_ifs at h
    cases h
    exact .commits
  case h_7 =>
    split_ifs at h with hend hbatch
    · cases h
      exact .ends hend.2 hbatch
    · cases h
      exact .flushes hend.2
  case h_8 =>
    cases h
    exact .commitsLast
  case h_9 =>
    cases h
    exact .truncates
  case h_10 =>
    cases h
    exact .writes
  case h_11 => cases h
  case h_12 =>
    cases h
    exact .fails
  case h_13 => cases h

end

/-! ## Lines as `log_etl.py` reads them -/

theorem readLine_raw_pos {bs : List UInt8} (h : bs ≠ []) : 0 < (readLine bs).raw.length := by
  cases bs with
  | nil => exact absurd rfl h
  | cons b bs =>
    rw [readLine]
    split_ifs <;> exact Nat.succ_pos _

/-- Without carriage returns a line ends at the first line feed. -/
theorem readLine_append {body : List UInt8} (hlf : lf ∉ body) (hcr : cr ∉ body) (rest : List UInt8) :
    readLine (body ++ [lf] ++ rest) = ⟨body ++ [lf], body ++ [lf]⟩ := by
  induction body with
  | nil => rfl
  | cons b body ih =>
    rw [List.mem_cons, not_or] at hlf hcr
    show readLine (b :: (body ++ [lf] ++ rest)) = _
    rw [readLine, if_neg (Ne.symm hlf.1), if_neg (Ne.symm hcr.1), ih hlf.2 hcr.2]
    rfl

/-- In a file without carriage returns the lines of `log_etl.py` are the lines of
    the file. -/
theorem readLine_of_lineAt {xs line : List UInt8} {p : ℕ} (h : LineAt lf xs p line) (hcr : cr ∉ xs) :
    readLine (xs.drop p) = ⟨line, line⟩ := by
  obtain ⟨-, ⟨rest, hrest⟩, body, hbody, rfl⟩ := h
  rw [← hrest]
  apply readLine_append hbody
  intro hmem
  apply hcr
  apply List.mem_of_mem_drop (i := p)
  rw [← hrest]
  simp [hmem]

/-- No carriage return is followed by a line feed. -/
def NoCrLf (bs : List UInt8) : Prop := bs.IsChain fun b c => ¬ (b = cr ∧ c = lf)

instance (bs : List UInt8) : Decidable (NoCrLf bs) := inferInstanceAs (Decidable (List.IsChain _ _))

/-- The offset is counted in the bytes of the text, and these are as many as in
    the file when it has no CR LF. -/
theorem length_text_readLine {bs : List UInt8} (h : NoCrLf bs) :
    (readLine bs).text.length = (readLine bs).raw.length := by
  induction bs with
  | nil => rfl
  | cons b bs ih =>
    rw [readLine]
    split_ifs with hlf hcr hhead
    · rfl
    · exfalso
      cases bs with
      | nil => cases hhead
      | cons c rest =>
        have hc : c = lf := Option.some.inj hhead
        exact (List.isChain_cons_cons.mp h).1 ⟨hcr, hc⟩
    · rfl
    · rw [List.length_cons, List.length_cons, ih h.tail]

end LinuxFileManager.Log
