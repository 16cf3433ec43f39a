import LinuxFileManager.Lib.Buffer
import LinuxFileManager.Log.Write

/-!
# `fm_copy`

Model of `fm_copy` (`src/file_manager.c` lines 273–336). What the kernel answers
to the calls is an argument (`CopyCalls`): whether each `access` and `open` of
an existing name succeeds, how many bytes each `read` returns or that it fails,
and how many bytes each `write` accepts or that it fails.

The loop `while ((len = read(...)) > 0)` ends at the end of the file and on a
read error alike, and the destination is truncated before the first read.

The last effect of a call is a line in the log, which may be the source or the
destination.

Results:

* `copyLoop_ok`: what the loop has copied when the two files are different.
* `copyFiles_contents`: the contents that a call has left when it comes to the log.
* `fmCopy_faithful_iff`: a copy that returns `0` is faithful exactly when the
  destination is not the source itself, or the source is empty, no read fails
  before the end of the source, and the line in the log spoils neither file.
* `fmCopy_returns`: `fm_copy` returns whatever the sizes of the blocks are.
-/

namespace LinuxFileManager.FileManager

open Lib Log

/-! ## Model -/

/-- A path, the bytes of a C string. -/
abbrev Path := List UInt8

/-- `sizeof(buffer)`. -/
def bufferSize : ℕ := 4096

/-- `sizeof(dir_path)`. -/
def dirPathSize : ℕ := 512

/-- What `read` does: fail, or return at most this many bytes. -/
inductive ReadOutcome where
  | error
  | data (n : ℕ) (pos : 0 < n) (le : n ≤ bufferSize)

/-- The answers of the kernel to one call of `fm_copy`. -/
structure CopyCalls where
  /-- `access(src, F_OK)`, when the file exists. -/
  mayFind : Bool
  /-- `access(src, R_OK)`. -/
  mayRead : Bool
  /-- `open(src, O_RDONLY)`. -/
  mayOpenSrc : Bool
  /-- `access(dir_path, W_OK)`. -/
  mayWriteDir : Bool
  /-- `open(dst, O_CREAT | O_WRONLY | O_TRUNC, 0666)`. -/
  mayOpenDst : Bool
  /-- One pass of the loop after the other. -/
  blocks : List (ReadOutcome × WriteOutcome)

/-- The calls of `read`. -/
def CopyCalls.reads (calls : CopyCalls) : List ReadOutcome := calls.blocks.map Prod.fst

/-- The ways in which `fm_copy` returns `-1`. -/
inductive CopyError where
  | sourceMissing
  | sourceNotReadable
  | openSource
  | directoryNotWritable
  | createDestination
  | writeCopy
  deriving DecidableEq, Repr

/-- The text that is logged. -/
def CopyError.log : CopyError → String
  | .sourceMissing => "Source file does not exist"
  | .sourceNotReadable => "Source file not readable"
  | .openSource => "open source failed"
  | .directoryNotWritable => "Destination directory not writable"
  | .createDestination => "create destination failed"
  | .writeCopy => "write copy failed"

/-- The value that `errno` is set to, if it is. -/
def CopyError.errno : CopyError → Option String
  | .sourceMissing => some "ENOENT"
  | .sourceNotReadable => some "EACCES"
  | .directoryNotWritable => some "EACCES"
  | _ => none

/-- `read(fd_src, buffer, sizeof(buffer))` with `rest` between the offset and the
    end of the file; `none` is `-1`. -/
def ReadOutcome.read (rest : List UInt8) : ReadOutcome → Option (List UInt8)
  | .error => none
  | .data n _ _ => some (rest.take n)

/-- The loop (lines 321–328), from the offsets of the two open files on; `none`
    when it has not ended with the given calls. -/
def copyLoop (fs : FileSystem Path) (fdSrc fdDst offSrc offDst : ℕ) :
    List (ReadOutcome × WriteOutcome) → Option (Except CopyError Unit × FileSystem Path)
  | [] => none
  | (read, write) :: blocks =>
    match read.read ((fs.content fdSrc).drop offSrc) with
    | none => some (.ok (), fs)
    | some [] => some (.ok (), fs)
    | some buffer =>
      match write.accepted buffer.length with
      | none => some (.error .writeCopy, fs)
      | some n =>
        let fs := fs.writeAt fdDst offDst (buffer.take n)
        if n ≠ buffer.length then some (.error .writeCopy, fs)
        else copyLoop fs fdSrc fdDst (offSrc + buffer.length) (offDst + n) blocks

/-- The bytes before the last `'/'`, if there is one (`strrchr`). -/
def directoryOf (path : Path) : Option Path :=
  match path.reverse.dropWhile (fun b => b != 0x2F) with
  | [] => none
  | _ :: dir => some dir.reverse

/-- `strncpy(dir_path, dst, last_slash - dst); dir_path[last_slash - dst] = '\0';`:
    `none` when this writes past the end of `dir_path`. -/
def copyDirPath (dirPath : Buffer UInt8 dirPathSize) (dir : Path) : Option (Buffer UInt8 dirPathSize) :=
  (dirPath.tryWrite 0 dir).bind fun dirPath => dirPath.tryWrite dir.length [0]

/-- The check of the destination directory (lines 299–312): `some true` when it
    passes, `none` when the path does not fit into `dir_path`. -/
def checkDirectory (calls : CopyCalls) (dirPath : Buffer UInt8 dirPathSize) (dst : Path) :
    Option Bool :=
  match directoryOf dst with
  | none => some true
  | some dir => (copyDirPath dirPath dir).map fun _ => !(0 < dir.length && !calls.mayWriteDir)

/-- `fm_copy` up to its line in the log: `.ok` is the return value `0` and `.error` is
    `-1`, with the file system at that point. `none` when the call leaves the object
    `dir_path`, or has not returned with the given calls. -/
def copyFiles (calls : CopyCalls) (dirPath : Buffer UInt8 dirPathSize) (fs : FileSystem Path)
    (src dst : Path) : Option (Except CopyError Unit × FileSystem Path) :=
  match fs.names src with
  | none => some (.error .sourceMissing, fs)
  | some fdSrc =>
    if !calls.mayFind then some (.error .sourceMissing, fs)
    else if !calls.mayRead then some (.error .sourceNotReadable, fs)
    else if !calls.mayOpenSrc then some (.error .openSource, fs)
    else
      match checkDirectory calls dirPath dst with
      | none => none
      | some false => some (.error .directoryNotWritable, fs)
      | some true =>
        if !calls.mayOpenDst then some (.error .createDestination, fs)
        else
          let (fdDst, fs) := fs.openCreate dst
          copyLoop (fs.truncate fdDst) fdSrc fdDst 0 0 calls.blocks

/-- `fm_copy`: `LOG_INFO` or `LOG_ERROR` is the last effect on every way through it. -/
def fmCopy (calls : CopyCalls) (dirPath : Buffer UInt8 dirPathSize) (note : LogCall)
    (fs : FileSystem Path) (logFd : LogFd fs) (src dst : Path) :
    Option (Except CopyError Unit × FileSystem Path) :=
  (copyFiles calls dirPath fs src dst).map fun (ret, fs) =>
    match ret with
    | .ok () => (ret, logWrite logFd.inode note "INFO" "copy file success" fs)
    | .error e => (ret, logWrite logFd.inode note "ERROR" e.log fs)

/-! ## Specification -/

/-- The destination has the content that the source had before the call, and the
    source, when it is another file, is unchanged. -/
def Faithful (fs fs' : FileSystem Path) (src dst : Path) : Prop :=
  fs'.contentAt dst = fs.contentAt src ∧
    (fs'.names dst ≠ fs.names src → fs'.contentAt src = fs.contentAt src)

/-- How many bytes of a file of this size are read before a `read` fails. -/
def bytesRead : ℕ → List ReadOutcome → ℕ
  | size, [] => size
  | _, .error :: _ => 0
  | size, .data n _ _ :: reads => min n size + bytesRead (size - n) reads

/-- No `read` fails while there are bytes of a file of this size left. -/
def NoEarlyError : ℕ → List ReadOutcome → Prop
  | _, [] => True
  | size, .error :: _ => size = 0
  | size, .data n _ _ :: reads => NoEarlyError (size - n) reads

theorem bytesRead_eq_iff {size : ℕ} {reads : List ReadOutcome} :
    bytesRead size reads = size ↔ NoEarlyError size reads := by
  induction reads generalizing size with
  | nil => exact iff_of_true rfl trivial
  | cons read reads ih =>
    cases read with
    | error => exact eq_comm
    | data n pos le =>
      rw [bytesRead, NoEarlyError, ← ih]
      omega

theorem bytesRead_le (size : ℕ) (reads : List ReadOutcome) : bytesRead size reads ≤ size := by
  induction reads generalizing size with
  | nil => exact le_rfl
  | cons read reads ih =>
    cases read with
    | error => exact Nat.zero_le _
    | data n pos le =>
      have hrest := ih (size - n)
      rw [bytesRead]
      omega

theorem bytesRead_zero (reads : List ReadOutcome) : bytesRead 0 reads = 0 :=
  Nat.le_zero.mp (bytesRead_le 0 reads)

theorem noEarlyError_zero (reads : List ReadOutcome) : NoEarlyError 0 reads :=
  bytesRead_eq_iff.mp (bytesRead_zero reads)

instance (size : ℕ) (reads : List ReadOutcome) : Decidable (NoEarlyError size reads) :=
  decidable_of_iff _ bytesRead_eq_iff

instance (fs fs' : FileSystem Path) (src dst : Path) : Decidable (Faithful fs fs' src dst) :=
  inferInstanceAs (Decidable (_ ∧ _))

/-! ## The loop -/

section

variable {fs fs' : FileSystem Path} {fdSrc fdDst : ℕ}

/-- What the body of the loop reads and writes when it does not end the loop. -/
theorem copyLoop_cons_data {off n : ℕ} {pos : 0 < n} {le : n ≤ bufferSize} {write : WriteOutcome}
    {blocks : List (ReadOutcome × WriteOutcome)} {buffer : List UInt8}
    (hbuf : ((fs.content fdSrc).drop off).take n = buffer) (hne : buffer ≠ [])
    (h : copyLoop fs fdSrc fdDst off off ((.data n pos le, write) :: blocks) = some (.ok (), fs')) :
    copyLoop (fs.writeAt fdDst off buffer) fdSrc fdDst (off + buffer.length) (off + buffer.length)
      blocks = some (.ok (), fs') := by
  obtain ⟨b, bs, rfl⟩ := List.exists_cons_of_ne_nil hne
  rw [copyLoop, ReadOutcome.read, hbuf] at h
  dsimp only at h
  cases hacc : write.accepted (b :: bs).length with
  | none =>
    rw [hacc] at h
    cases h
  | some k =>
    rw [hacc] at h
    dsimp only at h
    by_cases hk : k = (b :: bs).length
    · subst hk
      rw [if_neg (not_not.mpr rfl), List.take_length] at h
      exact h
    · rw [if_pos hk] at h
      cases h

/-- Between different files the loop copies from the offset on, up to the end of the
    source unless a read fails before that. -/
theorem copyLoop_ok {blocks : List (ReadOutcome × WriteOutcome)} (hne : fdSrc ≠ fdDst) {off : ℕ}
    (hoff : off ≤ (fs.content fdSrc).length)
    (hdst : fs.content fdDst = (fs.content fdSrc).take off)
    (h : copyLoop fs fdSrc fdDst off off blocks = some (.ok (), fs')) :
    fs'.names = fs.names ∧ fs'.content fdSrc = fs.content fdSrc ∧
      fs'.content fdDst = (fs.content fdSrc).take
        (off + bytesRead ((fs.content fdSrc).length - off) (blocks.map Prod.fst)) := by
  induction blocks generalizing fs off with
  | nil => cases h
  | cons block blocks ih =>
    obtain ⟨read, write⟩ := block
    cases read with
    | error =>
      cases h
      exact ⟨rfl, rfl, hdst⟩
    | data n pos le =>
      rw [List.map_cons, bytesRead]
      cases hbuf : ((fs.content fdSrc).drop off).take n with
      | nil =>
        -- the end of the file
        have hend : (fs.content fdSrc).length - off = 0 := by
          have hlen := congrArg List.length hbuf
          rw [List.length_take, List.length_drop, List.length_nil] at hlen
          omega
        rw [copyLoop, ReadOutcome.read, hbuf] at h
        obtain rfl : fs = fs' := congrArg Prod.snd (Option.some.inj h)
        rw [hend, Nat.zero_sub, bytesRead_zero, Nat.min_zero]
        exact ⟨rfl, rfl, hdst⟩
      | cons b bs =>
        have hlen : (b :: bs).length = min n ((fs.content fdSrc).length - off) := by
          rw [← hbuf, List.length_take, List.length_drop]
        have hrest := copyLoop_cons_data hbuf (List.cons_ne_nil b bs) h
        have hsrc : (fs.writeAt fdDst off (b :: bs)).content fdSrc = fs.content fdSrc :=
          FileSystem.content_writeAt_of_ne hne off _
        have hwritten : (fs.writeAt fdDst off (b :: bs)).content fdDst =
            (fs.content fdSrc).take (off + (b :: bs).length) := by
          have hsize : (fs.content fdDst).length = off := by
            rw [hdst, List.length_take, min_eq_left hoff]
          rw [FileSystem.content_writeAt_end hsize, hdst, List.take_add, hlen, ← hbuf,
            ← List.length_drop, ← List.take_eq_take_min]
        obtain ⟨hnames, hsrc', hdst'⟩ :=
          ih (by rw [hsrc]; omega) (by rw [hsrc]; exact hwritten) hrest
        have hleft : (fs.content fdSrc).length - (off + (b :: bs).length) =
            (fs.content fdSrc).length - off - n := by omega
        rw [hsrc, hleft, hlen, Nat.add_assoc] at hdst'
        exact ⟨hnames, hsrc'.trans hsrc, hdst'⟩

/-- From an empty source the loop copies nothing, even onto itself. -/
theorem copyLoop_ok_empty {blocks : List (ReadOutcome × WriteOutcome)}
    (hsrc : fs.content fdSrc = [])
    (h : copyLoop fs fdSrc fdDst 0 0 blocks = some (.ok (), fs')) : fs' = fs := by
  cases blocks with
  | nil => cases h
  | cons block blocks =>
    obtain ⟨read, write⟩ := block
    rw [copyLoop, hsrc] at h
    cases read with
    | error =>
      cases h
      rfl
    | data n pos le =>
      rw [ReadOutcome.read, List.drop_nil, List.take_nil] at h
      cases h
      rfl

/-- From an empty source the loop returns in its first pass. -/
theorem copyLoop_isSome_empty {blocks : List (ReadOutcome × WriteOutcome)}
    (hsrc : fs.content fdSrc = []) (hlen : 0 < blocks.length) :
    (copyLoop fs fdSrc fdDst 0 0 blocks).isSome = true := by
  obtain ⟨⟨read, write⟩, blocks, rfl⟩ := List.exists_cons_of_length_pos hlen
  rw [copyLoop, hsrc]
  cases read with
  | error => rfl
  | data n pos le =>
    rw [ReadOutcome.read, List.drop_nil, List.take_nil]
    rfl

/-- The loop returns within as many passes as the source has bytes left, and one. -/
theorem copyLoop_isSome {blocks : List (ReadOutcome × WriteOutcome)} (hne : fdSrc ≠ fdDst) (off : ℕ)
    (hlen : (fs.content fdSrc).length - off < blocks.length) (offDst : ℕ) :
    (copyLoop fs fdSrc fdDst off offDst blocks).isSome = true := by
  induction blocks generalizing fs off offDst with
  | nil => cases hlen
  | cons block blocks ih =>
    obtain ⟨read, write⟩ := block
    rw [copyLoop]
    split
    · rfl
    · rfl
    · rename_i buffer hempty hread
      split
      · rfl
      · rename_i n hacc
        split_ifs with hn
        · rfl
        · apply ih
          rw [FileSystem.content_writeAt_of_ne hne]
          have hpos : 0 < buffer.length := by
            apply List.length_pos_of_ne_nil
            rintro rfl
            exact hempty rfl
          have hle : buffer.length ≤ (fs.content fdSrc).length - off := by
            cases read with
            | error => cases hread
            | data k pos le =>
              obtain rfl := Option.some.inj hread
              rw [List.length_take, List.length_drop]
              omega
          rw [List.length_cons] at hlen
          omega

end

/-! ## The call -/

/-- A call that returns `0` has opened both files and run the loop. -/
theorem copyFiles_ok {calls : CopyCalls} {dirPath : Buffer UInt8 dirPathSize} {fs fs' : FileSystem Path}
    {src dst : Path} (h : copyFiles calls dirPath fs src dst = some (.ok (), fs')) :
    ∃ fdSrc, fs.names src = some fdSrc ∧
      copyLoop ((fs.openCreate dst).2.truncate (fs.openCreate dst).1) fdSrc (fs.openCreate dst).1 0 0
        calls.blocks = some (.ok (), fs') := by
  unfold copyFiles at h
  cases hsrc : fs.names src with
  | none =>
    rw [hsrc] at h
    cases h
  | some fdSrc =>
    rw [hsrc] at h
    refine ⟨fdSrc, rfl, ?_⟩
    dsimp only at h
    split_ifs at h
    · cases h
    · cases h
    · cases h
    · split at h <;> cases h
    · split at h
      · cases h
      · cases h
      · exact h

/-- What a call that returns `0` has left when it comes to the log: nothing in the
    destination when it is the source, which has been truncated, and otherwise what has
    been read. -/
theorem copyFiles_contents {calls : CopyCalls} {dirPath : Buffer UInt8 dirPathSize}
    {fs fs' : FileSystem Path} {src dst : Path}
    (h : copyFiles calls dirPath fs src dst = some (.ok (), fs')) :
    ∃ content, fs.contentAt src = some content ∧ fs'.names = (fs.openCreate dst).2.names ∧
      (fs.names dst = fs.names src → fs'.contentAt dst = some []) ∧
      (fs.names dst ≠ fs.names src → fs'.contentAt src = some content ∧
        fs'.contentAt dst = some (content.take (bytesRead content.length calls.reads))) := by
  obtain ⟨fdSrc, hsrc, hloop⟩ := copyFiles_ok h
  have hopened := FileSystem.openCreate_content (p := dst) (fs.names_lt src fdSrc hsrc)
  have hsrc₁ := FileSystem.openCreate_names_of_some (p := dst) hsrc
  have hdst : (fs.openCreate dst).2.names dst = some (fs.openCreate dst).1 :=
    FileSystem.openCreate_names dst
  have hsame := FileSystem.openCreate_fst_eq_iff (p := dst) hsrc
  refine ⟨fs.content fdSrc, by rw [FileSystem.contentAt, hsrc, Option.map_some], ?_⟩
  by_cases hfd : (fs.openCreate dst).1 = fdSrc
  · rw [hfd] at hloop hdst
    obtain rfl := copyLoop_ok_empty (FileSystem.content_truncate_self _) hloop
    refine ⟨rfl, fun _ => ?_, fun hne => absurd (hsame.mp hfd) hne⟩
    rw [FileSystem.contentAt, FileSystem.names_truncate, hdst, Option.map_some,
      FileSystem.content_truncate_self]
  · have hkeep : ((fs.openCreate dst).2.truncate (fs.openCreate dst).1).content fdSrc =
        fs.content fdSrc := by
      rw [FileSystem.content_truncate_of_ne (Ne.symm hfd), hopened]
    obtain ⟨hnames, hsrc', hdst'⟩ := copyLoop_ok (Ne.symm hfd) (Nat.zero_le _)
      (by rw [List.take_zero]; exact FileSystem.content_truncate_self _) hloop
    rw [hkeep, Nat.sub_zero, Nat.zero_add] at hdst'
    refine ⟨hnames, fun heq => absurd (hsame.mpr heq) hfd, fun _ => ⟨?_, ?_⟩⟩
    · rw [FileSystem.contentAt, hnames, FileSystem.names_truncate, hsrc₁, Option.map_some, hsrc', hkeep]
    · rw [FileSystem.contentAt, hnames, FileSystem.names_truncate, hdst, Option.map_some, hdst']
      rfl

section

variable {calls : CopyCalls} {dirPath : Buffer UInt8 dirPathSize} {note : LogCall}
  {fs fs' : FileSystem Path} {logFd : LogFd fs} {src dst : Path}

/-- Opening the destination does not make it the log. -/
theorem loggedTo_openCreate (logFd : LogFd fs) (level msg : String) :
    loggedTo logFd.inode note level msg (fs.openCreate dst).2 dst =
      loggedTo logFd.inode note level msg fs dst := by
  rcases fs.openCreate_cases dst with ⟨i, hi, hopen⟩ | ⟨hnone, hopen⟩
  · rw [hopen]
  · have hbefore : loggedTo logFd.inode note level msg fs dst = [] :=
      loggedTo_of_ne fun i hi => by rw [hnone] at hi; cases hi
    rw [hbefore]
    refine loggedTo_of_ne fun i hi hlog => ?_
    have hlt := logFd.inode_lt i hlog
    rw [FileSystem.openCreate_names, hopen] at hi
    have := Option.some.inj hi
    omega

/-- The bytes that the line in the log of a copy that returns `0` adds to a file: none,
    unless it is the log. -/
def copyNote (note : LogCall) (fs : FileSystem Path) (logFd : LogFd fs) (p : Path) : Bytes :=
  loggedTo logFd.inode note "INFO" "copy file success" fs p

/-- A copy that returns `0` is faithful exactly when what it reads before the loop ends,
    with its line in the log where the destination is the log, is the source, and the
    source is not the log. Of a destination that is the source itself only that line is
    left. -/
theorem fmCopy_faithful_iff (h : fmCopy calls dirPath note fs logFd src dst = some (.ok (), fs')) :
    Faithful fs fs' src dst ↔
      (fs.names dst = fs.names src → fs.contentAt src = some (copyNote note fs logFd dst)) ∧
      (fs.names dst ≠ fs.names src → copyNote note fs logFd src = [] ∧
        ∀ content, fs.contentAt src = some content →
          content.take (bytesRead content.length calls.reads) ++ copyNote note fs logFd dst = content) := by
  obtain ⟨⟨ret, fs₁⟩, hcopy, heq⟩ := Option.map_eq_some_iff.mp h
  obtain rfl : ret = .ok () := by
    cases ret with
    | ok => rfl
    | error => cases heq
  obtain rfl : logWrite logFd.inode note "INFO" "copy file success" fs₁ = fs' :=
    congrArg Prod.snd heq
  obtain ⟨content, hsrc, hnames, hself, hother⟩ := copyFiles_contents hcopy
  obtain ⟨fdSrc, hfd, -⟩ := Option.map_eq_some_iff.mp hsrc
  have hsrc₁ : fs₁.names src = fs.names src := by
    rw [hnames, hfd, FileSystem.openCreate_names_of_some hfd]
  have hdstNote : loggedTo logFd.inode note "INFO" "copy file success" fs₁ dst =
      copyNote note fs logFd dst :=
    (loggedTo_congr (by rw [hnames])).trans (loggedTo_openCreate logFd _ _)
  have hsrcNote : loggedTo logFd.inode note "INFO" "copy file success" fs₁ src =
      copyNote note fs logFd src := loggedTo_congr hsrc₁
  have hnamesEq : fs₁.names dst = fs.names src ↔ fs.names dst = fs.names src := by
    rw [hnames, FileSystem.openCreate_names, hfd, Option.some.injEq,
      FileSystem.openCreate_fst_eq_iff hfd, hfd]
  rw [Faithful, contentAt_logWrite, contentAt_logWrite, names_logWrite, hdstNote, hsrcNote, hsrc,
    Ne, hnamesEq]
  by_cases hsame : fs.names dst = fs.names src
  · rw [hself hsame, Option.map_some, List.nil_append, Option.some.injEq, Option.some.injEq]
    constructor
    · rintro ⟨hnote, -⟩
      exact ⟨fun _ => hnote.symm, fun hne => absurd hsame hne⟩
    · rintro ⟨hnote, -⟩
      exact ⟨(hnote hsame).symm, fun hne => absurd hsame hne⟩
  · obtain ⟨hkeep, hdst⟩ := hother hsame
    rw [hkeep, hdst, Option.map_some, Option.map_some]
    simp only [Option.some.injEq, forall_eq', List.append_right_eq_self]
    constructor
    · rintro ⟨hall, hsrcSame⟩
      exact ⟨fun heq => absurd heq hsame, fun hne => ⟨hsrcSame hne, hall⟩⟩
    · rintro ⟨-, hboth⟩
      exact ⟨(hboth hsame).2, fun hne => (hboth hne).1⟩

/-- Where neither file is the log, a copy is faithful exactly when the destination is not
    the source itself, or the source is empty, and no `read` fails before the end of the
    source. -/
theorem fmCopy_faithful_iff_of_ne_log
    (h : fmCopy calls dirPath note fs logFd src dst = some (.ok (), fs'))
    (hlog : ∀ i, logFd.inode = some i → fs.names src ≠ some i ∧ fs.names dst ≠ some i) :
    Faithful fs fs' src dst ↔
      (fs.names dst = fs.names src → fs.contentAt src = some []) ∧
        ∀ content, fs.contentAt src = some content → NoEarlyError content.length calls.reads := by
  have hsrcNote : copyNote note fs logFd src = [] :=
    loggedTo_of_ne fun i hi heq => (hlog i heq).1 hi
  have hdstNote : copyNote note fs logFd dst = [] :=
    loggedTo_of_ne fun i hi heq => (hlog i heq).2 hi
  have htake : ∀ content : Bytes, content.take (bytesRead content.length calls.reads) = content ↔
      NoEarlyError content.length calls.reads := by
    intro content
    have hle := bytesRead_le content.length calls.reads
    rw [← bytesRead_eq_iff, List.take_eq_self_iff]
    omega
  rw [fmCopy_faithful_iff h, hsrcNote, hdstNote]
  simp only [List.append_nil, htake, true_and]
  refine and_congr_right fun hempty => ?_
  by_cases hsame : fs.names dst = fs.names src
  · refine iff_of_true (fun hne => absurd hsame hne) fun content hcontent => ?_
    rw [hempty hsame, Option.some.injEq] at hcontent
    rw [← hcontent]
    exact noEarlyError_zero _
  · exact forall_prop_of_true hsame

end

/-- `fm_copy` comes to its line in the log, for every way in which the blocks are cut: the
    directory of the destination fits into `dir_path`, and there are as many passes as the
    source has bytes, and one. -/
theorem copyFiles_returns {calls : CopyCalls} {dirPath : Buffer UInt8 dirPathSize} {fs : FileSystem Path}
    {src dst : Path} (hdir : ∀ dir, directoryOf dst = some dir → dir.length < dirPathSize)
    (hblocks : ∀ bytes, fs.contentAt src = some bytes → bytes.length < calls.blocks.length) :
    (copyFiles calls dirPath fs src dst).isSome = true := by
  obtain ⟨passes, hpasses⟩ : ∃ passes, checkDirectory calls dirPath dst = some passes := by
    rw [← Option.isSome_iff_exists]
    unfold checkDirectory
    cases hslash : directoryOf dst with
    | none => rfl
    | some dir =>
      have hfit := hdir dir hslash
      rw [Option.isSome_map, copyDirPath, Buffer.tryWrite, dif_pos (by omega), Option.bind_some,
        Buffer.tryWrite_isSome, List.length_singleton]
      omega
  unfold copyFiles
  cases hsrc : fs.names src with
  | none => rfl
  | some fdSrc =>
    dsimp only
    have hsize := hblocks (fs.content fdSrc) (by rw [FileSystem.contentAt, hsrc, Option.map_some])
    have hopened := FileSystem.openCreate_content (p := dst) (fs.names_lt src fdSrc hsrc)
    generalize fs.openCreate dst = opened at hopened ⊢
    obtain ⟨fdDst, fs₁⟩ := opened
    have hloop : (copyLoop (fs₁.truncate fdDst) fdSrc fdDst 0 0 calls.blocks).isSome = true := by
      by_cases hfd : fdSrc = fdDst
      · subst hfd
        exact copyLoop_isSome_empty (FileSystem.content_truncate_self _) (by omega)
      · apply copyLoop_isSome hfd
        rw [FileSystem.content_truncate_of_ne hfd, hopened]
        omega
    rw [hpasses]
    split_ifs
    · rfl
    · rfl
    · rfl
    · cases passes <;> rfl
    · cases passes with
      | false => rfl
      | true => exact hloop

/-- `fm_copy` returns. -/
theorem fmCopy_returns {calls : CopyCalls} {dirPath : Buffer UInt8 dirPathSize} (note : LogCall)
    {fs : FileSystem Path} (logFd : LogFd fs) {src dst : Path}
    (hdir : ∀ dir, directoryOf dst = some dir → dir.length < dirPathSize)
    (hblocks : ∀ bytes, fs.contentAt src = some bytes → bytes.length < calls.blocks.length) :
    (fmCopy calls dirPath note fs logFd src dst).isSome = true := by
  rw [fmCopy, Option.isSome_map]
  exact copyFiles_returns hdir hblocks

/-- Every call is permitted, and the loop goes through these blocks. -/
def CopyCalls.permitted (blocks : List (ReadOutcome × WriteOutcome)) : CopyCalls :=
  ⟨true, true, true, true, true, blocks⟩

/-- Two names, `a` and `b`, for one file of three bytes, and an empty log with the name
    `l`. -/
def sampleFiles : FileSystem Path where
  names := fun p =>
    if p = bytes "a" ∨ p = bytes "b" then some 0 else if p = bytes "l" then some 1 else none
  content := fun i => if i = 0 then [1, 2, 3] else []
  nextInode := 2
  names_lt := by
    intro p i h
    split_ifs at h
    · have := Option.some.inj h
      omega
    · have := Option.some.inj h
      omega

def sampleLog : LogFd sampleFiles := ⟨some 1, by decide⟩

def sampleNote : LogCall := ⟨bytes "2026-09-10 18:20:01", 4242, 140000, .upTo 1024⟩

/-- A copy of `a` to `c`, in blocks of two bytes at most. -/
theorem fmCopy_faithful_iff_sample :
    ∃ fs', fmCopy (.permitted (List.replicate 3 (.data 2 (by decide) (by decide), .upTo 4096)))
        (.filled _ 0) sampleNote sampleFiles sampleLog (bytes "a") (bytes "c") =
          some (.ok (), fs') ∧
      Faithful sampleFiles fs' (bytes "a") (bytes "c") := by
  obtain ⟨fs', hcopy⟩ : ∃ fs', fmCopy
      (.permitted (List.replicate 3 (.data 2 (by decide) (by decide), .upTo 4096))) (.filled _ 0)
      sampleNote sampleFiles sampleLog (bytes "a") (bytes "c") = some (.ok (), fs') := ⟨_, rfl⟩
  refine ⟨fs', hcopy, (fmCopy_faithful_iff hcopy).mpr ⟨?_, fun _ => ⟨?_, fun content hcontent => ?_⟩⟩⟩
  · decide
  · decide
  · obtain rfl : [1, 2, 3] = content := Option.some.inj hcontent
    decide

/-- A copy of `a` to its other name `b` returns `0` and leaves nothing of the file. A copy
    to `c` whose second `read` fails returns `0` with the first two bytes. A copy to the log
    returns `0` with its own line behind the three bytes. -/
theorem fmCopy_unfaithful :
    (∃ fs', fmCopy (.permitted [(.data 4096 (by decide) (by decide), .upTo 4096)]) (.filled _ 0)
        sampleNote sampleFiles sampleLog (bytes "a") (bytes "b") = some (.ok (), fs') ∧
      fs'.contentAt (bytes "b") = some [] ∧ ¬ Faithful sampleFiles fs' (bytes "a") (bytes "b")) ∧
    (∃ fs', fmCopy (.permitted [(.data 2 (by decide) (by decide), .upTo 4096), (.error, .error)])
        (.filled _ 0) sampleNote sampleFiles sampleLog (bytes "a") (bytes "c") = some (.ok (), fs') ∧
      fs'.contentAt (bytes "c") = some [1, 2] ∧ ¬ Faithful sampleFiles fs' (bytes "a") (bytes "c")) ∧
    (∃ fs', fmCopy (.permitted (List.replicate 2 (.data 4096 (by decide) (by decide), .upTo 4096)))
        (.filled _ 0) sampleNote sampleFiles sampleLog (bytes "a") (bytes "l") = some (.ok (), fs') ∧
      fs'.contentAt (bytes "l") = some ([1, 2, 3] ++
        bytes "[2026-09-10 18:20:01][INFO][PID:4242][TID:140000]copy file success\n") ∧
      ¬ Faithful sampleFiles fs' (bytes "a") (bytes "l")) := by
  refine ⟨⟨_, rfl, ?_, ?_⟩, ⟨_, rfl, ?_, ?_⟩, ⟨_, rfl, ?_, ?_⟩⟩
  · decide
  · decide
  · decide
  · decide
  · decide
  · decide

end LinuxFileManager.FileManager
