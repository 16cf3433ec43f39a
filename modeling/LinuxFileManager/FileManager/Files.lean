import LinuxFileManager.FileManager.Copy

/-!
# The operations on files

Model of `fm_create`, `fm_delete`, `fm_write`, `fm_read` and `fm_info`
(`src/file_manager.c`), and of `fm_copy` on the files of a session. What the kernel
answers is an argument, as for `fm_copy`. The files are known by the place that a path
leads to: two paths may lead to one place, and no operation changes where a path leads.
The line that each of them appends to the log comes with the step of a session in
`Menu.Store` (for `fm_copy` alone, `FileManager.Copy` has it).

Each operation is compared with what it is for, on a `Store`: the contents by place.

Results:

* `fmCreate_store`, `fmDelete_store`, `fmWrite_store`, `fmRead_store`, `fmCopyAt_store`: what
  is in the store after a call, for every answer of the kernel.
* `fmCopyAt_willing`: a copy for which the kernel does all it is asked for.
-/

namespace LinuxFileManager.FileManager

open Lib

variable {Name : Type} [DecidableEq Name]

/-! ## Model -/

/-- The ways in which a call returns `-1`. -/
inductive FileError where
  | create
  | delete
  | openForWrite
  | write
  | openForRead
  | read
  | info
  deriving DecidableEq, Repr

/-- The text that is logged. -/
def FileError.log : FileError → String
  | .create => "creat file failed"
  | .delete => "delete file failed"
  | .openForWrite => "open file failed"
  | .write => "write file failed"
  | .openForRead => "read file open failed"
  | .read => "read file failed"
  | .info => "failed file information"

section

variable (fs : FileSystem Name) (p : Name)

/-- `fm_create`: `open(path, O_CREAT | O_WRONLY, 0666)`. -/
def fmCreate (mayOpen : Bool) : Except FileError Unit × FileSystem Name :=
  if mayOpen then (.ok (), (fs.openCreate p).2) else (.error .create, fs)

/-- `fm_delete`: `unlink(path)`. -/
def fmDelete (mayUnlink : Bool) : Except FileError Unit × FileSystem Name :=
  match fs.names p with
  | none => (.error .delete, fs)
  | some _ => if mayUnlink then (.ok (), fs.unlink p) else (.error .delete, fs)

/-- `fm_write`: one `write` of the string `data` to the end of the file. -/
def fmWrite (mayOpen : Bool) (write : WriteOutcome) (data : List UInt8) :
    Except FileError Unit × FileSystem Name :=
  match fs.names p with
  | none => (.error .openForWrite, fs)
  | some i =>
    if !mayOpen then (.error .openForWrite, fs)
    else
      match write.accepted data.length with
      | none => (.error .write, fs)
      | some n => (.ok (), fs.appendTo i (data.take n))

/-- `fm_read`: one `read` into a buffer of `size` bytes. The value is its length, and the
    buffer holds it with a NUL behind it. -/
def fmRead (mayOpen : Bool) (read : ReadOutcome) (size : ℕ) : Except FileError (List UInt8) :=
  match fs.names p with
  | none => .error .openForRead
  | some i =>
    if !mayOpen then .error .openForRead
    else
      match read.read ((fs.content i).take (size - 1)) with
      | some buffer => .ok buffer
      | none => .error .read

/-- `fm_info`: of what `stat` returns, the size. -/
def fmInfo (mayStat : Bool) : Except FileError ℕ :=
  match fs.names p with
  | none => .error .info
  | some i => if mayStat then .ok (fs.content i).length else .error .info

end

/-- The files by the paths that lead to them. -/
def byPath (place : Path → Name) (fs : FileSystem Name) : FileSystem Path where
  names path := fs.names (place path)
  content := fs.content
  nextInode := fs.nextInode
  names_lt path i h := fs.names_lt (place path) i h

/-- `fm_copy`. The file that it may create is found under every path to its place. -/
def fmCopyAt (place : Path → Name) (calls : CopyCalls) (dirPath : Buffer UInt8 dirPathSize)
    (fs : FileSystem Name) (src dst : Path) : Option (Except CopyError Unit × FileSystem Name) :=
  (copyFiles calls dirPath (byPath place fs) src dst).map fun r =>
    (r.1, {
      names := Function.update fs.names (place dst) (r.2.names dst)
      content := r.2.content
      nextInode := max fs.nextInode r.2.nextInode
      names_lt := by
        intro p i h
        by_cases hp : p = place dst
        · rw [hp, Function.update_self] at h
          exact (r.2.names_lt dst i h).trans_le (le_max_right _ _)
        · rw [Function.update_of_ne hp] at h
          exact (fs.names_lt p i h).trans_le (le_max_left _ _) })

/-! ## The store -/

/-- The contents of the files. -/
abbrev Store (Name : Type) := Name → Option (List UInt8)

section

variable {fs fs' : FileSystem Name} {p : Name}

theorem fmCreate_store (h : fs.Distinct) {mayOpen : Bool} {ret : Except FileError Unit}
    (hcall : fmCreate fs p mayOpen = (ret, fs')) :
    fs'.Distinct ∧
      ((ret = .ok () ∧ fs'.contentAt = Function.update fs.contentAt p (some ((fs.contentAt p).getD []))) ∨
        (ret = .error .create ∧ fs' = fs)) := by
  unfold fmCreate at hcall
  split_ifs at hcall
  · obtain ⟨rfl, rfl⟩ := Prod.mk.inj hcall
    exact ⟨h.openCreate p, .inl ⟨rfl, FileSystem.contentAt_openCreate p⟩⟩
  · obtain ⟨rfl, rfl⟩ := Prod.mk.inj hcall
    exact ⟨h, .inr ⟨rfl, rfl⟩⟩

theorem fmDelete_store (h : fs.Distinct) {mayUnlink : Bool} {ret : Except FileError Unit}
    (hcall : fmDelete fs p mayUnlink = (ret, fs')) :
    fs'.Distinct ∧
      ((ret = .ok () ∧ fs.contentAt p ≠ none ∧ fs'.contentAt = Function.update fs.contentAt p none) ∨
        (ret = .error .delete ∧ fs' = fs)) := by
  unfold fmDelete at hcall
  split at hcall
  · obtain ⟨rfl, rfl⟩ := Prod.mk.inj hcall
    exact ⟨h, .inr ⟨rfl, rfl⟩⟩
  · next i hi =>
    split_ifs at hcall
    · obtain ⟨rfl, rfl⟩ := Prod.mk.inj hcall
      refine ⟨h.unlink p, .inl ⟨rfl, ?_, FileSystem.contentAt_unlink p⟩⟩
      rw [FileSystem.contentAt, hi]
      exact Option.some_ne_none _
    · obtain ⟨rfl, rfl⟩ := Prod.mk.inj hcall
      exact ⟨h, .inr ⟨rfl, rfl⟩⟩

/-- A short `write` is a success, too. -/
theorem fmWrite_store (h : fs.Distinct) {mayOpen : Bool} {write : WriteOutcome} {data : List UInt8}
    {ret : Except FileError Unit} (hcall : fmWrite fs p mayOpen write data = (ret, fs')) :
    fs'.Distinct ∧
      ((ret = .ok () ∧ ∃ content n, fs.contentAt p = some content ∧
          write.accepted data.length = some n ∧
          fs'.contentAt = Function.update fs.contentAt p (some (content ++ data.take n))) ∨
        ((ret = .error .openForWrite ∨ ret = .error .write) ∧ fs' = fs)) := by
  unfold fmWrite at hcall
  split at hcall
  · obtain ⟨rfl, rfl⟩ := Prod.mk.inj hcall
    exact ⟨h, .inr ⟨.inl rfl, rfl⟩⟩
  · next i hi =>
    split_ifs at hcall
    · obtain ⟨rfl, rfl⟩ := Prod.mk.inj hcall
      exact ⟨h, .inr ⟨.inl rfl, rfl⟩⟩
    · split at hcall
      · obtain ⟨rfl, rfl⟩ := Prod.mk.inj hcall
        exact ⟨h, .inr ⟨.inr rfl, rfl⟩⟩
      · next n hn =>
        obtain ⟨rfl, rfl⟩ := Prod.mk.inj hcall
        refine ⟨h.of_names rfl, .inl ⟨rfl, fs.content i, n, ?_, hn, h.contentAt_setContent hi _⟩⟩
        rw [FileSystem.contentAt, hi, Option.map_some]

omit [DecidableEq Name] in
theorem fmRead_store {mayOpen : Bool} {read : ReadOutcome} {size : ℕ} {ret : Except FileError (List UInt8)}
    (hcall : fmRead fs p mayOpen read size = ret) :
    (∃ content n, fs.contentAt p = some content ∧ ret = .ok (content.take n) ∧ n ≤ size - 1) ∨
      ret = .error .openForRead ∨ ret = .error .read := by
  unfold fmRead at hcall
  split at hcall
  · exact .inr (.inl hcall.symm)
  · next i hi =>
    split_ifs at hcall
    · exact .inr (.inl hcall.symm)
    · have hcontent : fs.contentAt p = some (fs.content i) := by
        rw [FileSystem.contentAt, hi, Option.map_some]
      cases read with
      | error => exact .inr (.inr hcall.symm)
      | data n pos le =>
        refine .inl ⟨fs.content i, min n (size - 1), hcontent, ?_, Nat.min_le_right _ _⟩
        rw [← hcall]
        simp only [ReadOutcome.read, List.take_take]

end

/-! ## Copies -/

section

variable {fs fs' : FileSystem Path} {fdSrc fdDst : ℕ} {ret : Except CopyError Unit}

/-- However the loop ends between different files, the destination holds a first part of
    the source, and nothing else has changed. -/
theorem copyLoop_prefix (hne : fdSrc ≠ fdDst) {blocks : List (ReadOutcome × WriteOutcome)} {off : ℕ}
    (hoff : off ≤ (fs.content fdSrc).length) (hdst : fs.content fdDst = (fs.content fdSrc).take off)
    (h : copyLoop fs fdSrc fdDst off off blocks = some (ret, fs')) :
    (ret = .ok () ∨ ret = .error .writeCopy) ∧
      ∃ stop, fs' = fs.setContent fdDst ((fs.content fdSrc).take stop) := by
  induction blocks generalizing fs off with
  | nil => cases h
  | cons block blocks ih =>
    obtain ⟨read, write⟩ := block
    have hsame : fs = fs.setContent fdDst ((fs.content fdSrc).take off) := by
      rw [← hdst, FileSystem.setContent_eq_self]
    rw [copyLoop] at h
    split at h
    · cases h
      exact ⟨.inl rfl, off, hsame⟩
    · cases h
      exact ⟨.inl rfl, off, hsame⟩
    · next buffer _ hread =>
      split at h
      · cases h
        exact ⟨.inr rfl, off, hsame⟩
      · next n haccepted =>
        obtain ⟨m, hbuffer⟩ : ∃ m, buffer = ((fs.content fdSrc).drop off).take m := by
          cases read with
          | error => cases hread
          | data m pos le => exact ⟨m, (Option.some.inj hread).symm⟩
        have hsize : (fs.content fdDst).length = off := by
          rw [hdst, List.length_take, min_eq_left hoff]
        have hwritten : ∀ k, fs.writeAt fdDst off (buffer.take k) =
            fs.setContent fdDst ((fs.content fdSrc).take (off + min k m)) := by
          intro k
          rw [FileSystem.writeAt_end hsize, hdst, hbuffer, List.take_take, List.take_add]
        dsimp only at h
        split_ifs at h with hn
        · cases h
          exact ⟨.inr rfl, _, hwritten n⟩
        · rw [not_not] at hn
          have hall := hwritten n
          rw [hn, List.take_length] at h hall
          have hsrc : (fs.writeAt fdDst off buffer).content fdSrc = fs.content fdSrc :=
            FileSystem.content_writeAt_of_ne hne off _
          have hlength : buffer.length = min m ((fs.content fdSrc).length - off) := by
            rw [hbuffer, List.length_take, List.length_drop]
          obtain ⟨hret, stop, hstop⟩ := ih (by rw [hsrc]; omega) (by
            rw [hsrc, hall, FileSystem.content_setContent_self, List.take_eq_take_iff]
            omega) h
          refine ⟨hret, stop, ?_⟩
          rw [hstop, hsrc, hall, FileSystem.setContent_setContent]

/-- From an empty file the loop ends at once. -/
theorem copyLoop_nothing {blocks : List (ReadOutcome × WriteOutcome)} (hsrc : fs.content fdSrc = [])
    (h : copyLoop fs fdSrc fdDst 0 0 blocks = some (ret, fs')) : ret = .ok () ∧ fs' = fs := by
  cases blocks with
  | nil => cases h
  | cons block blocks =>
    obtain ⟨read, write⟩ := block
    rw [copyLoop, hsrc] at h
    cases read with
    | error =>
      cases h
      exact ⟨rfl, rfl⟩
    | data n pos le =>
      rw [ReadOutcome.read, List.drop_nil, List.take_nil] at h
      cases h
      exact ⟨rfl, rfl⟩

/-- What a call of `fm_copy` leaves: all as it was, or the destination is there with a first part of
    the source, nothing if the two are one file. -/
theorem copyFiles_leaves {calls : CopyCalls} {dirPath : Buffer UInt8 dirPathSize} {src dst : Path}
    (h : copyFiles calls dirPath fs src dst = some (ret, fs')) :
    (fs' = fs ∧ ret ≠ .ok ()) ∨
      (ret = .ok () ∨ ret = .error .writeCopy) ∧ ∃ fdSrc stop, fs.names src = some fdSrc ∧
        fs' = (fs.openCreate dst).2.setContent (fs.openCreate dst).1
          ((if fs.names dst = fs.names src then [] else fs.content fdSrc).take stop) := by
  unfold copyFiles at h
  split at h
  · cases h
    exact .inl ⟨rfl, nofun⟩
  · next fdSrc hsrc =>
    split_ifs at h
    · cases h
      exact .inl ⟨rfl, nofun⟩
    · cases h
      exact .inl ⟨rfl, nofun⟩
    · cases h
      exact .inl ⟨rfl, nofun⟩
    · split at h
      · cases h
      · cases h
        exact .inl ⟨rfl, nofun⟩
      · cases h
        exact .inl ⟨rfl, nofun⟩
    · split at h
      · cases h
      · cases h
        exact .inl ⟨rfl, nofun⟩
      · have hsame := FileSystem.openCreate_fst_eq_iff (p := dst) hsrc
        have hopened := FileSystem.openCreate_content (p := dst) (fs.names_lt src fdSrc hsrc)
        dsimp only at h
        by_cases hfd : (fs.openCreate dst).1 = fdSrc
        · rw [hfd] at h
          obtain ⟨hret, rfl⟩ := copyLoop_nothing (FileSystem.content_truncate_self _) h
          refine .inr ⟨.inl hret, fdSrc, 0, hsrc, ?_⟩
          rw [hfd, List.take_zero]
          rfl
        · obtain ⟨hret, stop, rfl⟩ := copyLoop_prefix (Ne.symm hfd) (Nat.zero_le _)
            (by rw [List.take_zero]; exact FileSystem.content_truncate_self _) h
          refine .inr ⟨hret, fdSrc, stop, hsrc, ?_⟩
          rw [if_neg (fun heq => hfd (hsame.mpr heq)), FileSystem.content_truncate_of_ne (Ne.symm hfd),
            hopened, FileSystem.truncate, FileSystem.setContent_setContent]

end

/-! ## Copies on the store -/

section

variable {place : Path → Name} {calls : CopyCalls} {dirPath : Buffer UInt8 dirPathSize}
  {fs fs' : FileSystem Name} {src dst : Path} {ret : Except CopyError Unit}

/-- Opening for writing is the same under a path and at its place. -/
theorem openCreate_byPath (place : Path → Name) (fs : FileSystem Name) (dst : Path) :
    ((byPath place fs).openCreate dst).1 = (fs.openCreate (place dst)).1 ∧
      ((byPath place fs).openCreate dst).2.content = (fs.openCreate (place dst)).2.content ∧
      Function.update fs.names (place dst) (some (fs.openCreate (place dst)).1) =
        (fs.openCreate (place dst)).2.names := by
  rcases fs.openCreate_cases (place dst) with ⟨i, hi, hopen⟩ | ⟨hnone, hopen⟩
  · have hpath : (byPath place fs).openCreate dst = (i, byPath place fs) := by
      unfold FileSystem.openCreate
      rw [show (byPath place fs).names dst = some i from hi]
    rw [hopen, hpath]
    exact ⟨rfl, rfl, by rw [← hi, Function.update_eq_self]⟩
  · have hpath : (byPath place fs).openCreate dst = (fs.nextInode, (byPath place fs).create dst) := by
      unfold FileSystem.openCreate
      rw [show (byPath place fs).names dst = none from hnone]
      rfl
    rw [hopen, hpath]
    exact ⟨rfl, rfl, rfl⟩

/-- What the copy leaves, by place. -/
theorem fmCopyAt_eq {fs₁ : FileSystem Path} (hcall : copyFiles calls dirPath (byPath place fs) src dst =
      some (ret, fs₁)) : ∃ fs' : FileSystem Name, fmCopyAt place calls dirPath fs src dst = some (ret, fs') ∧
    fs'.names = Function.update fs.names (place dst) (fs₁.names dst) ∧ fs'.content = fs₁.content :=
  ⟨_, congrArg (Option.map _) hcall, rfl, rfl⟩

theorem fmCopyAt_store (h : fs.Distinct)
    (hcall : fmCopyAt place calls dirPath fs src dst = some (ret, fs')) :
    fs'.Distinct ∧
      ((ret ≠ .ok () ∧ fs'.contentAt = fs.contentAt) ∨
        (ret = .ok () ∨ ret = .error .writeCopy) ∧ ∃ content stop, fs.contentAt (place src) = some content ∧
          fs'.contentAt = Function.update fs.contentAt (place dst)
            (some ((if place dst = place src then [] else content).take stop))) := by
  obtain ⟨⟨ret₁, fs₁⟩, hcopy, heq⟩ := Option.map_eq_some_iff.mp hcall
  obtain ⟨rfl, rfl⟩ := Prod.mk.inj heq
  dsimp only
  rcases copyFiles_leaves hcopy with ⟨rfl, hret⟩ | ⟨hret, fdSrc, stop, hsrc, rfl⟩
  · have hnames : Function.update fs.names (place dst) ((byPath place fs).names dst) = fs.names :=
      Function.update_eq_self ..
    refine ⟨h.of_names hnames, .inl ⟨hret, ?_⟩⟩
    funext p
    exact congrArg (fun names => (names p).map fs.content) hnames
  · obtain ⟨hfd, hcontent, hnames⟩ := openCreate_byPath place fs dst
    have hdst : ((byPath place fs).openCreate dst).2.names dst = some (fs.openCreate (place dst)).1 := by
      rw [FileSystem.openCreate_names, hfd]
    have hsrc : fs.names (place src) = some fdSrc := hsrc
    have hcond : (byPath place fs).names dst = (byPath place fs).names src ↔ place dst = place src := by
      refine ⟨fun heq => ?_, fun heq => congrArg fs.names heq⟩
      exact h _ _ fdSrc ((show fs.names (place dst) = fs.names (place src) from heq).trans hsrc) hsrc
    have hset : ∀ bytes : List UInt8, ((fs.openCreate (place dst)).2.setContent
        (fs.openCreate (place dst)).1 bytes).contentAt =
        Function.update fs.contentAt (place dst) (some bytes) := by
      intro bytes
      rw [(h.openCreate _).contentAt_setContent (FileSystem.openCreate_names _),
        FileSystem.contentAt_openCreate, Function.update_idem]
    refine ⟨?_, .inr ⟨hret, fs.content fdSrc, stop, ?_, ?_⟩⟩
    · refine (h.openCreate (place dst)).of_names ?_
      rw [← hnames, ← hdst]
      rfl
    · rw [FileSystem.contentAt, hsrc, Option.map_some]
    · rw [← hset]
      funext p
      show (Function.update fs.names (place dst) (((byPath place fs).openCreate dst).2.names dst) p).map
          (Function.update ((byPath place fs).openCreate dst).2.content
            ((byPath place fs).openCreate dst).1 _) =
        ((fs.openCreate (place dst)).2.names p).map (Function.update (fs.openCreate (place dst)).2.content
          (fs.openCreate (place dst)).1 _)
      rw [hdst, hnames, hfd, hcontent]
      simp only [hcond]
      rfl

/-- The kernel permits everything, no call fails, every `write` takes all it is given, and
    there are enough passes for a file of this size. -/
structure Willing (calls : CopyCalls) (size : ℕ) : Prop where
  mayFind : calls.mayFind = true
  mayRead : calls.mayRead = true
  mayOpenSrc : calls.mayOpenSrc = true
  mayWriteDir : calls.mayWriteDir = true
  mayOpenDst : calls.mayOpenDst = true
  blocks : ∀ block ∈ calls.blocks, block.1 ≠ .error ∧ ∃ n, block.2 = .upTo n ∧ bufferSize ≤ n
  length_lt : size < calls.blocks.length

theorem noEarlyError_of_forall {reads : List ReadOutcome} (h : ∀ read ∈ reads, read ≠ .error)
    {size : ℕ} (hsize : size < reads.length) : NoEarlyError size reads := by
  induction reads generalizing size with
  | nil => exact absurd hsize (Nat.not_lt_zero _)
  | cons read reads ih =>
    cases read with
    | error => exact absurd rfl (h _ List.mem_cons_self)
    | data n pos le =>
      rw [NoEarlyError]
      by_cases hzero : size = 0
      · rw [hzero, Nat.zero_sub]
        exact noEarlyError_zero reads
      · refine ih (fun read hmem => h read (List.mem_cons_of_mem _ hmem)) ?_
        rw [List.length_cons] at hsize
        omega

theorem copyLoop_willing {fs fs' : FileSystem Path} {fdSrc fdDst offSrc offDst : ℕ}
    {blocks : List (ReadOutcome × WriteOutcome)}
    (hblocks : ∀ block ∈ blocks, block.1 ≠ .error ∧ ∃ n, block.2 = .upTo n ∧ bufferSize ≤ n)
    (h : copyLoop fs fdSrc fdDst offSrc offDst blocks = some (ret, fs')) : ret = .ok () := by
  induction blocks generalizing fs offSrc offDst with
  | nil => cases h
  | cons block blocks ih =>
    obtain ⟨read, write⟩ := block
    obtain ⟨hread, n, rfl, hn⟩ := hblocks _ List.mem_cons_self
    cases read with
    | error => exact absurd rfl hread
    | data m pos le =>
      rw [copyLoop, ReadOutcome.read] at h
      split at h
      · next hnone => cases hnone
      · cases h
        rfl
      · next buffer _ hbuffer =>
        have hle : buffer.length ≤ n := by
          rw [← Option.some.inj hbuffer, List.length_take]
          exact (Nat.min_le_left _ _).trans (le.trans hn)
        rw [WriteOutcome.accepted, min_eq_right hle] at h
        dsimp only at h
        rw [if_neg (not_not.mpr rfl)] at h
        exact ih (fun block hmem => hblocks block (List.mem_cons_of_mem _ hmem)) h

/-- With a willing kernel the loop is entered, and comes to its end. -/
theorem copyFiles_willing {fs : FileSystem Path} {content : List UInt8} (hsrc : fs.contentAt src = some content)
    (hwilling : Willing calls content.length)
    (hdir : ∀ dir, directoryOf dst = some dir → dir.length < dirPathSize) :
    ∃ fs', copyFiles calls dirPath fs src dst = some (.ok (), fs') := by
  have hreturns : (copyFiles calls dirPath fs src dst).isSome = true := by
    refine copyFiles_returns hdir fun bytes hbytes => ?_
    rw [hsrc, Option.some.injEq] at hbytes
    exact hbytes ▸ hwilling.length_lt
  obtain ⟨⟨ret, fs'⟩, hcopy⟩ := Option.isSome_iff_exists.mp hreturns
  obtain ⟨fdSrc, hname, -⟩ := Option.map_eq_some_iff.mp hsrc
  have hret : ret = .ok () := by
    have h := hcopy
    simp only [copyFiles, hname, hwilling.mayFind, hwilling.mayRead, hwilling.mayOpenSrc,
      hwilling.mayOpenDst, Bool.not_true, Bool.false_eq_true, if_false] at h
    split at h
    · cases h
    · next hcheck =>
      -- the directory may be written to
      unfold checkDirectory at hcheck
      split at hcheck
      · cases hcheck
      · obtain ⟨b, -, hb⟩ := Option.map_eq_some_iff.mp hcheck
        rw [hwilling.mayWriteDir, Bool.not_true, Bool.and_false] at hb
        cases hb
    · exact copyLoop_willing hwilling.blocks h
  exact ⟨fs', hret ▸ hcopy⟩

/-- A copy for which the kernel does all it is asked for. The destination becomes what the source
    was, or empty if they are at one place. -/
theorem fmCopyAt_willing (h : fs.Distinct) {content : List UInt8}
    (hsrc : fs.contentAt (place src) = some content) (hwilling : Willing calls content.length)
    (hdir : ∀ dir, directoryOf dst = some dir → dir.length < dirPathSize) :
    ∃ fs', fmCopyAt place calls dirPath fs src dst = some (.ok (), fs') ∧ fs'.Distinct ∧
      fs'.contentAt = Function.update fs.contentAt (place dst)
        (some (if place dst = place src then [] else content)) := by
  have hpath : (byPath place fs).contentAt src = some content := hsrc
  obtain ⟨fs₁, hcopy⟩ := copyFiles_willing hpath hwilling hdir
  obtain ⟨fs', hcall, hnames', hcontent'⟩ := fmCopyAt_eq hcopy
  obtain ⟨hdistinct, ⟨hret, -⟩ | ⟨-, content', stop, hsrc', hafter⟩⟩ := fmCopyAt_store h hcall
  · exact absurd rfl hret
  · rw [hsrc, Option.some.injEq] at hsrc'
    subst hsrc'
    refine ⟨fs', hcall, hdistinct, ?_⟩
    by_cases hsame : place dst = place src
    · rw [hafter, if_pos hsame, List.take_nil]
    · rw [hafter, if_neg hsame]
      -- the loop stops at the end of the source only
      obtain ⟨fdSrc, hname, hloop⟩ := copyFiles_ok hcopy
      have hcontent : content = (byPath place fs).content fdSrc := by
        rw [FileSystem.contentAt, hname, Option.map_some, Option.some.injEq] at hpath
        exact hpath.symm
      have hne : fdSrc ≠ ((byPath place fs).openCreate dst).1 := by
        intro heq
        have hsamefile := (FileSystem.openCreate_fst_eq_iff hname).mp heq.symm
        exact hsame (h _ _ fdSrc (hsamefile.trans hname) hname)
      have hopened : ((byPath place fs).openCreate dst).2.content fdSrc = content :=
        (FileSystem.openCreate_content ((byPath place fs).names_lt src fdSrc hname)).trans hcontent.symm
      obtain ⟨hnames, -, hdst⟩ := copyLoop_ok hne (Nat.zero_le _)
        (by rw [List.take_zero]; exact FileSystem.content_truncate_self _) hloop
      rw [FileSystem.content_truncate_of_ne hne, hopened] at hdst
      have hall : 0 + bytesRead (content.length - 0) (calls.blocks.map Prod.fst) = content.length := by
        rw [Nat.zero_add, Nat.sub_zero, bytesRead_eq_iff]
        refine noEarlyError_of_forall (fun read hmem => ?_) ?_
        · obtain ⟨block, hblock, rfl⟩ := List.mem_map.mp hmem
          exact (hwilling.blocks block hblock).1
        · rw [List.length_map]
          exact hwilling.length_lt
      have hfull : fs'.contentAt (place dst) = some content := by
        rw [FileSystem.contentAt, hnames', Function.update_self, hnames, FileSystem.names_truncate,
          FileSystem.openCreate_names, Option.map_some, hcontent', hdst, hall, List.take_length]
      rw [hafter, Function.update_self, if_neg hsame] at hfull
      rw [Option.some.inj hfull]

end

end LinuxFileManager.FileManager
