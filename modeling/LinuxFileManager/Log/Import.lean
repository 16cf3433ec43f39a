import LinuxFileManager.Log.Pipeline

/-!
# A run of `log_etl.py` over one log file

The steps of `main` (`test/log_etl.py` lines 84–153) when nothing else happens:
the log is not touched, the files of the ETL can be read and written, and the
process is not killed. The run still ends early when the code raises an
exception, in `parse_line` or in `executemany`.

The database is the parameter `accepts`: the records that it takes. A batch is
taken when all its records are.

Results:

* `import_ends`: a run always comes to an end.
* `outcome_of_import`: there was nothing new, or it has imported everything, or a
  line has stopped it and the offset is where it was.
* `savedOffset_of_not_clean`: a line of this kind stops every run.
* `completes_iff`: the log files that are imported up to their end.
-/

namespace LinuxFileManager.Log

open Lib

/-! ## Lines -/

/-- The lines that the iteration over a file yields; the fuel is their number at
    most. -/
def linesOf : ℕ → List UInt8 → List TextLine
  | 0, _ => []
  | n + 1, bs => if bs = [] then [] else readLine bs :: linesOf n (bs.drop (readLine bs).raw.length)

def fileLines (bs : List UInt8) : List TextLine := linesOf bs.length bs

/-- The line ends with CR LF, which is read as one line feed. -/
def TextLine.EndsCrLf (line : TextLine) : Prop := [cr, lf] <:+ line.raw

instance (line : TextLine) : Decidable line.EndsCrLf := inferInstanceAs (Decidable (_ <:+ _))

theorem linesOf_nil (n : ℕ) : linesOf n [] = [] := by
  cases n <;> rfl

theorem linesOf_fuel {n m : ℕ} {bs : List UInt8} (hn : bs.length ≤ n) (hm : bs.length ≤ m) :
    linesOf n bs = linesOf m bs := by
  induction n generalizing m bs with
  | zero =>
    rw [List.length_eq_zero_iff.mp (Nat.le_zero.mp hn), linesOf_nil, linesOf_nil]
  | succ n ih =>
    by_cases hbs : bs = []
    · rw [hbs, linesOf_nil, linesOf_nil]
    · have hraw := readLine_raw_pos hbs
      have hlen := List.length_pos_iff.mpr hbs
      obtain ⟨m, rfl⟩ : ∃ k, m = k + 1 := ⟨m - 1, by omega⟩
      have hrest : linesOf n (bs.drop (readLine bs).raw.length) =
          linesOf m (bs.drop (readLine bs).raw.length) :=
        ih (by rw [List.length_drop]; omega) (by rw [List.length_drop]; omega)
      rw [linesOf, linesOf, hrest]

theorem fileLines_nil : fileLines [] = [] := rfl

theorem fileLines_eq_cons {bs : List UInt8} (h : bs ≠ []) :
    fileLines bs = readLine bs :: fileLines (bs.drop (readLine bs).raw.length) := by
  have hraw := readLine_raw_pos h
  have hlen := List.length_pos_iff.mpr h
  obtain ⟨n, hn⟩ : ∃ k, bs.length = k + 1 := ⟨bs.length - 1, by omega⟩
  have hrest : linesOf n (bs.drop (readLine bs).raw.length) =
      fileLines (bs.drop (readLine bs).raw.length) :=
    linesOf_fuel (by rw [List.length_drop]; omega) le_rfl
  rw [fileLines, hn, linesOf, if_neg h, hrest]

theorem isPrefix_raw_readLine (bs : List UInt8) : (readLine bs).raw <+: bs := by
  induction bs with
  | nil => exact List.prefix_rfl
  | cons b bs ih =>
    rw [readLine]
    split_ifs with hlf hcr hhead
    · rw [hlf]
      exact ⟨bs, rfl⟩
    · obtain ⟨rest, rfl⟩ := List.head?_eq_some_iff.mp hhead
      rw [hcr]
      exact ⟨rest, rfl⟩
    · rw [hcr]
      exact ⟨bs, rfl⟩
    · exact (List.prefix_cons_inj b).mpr ih

/-- The text of a line is one byte shorter than the line when it ends with CR LF. -/
theorem length_text_add (bs : List UInt8) :
    (readLine bs).text.length + (if (readLine bs).EndsCrLf then 1 else 0) = (readLine bs).raw.length := by
  induction bs with
  | nil => rfl
  | cons b bs ih =>
    by_cases hlf : b = lf
    · rw [readLine, if_pos hlf]
      rfl
    by_cases hcr : b = cr
    · rw [readLine, if_neg hlf, if_pos hcr]
      by_cases hhead : bs.head? = some lf
      · rw [if_pos hhead]
        rfl
      · rw [if_neg hhead]
        rfl
    · have hends : (readLine (b :: bs)).EndsCrLf ↔ (readLine bs).EndsCrLf := by
        rw [readLine, if_neg hlf, if_neg hcr, TextLine.EndsCrLf, TextLine.EndsCrLf,
          List.suffix_cons_iff, List.cons.injEq]
        exact or_iff_right fun h => hcr h.1.symm
      simp only [hends]
      rw [readLine, if_neg hlf, if_neg hcr, List.length_cons, List.length_cons]
      omega

/-- Induction over the lines of a file. -/
theorem fileLines_induction {P : List UInt8 → List TextLine → Prop} (hnil : P [] [])
    (hcons : ∀ bs, bs ≠ [] →
      P (bs.drop (readLine bs).raw.length) (fileLines (bs.drop (readLine bs).raw.length)) →
      P bs (readLine bs :: fileLines (bs.drop (readLine bs).raw.length)))
    (bs : List UInt8) : P bs (fileLines bs) := by
  induction hn : bs.length using Nat.strong_induction_on generalizing bs with
  | _ n ih =>
    by_cases hbs : bs = []
    · rw [hbs]
      exact hnil
    · have hpos := readLine_raw_pos hbs
      have hlen := List.length_pos_iff.mpr hbs
      rw [fileLines_eq_cons hbs]
      exact hcons bs hbs (ih _ (by rw [List.length_drop]; omega) _ rfl)

/-! ## Lengths -/

/-- The bytes that `current_offset` counts. -/
def textLength (lines : List TextLine) : ℕ := (lines.map fun line => line.text.length).sum

def rawLength (lines : List TextLine) : ℕ := (lines.map fun line => line.raw.length).sum

/-- The lines are the whole file. -/
theorem rawLength_fileLines (bs : List UInt8) : rawLength (fileLines bs) = bs.length := by
  induction bs using fileLines_induction with
  | hnil => rfl
  | hcons bs hbs ih =>
    have hle := (isPrefix_raw_readLine bs).length_le
    rw [List.length_drop, rawLength] at ih
    rw [rawLength, List.map_cons, List.sum_cons, ih]
    omega

/-- `current_offset` stays one byte behind for each CR LF. -/
theorem textLength_add_countP (bs : List UInt8) :
    textLength (fileLines bs) + (fileLines bs).countP (fun line => decide line.EndsCrLf) = bs.length := by
  rw [← rawLength_fileLines]
  induction bs using fileLines_induction with
  | hnil => rfl
  | hcons bs hbs ih =>
    have hline := length_text_add bs
    rw [textLength, rawLength] at ih
    rw [textLength, rawLength, List.map_cons, List.map_cons, List.sum_cons, List.sum_cons,
      List.countP_cons]
    simp only [decide_eq_true_eq]
    omega

theorem textLength_eq_iff (bs : List UInt8) :
    textLength (fileLines bs) = bs.length ↔ ∀ line ∈ fileLines bs, ¬ line.EndsCrLf := by
  have hsum := textLength_add_countP bs
  have hcount : (fileLines bs).countP (fun line => decide line.EndsCrLf) = 0 ↔
      ∀ line ∈ fileLines bs, ¬ line.EndsCrLf := by
    simp only [List.countP_eq_zero, decide_eq_true_eq]
  rw [← hcount]
  omega

/-! ## The run -/

variable {ρ : Type}

/-- The record of a line, if it has one. -/
def Parsed.record? : Parsed ρ → Option ρ
  | .raised | .skipped => none
  | .record r => some r

/-- The records of the lines, in their order. -/
def recordsOf (parse : List UInt8 → Parsed ρ) (lines : List TextLine) : List ρ :=
  lines.filterMap fun line => (parse line.text).record?

/-- The lines behind the saved offset of the log, which is the file `i`. -/
def Pipeline.linesBehind (s : Pipeline ρ) (i : ℕ) : List TextLine :=
  fileLines ((s.fs.content i).drop s.savedOffset)

section

variable (parse : List UInt8 → Parsed ρ) (accepts : ρ → Bool)

/-- `executemany` takes the batch. -/
def takesBatch (s : Pipeline ρ) : Bool :=
  match s.etl with
  | .reading r | .flushing r => r.batch.all fun row => accepts row.record
  | _ => true

/-- The next statement raises an exception. -/
def raises (s : Pipeline ρ) : Bool :=
  match s.etl with
  | .reading r =>
    if r.batch.length < batchSize then
      r.pos < (s.fs.content r.inode).length && (r.nextLine parse (s.fs.content r.inode)).isNone
    else !takesBatch accepts s
  | .flushing _ => !takesBatch accepts s
  | _ => false

/-- What can happen: the files can be read, and the run ends early only with an
    exception of the code. -/
def permitted (s : Pipeline ρ) : EtlAction → Bool
  | .readOffset ioError => !ioError
  | .commit => takesBatch accepts s
  | .fail => raises parse accepts s
  | _ => true

/-- A step of a run that has started; at `idle` it is over. -/
def importStep (s : Pipeline ρ) (a : EtlAction) : Option (Pipeline ρ) :=
  match s.etl with
  | .idle => none
  | pc => if permitted parse accepts s a then etlStep parse s pc a else none

/-- The rows of all records are there, in order, and the saved offset is the end of
    the log. -/
structure ImportedAll (i : ℕ) (s s' : Pipeline ρ) : Prop where
  rows : ∃ rows, s'.table = s.table ++ rows ∧ rows.map Row.record = recordsOf parse (s.linesBehind i)
  offset : s'.savedOffset = (s.fs.content i).length

/-- A run from the state `s`, in which the log is the file `i`, ends with everything
    imported. -/
def Completes (i : ℕ) (s : Pipeline ρ) : Prop :=
  ∃ as s', exec (importStep parse accepts) { s with etl := .started } as = some s' ∧ s'.etl = .idle ∧
    ImportedAll parse i s s'

/-- `parse_line` does not raise an exception, and the database takes the record. -/
def Clean (line : TextLine) : Prop :=
  parse line.text ≠ .raised ∧ ∀ record, parse line.text = .record record → accepts record = true

end

variable {parse : List UInt8 → Parsed ρ} {accepts : ρ → Bool} {s s' : Pipeline ρ} {i : ℕ}

theorem importStep_eq_some {a : EtlAction} (h : importStep parse accepts s a = some s') :
    s.etl ≠ .idle ∧ permitted parse accepts s a = true ∧ etlStep parse s s.etl a = some s' := by
  unfold importStep at h
  split at h
  · cases h
  · rename_i pc hidle
    split_ifs at h with hpermitted
    exact ⟨hidle, hpermitted, h⟩

/-- It is a run of the pipeline. -/
theorem import_is_run {as : List EtlAction} (h : exec (importStep parse accepts) s as = some s') :
    ∃ bs, exec (Pipeline.step parse) s bs = some s' := by
  refine exec_refines (f := id) ?_ h
  intro s a s' hs
  refine ⟨[.etl a], ?_⟩
  rw [exec_cons_eq_some]
  exact ⟨s', (importStep_eq_some hs).2.2, rfl⟩

/-! ## Where a run stands -/

/-- The lines `done` have been read. -/
structure Progress (parse : List UInt8 → Parsed ρ) (accepts : ρ → Bool) (i : ℕ) (s₀ : Pipeline ρ)
    (table : List (Row ρ)) (r : Reading ρ) (done : List TextLine) : Prop where
  inode : r.inode = i
  lines : s₀.linesBehind i = done ++ fileLines ((s₀.fs.content i).drop r.pos)
  offset : r.currentOffset = s₀.savedOffset + textLength done
  rows : ∃ rows, table ++ r.batch = s₀.table ++ rows ∧ rows.map Row.record = recordsOf parse done
  batch : ∀ row ∈ r.batch, ∃ line ∈ done, parse line.text = .record row.record
  parsed : ∀ line ∈ done, parse line.text ≠ .raised
  accepted : ∀ line ∈ done, ∀ record, parse line.text = .record record →
    accepts record = true ∨ record ∈ r.batch.map Row.record

/-- All lines have been imported. -/
structure Complete (parse : List UInt8 → Parsed ρ) (accepts : ρ → Bool) (i : ℕ) (s₀ : Pipeline ρ)
    (table : List (Row ρ)) (offset : ℕ) : Prop where
  rows : ∃ rows, table = s₀.table ++ rows ∧ rows.map Row.record = recordsOf parse (s₀.linesBehind i)
  clean : ∀ line ∈ s₀.linesBehind i, Clean parse accepts line
  offset : offset = s₀.savedOffset + textLength (s₀.linesBehind i)

/-- How a run from `s₀` has ended in `s`: there was nothing new, everything has been
    imported, or a line has stopped it and the offset is where it was. -/
inductive Outcome (parse : List UInt8 → Parsed ρ) (accepts : ρ → Bool) (i : ℕ) (s₀ s : Pipeline ρ) :
    Prop where
  | upToDate (hle : (s₀.fs.content i).length ≤ s₀.savedOffset) (htable : s.table = s₀.table)
      (hoffset : s.offsetFile = s₀.offsetFile)
  | complete (h : Complete parse accepts i s₀ s.table s.savedOffset)
  | stopped (hlt : s₀.savedOffset < (s₀.fs.content i).length)
      (hline : ∃ line ∈ s₀.linesBehind i, ¬ Clean parse accepts line)
      (hoffset : s.offsetFile = s₀.offsetFile)

/-- What holds where a run from `s₀` stands. -/
def Standing (parse : List UInt8 → Parsed ρ) (accepts : ρ → Bool) (i : ℕ) (s₀ s : Pipeline ρ) :
    EtlPc ρ → Prop
  | .started => s.table = s₀.table ∧ s.offsetFile = s₀.offsetFile
  | .offsetRead offset _ =>
    s.table = s₀.table ∧ s.offsetFile = s₀.offsetFile ∧ offset = s₀.savedOffset
  | .sized offset _ =>
    s.table = s₀.table ∧ s.offsetFile = s₀.offsetFile ∧ offset = s₀.savedOffset ∧
      offset < (s₀.fs.content i).length
  | .reading r =>
    s.offsetFile = s₀.offsetFile ∧ s₀.savedOffset < (s₀.fs.content i).length ∧
      ∃ done, Progress parse accepts i s₀ s.table r done
  | .flushing r =>
    s.offsetFile = s₀.offsetFile ∧ s₀.savedOffset < (s₀.fs.content i).length ∧
      Progress parse accepts i s₀ s.table r (s₀.linesBehind i)
  | .saving offset _ => Complete parse accepts i s₀ s.table offset
  | .truncated offset _ => s.offsetFile ≠ none ∧ Complete parse accepts i s₀ s.table offset
  | .idle => Outcome parse accepts i s₀ s

structure Importing (parse : List UInt8 → Parsed ρ) (accepts : ρ → Bool) (i : ℕ) (s₀ s : Pipeline ρ) :
    Prop where
  log : s₀.log = some i
  fs : s.fs = s₀.fs
  standing : Standing parse accepts i s₀ s s.etl

section

variable {s₀ : Pipeline ρ} {table : List (Row ρ)} {r r' : Reading ρ} {done : List TextLine}

theorem Importing.start (hlog : s₀.log = some i) :
    Importing parse accepts i s₀ { s₀ with etl := .started } :=
  ⟨hlog, rfl, rfl, rfl⟩

theorem recordsOf_concat (parse : List UInt8 → Parsed ρ) (lines : List TextLine) (line : TextLine) :
    recordsOf parse (lines ++ [line]) = recordsOf parse lines ++ (parse line.text).record?.toList := by
  unfold recordsOf
  rw [List.filterMap_append, List.filterMap_cons]
  cases (parse line.text).record? <;> rfl

theorem textLength_concat (lines : List TextLine) (line : TextLine) :
    textLength (lines ++ [line]) = textLength lines + line.text.length := by
  unfold textLength
  rw [List.map_append, List.sum_append, List.map_singleton, List.sum_singleton]

theorem Parsed.record?_eq_some {p : Parsed ρ} {record : ρ} :
    p.record? = some record ↔ p = .record record := by
  cases p <;> simp [Parsed.record?]

/-- The row of the line is put into the batch, if it has one. -/
theorem Advances.exists_rows {content : List UInt8} (hr : Advances parse content r r') :
    parse (readLine (content.drop r.pos)).text ≠ .raised ∧
    ∃ rows, r'.batch = r.batch ++ rows ∧
      rows.map Row.record = (parse (readLine (content.drop r.pos)).text).record?.toList := by
  rcases hr.batch with ⟨hbatch, hparse⟩ | ⟨record, hparse, hbatch⟩ <;> rw [hparse]
  · exact ⟨nofun, [], hbatch.trans (List.append_nil _).symm, rfl⟩
  · exact ⟨nofun, _, hbatch, rfl⟩

/-- One line further. -/
theorem Progress.next (h : Progress parse accepts i s₀ table r done)
    (hpos : r.pos < (s₀.fs.content i).length) (hr : Advances parse (s₀.fs.content i) r r') :
    Progress parse accepts i s₀ table r' (done ++ [readLine ((s₀.fs.content i).drop r.pos)]) := by
  have hne : (s₀.fs.content i).drop r.pos ≠ [] := by
    intro hnil
    rw [List.drop_eq_nil_iff] at hnil
    omega
  have hlines := h.lines
  rw [fileLines_eq_cons hne, List.drop_drop, ← hr.pos] at hlines
  have hoffset := hr.currentOffset
  obtain ⟨hraised, new, hbatch, hnew⟩ := hr.exists_rows
  generalize readLine ((s₀.fs.content i).drop r.pos) = line at hlines hoffset hraised hnew ⊢
  obtain ⟨old, htable, hold⟩ := h.rows
  -- the new rows are the record of the line
  have hmem : ∀ record, parse line.text = .record record ↔ record ∈ new.map Row.record := by
    intro record
    rw [hnew, Option.mem_toList, Parsed.record?_eq_some]
  refine ⟨hr.inode.trans h.inode, ?_, ?_, ⟨old ++ new, ?_, ?_⟩, ?_, ?_, ?_⟩
  · rw [List.append_assoc]
    exact hlines
  · rw [textLength_concat, hoffset, h.offset, Nat.add_assoc]
  · rw [hbatch, ← List.append_assoc, htable, List.append_assoc]
  · rw [List.map_append, hold, hnew, recordsOf_concat]
  · intro row hrow
    rw [hbatch, List.mem_append] at hrow
    rcases hrow with hrow | hrow
    · obtain ⟨line', hline', hrecord⟩ := h.batch row hrow
      exact ⟨line', List.mem_append_left _ hline', hrecord⟩
    · exact ⟨line, List.mem_append_right _ (List.mem_singleton_self line),
        (hmem _).mpr (List.mem_map_of_mem hrow)⟩
  · rw [List.forall_mem_append, List.forall_mem_singleton]
    exact ⟨h.parsed, hraised⟩
  · rw [List.forall_mem_append, List.forall_mem_singleton, hbatch, List.map_append]
    refine ⟨fun line' hline' record hrecord => ?_, fun record hrecord => .inr ?_⟩
    · exact (h.accepted line' hline' record hrecord).imp_right (List.mem_append_left _)
    · exact List.mem_append_right _ ((hmem record).mp hrecord)

/-- The batch is taken. -/
theorem Progress.commit (h : Progress parse accepts i s₀ table r done)
    (htake : ∀ row ∈ r.batch, accepts row.record = true) :
    Progress parse accepts i s₀ (table ++ r.batch) { r with batch := [] } done where
  inode := h.inode
  lines := h.lines
  offset := h.offset
  rows := by
    rw [List.append_nil]
    exact h.rows
  batch := nofun
  parsed := h.parsed
  accepted := by
    intro line hline record hparse
    rcases h.accepted line hline record hparse with hacc | hmem
    · exact .inl hacc
    · obtain ⟨row, hrow, rfl⟩ := List.mem_map.mp hmem
      exact .inl (htake row hrow)

/-- All lines have been read and all batches taken. -/
theorem Progress.complete (h : Progress parse accepts i s₀ table r (s₀.linesBehind i))
    (hbatch : r.batch = []) : Complete parse accepts i s₀ table r.currentOffset where
  rows := by
    have hrows := h.rows
    rw [hbatch, List.append_nil] at hrows
    exact hrows
  clean := by
    intro line hline
    refine ⟨h.parsed line hline, fun record hparse => ?_⟩
    have hacc := h.accepted line hline record hparse
    rw [hbatch] at hacc
    exact hacc.resolve_right nofun
  offset := h.offset

/-- At the end of the file all lines have been read. -/
theorem Progress.all (h : Progress parse accepts i s₀ table r done)
    (hend : (s₀.fs.content i).length ≤ r.pos) :
    Progress parse accepts i s₀ table r (s₀.linesBehind i) := by
  have hlines := h.lines
  rw [List.drop_eq_nil_of_le hend, fileLines_nil, List.append_nil] at hlines
  exact hlines ▸ h

/-! ## Steps -/

theorem takesBatch_iff (hpc : s.etl = .reading r ∨ s.etl = .flushing r) :
    takesBatch accepts s = true ↔ ∀ row ∈ r.batch, accepts row.record = true := by
  unfold takesBatch
  rcases hpc with hpc | hpc <;> rw [hpc] <;> exact List.all_eq_true

/-- A record that the database does not take comes from a line that is not clean. -/
theorem Progress.not_clean (h : Progress parse accepts i s₀ table r done)
    (hpc : s.etl = .reading r ∨ s.etl = .flushing r) (htake : takesBatch accepts s = false) :
    ∃ line ∈ s₀.linesBehind i, ¬ Clean parse accepts line := by
  have hbatch : ¬ ∀ row ∈ r.batch, accepts row.record = true := by
    rw [← takesBatch_iff hpc, htake]
    exact Bool.false_ne_true
  push Not at hbatch
  obtain ⟨row, hrow, hreject⟩ := hbatch
  obtain ⟨line, hline, hparse⟩ := h.batch row hrow
  rw [h.lines]
  exact ⟨line, List.mem_append_left _ hline, fun hclean => hreject (hclean.2 _ hparse)⟩

/-- The line at the position is the next one. -/
theorem Progress.readLine_mem (h : Progress parse accepts i s₀ table r done)
    (hpos : r.pos < (s₀.fs.content i).length) :
    readLine ((s₀.fs.content i).drop r.pos) ∈ s₀.linesBehind i := by
  have hne : (s₀.fs.content i).drop r.pos ≠ [] := by
    intro hnil
    rw [List.drop_eq_nil_iff] at hnil
    omega
  rw [h.lines, fileLines_eq_cons hne]
  exact List.mem_append_right _ List.mem_cons_self

theorem raised_of_nextLine {content : List UInt8} (h : r.nextLine parse content = none) :
    parse (readLine (content.drop r.pos)).text = .raised := by
  unfold Reading.nextLine at h
  dsimp only at h
  split at h
  · assumption
  · cases h
  · cases h

/-- An exception is the fault of a line. -/
theorem Importing.stopped (h : Importing parse accepts i s₀ s) (hraises : raises parse accepts s = true) :
    s.offsetFile = s₀.offsetFile ∧ s₀.savedOffset < (s₀.fs.content i).length ∧
      ∃ line ∈ s₀.linesBehind i, ¬ Clean parse accepts line := by
  have hstanding := h.standing
  unfold raises at hraises
  split at hraises
  · rename_i r hpc
    rw [hpc] at hstanding
    obtain ⟨hoffset, hlt, done, hprogress⟩ := hstanding
    refine ⟨hoffset, hlt, ?_⟩
    split_ifs at hraises
    · rw [Bool.and_eq_true, decide_eq_true_eq, Option.isNone_iff_eq_none, hprogress.inode, h.fs]
        at hraises
      exact ⟨_, hprogress.readLine_mem hraises.1, fun hclean => hclean.1 (raised_of_nextLine hraises.2)⟩
    · exact hprogress.not_clean (.inl hpc) (Bool.not_eq_true' _ ▸ hraises)
  · rename_i r hpc
    rw [hpc] at hstanding
    exact ⟨hstanding.1, hstanding.2.1,
      hstanding.2.2.not_clean (.inr hpc) (Bool.not_eq_true' _ ▸ hraises)⟩
  · cases hraises

theorem Importing.step {a : EtlAction} (h : Importing parse accepts i s₀ s)
    (hstep : importStep parse accepts s a = some s') : Importing parse accepts i s₀ s' := by
  obtain ⟨hidle, hpermitted, hstep⟩ := importStep_eq_some hstep
  have hmove := etlStep_move hstep
  have hstanding := h.standing
  have hlog : s.log = some i := by
    rw [Pipeline.log, h.fs]
    exact h.log
  have htake : ∀ r, a = .commit → s.etl = .reading r ∨ s.etl = .flushing r →
      ∀ row ∈ r.batch, accepts row.record = true := by
    rintro r rfl hpc
    exact (takesBatch_iff hpc).mp hpermitted
  have hstopped : a = .fail → raises parse accepts s = true := by
    rintro rfl
    exact hpermitted
  generalize hpc : s.etl = pc at hmove hstanding
  cases hmove with
  | starts | absent => exact absurd hpc hidle
  | reads ioError =>
    cases ioError with
    | true => cases hpermitted
    | false =>
      obtain ⟨htable, hoffset⟩ := hstanding
      refine ⟨h.log, h.fs, htable, hoffset, ?_⟩
      show offsetOf s.offsetFile = offsetOf s₀.offsetFile
      rw [hoffset]
  | upToDate hlog' hle =>
    obtain ⟨htable, hoffset, rfl⟩ := hstanding
    cases hlog.symm.trans hlog'
    rw [h.fs] at hle
    exact ⟨h.log, h.fs, .upToDate hle htable hoffset⟩
  | goesOn hlog' hlt =>
    obtain ⟨htable, hoffset, hsaved⟩ := hstanding
    cases hlog.symm.trans hlog'
    rw [h.fs] at hlt
    exact ⟨h.log, h.fs, htable, hoffset, hsaved, hlt⟩
  | opens hlog' =>
    obtain ⟨htable, hoffset, rfl, hlt⟩ := hstanding
    cases hlog.symm.trans hlog'
    refine ⟨h.log, h.fs, hoffset, hlt, [], rfl, rfl, rfl, ⟨[], ?_, rfl⟩, nofun, nofun, nofun⟩
    show s.table ++ [] = s₀.table ++ []
    rw [htable]
  | takes hpos hr =>
    obtain ⟨hoffset, hlt, done, hprogress⟩ := hstanding
    rw [hprogress.inode, h.fs] at hpos hr
    exact ⟨h.log, h.fs, hoffset, hlt, _, hprogress.next hpos hr⟩
  | @commits r =>
    obtain ⟨hoffset, hlt, done, hprogress⟩ := hstanding
    exact ⟨h.log, h.fs, hoffset, hlt, done, hprogress.commit (htake r rfl (.inl hpc))⟩
  | @ends r hend hbatch =>
    obtain ⟨hoffset, hlt, done, hprogress⟩ := hstanding
    rw [hprogress.inode, h.fs] at hend
    exact ⟨h.log, h.fs, (hprogress.all hend).complete hbatch⟩
  | flushes hend =>
    obtain ⟨hoffset, hlt, done, hprogress⟩ := hstanding
    rw [hprogress.inode, h.fs] at hend
    exact ⟨h.log, h.fs, hoffset, hlt, hprogress.all hend⟩
  | @commitsLast r =>
    obtain ⟨hoffset, hlt, hprogress⟩ := hstanding
    exact ⟨h.log, h.fs, (hprogress.commit (htake r rfl (.inr hpc))).complete rfl⟩
  | truncates => exact ⟨h.log, h.fs, Option.some_ne_none _, hstanding⟩
  | writes =>
    obtain ⟨hpresent, hcomplete⟩ := hstanding
    refine ⟨h.log, h.fs, .complete ?_⟩
    show Complete parse accepts i s₀ s.table (offsetOf _)
    rw [offsetOf_map, if_neg hpresent]
    exact hcomplete
  | fails =>
    obtain ⟨hoffset, hlt, hline⟩ := h.stopped (hstopped rfl)
    exact ⟨h.log, h.fs, .stopped hlt hline hoffset⟩

/-! ## Every run ends -/

/-- A bound on the steps that are left. -/
def stepsLeft (i : ℕ) (s : Pipeline ρ) : ℕ :=
  match s.etl with
  | .idle => 0
  | .truncated _ _ => 1
  | .saving _ _ => 2
  | .flushing _ => 3
  | .reading r =>
    4 + 2 * ((s.fs.content r.inode).length - r.pos) + if r.batch.length < batchSize then 0 else 1
  | .sized _ _ => 5 + 2 * (s.fs.content i).length
  | .offsetRead _ _ => 6 + 2 * (s.fs.content i).length
  | .started => 7 + 2 * (s.fs.content i).length

theorem stepsLeft_pos (hidle : s.etl ≠ .idle) : 0 < stepsLeft i s := by
  unfold stepsLeft
  cases hpc : s.etl <;> first | exact absurd hpc hidle | (dsimp only; omega)

theorem exists_importStep {pc : EtlPc ρ} {a : EtlAction} (hpc : s.etl = pc) (hidle : pc ≠ .idle)
    (hstep : etlStep parse s pc a = some s') (hpermitted : permitted parse accepts s a = true)
    (hlt : stepsLeft i s' < stepsLeft i s) :
    ∃ a s', importStep parse accepts s a = some s' ∧ stepsLeft i s' < stepsLeft i s := by
  refine ⟨a, s', ?_, hlt⟩
  unfold importStep
  split
  · rename_i hnone
    exact absurd (hpc.symm.trans hnone) hidle
  · rw [if_pos hpermitted, hpc, hstep]

/-- An exception ends the run. -/
theorem exists_fail (hidle : s.etl ≠ .idle) (hraises : raises parse accepts s = true) :
    ∃ a s', importStep parse accepts s a = some s' ∧ stepsLeft i s' < stepsLeft i s := by
  have hfail : etlStep parse s s.etl .fail = some { s with etl := .idle } := by
    cases hpc : s.etl <;> first | exact absurd hpc hidle | rfl
  exact exists_importStep rfl hidle hfail hraises (stepsLeft_pos hidle)

/-- The loop goes on, ends, or raises an exception. -/
theorem exists_loopStep (hpc : s.etl = .reading r) :
    ∃ a s', importStep parse accepts s a = some s' ∧ stepsLeft i s' < stepsLeft i s := by
  have hidle : s.etl ≠ .idle := hpc ▸ nofun
  have hleft : stepsLeft i s = 4 + 2 * ((s.fs.content r.inode).length - r.pos) +
      if r.batch.length < batchSize then 0 else 1 := by
    rw [stepsLeft, hpc]
  by_cases hfull : r.batch.length < batchSize
  · rw [if_pos hfull] at hleft
    by_cases hpos : r.pos < (s.fs.content r.inode).length
    · cases hnext : r.nextLine parse (s.fs.content r.inode) with
      | none =>
        apply exists_fail hidle
        rw [raises, hpc]
        dsimp only
        rw [if_pos hfull, hnext, decide_eq_true hpos]
        rfl
      | some r' =>
        have hr := Reading.nextLine_advances hnext
        have hstep : etlStep parse s (.reading r) .nextLine = some { s with etl := .reading r' } := by
          rw [etlStep, if_pos ⟨hfull, hpos⟩, hnext]
          rfl
        refine exists_importStep hpc nofun hstep rfl ?_
        have hraw : 0 < (readLine ((s.fs.content r.inode).drop r.pos)).raw.length := by
          apply readLine_raw_pos
          rw [ne_eq, List.drop_eq_nil_iff]
          omega
        have hpos' := hr.pos
        have hone : (if r'.batch.length < batchSize then 0 else 1) ≤ 1 := by split_ifs <;> omega
        rw [hleft]
        show 4 + 2 * ((s.fs.content r'.inode).length - r'.pos) + _ < _
        rw [hr.inode]
        omega
    · have hstep : etlStep parse s (.reading r) .endOfFile = some { s with
          etl := if r.batch = [] then .saving r.currentOffset r.epoch else .flushing r } := by
        rw [etlStep, if_pos ⟨hfull, Nat.le_of_not_lt hpos⟩]
      refine exists_importStep hpc nofun hstep rfl ?_
      rw [hleft]
      split_ifs
      · show 2 < _
        omega
      · show 3 < _
        omega
  · rw [if_neg hfull] at hleft
    cases htake : takesBatch accepts s with
    | true =>
      have hstep : etlStep parse s (.reading r) .commit =
          some { s with table := s.table ++ r.batch, etl := .reading { r with batch := [] } } := by
        rw [etlStep, if_pos (Nat.le_of_not_lt hfull)]
      refine exists_importStep hpc nofun hstep htake ?_
      rw [hleft]
      exact Nat.lt_succ_self _
    | false =>
      apply exists_fail hidle
      rw [raises, hpc]
      dsimp only
      rw [if_neg hfull, htake]
      rfl

theorem Importing.exists_step (h : Importing parse accepts i s₀ s) (hidle : s.etl ≠ .idle) :
    ∃ a s', importStep parse accepts s a = some s' ∧ stepsLeft i s' < stepsLeft i s := by
  have hlog : s.log = some i := by
    rw [Pipeline.log, h.fs]
    exact h.log
  have hleft {pc : EtlPc ρ} (hpc : s.etl = pc) : stepsLeft i s = stepsLeft i { s with etl := pc } := by
    rw [← hpc]
  cases hpc : s.etl with
  | idle => exact absurd hpc hidle
  | started =>
    refine exists_importStep hpc nofun (a := .readOffset false) rfl rfl ?_
    rw [hleft hpc]
    show 6 + 2 * (s.fs.content i).length < 7 + 2 * (s.fs.content i).length
    omega
  | offsetRead offset epoch =>
    have hstep : etlStep parse s (.offsetRead offset epoch) .checkSize = some { s with
        etl := if offset ≥ (s.fs.content i).length then .idle else .sized offset epoch } := by
      rw [etlStep, hlog]
    refine exists_importStep hpc nofun hstep rfl ?_
    rw [hleft hpc]
    split_ifs
    · show 0 < 6 + 2 * _
      omega
    · show 5 + 2 * (s.fs.content i).length < 6 + 2 * (s.fs.content i).length
      omega
  | sized offset epoch =>
    have hstep : etlStep parse s (.sized offset epoch) .openLog =
        some { s with etl := .reading ⟨i, offset, offset, [], epoch⟩ } := by
      rw [etlStep, hlog]
    refine exists_importStep hpc nofun hstep rfl ?_
    rw [hleft hpc]
    show 4 + 2 * ((s.fs.content i).length - offset) + 0 < 5 + 2 * (s.fs.content i).length
    omega
  | reading r => exact exists_loopStep hpc
  | flushing r =>
    cases htake : takesBatch accepts s with
    | true =>
      have hstep : etlStep parse s (.flushing r) .commit =
          some { s with table := s.table ++ r.batch, etl := .saving r.currentOffset r.epoch } := rfl
      refine exists_importStep hpc nofun hstep htake ?_
      rw [hleft hpc]
      exact Nat.lt_succ_self _
    | false =>
      apply exists_fail hidle
      rw [raises, hpc]
      dsimp only
      rw [htake]
      rfl
  | saving offset epoch =>
    refine exists_importStep hpc nofun (a := .openOffset) rfl rfl ?_
    rw [hleft hpc]
    exact Nat.lt_succ_self _
  | truncated offset epoch =>
    refine exists_importStep hpc nofun (a := .writeOffset) rfl rfl ?_
    rw [hleft hpc]
    exact Nat.lt_succ_self _

/-- A run always comes to an end. -/
theorem import_ends (parse : List UInt8 → Parsed ρ) (accepts : ρ → Bool) (hlog : s₀.log = some i) :
    ∃ as s', exec (importStep parse accepts) { s₀ with etl := .started } as = some s' ∧
      s'.etl = .idle := by
  have hprogress : ∀ s, Importing parse accepts i s₀ s → stepsLeft i s ≠ 0 →
      ∃ a s', True ∧ importStep parse accepts s a = some s' ∧ Importing parse accepts i s₀ s' ∧
        stepsLeft i s' < stepsLeft i s := by
    intro s h hleft
    have hidle : s.etl ≠ .idle := by
      intro hpc
      rw [stepsLeft, hpc] at hleft
      exact hleft rfl
    obtain ⟨a, s', hs, hlt⟩ := h.exists_step hidle
    exact ⟨a, s', trivial, hs, h.step hs, hlt⟩
  have hstart : Importing parse accepts i s₀ { s₀ with etl := .started } := .start hlog
  obtain ⟨as, s', -, hs, -, hzero⟩ := exists_run hprogress hstart
  refine ⟨as, s', hs, ?_⟩
  by_contra hidle
  exact (stepsLeft_pos hidle).ne' hzero

/-- How it ends. -/
theorem outcome_of_import {as : List EtlAction} (hlog : s₀.log = some i)
    (h : exec (importStep parse accepts) { s₀ with etl := .started } as = some s')
    (hidle : s'.etl = .idle) : Outcome parse accepts i s₀ s' := by
  have himporting : Importing parse accepts i s₀ s' :=
    Reachable.inv (fun s a s' hs hstep => hs.step hstep) (.start hlog) ⟨as, h⟩
  have hstanding := himporting.standing
  rw [hidle] at hstanding
  exact hstanding

/-! ## The lines that stop a run -/

theorem linesBehind_of_le (hle : (s.fs.content i).length ≤ s.savedOffset) : s.linesBehind i = [] := by
  rw [Pipeline.linesBehind, List.drop_eq_nil_of_le hle, fileLines_nil]

/-- A line that is not clean stops every run, and leaves the offset where it was:
    the next run comes to it again. -/
theorem savedOffset_of_not_clean {as : List EtlAction} (hlog : s₀.log = some i)
    (hline : ∃ line ∈ s₀.linesBehind i, ¬ Clean parse accepts line)
    (h : exec (importStep parse accepts) { s₀ with etl := .started } as = some s')
    (hidle : s'.etl = .idle) : s'.savedOffset = s₀.savedOffset := by
  obtain ⟨line, hmem, hbad⟩ := hline
  cases outcome_of_import hlog h hidle with
  | upToDate hle htable hoffset =>
    rw [linesBehind_of_le hle] at hmem
    cases hmem
  | complete hcomplete => exact absurd (hcomplete.clean line hmem) hbad
  | stopped hlt hline hoffset => exact congrArg offsetOf hoffset

/-- A run imports everything exactly when the saved offset is a position of the log,
    and every line behind it is clean and does not end with CR LF. -/
theorem completes_iff (hlog : s₀.log = some i) :
    Completes parse accepts i s₀ ↔
      s₀.savedOffset ≤ (s₀.fs.content i).length ∧
        ∀ line ∈ s₀.linesBehind i, Clean parse accepts line ∧ ¬ line.EndsCrLf := by
  have htext := textLength_eq_iff ((s₀.fs.content i).drop s₀.savedOffset)
  have hcount := textLength_add_countP ((s₀.fs.content i).drop s₀.savedOffset)
  rw [List.length_drop] at htext hcount
  constructor
  · rintro ⟨as, s', hrun, hidle, himported⟩
    have hend := himported.offset
    cases outcome_of_import hlog hrun hidle with
    | upToDate hle htable hoffset =>
      have hsaved : s'.savedOffset = s₀.savedOffset := congrArg offsetOf hoffset
      rw [linesBehind_of_le hle]
      exact ⟨by omega, by simp⟩
    | complete hcomplete =>
      have hcounted := hcomplete.offset
      rw [Pipeline.linesBehind] at hcounted
      have hcrlf := htext.mp (by omega)
      exact ⟨by omega, fun line hline => ⟨hcomplete.clean line hline, hcrlf line hline⟩⟩
    | stopped hlt hline hoffset =>
      have hsaved : s'.savedOffset = s₀.savedOffset := congrArg offsetOf hoffset
      omega
  · rintro ⟨hle, hlines⟩
    obtain ⟨as, s', hrun, hidle⟩ := import_ends parse accepts hlog
    refine ⟨as, s', hrun, hidle, ?_⟩
    cases outcome_of_import hlog hrun hidle with
    | upToDate hle' htable hoffset =>
      refine ⟨⟨[], ?_, ?_⟩, ?_⟩
      · rw [htable, List.append_nil]
      · rw [linesBehind_of_le hle']
        rfl
      · exact (congrArg offsetOf hoffset).trans (le_antisymm hle hle')
    | complete hcomplete =>
      refine ⟨hcomplete.rows, ?_⟩
      have hcounted := hcomplete.offset
      rw [Pipeline.linesBehind, htext.mpr fun line hline => (hlines line hline).2] at hcounted
      omega
    | stopped hlt hline hoffset =>
      obtain ⟨line, hline, hbad⟩ := hline
      exact absurd (hlines line hline).1 hbad

end

end LinuxFileManager.Log
