import LinuxFileManager.Log.Event

/-!
# Which lines are imported twice

`log_etl.py` commits the rows of a batch in the database and, at the end of the
run, saves the offset in a file. Between the two the table is ahead of the file,
and a run that ends there leaves rows that the next run reads again.

Results:

* `Once.step`: the table is sorted by position, and every run starts behind its
  last row, after every step that is `Careful`.
* `etl_at_most_once`: in every run of careful steps without rotation, no line is
  imported twice.
-/

namespace LinuxFileManager.Log

open Lib

variable {ρ : Type} {parse : List UInt8 → Parsed ρ}

/-! ## Specification -/

/-- The two rows have been read from common bytes of one file. -/
def Overlap (a b : Row ρ) : Prop := a.inode = b.inode ∧ a.start < b.stop ∧ b.start < a.stop

/-- No byte of a line has been imported twice. -/
def AtMostOnce (s : Pipeline ρ) : Prop := s.table.Pairwise fun a b => ¬ Overlap a b

instance (a b : Row ρ) : Decidable (Overlap a b) := inferInstanceAs (Decidable (_ ∧ _ ∧ _))

instance (s : Pipeline ρ) : Decidable (AtMostOnce s) := inferInstanceAs (Decidable (List.Pairwise _ _))

/-- The log is not rotated. -/
def Unrotating : PipelineAction → Prop
  | .rotate _ => False
  | _ => True

instance : DecidablePred Unrotating
  | .rotate _ => inferInstanceAs (Decidable False)
  | .gatewayStart | .gatewayStop | .append _ | .etl _ => inferInstanceAs (Decidable True)

/-- The steps after which no line is imported twice.

    * No line with a CR LF in it is appended.
    * No run ends early while the table has rows behind the saved offset.
    * The offset can be read once there are rows. -/
def Careful (s : Pipeline ρ) : PipelineAction → Prop
  | .append body => ∀ i, s.gateway = some i → NoCrLf (body ++ [lf])
  | .etl .fail => ∀ row ∈ s.table, row.stop ≤ s.savedOffset
  | .etl (.readOffset ioError) => ioError = true → s.table = []
  | _ => True

instance (s : Pipeline ρ) : ∀ a, Decidable (Careful s a)
  | .append body => inferInstanceAs (Decidable (∀ i, s.gateway = some i → NoCrLf (body ++ [lf])))
  | .etl .fail => inferInstanceAs (Decidable (∀ row ∈ s.table, row.stop ≤ s.savedOffset))
  | .etl (.readOffset ioError) => inferInstanceAs (Decidable (ioError = true → s.table = []))
  | .etl .start | .etl .checkSize | .etl .openLog | .etl .nextLine | .etl .commit | .etl .endOfFile
  | .etl .openOffset | .etl .writeOffset | .gatewayStart | .gatewayStop | .rotate _ =>
    inferInstanceAs (Decidable True)

/-! ## The invariant -/

/-- The rows are in the order of their lines, all before position `q`. -/
structure Sorted (rows : List (Row ρ)) (q : ℕ) : Prop where
  pairwise : rows.Pairwise fun a b => a.stop ≤ b.start
  below : ∀ row ∈ rows, row.stop ≤ q

theorem Sorted.nil (q : ℕ) : Sorted ([] : List (Row ρ)) q := ⟨.nil, fun _ h => by cases h⟩

theorem Sorted.append {rows : List (Row ρ)} {q : ℕ} (h : Sorted rows q) {row : Row ρ}
    (hstart : row.start = q) (hle : q ≤ row.stop) : Sorted (rows ++ [row]) row.stop where
  pairwise := by
    rw [List.pairwise_append]
    refine ⟨h.pairwise, List.pairwise_singleton _ _, ?_⟩
    intro a ha b hb
    rw [List.mem_singleton.mp hb, hstart]
    exact h.below a ha
  below := by
    intro a ha
    rcases List.mem_append.mp ha with ha | ha
    · exact (h.below a ha).trans hle
    · rw [List.mem_singleton.mp ha]

theorem Sorted.mono {rows : List (Row ρ)} {q q' : ℕ} (h : Sorted rows q) (hle : q ≤ q') :
    Sorted rows q' := ⟨h.pairwise, fun row hrow => (h.below row hrow).trans hle⟩

/-- Where a run of `log_etl.py` stands, all rows are behind it. -/
def EtlPc.Behind (s : Pipeline ρ) : EtlPc ρ → Prop
  | .idle | .started => Sorted s.table s.savedOffset
  | .offsetRead offset _ | .sized offset _ => Sorted s.table s.savedOffset ∧ Sorted s.table offset
  | .reading r | .flushing r => r.currentOffset = r.pos ∧ Sorted (s.table ++ r.batch) r.pos
  | .saving offset _ | .truncated offset _ => Sorted s.table offset

structure Once (s : Pipeline ρ) : Prop where
  terminated : ∀ i, Terminated lf (s.fs.content i)
  noCrLf : ∀ i, NoCrLf (s.fs.content i)
  present : ∀ offset epoch, s.etl = .truncated offset epoch → s.offsetFile ≠ none
  etl : s.etl.Behind s

theorem Once.init : Once (Pipeline.init ρ) where
  terminated := fun _ => terminated_nil
  noCrLf := fun _ => .nil
  present := by
    intro offset epoch h
    cases h
  etl := .nil 0

/-- The table stays sorted up to the last row, wherever the run stands. -/
theorem EtlPc.Behind.table {s : Pipeline ρ} {pc : EtlPc ρ} (h : pc.Behind s) : ∃ q, Sorted s.table q := by
  cases pc with
  | idle => exact ⟨_, h⟩
  | started => exact ⟨_, h⟩
  | offsetRead offset epoch | sized offset epoch => exact ⟨_, h.1⟩
  | saving offset epoch | truncated offset epoch => exact ⟨_, h⟩
  | reading r | flushing r =>
    exact ⟨r.pos, (List.pairwise_append.mp h.2.pairwise).1,
      fun row hrow => h.2.below row (List.mem_append_left _ hrow)⟩

/-! ## Steps -/

/-- What the body of the loop has read is behind all rows. -/
theorem Advances.sorted {content : List UInt8} {r r' : Reading ρ} {table : List (Row ρ)}
    (hr : Advances parse content r r') (hcontent : NoCrLf content) (hpos : r.pos < content.length)
    (hoffset : r.currentOffset = r.pos) (h : Sorted (table ++ r.batch) r.pos) :
    r'.currentOffset = r'.pos ∧ Sorted (table ++ r'.batch) r'.pos := by
  have hne : content.drop r.pos ≠ [] := by
    intro hnil
    rw [List.drop_eq_nil_iff] at hnil
    omega
  have hraw := readLine_raw_pos hne
  have hlt : r.pos ≤ r'.pos := by rw [hr.pos]; omega
  refine ⟨?_, ?_⟩
  · rw [hr.currentOffset, hr.pos, hoffset, length_text_readLine (hcontent.drop r.pos)]
  · rcases hr.batch with ⟨hbatch, -⟩ | ⟨record, -, hbatch⟩
    · rw [hbatch]
      exact h.mono hlt
    · rw [hbatch, ← List.append_assoc]
      exact h.append rfl hlt

theorem Once.etlStep {s s' : Pipeline ρ} {a : EtlAction} (h : Once s) (hcareful : Careful s (.etl a))
    (hstep : etlStep parse s s.etl a = some s') : Once s' := by
  have hmove := etlStep_move hstep
  have hbehind := h.etl
  have hpresent := h.present
  generalize s.etl = pc at hmove hbehind hpresent
  cases hmove with
  | starts | absent => exact ⟨h.terminated, h.noCrLf, nofun, hbehind⟩
  | reads ioError =>
    refine ⟨h.terminated, h.noCrLf, nofun, hbehind, ?_⟩
    cases ioError with
    | true =>
      show Sorted s.table 0
      rw [hcareful rfl]
      exact .nil 0
    | false => exact hbehind
  | upToDate => exact ⟨h.terminated, h.noCrLf, nofun, hbehind.1⟩
  | goesOn => exact ⟨h.terminated, h.noCrLf, nofun, hbehind⟩
  | opens =>
    refine ⟨h.terminated, h.noCrLf, nofun, rfl, ?_⟩
    rw [List.append_nil]
    exact hbehind.2
  | takes hpos hr =>
    obtain ⟨hoffset, hsorted⟩ := hbehind
    exact ⟨h.terminated, h.noCrLf, nofun, hr.sorted (h.noCrLf _) hpos hoffset hsorted⟩
  | commits =>
    obtain ⟨hoffset, hsorted⟩ := hbehind
    refine ⟨h.terminated, h.noCrLf, nofun, hoffset, ?_⟩
    rw [List.append_nil]
    exact hsorted
  | ends hend hbatch =>
    obtain ⟨hoffset, hsorted⟩ := hbehind
    rw [hbatch, List.append_nil, ← hoffset] at hsorted
    exact ⟨h.terminated, h.noCrLf, nofun, hsorted⟩
  | flushes => exact ⟨h.terminated, h.noCrLf, nofun, hbehind⟩
  | commitsLast =>
    obtain ⟨hoffset, hsorted⟩ := hbehind
    rw [← hoffset] at hsorted
    exact ⟨h.terminated, h.noCrLf, nofun, hsorted⟩
  | truncates => exact ⟨h.terminated, h.noCrLf, fun _ _ _ => Option.some_ne_none _, hbehind⟩
  | @writes offset epoch =>
    refine ⟨h.terminated, h.noCrLf, nofun, ?_⟩
    show Sorted s.table (offsetOf _)
    rw [offsetOf_map, if_neg (hpresent offset epoch rfl)]
    exact hbehind
  | fails =>
    obtain ⟨q, hq⟩ := hbehind.table
    exact ⟨h.terminated, h.noCrLf, nofun, hq.pairwise, hcareful⟩

/-- Other steps leave table, run and offset alone. -/
theorem Once.congr {s s' : Pipeline ρ} (h : Once s) (hetl : s'.etl = s.etl)
    (htable : s'.table = s.table) (hoffset : s'.offsetFile = s.offsetFile)
    (hterminated : ∀ i, Terminated lf (s'.fs.content i)) (hnoCrLf : ∀ i, NoCrLf (s'.fs.content i)) :
    Once s' where
  terminated := hterminated
  noCrLf := hnoCrLf
  present := by
    rw [hetl, hoffset]
    exact h.present
  etl := by
    have hbehind := h.etl
    rw [hetl]
    generalize s.etl = pc at hbehind ⊢
    cases pc <;> simpa only [EtlPc.Behind, Pipeline.savedOffset, htable, hoffset] using hbehind

theorem noCrLf_append {xs ys : List UInt8} (hx : NoCrLf xs) (hended : Terminated lf xs)
    (hy : NoCrLf ys) : NoCrLf (xs ++ ys) := by
  refine List.isChain_append.mpr ⟨hx, hy, ?_⟩
  rintro b hb c - ⟨rfl, -⟩
  exact absurd (hended cr hb) (by decide)

theorem Once.step {s s' : Pipeline ρ} {a : PipelineAction} (h : Once s) (hunrotating : Unrotating a)
    (hcareful : Careful s a) (hstep : s.step parse a = some s') : Once s' := by
  cases a with
  | gatewayStart =>
    cases hstep
    exact h.congr rfl rfl rfl (FileSystem.forall_content_openCreate h.terminated terminated_nil)
      (FileSystem.forall_content_openCreate h.noCrLf .nil)
  | gatewayStop =>
    cases hstep
    exact h.congr rfl rfl rfl h.terminated h.noCrLf
  | append body =>
    simp only [Pipeline.step] at hstep
    split at hstep
    · cases hstep
      exact h
    · rename_i i hgateway
      cases hstep
      exact h.congr rfl rfl rfl
        (FileSystem.forall_content_appendTo h.terminated
          ((h.terminated i).append (terminated_append_singleton body)))
        (FileSystem.forall_content_appendTo h.noCrLf
          (noCrLf_append (h.noCrLf i) (h.terminated i) (hcareful i hgateway)))
  | etl a => exact h.etlStep hcareful hstep
  | rotate a => exact absurd hunrotating id

/-- In every run of careful steps without rotation, in whatever order appends and
    runs of `log_etl.py` come, no line is imported twice. -/
theorem etl_at_most_once {as : List PipelineAction} (hunrotating : ∀ a ∈ as, Unrotating a)
    (hcareful : Every (Pipeline.step parse) Careful (.init ρ) as) :
    Along (Pipeline.step parse) AtMostOnce (.init ρ) as := by
  have hgood : Every (Pipeline.step parse) (fun s a => Unrotating a ∧ Careful s a) (.init ρ) as :=
    (Every.of_forall fun _ => hunrotating).and hcareful
  apply Along.of_inv (J := Once) _ _ .init hgood
  · rintro s a s' h ⟨ha, hs⟩ hstep
    exact h.step ha hs hstep
  · intro s h
    obtain ⟨q, hq⟩ := h.etl.table
    refine hq.pairwise.imp ?_
    rintro a b hle ⟨-, -, hlt⟩
    omega

/-! ## A run that ends too early -/

/-- A run ends between the commit and `save_last_offset`, and there is another one. -/
def failsBehindCommit : List PipelineAction :=
  [.gatewayStart, .append sensorBody] ++ (commitLine ++ EtlAction.fail :: commitLine).map .etl

/-- The second run imports the line again. -/
theorem fail_imports_twice :
    ¬ Along (Pipeline.step parseLine) AtMostOnce (.init Record) failsBehindCommit := by
  decide +kernel

/-- Two lines and three runs, one of which fails before its commit. -/
def failsBeforeCommit : List PipelineAction :=
  [.gatewayStart, .append sensorBody] ++ importLine.map .etl ++ [.append sensorBody] ++
    (EtlAction.start :: .readOffset false :: .checkSize :: .fail :: importLine).map .etl

theorem etl_at_most_once_failsBeforeCommit :
    Along (Pipeline.step parseLine) AtMostOnce (.init Record) failsBeforeCommit :=
  etl_at_most_once (by decide) (by decide +kernel)

end LinuxFileManager.Log
