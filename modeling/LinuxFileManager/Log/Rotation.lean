import LinuxFileManager.Log.NoLoss

/-!
# Events across rotations of the log

When `log_rotate.sh` exchanges the file at `events.json.log`, the gateway keeps
the old file open, and the offset that `log_etl.py` has saved is one of the old
file until it is deleted. Here is when no event is lost all the same.

Results:

* `Recorded.step`: where the events are, after every step that is `Safe`.
* `pipeline_keeps_events`: in every run of safe steps, every event that has been
  appended is committed, or is in the log at or behind the saved offset.
-/

namespace LinuxFileManager.Log

open Lib

variable {ρ : Type} {parse : List UInt8 → Parsed ρ}

/-! ## Specification -/

/-- The table has a row with the record of the event. -/
def Committed (parse : List UInt8 → Parsed ρ) (s : Pipeline ρ) (e : Event) : Prop :=
  ∃ row ∈ s.table, row.inode = e.inode ∧ row.start = e.start ∧ parse e.line = .record row.record

/-- The event is in the log, and not before the saved offset. -/
def Pending (s : Pipeline ρ) (e : Event) : Prop :=
  s.log = some e.inode ∧ s.savedOffset ≤ e.start ∧ e.line <+: (s.fs.content e.inode).drop e.start

/-- Every event that has been appended is committed or pending. -/
def Kept (parse : List UInt8 → Parsed ρ) (s : Pipeline ρ) : Prop :=
  ∀ e ∈ s.events, Committed parse s e ∨ Pending s e

/-- `parse_line` makes a record of the line. -/
def Importable (parse : List UInt8 → Parsed ρ) (body : List UInt8) : Prop :=
  lf ∉ body ∧ cr ∉ body ∧ ∃ record, parse (body ++ [lf]) = .record record

/-- The steps that lose no event.

    * A line is appended only to the file at `events.json.log`, behind the saved
      offset, and one that can be imported.
    * The log is moved only when its events have been committed.
    * No offset is saved by a run in whose course the log has been rotated. -/
def Safe (parse : List UInt8 → Parsed ρ) (s : Pipeline ρ) : PipelineAction → Prop
  | .append body => ∀ i, s.gateway = some i →
      s.log = some i ∧ s.savedOffset ≤ (s.fs.content i).length ∧ Importable parse body
  | .rotate (.mv _) => ∀ e ∈ s.events, s.log = some e.inode → Committed parse s e
  | .etl .writeOffset => s.offsetFile = none ∨ ∀ epoch ∈ s.etl.epoch?, epoch = s.epoch
  | _ => True

instance [DecidableEq ρ] (s : Pipeline ρ) (e : Event) : Decidable (Committed parse s e) :=
  inferInstanceAs (Decidable (∃ row ∈ s.table, _ ∧ _ ∧ _))

instance (s : Pipeline ρ) (e : Event) : Decidable (Pending s e) :=
  inferInstanceAs (Decidable (_ ∧ _ ∧ _))

instance (body : List UInt8) : Decidable (Importable parse body) :=
  have : Decidable (∃ record, parse (body ++ [lf]) = .record record) :=
    match parse (body ++ [lf]) with
    | .record record => isTrue ⟨record, rfl⟩
    | .skipped => isFalse nofun
    | .raised => isFalse nofun
  inferInstanceAs (Decidable (_ ∧ _ ∧ _))

instance [DecidableEq ρ] (s : Pipeline ρ) : ∀ a, Decidable (Safe parse s a)
  | .append _ => inferInstanceAs (Decidable (∀ i, s.gateway = some i → _))
  | .rotate (.mv _) => inferInstanceAs (Decidable (∀ e ∈ s.events, _))
  | .etl .writeOffset => inferInstanceAs (Decidable (_ ∨ _))
  | .etl .start | .etl (.readOffset _) | .etl .checkSize | .etl .openLog | .etl .nextLine | .etl .commit
  | .etl .endOfFile | .etl .openOffset | .etl .fail | .gatewayStart | .gatewayStop
  | .rotate (.start _) | .rotate .touch | .rotate .reset | .rotate .fail =>
    inferInstanceAs (Decidable True)

theorem Safe.sound {s : Pipeline ρ} {a : PipelineAction} (h : Safe parse s a) : Sound s a := by
  cases a with
  | append body =>
    intro i hgateway
    obtain ⟨-, hbehind, -, hcr, -⟩ := h i hgateway
    exact ⟨hcr, fun _ => hbehind⟩
  | etl a =>
    cases a with
    | writeOffset => exact h
    | _ => trivial
  | _ => trivial

/-! ## The invariant -/

/-- Each event is a line of the file it was appended to; if it has not been
    committed, this file is the log. A saved offset that is beyond the end of the
    log belongs to an older file, and the log is empty. -/
structure Recorded (parse : List UInt8 → Parsed ρ) (s : Pipeline ρ) : Prop where
  inode : ∀ e ∈ s.events, e.inode < s.fs.nextInode
  line : ∀ e ∈ s.events, LineAt lf (s.fs.content e.inode) e.start e.line
  importable : ∀ e ∈ s.events, ∃ record, parse e.line = .record record
  owned : ∀ e ∈ s.events, Committed parse s e ∨ s.log = some e.inode
  saved : ∀ i, s.log = some i → s.savedOffset ≤ (s.fs.content i).length ∨ s.fs.content i = []

theorem Recorded.init : Recorded parse (Pipeline.init ρ) where
  inode := by
    intro e h
    cases h
  line := by
    intro e h
    cases h
  importable := by
    intro e h
    cases h
  owned := by
    intro e h
    cases h
  saved := by
    intro i h
    cases h

/-- An event of the log in front of the saved offset has been imported. -/
theorem Recorded.kept {s : Pipeline ρ} (h : Recorded parse s) (hloss : NoLoss parse s) :
    Kept parse s := by
  intro e he
  have hline := h.line e he
  rcases h.owned e he with hcommitted | hlog
  · exact .inl hcommitted
  · by_cases hlt : e.start < s.savedOffset
    · have hlen : s.savedOffset ≤ (s.fs.content e.inode).length := by
        rcases h.saved _ hlog with hlen | hnil
        · exact hlen
        · have hpos := hline.length_pos
          have hend := hline.le_length
          rw [hnil, List.length_nil] at hend
          omega
      have hdone := hloss.saved _ hlog hlen
      obtain ⟨record, hrecord⟩ := h.importable e he
      obtain ⟨row, hrow, hinode, hstart, heq⟩ := hdone.imported e.start e.line record hline
        (hline.le_of_boundary hdone.boundary hlt) hrecord
      exact .inl ⟨row, hrow, hinode, hstart, heq ▸ hrecord⟩
    · exact .inr ⟨hlog, Nat.le_of_not_lt hlt, hline.2.1⟩

/-! ## Steps -/

theorem Committed.mono {s s' : Pipeline ρ} {e : Event} (h : Committed parse s e)
    (hsub : s.table ⊆ s'.table) : Committed parse s' e := by
  obtain ⟨row, hrow, hfields⟩ := h
  exact ⟨row, hsub hrow, hfields⟩

/-- The steps that leave the files alone: the table grows, and the saved offset is
    `0` or within the log. -/
theorem Recorded.congr {s s' : Pipeline ρ} (h : Recorded parse s) (hfs : s'.fs = s.fs)
    (hevents : s'.events = s.events) (htable : s.table ⊆ s'.table)
    (hsaved : s'.savedOffset = s.savedOffset ∨ ∀ i, s.log = some i →
      s'.savedOffset ≤ (s.fs.content i).length) : Recorded parse s' where
  inode := by
    rw [hevents, hfs]
    exact h.inode
  line := by
    rw [hevents, hfs]
    exact h.line
  importable := by
    rw [hevents]
    exact h.importable
  owned := by
    rw [hevents]
    intro e he
    rw [Pipeline.log, hfs]
    exact (h.owned e he).imp_left fun hcommitted => hcommitted.mono htable
  saved := by
    intro i hlog
    rw [Pipeline.log, hfs] at hlog
    rw [hfs]
    rcases hsaved with heq | hle
    · rw [heq]
      exact h.saved i hlog
    · exact .inl (hle i hlog)

theorem Recorded.openLog {s s' : Pipeline ρ} (h : Recorded parse s)
    (hfs : s'.fs = (s.fs.openCreate .log).2) (hevents : s'.events = s.events)
    (htable : s'.table = s.table) (hoffset : s'.offsetFile = s.offsetFile) : Recorded parse s' := by
  have hsaved : s'.savedOffset = s.savedOffset := by
    rw [Pipeline.savedOffset, hoffset, Pipeline.savedOffset]
  have hsub : s.table ⊆ s'.table := by
    rw [htable]
    exact List.Subset.refl _
  rcases s.fs.openCreate_cases .log with ⟨i, -, hopen⟩ | ⟨hnone, hopen⟩
  · rw [hopen] at hfs
    exact h.congr hfs hevents hsub (.inl hsaved)
  · rw [hopen] at hfs
    have hcontent {i : ℕ} (hi : i < s.fs.nextInode) : s'.fs.content i = s.fs.content i := by
      rw [hfs]
      show Function.update s.fs.content s.fs.nextInode [] i = _
      exact Function.update_of_ne (by omega) ..
    refine ⟨?_, ?_, ?_, ?_, ?_⟩
    · intro e he
      rw [hevents] at he
      rw [hfs]
      exact Nat.lt_succ_of_lt (h.inode e he)
    · intro e he
      rw [hevents] at he
      rw [hcontent (h.inode e he)]
      exact h.line e he
    · rw [hevents]
      exact h.importable
    · intro e he
      rw [hevents] at he
      rcases h.owned e he with hcommitted | hlog
      · exact .inl (hcommitted.mono hsub)
      · rw [Pipeline.log, hnone] at hlog
        cases hlog
    · intro i hlog
      rw [Pipeline.log, hfs] at hlog
      have hnew : Function.update s.fs.names .log (some s.fs.nextInode) .log = some i := hlog
      rw [Function.update_self] at hnew
      obtain rfl := Option.some.inj hnew
      refine .inr ?_
      rw [hfs]
      exact Function.update_self ..

/-- A line is appended to the log. -/
theorem Recorded.append {s : Pipeline ρ} (h : Recorded parse s) (hloss : NoLoss parse s) {i : ℕ}
    {body : List UInt8} (hlog : s.log = some i) (hbehind : s.savedOffset ≤ (s.fs.content i).length)
    (hbody : Importable parse body) :
    Recorded parse { s with
      fs := s.fs.appendTo i (body ++ [lf])
      events := s.events ++ [⟨i, (s.fs.content i).length, body ++ [lf]⟩] } := by
  obtain ⟨hlf, -, hrecord⟩ := hbody
  have hold {e : Event} (he : e ∈ s.events) :
      LineAt lf ((s.fs.appendTo i (body ++ [lf])).content e.inode) e.start e.line := by
    by_cases hi : e.inode = i
    · rw [hi, FileSystem.content_appendTo_self]
      exact (hi ▸ h.line e he).append _
    · rw [FileSystem.content_appendTo_of_ne hi]
      exact h.line e he
  refine ⟨?_, ?_, ?_, ?_, ?_⟩
  · intro e he
    rcases List.mem_append.mp he with he | he
    · exact h.inode e he
    · rw [List.mem_singleton.mp he]
      exact s.fs.names_lt .log i hlog
  · intro e he
    rcases List.mem_append.mp he with he | he
    · exact hold he
    · rw [List.mem_singleton.mp he]
      show LineAt lf ((s.fs.appendTo i (body ++ [lf])).content i) _ _
      rw [FileSystem.content_appendTo_self]
      exact lineAt_append_line (hloss.terminated i) hlf
  · intro e he
    rcases List.mem_append.mp he with he | he
    · exact h.importable e he
    · rw [List.mem_singleton.mp he]
      exact hrecord
  · intro e he
    rcases List.mem_append.mp he with he | he
    · exact h.owned e he
    · rw [List.mem_singleton.mp he]
      exact .inr hlog
  · intro j hlog'
    obtain rfl := Option.some.inj (hlog.symm.trans hlog')
    refine .inl ?_
    show s.savedOffset ≤ ((s.fs.appendTo i (body ++ [lf])).content i).length
    rw [FileSystem.content_appendTo_self, List.length_append]
    omega

/-- The log is moved, and its events have been committed. -/
theorem Recorded.mv {s s' : Pipeline ρ} (h : Recorded parse s)
    (hcommitted : ∀ e ∈ s.events, s.log = some e.inode → Committed parse s e)
    (hcontent : s'.fs.content = s.fs.content) (hnext : s'.fs.nextInode = s.fs.nextInode)
    (hlog : s'.log = none) (hevents : s'.events = s.events) (htable : s'.table = s.table) :
    Recorded parse s' where
  inode := by
    rw [hevents, hnext]
    exact h.inode
  line := by
    rw [hevents, hcontent]
    exact h.line
  importable := by
    rw [hevents]
    exact h.importable
  owned := by
    rw [hevents]
    intro e he
    have hold : Committed parse s e := (h.owned e he).elim id (hcommitted e he)
    refine .inl (hold.mono ?_)
    rw [htable]
    exact List.Subset.refl _
  saved := by
    intro i hi
    rw [hlog] at hi
    cases hi

theorem Recorded.rotate {s s' : Pipeline ρ} {a : RotateAction} (h : Recorded parse s)
    (hsafe : Safe parse s (.rotate a)) (hstep : rotateStep s s.rotate a = some s') :
    Recorded parse s' := by
  unfold rotateStep at hstep
  split at hstep
  case h_1 =>
    cases hstep
    exact h.congr rfl rfl (List.Subset.refl _) (.inl rfl)
  case h_2 =>
    cases hstep
    exact h.mv hsafe (s.content_mvLog _) (s.nextInode_mvLog _) (s.names_mvLog _) rfl rfl
  case h_3 =>
    cases hstep
    exact h.openLog rfl rfl rfl rfl
  case h_4 =>
    cases hstep
    exact h.congr rfl rfl (List.Subset.refl _) (.inr fun i _ => Nat.zero_le _)
  case h_5 => cases hstep
  case h_6 =>
    cases hstep
    exact h.congr rfl rfl (List.Subset.refl _) (.inl rfl)
  case h_7 => cases hstep

theorem Recorded.etlStep {s s' : Pipeline ρ} {a : EtlAction} (h : Recorded parse s)
    (hloss : NoLoss parse s) (hsafe : Safe parse s (.etl a))
    (hstep : etlStep parse s s.etl a = some s') : Recorded parse s' := by
  have hmove := etlStep_move hstep
  have hgood := hloss.etl
  generalize hpc : s.etl = pc at hmove hgood
  cases hmove with
  | starts | absent | reads | upToDate | goesOn | opens | takes | ends | flushes | fails =>
    exact h.congr rfl rfl (List.Subset.refl _) (.inl rfl)
  | commits | commitsLast => exact h.congr rfl rfl (List.subset_append_left _ _) (.inl rfl)
  | truncates => exact h.congr rfl rfl (List.Subset.refl _) (.inr fun i _ => Nat.zero_le _)
  | @writes offset epoch =>
    refine h.congr rfl rfl (List.Subset.refl _) (.inr ?_)
    intro i hlog
    rw [Pipeline.savedOffset, offsetOf_map]
    split_ifs with hmissing
    · exact Nat.zero_le _
    · have hsame := hsafe.resolve_left hmissing
      rw [hpc] at hsame
      obtain ⟨j, hlog', hdone⟩ := hgood (hsame epoch rfl)
      obtain rfl := Option.some.inj (hlog.symm.trans hlog')
      exact hdone.boundary.1

theorem Recorded.step {s s' : Pipeline ρ} {a : PipelineAction} (h : Recorded parse s)
    (hloss : NoLoss parse s) (hsafe : Safe parse s a) (hstep : s.step parse a = some s') :
    Recorded parse s' := by
  cases a with
  | gatewayStart =>
    cases hstep
    exact h.openLog rfl rfl rfl rfl
  | gatewayStop =>
    cases hstep
    exact h.congr rfl rfl (List.Subset.refl _) (.inl rfl)
  | append body =>
    simp only [Pipeline.step] at hstep
    split at hstep
    · cases hstep
      exact h
    · rename_i i hgateway
      cases hstep
      obtain ⟨hlog, hbehind, hbody⟩ := hsafe i hgateway
      exact h.append hloss hlog hbehind hbody
  | etl a => exact h.etlStep hloss hsafe hstep
  | rotate a => exact h.rotate hsafe hstep

/-- In every run of safe steps, in whatever order the programs take them and
    wherever runs of `log_etl.py` fail: at every moment every event that has been
    appended is committed, or is in the log at or behind the saved offset. -/
theorem pipeline_keeps_events {as : List PipelineAction}
    (hsafe : Every (Pipeline.step parse) (Safe parse) (.init ρ) as) :
    Along (Pipeline.step parse) (Kept parse) (.init ρ) as := by
  apply Along.of_inv (J := fun s => NoLoss parse s ∧ Recorded parse s) _ _ ⟨.init, .init⟩ hsafe
  · rintro s a s' ⟨hloss, hrecorded⟩ hgood hstep
    exact ⟨hloss.step hgood.sound hstep, hrecorded.step hloss hgood hstep⟩
  · rintro s ⟨hloss, hrecorded⟩
    exact hrecorded.kept hloss

/-! ## A gateway that keeps the old file -/

/-- An event is appended and imported, and `log_rotate.sh` runs. -/
def importThenRotate : List PipelineAction :=
  [.gatewayStart, .append sensorBody] ++ importLine.map .etl ++
    [.rotate (.start true), .rotate (.mv 0), .rotate .touch, .rotate .reset]

/-- The gateway goes on. -/
def appendBehindRotation : List PipelineAction := importThenRotate ++ [.append sensorBody]

/-- The gateway is started again before it goes on. -/
def restartBehindRotation : List PipelineAction :=
  importThenRotate ++ [.gatewayStop, .gatewayStart, .append sensorBody] ++ importLine.map .etl

/-- The event is neither committed nor pending. -/
theorem not_kept {s : Pipeline ρ} {e : Event} (he : e ∈ s.events)
    (htable : ∀ row ∈ s.table, row.inode = e.inode → row.start ≠ e.start) (hlog : s.log ≠ some e.inode) :
    ¬ Kept parse s := by
  intro hkept
  rcases hkept e he with ⟨row, hrow, hinode, hstart, -⟩ | hpending
  · exact htable row hrow hinode hstart
  · exact hlog hpending.1

/-- The log is rotated when its event has been imported, and the next event of the
    gateway goes to the file in the archive. -/
theorem rotate_loses_event :
    ¬ Along (Pipeline.step parseLine) (Kept parseLine) (.init Record) appendBehindRotation := by
  intro hkept
  have hend : (exec (Pipeline.step parseLine) (.init Record) appendBehindRotation).any
      (fun s => ∃ e ∈ s.events, (∀ row ∈ s.table, row.inode = e.inode → row.start ≠ e.start) ∧
        s.log ≠ some e.inode) = true := by
    decide +kernel
  obtain ⟨s, hexec, hs⟩ := (Option.any_eq_true _ _).mp hend
  obtain ⟨e, he, htable, hlog⟩ := of_decide_eq_true hs
  exact not_kept he htable hlog (hkept.last hexec)

/-- `parse_line` with the time of a record only, so that two records can be compared. -/
def parseTimeOfLine (line : List UInt8) : Parsed (Option DateTime) :=
  match parseLine line with
  | .record record => .record record.eventTime
  | .skipped => .skipped
  | .raised => .raised

/-- A rotation between two runs of the gateway. -/
theorem pipeline_keeps_events_restart :
    Along (Pipeline.step parseTimeOfLine) (Kept parseTimeOfLine) (.init (Option DateTime))
      restartBehindRotation :=
  pipeline_keeps_events (by decide +kernel)

end LinuxFileManager.Log
