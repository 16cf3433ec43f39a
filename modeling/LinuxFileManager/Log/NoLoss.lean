import LinuxFileManager.Log.Event

/-!
# No line before the saved offset is lost

`log_etl.py` commits the rows of a batch, and saves the offset when it has read
the file to its end. Here is the invariant that ties the offset to the table: it
is a boundary between lines, and the lines before it have been committed. It
holds as long as the file at `events.json.log` is not exchanged while a run of
`log_etl.py` is under way, and it does not matter where runs fail.

Results:

* `Done.next`: one line further.
* `NoLoss.step`: the invariant, for every step that is `Sound`.
* `etl_no_loss`: without rotation, the saved offset is a boundary, and every line
  before it that has a record is in the table.
-/

namespace LinuxFileManager.Log

open Lib

variable {ρ : Type} {parse : List UInt8 → Parsed ρ}

/-! ## Positions up to which a file has been imported -/

/-- Position `q` of the file `i` with content `xs` is a boundary, and the lines
    before it that have a record are in `table`. -/
structure Done (parse : List UInt8 → Parsed ρ) (table : List (Row ρ)) (i : ℕ) (xs : List UInt8)
    (q : ℕ) : Prop where
  boundary : Boundary lf xs q
  imported : ∀ p line record, LineAt lf xs p line → p + line.length ≤ q → parse line = .record record →
    ∃ row ∈ table, row.inode = i ∧ row.start = p ∧ row.record = record

namespace Done

variable {table table' : List (Row ρ)} {i q : ℕ} {xs : List UInt8}

theorem zero (table : List (Row ρ)) (i : ℕ) (xs : List UInt8) : Done parse table i xs 0 where
  boundary := boundary_zero xs
  imported := by
    intro p line record hline hle
    have := hline.length_pos
    omega

/-- The file grows. -/
theorem append (h : Done parse table i xs q) (ys : List UInt8) : Done parse table i (xs ++ ys) q where
  boundary := h.boundary.append ys
  imported := by
    intro p line record hline hle
    exact h.imported p line record (hline.of_append (hle.trans h.boundary.1)) hle

/-- The table grows. -/
theorem mono (h : Done parse table i xs q) (hsub : table ⊆ table') : Done parse table' i xs q where
  boundary := h.boundary
  imported := by
    intro p line record hline hle hparse
    obtain ⟨row, hrow, hfields⟩ := h.imported p line record hline hle hparse
    exact ⟨row, hsub hrow, hfields⟩

/-- The line behind the position has been dealt with, too. -/
theorem next {line : List UInt8} (h : Done parse table i xs q) (hline : LineAt lf xs q line)
    (hsub : table ⊆ table')
    (hnew : ∀ record, parse line = .record record →
      ∃ row ∈ table', row.inode = i ∧ row.start = q ∧ row.record = record) :
    Done parse table' i xs (q + line.length) where
  boundary := hline.next
  imported := by
    intro p line' record hline' hle hparse
    by_cases hlt : p < q
    · -- a line that starts before `q` ends there at the latest
      have hend := hline'.le_of_boundary h.boundary hlt
      exact (h.mono hsub).imported p line' record hline' hend hparse
    · have hpos := hline'.length_pos
      obtain rfl : p = q := by
        by_contra hne
        have := hline.le_of_boundary hline'.boundary (by omega)
        omega
      obtain rfl := hline.unique hline'
      exact hnew record hparse

end Done

/-! ## The invariant -/

/-- The epoch that a run of `log_etl.py` has noted. -/
def EtlPc.epoch? : EtlPc ρ → Option ℕ
  | .idle | .started => none
  | .offsetRead _ epoch | .sized _ epoch | .saving _ epoch | .truncated _ epoch => some epoch
  | .reading r | .flushing r => some r.epoch

/-- What is true of a run of `log_etl.py` as long as nothing has been rotated
    since it read the offset. -/
def EtlPc.Good (parse : List UInt8 → Parsed ρ) (s : Pipeline ρ) : EtlPc ρ → Prop
  | .idle | .started => True
  | .offsetRead lastOffset epoch => epoch = s.epoch → lastOffset ≤ s.savedOffset ∧
      ∀ i, s.log = some i → lastOffset ≤ (s.fs.content i).length →
        Done parse s.table i (s.fs.content i) lastOffset
  | .sized offset epoch | .saving offset epoch | .truncated offset epoch => epoch = s.epoch →
      ∃ i, s.log = some i ∧ Done parse s.table i (s.fs.content i) offset
  | .reading r | .flushing r => r.epoch = s.epoch → s.log = some r.inode ∧
      r.currentOffset = r.pos ∧ Done parse (s.table ++ r.batch) r.inode (s.fs.content r.inode) r.pos

/-- The saved offset, and the offset of a run that is under way, are positions up
    to which the log has been imported. -/
structure NoLoss (parse : List UInt8 → Parsed ρ) (s : Pipeline ρ) : Prop where
  terminated : ∀ i, Terminated lf (s.fs.content i)
  noCr : ∀ i, cr ∉ s.fs.content i
  noted : ∀ epoch ∈ s.etl.epoch?, epoch ≤ s.epoch
  saved : ∀ i, s.log = some i → s.savedOffset ≤ (s.fs.content i).length →
    Done parse s.table i (s.fs.content i) s.savedOffset
  etl : s.etl.Good parse s

theorem NoLoss.init : NoLoss parse (Pipeline.init ρ) where
  terminated := fun _ => terminated_nil
  noCr := fun _ => List.not_mem_nil
  noted := by
    intro epoch h
    cases h
  saved := by
    intro i h
    cases h
  etl := trivial

/-- The steps that keep the invariant: no carriage return is appended, nothing is
    appended to the log in front of the saved offset, and no offset is saved by a
    run in whose course the log has been rotated. -/
def Sound (s : Pipeline ρ) : PipelineAction → Prop
  | .append body => ∀ i, s.gateway = some i →
      cr ∉ body ∧ (s.log = some i → s.savedOffset ≤ (s.fs.content i).length)
  | .etl .writeOffset => s.offsetFile = none ∨ ∀ epoch ∈ s.etl.epoch?, epoch = s.epoch
  | _ => True

/-! ## Steps of the gateway and of `log_rotate.sh` -/

/-- Only the files have changed, and of the log at most the end, behind the saved
    offset; or it has been created. -/
structure Extends (s s' : Pipeline ρ) : Prop where
  table : s'.table = s.table
  etl : s'.etl = s.etl
  epoch : s'.epoch = s.epoch
  saved : s'.savedOffset = s.savedOffset
  log : ∀ i, s.log = some i → s'.log = some i
  content : ∀ i, s'.log = some i →
    (s.log = some i ∧ ∃ ys, s'.fs.content i = s.fs.content i ++ ys ∧
      (ys = [] ∨ s.savedOffset ≤ (s.fs.content i).length)) ∨
    (s.log = none ∧ s'.fs.content i = [])

theorem Extends.done {s s' : Pipeline ρ} (h : Extends s s') {offset i : ℕ}
    (hold : s.log = some i → offset ≤ (s.fs.content i).length →
      Done parse s.table i (s.fs.content i) offset)
    (hle : offset ≤ s.savedOffset) (hlog : s'.log = some i)
    (hlen : offset ≤ (s'.fs.content i).length) : Done parse s'.table i (s'.fs.content i) offset := by
  rw [h.table]
  rcases h.content i hlog with ⟨hlog₀, ys, hys, hbehind⟩ | ⟨-, hnil⟩
  · have hlen₀ : offset ≤ (s.fs.content i).length := by
      rcases hbehind with rfl | hbehind
      · rwa [hys, List.append_nil] at hlen
      · exact hle.trans hbehind
    rw [hys]
    exact (hold hlog₀ hlen₀).append ys
  · rw [hnil] at hlen ⊢
    obtain rfl : offset = 0 := Nat.le_zero.mp hlen
    exact .zero _ _ _

theorem Extends.done_of_log {s s' : Pipeline ρ} (h : Extends s s') {table : List (Row ρ)} {offset i : ℕ}
    (hlog : s.log = some i) (hdone : Done parse table i (s.fs.content i) offset) :
    Done parse table i (s'.fs.content i) offset := by
  rcases h.content i (h.log i hlog) with ⟨-, ys, hys, -⟩ | ⟨hnone, -⟩
  · rw [hys]
    exact hdone.append ys
  · rw [hlog] at hnone
    cases hnone

theorem Extends.good {s s' : Pipeline ρ} (h : Extends s s') {pc : EtlPc ρ} (hpc : pc.Good parse s) :
    pc.Good parse s' := by
  cases pc with
  | idle => trivial
  | started => trivial
  | offsetRead lastOffset epoch =>
    intro hepoch
    obtain ⟨hle, hdone⟩ := hpc (hepoch.trans h.epoch)
    exact ⟨h.saved ▸ hle, fun i hlog hlen => h.done (hdone i) hle hlog hlen⟩
  | sized offset epoch | saving offset epoch | truncated offset epoch =>
    intro hepoch
    obtain ⟨i, hlog, hdone⟩ := hpc (hepoch.trans h.epoch)
    exact ⟨i, h.log i hlog, h.table ▸ h.done_of_log hlog hdone⟩
  | reading r | flushing r =>
    intro hepoch
    obtain ⟨hlog, hoffset, hdone⟩ := hpc (hepoch.trans h.epoch)
    exact ⟨h.log _ hlog, hoffset, h.table ▸ h.done_of_log hlog hdone⟩

theorem NoLoss.extend {s s' : Pipeline ρ} (h : NoLoss parse s) (hext : Extends s s')
    (hterminated : ∀ i, Terminated lf (s'.fs.content i)) (hnoCr : ∀ i, cr ∉ s'.fs.content i) :
    NoLoss parse s' where
  terminated := hterminated
  noCr := hnoCr
  noted := by
    rw [hext.etl, hext.epoch]
    exact h.noted
  saved := by
    intro i hlog hlen
    rw [hext.saved] at hlen ⊢
    exact hext.done (h.saved i) le_rfl hlog hlen
  etl := by
    rw [hext.etl]
    exact hext.good h.etl

/-- The steps that change nothing but the state of the gateway or the script. -/
theorem NoLoss.congr {s s' : Pipeline ρ} (h : NoLoss parse s) (hfs : s'.fs = s.fs)
    (htable : s'.table = s.table) (hetl : s'.etl = s.etl) (hepoch : s'.epoch = s.epoch)
    (hoffset : s'.offsetFile = s.offsetFile) : NoLoss parse s' := by
  have hext : Extends s s' := by
    refine ⟨htable, hetl, hepoch, ?_, ?_, ?_⟩
    · rw [Pipeline.savedOffset, hoffset, Pipeline.savedOffset]
    · intro i hlog
      rwa [Pipeline.log, hfs]
    · intro i hlog
      rw [Pipeline.log, hfs] at hlog
      exact .inl ⟨hlog, [], by rw [hfs, List.append_nil], .inl rfl⟩
  apply h.extend hext
  · rw [hfs]
    exact h.terminated
  · rw [hfs]
    exact h.noCr

/-- The log is opened, and created when it is missing. -/
theorem NoLoss.openLog {s s' : Pipeline ρ} (h : NoLoss parse s)
    (hfs : s'.fs = (s.fs.openCreate .log).2) (htable : s'.table = s.table) (hetl : s'.etl = s.etl)
    (hepoch : s'.epoch = s.epoch) (hoffset : s'.offsetFile = s.offsetFile) : NoLoss parse s' := by
  rcases s.fs.openCreate_cases .log with ⟨i, -, hopen⟩ | ⟨hnone, hopen⟩
  · rw [hopen] at hfs
    exact h.congr hfs htable hetl hepoch hoffset
  · rw [hopen] at hfs
    have hlog : s'.log = some s.fs.nextInode := by
      rw [Pipeline.log, hfs]
      exact Function.update_self FileName.log (some s.fs.nextInode) s.fs.names
    have hext : Extends s s' := by
      refine ⟨htable, hetl, hepoch, ?_, ?_, ?_⟩
      · rw [Pipeline.savedOffset, hoffset, Pipeline.savedOffset]
      · intro i hi
        rw [Pipeline.log, hnone] at hi
        cases hi
      · intro i hi
        obtain rfl : s.fs.nextInode = i := Option.some.inj (hlog.symm.trans hi)
        refine .inr ⟨hnone, ?_⟩
        rw [hfs]
        exact Function.update_self ..
    have hopened : s'.fs = (s.fs.openCreate .log).2 := by rw [hopen, hfs]
    apply h.extend hext
    · rw [hopened]
      exact FileSystem.forall_content_openCreate h.terminated terminated_nil
    · rw [hopened]
      exact FileSystem.forall_content_openCreate (P := fun xs => cr ∉ xs) h.noCr List.not_mem_nil

/-- A line is appended. -/
theorem NoLoss.append {s : Pipeline ρ} (h : NoLoss parse s) {i : ℕ} {body : List UInt8}
    {events : List Event} (hcr : cr ∉ body)
    (hbehind : s.log = some i → s.savedOffset ≤ (s.fs.content i).length) :
    NoLoss parse { s with fs := s.fs.appendTo i (body ++ [lf]), events := events } := by
  have hext : Extends s { s with fs := s.fs.appendTo i (body ++ [lf]), events := events } := by
    refine ⟨rfl, rfl, rfl, rfl, fun j hlog => hlog, ?_⟩
    intro j hlog
    refine .inl ⟨hlog, ?_⟩
    by_cases hj : j = i
    · subst hj
      exact ⟨_, FileSystem.content_appendTo_self j _, .inr (hbehind hlog)⟩
    · exact ⟨[], by rw [List.append_nil]; exact FileSystem.content_appendTo_of_ne hj _, .inl rfl⟩
  apply h.extend hext
  · exact FileSystem.forall_content_appendTo h.terminated
      ((h.terminated i).append (terminated_append_singleton body))
  · apply FileSystem.forall_content_appendTo (P := fun xs => cr ∉ xs) h.noCr
    intro hmem
    simp only [List.mem_append, List.mem_singleton] at hmem
    rcases hmem with hmem | hmem | hmem
    · exact h.noCr i hmem
    · exact hcr hmem
    · exact absurd hmem (by decide)

/-- A step of `log_rotate.sh` that begins a new epoch ends all claims on runs that
    are under way. -/
theorem EtlPc.good_of_epoch {s s' : Pipeline ρ} {pc : EtlPc ρ}
    (hnoted : ∀ epoch ∈ pc.epoch?, epoch ≤ s.epoch) (hepoch : s'.epoch = s.epoch + 1) :
    pc.Good parse s' := by
  have hlater {epoch : ℕ} (hmem : pc.epoch? = some epoch) : epoch ≠ s'.epoch := by
    have := hnoted epoch hmem
    omega
  cases pc with
  | idle => trivial
  | started => trivial
  | offsetRead lastOffset epoch => exact fun h => absurd h (hlater rfl)
  | sized offset epoch | saving offset epoch | truncated offset epoch =>
    exact fun h => absurd h (hlater rfl)
  | reading r | flushing r => exact fun h => absurd h (hlater rfl)

theorem NoLoss.rotate {s s' : Pipeline ρ} {a : RotateAction} (h : NoLoss parse s)
    (hstep : rotateStep s s.rotate a = some s') : NoLoss parse s' := by
  unfold rotateStep at hstep
  split at hstep
  case h_1 =>
    cases hstep
    exact h.congr rfl rfl rfl rfl rfl
  case h_2 =>
    cases hstep
    refine ⟨?_, ?_, ?_, ?_, EtlPc.good_of_epoch h.noted rfl⟩
    · rw [Pipeline.content_mvLog]
      exact h.terminated
    · rw [Pipeline.content_mvLog]
      exact h.noCr
    · exact fun epoch hnoted => (h.noted epoch hnoted).trans (Nat.le_succ _)
    · intro i hlog
      rw [Pipeline.log, Pipeline.names_mvLog] at hlog
      cases hlog
  case h_3 =>
    cases hstep
    exact h.openLog rfl rfl rfl rfl rfl
  case h_4 =>
    cases hstep
    refine ⟨h.terminated, h.noCr, ?_, ?_, EtlPc.good_of_epoch h.noted rfl⟩
    · exact fun epoch hnoted => (h.noted epoch hnoted).trans (Nat.le_succ _)
    · exact fun i _ _ => .zero _ _ _
  case h_5 => cases hstep
  case h_6 =>
    cases hstep
    exact h.congr rfl rfl rfl rfl rfl
  case h_7 => cases hstep

/-! ## Steps of `log_etl.py` -/

/-- The body of the loop, in a file without carriage returns. -/
theorem Advances.done {content : List UInt8} {r r' : Reading ρ} {table : List (Row ρ)}
    (hr : Advances parse content r r') (hterminated : Terminated lf content) (hnoCr : cr ∉ content)
    (hpos : r.pos < content.length) (hoffset : r.currentOffset = r.pos)
    (hdone : Done parse (table ++ r.batch) r.inode content r.pos) :
    r'.currentOffset = r'.pos ∧ Done parse (table ++ r'.batch) r'.inode content r'.pos := by
  obtain ⟨line, hline⟩ := exists_lineAt hdone.boundary hterminated hpos
  have hread := readLine_of_lineAt hline hnoCr
  obtain ⟨hinode, -, hpos', hoffset', hbatch⟩ := hr
  rw [hread] at hpos' hoffset' hbatch
  refine ⟨by rw [hpos', hoffset', hoffset], ?_⟩
  rw [hinode, hpos']
  rcases hbatch with ⟨hbatch, hskip⟩ | ⟨record, hrecord, hbatch⟩
  · rw [hbatch]
    refine hdone.next hline (List.Subset.refl _) ?_
    intro record hparse
    rw [hskip] at hparse
    cases hparse
  · rw [hbatch, ← List.append_assoc]
    refine hdone.next hline (List.subset_append_left _ _) ?_
    intro record' hparse
    rw [hrecord] at hparse
    cases hparse
    exact ⟨_, List.mem_append_right _ (List.mem_singleton_self _), rfl, rfl, rfl⟩

theorem NoLoss.etlStep {s s' : Pipeline ρ} {a : EtlAction} (h : NoLoss parse s)
    (hsound : Sound s (.etl a)) (hstep : etlStep parse s s.etl a = some s') : NoLoss parse s' := by
  have hmove := etlStep_move hstep
  have hgood := h.etl
  have hnoted := h.noted
  generalize hpc : s.etl = pc at hmove hgood hnoted
  cases hmove with
  | starts => exact ⟨h.terminated, h.noCr, nofun, h.saved, trivial⟩
  | absent => exact ⟨h.terminated, h.noCr, nofun, h.saved, trivial⟩
  | upToDate => exact ⟨h.terminated, h.noCr, nofun, h.saved, trivial⟩
  | fails => exact ⟨h.terminated, h.noCr, nofun, h.saved, trivial⟩
  | reads ioError =>
    refine ⟨h.terminated, h.noCr, fun epoch hmem => (Option.some.inj hmem).ge, h.saved, ?_⟩
    intro _
    cases ioError with
    | true => exact ⟨Nat.zero_le _, fun i _ _ => .zero _ _ _⟩
    | false => exact ⟨le_rfl, h.saved⟩
  | goesOn hlog hlt =>
    refine ⟨h.terminated, h.noCr, hnoted, h.saved, ?_⟩
    intro hepoch
    exact ⟨_, hlog, (hgood hepoch).2 _ hlog hlt.le⟩
  | opens hlog =>
    refine ⟨h.terminated, h.noCr, hnoted, h.saved, ?_⟩
    intro hepoch
    obtain ⟨j, hlog', hdone⟩ := hgood hepoch
    obtain rfl := Option.some.inj (hlog.symm.trans hlog')
    exact ⟨hlog, rfl, by rw [List.append_nil]; exact hdone⟩
  | @takes r r' hpos hr =>
    refine ⟨h.terminated, h.noCr, ?_, h.saved, ?_⟩
    · intro epoch hmem
      obtain rfl : r'.epoch = epoch := Option.some.inj hmem
      rw [hr.epoch]
      exact hnoted _ rfl
    · intro hepoch
      obtain ⟨hlog, hoffset, hdone⟩ := hgood (hr.epoch ▸ hepoch)
      obtain ⟨hoffset', hdone'⟩ := hr.done (h.terminated _) (h.noCr _) hpos hoffset hdone
      refine ⟨hr.inode ▸ hlog, hoffset', ?_⟩
      rw [hr.inode] at hdone' ⊢
      exact hdone'
  | commits =>
    refine ⟨h.terminated, h.noCr, hnoted, ?_, ?_⟩
    · exact fun i hlog hlen => (h.saved i hlog hlen).mono (List.subset_append_left _ _)
    · intro hepoch
      obtain ⟨hlog, hoffset, hdone⟩ := hgood hepoch
      exact ⟨hlog, hoffset, by rw [List.append_nil]; exact hdone⟩
  | ends hend hbatch =>
    refine ⟨h.terminated, h.noCr, hnoted, h.saved, ?_⟩
    intro hepoch
    obtain ⟨hlog, hoffset, hdone⟩ := hgood hepoch
    rw [hbatch, List.append_nil] at hdone
    exact ⟨_, hlog, hoffset ▸ hdone⟩
  | flushes => exact ⟨h.terminated, h.noCr, hnoted, h.saved, hgood⟩
  | commitsLast =>
    refine ⟨h.terminated, h.noCr, hnoted, ?_, ?_⟩
    · exact fun i hlog hlen => (h.saved i hlog hlen).mono (List.subset_append_left _ _)
    · intro hepoch
      obtain ⟨hlog, hoffset, hdone⟩ := hgood hepoch
      exact ⟨_, hlog, hoffset ▸ hdone⟩
  | truncates =>
    exact ⟨h.terminated, h.noCr, hnoted, fun i _ _ => .zero _ _ _, hgood⟩
  | @writes offset epoch =>
    refine ⟨h.terminated, h.noCr, nofun, ?_, trivial⟩
    intro i hlog hlen
    rw [Pipeline.savedOffset, offsetOf_map]
    split_ifs with hmissing
    · exact .zero _ _ _
    · have hsame := hsound.resolve_left hmissing
      rw [hpc] at hsame
      obtain ⟨j, hlog', hdone⟩ := hgood (hsame epoch rfl)
      obtain rfl := Option.some.inj (hlog.symm.trans hlog')
      exact hdone

/-- The invariant is kept by every sound step. -/
theorem NoLoss.step {s s' : Pipeline ρ} {a : PipelineAction} (h : NoLoss parse s) (hsound : Sound s a)
    (hstep : s.step parse a = some s') : NoLoss parse s' := by
  cases a with
  | gatewayStart =>
    cases hstep
    exact h.openLog rfl rfl rfl rfl rfl
  | gatewayStop =>
    cases hstep
    exact h.congr rfl rfl rfl rfl rfl
  | append body =>
    simp only [Pipeline.step] at hstep
    split at hstep
    · cases hstep
      exact h
    · rename_i i hgateway
      cases hstep
      obtain ⟨hcr, hbehind⟩ := hsound i hgateway
      exact h.append hcr hbehind
  | etl a => exact h.etlStep hsound hstep
  | rotate a => exact h.rotate hstep

/-! ## Without rotation -/

/-- The log is not rotated, and nothing but lines without carriage returns is
    appended. -/
def Plain : PipelineAction → Prop
  | .append body => cr ∉ body
  | .rotate _ => False
  | _ => True

instance : DecidablePred Plain
  | .append body => inferInstanceAs (Decidable (cr ∉ body))
  | .rotate _ => inferInstanceAs (Decidable False)
  | .gatewayStart | .gatewayStop | .etl _ => inferInstanceAs (Decidable True)

/-- The saved offset is not beyond the end of the log. -/
structure Unrotated (s : Pipeline ρ) : Prop where
  current : ∀ epoch ∈ s.etl.epoch?, epoch = s.epoch
  saved : ∀ i, s.log = some i → s.savedOffset ≤ (s.fs.content i).length
  absent : s.log = none → s.savedOffset = 0

theorem Unrotated.init : Unrotated (Pipeline.init ρ) where
  current := by
    intro epoch h
    cases h
  saved := by
    intro i h
    cases h
  absent := fun _ => rfl

theorem Unrotated.sound {s : Pipeline ρ} {a : PipelineAction} (h : Unrotated s) (ha : Plain a) :
    Sound s a := by
  cases a with
  | append body => exact fun i _ => ⟨ha, h.saved i⟩
  | etl a =>
    cases a with
    | writeOffset => exact .inr h.current
    | _ => trivial
  | _ => trivial

theorem Unrotated.etlStep {s s' : Pipeline ρ} {a : EtlAction} (h : Unrotated s)
    (hloss : NoLoss parse s) (hstep : etlStep parse s s.etl a = some s') : Unrotated s' := by
  have hmove := etlStep_move hstep
  have hgood := hloss.etl
  have hcurrent := h.current
  generalize s.etl = pc at hmove hgood hcurrent
  cases hmove with
  | starts => exact ⟨nofun, h.saved, h.absent⟩
  | absent => exact ⟨nofun, h.saved, h.absent⟩
  | upToDate => exact ⟨nofun, h.saved, h.absent⟩
  | fails => exact ⟨nofun, h.saved, h.absent⟩
  | reads ioError => exact ⟨fun epoch hmem => (Option.some.inj hmem).symm, h.saved, h.absent⟩
  | takes hpos hr =>
    refine ⟨fun epoch hmem => ?_, h.saved, h.absent⟩
    obtain rfl := Option.some.inj hmem
    exact hr.epoch.trans (hcurrent _ rfl)
  | goesOn | opens | commits | ends | flushes | commitsLast => exact ⟨hcurrent, h.saved, h.absent⟩
  | truncates => exact ⟨hcurrent, fun i _ => Nat.zero_le _, fun _ => rfl⟩
  | @writes offset epoch =>
    obtain ⟨j, hlog, hdone⟩ := hgood (hcurrent epoch rfl)
    refine ⟨nofun, ?_, ?_⟩
    · intro i hlog'
      obtain rfl := Option.some.inj (hlog.symm.trans hlog')
      rw [Pipeline.savedOffset, offsetOf_map]
      split_ifs
      · exact Nat.zero_le _
      · exact hdone.boundary.1
    · intro hnone
      rw [show s.log = none from hnone] at hlog
      cases hlog

theorem Unrotated.step {s s' : Pipeline ρ} {a : PipelineAction} (h : Unrotated s)
    (hloss : NoLoss parse s) (ha : Plain a) (hstep : s.step parse a = some s') : Unrotated s' := by
  cases a with
  | gatewayStart =>
    cases hstep
    refine ⟨h.current, ?_, ?_⟩
    · intro i hlog
      rcases s.fs.openCreate_cases .log with ⟨j, -, hopen⟩ | ⟨hnone, -⟩
      · have hfs : (s.fs.openCreate .log).2 = s.fs := by rw [hopen]
        rw [Pipeline.log, hfs] at hlog
        rw [hfs]
        exact h.saved i hlog
      · show s.savedOffset ≤ _
        rw [h.absent hnone]
        exact Nat.zero_le _
    · intro hnone
      rw [Pipeline.log, FileSystem.openCreate_names] at hnone
      cases hnone
  | gatewayStop =>
    cases hstep
    exact ⟨h.current, h.saved, h.absent⟩
  | append body =>
    simp only [Pipeline.step] at hstep
    split at hstep
    · cases hstep
      exact h
    · rename_i i hgateway
      cases hstep
      refine ⟨h.current, ?_, h.absent⟩
      intro j hlog
      have hle := h.saved j hlog
      show s.savedOffset ≤ ((s.fs.appendTo i (body ++ [lf])).content j).length
      by_cases hj : j = i
      · subst hj
        rw [FileSystem.content_appendTo_self, List.length_append]
        omega
      · rw [FileSystem.content_appendTo_of_ne hj]
        exact hle
  | etl a => exact h.etlStep hloss hstep
  | rotate a => exact absurd ha id

/-- For every order of appends and runs of `log_etl.py`, which may fail or die at
    any point: the saved offset is a boundary between lines of the log and not
    beyond its end, and every line before it that `parse` makes a record of has
    been committed to the table. -/
theorem etl_no_loss {as : List PipelineAction} {s : Pipeline ρ} (hplain : ∀ a ∈ as, Plain a)
    (h : exec (Pipeline.step parse) (.init ρ) as = some s) {i : ℕ} (hlog : s.log = some i) :
    Boundary lf (s.fs.content i) s.savedOffset ∧
      ∀ p line record, LineAt lf (s.fs.content i) p line → p + line.length ≤ s.savedOffset →
        parse line = .record record →
        ∃ row ∈ s.table, row.inode = i ∧ row.start = p ∧ row.record = record := by
  have hinv : NoLoss parse s ∧ Unrotated s := by
    have hevery : Every (Pipeline.step parse) (fun _ a => Plain a) (.init ρ) as :=
      Every.of_forall fun _ => hplain
    apply exec_inv (J := fun s => NoLoss parse s ∧ Unrotated s) _ ⟨.init, .init⟩ hevery h
    rintro s a s' ⟨hloss, hunrotated⟩ ha hstep
    exact ⟨hloss.step (hunrotated.sound ha) hstep, hunrotated.step hloss ha hstep⟩
  have hdone := hinv.1.saved i hlog (hinv.2.saved i hlog)
  exact ⟨hdone.boundary, hdone.imported⟩

/-- A run that dies behind its commit, and one that saves the offset. -/
def diesThenImports : List PipelineAction :=
  [.gatewayStart, .append sensorBody] ++ (commitLine ++ EtlAction.fail :: importLine).map .etl

theorem etl_no_loss_diesThenImports :
    ∃ s : Pipeline Record, s.savedOffset = (sensorBody ++ [lf]).length ∧
      Boundary lf (s.fs.content 0) s.savedOffset ∧
        ∀ p line record, LineAt lf (s.fs.content 0) p line → p + line.length ≤ s.savedOffset →
          parseLine line = .record record →
          ∃ row ∈ s.table, row.inode = 0 ∧ row.start = p ∧ row.record = record := by
  have hplain : ∀ a ∈ diesThenImports, Plain a := by decide
  have hend : (exec (Pipeline.step parseLine) (.init Record) diesThenImports).any
      (fun s => s.log = some 0 ∧ s.savedOffset = (sensorBody ++ [lf]).length) = true := by
    decide +kernel
  obtain ⟨s, hexec, hs⟩ := (Option.any_eq_true _ _).mp hend
  obtain ⟨hlog, hsaved⟩ := of_decide_eq_true hs
  exact ⟨s, hsaved, etl_no_loss hplain hexec hlog⟩

end LinuxFileManager.Log
