import Mathlib

/-!
# Files with several names

A file system as programs see it through `open`, `read`, `write` and `rename`:
names stand for inodes, and an inode has a content. Two names may stand for one
inode (hard links, or two spellings of one path), and an open file is an inode,
so it stays the same when its name changes.

Results:

* `openCreate_names`: after opening for writing, the name stands for the file.
* `content_setContent_of_ne`: a write changes one file only.
* `content_writeAt_end`: a write at the end of a file extends it.
* `contentAt_openCreate`, `contentAt_unlink`, `Distinct.contentAt_setContent`: what the
  calls do to the contents by name.
-/

namespace LinuxFileManager.Lib

/-- What a call of `write` does: fail, or accept at most this many bytes. -/
inductive WriteOutcome where
  | error
  | upTo (n : ℕ)

/-- The value of a call of `write` with `len` bytes; `none` is `-1`. -/
def WriteOutcome.accepted (len : ℕ) : WriteOutcome → Option ℕ
  | .error => none
  | .upTo n => some (min n len)

/-- Names of type `Path`, and the contents of the files. -/
structure FileSystem (Path : Type) where
  names : Path → Option ℕ
  content : ℕ → List UInt8
  /-- The inode of the next file that is created. -/
  nextInode : ℕ
  names_lt : ∀ p i, names p = some i → i < nextInode

namespace FileSystem

variable {Path : Type} (fs : FileSystem Path)

/-- No files. -/
def empty : FileSystem Path := ⟨fun _ => none, fun _ => [], 0, fun _ _ h => by cases h⟩

/-- The content of the file with a name. -/
def contentAt (p : Path) : Option (List UInt8) := (fs.names p).map fs.content

/-- A file gets a content. -/
def setContent (i : ℕ) (bytes : List UInt8) : FileSystem Path :=
  { fs with content := Function.update fs.content i bytes }

/-- What `open` with `O_TRUNC` does to the file. -/
def truncate (i : ℕ) : FileSystem Path := fs.setContent i []

/-- `write` at an offset; a gap before the offset is filled with zeros. -/
def writeAt (i off : ℕ) (bytes : List UInt8) : FileSystem Path :=
  fs.setContent i
    (((fs.content i).rightpad off 0).take off ++ bytes ++ (fs.content i).drop (off + bytes.length))

/-- `write` to a file opened with `O_APPEND`. -/
def appendTo (i : ℕ) (bytes : List UInt8) : FileSystem Path := fs.setContent i (fs.content i ++ bytes)

/-- `rename(p, q)` for a name that stands for a file. -/
def rename [DecidableEq Path] (p q : Path) : FileSystem Path where
  names := Function.update (Function.update fs.names q (fs.names p)) p none
  content := fs.content
  nextInode := fs.nextInode
  names_lt := by
    intro r i h
    by_cases hp : r = p
    · rw [hp, Function.update_self] at h
      cases h
    · rw [Function.update_of_ne hp] at h
      by_cases hq : r = q
      · rw [hq, Function.update_self] at h
        exact fs.names_lt p i h
      · rw [Function.update_of_ne hq] at h
        exact fs.names_lt r i h

/-- A name comes to stand for a new, empty file. -/
def create [DecidableEq Path] (p : Path) : FileSystem Path where
  names := Function.update fs.names p (some fs.nextInode)
  content := Function.update fs.content fs.nextInode []
  nextInode := fs.nextInode + 1
  names_lt := by
    intro q i h
    by_cases hq : q = p
    · rw [hq, Function.update_self] at h
      have := Option.some.inj h
      omega
    · rw [Function.update_of_ne hq] at h
      exact Nat.lt_succ_of_lt (fs.names_lt q i h)

/-- `open(p, O_CREAT | ...)`: the file, and the file system after the call. -/
def openCreate [DecidableEq Path] (p : Path) : ℕ × FileSystem Path :=
  match fs.names p with
  | some i => (i, fs)
  | none => (fs.nextInode, fs.create p)

/-- `unlink`: the name is gone, and the file with it unless it has another one. -/
def unlink [DecidableEq Path] (p : Path) : FileSystem Path where
  names := Function.update fs.names p none
  content := fs.content
  nextInode := fs.nextInode
  names_lt := by
    intro q i h
    by_cases hq : q = p
    · rw [hq, Function.update_self] at h
      cases h
    · rw [Function.update_of_ne hq] at h
      exact fs.names_lt q i h

/-- No file has two names. -/
def Distinct : Prop := ∀ p q i, fs.names p = some i → fs.names q = some i → p = q

variable {fs}

theorem Distinct.of_names {fs' : FileSystem Path} (h : fs.Distinct) (hnames : fs'.names = fs.names) :
    fs'.Distinct := by
  intro p q i hp hq
  rw [hnames] at hp hq
  exact h p q i hp hq

/-- The last content counts. -/
theorem setContent_setContent (i : ℕ) (bytes bytes' : List UInt8) :
    (fs.setContent i bytes).setContent i bytes' = fs.setContent i bytes' := by
  simp only [setContent, Function.update_idem]

theorem setContent_eq_self (i : ℕ) : fs.setContent i (fs.content i) = fs := by
  simp only [setContent, Function.update_eq_self]

@[simp] theorem names_truncate (i : ℕ) : (fs.truncate i).names = fs.names := rfl

@[simp] theorem content_setContent_self (i : ℕ) (bytes : List UInt8) :
    (fs.setContent i bytes).content i = bytes := Function.update_self ..

theorem content_setContent_of_ne {i j : ℕ} (h : j ≠ i) (bytes : List UInt8) :
    (fs.setContent i bytes).content j = fs.content j := Function.update_of_ne h ..

@[simp] theorem content_truncate_self (i : ℕ) : (fs.truncate i).content i = [] :=
  content_setContent_self i []

theorem content_truncate_of_ne {i j : ℕ} (h : j ≠ i) : (fs.truncate i).content j = fs.content j :=
  content_setContent_of_ne h []

theorem content_writeAt_of_ne {i j : ℕ} (h : j ≠ i) (off : ℕ) (bytes : List UInt8) :
    (fs.writeAt i off bytes).content j = fs.content j := content_setContent_of_ne h _

@[simp] theorem content_appendTo_self (i : ℕ) (bytes : List UInt8) :
    (fs.appendTo i bytes).content i = fs.content i ++ bytes := content_setContent_self i _

theorem content_appendTo_of_ne {i j : ℕ} (h : j ≠ i) (bytes : List UInt8) :
    (fs.appendTo i bytes).content j = fs.content j := content_setContent_of_ne h _

/-- What is true of every content stays true of every content. -/
theorem forall_content_appendTo {P : List UInt8 → Prop} {i : ℕ} {bytes : List UInt8}
    (h : ∀ j, P (fs.content j)) (happend : P (fs.content i ++ bytes)) (j : ℕ) :
    P ((fs.appendTo i bytes).content j) := by
  by_cases hj : j = i
  · rw [hj, content_appendTo_self]
    exact happend
  · rw [content_appendTo_of_ne hj]
    exact h j

/-- A write at the end of a file extends it. -/
theorem content_writeAt_end {i off : ℕ} (h : (fs.content i).length = off) (bytes : List UInt8) :
    (fs.writeAt i off bytes).content i = fs.content i ++ bytes := by
  subst h
  rw [writeAt, content_setContent_self, List.drop_eq_nil_of_le (by omega)]
  simp [List.rightpad]

theorem writeAt_end {i off : ℕ} (h : (fs.content i).length = off) (bytes : List UInt8) :
    fs.writeAt i off bytes = fs.setContent i (fs.content i ++ bytes) := by
  rw [← content_writeAt_end h bytes, writeAt, content_setContent_self]

variable [DecidableEq Path]

theorem rename_names_self (p q : Path) : (fs.rename p q).names p = none := Function.update_self ..

/-- The file that has just been opened for writing is the one the name stands for. -/
theorem openCreate_names (p : Path) : (fs.openCreate p).2.names p = some (fs.openCreate p).1 := by
  unfold openCreate
  cases h : fs.names p with
  | some i => exact h
  | none => exact Function.update_self ..

/-- Names that stand for a file keep it when another file is opened. -/
theorem openCreate_names_of_some {p q : Path} {i : ℕ} (h : fs.names q = some i) :
    (fs.openCreate p).2.names q = some i := by
  unfold openCreate
  cases hp : fs.names p with
  | some j => exact h
  | none =>
    have hq : q ≠ p := by
      rintro rfl
      rw [hp] at h
      cases h
    exact (Function.update_of_ne hq ..).trans h

/-- Another name stands for what it stood for. -/
theorem openCreate_names_of_ne {p q : Path} (h : q ≠ p) : (fs.openCreate p).2.names q = fs.names q := by
  unfold openCreate
  cases fs.names p with
  | some i => rfl
  | none => exact Function.update_of_ne h ..

/-- Files that exist keep their content when another file is opened. -/
theorem openCreate_content {p : Path} {i : ℕ} (h : i < fs.nextInode) :
    (fs.openCreate p).2.content i = fs.content i := by
  unfold openCreate
  cases fs.names p with
  | some j => rfl
  | none => exact Function.update_of_ne (by omega) ..

/-- Opening for writing either finds a file, and changes nothing, or creates an
    empty one. -/
theorem openCreate_cases (p : Path) :
    (∃ i, fs.names p = some i ∧ fs.openCreate p = (i, fs)) ∨
      (fs.names p = none ∧ fs.openCreate p = (fs.nextInode, fs.create p)) := by
  unfold openCreate
  cases h : fs.names p with
  | some i => exact .inl ⟨i, rfl, rfl⟩
  | none => exact .inr ⟨rfl, rfl⟩

theorem forall_content_openCreate {P : List UInt8 → Prop} {p : Path} (h : ∀ j, P (fs.content j))
    (hnil : P []) (j : ℕ) : P ((fs.openCreate p).2.content j) := by
  rcases fs.openCreate_cases p with ⟨i, -, hopen⟩ | ⟨-, hopen⟩
  · rw [hopen]
    exact h j
  · rw [hopen]
    show P (Function.update fs.content fs.nextInode [] j)
    by_cases hj : j = fs.nextInode
    · rw [hj, Function.update_self]
      exact hnil
    · rw [Function.update_of_ne hj]
      exact h j

/-- Opening for writing meets the file that another name stands for exactly
    when the two names stood for one file before. -/
theorem openCreate_fst_eq_iff {p q : Path} {i : ℕ} (h : fs.names q = some i) :
    (fs.openCreate p).1 = i ↔ fs.names p = fs.names q := by
  unfold openCreate
  rw [h]
  cases fs.names p with
  | some j => exact Option.some_inj.symm
  | none =>
    have hlt := fs.names_lt q i h
    refine ⟨fun heq => ?_, fun heq => by cases heq⟩
    have : fs.nextInode = i := heq
    omega

/-! ## Contents by name -/

omit [DecidableEq Path] in
theorem contentAt_cases (fs : FileSystem Path) (p : Path) :
    (fs.names p = none ∧ fs.contentAt p = none) ∨
      ∃ i, fs.names p = some i ∧ fs.contentAt p = some (fs.content i) := by
  unfold contentAt
  cases fs.names p with
  | none => exact .inl ⟨rfl, rfl⟩
  | some i => exact .inr ⟨i, rfl, rfl⟩

/-- Opening for writing makes an empty file of a name that stands for none. -/
theorem contentAt_openCreate (p : Path) : (fs.openCreate p).2.contentAt =
    Function.update fs.contentAt p (some ((fs.contentAt p).getD [])) := by
  funext q
  by_cases hq : q = p
  · subst hq
    rw [Function.update_self, contentAt, openCreate_names, Option.map_some, contentAt]
    unfold openCreate
    cases h : fs.names q with
    | some i => rfl
    | none =>
      show some (Function.update fs.content fs.nextInode [] fs.nextInode) = some []
      rw [Function.update_self]
  · rw [Function.update_of_ne hq]
    unfold openCreate
    cases fs.names p with
    | some i => rfl
    | none =>
      show ((Function.update fs.names p (some fs.nextInode)) q).map _ = (fs.names q).map fs.content
      rw [Function.update_of_ne hq]
      refine Option.map_congr fun i hi => ?_
      exact Function.update_of_ne (fs.names_lt q i hi).ne ..

theorem contentAt_unlink (p : Path) : (fs.unlink p).contentAt = Function.update fs.contentAt p none := by
  funext q
  show (Function.update fs.names p none q).map fs.content = Function.update fs.contentAt p none q
  by_cases hq : q = p
  · rw [hq, Function.update_self, Function.update_self, Option.map_none]
  · rw [Function.update_of_ne hq, Function.update_of_ne hq, contentAt]

section

variable (h : fs.Distinct)
include h

/-- A change of one file is a change under one name. -/
theorem Distinct.contentAt_setContent {p : Path} {i : ℕ} (hp : fs.names p = some i) (bytes : List UInt8) :
    (fs.setContent i bytes).contentAt = Function.update fs.contentAt p (some bytes) := by
  funext q
  show (fs.names q).map (Function.update fs.content i bytes) = _
  by_cases hq : q = p
  · rw [hq, hp, Function.update_self, Option.map_some, Function.update_self]
  · rw [Function.update_of_ne hq, contentAt]
    refine Option.map_congr fun j hj => ?_
    refine Function.update_of_ne ?_ ..
    rintro rfl
    exact hq (h q p j hj hp)

theorem Distinct.unlink (p : Path) : (fs.unlink p).Distinct := by
  intro q r i hq hr
  have hold : ∀ q, (fs.unlink p).names q = some i → fs.names q = some i := by
    intro q hq
    by_cases heq : q = p
    · rw [heq] at hq
      exact absurd (hq.symm.trans (Function.update_self ..)) (Option.some_ne_none i)
    · exact (Function.update_of_ne heq ..).symm.trans hq
  exact h q r i (hold q hq) (hold r hr)

theorem Distinct.openCreate (p : Path) : (fs.openCreate p).2.Distinct := by
  rcases fs.openCreate_cases p with ⟨i, -, hopen⟩ | ⟨hnone, hopen⟩
  · rw [hopen]
    exact h
  · rw [hopen]
    intro q r i hq hr
    -- the new inode has no older name
    have hnew : ∀ q, (fs.create p).names q = some i → q = p ∨ fs.names q = some i := by
      intro q hq
      by_cases heq : q = p
      · exact .inl heq
      · exact .inr ((Function.update_of_ne heq ..).symm.trans hq)
    have hself : (fs.create p).names p = some fs.nextInode := Function.update_self ..
    have hfresh : ∀ q, fs.names q = some i → (fs.create p).names p = some i → False := by
      intro q hq hp
      have hlt := fs.names_lt q i hq
      have := Option.some.inj (hself.symm.trans hp)
      omega
    rcases hnew q hq with rfl | hq'
    · rcases hnew r hr with rfl | hr'
      · rfl
      · exact (hfresh r hr' hq).elim
    · rcases hnew r hr with rfl | hr'
      · exact (hfresh q hq' hr).elim
      · exact h q r i hq' hr'

end

end FileSystem

end LinuxFileManager.Lib
