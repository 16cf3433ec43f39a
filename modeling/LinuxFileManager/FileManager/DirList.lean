import LinuxFileManager.Lib.Buffer

/-!
# `dir_list`

Model of `dir_list` (`src/directory.c` lines 29–134). The entries are what
`readdir` returns, in its order. The bound is tested in `size_t`, of 32 or of 64
bits, to which `size` is converted.

Results:

* `dirList_prefix`: the buffer holds the names of a prefix of the visible
  entries, each with a newline, and the first one that is left out did not fit.
-/

namespace LinuxFileManager.FileManager

open Lib

/-! ## Model -/

/-- `d_name`: at most 255 bytes before the NUL. -/
structure EntryName where
  bytes : List UInt8
  noNul : 0 ∉ bytes
  length_le : bytes.length ≤ 255

/-- The width of `size_t`. -/
inductive SizeT where
  | bits32
  | bits64

/-- The number of values of `size_t`. -/
def SizeT.modulus : SizeT → ℕ
  | .bits32 => 2 ^ 32
  | .bits64 => 2 ^ 64

/-- An `int` as a `size_t`. -/
def SizeT.ofInt (w : SizeT) (n : Int32) : ℕ := (n.toInt % w.modulus).toNat

/-- The object that the caller passes: `size` bytes. -/
abbrev ListBuffer (size : Int32) := Buffer UInt8 size.toInt.toNat

/-- `entry->d_name[0] == '.'`. -/
def EntryName.hidden (name : EntryName) : Bool := name.bytes.head? = some 0x2E

/-- `"\n"`. -/
def newline : UInt8 := 0x0A

/-- The loop over the entries (lines 67–116); `none` when a `strcat` writes past the
    end of the buffer. -/
def dirListLoop (w : SizeT) {size : Int32} : List EntryName → ListBuffer size → Option (ListBuffer size)
  | [], buffer => some buffer
  | name :: entries, buffer =>
    if name.hidden then dirListLoop w entries buffer
    else if (buffer.strlen + name.bytes.length + 2) % w.modulus ≥ w.ofInt size then some buffer
    else
      (buffer.strcat name.bytes).bind fun buffer =>
        (buffer.strcat [newline]).bind fun buffer => dirListLoop w entries buffer

/-- `dir_list`: its value, and the buffer behind it. `entries` is `none` when `opendir`
    fails. -/
def dirList (w : SizeT) {size : Int32} (entries : Option (List EntryName)) (buffer : ListBuffer size) :
    Option (ℤ × ListBuffer size) :=
  match entries with
  | none => some (-1, buffer)
  | some entries => (dirListLoop w entries (.filled _ 0)).map fun buffer => (0, buffer)

/-! ## The listing -/

/-- The entries that are listed. -/
def visible (entries : List EntryName) : List EntryName := entries.filter fun name => !name.hidden

/-- The names, each with a newline behind it. -/
def listing (names : List EntryName) : List UInt8 := names.flatMap fun name => name.bytes ++ [newline]

theorem visible_cons (name : EntryName) (entries : List EntryName) :
    visible (name :: entries) = if name.hidden then visible entries else name :: visible entries := by
  cases h : name.hidden <;> simp [visible, h]

section

variable {w : SizeT} {size : Int32} {buffer : ListBuffer size} {text : List UInt8}

/-- The sum in the test of the bound does not wrap around. -/
theorem bound_iff (h : 1 ≤ size.toInt) (hbuffer : buffer.Holds text) (name : EntryName) :
    (buffer.strlen + name.bytes.length + 2) % w.modulus ≥ w.ofInt size ↔
      size.toInt.toNat ≤ text.length + name.bytes.length + 2 := by
  have hlt := hbuffer.length_lt
  have hname := name.length_le
  have hsize : size.toInt < 2 ^ 31 := size.toInt_lt
  have hmod : 2 ^ 32 ≤ w.modulus := by cases w <;> simp [SizeT.modulus]
  have hstrlen : buffer.strlen = text.length := congrArg List.length hbuffer.cstr_eq
  have hof : w.ofInt size = size.toInt.toNat := by
    rw [SizeT.ofInt, Int.emod_eq_of_lt (by omega) (by omega)]
  rw [hof, hstrlen, Nat.mod_eq_of_lt (by omega)]

/-- From any text that the buffer holds, the loop appends the names of a prefix. -/
theorem dirListLoop_prefix (h : 1 ≤ size.toInt) (entries : List EntryName) (hbuffer : buffer.Holds text) :
    ∃ shown left buffer', dirListLoop w entries buffer = some buffer' ∧
      visible entries = shown ++ left ∧ buffer'.Holds (text ++ listing shown) ∧
      ∀ name ∈ left.head?,
        size.toInt.toNat ≤ (text ++ listing shown).length + name.bytes.length + 2 := by
  induction entries generalizing buffer text with
  | nil => exact ⟨[], [], buffer, rfl, rfl, by simpa [listing] using hbuffer, by simp⟩
  | cons name entries ih =>
    rw [dirListLoop, visible_cons]
    by_cases hhidden : name.hidden = true
    · rw [if_pos hhidden, if_pos hhidden]
      exact ih hbuffer
    · rw [if_neg hhidden, if_neg hhidden]
      by_cases hbound : size.toInt.toNat ≤ text.length + name.bytes.length + 2
      · rw [if_pos ((bound_iff h hbuffer name).mpr hbound)]
        refine ⟨[], name :: visible entries, buffer, rfl, rfl, by simpa [listing] using hbuffer, ?_⟩
        simpa [listing] using hbound
      · rw [if_neg (mt (bound_iff h hbuffer name).mp hbound)]
        obtain ⟨buffer₁, hcat₁, hbuffer₁⟩ := hbuffer.strcat name.noNul (by omega)
        have hfit : (text ++ name.bytes).length + [newline].length + 1 ≤ size.toInt.toNat := by
          rw [List.length_append, List.length_singleton]
          omega
        obtain ⟨buffer₂, hcat₂, hbuffer₂⟩ := hbuffer₁.strcat (by decide) hfit
        obtain ⟨shown, left, buffer', hloop, hvisible, hholds, hleft⟩ := ih hbuffer₂
        have htext : text ++ name.bytes ++ [newline] ++ listing shown =
            text ++ listing (name :: shown) := by
          rw [listing, listing, List.flatMap_cons]
          simp only [List.append_assoc]
        rw [htext] at hholds hleft
        refine ⟨name :: shown, left, buffer', ?_, congrArg (name :: ·) hvisible, hholds, hleft⟩
        rw [hcat₁, Option.bind_some, hcat₂, Option.bind_some, hloop]

/-- `dir_list` writes no byte behind the buffer, and leaves in it the names of a prefix
    of the visible entries. The first entry that is left out would have needed, with
    its newline and the NUL, at least `size` bytes. -/
theorem dirList_prefix (h : 1 ≤ size.toInt) (w : SizeT) (entries : List EntryName)
    (buffer : ListBuffer size) :
    ∃ shown left buffer', dirList w (some entries) buffer = some (0, buffer') ∧
      visible entries = shown ++ left ∧ buffer'.cstr = listing shown ∧
      (listing shown).length + 1 ≤ size.toInt.toNat ∧
      ∀ name ∈ left.head?, size.toInt.toNat ≤ (listing shown).length + name.bytes.length + 2 := by
  have hzero : (Buffer.filled size.toInt.toNat (0 : UInt8)).Holds [] := by
    refine ⟨List.not_mem_nil, List.replicate (size.toInt.toNat - 1) 0, ?_⟩
    rw [List.nil_append, ← List.replicate_succ, Nat.sub_add_cancel (by omega)]
    rfl
  obtain ⟨shown, left, buffer', hloop, hvisible, hholds, hleft⟩ :=
    dirListLoop_prefix (w := w) h entries hzero
  refine ⟨shown, left, buffer', ?_, hvisible, hholds.cstr_eq, hholds.length_lt, hleft⟩
  rw [dirList, hloop]
  rfl

end

/-- `.`, `bin` and `logs`. -/
def someEntries : List EntryName :=
  [⟨[0x2E], by decide, by decide⟩, ⟨[0x62, 0x69, 0x6E], by decide, by decide⟩,
    ⟨[0x6C, 0x6F, 0x67, 0x73], by decide, by decide⟩]

/-- There is no room for `logs` in 10 bytes: 10 bytes are as many as it needs. -/
theorem dirList_prefix_someEntries :
    ∃ shown left buffer',
      dirList .bits32 (some someEntries) (.filled _ 0 : ListBuffer 10) = some (0, buffer') ∧
      visible someEntries = shown ++ left ∧ buffer'.cstr = listing shown ∧
      (listing shown).length + 1 ≤ (10 : Int32).toInt.toNat ∧
      ∀ name ∈ left.head?, (10 : Int32).toInt.toNat ≤ (listing shown).length + name.bytes.length + 2 :=
  dirList_prefix (by decide) .bits32 someEntries _

example : (dirList .bits32 (some someEntries) (.filled _ 0 : ListBuffer 10)).map (fun r => r.2.cstr) =
    some [0x62, 0x69, 0x6E, 0x0A] := by decide

end LinuxFileManager.FileManager
