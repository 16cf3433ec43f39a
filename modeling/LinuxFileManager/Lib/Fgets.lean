import Mathlib

/-!
# Reading a text with `fgets`

`fgets` reads up to the first terminator `nl`, this included, but no more than the
room it is given; a line that is longer comes in several pieces.

Results:

* `lines_of_ne_nil`, `lines_append`: the lines of a text, and of whole lines put
  before it.
* `Piece`, `exists_piece`: a piece is a whole line, or fills the room and leaves
  the rest of its line for the next call.
* `Reads.lines_eq`: call after call reads line after line, if no line is longer than
  the room.
-/

namespace LinuxFileManager.Lib

variable {α : Type*} [DecidableEq α] (nl : α)

/-- The first line of a text, with its terminator if it has one. -/
def firstLine : List α → List α
  | [] => []
  | c :: s => if c = nl then [c] else c :: firstLine s

/-- What is behind the first line. -/
def afterLine (s : List α) : List α := s.drop (firstLine nl s).length

/-- The lines of a text, with their terminators. -/
def lines : List α → List (List α)
  | [] => []
  | c :: s =>
    if c = nl then [c] :: lines s
    else
      match lines s with
      | [] => [[c]]
      | line :: rest => (c :: line) :: rest

/-- `fgets` with room for `n` characters: the piece and the rest of the text; `none`
    is `NULL`, at the end of the text. -/
def fgets (n : ℕ) (s : List α) : Option (List α × List α) :=
  if s = [] then none
  else some ((firstLine nl s).take n, s.drop ((firstLine nl s).take n).length)

variable {nl}

/-! ## Lines -/

theorem firstLine_append_afterLine (nl : α) (s : List α) : firstLine nl s ++ afterLine nl s = s := by
  induction s with
  | nil => rfl
  | cons c s ih =>
    unfold afterLine firstLine
    split_ifs with hc
    · rfl
    · rw [List.length_cons, List.drop_succ_cons, List.cons_append]
      exact congrArg (c :: ·) ih

theorem firstLine_ne_nil {s : List α} (hs : s ≠ []) : firstLine nl s ≠ [] := by
  cases s with
  | nil => exact absurd rfl hs
  | cons c s =>
    unfold firstLine
    split_ifs <;> exact List.cons_ne_nil _ _

theorem firstLine_length_pos (nl : α) {s : List α} (hs : s ≠ []) : 0 < (firstLine nl s).length :=
  List.length_pos_iff.mpr (firstLine_ne_nil hs)

theorem length_afterLine (nl : α) (s : List α) :
    (firstLine nl s).length + (afterLine nl s).length = s.length := by
  rw [← List.length_append, firstLine_append_afterLine]

theorem mem_of_mem_afterLine {s : List α} {c : α} (h : c ∈ afterLine nl s) : c ∈ s :=
  List.mem_of_mem_drop h

theorem lines_of_ne_nil {s : List α} (hs : s ≠ []) :
    lines nl s = firstLine nl s :: lines nl (afterLine nl s) := by
  induction s with
  | nil => exact absurd rfl hs
  | cons c s ih =>
    rw [lines, afterLine, firstLine]
    split_ifs with hc
    · rfl
    · rw [List.length_cons, List.drop_succ_cons]
      by_cases hnil : s = []
      · subst hnil
        rfl
      · rw [ih hnil]
        rfl

/-- A body without a terminator, and the terminator, is a line. -/
theorem firstLine_append {body : List α} (h : nl ∉ body) (s : List α) :
    firstLine nl (body ++ nl :: s) = body ++ [nl] := by
  induction body with
  | nil => exact if_pos rfl
  | cons c body ih =>
    rw [List.mem_cons, not_or] at h
    rw [List.cons_append, firstLine, if_neg (Ne.symm h.1), ih h.2, List.cons_append]

theorem afterLine_append {body : List α} (h : nl ∉ body) (s : List α) :
    afterLine nl (body ++ nl :: s) = s := by
  rw [afterLine, firstLine_append h, List.append_cons body nl s, List.drop_left]

theorem lines_append {body : List α} (h : nl ∉ body) (s : List α) :
    lines nl (body ++ nl :: s) = (body ++ [nl]) :: lines nl s := by
  rw [lines_of_ne_nil (by simp), firstLine_append h, afterLine_append h]

/-- A text without a terminator is one line. -/
theorem firstLine_eq_self {s : List α} (h : nl ∉ s) : firstLine nl s = s := by
  induction s with
  | nil => rfl
  | cons c s ih =>
    rw [List.mem_cons, not_or] at h
    rw [firstLine, if_neg (Ne.symm h.1), ih h.2]

/-- A line ends with the terminator, or is the rest of the text. -/
theorem firstLine_cases (nl : α) (s : List α) :
    (nl ∉ s ∧ firstLine nl s = s ∧ afterLine nl s = []) ∨
      ∃ body, nl ∉ body ∧ firstLine nl s = body ++ [nl] := by
  by_cases h : nl ∈ s
  · obtain ⟨body, rest, rfl, hbody⟩ := List.eq_append_cons_of_mem h
    exact .inr ⟨body, hbody, firstLine_append hbody rest⟩
  · have hself := firstLine_eq_self h
    refine .inl ⟨h, hself, ?_⟩
    rw [afterLine, hself, List.drop_length]

/-! ## Pieces -/

theorem fgets_nil (n : ℕ) : fgets nl n [] = none := if_pos rfl

/-- What a call of `fgets` with room for `n` characters reads of the text `s`. -/
inductive Piece (nl : α) (n : ℕ) (s : List α) : List α → List α → Prop where
  | whole (h : (firstLine nl s).length ≤ n) : Piece nl n s (firstLine nl s) (afterLine nl s)
  | cut {piece rest : List α} (hlength : piece.length = n) (hnl : nl ∉ piece)
      (hfirst : firstLine nl s = piece ++ firstLine nl rest) (hrest : rest ≠ [])
      (hafter : afterLine nl s = afterLine nl rest) : Piece nl n s piece rest

theorem firstLine_drop {s : List α} {n : ℕ} (h : n < (firstLine nl s).length) :
    firstLine nl (s.drop n) = (firstLine nl s).drop n ∧ nl ∉ (firstLine nl s).take n := by
  induction s generalizing n with
  | nil => exact absurd h (Nat.not_lt_zero n)
  | cons c s ih =>
    cases n with
    | zero => exact ⟨rfl, List.not_mem_nil⟩
    | succ n =>
      rw [firstLine, List.drop_succ_cons] at *
      split_ifs at h ⊢ with hc
      · rw [List.length_singleton] at h
        omega
      · rw [List.length_cons] at h
        obtain ⟨hdrop, htake⟩ := ih (n := n) (by omega)
        rw [List.drop_succ_cons, List.take_succ_cons, List.mem_cons, not_or]
        exact ⟨hdrop, Ne.symm hc, htake⟩

theorem exists_piece (nl : α) {s : List α} (hs : s ≠ []) (n : ℕ) :
    ∃ piece rest, fgets nl n s = some (piece, rest) ∧ Piece nl n s piece rest := by
  refine ⟨_, _, if_neg hs, ?_⟩
  by_cases h : (firstLine nl s).length ≤ n
  · rw [List.take_of_length_le h]
    exact .whole h
  · have hlt : n < (firstLine nl s).length := Nat.lt_of_not_le h
    have hlength : ((firstLine nl s).take n).length = n := by
      rw [List.length_take]
      omega
    obtain ⟨hdrop, hnl⟩ := firstLine_drop hlt
    have hle := length_afterLine nl s
    rw [hlength]
    refine .cut hlength hnl ?_ ?_ ?_
    · rw [hdrop, List.take_append_drop]
    · intro hnil
      have := congrArg List.length hnil
      rw [List.length_drop, List.length_nil] at this
      omega
    · rw [afterLine, afterLine, hdrop, List.length_drop, List.drop_drop]
      congr 1
      omega

theorem Piece.append {n : ℕ} {s piece rest : List α} (h : Piece nl n s piece rest) :
    piece ++ rest = s := by
  cases h with
  | whole h => exact firstLine_append_afterLine nl s
  | cut hlength hnl hfirst hrest hafter =>
    rw [← firstLine_append_afterLine nl s, hfirst, hafter, List.append_assoc,
      firstLine_append_afterLine]

theorem Piece.length_pos {n : ℕ} {s piece rest : List α} (h : Piece nl n s piece rest) (hn : 0 < n)
    (hs : s ≠ []) : 0 < piece.length := by
  cases h with
  | whole h => exact firstLine_length_pos nl hs
  | cut hlength hnl hfirst hrest hafter => omega

/-- Every call that reads something makes the text shorter. -/
theorem Piece.length_lt {n : ℕ} {s piece rest : List α} (h : Piece nl n s piece rest) (hn : 0 < n)
    (hs : s ≠ []) : rest.length < s.length := by
  have hpos := h.length_pos hn hs
  rw [← h.append, List.length_append]
  omega

/-! ## Call after call -/

/-- Calls of `fgets` with room for `n` characters read the pieces `ps` of the text `s`,
    one after the other, and leave `r`. -/
inductive Reads (nl : α) (n : ℕ) (s : List α) : List (List α) → List α → Prop where
  | none : Reads nl n s [] s
  | call {ps : List (List α)} {p r r' : List α} (h : Reads nl n s ps r)
      (hfgets : fgets nl n r = some (p, r')) : Reads nl n s (ps ++ [p]) r'

theorem ne_nil_of_fgets {n : ℕ} {s p r : List α} (h : fgets nl n s = some (p, r)) : s ≠ [] := by
  rintro rfl
  rw [fgets_nil] at h
  cases h

/-- What a call reads when the line fits. -/
theorem fgets_eq_firstLine {n : ℕ} {s p r : List α} (h : fgets nl n s = some (p, r))
    (hshort : (firstLine nl s).length ≤ n) : p = firstLine nl s ∧ r = afterLine nl s := by
  unfold fgets at h
  split_ifs at h
  rw [List.take_of_length_le hshort, Option.some.injEq, Prod.mk.injEq] at h
  exact ⟨h.1.symm, h.2.symm⟩

/-- The pieces, one behind the other, are what has been read of the text. -/
theorem Reads.flatten_append {n : ℕ} {s r : List α} {ps : List (List α)} (h : Reads nl n s ps r) :
    ps.flatten ++ r = s := by
  induction h with
  | none => rfl
  | @call ps p r r' _ hfgets ih =>
    obtain ⟨piece, rest, heq, hpiece⟩ := exists_piece nl (ne_nil_of_fgets hfgets) n
    rw [hfgets] at heq
    cases heq
    rw [List.flatten_append, List.flatten_singleton, List.append_assoc, hpiece.append, ih]

/-- If no line is longer than the room, the pieces are the first lines of the text. -/
theorem Reads.lines_eq {n : ℕ} {s r : List α} {ps : List (List α)} (h : Reads nl n s ps r)
    (hshort : ∀ line ∈ lines nl s, line.length ≤ n) : lines nl s = ps ++ lines nl r := by
  induction h with
  | none => rfl
  | @call ps p r r' _ hfgets ih =>
    rw [lines_of_ne_nil (ne_nil_of_fgets hfgets)] at ih
    have hmem : firstLine nl r ∈ lines nl s := ih ▸ List.mem_append_right ps List.mem_cons_self
    obtain ⟨rfl, rfl⟩ := fgets_eq_firstLine hfgets (hshort _ hmem)
    rw [ih, List.append_assoc, List.singleton_append]

end LinuxFileManager.Lib
