import Mathlib

/-!
# Files of terminated lines

A file whose lines end with a terminator `nl`, seen through positions: a
position is a boundary when what is before it is made of whole lines, and from a
boundary on the next line reaches up to the first terminator.

Results:

* `Boundary.append`, `LineAt.append`, `LineAt.of_append`: lines and boundaries
  stay where they are when the file grows.
* `exists_lineAt`: from every boundary before the end there is a next line.
* `LineAt.unique`, `LineAt.le_of_boundary`: it is the only one, and there is no
  boundary inside it.
* `lineAt_append_line`: where a line lies that is put at the end.
-/

namespace LinuxFileManager.Lib

variable {α : Type*} (nl : α)

/-- Nothing but whole lines. -/
def Terminated (xs : List α) : Prop := ∀ b ∈ xs.getLast?, b = nl

/-- A line starts, or could start, at position `p`. -/
def Boundary (xs : List α) (p : ℕ) : Prop := p ≤ xs.length ∧ Terminated nl (xs.take p)

/-- `line`, with its terminator, is the line that starts at position `p`. -/
def LineAt (xs : List α) (p : ℕ) (line : List α) : Prop :=
  Boundary nl xs p ∧ line <+: xs.drop p ∧ ∃ body, nl ∉ body ∧ line = body ++ [nl]

variable {nl}

/-! ## Whole lines -/

theorem terminated_nil : Terminated nl [] := by
  intro b hb
  cases hb

theorem terminated_append_singleton (body : List α) : Terminated nl (body ++ [nl]) := by
  intro b hb
  rw [List.getLast?_append, List.getLast?_singleton, Option.some_or] at hb
  exact (Option.some.inj hb).symm

theorem Terminated.append {xs ys : List α} (hx : Terminated nl xs) (hy : Terminated nl ys) :
    Terminated nl (xs ++ ys) := by
  intro b hb
  rw [List.getLast?_append] at hb
  cases hlast : ys.getLast? with
  | none =>
    rw [hlast, Option.none_or] at hb
    exact hx b hb
  | some c =>
    rw [hlast, Option.some_or] at hb
    cases hb
    exact hy b hlast

theorem Terminated.drop {xs : List α} (h : Terminated nl xs) (p : ℕ) : Terminated nl (xs.drop p) := by
  intro b hb
  by_cases hp : p < xs.length
  · rw [List.getLast?_drop, if_neg (by omega)] at hb
    exact h b hb
  · rw [List.drop_eq_nil_of_le (by omega)] at hb
    cases hb

/-! ## Boundaries -/

theorem boundary_zero (xs : List α) : Boundary nl xs 0 :=
  ⟨Nat.zero_le _, by rw [List.take_zero]; exact terminated_nil⟩

theorem boundary_length {xs : List α} (h : Terminated nl xs) : Boundary nl xs xs.length :=
  ⟨le_rfl, by rwa [List.take_length]⟩

theorem Boundary.append {xs : List α} {p : ℕ} (h : Boundary nl xs p) (ys : List α) :
    Boundary nl (xs ++ ys) p := by
  refine ⟨by rw [List.length_append]; exact h.1.trans (Nat.le_add_right _ _), ?_⟩
  rw [List.take_append_of_le_length h.1]
  exact h.2

theorem Boundary.of_append {xs ys : List α} {p : ℕ} (h : Boundary nl (xs ++ ys) p)
    (hp : p ≤ xs.length) : Boundary nl xs p := by
  refine ⟨hp, ?_⟩
  rw [← List.take_append_of_le_length hp]
  exact h.2

/-- What is between two boundaries is made of whole lines. -/
theorem Boundary.terminated_between {xs : List α} {p q : ℕ} (hq : Boundary nl xs q) :
    Terminated nl ((xs.drop p).take (q - p)) := by
  have hcut : (xs.drop p).take (q - p) = (xs.take q).drop p := by
    rw [List.drop_take]
  rw [hcut]
  exact hq.2.drop p

/-! ## Lines -/

theorem LineAt.boundary {xs line : List α} {p : ℕ} (h : LineAt nl xs p line) : Boundary nl xs p := h.1

theorem LineAt.length_pos {xs line : List α} {p : ℕ} (h : LineAt nl xs p line) : 0 < line.length := by
  obtain ⟨-, -, body, -, rfl⟩ := h
  rw [List.length_append, List.length_singleton]
  omega

theorem LineAt.le_length {xs line : List α} {p : ℕ} (h : LineAt nl xs p line) :
    p + line.length ≤ xs.length := by
  have hle := h.2.1.length_le
  have hp := h.1.1
  rw [List.length_drop] at hle
  omega

/-- The position behind a line is a boundary. -/
theorem LineAt.next {xs line : List α} {p : ℕ} (h : LineAt nl xs p line) :
    Boundary nl xs (p + line.length) := by
  refine ⟨h.le_length, ?_⟩
  obtain ⟨hb, ⟨post, hpost⟩, body, -, rfl⟩ := h
  rw [List.take_add, ← hpost, List.take_left]
  exact hb.2.append (terminated_append_singleton body)

theorem LineAt.append {xs line : List α} {p : ℕ} (h : LineAt nl xs p line) (ys : List α) :
    LineAt nl (xs ++ ys) p line := by
  obtain ⟨hb, hprefix, hbody⟩ := h
  refine ⟨hb.append ys, ?_, hbody⟩
  rw [List.drop_append_of_le_length hb.1]
  exact hprefix.trans (List.prefix_append _ _)

/-- A line that lies within the old part of a file was there before the file grew. -/
theorem LineAt.of_append {xs ys line : List α} {p : ℕ} (h : LineAt nl (xs ++ ys) p line)
    (hle : p + line.length ≤ xs.length) : LineAt nl xs p line := by
  obtain ⟨hb, hprefix, hbody⟩ := h
  refine ⟨hb.of_append (by omega), ?_, hbody⟩
  rw [List.drop_append_of_le_length (by omega)] at hprefix
  exact List.prefix_of_prefix_length_le hprefix (List.prefix_append _ _)
    (by rw [List.length_drop]; omega)

/-- From a boundary before the end of whole lines there is a next line. -/
theorem exists_lineAt {xs : List α} {p : ℕ} (hb : Boundary nl xs p)
    (ht : Terminated nl xs) (hp : p < xs.length) : ∃ line, LineAt nl xs p line := by
  have hne : xs.drop p ≠ [] := by
    intro hnil
    rw [List.drop_eq_nil_iff] at hnil
    omega
  have hmem : nl ∈ xs.drop p := by
    have hlast := List.getLast?_eq_some_getLast hne
    rw [← ht.drop p _ hlast]
    exact List.getLast_mem hne
  obtain ⟨body, post, hsplit, hbody⟩ := List.eq_append_cons_of_mem hmem
  exact ⟨body ++ [nl], hb, ⟨post, by rw [hsplit]; simp⟩, body, hbody, rfl⟩

/-- There is no boundary inside a line. -/
theorem LineAt.le_of_boundary {xs line : List α} {p q : ℕ} (h : LineAt nl xs p line)
    (hq : Boundary nl xs q) (hlt : p < q) : p + line.length ≤ q := by
  by_contra hinside
  obtain ⟨-, ⟨post, hpost⟩, body, hbody, rfl⟩ := h
  rw [List.length_append, List.length_singleton] at hinside
  -- what is between the two positions is a part of the body, and ends with `nl`
  have hpart : (xs.drop p).take (q - p) = body.take (q - p) := by
    rw [← hpost, List.append_assoc, List.take_append_of_le_length (by omega)]
  have hended := hq.terminated_between (p := p)
  rw [hpart] at hended
  have hne : body.take (q - p) ≠ [] := by
    intro hnil
    rw [List.take_eq_nil_iff] at hnil
    rcases hnil with h0 | hnil
    · omega
    · rw [hnil, List.length_nil] at hinside
      omega
  have hlast := hended _ (List.getLast?_eq_some_getLast hne)
  exact hbody (hlast ▸ List.mem_of_mem_take (List.getLast_mem hne))

theorem LineAt.unique {xs line line' : List α} {p : ℕ} (h : LineAt nl xs p line)
    (h' : LineAt nl xs p line') : line = line' := by
  have hle := h.le_of_boundary h'.next (by have := h'.length_pos; omega)
  have hle' := h'.le_of_boundary h.next (by have := h.length_pos; omega)
  have hprefix := List.prefix_of_prefix_length_le h.2.1 h'.2.1 (by omega)
  exact hprefix.eq_of_length (by omega)

/-- A line put behind whole lines starts where they end. -/
theorem lineAt_append_line {xs body : List α} (hxs : Terminated nl xs) (hbody : nl ∉ body) :
    LineAt nl (xs ++ (body ++ [nl])) xs.length (body ++ [nl]) :=
  ⟨(boundary_length hxs).append _, by rw [List.drop_left], body, hbody, rfl⟩

end LinuxFileManager.Lib
