import Mathlib

/-!
# Sweeps over a table that changes

A sweep goes over the elements of a table by index, while others append elements
to the table and erase elements from it. An element that is erased behind the
cursor is harmless. One that is erased before the cursor moves the elements
behind it down, and the sweep passes over the element at the cursor.

`Sweep.Step` are the operations that do no harm: the element that is passed over
was not there when the sweep began.

Results:

* `Sweep.Sound.step`: the harmless operations keep the sweep sound.
* `Sweep.Sound.visited_once`: a sound sweep that has come to the end has visited
  each element that was there when it began, and still is, exactly once.
-/

namespace LinuxFileManager.Lib

theorem getElem?_append_singleton {α : Type*} {l : List α} {a b : α} {j : ℕ}
    (h : (l ++ [a])[j]? = some b) : l[j]? = some b ∨ b = a := by
  rw [List.getElem?_append] at h
  split_ifs at h with hlt
  · exact Or.inl h
  · exact Or.inr (List.mem_singleton.mp (List.mem_of_getElem? h))

theorem getElem?_of_eraseIdx {α : Type*} {l : List α} {b : α} {m j : ℕ}
    (h : (l.eraseIdx m)[j]? = some b) : j < m ∧ l[j]? = some b ∨ m ≤ j ∧ l[j + 1]? = some b := by
  rw [List.getElem?_eraseIdx] at h
  split_ifs at h with hlt
  · exact Or.inl ⟨hlt, h⟩
  · exact Or.inr ⟨not_lt.mp hlt, h⟩

/-- A sweep that has come to the index `next`. -/
structure Sweep (K : Type) where
  table : List K
  next : ℕ
  /-- The table when the sweep began. -/
  original : List K
  /-- The elements visited so far. -/
  visited : List K

namespace Sweep

variable {K : Type}

inductive Step (s : Sweep K) : Sweep K → Prop where
  | visit {k : K} (hk : s.table[s.next]? = some k) :
      Step s ⟨s.table, s.next + 1, s.original, s.visited ++ [k]⟩
  /-- The element is a new one. -/
  | append {k : K} (htable : k ∉ s.table) (hvisited : k ∉ s.visited) (horiginal : k ∉ s.original) :
      Step s ⟨s.table ++ [k], s.next, s.original, s.visited⟩
  | eraseBehind {m : ℕ} (hm : s.next ≤ m) : Step s ⟨s.table.eraseIdx m, s.next, s.original, s.visited⟩
  | eraseBefore {m : ℕ} (hm : m < s.next) (hnext : ∀ k, s.table[s.next]? = some k → k ∉ s.original) :
      Step s ⟨s.table.eraseIdx m, s.next, s.original, s.visited⟩
  /-- The sweep erases the element that it has visited last. -/
  | eraseLast {n : ℕ} (hn : s.next = n + 1) : Step s ⟨s.table.eraseIdx n, n, s.original, s.visited⟩

/-- The elements before the cursor have been visited, unless they are new, and
    none of those behind it. -/
structure Sound (s : Sweep K) : Prop where
  nodup : s.table.Nodup
  passed : ∀ j < s.next, ∀ k, s.table[j]? = some k → k ∈ s.original → k ∈ s.visited
  ahead : ∀ j, s.next ≤ j → ∀ k, s.table[j]? = some k → k ∉ s.visited
  visited : s.visited.Nodup

/-- A sweep begins. -/
theorem sound_initial {table : List K} (h : table.Nodup) : Sound ⟨table, 0, table, []⟩ :=
  ⟨h, nofun, fun _ _ _ _ => List.not_mem_nil, .nil⟩

section

variable {s : Sweep K} (h : Sound s)
include h

theorem Sound.visit {k : K} (hk : s.table[s.next]? = some k) :
    Sound ⟨s.table, s.next + 1, s.original, s.visited ++ [k]⟩ where
  nodup := h.nodup
  passed := by
    intro j hj k' hk' horiginal
    rcases Nat.lt_succ_iff_lt_or_eq.mp hj with hlt | rfl
    · exact List.mem_append_left _ (h.passed j hlt k' hk' horiginal)
    · rw [hk] at hk'
      cases hk'
      exact List.mem_append_right _ (List.mem_singleton_self k)
  ahead := by
    intro j hj k' hk' hmem
    rcases List.mem_append.mp hmem with hmem | hmem
    · exact h.ahead j (Nat.le_of_succ_le hj) k' hk' hmem
    · rw [List.mem_singleton.mp hmem] at hk'
      have heq := (List.getElem?_inj (List.getElem?_eq_some_iff.mp hk).1 h.nodup).mp (hk.trans hk'.symm)
      exact absurd hj (heq ▸ Nat.not_succ_le_self s.next)
  visited := by
    refine List.nodup_append'.mpr ⟨h.visited, List.nodup_singleton k, ?_⟩
    exact List.disjoint_singleton.mpr (h.ahead s.next le_rfl k hk)

theorem Sound.append {k : K} (htable : k ∉ s.table) (hvisited : k ∉ s.visited)
    (horiginal : k ∉ s.original) : Sound ⟨s.table ++ [k], s.next, s.original, s.visited⟩ where
  nodup := List.nodup_append'.mpr ⟨h.nodup, List.nodup_singleton k, List.disjoint_singleton.mpr htable⟩
  passed := by
    intro j hj k' hk' hmem
    rcases getElem?_append_singleton hk' with hold | hnew
    · exact h.passed j hj k' hold hmem
    · exact absurd (hnew ▸ hmem) horiginal
  ahead := by
    intro j hj k' hk'
    rcases getElem?_append_singleton hk' with hold | hnew
    · exact h.ahead j hj k' hold
    · exact hnew ▸ hvisited
  visited := h.visited

theorem Sound.eraseBehind {m : ℕ} (hm : s.next ≤ m) :
    Sound ⟨s.table.eraseIdx m, s.next, s.original, s.visited⟩ where
  nodup := h.nodup.sublist (List.eraseIdx_sublist _ _)
  passed := by
    intro j hj k hk
    rcases getElem?_of_eraseIdx hk with ⟨-, hk⟩ | ⟨hmj, -⟩
    · exact h.passed j hj k hk
    · exact absurd (hj.trans_le hm) (not_lt.mpr hmj)
  ahead := by
    intro j hj k hk
    rcases getElem?_of_eraseIdx hk with ⟨-, hk⟩ | ⟨-, hk⟩
    · exact h.ahead j hj k hk
    · exact h.ahead (j + 1) (Nat.le_succ_of_le hj) k hk
  visited := h.visited

theorem Sound.eraseBefore {m : ℕ} (hm : m < s.next)
    (hnext : ∀ k, s.table[s.next]? = some k → k ∉ s.original) :
    Sound ⟨s.table.eraseIdx m, s.next, s.original, s.visited⟩ where
  nodup := h.nodup.sublist (List.eraseIdx_sublist _ _)
  passed := by
    intro j hj k hk horiginal
    rcases getElem?_of_eraseIdx hk with ⟨-, hk⟩ | ⟨-, hk⟩
    · exact h.passed j hj k hk horiginal
    · rcases (show j + 1 ≤ s.next from hj).lt_or_eq with hlt | heq
      · exact h.passed (j + 1) hlt k hk horiginal
      · -- the element that the sweep passes over
        exact absurd horiginal (hnext k (heq ▸ hk))
  ahead := by
    intro j hj k hk
    rcases getElem?_of_eraseIdx hk with ⟨hjm, -⟩ | ⟨-, hk⟩
    · exact absurd (hm.trans_le hj) hjm.not_gt
    · exact h.ahead (j + 1) (Nat.le_succ_of_le hj) k hk
  visited := h.visited

theorem Sound.eraseLast {n : ℕ} (hn : s.next = n + 1) :
    Sound ⟨s.table.eraseIdx n, n, s.original, s.visited⟩ where
  nodup := h.nodup.sublist (List.eraseIdx_sublist _ _)
  passed := by
    intro j hj k hk
    rcases getElem?_of_eraseIdx hk with ⟨-, hk⟩ | ⟨hnj, -⟩
    · exact h.passed j (by rw [hn]; exact hj.trans (Nat.lt_add_one n)) k hk
    · exact absurd hj (not_lt.mpr hnj)
  ahead := by
    intro j hj k hk
    rcases getElem?_of_eraseIdx hk with ⟨hjn, -⟩ | ⟨-, hk⟩
    · exact absurd hj (not_le.mpr hjn)
    · exact h.ahead (j + 1) (by rw [hn]; exact Nat.succ_le_succ hj) k hk
  visited := h.visited

/-- The harmless operations keep the sweep sound. -/
theorem Sound.step {s' : Sweep K} (hs : Step s s') : Sound s' := by
  cases hs with
  | visit hk => exact h.visit hk
  | append htable hvisited horiginal => exact h.append htable hvisited horiginal
  | eraseBehind hm => exact h.eraseBehind hm
  | eraseBefore hm hnext => exact h.eraseBefore hm hnext
  | eraseLast hn => exact h.eraseLast hn

/-- A sound sweep at the end of the table has visited each element that was
    there when it began, and still is, exactly once. -/
theorem Sound.visited_once [BEq K] [LawfulBEq K] (hend : s.table.length ≤ s.next) {k : K}
    (horiginal : k ∈ s.original) (htable : k ∈ s.table) : s.visited.count k = 1 := by
  obtain ⟨j, hj, rfl⟩ := List.getElem_of_mem htable
  refine List.count_eq_one_of_mem h.visited ?_
  exact h.passed j (hj.trans_le hend) _ (List.getElem?_eq_getElem hj) horiginal

end

/-- An erasure before the cursor moves an element that was there when the sweep
    began past it: it has not been visited, and will not be. -/
theorem Sound.passes_over {s : Sweep K} (h : Sound s) {m : ℕ} (hm : m < s.next) {k : K}
    (hk : s.table[s.next]? = some k) :
    (s.table.eraseIdx m)[s.next - 1]? = some k ∧ k ∉ s.visited := by
  refine ⟨?_, h.ahead s.next le_rfl k hk⟩
  rw [List.getElem?_eraseIdx_of_ge (Nat.le_sub_one_of_lt hm),
    Nat.sub_add_cancel (Nat.zero_lt_of_lt hm), hk]

end Sweep

end LinuxFileManager.Lib
