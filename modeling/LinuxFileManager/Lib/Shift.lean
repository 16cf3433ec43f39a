import Mathlib

/-!
# Arrays in place

A table that occupies the first `count` slots of an array deletes slot `i` by
moving the slots behind it down by one. `shiftDown` is that loop over an
arbitrary element type. On the slots in use it is `List.eraseIdx`
(`take_shiftDown`); the last slot that was in use keeps a stale copy.

An update of one slot leaves the rest (`exists_perm_set`, `map_modify_of_forall`);
`countP_set_add` is what it does to a count.
-/

namespace LinuxFileManager.Lib

variable {α : Type*}

/-- `for (j = i; j < i + n; j++) l[j] = l[j + 1];` -/
def shiftDown (l : List α) (i : ℕ) : ℕ → List α
  | 0 => l
  | n + 1 =>
    match l[i + 1]? with
    | some x => shiftDown (l.set i x) (i + 1) n
    | none => l

@[simp] theorem length_shiftDown (l : List α) (i n : ℕ) : (shiftDown l i n).length = l.length := by
  induction n generalizing l i with
  | zero => rfl
  | succ n ih =>
    rw [shiftDown]
    split
    · rw [ih, List.length_set]
    · rfl

/-- The loop moves the `n` elements behind slot `i` down and leaves the rest. -/
theorem shiftDown_eq (l : List α) (i n : ℕ) (h : i + n < l.length) :
    shiftDown l i n = l.take i ++ (l.drop (i + 1)).take n ++ l.drop (i + n) := by
  induction n generalizing l i with
  | zero => simp [shiftDown]
  | succ n ih =>
    have hi : i + 1 < l.length := by omega
    rw [shiftDown, List.getElem?_eq_getElem hi]
    dsimp only
    rw [ih _ _ (by rw [List.length_set]; omega)]
    have htake : (l.set i l[i + 1]).take (i + 1) = l.take i ++ [l[i + 1]] := by
      rw [List.take_add_one, List.getElem?_set_self (by omega), List.take_set_of_le le_rfl]
      rfl
    rw [htake, List.drop_set_of_lt (by omega), List.drop_set_of_lt (by omega),
      List.drop_eq_getElem_cons hi, List.take_succ_cons, List.append_assoc, List.append_assoc,
      List.append_assoc, show i + 1 + n = i + (n + 1) by omega]
    rfl

/-- On the first `count` slots the loop deletes slot `i`. -/
theorem take_shiftDown {l : List α} {i count : ℕ} (hi : i < count) (hcount : count ≤ l.length) :
    (shiftDown l i (count - 1 - i)).take (count - 1) = (l.take count).eraseIdx i := by
  rw [shiftDown_eq _ _ _ (by omega), List.take_left' (by simp; omega), List.eraseIdx_eq_take_drop_succ,
    List.take_take, List.drop_take, min_eq_left (by omega)]
  congr 2
  omega

/-- A write of what is there already. -/
theorem set_eq_self {l : List α} {i : ℕ} {a : α} (h : ∀ b, l[i]? = some b → b = a) : l.set i a = l := by
  cases hget : l[i]? with
  | none => exact List.set_eq_of_length_le (List.getElem?_eq_none_iff.mp hget)
  | some b =>
    obtain ⟨hi, heq⟩ := List.getElem?_eq_some_iff.mp hget
    rw [← h b hget, ← heq]
    exact List.set_getElem_self hi

/-- A list is a permutation of any one of its elements and a rest, and an
    update of this element leaves the rest. -/
theorem exists_perm_set {l : List α} {i : ℕ} {a : α} (h : l[i]? = some a) :
    ∃ rest : List α, l.Perm (a :: rest) ∧ ∀ b, (l.set i b).Perm (b :: rest) := by
  obtain ⟨hi, rfl⟩ := List.getElem?_eq_some_iff.mp h
  exact ⟨l.eraseIdx i, (List.getElem_cons_eraseIdx_perm hi).symm,
    fun b => List.set_perm_cons_eraseIdx hi b⟩

/-- The other elements stay in the list. -/
theorem mem_set_of_ne {l : List α} {i : ℕ} {a x : α} (h : l[i]? = some a) (hx : x ∈ l) (hne : x ≠ a)
    (b : α) : x ∈ l.set i b := by
  obtain ⟨rest, hperm, hset⟩ := exists_perm_set h
  refine (hset b).mem_iff.mpr (List.mem_cons_of_mem b ?_)
  exact List.mem_of_ne_of_mem hne (hperm.mem_iff.mp hx)

/-- How a count changes with the update of one element. -/
theorem countP_set_add {l : List α} {i : ℕ} {a : α} (h : l[i]? = some a) (p : α → Bool) (b : α) :
    (l.set i b).countP p + (if p a then 1 else 0) = l.countP p + (if p b then 1 else 0) := by
  obtain ⟨rest, hperm, hset⟩ := exists_perm_set h
  rw [hperm.countP_eq, (hset b).countP_eq, List.countP_cons, List.countP_cons]
  omega

/-- An update that a partial map does not see. -/
theorem filterMap_set_perm {β : Type*} {l : List α} {i : ℕ} {a : α} (h : l[i]? = some a) {f : α → Option β}
    {b : α} (hf : f b = f a) : ((l.set i b).filterMap f).Perm (l.filterMap f) := by
  obtain ⟨rest, hperm, hset⟩ := exists_perm_set h
  refine ((hset b).filterMap f).trans (.trans ?_ (hperm.filterMap f).symm)
  rw [List.filterMap_cons, List.filterMap_cons, hf]

/-- An update of one slot that `g` does not see. -/
theorem map_modify_of_forall {β : Type*} {f : α → α} {g : α → β} (h : ∀ a, g (f a) = g a) (l : List α)
    (i : ℕ) : (l.modify i f).map g = l.map g := by
  refine List.ext_getElem? fun j => ?_
  rw [List.getElem?_map, List.getElem?_map, List.getElem?_modify]
  split_ifs <;> cases l[j]? <;> simp [h]

end LinuxFileManager.Lib
