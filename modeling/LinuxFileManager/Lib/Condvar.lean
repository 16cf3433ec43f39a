import Mathlib

/-!
# Condition variables

The threads that may wait on a condition variable are the elements of a list;
`asleep` tells which of them do, and `wake` is what a signal does to one. Which
sleeper a signal wakes is a choice of the scheduler.

Results:

* `signal_eq_some`: a signal wakes exactly one sleeper, or is lost when there
  is none.
* `map_signal`, `map_broadcast`: what does not tell a sleeper from the thread
  it wakes up as does not see a signal, nor a broadcast; a count and a partial
  map are the cases in use.
-/

namespace LinuxFileManager.Lib

variable {α β : Type*} (asleep : α → Bool) (wake : α → α)

/-- `pthread_cond_signal`: wake the sleeper `choice`; `none` when there are
    sleepers and `choice` is none of them. -/
def signal (ts : List α) (choice : ℕ) : Option (List α) :=
  if ts.any asleep then
    match ts[choice]? with
    | some t => if asleep t then some (ts.set choice (wake t)) else none
    | none => none
  else some ts

/-- `pthread_cond_broadcast`. -/
def broadcast (ts : List α) : List α := ts.map fun t => if asleep t then wake t else t

theorem signal_eq_some {ts ts' : List α} {choice : ℕ} :
    signal asleep wake ts choice = some ts' ↔
      (ts' = ts ∧ ∀ t ∈ ts, asleep t = false) ∨
        ∃ t, ts[choice]? = some t ∧ asleep t = true ∧ ts' = ts.set choice (wake t) := by
  unfold signal
  split_ifs with hany
  · obtain ⟨t₀, hmem, hsleep⟩ := List.any_eq_true.mp hany
    have hnone : ¬ ∀ t ∈ ts, asleep t = false := by
      intro h
      rw [h t₀ hmem] at hsleep
      cases hsleep
    cases hget : ts[choice]? with
    | none => simp [hnone]
    | some t =>
      dsimp only
      split_ifs with ht
      · constructor
        · exact fun h => Or.inr ⟨t, rfl, ht, (Option.some.inj h).symm⟩
        · rintro (⟨-, h⟩ | ⟨t', heq, -, rfl⟩)
          · exact absurd h hnone
          · cases heq
            rfl
      · simp [hnone, ht]
  · have hnone : ∀ t ∈ ts, asleep t = false := by simpa using hany
    rw [Option.some.injEq]
    constructor
    · exact fun h => Or.inl ⟨h.symm, hnone⟩
    · rintro (⟨h, -⟩ | ⟨t, hget, ht, -⟩)
      · exact h.symm
      · rw [hnone t (List.mem_of_getElem? hget)] at ht
        cases ht

/-- A signal is always possible. -/
theorem exists_signal (ts : List α) : ∃ choice ts', signal asleep wake ts choice = some ts' := by
  by_cases h : ∃ t ∈ ts, asleep t = true
  · obtain ⟨t, hmem, hsleep⟩ := h
    obtain ⟨choice, hget⟩ := List.mem_iff_getElem?.mp hmem
    exact ⟨choice, _, (signal_eq_some asleep wake).mpr (Or.inr ⟨t, hget, hsleep, rfl⟩)⟩
  · refine ⟨0, ts, (signal_eq_some asleep wake).mpr (Or.inl ⟨rfl, fun t hmem => ?_⟩)⟩
    exact Bool.eq_false_iff.mpr fun hsleep => h ⟨t, hmem, hsleep⟩

/-! ## What signals leave -/

section

variable {asleep wake}

theorem map_signal {f : α → β} (hf : ∀ t, asleep t = true → f (wake t) = f t) {ts ts' : List α}
    {choice : ℕ} (h : signal asleep wake ts choice = some ts') : ts'.map f = ts.map f := by
  rcases (signal_eq_some asleep wake).mp h with ⟨rfl, -⟩ | ⟨t, hget, hsleep, rfl⟩
  · rfl
  · obtain ⟨hlt, rfl⟩ := List.getElem?_eq_some_iff.mp hget
    rw [List.map_set, hf _ hsleep, ← List.getElem_map f (h := by simpa using hlt),
      List.set_getElem_self]

theorem map_broadcast {f : α → β} (hf : ∀ t, asleep t = true → f (wake t) = f t) (ts : List α) :
    (broadcast asleep wake ts).map f = ts.map f := by
  rw [broadcast, List.map_map]
  refine List.map_congr_left fun t _ => ?_
  dsimp only [Function.comp]
  split_ifs with hsleep
  · exact hf t hsleep
  · rfl

theorem filterMap_eq_of_map_eq {f : α → Option β} {ts ts' : List α} (h : ts'.map f = ts.map f) :
    ts'.filterMap f = ts.filterMap f := by
  simpa [List.filterMap_map] using congrArg (List.filterMap id) h

theorem countP_eq_of_map_eq {p : α → Bool} {ts ts' : List α} (h : ts'.map p = ts.map p) :
    ts'.countP p = ts.countP p := by
  simpa [List.countP_map] using congrArg (List.countP id) h

end

end LinuxFileManager.Lib
