import LinuxFileManager.Lib.Condvar
import LinuxFileManager.Lib.Shift
import LinuxFileManager.Lib.System

/-!
# Systems that come to an end

A system in which every step of its own lowers a measure, and a step from outside
raises it by a bounded amount, makes only so many steps; what is left to show is
where it can stop.

Results:

* `exec_length_le`: the length of a run, from the measure and the steps from outside.
* `exists_stopped`: the system's own steps lead to a state where it stops.
* `total_set`, `total_signal`, `total_broadcast`: a measure that is a sum over threads.
-/

namespace LinuxFileManager.Lib

/-! ## Runs -/

section

variable {S A : Type} {step : S → A → Option S} {J : S → Prop} {outside : A → Bool} {m : S → ℕ}

/-- No step of the system's own is possible. -/
def Stopped (step : S → A → Option S) (own : A → Prop) (s : S) : Prop := ∀ a, own a → step s a = none

/-- A run makes no more steps than the measure allows, and `rise + 1` for each step
    from outside. -/
theorem exec_length_le {rise : ℕ} (hkeep : ∀ s a s', J s → step s a = some s' → J s')
    (hcost : ∀ s a s', J s → step s a = some s' →
      m s' + 1 ≤ m s + if outside a then rise + 1 else 0) {s s' : S} {as : List A} (h0 : J s)
    (h : exec step s as = some s') :
    as.length + m s' ≤ m s + (rise + 1) * as.countP outside := by
  induction as generalizing s with
  | nil =>
    cases h
    simp
  | cons a as ih =>
    obtain ⟨s₁, hs, hrest⟩ := exec_cons_eq_some.mp h
    have hlater := ih (hkeep s a s₁ h0 hs) hrest
    have hnow := hcost s a s₁ h0 hs
    rw [List.length_cons, List.countP_cons, Nat.mul_add]
    split_ifs at hnow ⊢ <;> omega

/-- The system's own steps lead to a state in which none is possible. -/
theorem exists_stopped {own : A → Prop} (hkeep : ∀ s a s', J s → step s a = some s' → J s')
    (hcost : ∀ s a s', J s → own a → step s a = some s' → m s' < m s) {s : S} (h0 : J s) :
    ∃ as s', (∀ a ∈ as, own a) ∧ exec step s as = some s' ∧ J s' ∧ Stopped step own s' := by
  induction hn : m s using Nat.strong_induction_on generalizing s with
  | h n ih =>
    by_cases hstop : Stopped step own s
    · exact ⟨[], s, fun a ha => (List.not_mem_nil ha).elim, rfl, h0, hstop⟩
    · simp only [Stopped, not_forall] at hstop
      obtain ⟨a, ha, hne⟩ := hstop
      obtain ⟨s₁, hs⟩ := Option.ne_none_iff_exists'.mp hne
      obtain ⟨as, s', hown, hrest, hJ, hend⟩ :=
        ih (m s₁) (hn ▸ hcost s a s₁ h0 ha hs) (hkeep s a s₁ h0 hs) rfl
      refine ⟨a :: as, s', fun b hb => ?_, exec_cons_eq_some.mpr ⟨s₁, hs, hrest⟩, hJ, hend⟩
      rcases List.mem_cons.mp hb with rfl | hb
      · exact ha
      · exact hown b hb

end

/-! ## Sums over threads -/

section

variable {α : Type*} (f : α → ℕ)

/-- The measure of all threads. -/
def total (ts : List α) : ℕ := (ts.map f).sum

theorem total_append (ts us : List α) : total f (ts ++ us) = total f ts + total f us := by
  rw [total, List.map_append, List.sum_append, total, total]

theorem total_eq_of_perm {ts us : List α} (h : ts.Perm us) : total f ts = total f us :=
  (h.map f).sum_eq

theorem total_set {ts : List α} {i : ℕ} {t : α} (h : ts[i]? = some t) (u : α) :
    total f (ts.set i u) + f t = total f ts + f u := by
  obtain ⟨rest, hperm, hset⟩ := exists_perm_set h
  rw [total_eq_of_perm f hperm, total_eq_of_perm f (hset u)]
  simp only [total, List.map_cons, List.sum_cons]
  omega

variable {asleep : α → Bool} {wake : α → α} (hwake : ∀ t, asleep t = true → f (wake t) ≤ f t)
include hwake

theorem total_signal {ts ts' : List α} {choice : ℕ} (h : signal asleep wake ts choice = some ts') :
    total f ts' ≤ total f ts := by
  rcases (signal_eq_some asleep wake).mp h with ⟨rfl, -⟩ | ⟨t, hget, hsleep, rfl⟩
  · exact le_rfl
  · have hset := total_set f hget (wake t)
    have hle := hwake t hsleep
    omega

theorem total_broadcast (ts : List α) : total f (broadcast asleep wake ts) ≤ total f ts := by
  rw [total, broadcast, List.map_map]
  refine List.sum_le_sum fun t _ => ?_
  dsimp only [Function.comp]
  split_ifs with hsleep
  · exact hwake t hsleep
  · exact le_rfl

end

end LinuxFileManager.Lib
