import Mathlib

/-!
# Ring buffers

A queue in an array: `count` elements starting at index `front`, continued at
index `0` behind the last one. `ringContents` is the queue that the array
stands for.

Results:

* `ringContents_push`: a write behind the last element appends it.
* `ringContents_pop`: the element at `front` is the head of the queue, and the
  rest starts at the next index.
-/

namespace LinuxFileManager.Lib

variable {α : Type*}

/-- The queue of `count` elements that starts at `front` in the array `l`. -/
def ringContents (l : List α) (front count : ℕ) : List α := (l.rotate front).take count

/-- A write in the array is a write in the array rotated to `front`. -/
theorem rotate_set {l : List α} {front k : ℕ} (a : α) (hk : k < l.length) :
    (l.set ((front + k) % l.length) a).rotate front = (l.rotate front).set k a := by
  have hpos : 0 < l.length := by omega
  refine List.ext_getElem (by simp) fun i hi _ => ?_
  rw [List.length_rotate, List.length_set] at hi
  rw [List.getElem_rotate, List.getElem_set, List.getElem_set, List.getElem_rotate]
  simp only [List.length_set]
  have hiff : (front + k) % l.length = (i + front) % l.length ↔ k = i := by
    constructor
    · intro h
      have hmod : k ≡ i [MOD l.length] := by
        refine Nat.ModEq.add_left_cancel' front ?_
        rw [Nat.add_comm front i]
        exact h
      exact hmod.eq_of_lt_of_lt hk hi
    · rintro rfl
      rw [Nat.add_comm]
  simp only [hiff]

/-- A write behind the last element appends it to the queue. -/
theorem ringContents_push {l : List α} {front count : ℕ} (a : α) (h : count < l.length) :
    ringContents (l.set ((front + count) % l.length) a) front (count + 1) =
      ringContents l front count ++ [a] := by
  rw [ringContents, ringContents, rotate_set a h, List.take_add_one, List.take_set_of_le le_rfl,
    List.getElem?_set_self (by rwa [List.length_rotate])]
  rfl

/-- The head of the queue is at `front`, its tail starts at the next index. -/
theorem ringContents_pop {l : List α} {front count : ℕ} (hfront : front < l.length)
    (h : count + 1 ≤ l.length) :
    ringContents l front (count + 1) =
      l[front] :: ringContents l ((front + 1) % l.length) count := by
  have hcons : l.rotate front = l[front] :: (l.drop (front + 1) ++ l.take front) := by
    rw [List.rotate_eq_drop_append_take hfront.le, List.drop_eq_getElem_cons hfront, List.cons_append]
  have hnext : l.rotate ((front + 1) % l.length) = l.drop (front + 1) ++ l.take front ++ [l[front]] := by
    rw [List.rotate_mod, ← List.rotate_rotate, hcons, List.rotate_cons_succ, List.rotate_zero]
  have hlen : count ≤ (l.drop (front + 1) ++ l.take front).length := by
    rw [List.length_append, List.length_drop, List.length_take]
    omega
  rw [ringContents, ringContents, hcons, hnext, List.take_succ_cons, List.take_append_of_le_length hlen]

end LinuxFileManager.Lib
