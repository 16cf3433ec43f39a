import Mathlib

/-!
# Fixed-size array objects

A C array object of `n` elements, and the block copies that C programs make
into it. `Buffer.write` takes the bound it needs as a proof, so a write past
the end of the object cannot be expressed; `Buffer.tryWrite` is the same copy
where the program does not check the bound, with `none` for a copy that leaves
the object.

Results:

* `take_elems_write`: a copy made right behind the first `off` elements
  extends them.
* `tryWrite_isSome`: the unchecked copy stays inside the object exactly when
  the source fits.
* `Holds.strcat`: `strcat` appends to the C string in the object what fits.
-/

namespace LinuxFileManager.Lib

/-- An array object with `n` elements of type `α`. -/
structure Buffer (α : Type*) (n : ℕ) where
  elems : List α
  length_elems : elems.length = n

namespace Buffer

variable {α : Type*} {n : ℕ}

/-- The object with every element equal to `a`. -/
def filled (n : ℕ) (a : α) : Buffer α n := ⟨List.replicate n a, List.length_replicate⟩

/-- `memcpy(dst + off, src, src.length)`, in bounds. -/
def write (b : Buffer α n) (off : ℕ) (src : List α) (h : off + src.length ≤ n) : Buffer α n :=
  ⟨b.elems.take off ++ src ++ b.elems.drop (off + src.length), by
    simp only [List.length_append, List.length_take, List.length_drop, b.length_elems]; omega⟩

/-- `memcpy(dst + off, src, src.length)` without a check: `none` when the copy
    writes past the end of `dst`. -/
def tryWrite (b : Buffer α n) (off : ℕ) (src : List α) : Option (Buffer α n) :=
  if h : off + src.length ≤ n then some (b.write off src h) else none

/-- The `len` elements starting at `off`. -/
def read (b : Buffer α n) (off len : ℕ) : List α := (b.elems.drop off).take len

theorem length_read (b : Buffer α n) {off len : ℕ} (h : off + len ≤ n) :
    (b.read off len).length = len := by
  simp only [read, List.length_take, List.length_drop, b.length_elems]; omega

theorem drop_read (b : Buffer α n) (off len k : ℕ) :
    (b.read off len).drop k = b.read (off + k) (len - k) := by
  rw [read, List.drop_take, List.drop_drop, read]

/-- `memmove(b, b + off, len)`. -/
def moveDown (b : Buffer α n) (off len : ℕ) (h : off + len ≤ n) : Buffer α n :=
  b.write 0 (b.read off len) (by rw [b.length_read h]; omega)

theorem elems_write (b : Buffer α n) (off : ℕ) (src : List α) (h : off + src.length ≤ n) :
    (b.write off src h).elems = b.elems.take off ++ src ++ b.elems.drop (off + src.length) := rfl

/-- Writing right behind the first `off` elements extends them. -/
theorem take_elems_write (b : Buffer α n) {off k : ℕ} {src : List α} (h : off + src.length ≤ n)
    (hk : off + src.length = k) :
    (b.write off src h).elems.take k = b.elems.take off ++ src := by
  subst hk
  rw [elems_write, List.take_left']
  simp only [List.length_append, List.length_take, b.length_elems]; omega

/-- Writing at the start of the object. -/
theorem take_elems_write_zero (b : Buffer α n) {k : ℕ} {src : List α} (h : 0 + src.length ≤ n)
    (hk : src.length = k) : (b.write 0 src h).elems.take k = src := by
  rw [b.take_elems_write h (by omega), List.take_zero, List.nil_append]

theorem take_elems_moveDown (b : Buffer α n) (off len : ℕ) (h : off + len ≤ n) :
    (b.moveDown off len h).elems.take len = b.read off len :=
  b.take_elems_write_zero _ (b.length_read h)

theorem tryWrite_isSome (b : Buffer α n) (off : ℕ) (src : List α) :
    (b.tryWrite off src).isSome = true ↔ off + src.length ≤ n := by
  unfold tryWrite
  split_ifs with h <;> simp [h]

/-! ## C strings -/

/-- The bytes before the first NUL. -/
def cstr (b : Buffer UInt8 n) : List UInt8 := b.elems.takeWhile fun c => c != 0

/-- `strlen(b)`. -/
def strlen (b : Buffer UInt8 n) : ℕ := b.cstr.length

/-- `strcat(b, src)`; `none` when it writes past the end of `b`. -/
def strcat (b : Buffer UInt8 n) (src : List UInt8) : Option (Buffer UInt8 n) :=
  b.tryWrite b.strlen (src ++ [0])

/-- `strncpy(b, src, k)`: up to `k` bytes of the string, and NULs up to `k`. -/
def strncpy (b : Buffer UInt8 n) (src : List UInt8) (k : ℕ) (h : k ≤ n) : Buffer UInt8 n :=
  b.write 0 ((src.take k).rightpad k 0) (by
    simp only [List.length_rightpad, List.length_take]; omega)

/-- The object holds the C string `s`. -/
def Holds (b : Buffer UInt8 n) (s : List UInt8) : Prop := 0 ∉ s ∧ ∃ rest, b.elems = s ++ 0 :: rest

variable {b : Buffer UInt8 n} {s : List UInt8}

theorem Holds.cstr_eq (h : b.Holds s) : b.cstr = s := by
  obtain ⟨hs, rest, helems⟩ := h
  have hall : ∀ c ∈ s, (c != 0) = true := fun c hc => bne_iff_ne.mpr (ne_of_mem_of_not_mem hc hs)
  rw [cstr, helems, List.takeWhile_append_of_pos hall]
  exact List.append_nil s

theorem Holds.length_lt (h : b.Holds s) : s.length < n := by
  obtain ⟨-, rest, helems⟩ := h
  rw [← b.length_elems, helems, List.length_append, List.length_cons]
  omega

/-- `strcat` appends what fits. -/
theorem Holds.strcat (h : b.Holds s) {src : List UInt8} (hsrc : 0 ∉ src)
    (hfit : s.length + src.length + 1 ≤ n) : ∃ b', b.strcat src = some b' ∧ b'.Holds (s ++ src) := by
  have hbound : b.strlen + (src ++ [0]).length ≤ n := by
    rw [strlen, h.cstr_eq, List.length_append, List.length_singleton]
    omega
  have hstrlen : b.strlen = s.length := congrArg List.length h.cstr_eq
  obtain ⟨hs, rest, helems⟩ := h
  refine ⟨b.write b.strlen (src ++ [0]) hbound, dif_pos hbound, ?_, rest.drop src.length, ?_⟩
  · rw [List.mem_append]
    exact not_or.mpr ⟨hs, hsrc⟩
  · rw [elems_write, hstrlen, helems, List.take_left, List.drop_append]
    simp only [List.length_append, List.length_singleton, List.append_assoc, List.cons_append,
      List.nil_append, List.append_cancel_left_eq]
    rw [List.drop_eq_nil_of_le (by omega), List.nil_append,
      show s.length + (src.length + 1) - s.length = src.length + 1 by omega, List.drop_succ_cons]

theorem elems_strncpy (b : Buffer UInt8 n) (src : List UInt8) {k : ℕ} (h : k ≤ n) :
    (b.strncpy src k h).elems = (src.take k).rightpad k 0 ++ b.elems.drop k := by
  have hlength : ((src.take k).rightpad k 0).length = k := by
    simp only [List.length_rightpad, List.length_take]
    omega
  rw [strncpy, elems_write, List.take_zero, List.nil_append, Nat.zero_add, hlength]

/-- `strncpy` leaves what is behind the `k` bytes. -/
theorem getElem?_strncpy (b : Buffer UInt8 n) (src : List UInt8) {k i : ℕ} (h : k ≤ n) (hi : k ≤ i) :
    (b.strncpy src k h).elems[i]? = b.elems[i]? := by
  have hlength : ((src.take k).rightpad k 0).length = k := by
    simp only [List.length_rightpad, List.length_take]
    omega
  rw [elems_strncpy, List.getElem?_append_right (by omega), hlength, List.getElem?_drop]
  congr 1
  omega

/-- In front of a NUL, `strncpy` leaves the first `k` bytes of its source. -/
theorem holds_strncpy (b : Buffer UInt8 n) {src : List UInt8} {k : ℕ} (h : k ≤ n) (hsrc : 0 ∉ src)
    (hnul : b.elems[k]? = some 0) : (b.strncpy src k h).Holds (src.take k) := by
  refine ⟨fun hmem => hsrc (List.mem_of_mem_take hmem), ?_⟩
  rw [elems_strncpy, List.rightpad, List.append_assoc]
  cases hpad : k - (src.take k).length with
  | zero =>
    have hdrop : b.elems.drop k = 0 :: b.elems.drop (k + 1) := by
      rw [List.drop_eq_getElem?_toList_append, hnul]
      rfl
    exact ⟨b.elems.drop (k + 1), by rw [List.replicate_zero, List.nil_append, hdrop]⟩
  | succ pad =>
    exact ⟨List.replicate pad 0 ++ b.elems.drop k, by rw [List.replicate_succ, List.cons_append]⟩

end Buffer

end LinuxFileManager.Lib
