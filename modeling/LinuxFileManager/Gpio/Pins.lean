import LinuxFileManager.Lib.Buffer
import LinuxFileManager.Lib.Shift
import LinuxFileManager.Log.Event

/-!
# GPIO pins over sysfs

Model of `src/gpio.c`. What the kernel answers to the calls of `sysfs_write` and
`sysfs_read` is an argument, and each function returns the calls that it has
made, in their order, with the answers to them. `Sysfs.apply` is what a call does
to the pins that are exported.

`gpio_initialized[GPIO_MAX_PINS]` keeps all its slots; `tracked` is the list of
the pins in the first `gpio_init_count` of them.

Results:

* `gpioInit_move`: what `gpio_init` returns and does to the array.
* `cleanupLoop_spec`: the calls of `gpio_uninit` that `gpio_cleanup` makes.
-/

namespace LinuxFileManager.Gpio

open Lib Log

/-! ## sysfs -/

def gpioDirIn : Int32 := 0
def gpioDirOut : Int32 := 1
def gpioLow : Int32 := 0
def gpioHigh : Int32 := 1

/-- `GPIO_MAX_PINS`. -/
def gpioMaxPins : ℕ := 16

/-- `EBUSY`. -/
def ebusy : ℕ := 16

/-- `sizeof(num_str)`. -/
def numStrSize : ℕ := 8

/-- `sizeof(verify)`, and of `buf` in `gpio_get`. -/
def verifySize : ℕ := 8

/-- `gpio_to_sysfs` (`src/gpio.c` lines 55–57). -/
def gpioToSysfs (pin : Int32) : Int32 := pin

/-- `snprintf(num_str, sizeof(num_str), "%d", sysfs_pin)`. -/
def numStr (pin : Int32) : List Char := (formatInt (gpioToSysfs pin).toInt).take (numStrSize - 1)

/-- The files of sysfs that the module opens: `GPIO_EXPORT_PATH`,
    `GPIO_UNEXPORT_PATH`, `GPIO_DIRECTION_PATH` and `GPIO_VALUE_PATH`. -/
inductive SysfsPath where
  | exportPath
  | unexportPath
  | directionPath (sysfsPin : Int32)
  | valuePath (sysfsPin : Int32)
  deriving DecidableEq

/-- What `open` and `write` answer: one of them fails, with the `errno` that the
    caller of `sysfs_write` finds, or both succeed. -/
inductive WriteAnswer where
  | fails (errno : ℕ)
  | accepted
  deriving DecidableEq

/-- What `open` and `read` answer: one of them fails, or `read` returns bytes. -/
inductive ReadAnswer where
  | fails
  | reads (bytes : List UInt8)
  deriving DecidableEq

inductive SysfsCall where
  | write (path : SysfsPath) (value : List Char) (answer : WriteAnswer)
  | read (path : SysfsPath) (answer : ReadAnswer)
  deriving DecidableEq

/-- The value of `sysfs_write`. -/
def WriteAnswer.ret : WriteAnswer → ℤ
  | .fails _ => -1
  | .accepted => 0

/-- `sysfs_read(path, buf, sizeof(buf))`: its value, and the buffer behind it. -/
def sysfsRead (answer : ReadAnswer) (buf : Buffer UInt8 verifySize) : ℤ × Buffer UInt8 verifySize :=
  match answer with
  | .fails => (-1, buf)
  | .reads bytes =>
    (0, buf.write 0 (bytes.take (verifySize - 1) ++ [0]) (by
      simp only [List.length_append, List.length_take, List.length_singleton, verifySize]; omega))

/-- `buf[0] == '1'`. -/
def isOne (buf : Buffer UInt8 verifySize) : Bool := buf.elems.head? = some 0x31

/-- `gpio_get` (`src/gpio.c` lines 208–218), on the uninitialised `buf`. -/
def gpioGet (buf : Buffer UInt8 verifySize) (answer : ReadAnswer) : Int32 :=
  let (ret, buf) := sysfsRead answer buf
  if ret < 0 then -1 else if isOne buf then gpioHigh else gpioLow

/-- `"%d\n"` of `1` or `0`. -/
def levelStr (high : Bool) : List Char := if high then "1\n".toList else "0\n".toList

/-- Who a pin is exported by: somebody else, or `gpio_init`. -/
inductive Exporter where
  | other
  | gpioInit
  deriving DecidableEq

/-- The pins that are exported, by the numbers that are written to `export`. -/
abbrev Sysfs := List Char → Option Exporter

/-- What a call does to the exported pins. A pin that is exported stays with whom
    it is exported by. -/
def Sysfs.apply (k : Sysfs) : SysfsCall → Sysfs
  | .write .exportPath num .accepted => if k num = none then Function.update k num (some .gpioInit) else k
  | .write .unexportPath num .accepted => Function.update k num none
  | _ => k

def Sysfs.applyAll (k : Sysfs) (calls : List SysfsCall) : Sysfs := calls.foldl Sysfs.apply k

/-! ## The array of the pins -/

/-- `gpio_initialized` and `gpio_init_count`. -/
structure Pins where
  initialized : List Int32
  initCount : ℕ
  length_initialized : initialized.length = gpioMaxPins
  initCount_le : initCount ≤ gpioMaxPins

namespace Pins

/-- As the program starts with, and as `gpio_cleanup` leaves them. -/
def zero : Pins := ⟨List.replicate gpioMaxPins 0, 0, List.length_replicate, Nat.zero_le _⟩

/-- `gpio_initialized[0..gpio_init_count)`. -/
def tracked (s : Pins) : List Int32 := s.initialized.take s.initCount

/-- `for (i = 0; i < gpio_init_count; i++) if (gpio_initialized[i] == pin) ...`. -/
def find (s : Pins) (pin : Int32) : Option ℕ := s.tracked.findIdx? fun p => p == pin

/-- `if (gpio_init_count < GPIO_MAX_PINS) gpio_initialized[gpio_init_count++] = pin;`
    (lines 173–175). -/
def record (s : Pins) (pin : Int32) : Pins :=
  if h : s.initCount < gpioMaxPins then
    { initialized := s.initialized.set s.initCount pin
      initCount := s.initCount + 1
      length_initialized := by rw [List.length_set, s.length_initialized]
      initCount_le := h }
  else s

/-- The loop that removes a pin (lines 243–252). -/
def remove (s : Pins) (pin : Int32) : Pins :=
  match s.find pin with
  | some i =>
    { initialized := shiftDown s.initialized i (s.initCount - 1 - i)
      initCount := s.initCount - 1
      length_initialized := by rw [length_shiftDown, s.length_initialized]
      initCount_le := (Nat.sub_le _ _).trans s.initCount_le }
  | none => s

end Pins

/-! ## The functions -/

/-- What a function returns, leaves in the array and has called. -/
structure Returned where
  ret : ℤ
  pins : Pins
  calls : List SysfsCall

/-- The answers to one call of `gpio_init`; those to calls that are not made are
    not used. -/
structure InitAnswers where
  export' : WriteAnswer
  direction : WriteAnswer
  /-- The write of `"0\n"`. -/
  clear : WriteAnswer
  set : WriteAnswer
  firstRead : ReadAnswer
  rewrite : WriteAnswer
  secondRead : ReadAnswer
  /-- What `verify` holds before anything is read into it. -/
  verify : Buffer UInt8 verifySize

/-- `sysfs_write(GPIO_EXPORT_PATH, num_str) < 0` and `errno != EBUSY`. -/
def InitAnswers.refused (ans : InitAnswers) : Bool :=
  match ans.export' with
  | .fails errno => errno ≠ ebusy
  | .accepted => false

/-- The initial value (lines 130–164): the calls, and whether `actual` is `target`
    in the end. -/
def initOutput (pin : Int32) (target : Bool) (ans : InitAnswers) : List SysfsCall × Bool :=
  let path := SysfsPath.valuePath (gpioToSysfs pin)
  let calls : List SysfsCall :=
    [.write path "0\n".toList ans.clear, .write path (levelStr target) ans.set, .read path ans.firstRead]
  let verify := (sysfsRead ans.firstRead ans.verify).2
  if isOne verify ≠ target then
    let verify := (sysfsRead ans.secondRead verify).2
    (calls ++ [.write path (levelStr target) ans.rewrite, .read path ans.secondRead],
      isOne verify = target)
  else (calls, true)

/-- `gpio_init` behind the export (lines 121–169): the calls, and whether it goes on. -/
def configure (pin direction initialValue : Int32) (ans : InitAnswers) : List SysfsCall × Bool :=
  let value := if direction = gpioDirOut then "out\n".toList else "in\n".toList
  let call := SysfsCall.write (.directionPath (gpioToSysfs pin)) value ans.direction
  if ans.direction.ret < 0 then ([call], false)
  else if direction = gpioDirOut then
    let output := initOutput pin (initialValue = gpioHigh) ans
    (call :: output.1, output.2)
  else ([call], true)

/-- `gpio_init` (`src/gpio.c` lines 96–180). -/
def gpioInit (s : Pins) (pin direction initialValue : Int32) (ans : InitAnswers) : Returned :=
  if (s.find pin).isSome then ⟨-1, s, []⟩
  else
    let call := SysfsCall.write .exportPath (numStr pin) ans.export'
    if ans.refused then ⟨-1, s, [call]⟩
    else
      let (calls, ok) := configure pin direction initialValue ans
      if ok then ⟨0, s.record pin, call :: calls⟩ else ⟨-1, s, call :: calls⟩

/-- The answers to one call of `gpio_uninit`. -/
structure UninitAnswers where
  value : WriteAnswer
  unexport : WriteAnswer

/-- `gpio_uninit` (`src/gpio.c` lines 228–255). -/
def gpioUninit (s : Pins) (pin : Int32) (ans : UninitAnswers) : Returned :=
  ⟨ans.unexport.ret, s.remove pin,
    [.write (.valuePath (gpioToSysfs pin)) "0".toList ans.value,
      .write .unexportPath (numStr pin) ans.unexport]⟩

/-- The answers to one call of `gpio_set`. -/
structure SetAnswers where
  write : WriteAnswer
  read : ReadAnswer
  /-- What `verify` holds before anything is read into it. -/
  verify : Buffer UInt8 verifySize

/-- `gpio_set` (`src/gpio.c` lines 182–205): its value and its calls. -/
def gpioSet (pin value : Int32) (ans : SetAnswers) : ℤ × List SysfsCall :=
  let path := SysfsPath.valuePath (gpioToSysfs pin)
  let call := SysfsCall.write path (levelStr (value = gpioHigh)) ans.write
  if ans.write.ret < 0 then (-1, [call])
  else
    let calls := [call, .read path ans.read]
    let (ret, verify) := sysfsRead ans.read ans.verify
    if ret = 0 then if isOne verify ≠ decide (value = gpioHigh) then (-1, calls) else (0, calls)
    else (0, calls)

/-- What `gpio_cleanup` leaves in the array, the pins that it has called
    `gpio_uninit` for, in their order, and the calls that these have made. -/
structure Cleaned where
  pins : Pins
  uninits : List Int32
  calls : List SysfsCall

/-- The loop of `gpio_cleanup` (lines 268–270) from `i = n - 1` on; `answers i` are
    the answers in the pass for slot `i`. -/
def cleanupLoop (answers : ℕ → UninitAnswers) : ℕ → Pins → Cleaned
  | 0, s => ⟨s, [], []⟩
  | i + 1, s =>
    let pin := s.initialized.getD i 0
    let returned := gpioUninit s pin (answers i)
    let rest := cleanupLoop answers i returned.pins
    ⟨rest.pins, pin :: rest.uninits, returned.calls ++ rest.calls⟩

/-- `gpio_cleanup` (`src/gpio.c` lines 266–275). -/
def gpioCleanup (s : Pins) (answers : ℕ → UninitAnswers) : Cleaned :=
  { cleanupLoop answers s.initCount s with pins := .zero }

/-! ## What the functions do to the array -/

namespace Pins

variable {s : Pins} {pin : Int32}

theorem length_tracked (s : Pins) : s.tracked.length = s.initCount := by
  rw [tracked, List.length_take, s.length_initialized]
  exact min_eq_left s.initCount_le

@[simp] theorem tracked_zero : zero.tracked = [] := rfl

theorem find_isSome : (s.find pin).isSome = true ↔ pin ∈ s.tracked := by
  rw [find, List.findIdx?_isSome, List.any_eq_true]
  simp

theorem tracked_record (h : s.initCount < gpioMaxPins) (pin : Int32) :
    (s.record pin).tracked = s.tracked ++ [pin] := by
  have hlen : s.initCount < s.initialized.length := by rw [s.length_initialized]; exact h
  rw [record, dif_pos h, tracked, tracked, List.take_add_one, List.getElem?_set_self hlen,
    List.take_set_of_le le_rfl]
  rfl

theorem record_full (h : ¬ s.initCount < gpioMaxPins) (pin : Int32) : s.record pin = s := dif_neg h

theorem tracked_record_sublist (s : Pins) (pin : Int32) :
    (s.record pin).tracked.Sublist (s.tracked ++ [pin]) := by
  by_cases h : s.initCount < gpioMaxPins
  · rw [tracked_record h]
  · rw [record_full h]
    exact List.sublist_append_left ..

/-- The loop removes the pin, once. -/
theorem tracked_remove (s : Pins) (pin : Int32) : (s.remove pin).tracked = s.tracked.erase pin := by
  unfold remove
  split
  · rename_i i hfind
    have hi : i < s.tracked.length := (List.findIdx?_eq_some_iff_getElem.mp hfind).1
    rw [length_tracked] at hi
    rw [List.erase_eq_eraseIdx]
    have hidx : s.tracked.idxOf? pin = some i := hfind
    rw [hidx]
    exact take_shiftDown hi (s.initCount_le.trans_eq s.length_initialized.symm)
  · rename_i hfind
    have hnot : pin ∉ s.tracked := by
      rw [← find_isSome, hfind]
      exact Bool.false_ne_true
    exact (List.erase_of_not_mem hnot).symm

theorem initCount_remove (h : pin ∈ s.tracked) : (s.remove pin).initCount = s.initCount - 1 := by
  rw [← length_tracked, tracked_remove, List.length_erase_of_mem h, length_tracked]

end Pins

section

variable {s : Pins} {pin direction initialValue : Int32} {ans : InitAnswers}

/-- The ways through `gpio_init`. -/
inductive InitMove (s : Pins) (pin direction initialValue : Int32) (ans : InitAnswers) :
    Returned → Prop where
  | known (hpin : pin ∈ s.tracked) : InitMove s pin direction initialValue ans ⟨-1, s, []⟩
  | refused (hpin : pin ∉ s.tracked) (hans : ans.refused = true) :
      InitMove s pin direction initialValue ans ⟨-1, s, [.write .exportPath (numStr pin) ans.export']⟩
  | fails (hpin : pin ∉ s.tracked) (hans : ans.refused = false)
      (hok : (configure pin direction initialValue ans).2 = false) :
      InitMove s pin direction initialValue ans
        ⟨-1, s,
          .write .exportPath (numStr pin) ans.export' :: (configure pin direction initialValue ans).1⟩
  | succeeds (hpin : pin ∉ s.tracked) (hans : ans.refused = false)
      (hok : (configure pin direction initialValue ans).2 = true) :
      InitMove s pin direction initialValue ans
        ⟨0, s.record pin,
          .write .exportPath (numStr pin) ans.export' :: (configure pin direction initialValue ans).1⟩

theorem gpioInit_move (s : Pins) (pin direction initialValue : Int32) (ans : InitAnswers) :
    InitMove s pin direction initialValue ans (gpioInit s pin direction initialValue ans) := by
  unfold gpioInit
  split_ifs with hfind hans
  · exact .known (Pins.find_isSome.mp hfind)
  · exact .refused (fun hmem => hfind (Pins.find_isSome.mpr hmem)) hans
  · have hpin : pin ∉ s.tracked := fun hmem => hfind (Pins.find_isSome.mpr hmem)
    rw [Bool.not_eq_true] at hans
    dsimp only
    split_ifs with hok
    · exact .succeeds hpin hans hok
    · exact .fails hpin hans (Bool.not_eq_true _ ▸ hok)

end

/-- `isOne(verify)` behind the first read. -/
def InitAnswers.firstLevel (ans : InitAnswers) : Bool := isOne (sysfsRead ans.firstRead ans.verify).2

/-- `isOne(verify)` behind the second read. -/
def InitAnswers.secondLevel (ans : InitAnswers) : Bool :=
  isOne (sysfsRead ans.secondRead (sysfsRead ans.firstRead ans.verify).2).2

/-- The direction is accepted and, in output mode, `verify` shows the initial value
    behind one of the two reads. -/
def InitAnswers.Configures (ans : InitAnswers) (direction initialValue : Int32) : Prop :=
  ans.direction = .accepted ∧
    (direction = gpioDirOut →
      ans.firstLevel = decide (initialValue = gpioHigh) ∨
        ans.secondLevel = decide (initialValue = gpioHigh))

instance (ans : InitAnswers) (direction initialValue : Int32) :
    Decidable (ans.Configures direction initialValue) := inferInstanceAs (Decidable (_ ∧ _))

theorem WriteAnswer.ret_neg {answer : WriteAnswer} : answer.ret < 0 ↔ answer ≠ .accepted := by
  cases answer <;> simp [WriteAnswer.ret]

theorem initOutput_ok {pin : Int32} {target : Bool} {ans : InitAnswers} :
    (initOutput pin target ans).2 = true ↔ ans.firstLevel = target ∨ ans.secondLevel = target := by
  unfold initOutput
  dsimp only
  split_ifs with hfirst
  · show decide (ans.secondLevel = target) = true ↔ _
    rw [decide_eq_true_eq]
    exact (or_iff_right hfirst).symm
  · exact ⟨fun _ => .inl (not_not.mp hfirst), fun _ => rfl⟩

theorem configure_ok {pin direction initialValue : Int32} {ans : InitAnswers} :
    (configure pin direction initialValue ans).2 = true ↔ ans.Configures direction initialValue := by
  unfold configure InitAnswers.Configures
  dsimp only
  split_ifs with hret hout
  · have hans := WriteAnswer.ret_neg.mp hret
    exact ⟨nofun, fun h => absurd h.1 hans⟩
  · have hans : ans.direction = .accepted := not_not.mp (mt WriteAnswer.ret_neg.mpr hret)
    rw [initOutput_ok]
    exact ⟨fun h => ⟨hans, fun _ => h⟩, fun h => h.2 hout⟩
  · have hans : ans.direction = .accepted := not_not.mp (mt WriteAnswer.ret_neg.mpr hret)
    exact ⟨fun _ => ⟨hans, fun h => absurd h hout⟩, fun _ => rfl⟩

theorem not_configures {pin direction initialValue : Int32} {ans : InitAnswers}
    (hok : (configure pin direction initialValue ans).2 = false) :
    ¬ ans.Configures direction initialValue := by
  rw [← configure_ok, hok]
  exact Bool.false_ne_true

/-- The file that a call is for. -/
def SysfsCall.path : SysfsCall → SysfsPath
  | .write path _ _ => path
  | .read path _ => path

/-- Behind the export `gpio_init` works on the files of the pin. -/
theorem path_configure {pin direction initialValue : Int32} {ans : InitAnswers} {call : SysfsCall}
    (h : call ∈ (configure pin direction initialValue ans).1) :
    call.path = .directionPath (gpioToSysfs pin) ∨ call.path = .valuePath (gpioToSysfs pin) := by
  have houtput :
      ∀ target, ∀ c ∈ (initOutput pin target ans).1, c.path = .valuePath (gpioToSysfs pin) := by
    intro target c hc
    unfold initOutput at hc
    dsimp only at hc
    split_ifs at hc <;> simp only [List.mem_append, List.mem_cons, List.not_mem_nil, or_false] at hc
    · rcases hc with (rfl | rfl | rfl) | rfl | rfl <;> rfl
    · rcases hc with rfl | rfl | rfl <;> rfl
  unfold configure at h
  dsimp only at h
  generalize (if direction = gpioDirOut then "out\n".toList else "in\n".toList) = value at h
  split_ifs at h
  · exact .inl (List.mem_singleton.mp h ▸ rfl)
  · rcases List.mem_cons.mp h with rfl | hmem
    · exact .inl rfl
    · exact .inr (houtput _ _ hmem)
  · exact .inl (List.mem_singleton.mp h ▸ rfl)

/-! ## The exported pins -/

theorem Sysfs.applyAll_append (k : Sysfs) (calls calls' : List SysfsCall) :
    k.applyAll (calls ++ calls') = (k.applyAll calls).applyAll calls' := List.foldl_append

/-- Other calls leave the exported pins as they are. -/
theorem Sysfs.applyAll_of_path {calls : List SysfsCall} (k : Sysfs)
    (h : ∀ c ∈ calls, c.path ≠ .exportPath ∧ c.path ≠ .unexportPath) : k.applyAll calls = k := by
  induction calls with
  | nil => rfl
  | cons c calls ih =>
    have hc : k.apply c = k := by
      have hpath := h c List.mem_cons_self
      unfold Sysfs.apply
      split
      · exact absurd rfl hpath.1
      · exact absurd rfl hpath.2
      · rfl
    show (k.apply c).applyAll calls = k
    rw [hc]
    exact ih fun c' hc' => h c' (List.mem_cons_of_mem c hc')

/-- What `gpio_init` does to the exported pins is what its export does. -/
theorem Sysfs.applyAll_configure (k : Sysfs) (call : SysfsCall) (pin direction initialValue : Int32)
    (ans : InitAnswers) :
    k.applyAll (call :: (configure pin direction initialValue ans).1) = k.apply call := by
  refine Sysfs.applyAll_of_path (k.apply call) fun c hc => ?_
  rcases path_configure hc with hpath | hpath <;> rw [hpath] <;> exact ⟨nofun, nofun⟩

/-- `gpio_uninit` releases the pin when its write to `unexport` succeeds. -/
theorem Sysfs.applyAll_uninit (k : Sysfs) (s : Pins) (pin : Int32) (ans : UninitAnswers) :
    k.applyAll (gpioUninit s pin ans).calls =
      if ans.unexport = .accepted then Function.update k (numStr pin) none else k := by
  show k.apply (.write .unexportPath (numStr pin) ans.unexport) = _
  cases ans.unexport <;> rfl

/-! ## `gpio_cleanup` -/

/-- The calls that `gpio_uninit` makes for the pins, with the answers of the passes
    from slot `pins.length - 1` down. -/
def uninitCalls (answers : ℕ → UninitAnswers) : List Int32 → List SysfsCall
  | [] => []
  | pin :: pins =>
    [.write (.valuePath (gpioToSysfs pin)) "0".toList (answers pins.length).value,
      .write .unexportPath (numStr pin) (answers pins.length).unexport] ++ uninitCalls answers pins

/-- Unexport writes that succeed release the pins. -/
theorem Sysfs.applyAll_uninitCalls {answers : ℕ → UninitAnswers}
    (h : ∀ i, (answers i).unexport = .accepted) (k : Sysfs) (pins : List Int32) (num : List Char) :
    k.applyAll (uninitCalls answers pins) num = if num ∈ pins.map numStr then none else k num := by
  induction pins generalizing k with
  | nil => rfl
  | cons pin pins ih =>
    rw [uninitCalls, Sysfs.applyAll_append, ih]
    show (if _ then none else (k.apply (.write .unexportPath (numStr pin) _)) num) = _
    rw [h]
    show (if _ then none else Function.update k (numStr pin) none num) = _
    by_cases hnum : num = numStr pin
    · rw [hnum, Function.update_self, ite_self, if_pos (List.mem_map_of_mem List.mem_cons_self)]
    · rw [Function.update_of_ne hnum]
      simp only [List.map_cons, List.mem_cons, hnum, false_or]

/-- When the pins are distinct, the loop calls `gpio_uninit` for each of them, from
    the last to the first: the call for the last one removes it and leaves the rest. -/
theorem cleanupLoop_spec (answers : ℕ → UninitAnswers) {n : ℕ} {s : Pins} (hn : s.initCount = n)
    (hnodup : s.tracked.Nodup) :
    (cleanupLoop answers n s).uninits = s.tracked.reverse ∧
      (cleanupLoop answers n s).calls = uninitCalls answers s.tracked.reverse ∧
      (cleanupLoop answers n s).pins.tracked = [] := by
  induction n generalizing s with
  | zero =>
    have hnil : s.tracked = [] := List.eq_nil_of_length_eq_zero (s.length_tracked.trans hn)
    rw [hnil]
    exact ⟨rfl, rfl, hnil⟩
  | succ n ih =>
    obtain ⟨pins, pin, hlast⟩ : ∃ pins pin, s.tracked = pins ++ [pin] := by
      rcases List.eq_nil_or_concat s.tracked with hnil | ⟨pins, pin, hlast⟩
      · have hlen := s.length_tracked
        rw [hnil, hn] at hlen
        cases hlen
      · exact ⟨pins, pin, hlast.trans List.concat_eq_append⟩
    have hlen : pins.length = n := by
      have hcount := s.length_tracked
      rw [hlast, hn, List.length_append, List.length_singleton] at hcount
      omega
    have hpin : s.initialized.getD n 0 = pin := by
      have hget : s.tracked[n]? = some pin := by rw [hlast, ← hlen, List.getElem?_concat_length]
      rw [Pins.tracked, List.getElem?_take_of_lt (by omega)] at hget
      rw [List.getD_eq_getElem?_getD, hget, Option.getD_some]
    rw [hlast, List.nodup_append] at hnodup
    have hnot : pin ∉ pins := fun hmem => hnodup.2.2 pin hmem pin List.mem_cons_self rfl
    have hmem : pin ∈ s.tracked := by rw [hlast]; exact List.mem_concat_self
    have hrest : (s.remove pin).tracked = pins := by
      rw [Pins.tracked_remove, hlast, List.erase_append_right _ hnot, List.erase_cons_head,
        List.append_nil]
    have hcount : (s.remove pin).initCount = n := by
      rw [Pins.initCount_remove hmem, hn, Nat.add_sub_cancel]
    obtain ⟨huninits, hcalls, hpins⟩ := ih hcount (hrest ▸ hnodup.1)
    rw [hrest] at huninits hcalls
    have hrev : (pins ++ [pin]).reverse = pin :: pins.reverse := List.reverse_concat ..
    rw [hlast, hrev, cleanupLoop, hpin]
    refine ⟨congrArg (pin :: ·) huninits, ?_, hpins⟩
    rw [uninitCalls, List.length_reverse, hlen, ← hcalls]
    rfl

end LinuxFileManager.Gpio
