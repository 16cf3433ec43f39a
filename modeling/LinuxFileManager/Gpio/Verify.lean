import LinuxFileManager.Gpio.Pins

/-!
# What a successful write has verified

`gpio_init` reads the value file into `verify`, ignores what `sysfs_read` returns,
and compares the first byte: when the read fails, this is whatever `verify` held.
`gpio_set` returns `0` when its read fails. `gpio_get`, over the same
`sysfs_read`, returns `-1`.

Results:

* `verified_iff`: the two functions return `0` only behind a read that showed the
  level exactly when the read in question does not fail, or the function does not
  come to it, or `verify` did not look like the level by chance.
-/

namespace LinuxFileManager.Gpio

open Lib

/-! ## What a read shows -/

/-- The level that `gpio_get` takes these bytes for. -/
def showsHigh (bytes : List UInt8) : Bool := bytes.head? = some 0x31

theorem isOne_sysfsRead (bytes : List UInt8) (buf : Buffer UInt8 verifySize) :
    isOne (sysfsRead (.reads bytes) buf).2 = showsHigh bytes := by
  unfold isOne showsHigh
  cases bytes with
  | nil => rfl
  | cons b bytes => rfl

theorem gpioGet_reads (buf : Buffer UInt8 verifySize) (bytes : List UInt8) :
    gpioGet buf (.reads bytes) = if showsHigh bytes then gpioHigh else gpioLow := by
  rw [← isOne_sysfsRead bytes buf]
  rfl

theorem gpioGet_fails (buf : Buffer UInt8 verifySize) : gpioGet buf .fails = -1 := rfl

/-- Among the calls there is a read of the value file that succeeded and showed the
    level, and no write to this file behind it. -/
def Shown (calls : List SysfsCall) (pin : Int32) (high : Bool) : Prop :=
  ∃ before bytes after, calls = before ++ .read (.valuePath (gpioToSysfs pin)) (.reads bytes) :: after ∧
    (∀ value answer, SysfsCall.write (.valuePath (gpioToSysfs pin)) value answer ∉ after) ∧
    showsHigh bytes = high

section

variable {calls : List SysfsCall} {pin : Int32} {high : Bool}

theorem Shown.cons (h : Shown calls pin high) (call : SysfsCall) : Shown (call :: calls) pin high := by
  obtain ⟨before, bytes, after, rfl, hafter, hhigh⟩ := h
  exact ⟨call :: before, bytes, after, rfl, hafter, hhigh⟩

/-- The last call is a read that showed the level. -/
theorem shown_concat (calls : List SysfsCall) {bytes : List UInt8} (h : showsHigh bytes = high) :
    Shown (calls ++ [.read (.valuePath (gpioToSysfs pin)) (.reads bytes)]) pin high :=
  ⟨calls, bytes, [], rfl, by simp, h⟩

theorem not_shown (h : ∀ bytes, SysfsCall.read (.valuePath (gpioToSysfs pin)) (.reads bytes) ∉ calls) :
    ¬ Shown calls pin high := by
  rintro ⟨before, bytes, after, rfl, -, -⟩
  exact h bytes (List.mem_append_right _ List.mem_cons_self)

end

/-! ## `gpio_init` -/

section

variable {pin : Int32} {target : Bool} {ans : InitAnswers}

/-- A first read that fails shows what `verify` held before. -/
theorem firstLevel_of_fails (h : ans.firstRead = .fails) : ans.firstLevel = isOne ans.verify := by
  rw [InitAnswers.firstLevel, h]
  rfl

/-- A second read that fails shows the first level again. -/
theorem secondLevel_of_fails (h : ans.secondRead = .fails) : ans.secondLevel = ans.firstLevel := by
  rw [InitAnswers.secondLevel, h]
  rfl

/-- The first read settles it, or there is a second one. -/
theorem initOutput_eq (pin : Int32) (target : Bool) (ans : InitAnswers) :
    initOutput pin target ans =
      let path := SysfsPath.valuePath (gpioToSysfs pin)
      let calls : List SysfsCall := [.write path "0\n".toList ans.clear,
        .write path (levelStr target) ans.set, .read path ans.firstRead]
      if ans.firstLevel ≠ target then
        (calls ++ [.write path (levelStr target) ans.rewrite, .read path ans.secondRead],
          decide (ans.secondLevel = target))
      else (calls, true) := rfl

theorem initOutput_shown (hok : (initOutput pin target ans).2 = true)
    (h : ans.firstRead ≠ .fails ∨ isOne ans.verify ≠ target) :
    Shown (initOutput pin target ans).1 pin target := by
  rw [initOutput_eq] at hok ⊢
  dsimp only at hok ⊢
  split_ifs at hok ⊢ with hfirst
  · have hsecond : ans.secondLevel = target := of_decide_eq_true hok
    cases hread : ans.secondRead with
    | fails =>
      rw [secondLevel_of_fails hread] at hsecond
      exact absurd hsecond hfirst
    | reads bytes =>
      rw [InitAnswers.secondLevel, hread, isOne_sysfsRead] at hsecond
      exact shown_concat (_ :: _ :: _ :: [_]) hsecond
  · rw [not_not] at hfirst
    cases hread : ans.firstRead with
    | fails =>
      rw [firstLevel_of_fails hread] at hfirst
      exact (h.elim (absurd hread) (absurd hfirst))
    | reads bytes =>
      rw [InitAnswers.firstLevel, hread, isOne_sysfsRead] at hfirst
      exact shown_concat [_, _] hfirst

/-- When the first read fails and `verify` looks like the level, nothing has been
    read, and it counts as success. -/
theorem initOutput_stale (hread : ans.firstRead = .fails) (hverify : isOne ans.verify = target) :
    (initOutput pin target ans).2 = true ∧
      ∀ bytes, SysfsCall.read (.valuePath (gpioToSysfs pin)) (.reads bytes) ∉
        (initOutput pin target ans).1 := by
  have hfirst : ¬ ans.firstLevel ≠ target := not_not.mpr ((firstLevel_of_fails hread).trans hverify)
  rw [initOutput_eq]
  dsimp only
  rw [if_neg hfirst, hread]
  exact ⟨rfl, by simp⟩

/-- `gpio_init` in output mode. -/
theorem gpioInit_shown_iff (s : Pins) (pin initialValue : Int32) (ans : InitAnswers) :
    ((gpioInit s pin gpioDirOut initialValue ans).ret = 0 →
      Shown (gpioInit s pin gpioDirOut initialValue ans).calls pin (initialValue = gpioHigh)) ↔
    (pin ∈ s.tracked ∨ ans.refused = true ∨ ans.direction ≠ .accepted) ∨
      ans.firstRead ≠ .fails ∨ isOne ans.verify ≠ decide (initialValue = gpioHigh) := by
  have hmove := gpioInit_move s pin gpioDirOut initialValue ans
  generalize gpioInit s pin gpioDirOut initialValue ans = returned at hmove
  have hfailed : (-1 : ℤ) ≠ 0 := by decide
  cases hmove with
  | known hpin => exact ⟨fun _ => .inl (.inl hpin), fun _ hret => absurd hret hfailed⟩
  | refused hpin hans => exact ⟨fun _ => .inl (.inr (.inl hans)), fun _ hret => absurd hret hfailed⟩
  | fails hpin hans hok =>
    refine ⟨fun _ => ?_, fun _ hret => absurd hret hfailed⟩
    have hconf := not_configures hok
    by_contra hcond
    obtain ⟨hearly, hread⟩ := not_or.mp hcond
    obtain ⟨hfirst, hverify⟩ := not_or.mp hread
    rw [not_not] at hfirst hverify
    have hdirection : ans.direction = .accepted := not_not.mp fun h => hearly (.inr (.inr h))
    exact hconf ⟨hdirection, fun _ => .inl ((firstLevel_of_fails hfirst).trans hverify)⟩
  | succeeds hpin hans hok =>
    have hdirection := (configure_ok.mp hok).1
    have hret : ¬ ans.direction.ret < 0 := fun h => WriteAnswer.ret_neg.mp h hdirection
    rw [configure] at hok ⊢
    dsimp only at hok ⊢
    rw [if_neg hret, if_pos rfl] at hok ⊢
    dsimp only at hok ⊢
    constructor
    · intro h
      by_contra hcond
      obtain ⟨-, hread⟩ := not_or.mp hcond
      obtain ⟨hfirst, hverify⟩ := not_or.mp hread
      rw [not_not] at hfirst hverify
      refine not_shown (fun bytes hmem => ?_) (h rfl)
      simp only [List.mem_cons, reduceCtorEq, false_or] at hmem
      exact (initOutput_stale hfirst hverify).2 bytes hmem
    · rintro ((hmem | href | hne) | hread) -
      · exact absurd hmem hpin
      · exact absurd href (hans ▸ Bool.false_ne_true)
      · exact absurd hdirection hne
      · exact ((initOutput_shown hok hread).cons _).cons _

end

/-! ## `gpio_set` -/

theorem gpioSet_shown_iff (pin value : Int32) (ans : SetAnswers) :
    ((gpioSet pin value ans).1 = 0 → Shown (gpioSet pin value ans).2 pin (value = gpioHigh)) ↔
      ans.write ≠ .accepted ∨ ans.read ≠ .fails := by
  have hfailed : (-1 : ℤ) ≠ 0 := by decide
  rw [gpioSet]
  dsimp only
  by_cases hret : ans.write.ret < 0
  · rw [if_pos hret]
    exact ⟨fun _ => .inl (WriteAnswer.ret_neg.mp hret), fun _ h => absurd h hfailed⟩
  rw [if_neg hret]
  have hwrite : ans.write = .accepted := not_not.mp (mt WriteAnswer.ret_neg.mpr hret)
  cases hread : ans.read with
  | fails =>
    have hnot : (sysfsRead .fails ans.verify).1 ≠ 0 := hfailed
    rw [if_neg hnot]
    refine ⟨fun h => absurd (h rfl) (not_shown ?_), fun h => ?_⟩
    · simp
    · exact (h.elim (absurd hwrite) (absurd rfl))
  | reads bytes =>
    have hzero : (sysfsRead (.reads bytes) ans.verify).1 = 0 := rfl
    rw [if_pos hzero, isOne_sysfsRead]
    refine ⟨fun _ => .inr nofun, fun _ h => ?_⟩
    split_ifs at h ⊢ with hlevel
    · exact absurd h hfailed
    · exact shown_concat [_] (not_not.mp hlevel)

/-! ## Both -/

/-- A return value `0` means that the level has been read back exactly when, for
    `gpio_init`, it returns before it reads, or the first read succeeds, or what
    `verify` held is not the level; and, for `gpio_set`, the write fails or the read
    succeeds. -/
theorem verified_iff (s : Pins) (pin value : Int32) (ans : InitAnswers) (setAns : SetAnswers) :
    (((gpioInit s pin gpioDirOut value ans).ret = 0 →
        Shown (gpioInit s pin gpioDirOut value ans).calls pin (value = gpioHigh)) ↔
      (pin ∈ s.tracked ∨ ans.refused = true ∨ ans.direction ≠ .accepted) ∨
        ans.firstRead ≠ .fails ∨ isOne ans.verify ≠ decide (value = gpioHigh)) ∧
    (((gpioSet pin value setAns).1 = 0 →
        Shown (gpioSet pin value setAns).2 pin (value = gpioHigh)) ↔
      setAns.write ≠ .accepted ∨ setAns.read ≠ .fails) :=
  ⟨gpioInit_shown_iff s pin value ans, gpioSet_shown_iff pin value setAns⟩

/-- Both reads fail; `verify` holds zeros, which pass for the low level. -/
def staleAnswers : InitAnswers where
  export' := .accepted
  direction := .accepted
  clear := .fails 5
  set := .fails 5
  firstRead := .fails
  rewrite := .fails 5
  secondRead := .fails
  verify := .filled _ 0

theorem not_verified_stale :
    (¬ ∀ s pin value ans, (gpioInit s pin gpioDirOut value ans).ret = 0 →
      Shown (gpioInit s pin gpioDirOut value ans).calls pin (value = gpioHigh)) ∧
    ¬ ∀ pin value ans, (gpioSet pin value ans).1 = 0 →
      Shown (gpioSet pin value ans).2 pin (value = gpioHigh) := by
  refine ⟨fun h => ?_, fun h => ?_⟩
  · refine not_shown (fun bytes hmem => ?_) (h .zero 73 gpioLow staleAnswers rfl)
    have hcalls : (gpioInit .zero 73 gpioDirOut gpioLow staleAnswers).calls =
        [.write .exportPath (numStr 73) .accepted, .write (.directionPath 73) "out\n".toList .accepted,
          .write (.valuePath 73) "0\n".toList (.fails 5), .write (.valuePath 73) "0\n".toList (.fails 5),
          .read (.valuePath 73) .fails] := rfl
    rw [hcalls] at hmem
    simp at hmem
  · refine not_shown (fun bytes hmem => ?_) (h 73 gpioHigh ⟨.accepted, .fails, .filled _ 0⟩ rfl)
    have hcalls : (gpioSet 73 gpioHigh ⟨.accepted, .fails, .filled _ 0⟩).2 =
        [.write (.valuePath 73) "1\n".toList .accepted, .read (.valuePath 73) .fails] := rfl
    rw [hcalls] at hmem
    simp at hmem

end LinuxFileManager.Gpio
