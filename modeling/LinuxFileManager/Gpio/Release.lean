import LinuxFileManager.Gpio.Tracking

/-!
# Which exported pins are released

`gpio_init` exports a pin before anything else, and returns without a write to
`unexport` when a later step fails. It records the pin only while
`gpio_init_count < GPIO_MAX_PINS`, and succeeds also when the array is full.
`gpio_uninit` removes the pin from the array before it writes to `unexport`, and
does not put it back when this write fails. What is not in the array is never
released by `gpio_cleanup`.

Results:

* `released_iff_keeps`: the calls of a run leave nothing behind that
  `gpio_cleanup` does not release exactly when none of them is one of these three.
-/

namespace LinuxFileManager.Gpio

open Lib

namespace Board

/-! ## What is to be released -/

/-- A call of `gpio_init` that fails leaves no pin exported that was not before. -/
def CleanFailure (s : Board) : GpioCall → Prop
  | .init pin direction initialValue ans =>
    (gpioInit s.pins pin direction initialValue ans).ret ≠ 0 → ∀ num, s.sysfs num = none →
      s.sysfs.applyAll (gpioInit s.pins pin direction initialValue ans).calls num = none
  | .uninit _ _ => True

/-- When the writes to `unexport` succeed, `gpio_cleanup` leaves no pin exported that
    `gpio_init` has exported, and releases every pin that has been initialised and not
    been released since. -/
def Released (s : Board) : Prop :=
  ∀ answers : ℕ → UninitAnswers, (∀ i, (answers i).unexport = .accepted) →
    (∀ num, s.sysfs.applyAll (gpioCleanup s.pins answers).calls num ≠ some .gpioInit) ∧
      ∀ pin, s.held pin = true → pin ∈ (gpioCleanup s.pins answers).uninits ∧
        s.sysfs.applyAll (gpioCleanup s.pins answers).calls (numStr pin) = none

/-- The call is clean, and `gpio_cleanup` behind it releases everything. -/
def Releases (s : Board) (call : GpioCall) : Prop :=
  s.CleanFailure call ∧ ∀ s', s.step call = some s' → s'.Released

/-- `gpio_init` is refused before anything is exported; or it configures the pin, and
    there is a slot for it; or it does not, and the pin has not been exported by it.
    The write of `gpio_uninit` to `unexport` succeeds, or the pin is not tracked. -/
def Keeps (s : Board) : GpioCall → Prop
  | .init pin direction initialValue ans =>
    pin ∈ s.pins.tracked ∨ ans.refused = true ∨
      if ans.Configures direction initialValue then s.pins.initCount < gpioMaxPins
      else ans.export' = .accepted → s.sysfs (numStr pin) ≠ none
  | .uninit pin ans => ans.unexport = .accepted ∨ pin ∉ s.pins.tracked

/-! ## The array agrees with sysfs -/

/-- The tracked pins are the ones to be released, and those that `gpio_init` has
    exported are among them. -/
structure Kept (s : Board) : Prop where
  ordered : Ordered s
  held : ∀ pin, s.held pin = true ↔ pin ∈ s.pins.tracked
  exported : ∀ num, s.sysfs num = some .gpioInit → ∃ pin ∈ s.pins.tracked, numStr pin = num

theorem kept_start (others : List Char → Bool) : (start others).Kept := by
  refine ⟨⟨.nil, by simp [start]⟩, by simp [start], fun num hnum => ?_⟩
  rw [start] at hnum
  dsimp only at hnum
  split_ifs at hnum
  cases hnum

theorem Kept.released {s : Board} (h : s.Kept) : s.Released := by
  intro answers hans
  have hspec := cleanupLoop_spec answers rfl h.ordered.nodup
  have hafter (num : List Char) : s.sysfs.applyAll (gpioCleanup s.pins answers).calls num =
      if num ∈ s.pins.tracked.reverse.map numStr then none else s.sysfs num := by
    rw [← Sysfs.applyAll_uninitCalls hans, ← hspec.2.1]
    rfl
  refine ⟨fun num => ?_, fun pin hpin => ⟨?_, ?_⟩⟩
  · rw [hafter]
    split_ifs with hmem
    · exact nofun
    · intro hnum
      obtain ⟨pin, hpin, hpinNum⟩ := h.exported num hnum
      exact hmem (List.mem_map.mpr ⟨pin, List.mem_reverse.mpr hpin, hpinNum⟩)
  · have huninits : (gpioCleanup s.pins answers).uninits = s.pins.tracked.reverse := hspec.1
    rw [huninits, List.mem_reverse]
    exact (h.held pin).mp hpin
  · have hmem := List.mem_reverse.mpr ((h.held pin).mp hpin)
    rw [hafter, if_pos (List.mem_map_of_mem hmem)]

/-! ## One call -/

/-- A pin that has been initialised and is not tracked is not released. -/
theorem not_released {s : Board} (hordered : Ordered s) (pin : Int32) (hheld : s.held pin = true)
    (hpin : pin ∉ s.pins.tracked) : ¬ s.Released := by
  intro h
  have hmem := ((h (fun _ => ⟨.accepted, .accepted⟩) fun _ => rfl).2 pin hheld).1
  have huninits : (gpioCleanup s.pins fun _ => ⟨.accepted, .accepted⟩).uninits = s.pins.tracked.reverse :=
    (cleanupLoop_spec _ rfl hordered.nodup).1
  rw [huninits, List.mem_reverse] at hmem
  exact hpin hmem

section

variable {s : Board}

/-- The export of `gpio_init`, when it is what exports the pin. -/
theorem apply_export (k : Sysfs) (num : List Char) (answer : WriteAnswer) :
    k.apply (.write .exportPath num answer) =
      if answer = .accepted ∧ k num = none then Function.update k num (some .gpioInit) else k := by
  cases answer with
  | fails errno => rfl
  | accepted =>
    show (if k num = none then _ else _) = _
    simp only [true_and]

/-- A call of `gpio_init` that fails and has exported nothing leaves sysfs as it is. -/
theorem sysfs_of_failed {pin direction initialValue : Int32} {ans : InitAnswers}
    (hkeeps : s.Keeps (.init pin direction initialValue ans))
    (hret : (gpioInit s.pins pin direction initialValue ans).ret ≠ 0) :
    s.sysfs.applyAll (gpioInit s.pins pin direction initialValue ans).calls = s.sysfs := by
  have hmove := gpioInit_move s.pins pin direction initialValue ans
  generalize gpioInit s.pins pin direction initialValue ans = returned at hmove hret
  cases hmove with
  | known hpin => rfl
  | refused hpin hans =>
    have hnot : ans.export' ≠ .accepted := by
      intro heq
      rw [InitAnswers.refused, heq] at hans
      cases hans
    show s.sysfs.apply _ = s.sysfs
    rw [apply_export, if_neg fun hand => hnot hand.1]
  | fails hpin hans hok =>
    have hconf := not_configures hok
    have hbefore : ¬ (ans.export' = .accepted ∧ s.sysfs (numStr pin) = none) := by
      rcases hkeeps with hmem | href | hkeeps
      · exact absurd hmem hpin
      · exact absurd href (hans ▸ Bool.false_ne_true)
      · rw [if_neg hconf] at hkeeps
        exact fun hand => hkeeps hand.1 hand.2
    rw [Sysfs.applyAll_configure, apply_export, if_neg hbefore]
  | succeeds hpin hans hok => exact absurd rfl hret

theorem kept_init {s' : Board} {pin direction initialValue : Int32} {ans : InitAnswers} (h : s.Kept)
    (hkeeps : s.Keeps (.init pin direction initialValue ans))
    (hs : s.step (.init pin direction initialValue ans) = some s') : s'.Kept := by
  have hordered := h.ordered.step hs
  have hmove := gpioInit_move s.pins pin direction initialValue ans
  have hsysfs := sysfs_of_failed hkeeps
  rw [step] at hs
  generalize gpioInit s.pins pin direction initialValue ans = returned at hmove hs hsysfs
  cases hs
  have hfailed : (-1 : ℤ) ≠ 0 := by decide
  cases hmove with
  | known hpin => exact ⟨hordered, h.held, h.exported⟩
  | refused hpin hans => exact ⟨hordered, h.held, fun num hnum => h.exported num (hsysfs hfailed ▸ hnum)⟩
  | fails hpin hans hok =>
    exact ⟨hordered, h.held, fun num hnum => h.exported num (hsysfs hfailed ▸ hnum)⟩
  | succeeds hpin hans hok =>
    have hslot : s.pins.initCount < gpioMaxPins := by
      rcases hkeeps with hmem | href | hkeeps
      · exact absurd hmem hpin
      · exact absurd href (hans ▸ Bool.false_ne_true)
      · rwa [if_pos (configure_ok.mp hok)] at hkeeps
    have htracked := Pins.tracked_record hslot pin
    refine ⟨hordered, fun p => ?_, fun num hnum => ?_⟩
    · show Function.update s.held pin true p = true ↔ p ∈ (s.pins.record pin).tracked
      rw [htracked, List.mem_append, List.mem_singleton, ← h.held]
      by_cases hp : p = pin
      · simp [hp]
      · rw [Function.update_of_ne hp]
        exact (or_iff_left hp).symm
    · show ∃ p ∈ (s.pins.record pin).tracked, numStr p = num
      rw [htracked]
      by_cases heq : num = numStr pin
      · exact ⟨pin, List.mem_concat_self, heq.symm⟩
      · have hold : s.sysfs num = some .gpioInit := by
          rw [← hnum]
          show _ = s.sysfs.applyAll (_ :: _) num
          rw [Sysfs.applyAll_configure, apply_export]
          split_ifs
          · rw [Function.update_of_ne heq]
          · rfl
        obtain ⟨p, hp, hpnum⟩ := h.exported num hold
        exact ⟨p, List.mem_append_left _ hp, hpnum⟩

theorem kept_uninit {s' : Board} {pin : Int32} {ans : UninitAnswers} (h : s.Kept)
    (hkeeps : s.Keeps (.uninit pin ans)) (hs : s.step (.uninit pin ans) = some s') : s'.Kept := by
  have hordered := h.ordered.step hs
  have hsysfs := s.sysfs.applyAll_uninit s.pins pin ans
  have htracked := s.pins.tracked_remove pin
  rw [step] at hs
  cases hs
  by_cases hans : ans.unexport = .accepted
  · have hret : (gpioUninit s.pins pin ans).ret = 0 := by
      rw [gpioUninit, hans]
      rfl
    rw [if_pos hans] at hsysfs
    refine ⟨hordered, fun p => ?_, fun num hnum => ?_⟩
    · show (if _ then Function.update s.held pin false else s.held) p = true ↔
        p ∈ (s.pins.remove pin).tracked
      rw [if_pos hret, htracked, h.ordered.nodup.mem_erase_iff, ← h.held]
      by_cases hp : p = pin
      · simp [hp]
      · rw [Function.update_of_ne hp]
        exact (and_iff_right hp).symm
    · show ∃ p ∈ (s.pins.remove pin).tracked, numStr p = num
      dsimp only at hnum
      rw [hsysfs] at hnum
      have hne : num ≠ numStr pin := by
        rintro rfl
        rw [Function.update_self] at hnum
        cases hnum
      rw [Function.update_of_ne hne] at hnum
      obtain ⟨p, hp, hpnum⟩ := h.exported num hnum
      have hpin : p ≠ pin := by
        rintro rfl
        exact hne hpnum.symm
      rw [htracked]
      exact ⟨p, (List.mem_erase_of_ne hpin).mpr hp, hpnum⟩
  · -- the pin was not tracked: nothing changes
    have hret : (gpioUninit s.pins pin ans).ret ≠ 0 := (WriteAnswer.ret_neg.mpr hans).ne
    rw [List.erase_of_not_mem (hkeeps.resolve_left hans)] at htracked
    rw [if_neg hans] at hsysfs
    refine ⟨hordered, fun p => ?_, fun num hnum => ?_⟩
    · show (if _ then Function.update s.held pin false else s.held) p = true ↔
        p ∈ (s.pins.remove pin).tracked
      rw [if_neg hret, htracked, ← h.held]
    · show ∃ p ∈ (s.pins.remove pin).tracked, numStr p = num
      dsimp only at hnum
      rw [hsysfs] at hnum
      rw [htracked]
      exact h.exported num hnum

theorem Kept.step {s' : Board} {call : GpioCall} (h : s.Kept) (hkeeps : s.Keeps call)
    (hs : s.step call = some s') : s'.Kept := by
  cases call with
  | init pin direction initialValue ans => exact kept_init h hkeeps hs
  | uninit pin ans => exact kept_uninit h hkeeps hs

/-- A call of another kind leaves something behind at once. -/
theorem not_releases {call : GpioCall} (h : s.Kept) (hkeeps : ¬ s.Keeps call) : ¬ s.Releases call := by
  rintro ⟨hclean, hreleased⟩
  cases call with
  | init pin direction initialValue ans =>
    obtain ⟨hpin, hrest⟩ := not_or.mp hkeeps
    obtain ⟨hans, hcond⟩ := not_or.mp hrest
    rw [Bool.not_eq_true] at hans
    have hmove := gpioInit_move s.pins pin direction initialValue ans
    rw [CleanFailure] at hclean
    rw [step] at hreleased
    have hordered : ∀ s', s.step (.init pin direction initialValue ans) = some s' → Ordered s' :=
      fun s' => h.ordered.step
    rw [step] at hordered
    generalize gpioInit s.pins pin direction initialValue ans = returned
      at hmove hclean hreleased hordered
    cases hmove with
    | known hmem => exact hpin hmem
    | refused _ href => exact absurd href (hans ▸ Bool.false_ne_true)
    | fails _ _ hok =>
      have hconf := not_configures hok
      rw [if_neg hconf, Classical.not_imp, not_not] at hcond
      have hret : (-1 : ℤ) ≠ 0 := by decide
      have hnone := hclean hret (numStr pin) hcond.2
      rw [Sysfs.applyAll_configure, apply_export, if_pos hcond, Function.update_self] at hnone
      cases hnone
    | succeeds _ _ hok =>
      rw [if_pos (configure_ok.mp hok)] at hcond
      have hrecord := Pins.record_full hcond pin
      refine not_released (hordered _ rfl) pin ?_ ?_ (hreleased _ rfl)
      · exact Function.update_self ..
      · show pin ∉ (s.pins.record pin).tracked
        rwa [hrecord]
  | uninit pin ans =>
    obtain ⟨hans, hpin⟩ := not_or.mp hkeeps
    rw [not_not] at hpin
    have hret : ans.unexport.ret ≠ 0 := (WriteAnswer.ret_neg.mpr hans).ne
    have hs : s.step (.uninit pin ans) = some _ := rfl
    refine not_released (h.ordered.step hs) pin ?_ ?_ (hreleased _ hs)
    · show (if ans.unexport.ret = 0 then Function.update s.held pin false else s.held) pin = true
      rw [if_neg hret, h.held]
      exact hpin
    · show pin ∉ (s.pins.remove pin).tracked
      rw [Pins.tracked_remove]
      exact h.ordered.nodup.not_mem_erase

theorem keeps_iff_releases (h : s.Kept) (call : GpioCall) : s.Keeps call ↔ s.Releases call := by
  refine ⟨fun hkeeps => ⟨?_, fun s' hs => (h.step hkeeps hs).released⟩, fun hreleases => ?_⟩
  · cases call with
    | init pin direction initialValue ans =>
      intro hret num hnum
      rwa [sysfs_of_failed hkeeps hret]
    | uninit pin ans => trivial
  · by_contra hkeeps
    exact not_releases h hkeeps hreleases

end

/-! ## Runs -/

/-- In a run, behind each call `gpio_cleanup` releases everything that is to be
    released, and no call that fails leaves a pin exported, exactly when every call is
    of the kind of `Keeps`. -/
theorem released_iff_keeps (others : List Char → Bool) (calls : List GpioCall) :
    Every step Releases (start others) calls ↔ Every step Keeps (start others) calls :=
  (every_iff_of_good (J := Kept) (fun _ _ _ h hkeeps hs => h.step hkeeps hs)
    (fun _ call h => keeps_iff_releases h call) (kept_start others) calls).symm

/-- The write of the direction fails. -/
def directionFails : InitAnswers := { working true with direction := .fails 5 }

/-- PC9 is exported, and is not configured. -/
def leakyRun : List GpioCall := [.init 73 gpioDirOut gpioHigh directionFails]

theorem not_releases_leakyRun :
    ¬ ∀ others calls, Every step Releases (start others) calls := by
  intro h
  have hnone := (h (fun _ => false) leakyRun).1.1 (by decide) (numStr 73) rfl
  cases hnone

end Board

end LinuxFileManager.Gpio
