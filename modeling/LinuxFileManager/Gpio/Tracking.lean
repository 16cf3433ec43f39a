import LinuxFileManager.Gpio.Pins
import LinuxFileManager.Lib.System

/-!
# The order of the tracked pins

A run is a sequence of calls of `gpio_init` and `gpio_uninit`, with whatever
sysfs answers to each of them. The ghosts `held`, `clock` and `initTime` record
the pins that have been initialised and not released since, and when a pin was
last initialised. No function reads them.

Results:

* `gpioCleanup_reverse`: in every reachable state the tracked pins are distinct
  and stand in the order of their initialisation, and `gpio_cleanup` calls
  `gpio_uninit` for each of them once, from the last to the first.
-/

namespace LinuxFileManager.Gpio

open Lib

/-! ## Runs -/

/-- The statics of `gpio.c` and the exported pins. -/
structure Board where
  pins : Pins
  sysfs : Sysfs
  held : Int32 → Bool
  clock : ℕ
  initTime : Int32 → ℕ

inductive GpioCall where
  | init (pin direction initialValue : Int32) (ans : InitAnswers)
  | uninit (pin : Int32) (ans : UninitAnswers)

namespace Board

/-- The program has just started; `others` are the pins that others have exported. -/
def start (others : List Char → Bool) : Board :=
  ⟨.zero, fun num => if others num then some .other else none, fun _ => false, 0, fun _ => 0⟩

def step (s : Board) : GpioCall → Option Board
  | .init pin direction initialValue ans =>
    let returned := gpioInit s.pins pin direction initialValue ans
    let done := returned.ret = 0
    some {
      pins := returned.pins
      sysfs := s.sysfs.applyAll returned.calls
      held := if done then Function.update s.held pin true else s.held
      clock := s.clock + 1
      initTime := if done then Function.update s.initTime pin s.clock else s.initTime }
  | .uninit pin ans =>
    let returned := gpioUninit s.pins pin ans
    some { s with
      pins := returned.pins
      sysfs := s.sysfs.applyAll returned.calls
      held := if returned.ret = 0 then Function.update s.held pin false else s.held
      clock := s.clock + 1 }

end Board

/-! ## The order is kept -/

/-- The tracked pins have been initialised one after the other. -/
structure Ordered (s : Board) : Prop where
  order : s.pins.tracked.Pairwise fun p q => s.initTime p < s.initTime q
  past : ∀ p ∈ s.pins.tracked, s.initTime p < s.clock

theorem Ordered.nodup {s : Board} (h : Ordered s) : s.pins.tracked.Nodup :=
  h.order.imp fun hlt heq => (heq ▸ hlt).false

/-- A pin that is put behind the others now is the last one. -/
theorem Ordered.append {s : Board} (h : Ordered s) {pin : Int32} (hpin : pin ∉ s.pins.tracked) :
    (s.pins.tracked ++ [pin]).Pairwise fun p q =>
      Function.update s.initTime pin s.clock p < Function.update s.initTime pin s.clock q := by
  have htime : ∀ p ∈ s.pins.tracked, Function.update s.initTime pin s.clock p = s.initTime p :=
    fun p hp => Function.update_of_ne (ne_of_mem_of_not_mem hp hpin) ..
  refine List.pairwise_append.mpr ⟨?_, List.pairwise_singleton _ _, ?_⟩
  · refine h.order.imp_of_mem fun {p q} hp hq hlt => ?_
    rwa [htime p hp, htime q hq]
  · intro p hp q hq
    rw [List.mem_singleton.mp hq, htime p hp, Function.update_self]
    exact h.past p hp

theorem Ordered.step {s s' : Board} {call : GpioCall} (h : Ordered s) (hs : s.step call = some s') :
    Ordered s' := by
  cases call with
  | init pin direction initialValue ans =>
    have hmove := gpioInit_move s.pins pin direction initialValue ans
    rw [Board.step] at hs
    generalize gpioInit s.pins pin direction initialValue ans = returned at hmove hs
    have hkeep : Ordered { s with clock := s.clock + 1 } :=
      ⟨h.order, fun p hp => Nat.lt_succ_of_lt (h.past p hp)⟩
    cases hs
    cases hmove with
    | known hpin => exact ⟨hkeep.order, hkeep.past⟩
    | refused hpin hans => exact ⟨hkeep.order, hkeep.past⟩
    | fails hpin hans hok => exact ⟨hkeep.order, hkeep.past⟩
    | succeeds hpin hans hok =>
      have horder := h.append hpin
      have hpast : ∀ p ∈ s.pins.tracked ++ [pin],
          Function.update s.initTime pin s.clock p < s.clock + 1 := by
        intro p hp
        by_cases heq : p = pin
        · rw [heq, Function.update_self]
          exact Nat.lt_succ_self _
        · rw [Function.update_of_ne heq]
          have hmem : p ∈ s.pins.tracked := by
            simpa [heq] using hp
          exact Nat.lt_succ_of_lt (h.past p hmem)
      have hsub := s.pins.tracked_record_sublist pin
      exact ⟨horder.sublist hsub, fun p hp => hpast p (hsub.subset hp)⟩
  | uninit pin ans =>
    cases hs
    have hsub : (s.pins.remove pin).tracked.Sublist s.pins.tracked := by
      rw [Pins.tracked_remove]
      exact List.erase_sublist
    exact ⟨h.order.sublist hsub, fun p hp => Nat.lt_succ_of_lt (h.past p (hsub.subset hp))⟩

theorem ordered_of_reachable {others : List Char → Bool} {s : Board}
    (h : Reachable Board.step (.start others) s) : Ordered s :=
  h.inv (fun _ _ _ hs => hs.step) ⟨.nil, by simp [Board.start]⟩

/-! ## `gpio_cleanup` -/

/-- In every reachable state at most 16 pins are tracked; they are distinct and stand
    in the order of their initialisation. `gpio_cleanup` calls `gpio_uninit` for each
    of them once, in the reverse order, and leaves none. -/
theorem gpioCleanup_reverse {others : List Char → Bool} {s : Board}
    (h : Reachable Board.step (.start others) s) :
    (s.pins.initCount ≤ gpioMaxPins ∧ s.pins.tracked.length = s.pins.initCount ∧
      s.pins.tracked.Nodup ∧
      s.pins.tracked.Pairwise (fun p q => s.initTime p < s.initTime q)) ∧
    ∀ answers, (gpioCleanup s.pins answers).uninits = s.pins.tracked.reverse ∧
      (gpioCleanup s.pins answers).pins.initCount = 0 := by
  have hordered := ordered_of_reachable h
  refine ⟨⟨s.pins.initCount_le, s.pins.length_tracked, hordered.nodup, hordered.order⟩, ?_⟩
  intro answers
  exact ⟨(cleanupLoop_spec answers rfl hordered.nodup).1, rfl⟩

/-- sysfs does what it is asked to do, and shows the level `high`. -/
def working (high : Bool) : InitAnswers where
  export' := .accepted
  direction := .accepted
  clear := .accepted
  set := .accepted
  firstRead := .reads [if high then 0x31 else 0x30, 0x0A]
  rewrite := .accepted
  secondRead := .reads [if high then 0x31 else 0x30, 0x0A]
  verify := .filled _ 0

/-- PC9 is made an output that is on, and PC6 an input. -/
def twoPins : List GpioCall :=
  [.init 73 gpioDirOut gpioHigh (working true), .init 70 gpioDirIn gpioLow (working true)]

theorem gpioCleanup_reverse_twoPins :
    ∃ s, exec Board.step (.start fun _ => false) twoPins = some s ∧ s.pins.tracked = [73, 70] ∧
      ∀ answers, (gpioCleanup s.pins answers).uninits = [70, 73] := by
  have hrun : ∃ s, exec Board.step (.start fun _ => false) twoPins = some s ∧
      s.pins.tracked = [73, 70] := ⟨_, rfl, rfl⟩
  obtain ⟨s, hrun, htracked⟩ := hrun
  refine ⟨s, hrun, htracked, fun answers => ?_⟩
  rw [((gpioCleanup_reverse ⟨twoPins, hrun⟩).2 answers).1, htracked]
  rfl

end LinuxFileManager.Gpio
