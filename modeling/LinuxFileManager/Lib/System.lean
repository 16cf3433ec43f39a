import Mathlib

/-!
# Transition systems

A system is a function `step : S → A → Option S`: what an action does to a
state, `none` when it is not enabled. Every choice that the environment or a
scheduler makes is part of the action, so a run is a list of actions.

* `exec`: the state a run leads to.
* `Along`: a property of every state that a run visits.
* `Every`: a property of every step that a run takes.
* `output`: what the steps of a run put out.

Results:

* `exec_inv`: an invariant that all good steps keep holds at the end of every
  run of good steps; `Reachable.inv` is the case where all steps are good.
* `Every.of_inv`: what an invariant promises of a step is true of every step.
* `output_append_pending`: if every step puts out what was pending or has come
  in, so does every run.
* `exists_run`: steps that lower a measure can be taken until it is zero.
* `exec_refines`: if each step is a run of another system, so is each run;
  `exec_map` is the case of a system with ghosts.
* `every_iff_of_inv`, `every_iff_of_good`: two conditions that agree on the steps
  from good states agree on runs.
* `along_iff_every`: if the good steps keep a property and every other step
  breaks it, then the property holds along a run if and only if all its steps
  are good; `along_iff_every_of` is the same for the runs that an environment
  allows.
-/

namespace LinuxFileManager.Lib

section

variable {S A : Type} (step : S → A → Option S)

/-! ## Runs -/

/-- The state that the actions lead to, `none` when one of them is not enabled. -/
def exec : S → List A → Option S
  | s, [] => some s
  | s, a :: as => (step s a).bind fun s' => exec s' as

/-- `s` is reached from `s₀`. -/
def Reachable (s₀ s : S) : Prop := ∃ as, exec step s₀ as = some s

/-- `P` holds in every state on the way, the first and the last included. -/
def Along (P : S → Prop) : S → List A → Prop
  | s, [] => P s
  | s, a :: as => P s ∧ ∀ s', step s a = some s' → Along P s' as

/-- `good` holds of every step on the way. -/
def Every (good : S → A → Prop) : S → List A → Prop
  | _, [] => True
  | s, a :: as => good s a ∧ ∀ s', step s a = some s' → Every good s' as

/-- What the steps of a run put out, where `out s a s'` is put out by one step. -/
def output {O : Type} (out : S → A → S → List O) : S → List A → List O
  | _, [] => []
  | s, a :: as =>
    match step s a with
    | some s' => out s a s' ++ output out s' as
    | none => []

instance decidableAlong (P : S → Prop) [DecidablePred P] : ∀ s as, Decidable (Along step P s as)
  | s, [] => inferInstanceAs (Decidable (P s))
  | s, a :: as =>
    match hs : step s a with
    | none => decidable_of_iff (P s) (by simp [Along, hs])
    | some s' =>
      have := decidableAlong P s' as
      decidable_of_iff (P s ∧ Along step P s' as) (by simp [Along, hs])

instance decidableEvery (good : S → A → Prop) [∀ s a, Decidable (good s a)] :
    ∀ s as, Decidable (Every step good s as)
  | _, [] => inferInstanceAs (Decidable True)
  | s, a :: as =>
    match hs : step s a with
    | none => decidable_of_iff (good s a) (by simp [Every, hs])
    | some s' =>
      have := decidableEvery good s' as
      decidable_of_iff (good s a ∧ Every step good s' as) (by simp [Every, hs])

end

variable {S A : Type} {step : S → A → Option S}

theorem exec_cons_eq_some {s s' : S} {a : A} {as : List A} :
    exec step s (a :: as) = some s' ↔ ∃ s₁, step s a = some s₁ ∧ exec step s₁ as = some s' := by
  rw [exec, Option.bind_eq_some_iff]

theorem Along.last {P : S → Prop} {s s' : S} {as : List A} (hP : Along step P s as)
    (h : exec step s as = some s') : P s' := by
  induction as generalizing s with
  | nil =>
    cases h
    exact hP
  | cons a as ih =>
    obtain ⟨s₁, hs, hrest⟩ := exec_cons_eq_some.mp h
    exact ih (hP.2 s₁ hs) hrest

theorem exec_append {s s' : S} {as bs : List A} (h : exec step s as = some s') :
    exec step s (as ++ bs) = exec step s' bs := by
  induction as generalizing s with
  | nil =>
    cases h
    rfl
  | cons a as ih =>
    obtain ⟨s₁, hs, hrest⟩ := exec_cons_eq_some.mp h
    rw [List.cons_append, exec, hs, Option.bind_some, ih hrest]

theorem output_append {O : Type} {out : S → A → S → List O} {s s' : S} {as bs : List A}
    (h : exec step s as = some s') :
    output step out s (as ++ bs) = output step out s as ++ output step out s' bs := by
  induction as generalizing s with
  | nil =>
    cases h
    rfl
  | cons a as ih =>
    obtain ⟨s₁, hs, hrest⟩ := exec_cons_eq_some.mp h
    simp only [List.cons_append, output, hs, ih hrest, List.append_assoc]

theorem Every.true (s : S) (as : List A) : Every step (fun _ _ => True) s as := by
  induction as generalizing s with
  | nil => trivial
  | cons a as ih => exact ⟨trivial, fun s₁ _ => ih s₁⟩

theorem Every.of_forall {good : S → A → Prop} {s : S} {as : List A} (h : ∀ s, ∀ a ∈ as, good s a) :
    Every step good s as := by
  induction as generalizing s with
  | nil => trivial
  | cons a as ih =>
    exact ⟨h s a List.mem_cons_self, fun _ _ => ih fun s b hb => h s b (List.mem_cons_of_mem a hb)⟩

theorem Every.at {good : S → A → Prop} {s s' : S} {as bs : List A} {a : A}
    (h : Every step good s (as ++ a :: bs)) (hs : exec step s as = some s') : good s' a := by
  induction as generalizing s with
  | nil =>
    cases hs
    exact h.1
  | cons b as ih =>
    obtain ⟨s₁, hb, hrest⟩ := exec_cons_eq_some.mp hs
    exact ih (h.2 s₁ hb) hrest

theorem Every.mono {good good' : S → A → Prop} (himp : ∀ s a, good s a → good' s a) {s : S} {as : List A}
    (h : Every step good s as) : Every step good' s as := by
  induction as generalizing s with
  | nil => trivial
  | cons a as ih => exact ⟨himp s a h.1, fun s₁ hs => ih (h.2 s₁ hs)⟩

theorem Every.and {good good' : S → A → Prop} {s : S} {as : List A} (h : Every step good s as)
    (h' : Every step good' s as) : Every step (fun s a => good s a ∧ good' s a) s as := by
  induction as generalizing s with
  | nil => trivial
  | cons a as ih => exact ⟨⟨h.1, h'.1⟩, fun s₁ hs => ih (h.2 s₁ hs) (h'.2 s₁ hs)⟩

theorem Every.forall_mem {good : A → Prop} {s s' : S} {as : List A}
    (h : Every step (fun _ a => good a) s as) (hs : exec step s as = some s') : ∀ a ∈ as, good a := by
  induction as generalizing s with
  | nil => simp
  | cons a as ih =>
    obtain ⟨s₁, ha, hrest⟩ := exec_cons_eq_some.mp hs
    exact List.forall_mem_cons.mpr ⟨h.1, ih (h.2 s₁ ha) hrest⟩

theorem Along.of_every {P : S → Prop} {s s' : S} {as : List A} (h : Every step (fun s _ => P s) s as)
    (hs : exec step s as = some s') (hlast : P s') : Along step P s as := by
  induction as generalizing s with
  | nil =>
    cases hs
    exact hlast
  | cons a as ih =>
    obtain ⟨s₁, ha, hrest⟩ := exec_cons_eq_some.mp hs
    refine ⟨h.1, fun s₂ hs₂ => ?_⟩
    obtain rfl := Option.some.inj (ha.symm.trans hs₂)
    exact ih (h.2 s₁ ha) hrest

/-! ## Two systems -/

/-- Every step is a run of another system, and so is every run. -/
theorem exec_refines {S' A' : Type} {step' : S' → A' → Option S'} {f : S → S'}
    (hstep : ∀ s a s', step s a = some s' → ∃ bs, exec step' (f s) bs = some (f s')) {s s' : S}
    {as : List A} (h : exec step s as = some s') : ∃ bs, exec step' (f s) bs = some (f s') := by
  induction as generalizing s with
  | nil =>
    cases h
    exact ⟨[], rfl⟩
  | cons a as ih =>
    obtain ⟨s₁, hs, hrest⟩ := exec_cons_eq_some.mp h
    obtain ⟨bs, hbs⟩ := hstep s a s₁ hs
    obtain ⟨bs', hbs'⟩ := ih hrest
    exact ⟨bs ++ bs', by rw [exec_append hbs, hbs']⟩

/-- What `f` forgets of a state has no influence on a run if it has none on a
    step. -/
theorem exec_map {S' : Type} {step' : S' → A → Option S'} {f : S' → S}
    (hstep : ∀ s a, (step' s a).map f = step (f s) a) (s : S') (as : List A) :
    (exec step' s as).map f = exec step (f s) as := by
  induction as generalizing s with
  | nil => rfl
  | cons a as ih =>
    rw [exec, exec, ← hstep, Option.map_bind, Option.bind_map]
    exact Option.bind_congr fun s' _ => ih s'

/-! ## Invariants -/

section

variable {J : S → Prop} {good : S → A → Prop}

/-- A property that every good step keeps holds after every run of good steps. -/
theorem exec_inv (hkeep : ∀ s a s', J s → good s a → step s a = some s' → J s') {s s' : S}
    {as : List A} (h0 : J s) (hgood : Every step good s as) (h : exec step s as = some s') : J s' := by
  induction as generalizing s with
  | nil =>
    cases h
    exact h0
  | cons a as ih =>
    obtain ⟨s₁, hs, hrest⟩ := exec_cons_eq_some.mp h
    exact ih (hkeep s a s₁ h0 hgood.1 hs) (hgood.2 s₁ hs) hrest

/-- A property that every step keeps holds in every reachable state. -/
theorem Reachable.inv (hkeep : ∀ s a s', J s → step s a = some s' → J s') {s s' : S} (h0 : J s)
    (h : Reachable step s s') : J s' := by
  obtain ⟨as, h⟩ := h
  exact exec_inv (fun s a s' hJ _ hs => hkeep s a s' hJ hs) h0 (.true s as) h

/-- Each step puts out, in order, what was pending before it or comes in with
    it, and what is left is pending after it. Then so does every run. `P` is what
    is given of the states on the way, `J` what is shown of them. -/
theorem output_append_pending {O : Type} {P : S → Prop} {out : S → A → S → List O} (pend : S → List O)
    {inp : A → List O}
    (hstep : ∀ s a s', J s → P s → step s a = some s' →
      J s' ∧ out s a s' ++ pend s' = pend s ++ inp a)
    {s s' : S} {as : List A} (h0 : J s) (hP : Along step P s as) (h : exec step s as = some s') :
    J s' ∧ output step out s as ++ pend s' = pend s ++ as.flatMap inp := by
  induction as generalizing s with
  | nil =>
    cases h
    exact ⟨h0, by rw [output, List.nil_append, List.flatMap_nil, List.append_nil]⟩
  | cons a as ih =>
    obtain ⟨s₁, hs, hrest⟩ := exec_cons_eq_some.mp h
    obtain ⟨hJ, heq⟩ := hstep s a s₁ h0 hP.1 hs
    obtain ⟨hJ', heq'⟩ := ih hJ (hP.2 s₁ hs) hrest
    refine ⟨hJ', ?_⟩
    simp only [output, hs]
    rw [List.append_assoc, heq', ← List.append_assoc, heq, List.append_assoc, List.flatMap_cons]

/-- If a step of the kind `good` that keeps `J` and lowers the measure is always
    enabled, then such steps bring the measure to zero. -/
theorem exists_run {m : S → ℕ}
    (hprogress : ∀ s, J s → m s ≠ 0 → ∃ a s', good s a ∧ step s a = some s' ∧ J s' ∧ m s' < m s) {s : S}
    (h0 : J s) : ∃ as s', Every step good s as ∧ exec step s as = some s' ∧ J s' ∧ m s' = 0 := by
  induction hn : m s using Nat.strong_induction_on generalizing s with
  | h n ih =>
    by_cases hzero : m s = 0
    · exact ⟨[], s, trivial, rfl, h0, hzero⟩
    · obtain ⟨a, s₁, hgood, hs, hJ, hlt⟩ := hprogress s h0 hzero
      obtain ⟨as, s', hevery, hrest, hend⟩ := ih (m s₁) (hn ▸ hlt) hJ rfl
      refine ⟨a :: as, s', ⟨hgood, fun s₂ hs₂ => ?_⟩, exec_cons_eq_some.mpr ⟨s₁, hs, hrest⟩, hend⟩
      rw [hs, Option.some.injEq] at hs₂
      exact hs₂ ▸ hevery

/-- What the invariant promises of the steps from a state holds of every step
    of a run. -/
theorem Every.of_inv {safe : S → A → Prop}
    (hkeep : ∀ s a s', J s → good s a → step s a = some s' → J s')
    (hsafe : ∀ s a, J s → good s a → safe s a) {s : S} {as : List A} (h0 : J s)
    (hgood : Every step good s as) : Every step safe s as := by
  induction as generalizing s with
  | nil => trivial
  | cons a as ih =>
    refine ⟨hsafe s a h0 hgood.1, fun s₁ hs => ?_⟩
    exact ih (hkeep s a s₁ h0 hgood.1 hs) (hgood.2 s₁ hs)

/-- Two conditions on steps that agree where the invariant holds agree on runs. -/
theorem every_iff_of_inv {good good' : S → A → Prop} (hkeep : ∀ s a s', J s → step s a = some s' → J s')
    (hiff : ∀ s a, J s → (good s a ↔ good' s a)) {s : S} (h0 : J s) (as : List A) :
    Every step good s as ↔ Every step good' s as := by
  induction as generalizing s with
  | nil => exact Iff.rfl
  | cons a as ih =>
    exact and_congr (hiff s a h0) (forall₂_congr fun s₁ hs => ih (hkeep s a s₁ h0 hs))

/-- It is enough that the good steps keep the invariant: where one is not good, both
    conditions fail. -/
theorem every_iff_of_good {good good' : S → A → Prop}
    (hkeep : ∀ s a s', J s → good s a → step s a = some s' → J s')
    (hiff : ∀ s a, J s → (good s a ↔ good' s a)) {s : S} (h0 : J s) (as : List A) :
    Every step good s as ↔ Every step good' s as := by
  induction as generalizing s with
  | nil => exact Iff.rfl
  | cons a as ih =>
    rw [Every, Every, ← hiff s a h0]
    exact and_congr_right fun hgood => forall₂_congr fun s₁ hs => ih (hkeep s a s₁ h0 hgood hs)

/-- In runs whose steps all meet `env`: good steps keep `J`, which implies `P`;
    any other step leads out of `P`. So `P` holds along such a run exactly if all
    its steps are good. -/
theorem along_iff_every_of {env : S → A → Prop} {P : S → Prop}
    (hkeep : ∀ s a s', J s → env s a → good s a → step s a = some s' → J s') (hP : ∀ s, J s → P s)
    (hbreak : ∀ s a s', J s → env s a → ¬ good s a → step s a = some s' → ¬ P s') {s s' : S}
    {as : List A} (h0 : J s) (henv : Every step env s as) (h : exec step s as = some s') :
    Along step P s as ↔ Every step good s as := by
  induction as generalizing s with
  | nil => exact ⟨fun _ => trivial, fun _ => hP s h0⟩
  | cons a as ih =>
    obtain ⟨s₁, hs, hrest⟩ := exec_cons_eq_some.mp h
    have hnext : ∀ {Q : S → Prop}, (∀ s', step s a = some s' → Q s') ↔ Q s₁ := by
      intro Q
      refine ⟨fun hQ => hQ s₁ hs, fun hQ s' hs' => ?_⟩
      rw [hs, Option.some.injEq] at hs'
      exact hs' ▸ hQ
    rw [Along, Every, hnext, hnext]
    constructor
    · rintro ⟨-, halong⟩
      have hgood : good s a := by
        by_contra hbad
        refine hbreak s a s₁ h0 henv.1 hbad hs ?_
        cases as with
        | nil => exact halong
        | cons => exact halong.1
      exact ⟨hgood, (ih (hkeep s a s₁ h0 henv.1 hgood hs) (henv.2 s₁ hs) hrest).mp halong⟩
    · rintro ⟨hgood, hevery⟩
      exact ⟨hP s h0, (ih (hkeep s a s₁ h0 henv.1 hgood hs) (henv.2 s₁ hs) hrest).mpr hevery⟩

/-- The case of all runs. -/
theorem along_iff_every {P : S → Prop}
    (hkeep : ∀ s a s', J s → good s a → step s a = some s' → J s') (hP : ∀ s, J s → P s)
    (hbreak : ∀ s a s', J s → ¬ good s a → step s a = some s' → ¬ P s') {s s' : S} {as : List A}
    (h0 : J s) (h : exec step s as = some s') : Along step P s as ↔ Every step good s as :=
  along_iff_every_of (fun s a s' hJ _ => hkeep s a s' hJ) hP (fun s a s' hJ _ => hbreak s a s' hJ) h0
    (.true s as) h

/-- A property that good steps keep holds along every run of good steps. -/
theorem Along.of_inv {P : S → Prop} (hkeep : ∀ s a s', J s → good s a → step s a = some s' → J s')
    (hP : ∀ s, J s → P s) {s : S} {as : List A} (h0 : J s) (hgood : Every step good s as) :
    Along step P s as := by
  induction as generalizing s with
  | nil => exact hP s h0
  | cons a as ih =>
    exact ⟨hP s h0, fun s₁ hs => ih (hkeep s a s₁ h0 hgood.1 hs) (hgood.2 s₁ hs)⟩

end

end LinuxFileManager.Lib
