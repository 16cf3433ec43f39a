import Mathlib

/-!
# Reusable handles and their owners

A table gives out handles: a handle that is closed may be given out again, to
a later object. Objects are numbered in the order of their creation. Each open
object has one owner that will close its handle, and there is a registry of
(handle, object) pairs, in which an owner may have one entry.

`Ownership.Step` are the disciplined operations: only an owner closes, and it
takes its entry out of the registry before.

Results:

* `Sound.step`: the disciplined operations keep the bookkeeping sound.
* `Sound.registry_object`: an owner finds no entry but its own under its handle.
* `Sound.registry_handles_nodup`: no two entries of the registry have the same
  handle.
* `Sound.countP_handle`: an entry of the registry has one owner.
-/

namespace LinuxFileManager.Lib

variable {H : Type}

/-- Who will close `handle`, which was given out for the object `object`.
    `registered` tells whether the registry may have an entry of this owner. -/
structure Owner (H : Type) where
  handle : H
  object : ℕ
  registered : Bool
  deriving DecidableEq

/-- `table h` is the object that the open handle `h` stands for. -/
structure Ownership (H : Type) where
  table : H → Option ℕ
  next : ℕ
  owners : Multiset (Owner H)
  registry : Multiset (H × ℕ)

/-- The owners of `ws`, and `w` if there is one. -/
def addOwner : Option (Owner H) → Multiset (Owner H) → Multiset (Owner H)
  | none, ws => ws
  | some w, ws => w ::ₘ ws

theorem addOwner_comm (w w' : Option (Owner H)) (ws : Multiset (Owner H)) :
    addOwner w (addOwner w' ws) = addOwner w' (addOwner w ws) := by
  cases w with
  | none => rfl
  | some w =>
    cases w' with
    | none => rfl
    | some w' => exact Multiset.cons_swap w w' ws

namespace Ownership

/-- The disciplined operations. -/
inductive Step [DecidableEq H] (o : Ownership H) : Ownership H → Prop where
  /-- The table gives out a handle that is not open. -/
  | create (h : H) (hclosed : o.table h = none) :
      Step o ⟨Function.update o.table h (some o.next), o.next + 1, ⟨h, o.next, false⟩ ::ₘ o.owners,
        o.registry⟩
  | register (h : H) (c : ℕ) (rest : Multiset (Owner H)) (howners : o.owners = ⟨h, c, false⟩ ::ₘ rest) :
      Step o ⟨o.table, o.next, ⟨h, c, true⟩ ::ₘ rest, (h, c) ::ₘ o.registry⟩
  /-- An owner deletes an entry with its handle. -/
  | unregister (h : H) (c c' : ℕ) (rest : Multiset (Owner H)) (registry : Multiset (H × ℕ))
      (howners : o.owners = ⟨h, c, true⟩ ::ₘ rest) (hregistry : o.registry = (h, c') ::ₘ registry) :
      Step o ⟨o.table, o.next, ⟨h, c, false⟩ ::ₘ rest, registry⟩
  /-- An owner finds no entry with its handle. -/
  | absent (h : H) (c : ℕ) (rest : Multiset (Owner H)) (howners : o.owners = ⟨h, c, true⟩ ::ₘ rest)
      (habsent : ∀ c', (h, c') ∉ o.registry) :
      Step o ⟨o.table, o.next, ⟨h, c, false⟩ ::ₘ rest, o.registry⟩
  | close (h : H) (c : ℕ) (rest : Multiset (Owner H)) (howners : o.owners = ⟨h, c, false⟩ ::ₘ rest) :
      Step o ⟨Function.update o.table h none, o.next, rest, o.registry⟩
  | clear : Step o ⟨o.table, o.next, o.owners, 0⟩

/-- The bookkeeping is sound. -/
structure Sound (o : Ownership H) : Prop where
  isOpen : ∀ w ∈ o.owners, o.table w.handle = some w.object
  distinct : (o.owners.map Owner.object).Nodup
  bounded : ∀ w ∈ o.owners, w.object < o.next
  backed : ∀ h c, (h, c) ∈ o.registry → ⟨h, c, true⟩ ∈ o.owners
  nodup : o.registry.Nodup

theorem sound_initial (table : H → Option ℕ) (next : ℕ) : Sound ⟨table, next, 0, 0⟩ :=
  ⟨by simp, by simp, by simp, by simp, by simp⟩

section

variable {o : Ownership H} (hs : Sound o)
include hs

/-- Owners of one handle own one object. -/
theorem Sound.object_eq {w w' : Owner H} (hw : w ∈ o.owners) (hw' : w' ∈ o.owners)
    (h : w.handle = w'.handle) : w.object = w'.object := by
  have h1 := hs.isOpen w hw
  rw [h, hs.isOpen w' hw', Option.some.injEq] at h1
  exact h1.symm

/-- No other owner has the object, or the handle, of an owner. -/
theorem Sound.ne_of_mem_rest {w w' : Owner H} {rest : Multiset (Owner H)}
    (howners : o.owners = w ::ₘ rest) (hw' : w' ∈ rest) :
    w'.object ≠ w.object ∧ w'.handle ≠ w.handle := by
  have hdistinct := hs.distinct
  rw [howners, Multiset.map_cons, Multiset.nodup_cons] at hdistinct
  have hobject : w'.object ≠ w.object := by
    intro heq
    exact hdistinct.1 (heq ▸ Multiset.mem_map_of_mem _ hw')
  refine ⟨hobject, fun hhandle => hobject ?_⟩
  exact hs.object_eq (by simp [howners, hw']) (by simp [howners]) hhandle

/-- The entry with the handle of an owner is its own. -/
theorem Sound.registry_object {w : Owner H} (hw : w ∈ o.owners) {c : ℕ}
    (hmem : (w.handle, c) ∈ o.registry) : c = w.object := by
  have h1 := hs.isOpen _ (hs.backed _ _ hmem)
  rw [hs.isOpen w hw, Option.some.injEq] at h1
  exact h1.symm

/-- No two entries of the registry have the same handle. -/
theorem Sound.registry_handles_nodup : (o.registry.map Prod.fst).Nodup := by
  refine Multiset.Nodup.map_on ?_ hs.nodup
  rintro ⟨h, c⟩ hmem ⟨h', c'⟩ hmem' heq
  obtain rfl : h = h' := heq
  have hc := hs.registry_object (hs.backed _ _ hmem') hmem
  rw [Prod.mk.injEq]
  exact ⟨rfl, hc⟩

/-- An entry of the registry has one owner of its handle. -/
theorem Sound.countP_handle [DecidableEq H] {h : H} {c : ℕ} (hmem : (h, c) ∈ o.registry) :
    o.owners.countP (fun w => w.handle = h) = 1 ∧ ∀ w ∈ o.owners, w.handle = h → w = ⟨h, c, true⟩ := by
  obtain ⟨rest, howners⟩ := Multiset.exists_cons_of_mem (hs.backed h c hmem)
  have hrest : ∀ w ∈ rest, w.handle ≠ h := fun w hw => (hs.ne_of_mem_rest howners hw).2
  constructor
  · rw [howners, Multiset.countP_cons, Multiset.countP_eq_zero.mpr hrest, if_pos rfl]
  · intro w hw hhandle
    rw [howners] at hw
    rcases Multiset.mem_cons.mp hw with heq | hw
    · exact heq
    · exact absurd hhandle (hrest w hw)

/-- The flag of one owner changes; what it says about the registry is to be
    shown by the caller. -/
theorem Sound.flag {h : H} {c : ℕ} {b b' : Bool} {rest : Multiset (Owner H)}
    {registry : Multiset (H × ℕ)} (howners : o.owners = ⟨h, c, b⟩ ::ₘ rest)
    (hbacked : ∀ h' c', (h', c') ∈ registry → ⟨h', c', true⟩ ∈ (⟨h, c, b'⟩ : Owner H) ::ₘ rest)
    (hnodup : registry.Nodup) : Sound ⟨o.table, o.next, ⟨h, c, b'⟩ ::ₘ rest, registry⟩ := by
  have hold : ∀ w ∈ rest, w ∈ o.owners := fun w hw => by simp [howners, hw]
  have hmine : (⟨h, c, b⟩ : Owner H) ∈ o.owners := by simp [howners]
  refine ⟨?_, ?_, ?_, hbacked, hnodup⟩
  · intro w hw
    rcases Multiset.mem_cons.mp hw with rfl | hw
    · exact hs.isOpen ⟨h, c, b⟩ hmine
    · exact hs.isOpen w (hold w hw)
  · have hdistinct := hs.distinct
    rw [howners, Multiset.map_cons] at hdistinct
    rw [Multiset.map_cons]
    exact hdistinct
  · intro w hw
    rcases Multiset.mem_cons.mp hw with rfl | hw
    · exact hs.bounded ⟨h, c, b⟩ hmine
    · exact hs.bounded w (hold w hw)

theorem Sound.register {h : H} {c : ℕ} {rest : Multiset (Owner H)}
    (howners : o.owners = ⟨h, c, false⟩ ::ₘ rest) :
    Sound ⟨o.table, o.next, ⟨h, c, true⟩ ::ₘ rest, (h, c) ::ₘ o.registry⟩ := by
  refine hs.flag howners ?_ ?_
  · intro h' c' hmem
    rcases Multiset.mem_cons.mp hmem with heq | hmem
    · obtain ⟨rfl, rfl⟩ := Prod.mk.inj heq
      exact Multiset.mem_cons_self _ _
    · have hb := hs.backed h' c' hmem
      rw [howners, Multiset.mem_cons] at hb
      rcases hb with heq | hb
      · cases heq
      · exact Multiset.mem_cons_of_mem hb
  · refine Multiset.nodup_cons.mpr ⟨fun hmem => ?_, hs.nodup⟩
    -- an entry for this object would be backed by a second owner of it
    have hb := hs.backed h c hmem
    rw [howners, Multiset.mem_cons] at hb
    rcases hb with heq | hb
    · cases heq
    · exact (hs.ne_of_mem_rest howners hb).1 rfl

theorem Sound.unregister {h : H} {c c' : ℕ} {rest : Multiset (Owner H)} {registry : Multiset (H × ℕ)}
    (howners : o.owners = ⟨h, c, true⟩ ::ₘ rest) (hregistry : o.registry = (h, c') ::ₘ registry) :
    Sound ⟨o.table, o.next, ⟨h, c, false⟩ ::ₘ rest, registry⟩ := by
  have hmine : (⟨h, c, true⟩ : Owner H) ∈ o.owners := by simp [howners]
  have hc : c' = c := hs.registry_object hmine (by simp [hregistry])
  have hnodup := hs.nodup
  rw [hregistry, Multiset.nodup_cons] at hnodup
  refine hs.flag howners ?_ hnodup.2
  intro h' c'' hmem
  have hb := hs.backed h' c'' (by simp [hregistry, hmem])
  rw [howners, Multiset.mem_cons] at hb
  rcases hb with heq | hb
  · cases heq
    exact absurd (hc ▸ hmem) hnodup.1
  · exact Multiset.mem_cons_of_mem hb

theorem Sound.absent {h : H} {c : ℕ} {rest : Multiset (Owner H)}
    (howners : o.owners = ⟨h, c, true⟩ ::ₘ rest) (habsent : ∀ c', (h, c') ∉ o.registry) :
    Sound ⟨o.table, o.next, ⟨h, c, false⟩ ::ₘ rest, o.registry⟩ := by
  refine hs.flag howners ?_ hs.nodup
  intro h' c' hmem
  have hb := hs.backed h' c' hmem
  rw [howners, Multiset.mem_cons] at hb
  rcases hb with heq | hb
  · cases heq
    exact absurd hmem (habsent c)
  · exact Multiset.mem_cons_of_mem hb

theorem Sound.create [DecidableEq H] {h : H} (hclosed : o.table h = none) :
    Sound ⟨Function.update o.table h (some o.next), o.next + 1, ⟨h, o.next, false⟩ ::ₘ o.owners,
      o.registry⟩ := by
  refine ⟨?_, ?_, ?_, fun h' c' hmem => Multiset.mem_cons_of_mem (hs.backed h' c' hmem), hs.nodup⟩
  · intro w hw
    show Function.update o.table h (some o.next) w.handle = some w.object
    rcases Multiset.mem_cons.mp hw with rfl | hw
    · exact Function.update_self _ _ _
    · have hopen := hs.isOpen w hw
      have hne : w.handle ≠ h := by
        rintro rfl
        rw [hopen] at hclosed
        cases hclosed
      rwa [Function.update_of_ne hne]
  · rw [Multiset.map_cons, Multiset.nodup_cons]
    refine ⟨fun hmem => ?_, hs.distinct⟩
    obtain ⟨w, hw, heq⟩ := Multiset.mem_map.mp hmem
    have hlt := hs.bounded w hw
    rw [heq] at hlt
    exact absurd hlt (Nat.lt_irrefl _)
  · intro w hw
    rcases Multiset.mem_cons.mp hw with rfl | hw
    · exact Nat.lt_succ_self _
    · exact (hs.bounded w hw).trans (Nat.lt_succ_self _)

theorem Sound.close [DecidableEq H] {h : H} {c : ℕ} {rest : Multiset (Owner H)}
    (howners : o.owners = ⟨h, c, false⟩ ::ₘ rest) :
    Sound ⟨Function.update o.table h none, o.next, rest, o.registry⟩ := by
  have hold : ∀ w ∈ rest, w ∈ o.owners := fun w hw => by simp [howners, hw]
  refine ⟨?_, ?_, fun w hw => hs.bounded w (hold w hw), ?_, hs.nodup⟩
  · intro w hw
    show Function.update o.table h none w.handle = some w.object
    rw [Function.update_of_ne (hs.ne_of_mem_rest howners hw).2]
    exact hs.isOpen w (hold w hw)
  · have hdistinct := hs.distinct
    rw [howners, Multiset.map_cons, Multiset.nodup_cons] at hdistinct
    exact hdistinct.2
  · intro h' c' hmem
    have hb := hs.backed h' c' hmem
    rw [howners, Multiset.mem_cons] at hb
    rcases hb with heq | hb
    · cases heq
    · exact hb

/-- The disciplined operations keep the bookkeeping sound. -/
theorem Sound.step [DecidableEq H] {o' : Ownership H} (hstep : Step o o') : Sound o' := by
  cases hstep with
  | create h hclosed => exact hs.create hclosed
  | register h c rest howners => exact hs.register howners
  | unregister h c c' rest registry howners hregistry => exact hs.unregister howners hregistry
  | absent h c rest howners habsent => exact hs.absent howners habsent
  | close h c rest howners => exact hs.close howners
  | clear => exact ⟨hs.isOpen, hs.distinct, hs.bounded, by simp, by simp⟩

end

end Ownership

end LinuxFileManager.Lib
