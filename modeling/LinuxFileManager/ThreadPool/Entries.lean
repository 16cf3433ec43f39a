import LinuxFileManager.ThreadPool.Steps

/-!
# The entries of `threadIDs`

Every thread that has not ended has one entry in `threadIDs`, and every entry
that is not free belongs to such a thread. A worker that ends gives up its
place among the live ones first and frees its entry later, without the mutex.

Results:

* `EntriesInv.step`: the correspondence of entries and threads is kept by
  every step.
* `EntriesInv.exited_of_destroyed`: when the pool is destroyed, no worker is left.
-/

namespace LinuxFileManager.ThreadPool

open Lib

variable {τ : Type}

/-! ## Changes of the entries -/

/-- The entries in use. -/
def used (entries : List ℕ) : List ℕ := entries.filter (· ≠ 0)

@[simp] theorem length_clearEntry (tid : ℕ) (entries : List ℕ) :
    (clearEntry tid entries).length = entries.length := by
  induction entries with
  | nil => rfl
  | cons entry rest ih =>
    rw [clearEntry]
    split_ifs
    · rfl
    · rw [List.length_cons, ih, List.length_cons]

theorem used_clearEntry {tid : ℕ} (h : tid ≠ 0) (entries : List ℕ) :
    used (clearEntry tid entries) = (used entries).erase tid := by
  induction entries with
  | nil => rfl
  | cons entry rest ih =>
    rw [clearEntry]
    split_ifs with heq
    · subst heq
      simp [used, h]
    · simp only [used] at ih ⊢
      by_cases h0 : entry = 0
      · rw [List.filter_cons_of_neg (by simpa using h0), List.filter_cons_of_neg (by simpa using h0), ih]
      · rw [List.filter_cons_of_pos (by simpa using h0), List.filter_cons_of_pos (by simpa using h0), ih,
          List.erase_cons_tail (by simpa using heq)]

/-- An entry is freed or left alone. -/
theorem getElem?_clearEntry {tid i x : ℕ} {entries : List ℕ}
    (h : (clearEntry tid entries)[i]? = some x) : x = 0 ∨ entries[i]? = some x := by
  induction entries generalizing i with
  | nil => simp [clearEntry] at h
  | cons entry rest ih =>
    rw [clearEntry] at h
    split_ifs at h with heq
    · cases i with
      | zero => exact Or.inl (by simpa [eq_comm] using h)
      | succ i => exact Or.inr (by simpa using h)
    · cases i with
      | zero => exact Or.inr (by simpa using h)
      | succ i => simpa using ih (by simpa using h)

/-- What the loop of the manager that creates threads does: the new threads get
    fresh numbers and free entries. -/
theorem createThreads_spec {entries entries' new : List ℕ} {room tid : ℕ} (htid : 0 < tid)
    (h : createThreads entries room tid = (entries', new)) :
    entries'.length = entries.length ∧ (used entries').Perm (new ++ used entries) ∧ new.length ≤ room := by
  induction entries generalizing entries' new room tid with
  | nil =>
    cases h
    simp [used]
  | cons entry rest ih =>
    cases room with
    | zero =>
      cases h
      simp
    | succ room =>
      simp only [createThreads] at h
      split_ifs at h with h0
      · generalize hrec : createThreads rest room (tid + 1) = r at h
        obtain ⟨rest', new'⟩ := r
        obtain ⟨rfl, rfl⟩ := Prod.mk.inj h
        obtain ⟨hlen, hperm, hroom⟩ := ih (Nat.succ_pos tid) hrec
        refine ⟨by simp [hlen], ?_, by simpa using hroom⟩
        have hused : used (tid :: rest') = tid :: used rest' :=
          List.filter_cons_of_pos (by simpa using htid.ne')
        have hfree : used (entry :: rest) = used rest := List.filter_cons_of_neg (by simpa using h0)
        rw [hused, hfree, List.cons_append]
        exact hperm.cons tid
      · generalize hrec : createThreads rest (room + 1) tid = r at h
        obtain ⟨rest', new'⟩ := r
        obtain ⟨rfl, rfl⟩ := Prod.mk.inj h
        obtain ⟨hlen, hperm, hroom⟩ := ih htid hrec
        refine ⟨by simp [hlen], ?_, hroom⟩
        have hused : ∀ l, used (entry :: l) = entry :: used l := fun l =>
          List.filter_cons_of_pos (by simpa using h0)
        rw [hused, hused]
        exact (hperm.cons entry).trans List.perm_middle.symm

/-! ## The invariant -/

/-- The entry of a worker that has not ended. -/
def Worker.entry (w : Worker τ) : Option ℕ :=
  match w.pc with
  | .exited => none
  | _ => some w.tid

/-- The entries that `threadPoolDestory` has passed are free; the one on which
    it waits is free or names the thread that it waits for. -/
def Cleared : DestroyPc → List ℕ → Prop
  | .joinSlot i, entries | .joinEntry i, entries => ∀ j < i, ∀ x : ℕ, entries[j]? = some x → x = 0
  | .joinThread i tid, entries =>
    (∀ j < i, ∀ x : ℕ, entries[j]? = some x → x = 0) ∧ ∀ x, entries[i]? = some x → x = 0 ∨ x = tid
  | .destroyed, entries => ∀ j x : ℕ, entries[j]? = some x → x = 0
  | _, _ => True

/-- `threadPoolDestory` has joined the manager. -/
def DestroyPc.pastManager : DestroyPc → Bool
  | .notCalled | .flagged | .joinManager => false
  | _ => true

structure EntriesInv (s : Pool τ) : Prop where
  entries : (used s.pool.threadIDs).Perm (s.workers.filterMap Worker.entry)
  fresh : 0 < s.nextTid
  joined : s.destroyer.pastManager = true → s.manager = .exited
  cleared : Cleared s.destroyer s.pool.threadIDs

theorem entriesInv_init (min max : ℕ) (taskqueue : List τ) :
    EntriesInv (threadInit min max taskqueue) := by
  refine ⟨?_, Nat.succ_pos min, nofun, trivial⟩
  have hnew : (List.range' 1 min).filter (· ≠ 0) = List.range' 1 min := by
    rw [List.filter_eq_self]
    intro tid htid
    simp only [List.mem_range'_1] at htid
    simp only [ne_eq, decide_eq_true_eq]
    omega
  have hfree : (List.replicate (max - min) 0).filter (· ≠ 0) = ([] : List ℕ) := by
    rw [List.filter_eq_nil_iff]
    intro x hx
    simp [List.eq_of_mem_replicate hx]
  simp only [threadInit, used, List.filter_append, hnew, hfree, List.append_nil, List.filterMap_map]
  rw [show (Worker.entry ∘ fun tid => (⟨tid, .ready⟩ : Worker τ)) = some from rfl, List.filterMap_some]

theorem Worker.entry_of_looking {w : Worker τ} (h : w.pc.looking = true) : w.entry = some w.tid := by
  unfold WorkerPc.looking at h
  unfold Worker.entry
  split at h <;> simp_all

theorem Worker.entry_wake {w : Worker τ} (h : w.sleeps = true) (signalled : Bool) :
    (w.wake signalled).entry = w.entry := by
  simp [Worker.entry, Worker.wake, Worker.pc_of_sleeps h]

/-- Freeing an entry keeps the passed ones free. -/
theorem Cleared.clearEntry {pc : DestroyPc} {entries : List ℕ} (h : Cleared pc entries) (tid : ℕ) :
    Cleared pc (ThreadPool.clearEntry tid entries) := by
  have hfree : ∀ {j x : ℕ}, (∀ x, entries[j]? = some x → x = 0) →
      (ThreadPool.clearEntry tid entries)[j]? = some x → x = 0 := by
    intro j x hall hx
    rcases getElem?_clearEntry hx with h0 | hx
    · exact h0
    · exact hall x hx
  cases pc with
  | joinSlot i | joinEntry i => exact fun j hj x => hfree (h j hj)
  | joinThread i t =>
    refine ⟨fun j hj x => hfree (h.1 j hj), fun x hx => ?_⟩
    rcases getElem?_clearEntry hx with h0 | hx
    · exact Or.inl h0
    · exact h.2 x hx
  | destroyed => exact fun j x => hfree (h j)
  | _ => trivial

/-- `threadPoolDestory` goes on behind a free entry. -/
theorem Cleared.succ {i : ℕ} {entries : List ℕ} (h : Cleared (.joinSlot i) entries)
    (hfree : ∀ x, entries[i]? = some x → x = 0) : Cleared (.joinSlot (i + 1)) entries := by
  intro j hj x hx
  rcases Nat.lt_succ_iff_lt_or_eq.mp hj with hj | rfl
  · exact h j hj x hx
  · exact hfree x hx

section

variable {s : Pool τ} (h : EntriesInv s)
include h

/-- No entry names a thread that has ended. -/
theorem EntriesInv.free_of_ended {i tid : ℕ} (hended : s.ended tid = true)
    (hi : s.pool.threadIDs[i]? = some tid) : tid = 0 := by
  by_contra hne
  have hmem : tid ∈ used s.pool.threadIDs :=
    List.mem_filter.mpr ⟨List.mem_of_getElem? hi, by simpa using hne⟩
  obtain ⟨w, hw, hentry⟩ := List.mem_filterMap.mp (h.entries.mem_iff.mp hmem)
  have hend := List.all_eq_true.mp hended w hw
  unfold Worker.entry at hentry
  split at hentry
  · cases hentry
  · next hpc =>
    rw [Option.some.injEq] at hentry
    split at hend
    · next hexit => exact hpc hexit
    · simp [hentry] at hend

theorem EntriesInv.worker {k : ℕ} {w : Worker τ} {s' : Pool τ} (hw : s.workers[k]? = some w)
    (heffect : WorkerEffect s k w w.pc s') : EntriesInv s' := by
  generalize hpc : w.pc = pc at heffect
  have hkeep : ∀ pc' : WorkerPc τ, ({ w with pc := pc' } : Worker τ).entry = w.entry →
      (used s.pool.threadIDs).Perm ((s.workers.set k { w with pc := pc' }).filterMap Worker.entry) :=
    fun pc' heq => h.entries.trans (filterMap_set_perm hw heq).symm
  have hlooks : pc.looking = true → some w.tid = w.entry := by
    rintro hlook
    exact (Worker.entry_of_looking (hpc ▸ hlook)).symm
  cases heffect with
  | sleeps e hlook hrun hempty =>
    exact ⟨hkeep _ (hlooks hlook), h.fresh, h.joined, h.cleared⟩
  | takes e task producers hlook hrun hsize htask =>
    exact ⟨hkeep _ (hlooks hlook), h.fresh, h.joined, h.cleared⟩
  | leaves e hlook hdown =>
    exact ⟨hkeep _ (hlooks hlook), h.fresh, h.joined, h.cleared⟩
  | exits signalled hexit hlive =>
    exact ⟨hkeep _ (by simp [Worker.entry, hpc]), h.fresh, h.joined, h.cleared⟩
  | starts task => exact ⟨hkeep _ (by simp [Worker.entry, hpc]), h.fresh, h.joined, h.cleared⟩
  | finishes task =>
    exact ⟨hkeep _ (by simp [Worker.entry, hpc]), h.fresh, h.joined, h.cleared⟩
  | clears =>
    obtain ⟨rest, hperm, hset⟩ := exists_perm_set hw
    have hbefore : (used s.pool.threadIDs).Perm (w.tid :: rest.filterMap Worker.entry) := by
      refine h.entries.trans ((hperm.filterMap _).trans ?_)
      rw [List.filterMap_cons_some (show w.entry = some w.tid by simp [Worker.entry, hpc])]
    have hmem : w.tid ∈ used s.pool.threadIDs := hbefore.mem_iff.mpr List.mem_cons_self
    have hne : w.tid ≠ 0 := by simpa using (List.mem_filter.mp hmem).2
    refine ⟨?_, h.fresh, h.joined, h.cleared.clearEntry _⟩
    show (used (clearEntry w.tid s.pool.threadIDs)).Perm
      ((s.workers.set k { w with pc := .exited }).filterMap Worker.entry)
    rw [used_clearEntry hne]
    refine (hbefore.erase w.tid).trans ?_
    rw [List.erase_cons_head]
    refine .trans ?_ ((hset _).filterMap Worker.entry).symm
    rw [List.filterMap_cons_none rfl]

theorem EntriesInv.manager {s' : Pool τ} (heffect : ManagerEffect s s.manager s') : EntriesInv s' := by
  generalize hpc : s.manager = pc at heffect
  -- the manager has not ended, so `threadPoolDestory` has not joined it
  have hbefore : pc ≠ .exited → s.destroyer.pastManager = true → False :=
    fun hne hpast => hne (hpc ▸ h.joined hpast)
  have hcleared : ∀ entries, pc ≠ .exited → Cleared s.destroyer entries := by
    intro entries hne
    have hpast := hbefore hne
    cases hd : s.destroyer <;> simp [hd, DestroyPc.pastManager] at hpast <;> trivial
  cases heffect with
  | quiet hne hpc' => exact ⟨h.entries, h.fresh, fun hp => (hbefore hne hp).elim, h.cleared⟩
  | counts => exact ⟨h.entries, h.fresh, fun hp => (hbefore nofun hp).elim, h.cleared⟩
  | snaps q l => exact ⟨h.entries, h.fresh, fun hp => (hbefore nofun hp).elim, h.cleared⟩
  | skips q l b => exact ⟨h.entries, h.fresh, fun hp => (hbefore nofun hp).elim, h.cleared⟩
  | ends l b => exact ⟨h.entries, h.fresh, fun hp => (hbefore nofun hp).elim, h.cleared⟩
  | signals n choice workers hsignal =>
    refine ⟨?_, h.fresh, fun hp => (hbefore nofun hp).elim, h.cleared⟩
    show (used s.pool.threadIDs).Perm (workers.filterMap Worker.entry)
    rw [filterMap_eq_of_map_eq (map_signal (fun w hw => w.entry_wake hw true) hsignal)]
    exact h.entries
  | @creates q l b entries new hlive hcreate =>
    obtain ⟨-, hperm, -⟩ := createThreads_spec h.fresh hcreate
    refine ⟨?_, h.fresh.trans_le (Nat.le_add_right _ _),
      fun hp => (hbefore nofun hp).elim, hcleared entries nofun⟩
    have hnew : (new.map fun tid => (⟨tid, .ready⟩ : Worker τ)).filterMap Worker.entry = new := by
      rw [List.filterMap_map]
      exact List.filterMap_some
    show (used entries).Perm
      ((s.workers ++ new.map fun tid => (⟨tid, .ready⟩ : Worker τ)).filterMap Worker.entry)
    rw [List.filterMap_append, hnew]
    exact hperm.trans ((h.entries.append_left new).trans List.perm_append_comm)

theorem EntriesInv.destroy {s' : Pool τ} (heffect : DestroyEffect s s.destroyer s') : EntriesInv s' := by
  have hjoined := h.joined
  have hcleared := h.cleared
  generalize hpc : s.destroyer = pc at heffect hjoined hcleared
  cases heffect with
  | flags => exact ⟨h.entries, h.fresh, nofun, trivial⟩
  | broadcasts =>
    refine ⟨?_, h.fresh, nofun, trivial⟩
    show (used s.pool.threadIDs).Perm
      ((broadcast Worker.sleeps (Worker.wake true) s.workers).filterMap Worker.entry)
    rw [filterMap_eq_of_map_eq (map_broadcast (fun w hw => w.entry_wake hw true) s.workers)]
    exact h.entries
  | joinsManager hexited => exact ⟨h.entries, h.fresh, fun _ => hexited, nofun⟩
  | @done i hi =>
    refine ⟨h.entries, h.fresh, fun _ => hjoined rfl, fun j x hx => ?_⟩
    refine hcleared j ?_ x hx
    exact (List.getElem?_eq_some_iff.mp hx).1.trans_le (List.getElem?_eq_none_iff.mp hi)
  | free hi =>
    refine ⟨h.entries, h.fresh, fun _ => hjoined rfl, hcleared.succ fun x hx => ?_⟩
    rw [hi, Option.some.injEq] at hx
    exact hx.symm
  | finds => exact ⟨h.entries, h.fresh, fun _ => hjoined rfl, hcleared⟩
  | misses => exact ⟨h.entries, h.fresh, fun _ => hjoined rfl, trivial⟩
  | @waits i tid hi =>
    refine ⟨h.entries, h.fresh, fun _ => hjoined rfl, hcleared, fun x hx => Or.inr ?_⟩
    rw [← hi, List.getD_eq_getElem?_getD, hx, Option.getD_some]
  | @joins i tid hended =>
    have hfree : ∀ x, s.pool.threadIDs[i]? = some x → x = 0 := by
      intro x hx
      rcases hcleared.2 x hx with h0 | rfl
      · exact h0
      · exact h.free_of_ended hended hx
    have hset : s.pool.threadIDs.set i 0 = s.pool.threadIDs := set_eq_self hfree
    refine ⟨?_, h.fresh, fun _ => hjoined rfl, ?_⟩
    · show (used (s.pool.threadIDs.set i 0)).Perm (s.workers.filterMap Worker.entry)
      rw [hset]
      exact h.entries
    · show Cleared (.joinSlot (i + 1)) (s.pool.threadIDs.set i 0)
      rw [hset]
      exact Cleared.succ hcleared.1 hfree

theorem EntriesInv.step {a : Action τ} {s' : Pool τ} (hs : s.step a = some s') : EntriesInv s' := by
  cases Pool.step_effect hs with
  | worker hw heffect => exact h.worker hw heffect
  | wakes hw hsleeps =>
    refine ⟨?_, h.fresh, h.joined, h.cleared⟩
    exact h.entries.trans (filterMap_set_perm hw (Worker.entry_wake hsleeps false)).symm
  | producer heffect =>
    cases heffect with
    | quiet producers => exact ⟨h.entries, h.fresh, h.joined, h.cleared⟩
    | adds task choice workers producers hrun hsize hsignal =>
      refine ⟨?_, h.fresh, h.joined, h.cleared⟩
      show (used s.pool.threadIDs).Perm (workers.filterMap Worker.entry)
      rw [filterMap_eq_of_map_eq (map_signal (fun w hw => w.entry_wake hw true) hsignal)]
      exact h.entries
  | manager heffect => exact h.manager heffect
  | destroy heffect => exact h.destroy heffect

/-- When the pool is destroyed, every worker has ended. -/
theorem EntriesInv.exited_of_destroyed (hd : s.destroyer = .destroyed) :
    ∀ w ∈ s.workers, w.pc = .exited := by
  intro w hw
  by_contra hne
  have hentry : w.entry = some w.tid := by
    unfold Worker.entry
    split
    · next hpc => exact absurd hpc hne
    · rfl
  have hmem : w.tid ∈ used s.pool.threadIDs :=
    h.entries.mem_iff.mpr (List.mem_filterMap.mpr ⟨w, hw, hentry⟩)
  obtain ⟨hin, hpos⟩ := List.mem_filter.mp hmem
  obtain ⟨j, hj⟩ := List.mem_iff_getElem?.mp hin
  have hcleared := h.cleared
  rw [hd] at hcleared
  simp [hcleared j _ hj] at hpos

end

end LinuxFileManager.ThreadPool
