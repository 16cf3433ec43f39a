import LinuxFileManager.Lib.Termination
import LinuxFileManager.ThreadPool.Entries
import LinuxFileManager.ThreadPool.Shutdown

/-!
# How `threadPoolDestory` ends

Once `shutdown` is set, in the system of `ThreadPool.Shutdown` where the flag may
change between any two reads of it, every step of a thread lowers a measure, a step
of a new call of `threadPoolAdd` apart. So all runs come to an end, and they can only
end where nobody else is left and `threadPoolDestory` has returned, or has called
`pthread_join` with `0`: `threadexit` takes no lock that the test of an entry takes. That
a task returns, and that the queue has a slot, is taken for granted.

Results:

* `shutdown_completes`: the bound on the runs, and where they end.
* `nothing_after_free`: a step behind the `free` is one of `threadPoolAdd`.
-/

namespace LinuxFileManager.ThreadPool

open Lib

variable {τ : Type}

/-! ## The measure -/

def WorkerPc.cost : WorkerPc τ → ℕ
  | .exited => 0
  | .exiting => 1
  | .ready | .woken _ => 8
  | .asleep | .busy _ => 9
  | .took _ => 10

def Worker.cost (w : Worker τ) : ℕ := w.pc.cost

def Producer.cost : Producer τ → ℕ
  | .returned => 0
  | .calling _ | .woken _ => 4
  | .asleep _ => 5

def ManagerPc.cost : ManagerPc → ℕ
  | .exited => 0
  | .top => 1
  | .signalling n => n + 2
  | .ending _ _ => number + 3
  | .adding _ _ _ => 9 * number + 4
  | .counted _ _ => 9 * number + 5
  | .sleeping => 9 * number + 6

/-- The argument is the number of entries to go over. -/
def DestroyPc.cost (entries : ℕ) : DestroyPc → ℕ
  | .notCalled => 3 * entries + 4
  | .flagged => 3 * entries + 3
  | .joinManager => 3 * entries + 2
  | .joinSlot i => 3 * (entries - i) + 1
  | .joinEntry i => 3 * (entries - (i + 1)) + 3
  | .joinThread i _ => 3 * (entries - (i + 1)) + 2
  | .joinsZero | .destroyed => 0

/-- A section that is about to wait, or to work on the queue, has more to do than one
    that finds `shutdown` set. -/
def Section.cost : Section → ℕ
  | .leaving => 0
  | .deciding => 1
  | .testing => 2
  | .waiting => 5
  | .working => 6

def holderCost : Option Holder → ℕ
  | none => 3
  | some holder => holder.place.cost

def Pool.cost (s : Pool τ) : ℕ :=
  total Worker.cost s.workers + total Producer.cost s.producers + s.manager.cost +
    s.destroyer.cost s.pool.threadIDs.length

def Race.cost (r : Race τ) : ℕ := r.pool.cost + holderCost r.holder

/-- A new call of `threadPoolAdd`. -/
def RaceAction.isCall : RaceAction τ → Bool
  | .other (.call _) => true
  | _ => false

/-- Neither a new call nor a wake-up without a signal. -/
def RaceAction.ofThread : RaceAction τ → Bool
  | .other (.call _) | .other (.wakeWorker _) | .other (.wakeProducer _) => false
  | _ => true

/-! ## What the steps keep -/

/-- The holder of the mutex is a thread that wanted it. -/
def Race.HolderOk (r : Race τ) : Prop :=
  match r.holder with
  | none => True
  | some (.worker k _) => ∃ w : Worker τ, r.pool.workers[k]? = some w ∧ w.pc.looking = true
  | some (.producer k _) => ∃ task, r.pool.producers[k]?.bind Producer.wants = some task

/-- What holds in every state of the system. -/
structure RaceInv (r : Race τ) : Prop where
  shutdown : ShutdownInv r
  entries : EntriesInv r.pool
  capacity : r.pool.pool.queueCapacity = r.pool.pool.taskqueue.length
  front : r.pool.pool.queueFront < r.pool.pool.queueCapacity
  holder : r.HolderOk

/-- Threads that look for the mutex go on doing so. -/
structure KeepsLooking (s s' : Pool τ) : Prop where
  workers : ∀ (k : ℕ) (w : Worker τ), s.workers[k]? = some w → w.pc.looking = true →
    ∃ w' : Worker τ, s'.workers[k]? = some w' ∧ w'.pc.looking = true
  producers : ∀ (k : ℕ) (task : τ), s.producers[k]?.bind Producer.wants = some task →
    ∃ task', s'.producers[k]?.bind Producer.wants = some task'

/-- The ring stays within its array. -/
def KeepsRing (s s' : Pool τ) : Prop :=
  s'.pool.queueCapacity = s.pool.queueCapacity ∧
    s'.pool.taskqueue.length = s.pool.taskqueue.length ∧
    (s.pool.queueFront < s.pool.queueCapacity → s'.pool.queueFront < s'.pool.queueCapacity)

/-! ## One step -/

/-- Which kind of step it is. -/
inductive RaceEffect (r : Race τ) : RaceAction τ → Race τ → Prop where
  | other {a : Action τ} {s' : Pool τ} (hfree : r.unlocked a = true) (hs : r.pool.step a = some s') :
      RaceEffect r (.other a) { r with pool := s' }
  | lockWorker {k : ℕ} {w : Worker τ} (hnone : r.holder = none) (hw : r.pool.workers[k]? = some w)
      (hlook : w.pc.looking = true) : RaceEffect r (.lockWorker k) (r.pool.enter k w)
  | lockProducer {k : ℕ} {task : τ} (hnone : r.holder = none)
      (hp : r.pool.producers[k]?.bind Producer.wants = some task) :
      RaceEffect r (.lockProducer k) { r with holder := some (.producer k .testing) }
  | worker {choice k : ℕ} {place : Section} {w : Worker τ} {r' : Race τ}
      (hholder : r.holder = some (.worker k place)) (hw : r.pool.workers[k]? = some w)
      (hs : r.pool.workerSection k w choice place = some r') : RaceEffect r (.inside choice) r'
  | producer {choice k : ℕ} {place : Section} {task : τ} {r' : Race τ}
      (hholder : r.holder = some (.producer k place))
      (hp : r.pool.producers[k]?.bind Producer.wants = some task)
      (hs : r.pool.producerSection k task choice place = some r') : RaceEffect r (.inside choice) r'

theorem Race.step_effect {r r' : Race τ} {a : RaceAction τ} (hs : r.step a = some r') :
    RaceEffect r a r' := by
  cases a with
  | other a =>
    simp only [Race.step] at hs
    split_ifs at hs with hfree
    obtain ⟨s', hs', rfl⟩ := Option.map_eq_some_iff.mp hs
    exact .other hfree hs'
  | lockWorker k =>
    simp only [Race.step] at hs
    split at hs
    · next w hnone hw =>
      split_ifs at hs with hlook
      cases hs
      exact .lockWorker hnone hw hlook
    · cases hs
  | lockProducer k =>
    simp only [Race.step] at hs
    split at hs
    · next task hnone hp =>
      cases hs
      exact .lockProducer hnone hp
    · cases hs
  | inside choice =>
    simp only [Race.step] at hs
    split at hs
    · next k place hholder =>
      split at hs
      · next w hw => exact .worker hholder hw hs
      · cases hs
    · next k place hholder =>
      split at hs
      · next task hp => exact .producer hholder hp hs
      · cases hs
    · cases hs

/-- A worker with the mutex ends, or comes to the test of its loop. -/
theorem enter_cases (s : Pool τ) (k : ℕ) (w : Worker τ) :
    (∃ e l, s.enter k w =
      ⟨{ s with pool := { s.pool with exitNUM := e, liveNUM := l } }.setWorker k w .exiting, none⟩) ∨
    ∃ e, s.enter k w = ⟨s.withExitNUM e, some (.worker k .testing)⟩ := by
  unfold Pool.enter
  split
  · dsimp only
    split_ifs
    · exact .inl ⟨_, _, rfl⟩
    · exact .inr ⟨_, rfl⟩
    · exact .inr ⟨s.pool.exitNUM, rfl⟩
  · exact .inr ⟨s.pool.exitNUM, rfl⟩

/-- What a worker does in its section: it moves on in it, or releases the mutex. -/
inductive WorkerSectionEffect (s : Pool τ) (k : ℕ) (w : Worker τ) : Section → Race τ → Prop where
  | tests : WorkerSectionEffect s k w .testing
      ⟨s, some (.worker k (testLoop (s.pool.queueSize = 0) s.pool.shutdown))⟩
  | waits : WorkerSectionEffect s k w .waiting ⟨s.setWorker k w .asleep, none⟩
  | decides : WorkerSectionEffect s k w .deciding ⟨s, some (.worker k (testShutdown s.pool.shutdown))⟩
  | leaves : WorkerSectionEffect s k w .leaving ⟨s.setWorker k w .exiting, none⟩
  | takes {choice : ℕ} {task : τ} {producers : List (Producer τ)}
      (hsignal : signalNotFull s.producers choice = some producers) :
      WorkerSectionEffect s k w .working
        ⟨{ s.setWorker k w (.took task) with
          pool := { s.pool with
            queueFront := (s.pool.queueFront + 1) % s.pool.queueCapacity
            queueSize := s.pool.queueSize - 1 }
          producers := producers
          taken := s.taken ++ [task] }, none⟩

theorem workerSection_effect {s : Pool τ} {k choice : ℕ} {w : Worker τ} {place : Section} {r' : Race τ}
    (hs : s.workerSection k w choice place = some r') : WorkerSectionEffect s k w place r' := by
  cases place with
  | testing =>
    cases hs
    exact .tests
  | waiting =>
    cases hs
    exact .waits
  | deciding =>
    cases hs
    exact .decides
  | leaving =>
    cases hs
    exact .leaves
  | working =>
    obtain ⟨s', hs', rfl⟩ := Option.map_eq_some_iff.mp hs
    unfold Pool.takeTask at hs'
    split at hs'
    · next task producers htask hsignal =>
      cases hs'
      exact .takes hsignal
    · cases hs'

/-- What a call of `threadPoolAdd` does in its section. -/
inductive ProducerSectionEffect (s : Pool τ) (k : ℕ) (task : τ) : Section → Race τ → Prop where
  | tests : ProducerSectionEffect s k task .testing
      ⟨s, some (.producer k (testLoop (s.pool.queueSize = s.pool.queueCapacity) s.pool.shutdown))⟩
  | waits : ProducerSectionEffect s k task .waiting
      ⟨{ s with producers := s.producers.set k (.asleep task) }, none⟩
  | decides : ProducerSectionEffect s k task .deciding
      ⟨s, some (.producer k (testShutdown s.pool.shutdown))⟩
  | leaves : ProducerSectionEffect s k task .leaving
      ⟨{ s with producers := s.producers.set k .returned }, none⟩
  | puts {choice : ℕ} {workers : List (Worker τ)}
      (hsignal : signalNotEmpty s.workers choice = some workers) :
      ProducerSectionEffect s k task .working
        ⟨{ s with
          pool := { s.pool with
            taskqueue := s.pool.taskqueue.set s.pool.queueRear task
            queueRear := (s.pool.queueRear + 1) % s.pool.queueCapacity
            queueSize := s.pool.queueSize + 1 }
          workers := workers
          producers := s.producers.set k .returned
          added := s.added ++ [task] }, none⟩

theorem producerSection_effect {s : Pool τ} {k choice : ℕ} {task : τ} {place : Section} {r' : Race τ}
    (hs : s.producerSection k task choice place = some r') : ProducerSectionEffect s k task place r' := by
  cases place with
  | testing =>
    cases hs
    exact .tests
  | waiting =>
    cases hs
    exact .waits
  | deciding =>
    cases hs
    exact .decides
  | leaving =>
    cases hs
    exact .leaves
  | working =>
    obtain ⟨s', hs', rfl⟩ := Option.map_eq_some_iff.mp hs
    obtain ⟨workers, hsignal, rfl⟩ := Option.map_eq_some_iff.mp hs'
    exact .puts hsignal

/-! ## The invariant -/

theorem EntriesInv.congr {s s' : Pool τ} (h : EntriesInv s)
    (hids : s'.pool.threadIDs = s.pool.threadIDs)
    (hworkers : (s'.workers.filterMap Worker.entry).Perm (s.workers.filterMap Worker.entry))
    (hnext : s'.nextTid = s.nextTid) (hmanager : s'.manager = s.manager)
    (hdestroyer : s'.destroyer = s.destroyer) : EntriesInv s' := by
  refine ⟨?_, hnext ▸ h.fresh, ?_, ?_⟩
  · rw [hids]
    exact h.entries.trans hworkers.symm
  · rw [hdestroyer, hmanager]
    exact h.joined
  · rw [hdestroyer, hids]
    exact h.cleared

/-- A worker that does not end keeps its entry. -/
theorem entry_set {workers : List (Worker τ)} {k : ℕ} {w : Worker τ} (hw : workers[k]? = some w)
    (hlook : w.pc.looking = true) {pc : WorkerPc τ}
    (hpc : Worker.entry { w with pc := pc } = some w.tid) :
    ((workers.set k { w with pc := pc }).filterMap Worker.entry).Perm
      (workers.filterMap Worker.entry) :=
  filterMap_set_perm hw (hpc.trans (Worker.entry_of_looking hlook).symm)

theorem Worker.sleeps_of_looking {w : Worker τ} (h : w.pc.looking = true) : w.sleeps = false := by
  refine Bool.eq_false_iff.mpr fun hsleeps => ?_
  rw [Worker.pc_of_sleeps hsleeps] at h
  cases h

theorem KeepsLooking.rfl {s s' : Pool τ} (hworkers : s'.workers = s.workers)
    (hproducers : s'.producers = s.producers) : KeepsLooking s s' :=
  ⟨fun k w hw hlook => ⟨w, by rw [hworkers]; exact hw, hlook⟩,
    fun k task hp => ⟨task, by rw [hproducers]; exact hp⟩⟩

/-- A worker that does not look for the mutex moves. -/
theorem looking_set {workers : List (Worker τ)} {j : ℕ} {v : Worker τ} (hv : workers[j]? = some v)
    (hidle : v.pc.looking = false) (v' : Worker τ) {k : ℕ} {w : Worker τ} (hw : workers[k]? = some w)
    (hlook : w.pc.looking = true) :
    ∃ w' : Worker τ, (workers.set j v')[k]? = some w' ∧ w'.pc.looking = true := by
  have hne : j ≠ k := by
    rintro rfl
    rw [hw, Option.some.injEq] at hv
    rw [hv, hidle] at hlook
    cases hlook
  exact ⟨w, by rw [List.getElem?_set_ne hne]; exact hw, hlook⟩

theorem looking_signal {workers workers' : List (Worker τ)} {choice : ℕ}
    (hsignal : signalNotEmpty workers choice = some workers') {k : ℕ} {w : Worker τ}
    (hw : workers[k]? = some w) (hlook : w.pc.looking = true) :
    ∃ w' : Worker τ, workers'[k]? = some w' ∧ w'.pc.looking = true := by
  rcases signalNotEmpty_eq_some hsignal with ⟨rfl, -⟩ | ⟨v, hv, hsleeps, rfl⟩
  · exact ⟨w, hw, hlook⟩
  · exact looking_set hv (by rw [Worker.pc_of_sleeps hsleeps]; exact Eq.refl false) _ hw hlook

theorem wants_set {producers : List (Producer τ)} {j : ℕ} {q : Producer τ}
    (hq : producers[j]? = some q) (hidle : q.wants = none) (q' : Producer τ) {k : ℕ} {task : τ}
    (hp : producers[k]?.bind Producer.wants = some task) :
    (producers.set j q')[k]?.bind Producer.wants = some task := by
  have hne : j ≠ k := by
    rintro rfl
    rw [hq, Option.bind_some, hidle] at hp
    cases hp
  rw [List.getElem?_set_ne hne]
  exact hp

theorem Producer.wants_of_sleeps {p : Producer τ} (h : p.sleeps = true) : p.wants = none := by
  cases p with
  | asleep task => exact Eq.refl none
  | _ => cases h

/-- A broadcast leaves those that are awake. -/
theorem getElem?_broadcast {α : Type} {asleep : α → Bool} {wake : α → α} {ts : List α} {k : ℕ} {t : α}
    (ht : ts[k]? = some t) (hawake : asleep t = false) : (broadcast asleep wake ts)[k]? = some t := by
  rw [broadcast, List.getElem?_map, ht, Option.map_some, if_neg (Bool.eq_false_iff.mp hawake)]

theorem KeepsLooking.other {r : Race τ} {a : Action τ} {s' : Pool τ} (hfree : r.unlocked a = true)
    (hs : r.pool.step a = some s') : KeepsLooking r.pool s' := by
  cases a with
  | worker j choice =>
    simp only [Pool.step] at hs
    split at hs
    · next v hv =>
      have hidle : v.pc.looking = false := by simpa [Race.unlocked, hv] using hfree
      obtain ⟨pc, hworkers, hproducers⟩ : ∃ pc, s'.workers = r.pool.workers.set j { v with pc := pc } ∧
          s'.producers = r.pool.producers := by
        have heffect := workerStep_effect hs
        generalize v.pc = pc at heffect hidle
        cases heffect with
        | takes e task producers hpc => rw [hpc] at hidle; cases hidle
        | _ => exact ⟨_, Eq.refl _, Eq.refl _⟩
      refine ⟨fun k w hw hlook => ?_, fun k task hp => ⟨task, by rw [hproducers]; exact hp⟩⟩
      rw [hworkers]
      exact looking_set hv hidle _ hw hlook
    · cases hs
  | wakeWorker j =>
    simp only [Pool.step] at hs
    split at hs
    · next v hv =>
      split_ifs at hs with hsleeps
      cases hs
      refine ⟨fun k w hw hlook => looking_set hv ?_ _ hw hlook, fun k task hp => ⟨task, hp⟩⟩
      rw [Worker.pc_of_sleeps hsleeps]
      exact Eq.refl false
    · cases hs
  | call task =>
    cases hs
    refine ⟨fun k w hw hlook => ⟨w, hw, hlook⟩, fun k task' hp => ⟨task', ?_⟩⟩
    obtain ⟨p, hget, hwants⟩ := Option.bind_eq_some_iff.mp hp
    obtain ⟨hk, -⟩ := List.getElem?_eq_some_iff.mp hget
    rw [List.getElem?_append_left hk]
    exact hp
  | producer j choice => cases hfree
  | wakeProducer j =>
    simp only [Pool.step] at hs
    split at hs
    · next q hq =>
      split_ifs at hs with hsleeps
      cases hs
      exact ⟨fun k w hw hlook => ⟨w, hw, hlook⟩,
        fun k task hp => ⟨task, wants_set hq (Producer.wants_of_sleeps hsleeps) _ hp⟩⟩
    · cases hs
  | manager choice =>
    have heffect := managerStep_effect hs
    generalize r.pool.manager = pc at heffect
    cases heffect with
    | creates hlive hcreate =>
      refine ⟨fun k w hw hlook => ⟨w, ?_, hlook⟩, fun k task hp => ⟨task, hp⟩⟩
      obtain ⟨hk, -⟩ := List.getElem?_eq_some_iff.mp hw
      exact (List.getElem?_append_left hk).trans hw
    | signals n choice workers hsignal =>
      exact ⟨fun k w hw hlook => looking_signal hsignal hw hlook, fun k task hp => ⟨task, hp⟩⟩
    | _ => exact .rfl (Eq.refl _) (Eq.refl _)
  | destroy =>
    have heffect := destroyStep_effect hs
    generalize r.pool.destroyer = pc at heffect
    cases heffect with
    | broadcasts =>
      refine ⟨fun k w hw hlook => ⟨w, getElem?_broadcast hw (Worker.sleeps_of_looking hlook), hlook⟩,
        fun k task hp => ⟨task, ?_⟩⟩
      obtain ⟨p, hget, hwants⟩ := Option.bind_eq_some_iff.mp hp
      have hawake : p.sleeps = false := by
        refine Bool.eq_false_iff.mpr fun hsleeps => ?_
        rw [Producer.wants_of_sleeps hsleeps] at hwants
        cases hwants
      exact (congrArg (·.bind Producer.wants) (getElem?_broadcast hget hawake)).trans hwants
    | _ => exact .rfl (Eq.refl _) (Eq.refl _)

theorem KeepsRing.of_step {s s' : Pool τ} {a : Action τ} (hs : s.step a = some s') : KeepsRing s s' := by
  cases Pool.step_effect hs with
  | worker hw heffect =>
    generalize Worker.pc _ = pc at heffect
    cases heffect with
    | takes => exact ⟨rfl, rfl, fun h => Nat.mod_lt _ (Nat.zero_lt_of_lt h)⟩
    | _ => exact ⟨rfl, rfl, id⟩
  | wakes => exact ⟨rfl, rfl, id⟩
  | producer heffect =>
    cases heffect with
    | quiet => exact ⟨rfl, rfl, id⟩
    | adds => exact ⟨rfl, List.length_set, id⟩
  | manager heffect =>
    generalize s.manager = pc at heffect
    cases heffect <;> exact ⟨rfl, rfl, id⟩
  | destroy heffect =>
    generalize s.destroyer = pc at heffect
    cases heffect <;> exact ⟨rfl, rfl, id⟩

theorem raceInv_start (min max : ℕ) {taskqueue : List τ} (h : 1 ≤ taskqueue.length) :
    RaceInv (Race.start min max taskqueue) :=
  ⟨shutdownInv_start min max taskqueue, entriesInv_init min max taskqueue, rfl, h, trivial⟩

section

variable {r r' : Race τ} (h : RaceInv r)
include h

theorem RaceInv.looking_of_holder {k : ℕ} {place : Section} (hholder : r.holder = some (.worker k place))
    {w : Worker τ} (hw : r.pool.workers[k]? = some w) : w.pc.looking = true := by
  obtain ⟨v, hv, hlook⟩ : ∃ v : Worker τ, r.pool.workers[k]? = some v ∧ v.pc.looking = true := by
    have := h.holder
    rwa [Race.HolderOk, hholder] at this
  rw [hw, Option.some.injEq] at hv
  rwa [hv]

/-- A step that leaves the entries and the ring to themselves. -/
theorem RaceInv.of_keeps (hshutdown : ShutdownInv r') (hentries : EntriesInv r'.pool)
    (hring : KeepsRing r.pool r'.pool) (hholder : r'.HolderOk) : RaceInv r' :=
  ⟨hshutdown, hentries, hring.1.trans (h.capacity.trans hring.2.1.symm), hring.2.2 h.front, hholder⟩

theorem RaceInv.step {a : RaceAction τ} (hs : r.step a = some r') : RaceInv r' := by
  have hshutdown := (h.shutdown.step hs).1
  cases Race.step_effect hs with
  | @other a s' hfree hs' =>
    refine h.of_keeps hshutdown (h.entries.step hs') (.of_step hs') ?_
    have hkeeps := KeepsLooking.other hfree hs'
    have hholder := h.holder
    unfold Race.HolderOk at hholder ⊢
    dsimp only
    cases hcase : r.holder with
    | none => trivial
    | some holder =>
      rw [hcase] at hholder
      cases holder with
      | worker k place =>
        obtain ⟨w, hw, hlook⟩ := hholder
        exact hkeeps.workers k w hw hlook
      | producer k place =>
        obtain ⟨task, hp⟩ := hholder
        exact hkeeps.producers k task hp
  | @lockWorker k w hnone hw hlook =>
    rcases enter_cases r.pool k w with ⟨e, l, henter⟩ | ⟨e, henter⟩
    · rw [henter] at hshutdown ⊢
      exact h.of_keeps hshutdown (h.entries.congr rfl (entry_set hw hlook rfl) rfl rfl rfl)
        ⟨rfl, rfl, id⟩ trivial
    · rw [henter] at hshutdown ⊢
      exact h.of_keeps hshutdown (h.entries.congr rfl (List.Perm.refl _) rfl rfl rfl) ⟨rfl, rfl, id⟩
        ⟨w, hw, hlook⟩
  | @lockProducer k task hnone hp =>
    exact h.of_keeps hshutdown h.entries ⟨rfl, rfl, id⟩ ⟨task, hp⟩
  | @worker choice k place w r' hholder hw hs' =>
    have hlook := h.looking_of_holder hholder hw
    cases workerSection_effect hs' with
    | tests => exact h.of_keeps hshutdown h.entries ⟨rfl, rfl, id⟩ ⟨w, hw, hlook⟩
    | decides => exact h.of_keeps hshutdown h.entries ⟨rfl, rfl, id⟩ ⟨w, hw, hlook⟩
    | waits =>
      exact h.of_keeps hshutdown (h.entries.congr rfl (entry_set hw hlook rfl) rfl rfl rfl)
        ⟨rfl, rfl, id⟩ trivial
    | leaves =>
      exact h.of_keeps hshutdown (h.entries.congr rfl (entry_set hw hlook rfl) rfl rfl rfl)
        ⟨rfl, rfl, id⟩ trivial
    | takes hsignal =>
      exact h.of_keeps hshutdown (h.entries.congr rfl (entry_set hw hlook rfl) rfl rfl rfl)
        ⟨rfl, rfl, fun hfront => Nat.mod_lt _ (Nat.zero_lt_of_lt hfront)⟩ trivial
  | @producer choice k place task r' hholder hp hs' =>
    cases producerSection_effect hs' with
    | tests => exact h.of_keeps hshutdown h.entries ⟨rfl, rfl, id⟩ ⟨task, hp⟩
    | decides => exact h.of_keeps hshutdown h.entries ⟨rfl, rfl, id⟩ ⟨task, hp⟩
    | waits =>
      exact h.of_keeps hshutdown (h.entries.congr rfl (List.Perm.refl _) rfl rfl rfl) ⟨rfl, rfl, id⟩
        trivial
    | leaves =>
      exact h.of_keeps hshutdown (h.entries.congr rfl (List.Perm.refl _) rfl rfl rfl) ⟨rfl, rfl, id⟩
        trivial
    | puts hsignal =>
      refine h.of_keeps hshutdown (h.entries.congr rfl (List.Perm.of_eq ?_) rfl rfl rfl)
        ⟨rfl, List.length_set, id⟩ trivial
      exact filterMap_eq_of_map_eq (map_signal (fun w hw => w.entry_wake hw true) hsignal)

end

/-! ## The measure sinks -/

theorem cost_of_looking {w : Worker τ} (h : w.pc.looking = true) : w.cost = 8 := by
  unfold WorkerPc.looking at h
  unfold Worker.cost WorkerPc.cost
  split at h
  · next hpc => rw [hpc]
  · next hpc => rw [hpc]
  · cases h

theorem cost_of_wants {p : Producer τ} {task : τ} (h : p.wants = some task) : p.cost = 4 := by
  cases p with
  | calling task => rfl
  | woken task => rfl
  | _ => cases h

theorem Worker.cost_wake {w : Worker τ} (h : w.sleeps = true) (signalled : Bool) :
    (w.wake signalled).cost ≤ w.cost := by
  rw [Worker.cost, Worker.cost, Worker.pc_of_sleeps h]
  exact Nat.le_succ 8

theorem Producer.cost_wake {p : Producer τ} (h : p.sleeps = true) : p.wake.cost + 1 ≤ p.cost := by
  cases p with
  | asleep task => exact le_rfl
  | _ => cases h

/-- One worker moves, and the producers do not gain. -/
theorem Pool.cost_set_worker {s : Pool τ} {k : ℕ} {w : Worker τ} (hw : s.workers[k]? = some w)
    (s' : Pool τ) (w' : Worker τ) (hworkers : s'.workers = s.workers.set k w')
    (hproducers : total Producer.cost s'.producers ≤ total Producer.cost s.producers)
    (hmanager : s'.manager = s.manager) (hdestroyer : s'.destroyer = s.destroyer)
    (hlength : s'.pool.threadIDs.length = s.pool.threadIDs.length) :
    s'.cost + w.cost ≤ s.cost + w'.cost := by
  have hset := total_set Worker.cost hw w'
  rw [Pool.cost, Pool.cost, hworkers, hmanager, hdestroyer, hlength]
  omega

/-- One call of `threadPoolAdd` moves, and the workers do not gain. -/
theorem Pool.cost_set_producer {s : Pool τ} {k : ℕ} {p : Producer τ} (hp : s.producers[k]? = some p)
    (s' : Pool τ) (p' : Producer τ) (hproducers : s'.producers = s.producers.set k p')
    (hworkers : total Worker.cost s'.workers ≤ total Worker.cost s.workers)
    (hmanager : s'.manager = s.manager) (hdestroyer : s'.destroyer = s.destroyer)
    (hlength : s'.pool.threadIDs.length = s.pool.threadIDs.length) :
    s'.cost + p.cost ≤ s.cost + p'.cost := by
  have hset := total_set Producer.cost hp p'
  rw [Pool.cost, Pool.cost, hproducers, hmanager, hdestroyer, hlength]
  omega

/-- A worker outside of its section. -/
theorem cost_worker {s s' : Pool τ} {k choice : ℕ} {w : Worker τ} (hw : s.workers[k]? = some w)
    (hidle : w.pc.looking = false) (hs : s.workerStep k w choice = some s') : s'.cost + 1 ≤ s.cost := by
  have heffect := workerStep_effect hs
  have hcost : ∀ pc, w.pc = pc → w.cost = pc.cost := fun pc hpc => hpc ▸ rfl
  generalize w.pc = pc at heffect hidle hcost
  have hset : ∀ (w' : Worker τ), s'.workers = s.workers.set k w' → s'.producers = s.producers →
      s'.manager = s.manager → s'.destroyer = s.destroyer →
      s'.pool.threadIDs.length = s.pool.threadIDs.length → s'.cost + w.cost ≤ s.cost + w'.cost :=
    fun w' hworkers hproducers => Pool.cost_set_worker hw s' w' hworkers (by rw [hproducers])
  cases heffect with
  | starts task =>
    have hle := hset { w with pc := .busy task } rfl rfl rfl rfl rfl
    rw [hcost _ rfl] at hle
    exact Nat.le_of_add_le_add_right (b := 9) hle
  | finishes task =>
    have hle := hset { w with pc := .ready } rfl rfl rfl rfl rfl
    rw [hcost _ rfl] at hle
    exact Nat.le_of_add_le_add_right (b := 8) hle
  | clears =>
    have hle := hset { w with pc := .exited } rfl rfl rfl rfl (length_clearEntry _ _)
    rw [hcost _ rfl] at hle
    exact hle
  | exits => cases hidle
  | _ => simp_all

theorem cost_signalNotEmpty {workers workers' : List (Worker τ)} {choice : ℕ}
    (h : signalNotEmpty workers choice = some workers') :
    total Worker.cost workers' ≤ total Worker.cost workers :=
  total_signal Worker.cost (fun _ hw => Worker.cost_wake hw true) h

theorem cost_signalNotFull {producers producers' : List (Producer τ)} {choice : ℕ}
    (h : signalNotFull producers choice = some producers') :
    total Producer.cost producers' ≤ total Producer.cost producers :=
  total_signal Producer.cost (fun _ hp => (Nat.le_succ _).trans (Producer.cost_wake hp)) h

theorem cost_new (tids : List ℕ) :
    total Worker.cost (tids.map fun tid => (⟨tid, .ready⟩ : Worker τ)) = 8 * tids.length := by
  rw [total, List.map_map]
  simp [Function.comp_def, Worker.cost, WorkerPc.cost, Nat.mul_comm]

/-- The manager leaves its loop, or comes closer to the test of it. -/
theorem cost_manager {s s' : Pool τ} {choice : ℕ} (hdown : s.pool.shutdown = true) (hfresh : 0 < s.nextTid)
    (hs : s.managerStep choice = some s') : s'.cost + 1 ≤ s.cost := by
  have hmanager : ∀ pc, s'.manager = pc → s'.workers = s.workers → s'.producers = s.producers →
      s'.destroyer = s.destroyer → s'.pool.threadIDs = s.pool.threadIDs →
      pc.cost + 1 ≤ s.manager.cost → s'.cost + 1 ≤ s.cost := by
    intro pc hpc hworkers hproducers hdestroyer hids hle
    rw [Pool.cost, Pool.cost, hpc, hworkers, hproducers, hdestroyer, hids]
    omega
  simp only [Pool.managerStep] at hs
  split at hs
  · next hpc =>
    cases hs
    rw [if_pos hdown] at *
    exact hmanager _ rfl rfl rfl rfl rfl (hpc ▸ le_rfl)
  · next hpc =>
    cases hs
    exact hmanager _ rfl rfl rfl rfl rfl (hpc ▸ le_rfl)
  · next hpc =>
    cases hs
    exact hmanager _ rfl rfl rfl rfl rfl (hpc ▸ le_rfl)
  · next q l b hpc =>
    split_ifs at hs
    · generalize hcreate : createThreads s.pool.threadIDs number s.nextTid = created at hs
      obtain ⟨entries, new⟩ := created
      cases hs
      obtain ⟨hlength, -, hnew⟩ := createThreads_spec hfresh hcreate
      simp only [Pool.cost, total_append, cost_new, hlength, hpc, ManagerPc.cost]
      unfold number at hnew ⊢
      omega
    · cases hs
      refine hmanager _ rfl rfl rfl rfl rfl ?_
      rw [hpc]
      simp only [ManagerPc.cost, number]
      omega
  · next l b hpc =>
    split_ifs at hs
    · cases hs
      exact hmanager _ rfl rfl rfl rfl rfl (hpc ▸ le_rfl)
    · cases hs
      refine hmanager _ rfl rfl rfl rfl rfl ?_
      rw [hpc]
      simp only [ManagerPc.cost, number]
      omega
  · next hpc =>
    cases hs
    exact hmanager _ rfl rfl rfl rfl rfl (hpc ▸ le_rfl)
  · next n hpc =>
    obtain ⟨workers, hsignal, rfl⟩ := Option.map_eq_some_iff.mp hs
    have hworkers := cost_signalNotEmpty hsignal
    simp only [Pool.cost, hpc, ManagerPc.cost]
    omega
  · cases hs

theorem cost_destroy {s s' : Pool τ} (hs : s.destroyStep = some s') : s'.cost + 1 ≤ s.cost := by
  have hdestroyer : ∀ pc, s'.destroyer = pc → s'.workers = s.workers → s'.producers = s.producers →
      s'.manager = s.manager → s'.pool.threadIDs.length = s.pool.threadIDs.length →
      pc.cost s.pool.threadIDs.length + 1 ≤ s.destroyer.cost s.pool.threadIDs.length →
      s'.cost + 1 ≤ s.cost := by
    intro pc hpc hworkers hproducers hmanager hlength hle
    rw [Pool.cost, Pool.cost, hpc, hworkers, hproducers, hmanager, hlength]
    omega
  have heffect := destroyStep_effect hs
  generalize hpc : s.destroyer = pc at heffect
  rw [hpc] at hdestroyer
  cases heffect with
  | flags => exact hdestroyer _ rfl rfl rfl rfl rfl le_rfl
  | broadcasts =>
    have hworkers : total Worker.cost (broadcast Worker.sleeps (Worker.wake true) s.workers) ≤
        total Worker.cost s.workers :=
      total_broadcast Worker.cost (fun _ hw => Worker.cost_wake hw true) s.workers
    have hproducers : total Producer.cost (broadcast Producer.sleeps Producer.wake s.producers) ≤
        total Producer.cost s.producers :=
      total_broadcast Producer.cost (fun _ hp => (Nat.le_succ _).trans (Producer.cost_wake hp)) s.producers
    simp only [Pool.cost, hpc, DestroyPc.cost]
    omega
  | joinsManager => exact hdestroyer _ rfl rfl rfl rfl rfl (by simp only [DestroyPc.cost]; omega)
  | done hi => exact hdestroyer _ rfl rfl rfl rfl rfl (by simp only [DestroyPc.cost]; omega)
  | @free i hi =>
    have hlt := (List.getElem?_eq_some_iff.mp hi).1
    exact hdestroyer _ rfl rfl rfl rfl rfl (by simp only [DestroyPc.cost]; omega)
  | @finds i tid hi =>
    have hlt := (List.getElem?_eq_some_iff.mp hi).1
    exact hdestroyer _ rfl rfl rfl rfl rfl (by simp only [DestroyPc.cost]; omega)
  | misses => exact hdestroyer _ rfl rfl rfl rfl rfl (by simp only [DestroyPc.cost]; omega)
  | waits => exact hdestroyer _ rfl rfl rfl rfl rfl (by simp only [DestroyPc.cost]; omega)
  | joins => exact hdestroyer _ rfl rfl rfl rfl List.length_set (by simp only [DestroyPc.cost]; omega)

/-- A step that is no part of a section. -/
theorem cost_other {r : Race τ} {a : Action τ} {s' : Pool τ} (hdown : r.pool.pool.shutdown = true)
    (hfresh : 0 < r.pool.nextTid) (hfree : r.unlocked a = true) (hs : r.pool.step a = some s') :
    s'.cost + 1 ≤ r.pool.cost + if RaceAction.isCall (.other a) then 4 + 1 else 0 := by
  cases a with
  | worker k choice =>
    simp only [Pool.step] at hs
    split at hs
    · next w hw => exact cost_worker hw (by simpa [Race.unlocked, hw] using hfree) hs
    · cases hs
  | wakeWorker k =>
    simp only [Pool.step] at hs
    split at hs
    · next w hw =>
      split_ifs at hs with hsleeps
      cases hs
      have hle := Pool.cost_set_worker hw (r.pool.setWorker k w (.woken false)) _ rfl le_rfl rfl rfl rfl
      rw [show w.cost = 9 by rw [Worker.cost, Worker.pc_of_sleeps hsleeps]; rfl] at hle
      exact Nat.le_of_add_le_add_right (b := 8) hle
    · cases hs
  | call task =>
    cases hs
    simp only [Pool.cost, total_append, RaceAction.isCall, if_true]
    show _ + (_ + 4) + _ + _ + 1 ≤ _
    omega
  | producer k choice => cases hfree
  | wakeProducer k =>
    simp only [Pool.step] at hs
    split at hs
    · next p hp =>
      split_ifs at hs with hsleeps
      rw [Option.some.injEq] at hs
      have hle := Pool.cost_set_producer hp s' p.wake (hs ▸ rfl) (hs ▸ le_rfl) (hs ▸ rfl) (hs ▸ rfl) (hs ▸ rfl)
      have hwake := Producer.cost_wake hsleeps
      simp only [RaceAction.isCall, Bool.false_eq_true, if_false]
      omega
    · cases hs
  | manager choice => exact cost_manager hdown hfresh hs
  | destroy => exact cost_destroy hs

/-- A worker that held the mutex, or was about to take it, moves and releases it. -/
theorem cost_release_worker {s : Pool τ} {k n : ℕ} {w : Worker τ} (hw : s.workers[k]? = some w)
    (hlook : w.pc.looking = true) {s' : Pool τ} (w' : Worker τ)
    (hworkers : s'.workers = s.workers.set k w')
    (hproducers : total Producer.cost s'.producers ≤ total Producer.cost s.producers)
    (hmanager : s'.manager = s.manager) (hdestroyer : s'.destroyer = s.destroyer)
    (hlength : s'.pool.threadIDs.length = s.pool.threadIDs.length) (hle : w'.cost + 4 ≤ 8 + n) :
    (Race.mk s' none).cost + 1 ≤ s.cost + n := by
  have hset := Pool.cost_set_worker hw s' w' hworkers hproducers hmanager hdestroyer hlength
  rw [cost_of_looking hlook] at hset
  show s'.cost + 3 + 1 ≤ s.cost + n
  omega

theorem cost_release_producer {s : Pool τ} {k n : ℕ} {task : τ}
    (hp : s.producers[k]?.bind Producer.wants = some task) {s' : Pool τ} (p' : Producer τ)
    (hproducers : s'.producers = s.producers.set k p')
    (hworkers : total Worker.cost s'.workers ≤ total Worker.cost s.workers)
    (hmanager : s'.manager = s.manager) (hdestroyer : s'.destroyer = s.destroyer)
    (hlength : s'.pool.threadIDs.length = s.pool.threadIDs.length) (hle : p'.cost + 4 ≤ 4 + n) :
    (Race.mk s' none).cost + 1 ≤ s.cost + n := by
  obtain ⟨p, hget, hwants⟩ := Option.bind_eq_some_iff.mp hp
  have hset := Pool.cost_set_producer hget s' p' hproducers hworkers hmanager hdestroyer hlength
  rw [cost_of_wants hwants] at hset
  show s'.cost + 3 + 1 ≤ s.cost + n
  omega

/-- A worker in its section. -/
theorem cost_workerSection {s : Pool τ} {k choice : ℕ} {w : Worker τ} {place : Section} {r' : Race τ}
    (hdown : s.pool.shutdown = true) (hw : s.workers[k]? = some w) (hlook : w.pc.looking = true)
    (hs : s.workerSection k w choice place = some r') : r'.cost + 1 ≤ s.cost + place.cost := by
  cases workerSection_effect hs with
  | tests =>
    rw [testLoop, hdown, Bool.not_true, Bool.and_false, if_neg Bool.false_ne_true]
    exact le_rfl
  | waits =>
    refine cost_release_worker hw hlook { w with pc := .asleep } rfl le_rfl rfl rfl rfl ?_
    exact Nat.le_refl (9 + 4)
  | decides =>
    rw [testShutdown, if_pos hdown]
    exact le_rfl
  | leaves =>
    refine cost_release_worker hw hlook { w with pc := .exiting } rfl le_rfl rfl rfl rfl ?_
    exact Nat.le_add_right (1 + 4) 3
  | @takes _ task producers hsignal =>
    refine cost_release_worker hw hlook { w with pc := .took task } rfl (cost_signalNotFull hsignal)
      rfl rfl rfl ?_
    exact Nat.le_refl (10 + 4)

/-- A call of `threadPoolAdd` in its section. -/
theorem cost_producerSection {s : Pool τ} {k choice : ℕ} {task : τ} {place : Section} {r' : Race τ}
    (hdown : s.pool.shutdown = true) (hp : s.producers[k]?.bind Producer.wants = some task)
    (hs : s.producerSection k task choice place = some r') : r'.cost + 1 ≤ s.cost + place.cost := by
  cases producerSection_effect hs with
  | tests =>
    rw [testLoop, hdown, Bool.not_true, Bool.and_false, if_neg Bool.false_ne_true]
    exact le_rfl
  | waits =>
    refine cost_release_producer hp (.asleep task) rfl le_rfl rfl rfl rfl ?_
    exact Nat.le_refl (5 + 4)
  | decides =>
    rw [testShutdown, if_pos hdown]
    exact le_rfl
  | leaves =>
    refine cost_release_producer hp .returned rfl le_rfl rfl rfl rfl ?_
    exact Nat.le_refl (0 + 4)
  | puts hsignal =>
    refine cost_release_producer hp .returned rfl (cost_signalNotEmpty hsignal) rfl rfl rfl ?_
    exact Nat.le_add_right (0 + 4) 6

/-- With `shutdown` set, every step brings the pool closer to its end, a new call
    of `threadPoolAdd` apart. -/
theorem Race.step_cost {r r' : Race τ} {a : RaceAction τ} (h : RaceInv r)
    (hdown : r.pool.pool.shutdown = true) (hs : r.step a = some r') :
    r'.cost + 1 ≤ r.cost + if a.isCall then 4 + 1 else 0 := by
  cases Race.step_effect hs with
  | other hfree hs' =>
    have hle := cost_other hdown h.entries.fresh hfree hs'
    simp only [Race.cost]
    omega
  | @lockWorker k w hnone hw hlook =>
    have hcost : r.cost = r.pool.cost + 3 := by rw [Race.cost, hnone, holderCost]
    rw [hcost]
    rcases enter_cases r.pool k w with ⟨e, l, henter⟩ | ⟨e, henter⟩
    · rw [henter]
      refine cost_release_worker hw hlook { w with pc := .exiting } rfl le_rfl rfl rfl rfl ?_
      exact Nat.le_add_right (1 + 4) 6
    · rw [henter]
      exact le_rfl
  | lockProducer hnone hp =>
    rw [Race.cost, Race.cost, hnone]
    exact le_rfl
  | @worker choice k place w r' hholder hw hs' =>
    have hlook := h.looking_of_holder hholder hw
    rw [show r.cost = r.pool.cost + place.cost by rw [Race.cost, hholder]; rfl]
    exact cost_workerSection hdown hw hlook hs'
  | @producer choice k place task r' hholder hp hs' =>
    rw [show r.cost = r.pool.cost + place.cost by rw [Race.cost, hholder]; rfl]
    exact cost_producerSection hdown hp hs'

theorem Race.down_of_step {r r' : Race τ} {a : RaceAction τ} (hs : r.step a = some r')
    (hdown : r.pool.pool.shutdown = true) : r'.pool.pool.shutdown = true := by
  cases Race.step_effect hs with
  | @other a s' hfree hs' =>
    refine Bool.of_not_eq_false fun hrun => ?_
    rw [Pool.running_of_step hs' hrun] at hdown
    cases hdown
  | lockWorker hnone hw hlook => exact (enter_step r.pool _ _).shutdown.trans hdown
  | lockProducer hnone hp => exact hdown
  | worker hholder hw hs' => exact (workerSection_step hs').shutdown.trans hdown
  | producer hholder hp hs' => exact (producerSection_step hs').shutdown.trans hdown

/-! ## Where the pool can stop -/

/-- `threadPoolDestory` has returned, or has called `pthread_join` with the `0` of an entry
    that was cleared behind its test, and no other thread is left behind. -/
structure Finished (r : Race τ) : Prop where
  destroyer : r.pool.destroyer = .destroyed ∨ r.pool.destroyer = .joinsZero
  manager : r.pool.manager = .exited
  workers : ∀ w ∈ r.pool.workers, w.pc = .exited
  producers : ∀ p ∈ r.pool.producers, p = .returned
  holder : r.holder = none

theorem Race.poolStep_of_stopped {r : Race τ}
    (hstop : Stopped Race.step (fun a => RaceAction.ofThread a = true) r) {a : Action τ}
    (hfree : r.unlocked a = true) (hown : (RaceAction.other a).ofThread = true) :
    r.pool.step a = none := by
  have hnone := hstop (.other a) hown
  rw [Race.step, if_pos hfree] at hnone
  exact Option.map_eq_none_iff.mp hnone

section

variable {r : Race τ} (h : RaceInv r)
  (hstop : Stopped Race.step (fun a => RaceAction.ofThread a = true) r)
include h hstop

theorem RaceInv.holder_of_stopped : r.holder = none := by
  have hholder := h.holder
  have hfront : ∃ task, r.pool.pool.taskqueue[r.pool.pool.queueFront]? = some task :=
    ⟨_, List.getElem?_eq_getElem (h.capacity ▸ h.front)⟩
  unfold Race.HolderOk at hholder
  cases hcase : r.holder with
  | none => rfl
  | some holder =>
    rw [hcase] at hholder
    cases holder with
    | worker k place =>
      obtain ⟨w, hw, -⟩ := hholder
      obtain ⟨task, htask⟩ := hfront
      obtain ⟨choice, producers, hsignal⟩ := exists_signal Producer.sleeps Producer.wake r.pool.producers
      have hnone := hstop (.inside choice) rfl
      simp only [Race.step, hcase, hw] at hnone
      cases place with
      | working =>
        have htake : r.pool.takeTask k w choice = none := Option.map_eq_none_iff.mp hnone
        simp only [Pool.takeTask, htask, signalNotFull, hsignal] at htake
        cases htake
      | _ => cases hnone
    | producer k place =>
      obtain ⟨task, hp⟩ := hholder
      obtain ⟨choice, workers, hsignal⟩ := exists_signal Worker.sleeps (Worker.wake true) r.pool.workers
      have hnone := hstop (.inside choice) rfl
      simp only [Race.step, hcase, hp] at hnone
      cases place with
      | working =>
        have hput : r.pool.putTask k task choice = none := Option.map_eq_none_iff.mp hnone
        rw [Pool.putTask, signalNotEmpty, hsignal] at hput
        cases hput
      | _ => cases hnone

theorem RaceInv.destroyStep_of_stopped : r.pool.destroyStep = none :=
  Race.poolStep_of_stopped hstop (a := .destroy) (by simp [Race.unlocked, h.holder_of_stopped hstop]) rfl

/-- `threadPoolDestory` has come past its broadcasts, so no thread sleeps any more. -/
theorem RaceInv.broadcastDone_of_stopped : r.pool.destroyer.broadcastDone = true := by
  have hdestroy := h.destroyStep_of_stopped hstop
  rw [Pool.destroyStep] at hdestroy
  cases hpc : r.pool.destroyer with
  | notCalled => simp [hpc] at hdestroy
  | flagged => simp [hpc] at hdestroy
  | _ => rfl

theorem RaceInv.manager_of_stopped : r.pool.manager = .exited := by
  obtain ⟨choice, workers, hsignal⟩ := exists_signal Worker.sleeps (Worker.wake true) r.pool.workers
  have hnone : r.pool.managerStep choice = none :=
    Race.poolStep_of_stopped hstop (a := .manager choice)
      (by simp [Race.unlocked, h.holder_of_stopped hstop]) rfl
  rw [Pool.managerStep] at hnone
  split at hnone
  · cases hnone
  · cases hnone
  · cases hnone
  · split_ifs at hnone
  · split_ifs at hnone
  · cases hnone
  · rw [signalNotEmpty, hsignal] at hnone
    cases hnone
  · next hpc => exact hpc

theorem RaceInv.workers_of_stopped : ∀ w ∈ r.pool.workers, w.pc = .exited := by
  intro w hmem
  obtain ⟨k, hw⟩ := List.mem_iff_getElem?.mp hmem
  by_cases hlook : w.pc.looking = true
  · have hnone := hstop (.lockWorker k) rfl
    rw [Race.step, h.holder_of_stopped hstop, hw] at hnone
    simp [hlook] at hnone
  · have hnone : r.pool.workerStep k w 0 = none := by
      have := Race.poolStep_of_stopped hstop (a := .worker k 0) (by simp [Race.unlocked, hw, hlook]) rfl
      rwa [Pool.step, hw] at this
    have hsleeps := (h.shutdown.awake (h.broadcastDone_of_stopped hstop)).workers w hmem
    rw [Pool.workerStep] at hnone
    unfold Worker.sleeps at hsleeps
    cases hpc : w.pc <;> simp_all [WorkerPc.looking]

theorem RaceInv.producers_of_stopped : ∀ p ∈ r.pool.producers, p = .returned := by
  intro p hmem
  obtain ⟨k, hp⟩ := List.mem_iff_getElem?.mp hmem
  have hnone := hstop (.lockProducer k) rfl
  rw [Race.step, h.holder_of_stopped hstop, hp] at hnone
  cases p with
  | returned => rfl
  | asleep task =>
    have hsleeps := (h.shutdown.awake (h.broadcastDone_of_stopped hstop)).producers _ hmem
    cases hsleeps
  | _ => simp [Producer.wants] at hnone

/-- There is no thread left that `threadPoolDestory` could wait for. -/
theorem RaceInv.destroyer_of_stopped :
    r.pool.destroyer = .destroyed ∨ r.pool.destroyer = .joinsZero := by
  have hended : ∀ tid, r.pool.ended tid = true := fun tid =>
    List.all_eq_true.mpr fun w hmem => by rw [h.workers_of_stopped hstop w hmem]
  have hdestroy := h.destroyStep_of_stopped hstop
  rw [Pool.destroyStep] at hdestroy
  split at hdestroy
  · cases hdestroy
  · cases hdestroy
  · rw [h.manager_of_stopped hstop] at hdestroy
    cases hdestroy
  · split at hdestroy <;> cases hdestroy
  · split at hdestroy <;> cases hdestroy
  · rw [if_pos (hended _)] at hdestroy
    cases hdestroy
  · next hpc => exact .inr hpc
  · next hpc => exact .inl hpc

theorem RaceInv.finished_of_stopped : Finished r where
  destroyer := h.destroyer_of_stopped hstop
  manager := h.manager_of_stopped hstop
  workers := h.workers_of_stopped hstop
  producers := h.producers_of_stopped hstop
  holder := h.holder_of_stopped hstop

end

/-! ## The theorems -/

/-- What holds from the point on where `shutdown` is set. -/
structure EndsInv (r : Race τ) : Prop where
  inv : RaceInv r
  down : r.pool.pool.shutdown = true

section

variable {r r' : Race τ} (h : EndsInv r) {a : RaceAction τ} (hs : r.step a = some r')
include h hs

theorem EndsInv.step : EndsInv r' := ⟨h.inv.step hs, Race.down_of_step hs h.down⟩

theorem EndsInv.cost : r'.cost + 1 ≤ r.cost + if a.isCall then 4 + 1 else 0 :=
  Race.step_cost h.inv h.down hs

theorem EndsInv.cost_lt (hown : a.ofThread = true) : r'.cost < r.cost := by
  have hle := h.cost hs
  have hcall : ¬a.isCall = true := by
    intro hcall
    unfold RaceAction.isCall at hcall
    split at hcall
    · cases hown
    · cases hcall
  rwa [if_neg hcall] at hle

end

theorem raceInv_of_run {min max : ℕ} {taskqueue : List τ} (hsize : 1 ≤ taskqueue.length)
    {as : List (RaceAction τ)} {r : Race τ} (has : exec Race.step (.start min max taskqueue) as = some r) :
    RaceInv r :=
  Reachable.inv (fun _ _ _ h hs => h.step hs) (raceInv_start min max hsize) ⟨as, has⟩

/-- In every run of a pool whose queue has room for a task, from the point on where
    `shutdown` is set: the run makes no more steps than the measure says, five times
    the number of new calls added; where no thread of the pool or of a call can move,
    `threadPoolDestory` has returned, or is in `pthread_join` on `0`, and everything else
    has ended; and the threads can always be run until this is so. A task takes one step:
    each of them returns. -/
theorem shutdown_completes {min max : ℕ} {taskqueue : List τ} (hsize : 1 ≤ taskqueue.length)
    {as bs : List (RaceAction τ)} {r r' : Race τ}
    (has : exec Race.step (.start min max taskqueue) as = some r) (hdown : r.pool.pool.shutdown = true)
    (hbs : exec Race.step r bs = some r') :
    bs.length + r'.cost ≤ r.cost + 5 * bs.countP RaceAction.isCall ∧
      (Stopped Race.step (fun a => RaceAction.ofThread a = true) r' → Finished r') ∧
      ∃ cs r'', (∀ c ∈ cs, RaceAction.ofThread c = true) ∧ exec Race.step r' cs = some r'' ∧
        Finished r'' := by
  have hends : EndsInv r := ⟨raceInv_of_run hsize has, hdown⟩
  have hends' : EndsInv r' := Reachable.inv (fun _ _ _ h hs => h.step hs) hends ⟨bs, hbs⟩
  refine ⟨exec_length_le (fun _ _ _ h hs => h.step hs) (fun _ _ _ h hs => h.cost hs) hends hbs,
    fun hstop => hends'.inv.finished_of_stopped hstop, ?_⟩
  obtain ⟨cs, r'', hcs, hrun, hends'', hstop⟩ :=
    exists_stopped (fun _ _ _ h hs => h.step hs)
      (fun _ a _ h (hown : RaceAction.ofThread a = true) hs => h.cost_lt hs hown) hends'
  exact ⟨cs, r'', hcs, hrun, hends''.inv.finished_of_stopped hstop⟩

theorem shutdown_completes_lateFlag :
    ∃ r r', exec Race.step (.start 1 2 [0, 0]) lateFlag = some r ∧ exec Race.step r farewell = some r' ∧
      farewell.length + r'.cost ≤ r.cost + 5 * farewell.countP RaceAction.isCall ∧
      ∃ cs r'', (∀ c ∈ cs, RaceAction.ofThread c = true) ∧ exec Race.step r' cs = some r'' ∧
        Finished r'' := by
  have hbefore : (exec Race.step (.start 1 2 [0, 0]) lateFlag).map (fun r => r.pool.pool.shutdown) =
      some true := by decide +kernel
  have hafter : (exec Race.step (.start 1 2 [0, 0]) (lateFlag ++ farewell)).isSome = true := by
    decide +kernel
  obtain ⟨r, hr, hdown⟩ := Option.map_eq_some_iff.mp hbefore
  rw [exec_append hr] at hafter
  obtain ⟨r', hr'⟩ := Option.isSome_iff_exists.mp hafter
  obtain ⟨hlength, -, hend⟩ := shutdown_completes (by decide) hr hdown hr'
  exact ⟨r, r', hr, hr', hlength, hend⟩

-- The last worker clears its entry between the test and the call.
example : (exec Pool.step (threadInit 1 2 [0, 0]) [.destroy, .destroy, .manager 0, .destroy,
    .worker 0 0, .destroy, .worker 0 0, .destroy]).map (fun s => s.destroyer) = some .joinsZero := by
  decide

/-- In every run: once `threadPoolDestory` has freed the pool, the only steps left
    that touch it are those of calls of `threadPoolAdd`, new ones or ones under way.
    No worker, no manager and no wake-up is among them. -/
theorem nothing_after_free {min max : ℕ} {taskqueue : List τ} (hsize : 1 ≤ taskqueue.length)
    {as : List (RaceAction τ)} {a : RaceAction τ} {r r' : Race τ}
    (has : exec Race.step (.start min max taskqueue) as = some r)
    (hfreed : r.pool.destroyer = .destroyed) (hs : r.step a = some r') :
    a.isCall = true ∨ ∃ k task, r.pool.producers[k]?.bind Producer.wants = some task ∧
      (a = .lockProducer k ∨ ∃ choice place, a = .inside choice ∧ r.holder = some (.producer k place)) := by
  have hinv := raceInv_of_run hsize has
  have hexited : ∀ {k : ℕ} {w : Worker τ}, r.pool.workers[k]? = some w → w.pc = .exited :=
    fun hw => hinv.entries.exited_of_destroyed hfreed _ (List.mem_of_getElem? hw)
  have hawake := hinv.shutdown.awake (by rw [hfreed]; rfl)
  cases Race.step_effect hs with
  | @other a s' hfree hs' =>
    refine .inl ?_
    cases a with
    | call task => rfl
    | producer k choice => cases hfree
    | worker k choice =>
      simp only [Pool.step] at hs'
      split at hs'
      · next w hw => simp [Pool.workerStep, hexited hw] at hs'
      · cases hs'
    | wakeWorker k =>
      simp only [Pool.step] at hs'
      split at hs'
      · next w hw => simp [Worker.sleeps, hexited hw] at hs'
      · cases hs'
    | wakeProducer k =>
      simp only [Pool.step] at hs'
      split at hs'
      · next p hp => simp [hawake.producers p (List.mem_of_getElem? hp)] at hs'
      · cases hs'
    | manager choice =>
      have hended := hinv.entries.joined (by rw [hfreed]; rfl)
      simp [Pool.step, Pool.managerStep, hended] at hs'
    | destroy => simp [Pool.step, Pool.destroyStep, hfreed] at hs'
  | lockWorker hnone hw hlook =>
    rw [hexited hw] at hlook
    cases hlook
  | @lockProducer k task hnone hp => exact .inr ⟨k, task, hp, .inl rfl⟩
  | @worker choice k place w r' hholder hw hs' =>
    have hlook := hinv.looking_of_holder hholder hw
    rw [hexited hw] at hlook
    cases hlook
  | @producer choice k place task r' hholder hp hs' =>
    exact .inr ⟨k, task, hp, .inr ⟨choice, place, rfl, hholder⟩⟩

/-- What is left after `farewell`: the worker and the manager end, and the pool is freed
    while a call that has come in late is still to begin. -/
def burial : List (RaceAction ℕ) :=
  [.other (.worker 0 0), .other (.worker 1 0), .other (.manager 0), .other (.manager 0)] ++
    List.replicate 4 (.other .destroy) ++ [.other (.call 5)]

theorem nothing_after_free_burial :
    ∃ r r', exec Race.step (.start 1 2 [0, 0]) (lateFlag ++ farewell ++ burial) = some r ∧
      r.pool.destroyer = .destroyed ∧ r.step (.lockProducer 3) = some r' ∧
      ∃ (k : ℕ) (task : ℕ), r.pool.producers[k]?.bind Producer.wants = some task := by
  have hrun : (exec Race.step (.start 1 2 [0, 0]) (lateFlag ++ farewell ++ burial)).map (fun r =>
      (decide (r.pool.destroyer = .destroyed), (r.step (.lockProducer 3)).isSome)) =
      some (true, true) := by decide +kernel
  obtain ⟨r, hr, hboth⟩ := Option.map_eq_some_iff.mp hrun
  obtain ⟨hfreed, hstep⟩ := Prod.mk.inj hboth
  obtain ⟨r', hr'⟩ := Option.isSome_iff_exists.mp hstep
  have hfreed := of_decide_eq_true hfreed
  rcases nothing_after_free (by decide) hr hfreed hr' with hcall | ⟨k, task, hp, -⟩
  · cases hcall
  · exact ⟨r, r', hr, hfreed, hr', k, task, hp⟩

end LinuxFileManager.ThreadPool
