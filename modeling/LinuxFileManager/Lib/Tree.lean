import Mathlib

/-!
# A tree of directories

A file system as programs see it through `access` and `mkdir`: a location, the
list of names from the root on, holds a directory, something else (`file`), or
nothing, and what holds something is in a directory. There are no symbolic links.

A path is a string of bytes. It is resolved component by component from the root
or from the working directory; `.` and an empty component stay where they are,
and `..` goes to the directory above. What a process may do is a `Policy`: which
directories it may search, and in which state of the tree it may create an entry
(permissions, quotas, a read-only file system, names that are too long).

Results:

* `mkdir_ok`, `mkdir_eexist`: what `mkdir` does.
* `Grows.walk`, `Grows.access`: what has been found is found again after
  directories have been created.
* `resolve_of_isPrefix`: a path that is resolved passes through directories.
-/

namespace LinuxFileManager.Lib

/-- The names from the root on. -/
abbrev Location := List (List UInt8)

/-- What a location holds: a directory, or anything else. -/
inductive EntryKind where
  | dir
  | file
  deriving DecidableEq

/-- A file system, with the working directory of the process. -/
structure Tree where
  kind : Location → Option EntryKind
  cwd : Location
  root_dir : kind [] = some .dir
  cwd_dir : kind cwd = some .dir
  parent_dir : ∀ p c, kind (p ++ [c]) ≠ none → kind p = some .dir

/-- What the process may do. -/
structure Policy where
  maySearch : Location → Bool
  mayCreate : Tree → Location → Bool

/-- The errors of `access` and `mkdir`. -/
inductive Errno where
  | enoent
  | enotdir
  | eacces
  | eexist
  /-- The entry may not be created. -/
  | other
  deriving DecidableEq

/-- Everything is allowed. -/
def Policy.all : Policy := ⟨fun _ => true, fun _ _ => true⟩

/-- Nothing but the root. -/
def Tree.bare : Tree where
  kind q := if q = [] then some .dir else none
  cwd := []
  root_dir := rfl
  cwd_dir := rfl
  parent_dir := by
    intro p c h
    rw [if_neg (List.append_ne_nil_of_right_ne_nil p (List.cons_ne_nil c []))] at h
    exact absurd rfl h

def slash : UInt8 := 0x2F
def dot : List UInt8 := [0x2E]
def dotDot : List UInt8 := [0x2E, 0x2E]

/-- The parts of a path between its slashes. -/
def components (path : List UInt8) : List (List UInt8) := path.splitOn slash

/-- The location that the component `c` leads to from `p`. -/
def enter (p : Location) (c : List UInt8) : Location :=
  if c = [] ∨ c = dot then p else if c = dotDot then p.dropLast else p ++ [c]

namespace Tree

/-- The location that the components lead to. A component is looked up in a directory,
    which has to be searched unless the component is empty. -/
def walk (t : Tree) (k : Policy) : Location → List (List UInt8) → Except Errno Location
  | p, [] => .ok p
  | p, c :: cs =>
    match t.kind p with
    | none => .error .enoent
    | some .file => .error .enotdir
    | some .dir =>
      if c ≠ [] ∧ k.maySearch p = false then .error .eacces else t.walk k (enter p c) cs

/-- Where a path starts. -/
def start (t : Tree) (path : List UInt8) : Location :=
  if path.head? = some slash then [] else t.cwd

def resolve (t : Tree) (k : Policy) (path : List UInt8) : Except Errno Location :=
  t.walk k (t.start path) (components path)

/-- The path names a directory. -/
def IsDir (t : Tree) (k : Policy) (path : List UInt8) : Prop :=
  ∃ q, t.resolve k path = .ok q ∧ t.kind q = some .dir

/-- The path names something that is not a directory. -/
def IsFile (t : Tree) (k : Policy) (path : List UInt8) : Prop :=
  ∃ q, t.resolve k path = .ok q ∧ t.kind q = some .file

/-- `access(path, F_OK) == 0`. -/
def access (t : Tree) (k : Policy) (path : List UInt8) : Bool :=
  path ≠ [] &&
    match t.resolve k path with
    | .ok q => (t.kind q).isSome
    | .error _ => false

variable {t t' : Tree} {k : Policy} {p q : Location} {c : List UInt8} {cs ds path : List (List UInt8)}

/-! ## Walking -/

theorem walk_cons_ok :
    t.walk k p (c :: cs) = .ok q ↔
      t.kind p = some .dir ∧ (c = [] ∨ k.maySearch p = true) ∧ t.walk k (enter p c) cs = .ok q := by
  rw [walk]
  split
  · rename_i hkind
    simp [hkind]
  · rename_i hkind
    simp [hkind]
  · rename_i hkind
    split_ifs with hsearch
    · have hnot : ¬ (c = [] ∨ k.maySearch p = true) := by
        rw [not_or, Bool.not_eq_true]
        exact hsearch
      simp [hnot]
    · have hmay : c = [] ∨ k.maySearch p = true := by
        by_contra hnot
        rw [not_or, Bool.not_eq_true] at hnot
        exact hsearch hnot
      simp [hkind, hmay]

theorem walk_append (p : Location) (cs ds : List (List UInt8)) :
    t.walk k p (cs ++ ds) = (t.walk k p cs).bind fun q => t.walk k q ds := by
  induction cs generalizing p with
  | nil => rfl
  | cons c cs ih =>
    rw [List.cons_append, walk, walk]
    split
    · rfl
    · rfl
    · split_ifs
      · rfl
      · exact ih _

theorem walk_append_ok :
    t.walk k p (cs ++ ds) = .ok q ↔ ∃ r, t.walk k p cs = .ok r ∧ t.walk k r ds = .ok q := by
  rw [walk_append]
  cases t.walk k p cs with
  | error e => simp [Except.bind]
  | ok r => simp [Except.bind]

/-- The walk ends where the components lead to. -/
theorem walk_ok_eq (h : t.walk k p cs = .ok q) : q = cs.foldl enter p := by
  induction cs generalizing p with
  | nil => exact (Except.ok.inj h).symm
  | cons c cs ih => exact ih (walk_cons_ok.mp h).2.2

theorem kind_dropLast (h : t.kind p = some .dir) : t.kind p.dropLast = some .dir := by
  rcases List.eq_nil_or_concat p with rfl | ⟨r, c, rfl⟩
  · exact h
  · rw [List.concat_eq_append] at h ⊢
    rw [List.dropLast_concat]
    exact t.parent_dir r c (h ▸ nofun)

/-- In a directory: what is there, or may be created. -/
def Within (t : Tree) (q : Location) : Prop :=
  t.kind q = some .dir ∨ ∃ r c, q = r ++ [c] ∧ t.kind r = some .dir

theorem within_enter (h : t.kind p = some .dir) (c : List UInt8) : t.Within (enter p c) := by
  unfold enter
  split_ifs
  · exact .inl h
  · exact .inl (kind_dropLast h)
  · exact .inr ⟨p, c, rfl, h⟩

theorem within_of_walk (hp : t.Within p) (h : t.walk k p cs = .ok q) : t.Within q := by
  induction cs generalizing p with
  | nil => exact Except.ok.inj h ▸ hp
  | cons c cs ih =>
    obtain ⟨hdir, -, hrest⟩ := walk_cons_ok.mp h
    exact ih (within_enter hdir c) hrest

theorem within_start (t : Tree) (path : List UInt8) : t.Within (t.start path) := by
  unfold start
  split_ifs
  · exact .inl t.root_dir
  · exact .inl t.cwd_dir

theorem within_resolve (t : Tree) (path : List UInt8) (h : t.walk k (t.start path) cs = .ok q) :
    t.Within q :=
  within_of_walk (t.within_start path) h

theorem walk_error_ne_eexist : t.walk k p cs ≠ .error .eexist := by
  induction cs generalizing p with
  | nil => exact nofun
  | cons c cs ih =>
    rw [walk]
    split
    · exact nofun
    · exact nofun
    · split_ifs
      · exact nofun
      · exact ih

/-! ## Creating directories -/

/-- A new directory at `q`, which holds nothing. -/
def create (t : Tree) (q : Location) (hnone : t.kind q = none) (hwithin : t.Within q) : Tree where
  kind := Function.update t.kind q (some .dir)
  cwd := t.cwd
  root_dir := by
    have hne : ([] : Location) ≠ q := fun heq => by rw [← heq, t.root_dir] at hnone; cases hnone
    rw [Function.update_of_ne hne, t.root_dir]
  cwd_dir := by
    have hne : t.cwd ≠ q := fun heq => by rw [← heq, t.cwd_dir] at hnone; cases hnone
    rw [Function.update_of_ne hne, t.cwd_dir]
  parent_dir := by
    intro p c hchild
    have hp : t.kind p = some .dir := by
      by_cases heq : p ++ [c] = q
      · rcases hwithin with hdir | ⟨r, d, hq, hr⟩
        · rw [hnone] at hdir
          cases hdir
        · obtain ⟨rfl, -⟩ := List.append_inj' (heq.trans hq) rfl
          exact hr
      · rw [Function.update_of_ne heq] at hchild
        exact t.parent_dir p c hchild
    have hne : p ≠ q := fun heq => by rw [← heq, hp] at hnone; cases hnone
    rw [Function.update_of_ne hne, hp]

/-- The components without the empty ones at the end. -/
def stripped (path : List UInt8) : List (List UInt8) := (components path).rdropWhile fun c => c = []

/-- `mkdir(path)`: the tree behind it, or `errno`. Slashes at the end of the path do not
    count. -/
def mkdir (t : Tree) (k : Policy) (path : List UInt8) : Except Errno Tree :=
  match hwalk : t.walk k (t.start path) (stripped path) with
  | .error e => .error e
  | .ok q =>
    if hq : t.kind q = none then
      if k.mayCreate t q then .ok (t.create q hq (t.within_resolve path hwalk)) else .error .other
    else .error .eexist

/-- The directories of `t'` that are not in `t` are new, and nothing else differs. -/
structure Grows (t t' : Tree) : Prop where
  cwd : t'.cwd = t.cwd
  kind : ∀ q e, t.kind q = some e → t'.kind q = some e

theorem Grows.refl (t : Tree) : t.Grows t := ⟨rfl, fun _ _ h => h⟩

theorem Grows.trans {t'' : Tree} (h : t.Grows t') (h' : t'.Grows t'') : t.Grows t'' :=
  ⟨h'.cwd.trans h.cwd, fun q e hq => h'.kind q e (h.kind q e hq)⟩

theorem Grows.ne_none (h : t.Grows t') (hq : t.kind q ≠ none) : t'.kind q ≠ none := by
  obtain ⟨e, he⟩ := Option.ne_none_iff_exists'.mp hq
  rw [h.kind q e he]
  exact nofun

theorem Grows.start (h : t.Grows t') (path : List UInt8) : t'.start path = t.start path := by
  rw [Tree.start, Tree.start, h.cwd]

theorem Grows.walk (h : t.Grows t') (hwalk : t.walk k p cs = .ok q) : t'.walk k p cs = .ok q := by
  induction cs generalizing p with
  | nil => exact hwalk
  | cons c cs ih =>
    obtain ⟨hdir, hsearch, hrest⟩ := walk_cons_ok.mp hwalk
    exact walk_cons_ok.mpr ⟨h.kind p .dir hdir, hsearch, ih hrest⟩

theorem Grows.resolve (h : t.Grows t') {path : List UInt8} (hresolve : t.resolve k path = .ok q) :
    t'.resolve k path = .ok q := by
  unfold Tree.resolve
  rw [h.start]
  exact h.walk hresolve

theorem access_iff {path : List UInt8} :
    t.access k path = true ↔ path ≠ [] ∧ ∃ q, t.resolve k path = .ok q ∧ t.kind q ≠ none := by
  unfold access
  cases t.resolve k path with
  | error e => simp
  | ok q => simp [Option.isSome_iff_ne_none]

theorem Grows.access (h : t.Grows t') {path : List UInt8} (haccess : t.access k path = true) :
    t'.access k path = true := by
  obtain ⟨hne, q, hresolve, hq⟩ := access_iff.mp haccess
  exact access_iff.mpr ⟨hne, q, h.resolve hresolve, h.ne_none hq⟩

/-- `mkdir` succeeds: there was nothing at the location, and now there is a directory. -/
theorem mkdir_ok {path : List UInt8} (h : t.mkdir k path = .ok t') :
    ∃ q, t.walk k (t.start path) (stripped path) = .ok q ∧ t.kind q = none ∧
      t'.kind = Function.update t.kind q (some .dir) ∧ t.Grows t' := by
  unfold mkdir at h
  split at h
  · cases h
  · rename_i q hwalk
    split_ifs at h with hq hmay
    cases h
    refine ⟨q, hwalk, hq, rfl, rfl, fun r e hr => ?_⟩
    have hne : r ≠ q := by
      rintro rfl
      rw [hq] at hr
      cases hr
    exact (Function.update_of_ne hne ..).trans hr

/-- `EEXIST`: the location holds something. -/
theorem mkdir_eexist {path : List UInt8} :
    t.mkdir k path = .error .eexist ↔
      ∃ q, t.walk k (t.start path) (stripped path) = .ok q ∧ t.kind q ≠ none := by
  unfold mkdir
  split
  · rename_i e hwalk
    constructor
    · intro h
      cases h
      exact absurd hwalk walk_error_ne_eexist
    · rintro ⟨q, hq, -⟩
      rw [hwalk] at hq
      cases hq
  · rename_i q hwalk
    have hunique : (∃ r, t.walk k (t.start path) (stripped path) = .ok r ∧ t.kind r ≠ none) ↔
        t.kind q ≠ none := by
      simp [hwalk]
    rw [hunique]
    split_ifs with hq hmay
    · exact ⟨nofun, fun h => absurd hq h⟩
    · exact ⟨nofun, fun h => absurd hq h⟩
    · exact ⟨fun _ => hq, fun _ => rfl⟩

/-! ## Slashes at the end -/

theorem foldl_enter_blank {cs : List (List UInt8)} (h : ∀ c ∈ cs, c = []) (p : Location) :
    cs.foldl enter p = p := by
  induction cs generalizing p with
  | nil => rfl
  | cons c cs ih =>
    rw [List.foldl_cons, h c List.mem_cons_self]
    exact ih (fun d hd => h d (List.mem_cons_of_mem c hd)) p

/-- Empty components at the end only ask for a directory. -/
theorem walk_blank {cs : List (List UInt8)} (h : ∀ c ∈ cs, c = []) (hp : t.kind p = some .dir) :
    t.walk k p cs = .ok p := by
  induction cs with
  | nil => rfl
  | cons c cs ih =>
    have hc := h c List.mem_cons_self
    refine walk_cons_ok.mpr ⟨hp, .inl hc, ?_⟩
    rw [hc]
    exact ih fun d hd => h d (List.mem_cons_of_mem c hd)

theorem exists_blank (path : List UInt8) :
    ∃ blank : List (List UInt8), components path = stripped path ++ blank ∧ ∀ c ∈ blank, c = [] := by
  refine ⟨(components path).rtakeWhile fun c => c = [], (List.rdropWhile_append_rtakeWhile ..).symm, ?_⟩
  intro c hc
  have hblank := List.mem_rtakeWhile_imp hc
  exact of_decide_eq_true hblank

theorem foldl_stripped (path : List UInt8) (p : Location) :
    (stripped path).foldl enter p = (components path).foldl enter p := by
  obtain ⟨blank, heq, hblank⟩ := exists_blank path
  rw [heq, List.foldl_append, foldl_enter_blank hblank]

theorem walk_stripped {path : List UInt8} (h : t.resolve k path = .ok q) :
    t.walk k (t.start path) (stripped path) = .ok q := by
  obtain ⟨blank, heq, hblank⟩ := exists_blank path
  rw [resolve, heq] at h
  obtain ⟨r, hr, hrest⟩ := walk_append_ok.mp h
  rw [walk_ok_eq hrest, foldl_enter_blank hblank]
  exact hr

theorem resolve_of_stripped {path : List UInt8} (h : t.walk k (t.start path) (stripped path) = .ok q)
    (hq : t.kind q = some .dir) : t.resolve k path = .ok q := by
  obtain ⟨blank, heq, hblank⟩ := exists_blank path
  rw [resolve, heq]
  exact walk_append_ok.mpr ⟨q, h, walk_blank hblank hq⟩

/-! ## Prefixes -/

/-- `pre` is the path, or ends before a slash of it. -/
def Way (pre path : List UInt8) : Prop := pre = path ∨ ∃ rest, path = pre ++ slash :: rest

theorem components_append (pre rest : List UInt8) :
    components (pre ++ slash :: rest) = components pre ++ components rest :=
  List.splitOn_append_cons_self ..

theorem start_append {pre : List UInt8} (hpre : pre ≠ []) (t : Tree) (rest : List UInt8) :
    t.start (pre ++ rest) = t.start pre := by
  rw [start, start, List.head?_append_of_ne_nil _ hpre]

/-- A path that is resolved passes through a directory at each of its slashes. -/
theorem resolve_of_isPrefix {pre rest : List UInt8} (hpre : pre ≠ [])
    (h : t.resolve k (pre ++ slash :: rest) = .ok q) : t.IsDir k pre := by
  rw [resolve, start_append hpre, components_append] at h
  obtain ⟨r, hr, hrest⟩ := walk_append_ok.mp h
  obtain ⟨c, cs, hcs⟩ := List.exists_cons_of_ne_nil (List.splitOn_ne_nil slash rest)
  rw [components, hcs] at hrest
  exact ⟨r, hr, (walk_cons_ok.mp hrest).1⟩

theorem IsDir.way {pre path : List UInt8} (h : t.IsDir k path) (hpre : pre ≠ []) (hway : Way pre path) :
    t.IsDir k pre := by
  rcases hway with rfl | ⟨rest, rfl⟩
  · exact h
  · obtain ⟨q, hq, -⟩ := h
    exact resolve_of_isPrefix hpre hq

/-- The empty path leads to the working directory here. -/
theorem not_isFile_nil : ¬ t.IsFile k [] := by
  rintro ⟨q, hresolve, hfile⟩
  have hwalk : t.walk k (t.start []) [[]] = .ok q := hresolve
  obtain ⟨hdir, -, hend⟩ := walk_cons_ok.mp hwalk
  have hq : enter (t.start []) [] = t.start [] := if_pos (.inl rfl)
  rw [walk_ok_eq hend, List.foldl_nil, hq, hdir] at hfile
  cases hfile

/-- The first component. -/
theorem components_cases (path : List UInt8) :
    components path = [path] ∨
      ∃ c rest, path = c ++ slash :: rest ∧ components c = [c] ∧
        components path = c :: components rest := by
  by_cases hmem : slash ∈ path
  · obtain ⟨c, rest, rfl, hc⟩ := List.eq_append_cons_of_mem hmem
    have hcomp : components c = [c] := List.splitOn_eq_singleton hc
    refine .inr ⟨c, rest, rfl, hcomp, ?_⟩
    rw [components_append, hcomp, List.singleton_append]
  · exact .inl (List.splitOn_eq_singleton hmem)

theorem components_way {pre path : List UInt8} (h : Way pre path) :
    components pre <+: components path := by
  rcases h with rfl | ⟨rest, rfl⟩
  · exact List.prefix_rfl
  · rw [components_append]
    exact List.prefix_append ..

/-- The first components of a path are those of a prefix. -/
theorem exists_way {path : List UInt8} (hne : cs ≠ []) (h : cs <+: components path) :
    ∃ pre, Way pre path ∧ components pre = cs := by
  induction cs generalizing path with
  | nil => exact absurd rfl hne
  | cons c cs ih =>
    rcases components_cases path with hsingle | ⟨d, rest, rfl, hd, hpath⟩
    · rw [hsingle] at h
      obtain ⟨rfl, hnil⟩ := List.cons_prefix_cons.mp h
      rw [List.prefix_nil.mp hnil]
      exact ⟨c, .inl rfl, hsingle⟩
    · rw [hpath] at h
      obtain ⟨rfl, hcs⟩ := List.cons_prefix_cons.mp h
      rcases eq_or_ne cs [] with rfl | hne'
      · exact ⟨c, .inr ⟨rest, rfl⟩, hd⟩
      · obtain ⟨pre, hway, hpre⟩ := ih hne' hcs
        refine ⟨c ++ slash :: pre, ?_, by rw [components_append, hd, hpre, List.singleton_append]⟩
        rcases hway with rfl | ⟨tail, rfl⟩
        · exact .inl rfl
        · exact .inr ⟨tail, by rw [List.append_assoc, List.cons_append]⟩

/-- The component behind the last slash. -/
theorem exists_last_component (path : List UInt8) :
    ∃ cs tail, components path = cs ++ [tail] ∧ (path = tail ∨ ∃ pre, path = pre ++ slash :: tail) := by
  by_cases hmem : slash ∈ path
  · obtain ⟨as, bs, hrev, has⟩ := List.eq_append_cons_of_mem (List.mem_reverse.mpr hmem)
    have hpath : path = bs.reverse ++ slash :: as.reverse := by
      rw [← List.reverse_reverse path, hrev]
      simp
    have htail : slash ∉ as.reverse := fun h => has (List.mem_reverse.mp h)
    refine ⟨components bs.reverse, as.reverse, ?_, .inr ⟨_, hpath⟩⟩
    rw [hpath, components_append]
    exact congrArg _ (List.splitOn_eq_singleton htail)
  · exact ⟨[], path, List.splitOn_eq_singleton hmem, .inl rfl⟩

/-- A path that does not end with a slash has no empty component at its end. -/
theorem stripped_eq_components {path : List UInt8} (hne : path ≠ [])
    (hslash : path.getLast? ≠ some slash) : stripped path = components path := by
  obtain ⟨cs, tail, hcs, hpath⟩ := exists_last_component path
  have htail : tail ≠ [] := by
    rintro rfl
    rcases hpath with rfl | ⟨pre, rfl⟩
    · exact hne rfl
    · exact hslash List.getLast?_concat
  rw [stripped, hcs]
  exact List.rdropWhile_concat_neg _ _ _ (by simpa using htail)

/-! ## Going back to the tree before -/

theorem kind_ne_none_of_isPrefix (h : p <+: q) (hq : t.kind q ≠ none) : t.kind p ≠ none := by
  obtain ⟨cs, rfl⟩ := h
  induction cs using List.reverseRecOn with
  | nil => rwa [List.append_nil] at hq
  | append_singleton cs c ih =>
    rw [← List.append_assoc] at hq
    refine ih ?_
    rw [t.parent_dir _ c hq]
    exact nofun

/-- Without `..` a path leads downwards. -/
theorem prefix_foldl_enter (h : dotDot ∉ cs) (p : Location) : p <+: cs.foldl enter p := by
  induction cs generalizing p with
  | nil => exact List.prefix_rfl
  | cons c cs ih =>
    rw [List.mem_cons, not_or] at h
    have henter : p <+: enter p c := by
      unfold enter
      split_ifs with _ hdots
      · exact List.prefix_rfl
      · exact absurd hdots.symm h.1
      · exact List.prefix_append ..
    exact henter.trans (ih h.2 (enter p c))

/-- What a path without `..` finds in the tree that has grown, and was there before, it
    has found before. -/
theorem Grows.walk_back (h : t.Grows t') (hdots : dotDot ∉ cs) (hwalk : t'.walk k p cs = .ok q)
    (hq : t.kind q ≠ none) : t.walk k p cs = .ok q := by
  induction cs generalizing p with
  | nil => exact hwalk
  | cons c cs ih =>
    obtain ⟨hdir, hsearch, hrest⟩ := walk_cons_ok.mp hwalk
    have hprefix : p <+: q := by
      rw [walk_ok_eq hwalk]
      exact prefix_foldl_enter hdots p
    obtain ⟨e, he⟩ := Option.ne_none_iff_exists'.mp (kind_ne_none_of_isPrefix hprefix hq)
    have hp : t.kind p = some .dir := by
      have heq := h.kind p e he
      rw [hdir, Option.some.injEq] at heq
      rw [he, ← heq]
    exact walk_cons_ok.mpr ⟨hp, hsearch, ih (fun hmem => hdots (List.mem_cons_of_mem c hmem)) hrest⟩

/-! ## On the way of an absolute path -/

/-- The locations that an absolute path passes through, from the root on. -/
def passes (path : List UInt8) : List Location := (components path).inits.map fun cs => cs.foldl enter []

/-- Where the path leads to. -/
def locate (t : Tree) (path : List UInt8) : Location := (components path).foldl enter (t.start path)

/-- There is a directory at `path`, and an access to something in it does not fail because
    it, or a directory on the way, is missing. -/
def HasDir (t : Tree) (k : Policy) (path : List UInt8) : Prop :=
  t.kind (t.locate path) = some .dir ∧ t.resolve k path ≠ .error .enoent ∧
    t.resolve k path ≠ .error .enotdir

theorem mem_passes {path : List UInt8} :
    q ∈ passes path ↔ ∃ cs, cs <+: components path ∧ cs.foldl enter [] = q := by
  simp [passes]

theorem passes_root (path : List UInt8) : [] ∈ passes path := mem_passes.mpr ⟨[], List.nil_prefix, rfl⟩

/-- With a location, the path has passed through the directories above it. -/
theorem passes_of_isPrefix {path : List UInt8} (h : p <+: q) (hq : q ∈ passes path) :
    p ∈ passes path := by
  obtain ⟨cs, hcs, rfl⟩ := mem_passes.mp hq
  induction cs using List.reverseRecOn generalizing p with
  | nil =>
    rw [List.foldl_nil, List.prefix_nil] at h
    exact h ▸ passes_root path
  | append_singleton cs c ih =>
    have hshort : cs <+: components path := (List.prefix_append cs [c]).trans hcs
    have hold := fun {p : Location} (hp : p <+: cs.foldl enter []) =>
      ih hshort hp (mem_passes.mpr ⟨cs, hshort, rfl⟩)
    rw [List.foldl_append, List.foldl_cons, List.foldl_nil] at h hq
    unfold enter at h
    split_ifs at h
    · exact hold h
    · exact hold (h.trans (List.dropLast_prefix _))
    · rcases List.prefix_concat_iff.mp h with heq | hp
      · rename_i hplain hup
        have hself : p = (cs ++ [c]).foldl enter [] := by
          rw [List.foldl_append, List.foldl_cons, List.foldl_nil, enter, if_neg hplain, if_neg hup]
          exact heq
        exact mem_passes.mpr ⟨cs ++ [c], hcs, hself.symm⟩
      · exact hold hp

/-- The directories on the way of a path, and nothing else. -/
def ofPath (path : List UInt8) : Tree where
  kind q := if q ∈ passes path then some .dir else none
  cwd := []
  root_dir := if_pos (passes_root path)
  cwd_dir := if_pos (passes_root path)
  parent_dir := by
    intro p c h
    have hchild : p ++ [c] ∈ passes path := by
      by_contra hnot
      exact h (if_neg hnot)
    exact if_pos (passes_of_isPrefix (List.prefix_append p [c]) hchild)

/-- A walk through directories only stops where it may not search. -/
theorem walk_of_dirs (h : ∀ ds, ds <+: cs → t.kind (ds.foldl enter p) = some .dir) :
    t.walk k p cs = .ok (cs.foldl enter p) ∨ t.walk k p cs = .error .eacces := by
  induction cs generalizing p with
  | nil => exact .inl rfl
  | cons c cs ih =>
    have hp : t.kind p = some .dir := h [] List.nil_prefix
    rw [walk, hp]
    dsimp only
    split_ifs
    · exact .inr rfl
    · refine ih fun ds hds => ?_
      exact h (c :: ds) (List.cons_prefix_cons.mpr ⟨rfl, hds⟩)

/-- Where everything may be searched, a walk through directories succeeds. -/
theorem walk_all_of_dirs (h : ∀ ds, ds <+: cs → t.kind (ds.foldl enter p) = some .dir) :
    t.walk .all p cs = .ok (cs.foldl enter p) := by
  induction cs generalizing p with
  | nil => rfl
  | cons c cs ih =>
    refine walk_cons_ok.mpr ⟨h [] List.nil_prefix, .inr rfl, ih fun ds hds => ?_⟩
    exact h (c :: ds) (List.cons_prefix_cons.mpr ⟨rfl, hds⟩)

/-- There is nothing else that it can fail for. -/
theorem walk_all_error {e : Errno} (h : t.walk .all p cs = .error e) : e = .enoent ∨ e = .enotdir := by
  induction cs generalizing p with
  | nil => cases h
  | cons c cs ih =>
    rw [walk] at h
    split at h
    · cases h
      exact .inl rfl
    · cases h
      exact .inr rfl
    · rw [if_neg (by simp [Policy.all])] at h
      exact ih h

/-- A walk that succeeds has passed through directories. -/
theorem dirs_of_walk (h : t.walk k p cs = .ok q) (hds : ds <+: cs) (hne : ds ≠ cs) :
    t.kind (ds.foldl enter p) = some .dir := by
  obtain ⟨rest, rfl⟩ := hds
  cases rest with
  | nil => exact absurd (List.append_nil ds).symm hne
  | cons c rest =>
    obtain ⟨r, hr, hrest⟩ := walk_append_ok.mp h
    rw [← walk_ok_eq hr]
    exact (walk_cons_ok.mp hrest).1

end Tree

end LinuxFileManager.Lib
