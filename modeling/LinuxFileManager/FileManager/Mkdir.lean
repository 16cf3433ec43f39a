import LinuxFileManager.FileManager.Copy
import LinuxFileManager.Lib.Tree

/-!
# `path_mkdir_recursive`

Model of `path_mkdir_recursive` (`src/path_manager.c` lines 152–232), which
`dir_create` passes the path of the command to. What `access` and `mkdir` answer
is decided by the tree and by what the process may do in it (`Policy`).

While the slash at `i` is overwritten with a NUL, `temp` is the string of its
first `i` bytes. The path is cut to the 511 bytes that `temp` has room for.

Results:

* `dirCreate_eq`: `dir_create` does and returns the same.
* `pathMkdirRecursive_frame`: it creates only directories on the way, changes
  nothing else, and a second call returns the same and creates nothing.
* `pathMkdirRecursive_isDir_iff`: after it has returned `0`, the path is a
  directory exactly when it was not something else before.
-/

namespace LinuxFileManager.FileManager

open Lib Lib.Tree

/-! ## Model -/

/-- `sizeof(temp)`. -/
def tempSize : ℕ := 512

/-- `strncpy(temp, path, sizeof(temp) - 1); temp[sizeof(temp) - 1] = '\0';` -/
def tempOf (path : Path) : Path := path.take (tempSize - 1)

/-- The directory `temp` (lines 195–206 and 218–229): the value to return when it is
    negative, and the tree. -/
def ensureDir (k : Policy) (t : Tree) (temp : Path) : ℤ × Tree :=
  if t.access k temp then (0, t)
  else
    match t.mkdir k temp with
    | .ok t => (0, t)
    | .error errno => if errno ≠ .eexist then (-1, t) else (0, t)

/-- The loop (lines 181–212) over the given `i`. -/
def mkdirLoop (k : Policy) (temp : Path) : List ℕ → Tree → ℤ × Tree
  | [], t => (0, t)
  | i :: is, t =>
    if temp[i]? = some slash then
      let (ret, t) := ensureDir k t (temp.take i)
      if ret < 0 then (ret, t) else mkdirLoop k temp is t
    else mkdirLoop k temp is t

/-- `path_mkdir_recursive`: its value, and the tree behind it. -/
def pathMkdirRecursive (k : Policy) (t : Tree) (path : Path) : ℤ × Tree :=
  let temp := tempOf path
  if temp.length = 0 then (-1, t)
  else
    let (ret, t) := mkdirLoop k temp (List.range' 1 (temp.length - 1)) t
    if ret < 0 then (ret, t) else ensureDir k t temp

/-- `dir_create` (`src/directory.c` lines 152–185). -/
def dirCreate (k : Policy) (t : Tree) (path : Path) : ℤ × Tree :=
  let (ret, t) := pathMkdirRecursive k t path
  (if ret < 0 then -1 else 0, t)

/-! ## One directory -/

section

variable {k : Policy} {t t' : Tree} {temp : Path} {q : Location}

/-- The ways through the creation of one directory. -/
inductive EnsureMove (k : Policy) (t : Tree) (temp : Path) : ℤ × Tree → Prop where
  | found (haccess : t.access k temp = true) : EnsureMove k t temp (0, t)
  | creates {t' : Tree} (haccess : t.access k temp = false) (hmkdir : t.mkdir k temp = .ok t') :
      EnsureMove k t temp (0, t')
  | tolerated (haccess : t.access k temp = false) (hmkdir : t.mkdir k temp = .error .eexist) :
      EnsureMove k t temp (0, t)
  | fails {errno : Errno} (haccess : t.access k temp = false) (hmkdir : t.mkdir k temp = .error errno)
      (hne : errno ≠ .eexist) : EnsureMove k t temp (-1, t)

theorem ensureDir_move (k : Policy) (t : Tree) (temp : Path) :
    EnsureMove k t temp (ensureDir k t temp) := by
  unfold ensureDir
  split_ifs with haccess
  · exact .found haccess
  · rw [Bool.not_eq_true] at haccess
    cases hmkdir : t.mkdir k temp with
    | ok t' => exact .creates haccess hmkdir
    | error errno =>
      dsimp only
      split_ifs with hne
      · exact .fails haccess hmkdir hne
      · exact .tolerated haccess (not_not.mp hne ▸ hmkdir)

theorem ensureDir_grows (k : Policy) (t : Tree) (temp : Path) : t.Grows (ensureDir k t temp).2 := by
  have hmove := ensureDir_move k t temp
  generalize ensureDir k t temp = r at hmove
  cases hmove with
  | found | tolerated | fails => exact .refl t
  | creates _ hmkdir =>
    obtain ⟨q, -, -, -, hgrows⟩ := mkdir_ok hmkdir
    exact hgrows

theorem ensureDir_fails (h : (ensureDir k t temp).1 < 0) : ensureDir k t temp = (-1, t) := by
  have hmove := ensureDir_move k t temp
  generalize ensureDir k t temp = r at hmove h
  cases hmove with
  | found | creates | tolerated => exact absurd h (lt_irrefl _)
  | fails => rfl

theorem ensureDir_ok (h : ¬ (ensureDir k t temp).1 < 0) :
    ensureDir k t temp = (0, (ensureDir k t temp).2) := by
  have hmove := ensureDir_move k t temp
  generalize ensureDir k t temp = r at hmove h
  cases hmove with
  | found | creates | tolerated => rfl
  | fails => exact absurd (Int.negSucc_lt_zero 0) h

/-- What is new is a directory, and `temp` names it. -/
theorem ensureDir_new (hq : t.kind q = none) (hnew : (ensureDir k t temp).2.kind q ≠ none) :
    (ensureDir k t temp).2.kind q = some .dir ∧ (ensureDir k t temp).2.resolve k temp = .ok q := by
  have hmove := ensureDir_move k t temp
  generalize ensureDir k t temp = r at hmove hnew
  cases hmove with
  | found | tolerated | fails => exact absurd hq hnew
  | creates _ hmkdir =>
    obtain ⟨r, hwalk, hr, hkind, hgrows⟩ := mkdir_ok hmkdir
    have heq : q = r := by
      by_contra hne
      rw [hkind, Function.update_of_ne hne] at hnew
      exact hnew hq
    subst heq
    have hdir := congrFun hkind q
    rw [Function.update_self] at hdir
    refine ⟨hdir, resolve_of_stripped ?_ hdir⟩
    rw [hgrows.start]
    exact hgrows.walk hwalk

/-- After success there is something at `temp`. -/
theorem ensureDir_present (h : ¬ (ensureDir k t temp).1 < 0) :
    ∃ q, (ensureDir k t temp).2.walk k (t.start temp) (stripped temp) = .ok q ∧
      (ensureDir k t temp).2.kind q ≠ none := by
  have hmove := ensureDir_move k t temp
  generalize ensureDir k t temp = r at hmove h
  cases hmove with
  | found haccess =>
    obtain ⟨-, q, hresolve, hq⟩ := access_iff.mp haccess
    exact ⟨q, walk_stripped hresolve, hq⟩
  | creates _ hmkdir =>
    obtain ⟨q, hwalk, -, hkind, hgrows⟩ := mkdir_ok hmkdir
    refine ⟨q, hgrows.walk hwalk, ?_⟩
    rw [hkind, Function.update_self]
    exact nofun
  | tolerated _ hmkdir => exact mkdir_eexist.mp hmkdir
  | fails => exact absurd (Int.negSucc_lt_zero 0) h

/-- Where there is something, nothing is to be done. -/
theorem ensureDir_of_present (hwalk : t.walk k (t.start temp) (stripped temp) = .ok q)
    (hq : t.kind q ≠ none) : ensureDir k t temp = (0, t) := by
  unfold ensureDir
  rw [mkdir_eexist.mpr ⟨q, hwalk, hq⟩]
  split_ifs
  · rfl
  · exact if_neg (not_not.mpr rfl)

/-- Nothing is to be done a second time, whatever has been created since. -/
theorem ensureDir_again (h : ¬ (ensureDir k t temp).1 < 0) (hgrows : (ensureDir k t temp).2.Grows t') :
    ensureDir k t' temp = (0, t') := by
  obtain ⟨q, hwalk, hq⟩ := ensureDir_present h
  have hstart := ((ensureDir_grows k t temp).trans hgrows).start temp
  refine ensureDir_of_present (q := q) ?_ (hgrows.ne_none hq)
  rw [hstart]
  exact hgrows.walk hwalk

end

/-! ## The directories on the way -/

/-- The directories `temps`, one after the other, up to the first that fails. -/
def ensureAll (k : Policy) : List Path → Tree → ℤ × Tree
  | [], t => (0, t)
  | temp :: temps, t =>
    let r := ensureDir k t temp
    if r.1 < 0 then r else ensureAll k temps r.2

/-- The strings that `temp` is in the loop when a directory is created. -/
def parents (temp : Path) : List Path :=
  ((List.range' 1 (temp.length - 1)).filter fun i => temp[i]? = some slash).map temp.take

/-- With the last directory. -/
def levels (temp : Path) : List Path := parents temp ++ [temp]

theorem mkdirLoop_eq (k : Policy) (temp : Path) (is : List ℕ) (t : Tree) :
    mkdirLoop k temp is t =
      ensureAll k ((is.filter fun i => temp[i]? = some slash).map temp.take) t := by
  induction is generalizing t with
  | nil => rfl
  | cons i is ih =>
    rw [mkdirLoop]
    by_cases hslash : temp[i]? = some slash
    · rw [if_pos hslash, List.filter_cons_of_pos (by simpa using hslash), List.map_cons, ensureAll]
      simp only [ih]
    · rw [if_neg hslash, List.filter_cons_of_neg (by simpa using hslash), ih]

theorem ensureAll_append (k : Policy) (temps temps' : List Path) (t : Tree) :
    ensureAll k (temps ++ temps') t =
      if (ensureAll k temps t).1 < 0 then ensureAll k temps t
      else ensureAll k temps' (ensureAll k temps t).2 := by
  induction temps generalizing t with
  | nil => rfl
  | cons temp temps ih =>
    rw [List.cons_append, ensureAll, ensureAll]
    split_ifs with hret hrest
    · rfl
    · rw [ih, if_pos hrest]
    · rw [ih, if_neg hrest]

theorem pathMkdirRecursive_eq {path : Path} (h : tempOf path ≠ []) (k : Policy) (t : Tree) :
    pathMkdirRecursive k t path = ensureAll k (levels (tempOf path)) t := by
  have hlen : (tempOf path).length ≠ 0 := fun h0 => h (List.eq_nil_of_length_eq_zero h0)
  unfold pathMkdirRecursive
  dsimp only
  rw [if_neg hlen, mkdirLoop_eq, levels, ensureAll_append, ← parents]
  split_ifs
  · rfl
  · rw [ensureAll]
    split_ifs with hlast
    · rfl
    · exact ensureDir_ok hlast

theorem ensureAll_ret (k : Policy) (temps : List Path) (t : Tree) :
    (ensureAll k temps t).1 = if (ensureAll k temps t).1 < 0 then -1 else 0 := by
  induction temps generalizing t with
  | nil => rfl
  | cons temp temps ih =>
    rw [ensureAll]
    by_cases hret : (ensureDir k t temp).1 < 0
    · rw [if_pos hret, if_pos hret, ensureDir_fails hret]
    · rw [if_neg hret]
      exact ih _

/-- `dir_create` returns what `path_mkdir_recursive` returns. -/
theorem dirCreate_eq (k : Policy) (t : Tree) (path : Path) :
    dirCreate k t path = pathMkdirRecursive k t path := by
  rcases eq_or_ne (tempOf path) [] with hempty | hne
  · rw [dirCreate, pathMkdirRecursive, hempty]
    rfl
  · rw [dirCreate, pathMkdirRecursive_eq hne]
    exact Prod.ext (ensureAll_ret k _ t).symm rfl

/-- In the loop they are the prefixes that end before a slash. -/
theorem mem_parents {pre temp : Path} :
    pre ∈ parents temp ↔ pre ≠ [] ∧ ∃ rest, temp = pre ++ slash :: rest := by
  rw [parents, List.mem_map]
  constructor
  · rintro ⟨i, hi, rfl⟩
    rw [List.mem_filter, List.mem_range'_1, decide_eq_true_eq] at hi
    obtain ⟨hlt, hslash⟩ := List.getElem?_eq_some_iff.mp hi.2
    refine ⟨?_, temp.drop (i + 1), ?_⟩
    · rw [Ne, List.take_eq_nil_iff, not_or]
      exact ⟨by omega, List.ne_nil_of_length_pos (by omega)⟩
    · rw [← hslash, ← List.drop_eq_getElem_cons hlt, List.take_append_drop]
  · rintro ⟨hpre, rest, rfl⟩
    refine ⟨pre.length, ?_, List.take_left⟩
    have hlen := List.length_pos_of_ne_nil hpre
    rw [List.mem_filter, List.mem_range'_1, decide_eq_true_eq, List.length_append, List.length_cons,
      List.getElem?_append_right le_rfl, Nat.sub_self]
    exact ⟨by omega, rfl⟩

theorem mem_levels {pre temp : Path} (h : temp ≠ []) : pre ∈ levels temp ↔ pre ≠ [] ∧ Way pre temp := by
  rw [levels, List.mem_append, mem_parents, List.mem_singleton]
  constructor
  · rintro (⟨hpre, hrest⟩ | rfl)
    · exact ⟨hpre, .inr hrest⟩
    · exact ⟨h, .inl rfl⟩
  · rintro ⟨hpre, rfl | hrest⟩
    · exact .inr rfl
    · exact .inl ⟨hpre, hrest⟩

section

variable {k : Policy} {t t' : Tree} {temps : List Path} {q : Location}

theorem ensureAll_grows (k : Policy) (temps : List Path) (t : Tree) :
    t.Grows (ensureAll k temps t).2 := by
  induction temps generalizing t with
  | nil => exact .refl t
  | cons temp temps ih =>
    have hgrows := ensureDir_grows k t temp
    rw [ensureAll]
    split_ifs
    · exact hgrows
    · exact hgrows.trans (ih _)

/-- What is new is a directory that one of the strings names. -/
theorem ensureAll_new (hq : t.kind q = none) (hnew : (ensureAll k temps t).2.kind q ≠ none) :
    (ensureAll k temps t).2.kind q = some .dir ∧
      ∃ temp ∈ temps, (ensureAll k temps t).2.resolve k temp = .ok q := by
  induction temps generalizing t with
  | nil => exact absurd hq hnew
  | cons temp temps ih =>
    rw [ensureAll] at hnew ⊢
    split_ifs at hnew ⊢ with hret
    · obtain ⟨hdir, hresolve⟩ := ensureDir_new hq hnew
      exact ⟨hdir, temp, List.mem_cons_self, hresolve⟩
    · by_cases hfirst : (ensureDir k t temp).2.kind q = none
      · obtain ⟨hdir, temp', hmem, hresolve⟩ := ih hfirst hnew
        exact ⟨hdir, temp', List.mem_cons_of_mem temp hmem, hresolve⟩
      · obtain ⟨hdir, hresolve⟩ := ensureDir_new hq hfirst
        have hgrows := ensureAll_grows k temps (ensureDir k t temp).2
        exact ⟨hgrows.kind q .dir hdir, temp, List.mem_cons_self, hgrows.resolve hresolve⟩

/-- A second run finds what the first one has left, and fails where it has failed. -/
theorem ensureAll_again (k : Policy) (temps : List Path) (t : Tree) :
    ensureAll k temps (ensureAll k temps t).2 = ensureAll k temps t := by
  induction temps generalizing t with
  | nil => rfl
  | cons temp temps ih =>
    have hunfold (t : Tree) : ensureAll k (temp :: temps) t =
        if (ensureDir k t temp).1 < 0 then ensureDir k t temp
        else ensureAll k temps (ensureDir k t temp).2 := rfl
    by_cases hret : (ensureDir k t temp).1 < 0
    · have hfirst : ensureAll k (temp :: temps) t = (-1, t) := by
        rw [hunfold, if_pos hret, ensureDir_fails hret]
      rw [hfirst]
      exact hfirst
    · have hfirst : ensureAll k (temp :: temps) t = ensureAll k temps (ensureDir k t temp).2 := by
        rw [hunfold, if_neg hret]
      rw [hfirst, hunfold, ensureDir_again hret (ensureAll_grows k temps _), if_neg (lt_irrefl _)]
      exact ih _

/-- Where all of the strings are found, nothing is to be done. -/
theorem ensureAll_found (h : ∀ temp ∈ temps, t.access k temp = true) : ensureAll k temps t = (0, t) := by
  induction temps with
  | nil => rfl
  | cons temp temps ih =>
    have hfirst : ensureDir k t temp = (0, t) := if_pos (h temp List.mem_cons_self)
    rw [ensureAll, hfirst]
    exact ih fun temp' hmem => h temp' (List.mem_cons_of_mem temp hmem)

end

/-! ## The frame -/

theorem tempOf_eq_self {path : Path} (h : path.length < tempSize) : tempOf path = path :=
  List.take_of_length_le (Nat.le_pred_of_lt h)

theorem pathMkdirRecursive_nil (k : Policy) (t : Tree) : pathMkdirRecursive k t [] = (-1, t) := rfl

/-- Whether it succeeds or fails, `path_mkdir_recursive` leaves every entry as it is; what
    is new is a directory that a prefix of the path names; and a second call returns the
    same and creates nothing. -/
theorem pathMkdirRecursive_frame {path : Path} (h : path.length < tempSize) (k : Policy) (t : Tree) :
    t.Grows (pathMkdirRecursive k t path).2 ∧
    (∀ q, t.kind q = none → (pathMkdirRecursive k t path).2.kind q ≠ none →
      (pathMkdirRecursive k t path).2.kind q = some .dir ∧
        ∃ pre, Way pre path ∧ (pathMkdirRecursive k t path).2.resolve k pre = .ok q) ∧
    pathMkdirRecursive k (pathMkdirRecursive k t path).2 path = pathMkdirRecursive k t path := by
  have htemp := tempOf_eq_self h
  rcases eq_or_ne path [] with rfl | hne
  · rw [pathMkdirRecursive_nil]
    exact ⟨.refl t, fun q hq hnew => absurd hq hnew, rfl⟩
  · have heq (t : Tree) : pathMkdirRecursive k t path = ensureAll k (levels path) t := by
      rw [pathMkdirRecursive_eq (htemp.symm ▸ hne), htemp]
    rw [heq t, heq]
    refine ⟨ensureAll_grows k _ t, fun q hq hnew => ?_, ensureAll_again k _ t⟩
    obtain ⟨hdir, pre, hmem, hresolve⟩ := ensureAll_new hq hnew
    exact ⟨hdir, pre, ((mem_levels hne).mp hmem).2, hresolve⟩

/-- `/logs/app`. -/
def logsApp : Path := [0x2F, 0x6C, 0x6F, 0x67, 0x73, 0x2F, 0x61, 0x70, 0x70]

theorem pathMkdirRecursive_frame_logsApp :
    Tree.bare.Grows (pathMkdirRecursive .all .bare logsApp).2 ∧
    (∀ q, Tree.bare.kind q = none → (pathMkdirRecursive .all .bare logsApp).2.kind q ≠ none →
      (pathMkdirRecursive .all .bare logsApp).2.kind q = some .dir ∧
        ∃ pre, Way pre logsApp ∧ (pathMkdirRecursive .all .bare logsApp).2.resolve .all pre = .ok q) ∧
    pathMkdirRecursive .all (pathMkdirRecursive .all .bare logsApp).2 logsApp =
      pathMkdirRecursive .all .bare logsApp :=
  pathMkdirRecursive_frame (by decide) .all .bare

/-! ## What success means -/

section

variable {k : Policy} {t : Tree} {path : Path}

theorem access_of_isDir {pre : Path} (hpre : pre ≠ []) (h : t.IsDir k pre) : t.access k pre = true := by
  obtain ⟨q, hresolve, hdir⟩ := h
  exact access_iff.mpr ⟨hpre, q, hresolve, hdir ▸ nofun⟩

/-- Something that is not a directory is taken for one. -/
theorem pathMkdirRecursive_of_isFile (hlen : path.length < tempSize) (hne : path ≠ [])
    (h : t.IsFile k path) : pathMkdirRecursive k t path = (0, t) := by
  have htemp := tempOf_eq_self hlen
  obtain ⟨q, hresolve, hfile⟩ := h
  rw [pathMkdirRecursive_eq (htemp.symm ▸ hne), htemp]
  refine ensureAll_found fun pre hmem => ?_
  obtain ⟨hpre, rfl | ⟨rest, hrest⟩⟩ := (mem_levels hne).mp hmem
  · exact access_iff.mpr ⟨hpre, q, hresolve, hfile ▸ nofun⟩
  · rw [hrest] at hresolve
    exact access_of_isDir hpre (resolve_of_isPrefix hpre hresolve)

/-- After success the path is a directory, unless it was something else before. -/
theorem isDir_of_pathMkdirRecursive (hlen : path.length < tempSize) (hslash : path.getLast? ≠ some slash)
    (hdots : dotDot ∉ components path) (hfile : ¬ t.IsFile k path)
    (hret : (pathMkdirRecursive k t path).1 = 0) : (pathMkdirRecursive k t path).2.IsDir k path := by
  have htemp := tempOf_eq_self hlen
  have hne : path ≠ [] := by
    rintro rfl
    cases hret
  rw [pathMkdirRecursive_eq (htemp.symm ▸ hne), htemp, levels, ensureAll_append] at hret ⊢
  split_ifs at hret ⊢ with hparents
  · omega
  have hgrows := ensureAll_grows k (parents path) t
  have hold : ∀ q, t.kind q = none → (ensureAll k (parents path) t).2.kind q ≠ none →
      (ensureAll k (parents path) t).2.kind q = some .dir :=
    fun q hq hnew => (ensureAll_new hq hnew).1
  generalize (ensureAll k (parents path) t).2 = t₁ at hret hgrows hold ⊢
  rw [ensureAll] at hret ⊢
  split_ifs at hret ⊢ with hlast
  · omega
  show (ensureDir k t₁ path).2.IsDir k path
  have hmove := ensureDir_move k t₁ path
  generalize ensureDir k t₁ path = r at hmove hlast
  cases hmove with
  | found haccess =>
    obtain ⟨-, q, hresolve, hq⟩ := access_iff.mp haccess
    refine ⟨q, hresolve, ?_⟩
    by_contra hdir
    -- it has been there before, and has been found then
    obtain ⟨e, he⟩ := Option.ne_none_iff_exists'.mp fun hnone => hdir (hold q hnone hq)
    have he₁ := hgrows.kind q e he
    cases e with
    | dir => exact hdir he₁
    | file =>
      rw [resolve, hgrows.start] at hresolve
      have hsome : t.kind q ≠ none := by
        rw [he]
        exact Option.some_ne_none _
      exact hfile ⟨q, hgrows.walk_back hdots hresolve hsome, he⟩
  | creates _ hmkdir =>
    obtain ⟨q, hwalk, -, hkind, hgrows'⟩ := mkdir_ok hmkdir
    have hdir := congrFun hkind q
    rw [Function.update_self] at hdir
    refine ⟨q, resolve_of_stripped ?_ hdir, hdir⟩
    rw [hgrows'.start]
    exact hgrows'.walk hwalk
  | tolerated haccess hmkdir =>
    obtain ⟨q, hwalk, hq⟩ := mkdir_eexist.mp hmkdir
    rw [stripped_eq_components hne hslash] at hwalk
    rw [access_iff.mpr ⟨hne, q, hwalk, hq⟩] at haccess
    cases haccess
  | fails => exact absurd (Int.negSucc_lt_zero 0) hlast

/-- A return value `0` means that the path, and each prefix that ends before a slash, is a
    directory, exactly when the path did not name anything else before. -/
theorem pathMkdirRecursive_isDir_iff (hlen : path.length < tempSize) (hslash : path.getLast? ≠ some slash)
    (hdots : dot ∉ components path ∧ dotDot ∉ components path) (k : Policy) (t : Tree) :
    ((pathMkdirRecursive k t path).1 = 0 →
      ∀ pre, pre ≠ [] → Way pre path → (pathMkdirRecursive k t path).2.IsDir k pre) ↔
    ¬ t.IsFile k path := by
  constructor
  · intro h hfile
    have hne : path ≠ [] := by
      rintro rfl
      exact not_isFile_nil hfile
    rw [pathMkdirRecursive_of_isFile hlen hne hfile] at h
    obtain ⟨q, hq, hkind⟩ := h rfl path hne (.inl rfl)
    obtain ⟨q', hq', hkind'⟩ := hfile
    rw [hq, Except.ok.injEq] at hq'
    rw [hq', hkind'] at hkind
    cases hkind
  · intro hfile hret pre hpre hway
    exact (isDir_of_pathMkdirRecursive hlen hslash hdots.2 hfile hret).way hpre hway

theorem pathMkdirRecursive_isDir_iff_logsApp :
    ((pathMkdirRecursive .all .bare logsApp).1 = 0 → ∀ pre, pre ≠ [] → Way pre logsApp →
      (pathMkdirRecursive .all .bare logsApp).2.IsDir .all pre) ↔ ¬ Tree.bare.IsFile .all logsApp :=
  pathMkdirRecursive_isDir_iff (by decide) (by decide) ⟨by decide, by decide⟩ .all .bare

end

/-- The root, with a file `f` in it. -/
def oneFile : Tree where
  kind q := if q = [] then some .dir else if q = [[0x66]] then some .file else none
  cwd := []
  root_dir := rfl
  cwd_dir := rfl
  parent_dir := by
    intro p c h
    rw [if_neg (List.append_ne_nil_of_right_ne_nil p (List.cons_ne_nil c []))] at h
    split_ifs at h with hfile
    · obtain ⟨rfl, -⟩ := List.append_inj' (hfile.trans (List.nil_append _).symm) rfl
      rfl
    · exact absurd rfl h

/-- `/f`. -/
def fileF : Path := [0x2F, 0x66]

theorem not_isDir_fileF :
    ¬ ∀ (k : Policy) (t : Tree) (path : Path), path.length < tempSize → path.getLast? ≠ some slash →
      (dot ∉ components path ∧ dotDot ∉ components path) → (pathMkdirRecursive k t path).1 = 0 →
        ∀ pre, pre ≠ [] → Way pre path → (pathMkdirRecursive k t path).2.IsDir k pre := by
  intro h
  obtain ⟨q, hq, hdir⟩ := h .all oneFile fileF (by decide) (by decide) ⟨by decide, by decide⟩ (by decide)
    fileF (by decide) (.inl rfl)
  have hresolve : (pathMkdirRecursive .all oneFile fileF).2.resolve .all fileF = .ok [[0x66]] := rfl
  rw [hresolve, Except.ok.injEq] at hq
  subst hq
  cases hdir

/-! ## Absolute paths -/

section

variable {k : Policy} {t : Tree} {path : Path}

theorem ensureAll_present {temps : List Path} {temp : Path} (hret : ¬ (ensureAll k temps t).1 < 0)
    (hmem : temp ∈ temps) : (ensureAll k temps t).2.kind (t.locate temp) ≠ none := by
  induction temps generalizing t with
  | nil => exact absurd hmem List.not_mem_nil
  | cons first temps ih =>
    rw [ensureAll] at hret ⊢
    split_ifs at hret ⊢ with hfirst
    · exact absurd hfirst hret
    · have hgrows := ensureDir_grows k t first
      rcases List.mem_cons.mp hmem with rfl | htail
      · obtain ⟨q, hwalk, hq⟩ := ensureDir_present hfirst
        rw [locate, ← foldl_stripped, ← walk_ok_eq hwalk]
        exact (ensureAll_grows k temps _).ne_none hq
      · have hstart : (ensureDir k t first).2.locate temp = t.locate temp := by
          rw [locate, locate, hgrows.start]
        rw [← hstart]
        exact ih hret htail

theorem tempOf_ne_nil (habs : path.head? = some slash) : tempOf path ≠ [] := by
  cases path with
  | nil => cases habs
  | cons b path => exact List.cons_ne_nil _ _

/-- A prefix of an absolute path is absolute. -/
theorem start_of_way {pre : Path} (habs : path.head? = some slash) (hpre : pre ≠ []) (t : Tree)
    (hway : Way pre (tempOf path)) : t.start pre = [] := by
  have hstart : t.start (tempOf path) = [] := by
    cases path with
    | nil => cases habs
    | cons b path => exact if_pos habs
  rcases hway with rfl | ⟨rest, hrest⟩
  · exact hstart
  · rw [hrest, start_append hpre] at hstart
    exact hstart

/-- After success there is something at every location on the way. -/
theorem present_of_pathMkdirRecursive (habs : path.head? = some slash)
    (hret : ¬ (pathMkdirRecursive k t path).1 < 0) {q : Location} (hq : q ∈ passes (tempOf path)) :
    (pathMkdirRecursive k t path).2.kind q ≠ none := by
  have hne := tempOf_ne_nil habs
  have hroot (t : Tree) : t.kind [] ≠ none := t.root_dir ▸ nofun
  rw [pathMkdirRecursive_eq hne] at hret ⊢
  obtain ⟨cs, hcs, rfl⟩ := mem_passes.mp hq
  rcases eq_or_ne cs [] with rfl | hcsne
  · exact hroot _
  · obtain ⟨pre, hway, rfl⟩ := exists_way hcsne hcs
    rcases eq_or_ne pre [] with rfl | hpre
    · exact hroot _
    · have hpresent := ensureAll_present hret ((mem_levels hne).mpr ⟨hpre, hway⟩)
      rw [locate, start_of_way habs hpre t hway] at hpresent
      exact hpresent

theorem grows_pathMkdirRecursive (habs : path.head? = some slash) :
    t.Grows (pathMkdirRecursive k t path).2 := by
  rw [pathMkdirRecursive_eq (tempOf_ne_nil habs)]
  exact ensureAll_grows k _ t

theorem new_of_pathMkdirRecursive (habs : path.head? = some slash) {q : Location} (hq : t.kind q = none)
    (hnew : (pathMkdirRecursive k t path).2.kind q ≠ none) :
    (pathMkdirRecursive k t path).2.kind q = some .dir := by
  rw [pathMkdirRecursive_eq (tempOf_ne_nil habs)] at hnew ⊢
  exact (ensureAll_new hq hnew).1

/-- Where the directories on the way exist, nothing is to be done. -/
theorem pathMkdirRecursive_ofPath (habs : path.head? = some slash) :
    pathMkdirRecursive .all (ofPath (tempOf path)) path = (0, ofPath (tempOf path)) := by
  have hne := tempOf_ne_nil habs
  have hkind : ∀ q ∈ passes (tempOf path), (ofPath (tempOf path)).kind q = some .dir :=
    fun q hq => if_pos hq
  rw [pathMkdirRecursive_eq hne]
  refine ensureAll_found fun pre hmem => ?_
  obtain ⟨hpre, hway⟩ := (mem_levels hne).mp hmem
  have hdirs : ∀ ds, ds <+: components pre →
      (ofPath (tempOf path)).kind (ds.foldl enter []) = some .dir :=
    fun ds hds => hkind _ (mem_passes.mpr ⟨ds, hds.trans (components_way hway), rfl⟩)
  refine access_of_isDir hpre ⟨_, ?_, hdirs _ List.prefix_rfl⟩
  rw [resolve, start_of_way habs hpre _ hway]
  exact walk_all_of_dirs hdirs

end

end LinuxFileManager.FileManager
