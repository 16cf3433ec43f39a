import LinuxFileManager.FileManager.Mkdir

/-!
# The directory of the event log

Model of `log_json_init` (`src/log_json.c` lines 52–129) up to the `open` of the
log, with `get_app_root` and `path_get_dir` (`src/path_manager.c` lines 9–77 and
103–150). The directory is made from the directory part of the configured path,
and the path of the log from the configured path itself; both are checked against
`PATH_MAX`. `path_mkdir_recursive` cuts the directory to 511 bytes.

Results:

* `logJsonInit_hasDir_iff`: the directory of the log exists after
  `path_mkdir_recursive` has returned `0`, on every file system without a file on
  the way, exactly when the cut loses none of the directories on the way.
* `losesNothing_of_short`: it loses none when the directory has at most 511 bytes.
-/

namespace LinuxFileManager.Log

open Lib Lib.Tree FileManager

/-! ## Model -/

/-- `PATH_MAX_LEN`. -/
def pathMaxLen : ℕ := 512

/-- `PATH_MAX`. -/
def pathMax : ℕ := 4096

/-- What `readlink` reads of `/proc/self/exe`, without a bound: an absolute path. -/
structure ExePath where
  bytes : Path
  absolute : bytes.head? = some slash

/-- `config.json_path`, in `char[128]`. -/
structure JsonPath where
  bytes : Path
  length_le : bytes.length ≤ 127

/-- `get_app_root(root_path, size)`; `none` is `-1`. -/
def getAppRoot (link : Option ExePath) (size : ℕ) : Option Path :=
  link.bind fun link =>
    (directoryOf (link.bytes.take (pathMaxLen - 1))).map fun dir => dir.take (size - 1)

/-- `path_get_dir(filepath, dir, size)`. -/
def pathGetDir (filepath : Path) (size : ℕ) : Path :=
  (directoryOf (filepath.take (size - 1))).getD dot

/-- `"logs/events.json.log"`. -/
def defaultJsonPath : Path := "logs/events.json.log".toList.map fun c => UInt8.ofNat c.toNat

/-- `log_path_src`. -/
def logPathSrc (jsonPath : Path) : Path := if jsonPath ≠ [] then jsonPath else defaultJsonPath

/-- `path` when it is absolute, and else `"%s/%s"` of the root and it. -/
def underRoot (root path : Path) : Path := if path.head? = some slash then path else root ++ slash :: path

/-- `json_log_path`. -/
def jsonLogPath (root src : Path) : Path := underRoot root src

/-- `full_dir`. -/
def fullDir (root src : Path) : Path := underRoot root (pathGetDir src pathMax)

/-- `log_json_init` up to the `open`: `json_log_path`, the value of
    `path_mkdir_recursive`, and the tree behind it. `none` when it returns before. -/
def logJsonInit (k : Policy) (t : Tree) (jsonInitialized : Bool) (link : Option ExePath)
    (jsonPath : JsonPath) : Option (Path × ℤ × Tree) :=
  if jsonInitialized then none
  else
    (getAppRoot link pathMax).bind fun root =>
      let src := logPathSrc jsonPath.bytes
      if pathMax ≤ (jsonLogPath root src).length then none
      else if pathMax ≤ (fullDir root src).length then none
      else some (jsonLogPath root src, pathMkdirRecursive k t (fullDir root src))

/-- The bytes up to the last slash, this included: the directory that contains the file. -/
def containing (path : Path) : Path := ((directoryOf path).map fun dir => dir ++ [slash]).getD []

/-- Nothing on the way is anything but a directory. A tree has no symbolic links and no
    special files either, so these are excluded with the regular files. -/
def NoFileOnWay (t : Tree) (path : Path) : Prop := ∀ q ∈ passes path, t.kind q ≠ some .file

/-- Each directory on the way is also on the way to the first 511 bytes. -/
def LosesNothing (path : Path) : Prop := ∀ q ∈ passes path, q ∈ passes (tempOf path)

instance (path : Path) : Decidable (LosesNothing path) := inferInstanceAs (Decidable (∀ q ∈ _, _))

theorem losesNothing_of_short {path : Path} (h : path.length < tempSize) : LosesNothing path := by
  intro q hq
  rwa [tempOf_eq_self h]

/-! ## The part in front of the last slash -/

theorem directoryOf_append {name : Path} (h : slash ∉ name) (dir : Path) :
    directoryOf (dir ++ slash :: name) = some dir := by
  have hall : ∀ b ∈ name.reverse, (b != 0x2F) = true :=
    fun b hb => bne_iff_ne.mpr (ne_of_mem_of_not_mem (List.mem_reverse.mp hb) h)
  have hrev : (dir ++ slash :: name).reverse = name.reverse ++ slash :: dir.reverse := by simp
  rw [directoryOf, hrev, List.dropWhile_append_of_pos hall]
  exact congrArg some (List.reverse_reverse dir)

theorem directoryOf_none {path : Path} (h : slash ∉ path) : directoryOf path = none := by
  have hall : ∀ b ∈ path.reverse, (b != 0x2F) = true :=
    fun b hb => bne_iff_ne.mpr (ne_of_mem_of_not_mem (List.mem_reverse.mp hb) h)
  rw [directoryOf, List.dropWhile_eq_nil_iff.mpr hall]

theorem exists_last_slash {path : Path} (h : slash ∈ path) :
    ∃ dir name, path = dir ++ slash :: name ∧ slash ∉ name := by
  obtain ⟨as, bs, hrev, has⟩ := List.eq_append_cons_of_mem (List.mem_reverse.mpr h)
  refine ⟨bs.reverse, as.reverse, ?_, fun hmem => has (List.mem_reverse.mp hmem)⟩
  rw [← List.reverse_reverse path, hrev]
  simp

theorem containing_append {name : Path} (h : slash ∉ name) (dir : Path) :
    containing (dir ++ slash :: name) = dir ++ [slash] := by
  rw [containing, directoryOf_append h]
  rfl

/-! ## The two derivations -/

/-- `get_app_root` succeeds. The root is absolute, or empty when the program is in `/`. -/
theorem exists_appRoot (link : ExePath) :
    ∃ root, getAppRoot (some link) pathMax = some root ∧ root.length < tempSize - 1 ∧
      (root = [] ∨ root.head? = some slash) := by
  have habs : (link.bytes.take (pathMaxLen - 1)).head? = some slash := by
    rw [List.head?_take, if_neg (by decide), link.absolute]
  have hlen : (link.bytes.take (pathMaxLen - 1)).length ≤ pathMaxLen - 1 := List.length_take_le ..
  obtain ⟨root, name, heq, hname⟩ := exists_last_slash (List.mem_of_head? habs)
  rw [heq] at habs hlen
  rw [List.length_append, List.length_cons] at hlen
  have hshort : root.length < tempSize - 1 := by
    have : pathMaxLen = tempSize := rfl
    omega
  refine ⟨root, ?_, hshort, ?_⟩
  · rw [getAppRoot, Option.bind_some, heq, directoryOf_append hname, Option.map_some]
    have hsize : tempSize - 1 ≤ pathMax - 1 := by decide
    rw [List.take_of_length_le (by omega)]
  · rcases eq_or_ne root [] with rfl | hne
    · exact .inl rfl
    · rw [List.head?_append_of_ne_nil _ hne] at habs
      exact .inr habs

theorem length_logPathSrc_le (jsonPath : JsonPath) : (logPathSrc jsonPath.bytes).length ≤ 127 := by
  unfold logPathSrc
  split_ifs
  · exact jsonPath.length_le
  · decide

theorem length_pathGetDir_le {src : Path} (h : src.length ≤ 127) :
    (pathGetDir src pathMax).length ≤ 127 := by
  unfold pathGetDir
  rw [List.take_of_length_le (h.trans (by decide))]
  by_cases hmem : slash ∈ src
  · obtain ⟨dir, name, rfl, hname⟩ := exists_last_slash hmem
    rw [directoryOf_append hname, Option.getD_some]
    rw [List.length_append] at h
    omega
  · rw [directoryOf_none hmem]
    decide

theorem head?_underRoot {root : Path} (h : root = [] ∨ root.head? = some slash) (path : Path) :
    (underRoot root path).head? = some slash := by
  unfold underRoot
  split_ifs with habs
  · exact habs
  · rcases h with rfl | hroot
    · rfl
    · rw [List.head?_append, hroot]
      rfl

theorem head?_fullDir {root : Path} (h : root = [] ∨ root.head? = some slash) (src : Path) :
    (fullDir root src).head? = some slash := head?_underRoot h _

/-- The directory that contains the log is `full_dir`, with a slash behind it or with its
    last component `.` left out; or the log is in the root. -/
theorem containing_jsonLogPath (root : Path) {src : Path} (hlen : src.length ≤ 127) :
    (∃ cs, components (containing (jsonLogPath root src)) = cs ++ [[]] ∧
        (components (fullDir root src) = cs ∨ components (fullDir root src) = cs ++ [dot])) ∨
      containing (jsonLogPath root src) = [slash] ∧ fullDir root src = root ++ [slash] := by
  have htake : src.take (pathMax - 1) = src := List.take_of_length_le (hlen.trans (by decide))
  unfold fullDir jsonLogPath pathGetDir
  rw [htake]
  by_cases hmem : slash ∈ src
  · obtain ⟨dir, name, rfl, hname⟩ := exists_last_slash hmem
    rw [directoryOf_append hname, Option.getD_some]
    cases dir with
    | nil =>
      right
      have habs : ([] ++ slash :: name : Path).head? = some slash := rfl
      rw [underRoot, if_pos habs, containing_append hname, underRoot, if_neg nofun]
      exact ⟨rfl, rfl⟩
    | cons b dir =>
      left
      by_cases hb : b = slash
      · have habs : (b :: dir).head? = some slash := congrArg some hb
        have habs' : (b :: dir ++ slash :: name).head? = some slash := habs
        rw [underRoot, if_pos habs', containing_append hname, underRoot, if_pos habs]
        exact ⟨components (b :: dir), components_append _ [], .inl rfl⟩
      · have hrel : ¬ (b :: dir).head? = some slash := fun h => hb (Option.some.inj h)
        have hrel' : ¬ (b :: dir ++ slash :: name).head? = some slash := hrel
        have hassoc : root ++ slash :: (b :: dir ++ slash :: name) =
            (root ++ slash :: (b :: dir)) ++ slash :: name := by simp
        rw [underRoot, if_neg hrel', hassoc, containing_append hname, underRoot, if_neg hrel]
        exact ⟨components (root ++ slash :: (b :: dir)), components_append _ [], .inl rfl⟩
  · left
    have hrel : ¬ src.head? = some slash := fun h => hmem (List.mem_of_head? h)
    have hdot : ¬ dot.head? = some slash := by decide
    rw [directoryOf_none hmem, Option.getD_none, underRoot, if_neg hrel, containing_append hmem,
      underRoot, if_neg hdot]
    exact ⟨components root, components_append _ [], .inr (components_append _ dot)⟩

/-! ## The directory of the log -/

section

variable {k : Policy} {t : Tree} {path : Path}

theorem start_of_absolute (habs : path.head? = some slash) (t : Tree) : t.start path = [] := if_pos habs

/-- When all on the way are directories, the directory is found. -/
theorem hasDir_of_dirs (habs : path.head? = some slash)
    (h : ∀ ds, ds <+: components path → t.kind (ds.foldl enter []) = some .dir) : t.HasDir k path := by
  have hstart := start_of_absolute habs t
  refine ⟨?_, ?_⟩
  · rw [locate, hstart]
    exact h _ List.prefix_rfl
  · rw [resolve, hstart]
    rcases walk_of_dirs (k := k) h with hwalk | hwalk <;> rw [hwalk] <;> constructor <;> intro herror <;>
      cases herror

/-- When the directory is found, all on the way are directories. -/
theorem dirs_of_hasDir (habs : path.head? = some slash) (h : t.HasDir .all path)
    {ds : List (List UInt8)} (hds : ds <+: components path) : t.kind (ds.foldl enter []) = some .dir := by
  obtain ⟨hkind, henoent, henotdir⟩ := h
  rw [locate, start_of_absolute habs] at hkind
  rcases eq_or_ne ds (components path) with rfl | hne
  · exact hkind
  · rw [resolve, start_of_absolute habs] at henoent henotdir
    cases hwalk : t.walk .all [] (components path) with
    | ok q => exact dirs_of_walk hwalk hds hne
    | error e =>
      rw [hwalk] at henoent henotdir
      rcases walk_all_error hwalk with rfl | rfl
      · exact absurd rfl henoent
      · exact absurd rfl henotdir

/-- A slash at the end, or a `.`, leads nowhere else. -/
theorem foldl_enter_stay {c : List UInt8} (hc : c = [] ∨ c = dot) (cs : List (List UInt8)) :
    (cs ++ [c]).foldl enter [] = cs.foldl enter [] := by
  rw [List.foldl_append, List.foldl_cons, List.foldl_nil, enter, if_pos hc]

theorem head?_containing {root : Path} (hroot : root = [] ∨ root.head? = some slash) (src : Path) :
    (containing (jsonLogPath root src)).head? = some slash := by
  have habs := head?_underRoot hroot src
  obtain ⟨dir, name, heq, hname⟩ := exists_last_slash (List.mem_of_head? habs)
  rw [jsonLogPath, heq, containing_append hname]
  rw [heq] at habs
  cases dir with
  | nil => rfl
  | cons b dir => exact habs

/-- When `full_dir` and all on its way are directories, so is the directory of the log. -/
theorem hasDir_containing {root src : Path} (hroot : root = [] ∨ root.head? = some slash)
    (hlen : src.length ≤ 127) (h : ∀ q ∈ passes (fullDir root src), t.kind q = some .dir) :
    t.HasDir k (containing (jsonLogPath root src)) := by
  refine hasDir_of_dirs (head?_containing hroot src) fun ds hds => ?_
  rcases containing_jsonLogPath root hlen with ⟨cs, hcs, hfull⟩ | ⟨hcs, -⟩
  · have hdir : ∀ ds, ds <+: cs → t.kind (ds.foldl enter []) = some .dir := by
      intro ds hds
      refine h _ (mem_passes.mpr ⟨ds, ?_, rfl⟩)
      rcases hfull with hfull | hfull <;> rw [hfull]
      · exact hds
      · exact hds.trans (List.prefix_append ..)
    rw [hcs] at hds
    rcases List.prefix_concat_iff.mp hds with rfl | hds
    · rw [foldl_enter_stay (.inl rfl)]
      exact hdir cs List.prefix_rfl
    · exact hdir ds hds
  · -- the log is in the root
    have hcomp : components [slash] = [[], []] := rfl
    have hblank : ∀ c ∈ ds, c = [] := by
      intro c hc
      rw [hcs, hcomp] at hds
      simpa using hds.subset hc
    rw [foldl_enter_blank hblank]
    exact t.root_dir

/-- When the directory of the log is found, `full_dir` and all on its way are directories,
    unless the log is in the root. -/
theorem dirs_of_hasDir_containing {root src : Path} (hroot : root = [] ∨ root.head? = some slash)
    (hlen : src.length ≤ 127) (hfull : fullDir root src ≠ root ++ [slash])
    (h : t.HasDir .all (containing (jsonLogPath root src))) {q : Location}
    (hq : q ∈ passes (fullDir root src)) : t.kind q = some .dir := by
  rcases containing_jsonLogPath root hlen with ⟨cs, hcs, hcomp⟩ | ⟨-, hslash⟩
  · have hdir : ∀ ds, ds <+: cs → t.kind (ds.foldl enter []) = some .dir := by
      intro ds hds
      refine dirs_of_hasDir (head?_containing hroot src) h ?_
      rw [hcs]
      exact hds.trans (List.prefix_append ..)
    obtain ⟨ds, hds, rfl⟩ := mem_passes.mp hq
    rcases hcomp with hcomp | hcomp <;> rw [hcomp] at hds
    · exact hdir ds hds
    · rcases List.prefix_concat_iff.mp hds with rfl | hds
      · rw [foldl_enter_stay (.inr rfl)]
        exact hdir cs List.prefix_rfl
      · exact hdir ds hds
  · exact absurd hslash hfull

/-- The condition is enough. -/
theorem hasDir_of_losesNothing {root src : Path} (hroot : root = [] ∨ root.head? = some slash)
    (hlen : src.length ≤ 127) (hloses : LosesNothing (fullDir root src))
    (hfiles : NoFileOnWay t (fullDir root src))
    (hret : (pathMkdirRecursive k t (fullDir root src)).1 = 0) :
    (pathMkdirRecursive k t (fullDir root src)).2.HasDir k (containing (jsonLogPath root src)) := by
  have habs := head?_fullDir hroot src
  refine hasDir_containing hroot hlen fun q hq => ?_
  have hpresent := present_of_pathMkdirRecursive habs hret.not_lt (hloses q hq)
  cases hbefore : t.kind q with
  | none => exact new_of_pathMkdirRecursive habs hbefore hpresent
  | some e =>
    cases e with
    | dir => exact (grows_pathMkdirRecursive habs).kind q .dir hbefore
    | file => exact absurd hbefore (hfiles q hq)

theorem noFileOnWay_ofPath (path path' : Path) : NoFileOnWay (ofPath path) path' := by
  intro q _ hfile
  have hkind : (if q ∈ passes path then some EntryKind.dir else none) = some .file := hfile
  split_ifs at hkind
  cases hkind

/-- The condition is needed: where only the directories on the way to the first 511 bytes
    exist, `path_mkdir_recursive` succeeds, and nothing else exists. -/
theorem losesNothing_of_hasDir {root src : Path} (hroot : root = [] ∨ root.head? = some slash)
    (hshort : root.length < tempSize - 1) (hlen : src.length ≤ 127)
    (h : (ofPath (tempOf (fullDir root src))).HasDir .all (containing (jsonLogPath root src))) :
    LosesNothing (fullDir root src) := by
  rcases eq_or_ne (fullDir root src) (root ++ [slash]) with heq | hfull
  · refine losesNothing_of_short ?_
    rw [heq, List.length_append, List.length_singleton]
    omega
  · intro q hq
    by_contra hnot
    have hdir := dirs_of_hasDir_containing hroot hlen hfull h hq
    have hnone : (ofPath (tempOf (fullDir root src))).kind q = none := if_neg hnot
    rw [hnone] at hdir
    cases hdir

/-- `log_json_init` passes its length checks. -/
theorem logJsonInit_eq {link : ExePath} {root : Path} (hroot : getAppRoot (some link) pathMax = some root)
    (hshort : root.length < tempSize - 1) (k : Policy) (t : Tree) (jsonPath : JsonPath) :
    logJsonInit k t false (some link) jsonPath =
      some (jsonLogPath root (logPathSrc jsonPath.bytes),
        pathMkdirRecursive k t (fullDir root (logPathSrc jsonPath.bytes))) := by
  have hlen := length_logPathSrc_le jsonPath
  have hmax : tempSize + 128 < pathMax := by decide
  have hunder : ∀ path : Path, path.length ≤ 127 → ¬ pathMax ≤ (underRoot root path).length := by
    intro path hpath
    unfold underRoot
    split_ifs
    · omega
    · rw [List.length_append, List.length_cons]
      omega
  have hdir := length_pathGetDir_le hlen
  rw [logJsonInit, if_neg Bool.false_ne_true, hroot, Option.bind_some]
  dsimp only
  rw [jsonLogPath, if_neg (hunder _ hlen), fullDir, if_neg (hunder _ hdir)]

/-- On the file system with the directories on the way to the first 511 bytes it reports
    success. -/
theorem losesNothing_of_forall {link : ExePath} {jsonPath : JsonPath} {root : Path}
    (hroot : getAppRoot (some link) pathMax = some root)
    (h : ∀ k t logPath t', NoFileOnWay t (fullDir root (logPathSrc jsonPath.bytes)) →
      logJsonInit k t false (some link) jsonPath = some (logPath, 0, t') →
      t'.HasDir k (containing logPath)) : LosesNothing (fullDir root (logPathSrc jsonPath.bytes)) := by
  obtain ⟨root', hroot', hshort, habs⟩ := exists_appRoot link
  obtain rfl := Option.some.inj (hroot.symm.trans hroot')
  have hinit := logJsonInit_eq hroot hshort .all
    (ofPath (tempOf (fullDir root (logPathSrc jsonPath.bytes)))) jsonPath
  rw [pathMkdirRecursive_ofPath (head?_fullDir habs _)] at hinit
  exact losesNothing_of_hasDir habs hshort (length_logPathSrc_le jsonPath)
    (h .all _ _ _ (noFileOnWay_ofPath _ _) hinit)

/-- For every program and every configured path: the directory of the log exists after
    `path_mkdir_recursive` has succeeded, whatever may be done and whatever exists
    without a file on the way, exactly when `full_dir` loses nothing by the cut. -/
theorem logJsonInit_hasDir_iff (link : ExePath) (jsonPath : JsonPath) :
    ∃ root, getAppRoot (some link) pathMax = some root ∧
      ((∀ k t logPath t', NoFileOnWay t (fullDir root (logPathSrc jsonPath.bytes)) →
          logJsonInit k t false (some link) jsonPath = some (logPath, 0, t') →
          t'.HasDir k (containing logPath)) ↔
        LosesNothing (fullDir root (logPathSrc jsonPath.bytes))) := by
  obtain ⟨root, hroot, hshort, habs⟩ := exists_appRoot link
  have hlen := length_logPathSrc_le jsonPath
  refine ⟨root, hroot, losesNothing_of_forall hroot, fun hloses k t logPath t' hfiles hinit => ?_⟩
  rw [logJsonInit_eq hroot hshort, Option.some.injEq, Prod.mk.injEq] at hinit
  obtain ⟨rfl, hmkdir⟩ := hinit
  have hret := congrArg Prod.fst hmkdir
  have htree := congrArg Prod.snd hmkdir
  dsimp only at hret htree
  rw [← htree]
  exact hasDir_of_losesNothing habs hlen hloses hfiles hret

end

/-- `/a...a/b...b/f`, of 511 bytes. -/
def deepExe : ExePath where
  bytes := slash :: List.replicate 254 0x61 ++ slash :: List.replicate 253 0x62 ++ [slash, 0x66]
  absolute := rfl

/-- No path is configured. -/
def noJsonPath : JsonPath := ⟨[], Nat.zero_le _⟩

/-- The directory `logs` of the program is cut to `l`. -/
theorem not_losesNothing_deepExe :
    ¬ LosesNothing
      (fullDir ((getAppRoot (some deepExe) pathMax).getD []) (logPathSrc noJsonPath.bytes)) := by
  decide +kernel

theorem not_hasDir_deepExe :
    ¬ ∀ (link : ExePath) (jsonPath : JsonPath) (root : Path), getAppRoot (some link) pathMax = some root →
      ∀ k t logPath t', NoFileOnWay t (fullDir root (logPathSrc jsonPath.bytes)) →
        logJsonInit k t false (some link) jsonPath = some (logPath, 0, t') →
        t'.HasDir k (containing logPath) := by
  intro h
  obtain ⟨root, hroot, -, -⟩ := exists_appRoot deepExe
  have hnot := not_losesNothing_deepExe
  rw [hroot] at hnot
  exact hnot (losesNothing_of_forall hroot (h deepExe noJsonPath root hroot))

end LinuxFileManager.Log
