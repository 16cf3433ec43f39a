import LinuxFileManager.Config.Ini

/-!
# What the handler is called with

A line leaves the state of the parser alone, counts as an error, opens a section, or
calls the handler: for a pair, or for the continuation of the value before it.

Results:

* `line_effect`: these are the only effects, with what holds of the texts in them.
* `calls_ok`: whatever the file holds, no call sees an inline comment, a newline, a
  NUL, whitespace around a value, or a sign in a name.
* `iniParse_calls`: for a handler that refuses nothing, parsing is such a row of calls,
  and it does not depend on the handler. It depends on the file, and on the byte in
  front of `abyss` (`below`) when a part of a long line that is read into it starts with
  a NUL.
-/

namespace LinuxFileManager.Config

open Lib

/-! ## Scanning -/

/-- No inline comment starts in these bytes; `wasSpace` says whether there is
    whitespace in front of them. -/
def noComment : Bool → Bytes → Bool
  | _, [] => true
  | wasSpace, c :: s => !(wasSpace && c = byte ';') && noComment (isspace c) s

/-- Whether there is whitespace behind these bytes. -/
def endsInSpace (wasSpace : Bool) (s : Bytes) : Bool := s.foldl (fun _ c => isspace c) wasSpace

theorem noComment_append (wasSpace : Bool) (a b : Bytes) :
    noComment wasSpace (a ++ b) = (noComment wasSpace a && noComment (endsInSpace wasSpace a) b) := by
  induction a generalizing wasSpace with
  | nil => rfl
  | cons c a ih =>
    rw [List.cons_append, noComment, noComment, ih, Bool.and_assoc]
    rfl

/-- Whitespace in front only makes it harder. -/
theorem noComment_false {wasSpace : Bool} {s : Bytes} (h : noComment wasSpace s = true) :
    noComment false s = true := by
  cases s with
  | nil => rfl
  | cons c s =>
    rw [noComment, Bool.and_eq_true] at h ⊢
    exact ⟨rfl, h.2⟩

theorem noComment_of_isPrefix {wasSpace : Bool} {a s : Bytes} (h : a <+: s)
    (hplain : noComment wasSpace s = true) : noComment wasSpace a = true := by
  obtain ⟨b, rfl⟩ := h
  rw [noComment_append, Bool.and_eq_true] at hplain
  exact hplain.1

theorem noComment_of_isSuffix {wasSpace : Bool} {b s : Bytes} (h : b <:+ s)
    (hplain : noComment wasSpace s = true) : noComment false b = true := by
  obtain ⟨a, rfl⟩ := h
  rw [noComment_append, Bool.and_eq_true] at hplain
  exact noComment_false hplain.2

theorem mem_head?_of_isPrefix {a s : Bytes} (h : a <+: s) {c : UInt8} (hc : c ∈ a.head?) :
    c ∈ s.head? := by
  obtain ⟨b, rfl⟩ := h
  rw [List.head?_append, Option.mem_def.mp hc]
  rfl

/-- What `scan` goes over holds none of the characters and no inline comment. -/
theorem scan_spec (chars : Bytes) (wasSpace : Bool) (s : Bytes) :
    (scan chars wasSpace s).1 ++ (scan chars wasSpace s).2 = s ∧
      noComment wasSpace (scan chars wasSpace s).1 = true ∧
      ∀ c ∈ chars, c ∉ (scan chars wasSpace s).1 := by
  induction s generalizing wasSpace with
  | nil => exact ⟨rfl, rfl, fun _ _ => List.not_mem_nil⟩
  | cons c s ih =>
    unfold scan
    split_ifs with hstop
    · exact ⟨rfl, rfl, fun _ _ => List.not_mem_nil⟩
    · obtain ⟨happend, hcomment, hchars⟩ := ih (isspace c)
      rw [Bool.not_eq_true, Bool.or_eq_false_iff] at hstop
      refine ⟨congrArg (c :: ·) happend, ?_, ?_⟩
      · rw [noComment, hstop.2, hcomment]
        rfl
      · intro d hd hmem
        rcases List.mem_cons.mp hmem with rfl | hmem
        · rw [List.contains_eq_mem, decide_eq_false_iff_not] at hstop
          exact hstop.1 hd
        · exact hchars d hd hmem

/-- `scan` goes over everything that holds none of the characters and no comment. -/
theorem scan_append {chars : Bytes} {wasSpace : Bool} {a : Bytes} (hchars : ∀ c ∈ a, c ∉ chars)
    (hcomment : noComment wasSpace a = true) (rest : Bytes) :
    scan chars wasSpace (a ++ rest) =
      (a ++ (scan chars (endsInSpace wasSpace a) rest).1,
        (scan chars (endsInSpace wasSpace a) rest).2) := by
  induction a generalizing wasSpace with
  | nil => rfl
  | cons c a ih =>
    rw [noComment, Bool.and_eq_true, Bool.not_eq_true'] at hcomment
    have hc : chars.contains c = false := by
      rw [List.contains_eq_mem, decide_eq_false_iff_not]
      exact hchars c List.mem_cons_self
    have hgo : ¬ (chars.contains c || (wasSpace && decide (c = byte ';'))) = true := by
      rw [hc, hcomment.1]
      exact Bool.false_ne_true
    rw [List.cons_append, scan, if_neg hgo,
      ih (fun d hd => hchars d (List.mem_cons_of_mem c hd)) hcomment.2]
    rfl

theorem scan_eq_self {chars : Bytes} {wasSpace : Bool} {a : Bytes} (hchars : ∀ c ∈ a, c ∉ chars)
    (hcomment : noComment wasSpace a = true) : scan chars wasSpace a = (a, []) := by
  have h := scan_append hchars hcomment []
  rw [List.append_nil] at h
  rw [h, scan, List.append_nil]

/-- It stops in front of one of the characters. -/
theorem scan_stop {chars : Bytes} {wasSpace : Bool} {a : Bytes} (hchars : ∀ c ∈ a, c ∉ chars)
    (hcomment : noComment wasSpace a = true) {c : UInt8} (hc : c ∈ chars) (rest : Bytes) :
    scan chars wasSpace (a ++ c :: rest) = (a, c :: rest) := by
  have hstop : (chars.contains c || (endsInSpace wasSpace a && decide (c = byte ';'))) = true := by
    rw [List.contains_eq_mem, decide_eq_true hc, Bool.true_or]
  rw [scan_append hchars hcomment, scan, if_pos hstop, List.append_nil]

/-! ## Stripping -/

/-- No whitespace at the ends. -/
def Trimmed (s : Bytes) : Prop :=
  (∀ c ∈ s.head?, isspace c = false) ∧ ∀ c ∈ s.getLast?, isspace c = false

theorem trimmed_nil : Trimmed [] :=
  ⟨fun _ h => (Option.not_mem_none _ h).elim, fun _ h => (Option.not_mem_none _ h).elim⟩

theorem head_iniLskip (s : Bytes) : ∀ c ∈ (iniLskip s).head?, isspace c = false := by
  intro c hc
  have h := List.head?_dropWhile_not isspace s
  rw [iniLskip] at hc
  cases hhead : (s.dropWhile isspace).head? with
  | none =>
    rw [hhead] at hc
    cases hc
  | some d =>
    rw [hhead] at hc h
    cases hc
    exact h

theorem iniRstrip_cons {c : UInt8} {s : Bytes} (hc : isspace c = false) :
    ∃ s', iniRstrip (c :: s) = c :: s' := by
  have hne : iniRstrip (c :: s) ≠ [] := by
    intro hnil
    rw [iniRstrip, List.rdropWhile_eq_nil_iff] at hnil
    rw [hnil c List.mem_cons_self] at hc
    cases hc
  obtain ⟨rest, hrest⟩ := List.rdropWhile_prefix isspace (c :: s)
  rw [← iniRstrip] at hrest
  cases hstrip : iniRstrip (c :: s) with
  | nil => exact absurd hstrip hne
  | cons d s' =>
    rw [hstrip, List.cons_append, List.cons.injEq] at hrest
    exact ⟨s', by rw [hrest.1]⟩

theorem trimmed_iniRstrip {s : Bytes} (h : ∀ c ∈ s.head?, isspace c = false) :
    Trimmed (iniRstrip s) := by
  refine ⟨?_, ?_⟩
  · cases s with
    | nil => exact trimmed_nil.1
    | cons c s =>
      obtain ⟨s', hs'⟩ := iniRstrip_cons (s := s) (h c rfl)
      rw [hs']
      exact h
  · intro c hc
    have hne : iniRstrip s ≠ [] := by
      intro hnil
      rw [hnil] at hc
      cases hc
    rw [List.getLast?_eq_some_getLast hne] at hc
    cases hc
    exact Bool.eq_false_iff.mpr (List.rdropWhile_last_not isspace s hne)

theorem iniLskip_eq_self {s : Bytes} (h : ∀ c ∈ s.head?, isspace c = false) : iniLskip s = s := by
  cases s with
  | nil => rfl
  | cons c s => exact List.dropWhile_cons_of_neg (Bool.eq_false_iff.mp (h c rfl))

theorem iniRstrip_eq_self {s : Bytes} (h : ∀ c ∈ s.getLast?, isspace c = false) : iniRstrip s = s := by
  rw [iniRstrip, List.rdropWhile_eq_self_iff]
  intro hne
  exact Bool.eq_false_iff.mp (h _ (List.getLast?_eq_some_getLast hne))

/-- Whitespace around a trimmed text is stripped. -/
theorem iniRstrip_append_space {s space : Bytes} (hspace : ∀ c ∈ space, isspace c = true) :
    iniRstrip (s ++ space) = iniRstrip s := by
  induction space using List.reverseRecOn with
  | nil => rw [List.append_nil]
  | append_singleton space c ih =>
    rw [← List.append_assoc, iniRstrip,
      List.rdropWhile_concat_pos isspace _ _ (hspace c (by simp))]
    exact ih fun d hd => hspace d (List.mem_append_left _ hd)

theorem iniLskip_append_space {s space : Bytes} (hspace : ∀ c ∈ space, isspace c = true) :
    iniLskip (space ++ s) = iniLskip s :=
  List.dropWhile_append_of_pos hspace

/-- Stripping a suffix leaves no more than stripping the whole. -/
theorem mem_iniRstrip_append {a b : Bytes} {c : UInt8} (h : c ∈ iniRstrip b) :
    c ∈ iniRstrip (a ++ b) := by
  induction b using List.reverseRecOn with
  | nil => exact absurd h List.not_mem_nil
  | append_singleton b d ih =>
    rw [← List.append_assoc]
    by_cases hd : isspace d = true
    · rw [iniRstrip, List.rdropWhile_concat_pos isspace _ _ hd] at h ⊢
      exact ih h
    · rw [iniRstrip, List.rdropWhile_concat_neg isspace _ _ hd] at h ⊢
      rw [List.append_assoc]
      exact List.mem_append_right _ h

/-! ## What a line does -/

variable {σ : Type}

/-- A name as it stands on a pair line. -/
structure NameOk (name : Bytes) : Prop where
  signs : byte '=' ∉ name ∧ byte ':' ∉ name
  plain : noComment false name = true
  first : ∀ c ∈ name.head?, isspace c = false ∧ c ≠ byte '[' ∧ c ≠ byte ';' ∧ c ≠ byte '#'

/-- A value as the handler gets it. -/
structure ValueOk (value : Bytes) : Prop where
  trimmed : Trimmed value
  plain : noComment false value = true

/-- A title as it stands between the brackets. -/
structure TitleOk (title : Bytes) : Prop where
  bracket : byte ']' ∉ title
  plain : noComment false title = true

theorem NameOk.of_isPrefix {a name : Bytes} (h : NameOk name) (hpre : a <+: name) : NameOk a where
  signs := ⟨fun hmem => h.signs.1 (hpre.subset hmem), fun hmem => h.signs.2 (hpre.subset hmem)⟩
  plain := noComment_of_isPrefix hpre h.plain
  first c hc := h.first c (mem_head?_of_isPrefix hpre hc)

theorem TitleOk.of_isPrefix {a title : Bytes} (h : TitleOk title) (hpre : a <+: title) : TitleOk a where
  bracket hmem := h.bracket (hpre.subset hmem)
  plain := noComment_of_isPrefix hpre h.plain

/-- What the parser does to its state at a line. -/
inductive LineEffect (handler : Handler σ) (st : IniState σ) (line : Bytes) : IniState σ → Prop where
  | skipped : LineEffect handler st line st
  | failed : LineEffect handler st line st.fail
  | title {title : Bytes} (hok : TitleOk title) (hmem : title ⊆ iniRstrip line) :
      LineEffect handler st line { st with sect := iniStrncpy0 title maxSection, prevName := [] }
  | pair {name value : Bytes} (hname : NameOk name) (htrimmed : Trimmed name) (hvalue : ValueOk value)
      (hmem : name ⊆ iniRstrip line ∧ value ⊆ iniRstrip line) :
      LineEffect handler st line
        ({ st with prevName := iniStrncpy0 name maxName }.call handler name value)
  | more {value : Bytes} (hprev : st.prevName ≠ []) (hvalue : ValueOk value)
      (hmem : value ⊆ iniRstrip line) : LineEffect handler st line (st.call handler st.prevName value)

section

variable {handler : Handler σ} {st : IniState σ} {line : Bytes}

theorem continuation_effect {start : Bytes} (hprev : st.prevName ≠ [])
    (hhead : ∀ c ∈ start.head?, isspace c = false) (hmem : start ⊆ iniRstrip line) :
    LineEffect handler st line (st.continuation handler start) := by
  obtain ⟨happend, hplain, -⟩ := scan_spec [] false start
  have hfront : (scan [] false start).1 <+: start := ⟨_, happend⟩
  have hstrip := List.rdropWhile_prefix isspace (scan [] false start).1
  refine .more hprev ⟨trimmed_iniRstrip fun c hc => hhead c (mem_head?_of_isPrefix hfront hc), ?_⟩ ?_
  · exact noComment_of_isPrefix hstrip hplain
  · exact fun c hc => hmem (hfront.subset (hstrip.subset hc))

theorem sectionLine_effect {start : Bytes} (hmem : start ⊆ iniRstrip line) :
    LineEffect handler st line (st.sectionLine start) := by
  obtain ⟨happend, hplain, hchars⟩ := scan_spec (bytes "]") false start
  rcases hscan : scan (bytes "]") false start with ⟨title, _ | ⟨c, rest⟩⟩
  · simp only [IniState.sectionLine, iniFindCharsOrComment, hscan]
    exact .failed
  · rw [hscan] at happend hplain hchars
    simp only [IniState.sectionLine, iniFindCharsOrComment, hscan]
    split_ifs
    · refine .title ⟨hchars _ (by decide), hplain⟩ fun d hd => hmem ?_
      rw [← happend]
      exact List.mem_append_left _ hd
    · exact .failed

theorem pairLine_effect {start : Bytes}
    (hhead : ∀ c ∈ start.head?, isspace c = false ∧ c ≠ byte '[' ∧ c ≠ byte ';' ∧ c ≠ byte '#')
    (hmem : start ⊆ iniRstrip line) : LineEffect handler st line (st.pairLine handler start) := by
  obtain ⟨happend, hplain, hchars⟩ := scan_spec (bytes "=:") false start
  rcases hscan : scan (bytes "=:") false start with ⟨name, _ | ⟨sign, rest⟩⟩
  · simp only [IniState.pairLine, iniFindCharsOrComment, hscan]
    exact .failed
  · rw [hscan] at happend hplain hchars
    obtain ⟨hvappend, hvplain, -⟩ := scan_spec [] false rest
    simp only [IniState.pairLine, iniFindCharsOrComment, hscan]
    split_ifs
    · have hfront : name <+: start := ⟨_, happend⟩
      have hback : rest ⊆ start := fun c hc =>
        happend ▸ List.mem_append_right _ (List.mem_cons_of_mem _ hc)
      have hname : NameOk name :=
        ⟨⟨hchars _ (by decide), hchars _ (by decide)⟩, hplain,
          fun c hc => hhead c (mem_head?_of_isPrefix hfront hc)⟩
      -- the name and the value are what is left of the two parts of the line
      have hstrip := List.rdropWhile_prefix isspace name
      have hscanned : (scan [] false rest).1 <+: rest := ⟨_, hvappend⟩
      have hskip := List.dropWhile_suffix isspace (l := (scan [] false rest).1)
      have hvalue := List.rdropWhile_prefix isspace (iniLskip (scan [] false rest).1)
      refine .pair (hname.of_isPrefix hstrip) (trimmed_iniRstrip fun c hc => (hname.first c hc).1)
        ⟨trimmed_iniRstrip (head_iniLskip _), ?_⟩ ⟨?_, ?_⟩
      · exact noComment_of_isPrefix hvalue (noComment_of_isSuffix hskip hvplain)
      · exact fun c hc => hmem (hfront.subset (hstrip.subset hc))
      · exact fun c hc => hmem (hback (hscanned.subset (hskip.subset (hvalue.subset hc))))
    · exact .failed

theorem line_effect (handler : Handler σ) (st : IniState σ) (line : Bytes) :
    LineEffect handler st line (st.line handler line) := by
  have hsuffix : iniLskip (skipBom st.lineno line) <:+ line := by
    refine (List.dropWhile_suffix isspace).trans ?_
    unfold skipBom
    split_ifs
    · exact List.drop_suffix _ _
    · exact List.suffix_rfl
  have hmem : iniRstrip (iniLskip (skipBom st.lineno line)) ⊆ iniRstrip line := by
    intro c hc
    obtain ⟨front, hfront⟩ := hsuffix
    rw [← hfront]
    exact mem_iniRstrip_append hc
  have htrimmed := trimmed_iniRstrip (head_iniLskip (skipBom st.lineno line))
  rw [IniState.line]
  cases hstart : iniRstrip (iniLskip (skipBom st.lineno line)) with
  | nil => exact .skipped
  | cons c start =>
    rw [hstart] at hmem htrimmed
    have hc : isspace c = false := htrimmed.1 c rfl
    rw [IniState.stripped]
    split_ifs with hmark hmore hbracket
    · exact .skipped
    · exact continuation_effect hmore.1 htrimmed.1 hmem
    · exact sectionLine_effect fun d hd => hmem (List.mem_cons_of_mem c hd)
    · refine pairLine_effect ?_ hmem
      intro d hd
      rw [List.head?_cons, Option.mem_some_iff] at hd
      subst hd
      exact ⟨hc, hbracket, fun h => hmark (.inl h), fun h => hmark (.inr h)⟩

end

/-! ## What a call holds -/

/-- Neither a NUL nor a newline. -/
def Clean (s : Bytes) : Prop := 0 ∉ s ∧ newline ∉ s

instance (s : Bytes) : Decidable (Clean s) := inferInstanceAs (Decidable (_ ∧ _))

theorem Clean.mono {s t : Bytes} (h : Clean t) (hst : s ⊆ t) : Clean s :=
  ⟨fun h0 => h.1 (hst h0), fun hnl => h.2 (hst hnl)⟩

/-- What holds of the section, the name and the value of a call. -/
structure CallOk (call : Call) : Prop where
  sect : TitleOk call.1 ∧ call.1.length < maxSection
  name : NameOk call.2.1
  value : ValueOk call.2.2
  clean : Clean call.1 ∧ Clean call.2.1 ∧ Clean call.2.2

theorem nameOk_nil : NameOk [] :=
  ⟨⟨List.not_mem_nil, List.not_mem_nil⟩, rfl, fun _ h => (Option.not_mem_none _ h).elim⟩

/-- A piece has its newline at its end, and the string in it no NUL. -/
theorem readLine_clean {below : UInt8} {s line rest : Bytes} {long : Bool}
    (h : readLine below s = some (line, long, rest)) : Clean (iniRstrip line) := by
  have hnil : s ≠ [] := by
    intro hs
    rw [hs, readLine_nil] at h
    cases h
  obtain ⟨piece, rest', hfgets, hpiece⟩ := exists_piece newline hnil (iniMaxLine - 1)
  have hline : line = cstr piece := by
    rw [readLine, hfgets, Option.map_some, Option.some.injEq] at h
    dsimp only at h
    split_ifs at h <;> exact (congrArg Prod.fst h).symm
  have hstring : cstr piece <+: piece := List.takeWhile_prefix _
  -- no newline except at the end
  have hbody : ∃ body, newline ∉ body ∧ (piece = body ∨ piece = body ++ [newline]) := by
    cases hpiece with
    | whole hle =>
      rcases firstLine_cases newline s with ⟨hno, hself, -⟩ | ⟨body, hbody, hfirst⟩
      · exact ⟨_, by rwa [hself], .inl rfl⟩
      · exact ⟨body, hbody, .inr hfirst⟩
    | cut hlength hno hfirst hrest hafter => exact ⟨piece, hno, .inl rfl⟩
  have hstrip : ∀ body, newline ∉ body → newline ∉ iniRstrip body :=
    fun body hbody hmem => hbody ((List.rdropWhile_prefix isspace body).subset hmem)
  subst hline
  refine ⟨fun h0 => ?_, ?_⟩
  · have hmem := (List.rdropWhile_prefix isspace _).subset h0
    have hne : ((0 : UInt8) != 0) = true := List.mem_takeWhile_imp (p := fun c => c != 0) hmem
    cases hne
  · obtain ⟨body, hno, rfl | rfl⟩ := hbody
    · exact hstrip _ fun hmem => hno (hstring.subset hmem)
    · rcases List.prefix_concat_iff.mp hstring with heq | hpre
      · rw [heq, iniRstrip, List.rdropWhile_concat_pos isspace _ _ (by decide)]
        exact hstrip _ hno
      · exact hstrip _ fun hmem => hno (hpre.subset hmem)

/-- What the parser keeps while it records its calls. -/
structure CallsInv (st : IniState (List Call)) : Prop where
  sect : TitleOk st.sect ∧ st.sect.length < maxSection ∧ Clean st.sect
  prevName : NameOk st.prevName ∧ Clean st.prevName
  calls : ∀ call ∈ st.user, CallOk call

section

variable {st : IniState (List Call)}

theorem CallsInv.call (h : CallsInv st) {name value : Bytes} (hname : NameOk name ∧ Clean name)
    (hvalue : ValueOk value ∧ Clean value) : CallsInv (st.call record name value) := by
  refine ⟨h.sect, h.prevName, ?_⟩
  intro call hcall
  rcases List.mem_append.mp hcall with hcall | hcall
  · exact h.calls call hcall
  · rw [List.mem_singleton.mp hcall]
    exact ⟨⟨h.sect.1, h.sect.2.1⟩, hname.1, hvalue.1, h.sect.2.2, hname.2, hvalue.2⟩

theorem CallsInv.line {line : Bytes} (h : CallsInv st) (hclean : Clean (iniRstrip line)) :
    CallsInv (st.line record line) := by
  have heffect := line_effect record st line
  generalize st.line record line = st' at heffect
  cases heffect with
  | skipped => exact h
  | failed => exact ⟨h.sect, h.prevName, h.calls⟩
  | title hok hmem =>
    refine ⟨⟨hok.of_isPrefix (List.take_prefix _ _), ?_,
        hclean.mono fun c hc => hmem (List.mem_of_mem_take hc)⟩,
      ⟨nameOk_nil, List.not_mem_nil, List.not_mem_nil⟩, h.calls⟩
    rw [iniStrncpy0, List.length_take, maxSection]
    omega
  | @pair name value hname htrimmed hvalue hmem =>
    have hprev : CallsInv { st with prevName := iniStrncpy0 name maxName } :=
      ⟨h.sect, ⟨hname.of_isPrefix (List.take_prefix _ _),
        hclean.mono fun c hc => hmem.1 (List.mem_of_mem_take hc)⟩, h.calls⟩
    exact hprev.call ⟨hname, hclean.mono hmem.1⟩ ⟨hvalue, hclean.mono hmem.2⟩
  | more hprev hvalue hmem => exact h.call h.prevName ⟨hvalue, hclean.mono hmem⟩

theorem CallsInv.loop (h : CallsInv st) (below : UInt8) (fuel : ℕ) (s : Bytes) :
    CallsInv (iniLoop below record fuel st s) := by
  induction fuel generalizing st s with
  | zero => exact h
  | succ fuel ih =>
    rcases hread : readLine below s with _ | ⟨line, long, rest⟩
    · simp only [iniLoop, hread]
      exact h
    · simp only [iniLoop, hread]
      refine ih (CallsInv.line ?_ (readLine_clean hread)) rest
      cases long <;> exact ⟨h.sect, h.prevName, h.calls⟩

end

/-- No call sees an inline comment, a newline, a NUL, whitespace around a value, or a
    sign in a name, whatever the file holds. -/
theorem calls_ok (below : UInt8) (file : Option Bytes) :
    ∀ call ∈ (iniCalls below file).2, CallOk call := by
  cases file with
  | none => exact fun call h => (List.not_mem_nil h).elim
  | some text =>
    refine (CallsInv.loop ⟨⟨⟨List.not_mem_nil, rfl⟩, by decide, List.not_mem_nil, List.not_mem_nil⟩,
      ⟨nameOk_nil, List.not_mem_nil, List.not_mem_nil⟩, ?_⟩ below text.length text).calls
    exact fun call h => (List.not_mem_nil h).elim

/-- Whatever the file holds, `ini_parse` with a handler that refuses nothing is a row of
    well-formed calls. The file decides it, with the byte in front of the buffer. -/
theorem iniParse_calls (below : UInt8) (file : Option Bytes) :
    ∃ (result : ℤ) (calls : List Call), (∀ call ∈ calls, CallOk call) ∧
      ∀ {σ : Type} (handler : Handler σ),
        (∀ user sect name value, (handler user sect name value).2 = true) → ∀ user,
          iniParse below handler user file =
            (result, calls.foldl (fun user call => (handler user call.1 call.2.1 call.2.2).1) user) :=
  ⟨_, _, calls_ok below file, fun handler haccepts user => iniParse_eq_calls below handler haccepts user file⟩

end LinuxFileManager.Config
