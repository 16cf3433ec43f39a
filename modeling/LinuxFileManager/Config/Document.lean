import LinuxFileManager.Config.Calls

/-!
# Writing a configuration file

A document is a list of items: blank lines, comments, titles, pairs and continued
values, with the whitespace and the comments around them. Written out as text and
read by `ini_parse`, a well-formed one gives the calls that it stands for.

Results:

* `iniCalls_render`, `iniParse_render`: what is read is what was written, whatever the
  layout.
* `iniCalls_print`: the calls of any file, printed one to a pair, are read again as
  the same calls.
-/

namespace LinuxFileManager.Config

open Lib

/-! ## Documents -/

/-- What may stand behind a value: whitespace, and an inline comment. -/
structure Tail where
  space : Bytes
  comment : Option Bytes

def Tail.text (tail : Tail) : Bytes :=
  match tail.comment with
  | none => tail.space
  | some text => tail.space ++ byte ';' :: text

/-- Around the sign of a pair. -/
structure Layout where
  before : Bytes
  colon : Bool
  after : Bytes
  tail : Tail

def Layout.sign (layout : Layout) : UInt8 := if layout.colon then byte ':' else byte '='

inductive Item where
  | blank (space : Bytes)
  | comment (indent : Bytes) (hash : Bool) (text : Bytes)
  | header (title rest : Bytes)
  | pair (name value : Bytes) (layout : Layout)
  | more (indent value : Bytes) (tail : Tail)

/-- The line of an item, without its newline. -/
def Item.render : Item → Bytes
  | .blank space => space
  | .comment indent hash text => indent ++ (if hash then byte '#' else byte ';') :: text
  | .header title rest => byte '[' :: (title ++ byte ']' :: rest)
  | .pair name value layout =>
    name ++ layout.before ++ layout.sign :: (layout.after ++ value ++ layout.tail.text)
  | .more indent value tail => indent ++ (value ++ tail.text)

/-- The text of a document. -/
def render (items : List Item) : Bytes := (items.map fun item => item.render ++ [newline]).flatten

def AllSpace (s : Bytes) : Prop := ∀ c ∈ s, isspace c = true

structure Tail.Ok (tail : Tail) : Prop where
  space : AllSpace tail.space
  comment : tail.comment ≠ none → tail.space ≠ []

/-- The text of an item may be read as this item. -/
def Item.Ok : Item → Prop
  | .blank space => AllSpace space
  | .comment indent _ _ => AllSpace indent
  | .header title _ => TitleOk title ∧ title.length < maxSection
  | .pair name value layout =>
    NameOk name ∧ Trimmed name ∧ name.length < maxName ∧ Trimmed value ∧
      noComment false (layout.after ++ value) = true ∧ (name = [] → layout.before = []) ∧
      AllSpace layout.before ∧ AllSpace layout.after ∧ layout.tail.Ok
  | .more indent value tail =>
    indent ≠ [] ∧ AllSpace indent ∧ ValueOk value ∧
      (∃ c ∈ value.head?, c ≠ byte ';' ∧ c ≠ byte '#') ∧ tail.Ok

/-- Every item may be read as it is and its line fits, and every continued value has a
    pair with a name in its section before it; `prev` is the name of the last one. -/
def WellFormed : Bytes → List Item → Prop
  | _, [] => True
  | prev, item :: items =>
    item.Ok ∧ Clean item.render ∧ item.render.length + 1 < iniMaxLine ∧
      match item with
      | .blank _ | .comment _ _ _ => WellFormed prev items
      | .header _ _ => WellFormed [] items
      | .pair name _ _ => WellFormed name items
      | .more _ _ _ => prev ≠ [] ∧ WellFormed prev items

/-- The calls that a document stands for, behind a section and a name. -/
def callsOf : Bytes → Bytes → List Item → List Call
  | _, _, [] => []
  | sect, prev, .blank _ :: items | sect, prev, .comment _ _ _ :: items => callsOf sect prev items
  | _, _, .header title _ :: items => callsOf title [] items
  | sect, _, .pair name value _ :: items => (sect, name, value) :: callsOf sect name items
  | sect, prev, .more _ value _ :: items => (sect, prev, value) :: callsOf sect prev items

/-! ## Stripping what is around a text -/

theorem allSpace_nil : AllSpace [] := fun _ h => (List.not_mem_nil h).elim

theorem AllSpace.append {s t : Bytes} (hs : AllSpace s) (ht : AllSpace t) : AllSpace (s ++ t) := by
  intro c hc
  rcases List.mem_append.mp hc with hc | hc
  · exact hs c hc
  · exact ht c hc

theorem AllSpace.iniRstrip {s : Bytes} (h : AllSpace s) : iniRstrip s = [] :=
  (List.rdropWhile_eq_nil_iff).mpr h

theorem AllSpace.iniLskip {s : Bytes} (h : AllSpace s) : iniLskip s = [] :=
  (List.dropWhile_eq_nil_iff).mpr h

theorem AllSpace.noComment {s : Bytes} (h : AllSpace s) (wasSpace : Bool) :
    noComment wasSpace s = true := by
  induction s generalizing wasSpace with
  | nil => rfl
  | cons c s ih =>
    have hne : c ≠ byte ';' := by
      rintro rfl
      exact absurd (h _ List.mem_cons_self) (by decide)
    rw [Config.noComment, decide_eq_false hne, Bool.and_false,
      ih (fun d hd => h d (List.mem_cons_of_mem c hd))]
    rfl

theorem AllSpace.endsInSpace {s : Bytes} (h : AllSpace s) (hne : s ≠ []) (wasSpace : Bool) :
    endsInSpace wasSpace s = true := by
  induction s using List.reverseRecOn with
  | nil => exact absurd rfl hne
  | append_singleton s c =>
    rw [Config.endsInSpace, List.foldl_append]
    exact h c (by simp)

/-- The text between the whitespace. -/
theorem strip_between {front value back : Bytes} (hfront : AllSpace front) (hback : AllSpace back)
    (hvalue : Trimmed value) : iniRstrip (iniLskip (front ++ (value ++ back))) = value := by
  rw [iniLskip_append_space hfront]
  by_cases hnil : value = []
  · subst hnil
    rw [List.nil_append, hback.iniLskip]
    rfl
  · rw [iniLskip_eq_self, iniRstrip_append_space hback, iniRstrip_eq_self hvalue.2]
    rw [List.head?_append_of_ne_nil _ hnil]
    exact hvalue.1

/-- Stripping stops at what is no whitespace. -/
theorem iniRstrip_append_cons (a : Bytes) {c : UInt8} (hc : isspace c = false) (b : Bytes) :
    iniRstrip (a ++ c :: b) = a ++ c :: iniRstrip b := by
  induction b using List.reverseRecOn with
  | nil => exact List.rdropWhile_concat_neg isspace a c (Bool.eq_false_iff.mp hc)
  | append_singleton b d ih =>
    have hassoc : a ++ c :: (b ++ [d]) = a ++ c :: b ++ [d] := by simp
    by_cases hd : isspace d = true
    · rw [hassoc, iniRstrip, iniRstrip, List.rdropWhile_concat_pos isspace _ _ hd,
        List.rdropWhile_concat_pos isspace _ _ hd]
      exact ih
    · rw [hassoc, iniRstrip, iniRstrip, List.rdropWhile_concat_neg isspace _ _ hd,
        List.rdropWhile_concat_neg isspace _ _ hd]
      simp

/-- The scan of a value stops at its comment, and leaves whitespace around it. -/
theorem exists_scan_tail {after value : Bytes} {tail : Tail} (hafter : AllSpace after)
    (hvalue : Trimmed value) (hplain : noComment false (after ++ value) = true) (htail : tail.Ok) :
    ∃ front back, AllSpace front ∧ AllSpace back ∧
      (scan [] false (iniRstrip (after ++ value ++ tail.text))).1 = front ++ (value ++ back) := by
  have hchars : ∀ s : Bytes, ∀ c ∈ s, c ∉ ([] : Bytes) := fun _ _ _ => List.not_mem_nil
  cases hcomment : tail.comment with
  | none =>
    rw [Tail.text, hcomment]
    dsimp only
    rw [iniRstrip_append_space htail.space]
    by_cases hnil : value = []
    · refine ⟨[], [], allSpace_nil, allSpace_nil, ?_⟩
      rw [hnil, List.append_nil, hafter.iniRstrip]
      rfl
    · refine ⟨after, [], hafter, allSpace_nil, ?_⟩
      have hself : iniRstrip (after ++ value) = after ++ value := by
        refine iniRstrip_eq_self fun c hc => hvalue.2 c ?_
        rwa [List.getLast?_append_of_ne_nil _ hnil] at hc
      rw [hself, scan_eq_self (hchars _) hplain, List.append_nil]
  | some text =>
    refine ⟨after, tail.space, hafter, htail.space, ?_⟩
    have hends : endsInSpace false (after ++ value ++ tail.space) = true := by
      rw [endsInSpace, List.foldl_append]
      exact htail.space.endsInSpace (htail.comment (by rw [hcomment]; exact Option.some_ne_none text)) _
    have hbody : noComment false (after ++ value ++ tail.space) = true := by
      rw [noComment_append, hplain, htail.space.noComment]
      rfl
    rw [Tail.text, hcomment]
    dsimp only
    rw [← List.append_assoc, iniRstrip_append_cons _ (by decide), scan_append (hchars _) hbody, hends,
      scan, if_pos (by simp), List.append_nil, List.append_assoc]

/-! ## One line -/

variable {σ : Type}

/-- What an item stands for. -/
def IniState.item (st : IniState σ) (handler : Handler σ) : Item → IniState σ
  | .blank _ | .comment _ _ _ => st
  | .header title _ => { st with sect := title, prevName := [] }
  | .pair name value _ => { st with prevName := name }.call handler name value
  | .more _ value _ => st.call handler st.prevName value

section

variable {handler : Handler σ} {st : IniState σ}

/-- A line that starts with no whitespace is not indented. -/
theorem line_of_head {line : Bytes} (hskip : skipBom st.lineno line = line)
    (hhead : ∀ c ∈ line.head?, isspace c = false) :
    st.line handler line = st.stripped handler false (iniRstrip line) := by
  rw [IniState.line, hskip, iniLskip_eq_self hhead, decide_eq_false (Nat.lt_irrefl _)]

/-- A line behind whitespace is indented. -/
theorem line_of_indent {indent line : Bytes}
    (hskip : skipBom st.lineno (indent ++ line) = indent ++ line) (hindent : AllSpace indent)
    (hne : indent ≠ []) (hhead : ∀ c ∈ line.head?, isspace c = false) :
    st.line handler (indent ++ line) = st.stripped handler true (iniRstrip line) := by
  have hpos := List.length_pos_iff.mpr hne
  rw [IniState.line, hskip, iniLskip_append_space hindent, iniLskip_eq_self hhead,
    decide_eq_true (by rw [List.length_append]; omega)]

theorem line_blank {space : Bytes} (hskip : skipBom st.lineno space = space) (hspace : AllSpace space) :
    st.line handler space = st := by
  rw [IniState.line, hskip, hspace.iniLskip]
  rfl

theorem stripped_comment (indented : Bool) {mark : UInt8} (hmark : mark = byte ';' ∨ mark = byte '#')
    (start : Bytes) : st.stripped handler indented (mark :: start) = st := if_pos hmark

theorem line_comment {indent text : Bytes} {mark : UInt8} (hmark : mark = byte ';' ∨ mark = byte '#')
    (hskip : skipBom st.lineno (indent ++ mark :: text) = indent ++ mark :: text)
    (hindent : AllSpace indent) : st.line handler (indent ++ mark :: text) = st := by
  have hspace : isspace mark = false := by
    rcases hmark with rfl | rfl <;> decide
  rw [IniState.line, hskip, iniLskip_append_space hindent,
    iniLskip_eq_self (s := mark :: text) fun c hc => by cases hc; exact hspace]
  have hstrip := iniRstrip_append_cons [] hspace text
  rw [List.nil_append, List.nil_append] at hstrip
  rw [hstrip, stripped_comment _ hmark]

theorem line_header {title rest : Bytes} (htitle : TitleOk title) (hlength : title.length < maxSection)
    (hskip : skipBom st.lineno (byte '[' :: (title ++ byte ']' :: rest)) =
      byte '[' :: (title ++ byte ']' :: rest)) :
    st.line handler (byte '[' :: (title ++ byte ']' :: rest)) =
      { st with sect := title, prevName := [] } := by
  have hchars : ∀ c ∈ title, c ∉ bytes "]" := by
    intro c hc hmem
    rw [show bytes "]" = [byte ']'] from rfl, List.mem_singleton] at hmem
    exact htitle.bracket (hmem ▸ hc)
  have hstrip : iniRstrip (byte '[' :: (title ++ byte ']' :: rest)) =
      byte '[' :: (title ++ byte ']' :: iniRstrip rest) :=
    iniRstrip_append_cons (byte '[' :: title) (by decide) rest
  have hscan : iniFindCharsOrComment (title ++ byte ']' :: iniRstrip rest) (bytes "]") =
      (title, byte ']' :: iniRstrip rest) := scan_stop hchars htitle.plain (by decide) _
  have hnocomment : ¬ (byte '[' = byte ';' ∨ byte '[' = byte '#') := by decide
  have hcopy : iniStrncpy0 title maxSection = title :=
    List.take_of_length_le (Nat.le_sub_one_of_lt hlength)
  rw [line_of_head hskip fun c hc => by cases hc; rfl, hstrip, IniState.stripped, if_neg hnocomment,
    if_neg fun h => Bool.false_ne_true h.2, if_pos rfl, IniState.sectionLine, hscan]
  dsimp only
  rw [if_pos rfl, hcopy]

theorem stripped_pair {start : Bytes} (hne : start ≠ [])
    (hhead : ∀ c ∈ start.head?, c ≠ byte '[' ∧ c ≠ byte ';' ∧ c ≠ byte '#') :
    st.stripped handler false start = st.pairLine handler start := by
  cases start with
  | nil => exact absurd rfl hne
  | cons c start =>
    obtain ⟨hbracket, hsemicolon, hhash⟩ := hhead c rfl
    rw [IniState.stripped, if_neg (not_or.mpr ⟨hsemicolon, hhash⟩),
      if_neg fun h => Bool.false_ne_true h.2, if_neg hbracket]

theorem Layout.sign_cases (layout : Layout) : layout.sign = byte '=' ∨ layout.sign = byte ':' := by
  unfold Layout.sign
  split_ifs
  · exact .inr rfl
  · exact .inl rfl

theorem pairLine_eq {name value : Bytes} {layout : Layout}
    (hok : (Item.pair name value layout).Ok) :
    st.pairLine handler (name ++ layout.before ++ layout.sign ::
        iniRstrip (layout.after ++ value ++ layout.tail.text)) =
      { st with prevName := name }.call handler name value := by
  obtain ⟨hname, htrimmed, hlength, hvalue, hplain, -, hbefore, hafter, htail⟩ := hok
  have hchars : ∀ c ∈ name ++ layout.before, c ∉ bytes "=:" := by
    intro c hc hmem
    have hsign : c = byte '=' ∨ c = byte ':' := by
      simpa [bytes] using hmem
    rcases List.mem_append.mp hc with hc | hc
    · rcases hsign with rfl | rfl
      · exact hname.signs.1 hc
      · exact hname.signs.2 hc
    · rcases hsign with rfl | rfl <;> exact absurd (hbefore _ hc) (by decide)
  have hbody : noComment false (name ++ layout.before) = true := by
    rw [noComment_append, hname.plain, hbefore.noComment]
    rfl
  have hstop : layout.sign ∈ bytes "=:" := by
    rcases layout.sign_cases with h | h <;> rw [h] <;> decide
  have hscan : ∀ rest, iniFindCharsOrComment (name ++ layout.before ++ layout.sign :: rest)
      (bytes "=:") = (name ++ layout.before, layout.sign :: rest) := scan_stop hchars hbody hstop
  obtain ⟨front, back, hfront, hback, hbetween⟩ := exists_scan_tail hafter hvalue hplain htail
  have hcopy : iniStrncpy0 name maxName = name :=
    List.take_of_length_le (Nat.le_sub_one_of_lt hlength)
  have hstrip : iniRstrip (name ++ layout.before) = name := by
    rw [iniRstrip_append_space hbefore, iniRstrip_eq_self htrimmed.2]
  rw [IniState.pairLine, hscan]
  dsimp only
  rw [if_pos layout.sign_cases, hstrip, hcopy, iniFindCharsOrComment, hbetween,
    strip_between hfront hback hvalue]

theorem line_pair {name value : Bytes} {layout : Layout} (hok : (Item.pair name value layout).Ok)
    {line : Bytes} (hline : line = (Item.pair name value layout).render ++ [newline])
    (hskip : skipBom st.lineno line = line) :
    st.line handler line = { st with prevName := name }.call handler name value := by
  obtain ⟨hname, -, -, -, -, hempty, -, -, -⟩ := id hok
  have hsign : isspace layout.sign = false ∧ layout.sign ≠ byte '[' ∧ layout.sign ≠ byte ';' ∧
      layout.sign ≠ byte '#' := by
    rcases layout.sign_cases with h | h <;> rw [h] <;> decide
  -- the line starts with the name, or, if there is none, with the sign
  have hfirst : ∀ rest, ∀ c ∈ (name ++ layout.before ++ layout.sign :: rest).head?,
      isspace c = false ∧ c ≠ byte '[' ∧ c ≠ byte ';' ∧ c ≠ byte '#' := by
    intro rest c hc
    by_cases hnil : name = []
    · rw [hnil, hempty hnil] at hc
      cases hc
      exact hsign
    · rw [List.append_assoc, List.head?_append_of_ne_nil _ hnil] at hc
      exact hname.first c hc
  have hstrip : iniRstrip line = name ++ layout.before ++ layout.sign ::
      iniRstrip (layout.after ++ value ++ layout.tail.text) := by
    have hassoc : line = name ++ layout.before ++ layout.sign ::
        (layout.after ++ value ++ layout.tail.text ++ [newline]) := by
      rw [hline, Item.render, List.append_assoc, List.cons_append]
    rw [hassoc, iniRstrip_append_cons _ hsign.1, iniRstrip_append_space]
    intro c hc
    rw [List.mem_singleton.mp hc]
    rfl
  rw [line_of_head hskip, hstrip, stripped_pair (by simp) fun c hc => (hfirst _ c hc).2, pairLine_eq hok]
  intro c hc
  rw [hline, Item.render, List.append_assoc, List.cons_append] at hc
  exact (hfirst _ c hc).1

theorem line_more {indent value : Bytes} {tail : Tail} (hok : (Item.more indent value tail).Ok)
    (hprev : st.prevName ≠ []) {line : Bytes}
    (hline : line = (Item.more indent value tail).render ++ [newline])
    (hskip : skipBom st.lineno line = line) :
    st.line handler line = st.call handler st.prevName value := by
  obtain ⟨hindent, hspace, hvalue, ⟨c, hc, hsemicolon, hhash⟩, htail⟩ := hok
  have hcspace : isspace c = false := hvalue.trimmed.1 c hc
  obtain ⟨v, rfl⟩ : ∃ v, value = c :: v := by
    cases value with
    | nil => cases hc
    | cons d v =>
      cases hc
      exact ⟨v, rfl⟩
  obtain ⟨s, hs⟩ := iniRstrip_cons (s := v ++ tail.text) hcspace
  have hstrip : iniRstrip (c :: v ++ tail.text ++ [newline]) = c :: s := by
    rw [iniRstrip_append_space, List.cons_append, hs]
    intro d hd
    rw [List.mem_singleton.mp hd]
    rfl
  obtain ⟨front, back, hfront, hback, hbetween⟩ :=
    exists_scan_tail allSpace_nil hvalue.trimmed hvalue.plain htail
  rw [List.nil_append, List.cons_append, hs] at hbetween
  -- the value starts the scan, so there is no whitespace in front of it
  have hnil : front = [] := by
    cases front with
    | nil => rfl
    | cons d front =>
      have happend := (scan_spec [] false (c :: s)).1
      rw [hbetween, List.cons_append, List.cons_append, List.cons.injEq] at happend
      have hd := hfront d List.mem_cons_self
      rw [happend.1, hcspace] at hd
      cases hd
  have hassoc : line = indent ++ (c :: v ++ tail.text ++ [newline]) := by
    rw [hline, Item.render, List.append_assoc]
  rw [hassoc] at hskip ⊢
  rw [line_of_indent hskip hspace hindent fun d hd => by cases hd; exact hcspace, hstrip,
    IniState.stripped, if_neg (not_or.mpr ⟨hsemicolon, hhash⟩), if_pos ⟨hprev, rfl⟩,
    IniState.continuation, iniFindCharsOrComment, hbetween, hnil, List.nil_append,
    iniRstrip_append_space hback, iniRstrip_eq_self hvalue.trimmed.2]

/-- The item needs a pair before it. -/
def Item.continues : Item → Bool
  | .more _ _ _ => true
  | _ => false

theorem line_item {item : Item} (hok : item.Ok) (hprev : item.continues = true → st.prevName ≠ [])
    (hskip : skipBom st.lineno (item.render ++ [newline]) = item.render ++ [newline]) :
    st.line handler (item.render ++ [newline]) = st.item handler item := by
  have hnewline : AllSpace [newline] := by
    intro c hc
    rw [List.mem_singleton.mp hc]
    rfl
  cases item with
  | blank space => exact line_blank hskip (AllSpace.append hok hnewline)
  | comment indent hash text =>
    have hassoc : (Item.comment indent hash text).render ++ [newline] =
        indent ++ (if hash then byte '#' else byte ';') :: (text ++ [newline]) := by
      rw [Item.render, List.append_assoc, List.cons_append]
    rw [hassoc] at hskip ⊢
    refine line_comment ?_ hskip hok
    cases hash
    · exact .inl rfl
    · exact .inr rfl
  | header title rest =>
    have hassoc : (Item.header title rest).render ++ [newline] =
        byte '[' :: (title ++ byte ']' :: (rest ++ [newline])) := by
      rw [Item.render, List.cons_append, List.append_assoc, List.cons_append]
    rw [hassoc] at hskip ⊢
    exact line_header hok.1 hok.2 hskip
  | pair name value layout => exact line_pair hok rfl hskip
  | more indent value tail => exact line_more hok (hprev rfl) rfl hskip

end

/-! ## The whole text -/

theorem lines_render {items : List Item} (h : ∀ item ∈ items, Clean item.render) :
    lines newline (render items) = items.map fun item => item.render ++ [newline] := by
  induction items with
  | nil => rfl
  | cons item items ih =>
    have htext : render (item :: items) = item.render ++ newline :: render items := by
      simp [render]
    rw [htext, lines_append (h item List.mem_cons_self).2,
      ih fun other hother => h other (List.mem_cons_of_mem item hother)]
    rfl

theorem WellFormed.item {prev : Bytes} {item : Item} {items : List Item}
    (h : WellFormed prev (item :: items)) :
    item.Ok ∧ Clean item.render ∧ item.render.length + 1 < iniMaxLine := ⟨h.1, h.2.1, h.2.2.1⟩

/-- Without continued values the items do not depend on each other. -/
theorem WellFormed.of_forall {items : List Item} (h : ∀ item ∈ items, item.continues = false ∧
      item.Ok ∧ Clean item.render ∧ item.render.length + 1 < iniMaxLine) (prev : Bytes) :
    WellFormed prev items := by
  induction items generalizing prev with
  | nil => exact trivial
  | cons item items ih =>
    obtain ⟨hcontinues, hok, hclean, hfits⟩ := h item List.mem_cons_self
    have hrest := ih fun other hother => h other (List.mem_cons_of_mem item hother)
    refine ⟨hok, hclean, hfits, ?_⟩
    cases item with
    | more indent value tail => cases hcontinues
    | _ => exact hrest _

/-- What is left of the conditions behind the first item. -/
theorem WellFormed.rest {prev : Bytes} {item : Item} {items : List Item}
    (h : WellFormed prev (item :: items)) : ∃ prev', WellFormed prev' items := by
  cases item with
  | blank space => exact ⟨_, h.2.2.2⟩
  | comment indent hash text => exact ⟨_, h.2.2.2⟩
  | header title rest => exact ⟨_, h.2.2.2⟩
  | pair name value layout => exact ⟨_, h.2.2.2⟩
  | more indent value tail => exact ⟨_, h.2.2.2.2⟩

theorem WellFormed.clean {prev : Bytes} {items : List Item} (h : WellFormed prev items) :
    ∀ item ∈ items, Clean item.render := by
  induction items generalizing prev with
  | nil => exact fun item hitem => (List.not_mem_nil hitem).elim
  | cons item items ih =>
    obtain ⟨prev', hrest⟩ := h.rest
    intro other hother
    rcases List.mem_cons.mp hother with rfl | hother
    · exact h.item.2.1
    · exact ih hrest other hother

theorem zero_notMem_render {items : List Item} (h : ∀ item ∈ items, Clean item.render) :
    0 ∉ render items := by
  intro hmem
  obtain ⟨line, hline, hzero⟩ := List.mem_flatten.mp hmem
  obtain ⟨item, hitem, rfl⟩ := List.mem_map.mp hline
  rcases List.mem_append.mp hzero with hzero | hzero
  · exact (h item hitem).1 hzero
  · exact absurd (List.mem_singleton.mp hzero) (by decide)

/-- The loop over the lines of a document makes its calls, and finds no error. -/
theorem foldl_wholeLine {prev : Bytes} {items : List Item} (h : WellFormed prev items)
    (st : IniState (List Call)) (hprev : st.prevName = prev)
    (hbom : st.lineno = 0 → ¬ bom <+: render items) :
    let st' := (items.map fun item => item.render ++ [newline]).foldl (IniState.wholeLine record) st
    st'.error = st.error ∧ st'.user = st.user ++ callsOf st.sect prev items := by
  induction items generalizing st prev with
  | nil => exact ⟨rfl, (List.append_nil _).symm⟩
  | cons item items ih =>
    obtain ⟨hok, -, hfits⟩ := h.item
    have hfits' : (item.render ++ [newline]).length < iniMaxLine := by
      rw [List.length_append, List.length_singleton]
      exact hfits
    have hskip : skipBom (st.lineno + 1) (item.render ++ [newline]) = item.render ++ [newline] := by
      refine if_neg fun hcond => ?_
      refine hbom (by omega) (hcond.2.trans ?_)
      rw [render, List.map_cons, List.flatten_cons]
      exact List.prefix_append _ _
    have hcontinues : item.continues = true → st.prevName ≠ [] := by
      intro hmore
      cases item with
      | more indent value tail =>
        rw [hprev]
        exact h.2.2.2.1
      | _ => cases hmore
    have hline : IniState.wholeLine record st (item.render ++ [newline]) =
        { st with lineno := st.lineno + 1 }.item record item := by
      rw [IniState.wholeLine]
      simp only [if_neg (Nat.not_le.mpr hfits')]
      rw [List.take_of_length_le (Nat.le_sub_one_of_lt hfits')]
      exact line_item hok hcontinues hskip
    have hlater : st.lineno + 1 = 0 → ¬ bom <+: render items := fun h0 => absurd h0 (Nat.succ_ne_zero _)
    dsimp only
    rw [List.map_cons, List.foldl_cons, hline]
    cases item with
    | blank space => exact ih h.2.2.2 { st with lineno := st.lineno + 1 } hprev hlater
    | comment indent hash text =>
      exact ih h.2.2.2 { st with lineno := st.lineno + 1 } hprev hlater
    | header title rest =>
      exact ih h.2.2.2 { st with lineno := st.lineno + 1, sect := title, prevName := [] } rfl
        hlater
    | pair name value layout =>
      obtain ⟨herror, huser⟩ := ih h.2.2.2 { st with
        lineno := st.lineno + 1, prevName := name
        user := st.user ++ [(st.sect, name, value)] } rfl hlater
      exact ⟨herror, by rw [callsOf, List.append_cons]; exact huser⟩
    | more indent value tail =>
      obtain ⟨herror, huser⟩ := ih h.2.2.2.2 { st with
        lineno := st.lineno + 1
        user := st.user ++ [(st.sect, st.prevName, value)] } hprev hlater
      refine ⟨herror, ?_⟩
      rw [callsOf, List.append_cons, ← hprev]
      rw [← hprev] at huser
      exact huser

/-- A well-formed document that does not start with a BOM is read as what it stands for. -/
theorem iniCalls_render (below : UInt8) {items : List Item} (h : WellFormed [] items)
    (hbom : ¬ bom <+: render items) :
    iniCalls below (some (render items)) = (0, callsOf [] [] items) := by
  have hclean := h.clean
  obtain ⟨herror, huser⟩ := foldl_wholeLine h (.start []) rfl fun _ => hbom
  rw [iniCalls, iniParse]
  simp only [iniParseStream_eq_lines below record [] (zero_notMem_render hclean), lines_render hclean]
  exact Prod.ext (congrArg Int.ofNat herror) huser

/-- A title with something behind it, a pair with an inline comment, and a continued value. -/
def sampleItems : List Item :=
  [.comment [] true (bytes " ports"), .header (bytes "net") (bytes " ; all"),
    .pair (bytes "host") (bytes "a;b") ⟨bytes " ", true, bytes " ", ⟨bytes " ", some (bytes "c")⟩⟩,
    .blank (bytes " "), .more (bytes " ") (bytes "[d]") ⟨[], none⟩]

theorem wellFormed_sampleItems : WellFormed [] sampleItems := by
  have hspace : AllSpace (bytes " ") := fun c hc => by rw [List.mem_singleton.mp hc]; rfl
  have htrimmed : Trimmed (bytes "host") ∧ Trimmed (bytes "a;b") ∧ Trimmed (bytes "[d]") :=
    ⟨⟨fun c hc => by cases hc; rfl, fun c hc => by cases hc; rfl⟩,
      ⟨fun c hc => by cases hc; rfl, fun c hc => by cases hc; rfl⟩,
      ⟨fun c hc => by cases hc; rfl, fun c hc => by cases hc; rfl⟩⟩
  have hname : NameOk (bytes "host") :=
    ⟨by decide, rfl, fun c hc => by cases hc; decide⟩
  have htail : Tail.Ok ⟨bytes " ", some (bytes "c")⟩ := ⟨hspace, fun _ => by decide⟩
  have htail' : Tail.Ok ⟨[], none⟩ := ⟨allSpace_nil, fun h => absurd rfl h⟩
  have hpair : (Item.pair (bytes "host") (bytes "a;b")
      ⟨bytes " ", true, bytes " ", ⟨bytes " ", some (bytes "c")⟩⟩).Ok :=
    ⟨hname, htrimmed.1, by decide, htrimmed.2.1, rfl, fun h => absurd h (by decide), hspace, hspace, htail⟩
  have hmore : (Item.more (bytes " ") (bytes "[d]") ⟨[], none⟩).Ok :=
    ⟨by decide, hspace, ⟨htrimmed.2.2, rfl⟩, ⟨byte '[', rfl, by decide⟩, htail'⟩
  exact ⟨allSpace_nil, by decide, by decide, ⟨⟨by decide, rfl⟩, by decide⟩, by decide, by decide,
    hpair, by decide, by decide, hspace, by decide, by decide,
    hmore, by decide, by decide, by decide, trivial⟩

/-- For a handler that refuses nothing, parsing a well-formed document is calling it for what
    the document stands for, in order. -/
theorem iniParse_render (below : UInt8) {σ : Type} (handler : Handler σ)
    (haccepts : ∀ user sect name value, (handler user sect name value).2 = true) (user : σ)
    {items : List Item} (h : WellFormed [] items) (hbom : ¬ bom <+: render items) :
    iniParse below handler user (some (render items)) =
      (0, (callsOf [] [] items).foldl
        (fun user call => (handler user call.1 call.2.1 call.2.2).1) user) := by
  rw [iniParse_eq_calls below handler haccepts, iniCalls_render below h hbom]

theorem iniParse_render_sample : iniParse 0 record [] (some (render sampleItems)) =
    (0, [(bytes "net", bytes "host", bytes "a;b"), (bytes "net", bytes "host", bytes "[d]")]) :=
  iniParse_render 0 record (fun _ _ _ _ => rfl) [] wellFormed_sampleItems (by decide)

/-! ## Printing the calls of a file -/

/-- The call on two lines. -/
def printCall (call : Call) : List Item :=
  [.header call.1 [], .pair call.2.1 call.2.2 ⟨[], false, [], ⟨[], none⟩⟩]

def printCalls (calls : List Call) : Bytes := render (calls.flatMap printCall)

/-- The call may be written on a line: its name was not cut behind whitespace and fits
    into `prev_name`, and the line fits into the buffer. -/
def Fits (call : Call) : Prop :=
  (call.2.1.getLast?.all fun c => !isspace c) = true ∧ call.2.1.length < maxName ∧
    call.2.1.length + call.2.2.length + 2 < iniMaxLine

instance (call : Call) : Decidable (Fits call) := inferInstanceAs (Decidable (_ ∧ _))

theorem wellFormed_printCalls {calls : List Call} (hok : ∀ call ∈ calls, CallOk call)
    (hfits : ∀ call ∈ calls, Fits call) : WellFormed [] (calls.flatMap printCall) := by
  refine WellFormed.of_forall (fun item hitem => ?_) []
  obtain ⟨⟨sect, name, value⟩, hcall, hitem⟩ := List.mem_flatMap.mp hitem
  obtain ⟨hsect, hname, hvalue, hcsect, hcname, hcvalue⟩ := hok _ hcall
  obtain ⟨hlast, hlength, hline⟩ := hfits _ hcall
  dsimp only at hsect hname hvalue hcsect hcname hcvalue hlast hlength hline
  have hmax : maxSection = 50 := rfl
  have hmaxLine : iniMaxLine = 200 := rfl
  rw [printCall, List.mem_cons, List.mem_singleton] at hitem
  rcases hitem with rfl | rfl
  · refine ⟨rfl, hsect, ⟨?_, ?_⟩, ?_⟩
    · simpa [Item.render, byte] using hcsect.1
    · simpa [Item.render, newline, byte] using hcsect.2
    · simp only [Item.render, List.length_cons, List.length_append, List.length_nil]
      omega
  · have htrimmed : Trimmed name := by
      refine ⟨fun c hc => (hname.first c hc).1, fun c hc => ?_⟩
      rw [Option.mem_def.mp hc, Option.all_some, Bool.not_eq_true'] at hlast
      exact hlast
    refine ⟨rfl, ⟨hname, htrimmed, hlength, hvalue.trimmed, hvalue.plain, fun _ => rfl, allSpace_nil,
      allSpace_nil, allSpace_nil, fun h => absurd rfl h⟩, ⟨?_, ?_⟩, ?_⟩
    · simpa [Item.render, Tail.text, Layout.sign, byte] using ⟨hcname.1, hcvalue.1⟩
    · simpa [Item.render, Tail.text, Layout.sign, newline, byte] using ⟨hcname.2, hcvalue.2⟩
    · simp only [Item.render, Tail.text, List.length_cons, List.length_append, List.length_nil]
      omega

theorem callsOf_printCalls (calls : List Call) (sect prev : Bytes) :
    callsOf sect prev (calls.flatMap printCall) = calls := by
  induction calls generalizing sect prev with
  | nil => rfl
  | cons call calls ih => exact congrArg (call :: ·) (ih call.1 call.2.1)

/-- The calls of any file, printed, are read again as the same calls. -/
theorem iniCalls_print (below below' : UInt8) (file : Option Bytes)
    (hfits : ∀ call ∈ (iniCalls below file).2, Fits call) :
    iniCalls below' (some (printCalls (iniCalls below file).2)) = (0, (iniCalls below file).2) := by
  have hbom : ¬ bom <+: printCalls (iniCalls below file).2 := by
    cases (iniCalls below file).2 with
    | nil => exact fun h => absurd (List.eq_nil_of_prefix_nil h) (List.cons_ne_nil _ _)
    | cons call calls =>
      intro h
      rw [printCalls, List.flatMap_cons, printCall, render, List.cons_append, List.map_cons,
        List.flatten_cons, Item.render, List.cons_append, List.cons_append, bom,
        List.cons_prefix_cons] at h
      exact absurd h.1 (by decide)
  have hwell := wellFormed_printCalls (calls_ok below file) hfits
  rw [printCalls, iniCalls_render below' hwell hbom, callsOf_printCalls]

theorem iniCalls_print_sample :
    iniCalls 7 (some (printCalls (iniCalls 0 (some (render sampleItems))).2)) =
      (0, (iniCalls 0 (some (render sampleItems))).2) :=
  iniCalls_print 0 7 (some (render sampleItems)) (by decide)

end LinuxFileManager.Config
