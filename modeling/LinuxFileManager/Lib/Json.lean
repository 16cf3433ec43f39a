import Mathlib

/-!
# `json.loads`

The JSON decoder of Python's standard library on a `str`. Text from a file has
no surrogates and is a list of characters; what a string literal stands for may
have some and is a list of code points.

A literal of an integer has any number of digits here, and values may be nested
to any depth; `Lib.JsonDepth` has the limits that Python sets.

Results:

* `scanUnits_of_quiet`: a string literal with a content in which no quotation
  mark ends it.
* `unquote_plain`, `plain_of_unquote`: a content stands for itself when it has no
  escapes, and otherwise for something shorter.
* `parseValue_lexed`: the quotation marks that a value is read from are two for
  each string and each name in it.
* `parseValue_fuel`: the fuel of `loads` is enough.
-/

namespace LinuxFileManager.Lib.Json

/-- A `str`: its code points. -/
abbrev Str := List ℕ

/-- What `json.loads` builds. An `obj` has the members of the text in their order;
    the `dict` that Python makes of them keeps the last one of each name. -/
inductive Value where
  | null
  | bool (b : Bool)
  | int (n : ℤ)
  /-- The decimal that the float is rounded from. -/
  | float (negative : Bool) (mantissa : ℕ) (exponent : ℤ)
  | nan
  | infinity (negative : Bool)
  | str (s : Str)
  | arr (elems : List Value)
  | obj (members : List (Str × Value))

/-- `dict.get`, without its default. -/
def lookup (members : List (Str × Value)) (name : Str) : Option Value :=
  (members.reverse.find? fun m => m.1 = name).map Prod.snd

/-! ## Strings -/

/-- The code points of a text. -/
def codes (text : List Char) : Str := text.map Char.toNat

theorem codes_append (s t : List Char) : codes (s ++ t) = codes s ++ codes t := List.map_append

/-- Where the scanner stands in a string literal: between two characters, behind a
    backslash, or in `\uXXXX` with `missing + 1` digits to come. -/
inductive StrState where
  | plain
  | escaped
  | hex (missing acc : ℕ)
  deriving DecidableEq

def hexDigit (c : Char) : Option ℕ :=
  if '0' ≤ c ∧ c ≤ '9' then some (c.toNat - 48)
  else if 'a' ≤ c ∧ c ≤ 'f' then some (c.toNat - 87)
  else if 'A' ≤ c ∧ c ≤ 'F' then some (c.toNat - 55)
  else none

/-- The escapes of one character. -/
def simpleEscape (c : Char) : Option ℕ :=
  if c = '"' then some 0x22
  else if c = '\\' then some 0x5C
  else if c = '/' then some 0x2F
  else if c = 'b' then some 0x08
  else if c = 'f' then some 0x0C
  else if c = 'n' then some 0x0A
  else if c = 'r' then some 0x0D
  else if c = 't' then some 0x09
  else none

/-- One character of a string literal: the state behind it and the code unit that it
    completes, if any. -/
def StrState.step : StrState → Char → Option (StrState × List ℕ)
  | .plain, c =>
    if c = '\\' then some (.escaped, [])
    else if c.toNat < 0x20 then none
    else some (.plain, [c.toNat])
  | .escaped, c =>
    if c = 'u' then some (.hex 3 0, []) else (simpleEscape c).map fun u => (.plain, [u])
  | .hex 0 acc, c => (hexDigit c).map fun d => (.plain, [16 * acc + d])
  | .hex (missing + 1) acc, c => (hexDigit c).map fun d => (.hex missing (16 * acc + d), [])

/-- The rest of a string literal up to its closing quotation mark: its code units, and
    what is behind it. -/
def scanUnits : StrState → List Char → Option (List ℕ × List Char)
  | _, [] => none
  | st, c :: cs =>
    if st = .plain ∧ c = '"' then some ([], cs)
    else
      (st.step c).bind fun next => (scanUnits next.1 cs).map fun tail => (next.2 ++ tail.1, tail.2)

/-- The code units that `content` stands for when it is put between quotation marks. -/
def contentUnits : StrState → List Char → Option (List ℕ)
  | st, [] => if st = .plain then some [] else none
  | st, c :: cs =>
    if st = .plain ∧ c = '"' then none
    else (st.step c).bind fun next => (contentUnits next.1 cs).map fun tail => next.2 ++ tail

def highSurrogate (u : ℕ) : Prop := 0xD800 ≤ u ∧ u < 0xDC00
def lowSurrogate (u : ℕ) : Prop := 0xDC00 ≤ u ∧ u < 0xE000

instance (u : ℕ) : Decidable (highSurrogate u) := inferInstanceAs (Decidable (_ ∧ _))
instance (u : ℕ) : Decidable (lowSurrogate u) := inferInstanceAs (Decidable (_ ∧ _))

/-- A high surrogate and the low surrogate behind it are one code point. -/
def joinSurrogates : List ℕ → Str
  | [] => []
  | [u] => [u]
  | u :: v :: units =>
    if highSurrogate u ∧ lowSurrogate v then
      (0x10000 + (u - 0xD800) * 0x400 + (v - 0xDC00)) :: joinSurrogates units
    else u :: joinSurrogates (v :: units)

/-- A string literal behind its opening quotation mark. -/
def scanString (cs : List Char) : Option (Str × List Char) :=
  (scanUnits .plain cs).map fun r => (joinSurrogates r.1, r.2)

/-- What `content` stands for between quotation marks; `none` when it is not the content
    of a string literal. -/
def unquote (content : List Char) : Option Str := (contentUnits .plain content).map joinSurrogates

/-! ## Numbers and words -/

/-- The digits at the start, and what is behind them. -/
def spanDigits (cs : List Char) : List Char × List Char :=
  (cs.takeWhile Char.isDigit, cs.dropWhile Char.isDigit)

/-- `0`, or digits that do not start with one. -/
def scanWhole : List Char → Option (List Char × List Char)
  | [] => none
  | c :: cs =>
    if c = '0' then some (['0'], cs)
    else if c.isDigit then some (spanDigits (c :: cs))
    else none

/-- A point with digits behind it, if there is one. -/
def scanFraction (cs : List Char) : List Char × List Char :=
  match cs with
  | '.' :: tail => if (spanDigits tail).1 = [] then ([], cs) else spanDigits tail
  | _ => ([], cs)

/-- The sign of an exponent, if there is one. -/
def scanSign : List Char → Bool × List Char
  | '-' :: cs => (true, cs)
  | '+' :: cs => (false, cs)
  | cs => (false, cs)

/-- An exponent, if there is one: its sign and its digits. -/
def scanExponent (cs : List Char) : (Bool × List Char) × List Char :=
  match cs with
  | c :: tail =>
    if c = 'e' ∨ c = 'E' then
      let (negative, tail) := scanSign tail
      if (spanDigits tail).1 = [] then ((false, []), cs)
      else ((negative, (spanDigits tail).1), (spanDigits tail).2)
    else ((false, []), cs)
  | [] => ((false, []), cs)

def signed (negative : Bool) (n : ℕ) : ℤ := if negative then -n else n

/-- The sign of a number. -/
def scanMinus : List Char → Bool × List Char
  | '-' :: cs => (true, cs)
  | cs => (false, cs)

/-- An `int` when there is neither a fraction nor an exponent. -/
def numberValue (negative : Bool) (whole fraction : List Char) (exponent : Bool × List Char) : Value :=
  if fraction = [] ∧ exponent.2 = [] then .int (signed negative (Nat.ofDigitChars 10 whole 0))
  else
    .float negative (Nat.ofDigitChars 10 (whole ++ fraction) 0)
      (signed exponent.1 (Nat.ofDigitChars 10 exponent.2 0) - fraction.length)

def scanNumber (cs : List Char) : Option (Value × List Char) :=
  let sign := scanMinus cs
  (scanWhole sign.2).map fun whole =>
    let fraction := scanFraction whole.2
    let exponent := scanExponent fraction.2
    (numberValue sign.1 whole.1 fraction.1 exponent.1, exponent.2)

/-- The words that are values. -/
def words : List (List Char × Value) :=
  [("null".toList, .null), ("true".toList, .bool true), ("false".toList, .bool false),
    ("NaN".toList, .nan), ("Infinity".toList, .infinity false), ("-Infinity".toList, .infinity true)]

def scanWord (cs : List Char) : Option (Value × List Char) :=
  words.findSome? fun (word, v) => (cs.dropPrefix? word).map fun rest => (v, rest)

/-! ## Values -/

def isWs (c : Char) : Bool := c == ' ' || c == '\t' || c == '\n' || c == '\r'

def skipWs (cs : List Char) : List Char := cs.dropWhile isWs

/-- The character `c`. -/
def expect (c : Char) : List Char → Option (List Char)
  | [] => none
  | d :: cs => if d = c then some cs else none

section

variable {α : Type}

/-- Items with commas between them, up to the closing bracket. -/
def parseItems (item : List Char → Option (α × List Char)) (close : Char) :
    ℕ → List Char → Option (List α × List Char)
  | 0, _ => none
  | n + 1, cs =>
    (item cs).bind fun (a, cs) =>
      match skipWs cs with
      | [] => none
      | c :: cs =>
        if c = close then some ([a], cs)
        else if c = ',' then (parseItems item close n (skipWs cs)).map fun r => (a :: r.1, r.2)
        else none

/-- An array or an object behind its opening bracket. -/
def parseBracket (item : List Char → Option (α × List Char)) (close : Char) (n : ℕ) (cs : List Char) :
    Option (List α × List Char) :=
  match expect close (skipWs cs) with
  | some rest => some ([], rest)
  | none => parseItems item close n (skipWs cs)

end

/-- A member of an object. -/
def parseMember (value : List Char → Option (Value × List Char)) (cs : List Char) :
    Option ((Str × Value) × List Char) :=
  (expect '"' cs).bind fun cs =>
    (scanString cs).bind fun (name, cs) =>
      (expect ':' (skipWs cs)).bind fun cs =>
        (value (skipWs cs)).map fun (v, cs) => ((name, v), cs)

/-- A value. The fuel bounds the nesting and the number of items. -/
def parseValue : ℕ → List Char → Option (Value × List Char)
  | 0, _ => none
  | _ + 1, [] => none
  | n + 1, c :: cs =>
    if c = '"' then (scanString cs).map fun r => (.str r.1, r.2)
    else if c = '{' then
      (parseBracket (parseMember (parseValue n)) '}' n cs).map fun r => (.obj r.1, r.2)
    else if c = '[' then (parseBracket (parseValue n) ']' n cs).map fun r => (.arr r.1, r.2)
    else (scanWord (c :: cs)).or (scanNumber (c :: cs))

/-- `json.loads`; `none` is `JSONDecodeError`. -/
def loads (text : List Char) : Option Value :=
  if text.head? = some (Char.ofNat 0xFEFF) then none
  else
    (parseValue (text.length + 1) (skipWs text)).bind fun (v, rest) =>
      if skipWs rest = [] then some v else none

/-! ## Quotation marks -/

/-- Where a character of a JSON text stands: outside of the strings, inside one,
    behind a backslash inside one, or right behind one. -/
inductive Place where
  | outside
  | inside
  | escape
  | closed
  deriving DecidableEq

/-- One character: the place behind it, and the number of quotation marks that it
    opens or closes a string with. Right behind a string only white space and the
    characters `,`, `:`, `}` and `]` can stand. -/
def Place.step : Place → Char → Option (Place × ℕ)
  | .outside, c => if c = '"' then some (.inside, 1) else some (.outside, 0)
  | .inside, c =>
    if c = '"' then some (.closed, 1)
    else if c = '\\' then some (.escape, 0)
    else some (.inside, 0)
  | .escape, _ => some (.inside, 0)
  | .closed, c =>
    if isWs c ∨ c = ',' ∨ c = ':' ∨ c = '}' ∨ c = ']' then some (.outside, 0) else none

/-- The place behind `cs`, and the number of quotation marks of strings in it. -/
def lex : Place → List Char → Option (Place × ℕ)
  | l, [] => some (l, 0)
  | l, c :: cs => (l.step c).bind fun next => (lex next.1 cs).map fun last => (last.1, next.2 + last.2)

theorem lex_append {l m : Place} {q : ℕ} {a : List Char} (b : List Char) (h : lex l a = some (m, q)) :
    lex l (a ++ b) = (lex m b).map fun last => (last.1, q + last.2) := by
  induction a generalizing l q with
  | nil =>
    cases h
    simp
  | cons c a ih =>
    obtain ⟨next, hnext, htail⟩ := Option.bind_eq_some_iff.mp h
    obtain ⟨⟨m', q'⟩, hlex, heq⟩ := Option.map_eq_some_iff.mp htail
    cases heq
    rw [List.cons_append, lex, hnext, Option.bind_some, ih hlex, Option.map_map]
    simp only [Function.comp_def, Nat.add_assoc]

theorem lex_of_append {l n : Place} {q : ℕ} {a b : List Char} (h : lex l (a ++ b) = some (n, q)) :
    ∃ m q₁ q₂, lex l a = some (m, q₁) ∧ lex m b = some (n, q₂) ∧ q = q₁ + q₂ := by
  induction a generalizing l q with
  | nil => exact ⟨l, 0, q, rfl, h, (Nat.zero_add q).symm⟩
  | cons c a ih =>
    obtain ⟨next, hnext, htail⟩ := Option.bind_eq_some_iff.mp h
    obtain ⟨⟨m', q'⟩, hlex, heq⟩ := Option.map_eq_some_iff.mp htail
    cases heq
    obtain ⟨m, q₁, q₂, ha, hb, rfl⟩ := ih hlex
    refine ⟨m, next.2 + q₁, q₂, ?_, hb, by omega⟩
    rw [lex, hnext, Option.bind_some, ha]
    rfl

/-- Nothing in `content` ends or opens a string. -/
def Quiet (content : List Char) : Prop := lex .inside content = some (.inside, 0)

/-! ## String literals -/

/-- The place of a state of the scanner. -/
def StrState.place : StrState → Place
  | .plain => .inside
  | .escaped => .escape
  | .hex _ _ => .inside

theorem hexDigit_quote : hexDigit '"' = none := rfl
theorem hexDigit_backslash : hexDigit '\\' = none := rfl

/-- What one character of a string literal does. -/
inductive StrMove (c : Char) : StrState → StrState × List ℕ → Prop where
  | escape (hc : c = '\\') : StrMove c .plain (.escaped, [])
  | char (hc : c ≠ '\\') (hlow : 0x20 ≤ c.toNat) : StrMove c .plain (.plain, [c.toNat])
  | unicode (hc : c = 'u') : StrMove c .escaped (.hex 3 0, [])
  | simple {u : ℕ} (hu : simpleEscape c = some u) : StrMove c .escaped (.plain, [u])
  | digit {missing acc d : ℕ} (hd : hexDigit c = some d) :
      StrMove c (.hex (missing + 1) acc) (.hex missing (16 * acc + d), [])
  | lastDigit {acc d : ℕ} (hd : hexDigit c = some d) : StrMove c (.hex 0 acc) (.plain, [16 * acc + d])

theorem StrState.step_move {st : StrState} {c : Char} {next : StrState × List ℕ}
    (h : st.step c = some next) : StrMove c st next := by
  cases st with
  | plain =>
    rw [StrState.step] at h
    split_ifs at h with hback hlow
    · cases h
      exact .escape hback
    · cases h
      exact .char hback (Nat.not_lt.mp hlow)
  | escaped =>
    rw [StrState.step] at h
    split_ifs at h with hu
    · cases h
      exact .unicode hu
    · obtain ⟨u, hu, rfl⟩ := Option.map_eq_some_iff.mp h
      exact .simple hu
  | hex missing acc =>
    cases missing with
    | zero =>
      obtain ⟨d, hd, rfl⟩ := Option.map_eq_some_iff.mp h
      exact .lastDigit hd
    | succ missing =>
      obtain ⟨d, hd, rfl⟩ := Option.map_eq_some_iff.mp h
      exact .digit hd

theorem place_of_hexDigit {c : Char} {d : ℕ} (h : hexDigit c = some d) :
    Place.inside.step c = some (.inside, 0) := by
  have hquote : c ≠ '"' := by
    rintro rfl
    cases hexDigit_quote.symm.trans h
  have hback : c ≠ '\\' := by
    rintro rfl
    cases hexDigit_backslash.symm.trans h
  rw [Place.step, if_neg hquote, if_neg hback]

theorem StrState.step_place {st : StrState} {c : Char} {next : StrState × List ℕ}
    (hquote : ¬ (st = .plain ∧ c = '"')) (h : st.step c = some next) :
    st.place.step c = some (next.1.place, 0) := by
  cases StrState.step_move h with
  | escape hc =>
    rw [hc]
    rfl
  | char hc hlow =>
    show Place.inside.step c = _
    rw [Place.step, if_neg fun hc => hquote ⟨rfl, hc⟩, if_neg hc]
    rfl
  | unicode hc => rfl
  | simple hu => rfl
  | digit hd => exact place_of_hexDigit hd
  | lastDigit hd => exact place_of_hexDigit hd

/-- A string literal is read up to a quotation mark that ends it. -/
theorem scanUnits_eq_some {st : StrState} {cs rest : List Char} {units : List ℕ}
    (h : scanUnits st cs = some (units, rest)) :
    ∃ content, cs = content ++ '"' :: rest ∧ lex st.place content = some (.inside, 0) := by
  induction cs generalizing st units with
  | nil => cases h
  | cons c cs ih =>
    rw [scanUnits] at h
    split_ifs at h with hquote
    · obtain ⟨rfl, rfl⟩ := hquote
      cases h
      exact ⟨[], rfl, rfl⟩
    · obtain ⟨next, hnext, htail⟩ := Option.bind_eq_some_iff.mp h
      obtain ⟨tail, hscan, heq⟩ := Option.map_eq_some_iff.mp htail
      cases heq
      obtain ⟨content, rfl, hlex⟩ := ih hscan
      refine ⟨c :: content, rfl, ?_⟩
      rw [lex, StrState.step_place hquote hnext, Option.bind_some, hlex]
      rfl

/-- A content in which no quotation mark ends the string is the content of the literal. -/
theorem scanUnits_of_quiet {st : StrState} {content : List Char}
    (h : lex st.place content = some (.inside, 0)) (rest : List Char) :
    scanUnits st (content ++ '"' :: rest) = (contentUnits st content).map (·, rest) := by
  induction content generalizing st with
  | nil =>
    cases st with
    | plain => rfl
    | escaped => cases h
    | hex missing acc =>
      have hstep : (StrState.hex missing acc).step '"' = none := by
        cases missing <;> rfl
      rw [List.nil_append, scanUnits, if_neg (by simp), hstep]
      rfl
  | cons c content ih =>
    by_cases hquote : st = .plain ∧ c = '"'
    · obtain ⟨rfl, rfl⟩ := hquote
      obtain ⟨last, -, hlast⟩ := Option.map_eq_some_iff.mp h
      have hcount := congrArg Prod.snd hlast
      simp only [Nat.add_eq_zero_iff] at hcount
      omega
    · rw [List.cons_append, scanUnits, if_neg hquote, contentUnits, if_neg hquote]
      cases hnext : st.step c with
      | none => rfl
      | some next =>
        rw [lex, StrState.step_place hquote hnext, Option.bind_some] at h
        obtain ⟨last, hlast, heq⟩ := Option.map_eq_some_iff.mp h
        have hlex : lex next.1.place content = some (.inside, 0) := by
          rw [hlast]
          simpa using heq
        rw [Option.bind_some, Option.bind_some, ih hlex, Option.map_map, Option.map_map]
        rfl

theorem scanString_of_quiet {content : List Char} (h : Quiet content) (rest : List Char) :
    scanString (content ++ '"' :: rest) = (unquote content).map (·, rest) := by
  have hlex : lex StrState.plain.place content = some (.inside, 0) := h
  rw [scanString, scanUnits_of_quiet hlex, unquote, Option.map_map, Option.map_map]
  rfl

theorem contentUnits_quiet {st : StrState} {content : List Char} {units : List ℕ}
    (h : contentUnits st content = some units) : lex st.place content = some (.inside, 0) := by
  induction content generalizing st units with
  | nil =>
    rw [contentUnits] at h
    split_ifs at h with hst
    rw [hst]
    rfl
  | cons c content ih =>
    rw [contentUnits] at h
    split_ifs at h with hquote
    obtain ⟨next, hnext, htail⟩ := Option.bind_eq_some_iff.mp h
    obtain ⟨tail, hscan, -⟩ := Option.map_eq_some_iff.mp htail
    rw [lex, StrState.step_place hquote hnext, Option.bind_some, ih hscan]
    rfl

/-- The content of a literal ends nowhere before its end. -/
theorem quiet_of_unquote {content : List Char} {s : Str} (h : unquote content = some s) :
    Quiet content := by
  obtain ⟨units, hunits, -⟩ := Option.map_eq_some_iff.mp h
  exact contentUnits_quiet hunits

theorem le_of_hexDigit {c : Char} {d : ℕ} (h : hexDigit c = some d) : 0x20 ≤ c.toNat := by
  have hzero : '0'.toNat = 0x30 := rfl
  have ha : 'a'.toNat = 0x61 := rfl
  have hA : 'A'.toNat = 0x41 := rfl
  unfold hexDigit at h
  split_ifs at h with h1 h2 h3
  · have hle : '0'.toNat ≤ c.toNat := h1.1
    omega
  · have hle : 'a'.toNat ≤ c.toNat := h2.1
    omega
  · have hle : 'A'.toNat ≤ c.toNat := h3.1
    omega

theorem le_of_simpleEscape {c : Char} {u : ℕ} (h : simpleEscape c = some u) : 0x20 ≤ c.toNat := by
  unfold simpleEscape at h
  split_ifs at h <;> subst c <;> decide

theorem StrState.le_of_step {st : StrState} {c : Char} {next : StrState × List ℕ}
    (h : st.step c = some next) : 0x20 ≤ c.toNat := by
  cases StrState.step_move h with
  | escape hc =>
    rw [hc]
    decide
  | char hc hlow => exact hlow
  | unicode hc =>
    rw [hc]
    decide
  | simple hu => exact le_of_simpleEscape hu
  | digit hd => exact le_of_hexDigit hd
  | lastDigit hd => exact le_of_hexDigit hd

/-- A string literal has no control character. -/
theorem le_of_contentUnits {st : StrState} {content : List Char} {units : List ℕ}
    (h : contentUnits st content = some units) : ∀ c ∈ content, 0x20 ≤ c.toNat := by
  induction content generalizing st units with
  | nil => simp
  | cons c content ih =>
    rw [contentUnits] at h
    split_ifs at h
    obtain ⟨next, hnext, htail⟩ := Option.bind_eq_some_iff.mp h
    obtain ⟨tail, hunits, -⟩ := Option.map_eq_some_iff.mp htail
    rw [List.forall_mem_cons]
    exact ⟨StrState.le_of_step hnext, ih hunits⟩

theorem le_of_unquote {content : List Char} {s : Str} (h : unquote content = some s) :
    ∀ c ∈ content, 0x20 ≤ c.toNat := by
  obtain ⟨units, hunits, -⟩ := Option.map_eq_some_iff.mp h
  exact le_of_contentUnits hunits

/-! ## Contents without escapes -/

/-- A character that stands for itself in a string literal. -/
def PlainChar (c : Char) : Prop := c ≠ '"' ∧ c ≠ '\\' ∧ 0x20 ≤ c.toNat

theorem not_highSurrogate_toNat (c : Char) : ¬ highSurrogate c.toNat := by
  rintro ⟨hlow, hhigh⟩
  have hvalid : c.toNat < 0xD800 ∨ 0xDFFF < c.toNat ∧ c.toNat < 0x110000 := c.valid
  omega

theorem joinSurrogates_codes (text : List Char) : joinSurrogates (codes text) = codes text := by
  induction text with
  | nil => rfl
  | cons c text ih =>
    cases text with
    | nil => rfl
    | cons d text =>
      show (if _ then _ else _) = _
      rw [if_neg fun h => not_highSurrogate_toNat c h.1]
      exact congrArg (c.toNat :: ·) ih

/-- Plain characters stand for themselves. -/
theorem unquote_plain {content : List Char} (h : ∀ c ∈ content, PlainChar c) :
    unquote content = some (codes content) := by
  have hunits : contentUnits .plain content = some (codes content) := by
    induction content with
    | nil => rfl
    | cons c content ih =>
      obtain ⟨hquote, hback, hlow⟩ := h c List.mem_cons_self
      rw [contentUnits, if_neg (fun h => hquote h.2), StrState.step, if_neg hback,
        if_neg (Nat.not_lt.mpr hlow), Option.bind_some,
        ih fun d hd => h d (List.mem_cons_of_mem c hd)]
      rfl
  rw [unquote, hunits, Option.map_some, joinSurrogates_codes]

theorem length_joinSurrogates_le (units : List ℕ) : (joinSurrogates units).length ≤ units.length := by
  fun_induction joinSurrogates units with
  | case1 => exact le_rfl
  | case2 u => exact le_rfl
  | case3 u v units h ih =>
    simp only [List.length_cons]
    omega
  | case4 u v units h ih =>
    simp only [List.length_cons] at ih ⊢
    omega

theorem StrState.length_step_le {st : StrState} {c : Char} {next : StrState × List ℕ}
    (h : st.step c = some next) : next.2.length ≤ 1 := by
  cases StrState.step_move h <;> simp

theorem length_contentUnits_le {st : StrState} {content : List Char} {units : List ℕ}
    (h : contentUnits st content = some units) : units.length ≤ content.length := by
  induction content generalizing st units with
  | nil =>
    rw [contentUnits] at h
    split_ifs at h
    cases h
    exact le_rfl
  | cons c content ih =>
    rw [contentUnits] at h
    split_ifs at h
    obtain ⟨next, hnext, htail⟩ := Option.bind_eq_some_iff.mp h
    obtain ⟨tail, hunits, rfl⟩ := Option.map_eq_some_iff.mp htail
    have hone := StrState.length_step_le hnext
    have hle := ih hunits
    rw [List.length_append, List.length_cons]
    omega

/-- An escape makes what a content stands for shorter than the content. -/
theorem plain_of_contentUnits {content : List Char} {units : List ℕ}
    (h : contentUnits .plain content = some units) (hlen : content.length ≤ units.length) :
    ∀ c ∈ content, PlainChar c := by
  induction content generalizing units with
  | nil => simp
  | cons c content ih =>
    rw [contentUnits] at h
    split_ifs at h with hquote
    obtain ⟨next, hnext, htail⟩ := Option.bind_eq_some_iff.mp h
    obtain ⟨tail, hunits, rfl⟩ := Option.map_eq_some_iff.mp htail
    have hle := length_contentUnits_le hunits
    rw [List.length_append, List.length_cons] at hlen
    cases StrState.step_move hnext with
    | escape hc =>
      simp only [List.length_nil] at hlen
      omega
    | char hc hlow =>
      simp only [List.length_singleton] at hlen
      rw [List.forall_mem_cons]
      exact ⟨⟨fun hc => hquote ⟨rfl, hc⟩, hc, hlow⟩, ih hunits (by omega)⟩

theorem plain_of_unquote {content : List Char} {s : Str} (h : unquote content = some s)
    (hlen : content.length ≤ s.length) : ∀ c ∈ content, PlainChar c := by
  obtain ⟨units, hunits, rfl⟩ := Option.map_eq_some_iff.mp h
  exact plain_of_contentUnits hunits (hlen.trans (length_joinSurrogates_le units))

/-! ## What a value is read from -/

mutual

/-- The quotation marks of the strings and names of a value. -/
def Value.quotes : Value → ℕ
  | .str _ => 2
  | .arr elems => quotesElems elems
  | .obj members => quotesMembers members
  | _ => 0

def quotesElems : List Value → ℕ
  | [] => 0
  | v :: vs => v.quotes + quotesElems vs

def quotesMember : Str × Value → ℕ
  | (_, v) => 2 + v.quotes

def quotesMembers : List (Str × Value) → ℕ
  | [] => 0
  | m :: ms => quotesMember m + quotesMembers ms

end

theorem quotesElems_eq (vs : List Value) : quotesElems vs = (vs.map Value.quotes).sum := by
  induction vs with
  | nil => rfl
  | cons v vs ih => rw [quotesElems, ih, List.map_cons, List.sum_cons]

theorem quotesMembers_eq (ms : List (Str × Value)) :
    quotesMembers ms = (ms.map fun m => 2 + m.2.quotes).sum := by
  induction ms with
  | nil => rfl
  | cons m ms ih => rw [quotesMembers, ih, List.map_cons, List.sum_cons, quotesMember]

/-- From `cs` to `rest`, the place goes from `l` to `m`, over `q` quotation marks. -/
def Lexed (l : Place) (cs : List Char) (m : Place) (rest : List Char) (q : ℕ) : Prop :=
  ∃ used, cs = used ++ rest ∧ lex l used = some (m, q)

theorem Lexed.refl (l : Place) (cs : List Char) : Lexed l cs l cs 0 := ⟨[], rfl, rfl⟩

theorem Lexed.trans {l m n : Place} {a b c : List Char} {q r : ℕ} (h : Lexed l a m b q)
    (h' : Lexed m b n c r) : Lexed l a n c (q + r) := by
  obtain ⟨used, rfl, hlex⟩ := h
  obtain ⟨used', rfl, hlex'⟩ := h'
  exact ⟨used ++ used', (List.append_assoc ..).symm, by rw [lex_append used' hlex, hlex']; rfl⟩

theorem Lexed.char {l m : Place} {c : Char} {q : ℕ} (h : l.step c = some (m, q)) (cs : List Char) :
    Lexed l (c :: cs) m cs q :=
  ⟨[c], rfl, by rw [lex, h]; rfl⟩

theorem Lexed.length_le {l m : Place} {cs rest : List Char} {q : ℕ} (h : Lexed l cs m rest q) :
    rest.length ≤ cs.length := by
  obtain ⟨used, rfl, -⟩ := h
  rw [List.length_append]
  exact Nat.le_add_left _ _

/-- Not in a string. -/
def Place.Idle (l : Place) : Prop := l = .outside ∨ l = .closed

theorem lexed_skipWs {l : Place} (hl : l.Idle) (cs : List Char) :
    ∃ m, m.Idle ∧ (l = .outside → m = .outside) ∧ Lexed l cs m (skipWs cs) 0 := by
  induction cs generalizing l with
  | nil => exact ⟨l, hl, id, .refl l []⟩
  | cons c cs ih =>
    cases hc : isWs c with
    | false =>
      refine ⟨l, hl, id, ?_⟩
      rw [skipWs, List.dropWhile_cons_of_neg (by simp [hc])]
      exact .refl l _
    | true =>
      have hstep : l.step c = some (.outside, 0) := by
        rcases hl with rfl | rfl
        · have hne : c ≠ '"' := by
            rintro rfl
            cases hc
          rw [Place.step, if_neg hne]
        · rw [Place.step, if_pos (.inl hc)]
      obtain ⟨m, hm, hout, hlex⟩ := ih (.inl rfl)
      refine ⟨m, hm, fun _ => hout rfl, ?_⟩
      rw [skipWs, List.dropWhile_cons_of_pos (by simp [hc])]
      exact Lexed.trans (.char hstep cs) hlex

theorem lexed_skipWs_outside (cs : List Char) : Lexed .outside cs .outside (skipWs cs) 0 := by
  obtain ⟨m, -, hout, hlex⟩ := lexed_skipWs (.inl rfl) cs
  cases hout rfl
  exact hlex

/-- A separator behind a token. -/
theorem lexed_separator {l : Place} (hl : l.Idle) {cs rest : List Char} {c : Char}
    (hcs : skipWs cs = c :: rest) (hc : c = ',' ∨ c = ':' ∨ c = '}' ∨ c = ']') :
    Lexed l cs .outside rest 0 := by
  obtain ⟨m, hm, -, hlex⟩ := lexed_skipWs hl cs
  rw [hcs] at hlex
  have hstep : m.step c = some (.outside, 0) := by
    rcases hm with rfl | rfl
    · rcases hc with rfl | rfl | rfl | rfl <;> rfl
    · rw [Place.step, if_pos (.inr hc)]
  exact hlex.trans (.char hstep rest)

theorem expect_eq_some {c : Char} {cs rest : List Char} (h : expect c cs = some rest) :
    cs = c :: rest := by
  cases cs with
  | nil => cases h
  | cons d cs =>
    rw [expect] at h
    split_ifs at h with hd
    cases h
    rw [hd]

theorem scanString_lexed {cs rest : List Char} {s : Str} (h : scanString cs = some (s, rest)) :
    Lexed .inside cs .closed rest 1 := by
  obtain ⟨⟨units, rest'⟩, hunits, heq⟩ := Option.map_eq_some_iff.mp h
  cases heq
  obtain ⟨content, rfl, hlex⟩ := scanUnits_eq_some hunits
  have hclose : Place.inside.step '"' = some (.closed, 1) := rfl
  exact Lexed.trans ⟨content, rfl, hlex⟩ (.char hclose rest')

/-! ### Numbers and words -/

/-- What is read outside of strings. -/
theorem lexed_outside {used : List Char} (h : '"' ∉ used) (rest : List Char) :
    Lexed .outside (used ++ rest) .outside rest 0 := by
  refine ⟨used, rfl, ?_⟩
  induction used with
  | nil => rfl
  | cons c used ih =>
    rw [List.mem_cons, not_or] at h
    rw [lex, Place.step, if_neg (Ne.symm h.1), Option.bind_some, ih h.2]
    rfl

theorem lexed_spanDigits (cs : List Char) :
    Lexed .outside cs .outside (spanDigits cs).2 0 := by
  have hdigits : '"' ∉ cs.takeWhile Char.isDigit := by
    intro hmem
    cases List.mem_takeWhile_imp hmem
  have hlex := lexed_outside hdigits (cs.dropWhile Char.isDigit)
  rwa [List.takeWhile_append_dropWhile] at hlex

theorem lexed_scanWhole {cs rest digits : List Char} (h : scanWhole cs = some (digits, rest)) :
    Lexed .outside cs .outside rest 0 := by
  cases cs with
  | nil => cases h
  | cons c cs =>
    rw [scanWhole] at h
    split_ifs at h with hzero hdigit
    · cases h
      rw [hzero]
      exact .char rfl _
    · cases h
      exact lexed_spanDigits _

theorem lexed_scanFraction (cs : List Char) :
    Lexed .outside cs .outside (scanFraction cs).2 0 := by
  unfold scanFraction
  split
  · split_ifs
    · exact .refl _ _
    · exact Lexed.trans (.char rfl _) (lexed_spanDigits _)
  · exact .refl _ _

theorem lexed_scanSign (cs : List Char) : Lexed .outside cs .outside (scanSign cs).2 0 := by
  unfold scanSign
  split
  · exact .char rfl _
  · exact .char rfl _
  · exact .refl _ _

theorem lexed_scanExponent (cs : List Char) :
    Lexed .outside cs .outside (scanExponent cs).2 0 := by
  cases cs with
  | nil => exact .refl _ _
  | cons c cs =>
    rw [scanExponent]
    split_ifs with he
    · dsimp only
      split_ifs
      · exact .refl _ _
      · have hstep : Place.outside.step c = some (.outside, 0) := by
          rcases he with rfl | rfl <;> rfl
        exact (Lexed.char hstep cs).trans ((lexed_scanSign cs).trans (lexed_spanDigits _))
    · exact .refl _ _

theorem lexed_scanMinus (cs : List Char) : Lexed .outside cs .outside (scanMinus cs).2 0 := by
  unfold scanMinus
  split
  · exact .char rfl _
  · exact .refl _ _

theorem scanNumber_lexed {cs rest : List Char} {v : Value} (h : scanNumber cs = some (v, rest)) :
    Lexed .outside cs .outside rest 0 ∧ v.quotes = 0 := by
  obtain ⟨⟨digits, cs'⟩, hwhole, heq⟩ := Option.map_eq_some_iff.mp h
  cases heq
  refine ⟨?_, ?_⟩
  · have htail := (lexed_scanFraction cs').trans (lexed_scanExponent (scanFraction cs').2)
    exact (lexed_scanMinus cs).trans ((lexed_scanWhole hwhole).trans htail)
  · unfold numberValue
    split_ifs <;> rfl

theorem scanWord_lexed {cs rest : List Char} {v : Value} (h : scanWord cs = some (v, rest)) :
    Lexed .outside cs .outside rest 0 ∧ v.quotes = 0 := by
  obtain ⟨⟨word, v'⟩, hmem, hword⟩ := List.exists_of_findSome?_eq_some h
  obtain ⟨rest', hdrop, heq⟩ := Option.map_eq_some_iff.mp hword
  cases heq
  obtain ⟨word', rfl, hbeq⟩ := List.dropPrefix?_eq_some_iff.mp hdrop
  cases eq_of_beq hbeq
  have hwords : ∀ w ∈ words, '"' ∉ w.1 ∧ w.2.quotes = 0 := by decide
  exact ⟨lexed_outside (hwords _ hmem).1 rest, (hwords _ hmem).2⟩

/-! ### Arrays, objects and values -/

section

variable {α : Type} {item : List Char → Option (α × List Char)} {close : Char} {w : α → ℕ}

/-- `item` reads `w a` quotation marks for `a`. -/
def Lexes (item : List Char → Option (α × List Char)) (w : α → ℕ) : Prop :=
  ∀ ⦃cs : List Char⦄ ⦃a : α⦄ ⦃rest : List Char⦄, item cs = some (a, rest) →
    ∃ l : Place, l.Idle ∧ Lexed .outside cs l rest (w a)

theorem parseItems_lexed (hitem : Lexes item w) (hclose : close = '}' ∨ close = ']') {n : ℕ}
    {cs rest : List Char} {as : List α} (h : parseItems item close n cs = some (as, rest)) :
    Lexed .outside cs .outside rest (as.map w).sum := by
  induction n generalizing cs as with
  | zero => cases h
  | succ n ih =>
    rw [parseItems] at h
    obtain ⟨⟨a, cs'⟩, ha, htail⟩ := Option.bind_eq_some_iff.mp h
    obtain ⟨l, hl, hlex⟩ := hitem ha
    dsimp only at htail
    split at htail
    · cases htail
    rename_i c cs'' hskip
    split_ifs at htail with hc hcomma
    · cases htail
      rw [List.map_singleton, List.sum_singleton]
      exact hlex.trans (lexed_separator hl hskip (.inr (.inr (hc ▸ hclose))))
    · obtain ⟨⟨as', rest'⟩, has, heq⟩ := Option.map_eq_some_iff.mp htail
      cases heq
      have hnext := (lexed_separator hl hskip (.inl hcomma)).trans (lexed_skipWs_outside cs'')
      have hall := hlex.trans (hnext.trans (ih has))
      rwa [Nat.zero_add, ← List.sum_cons, ← List.map_cons] at hall

theorem parseBracket_lexed (hitem : Lexes item w) (hclose : close = '}' ∨ close = ']') {n : ℕ}
    {cs rest : List Char} {as : List α} (h : parseBracket item close n cs = some (as, rest)) :
    Lexed .outside cs .outside rest (as.map w).sum := by
  unfold parseBracket at h
  split at h
  · rename_i rest' hexpect
    cases h
    exact lexed_separator (.inl rfl) (expect_eq_some hexpect) (.inr (.inr hclose))
  · have hall := (lexed_skipWs_outside cs).trans (parseItems_lexed hitem hclose h)
    rwa [Nat.zero_add] at hall

end

theorem parseMember_lexes {value : List Char → Option (Value × List Char)}
    (h : Lexes value Value.quotes) :
    Lexes (parseMember value) fun m => 2 + m.2.quotes := by
  intro cs m rest hm
  obtain ⟨cs1, hquote, hm⟩ := Option.bind_eq_some_iff.mp hm
  obtain ⟨⟨name, cs2⟩, hname, hm⟩ := Option.bind_eq_some_iff.mp hm
  obtain ⟨cs3, hcolon, hm⟩ := Option.bind_eq_some_iff.mp hm
  obtain ⟨⟨v, cs4⟩, hv, heq⟩ := Option.map_eq_some_iff.mp hm
  cases heq
  cases expect_eq_some hquote
  obtain ⟨l, hl, hlex⟩ := h hv
  have hopen : Place.outside.step '"' = some (.inside, 1) := rfl
  have hsep := lexed_separator (.inr rfl) (expect_eq_some hcolon) (.inr (.inl rfl))
  have hall := (Lexed.char hopen cs1).trans ((scanString_lexed hname).trans
    (hsep.trans ((lexed_skipWs_outside cs3).trans hlex)))
  have hcount : 1 + (1 + (0 + (0 + v.quotes))) = 2 + v.quotes := by omega
  rw [hcount] at hall
  exact ⟨l, hl, hall⟩

/-- A value is read over two quotation marks for each of its strings and names. -/
theorem parseValue_lexed (n : ℕ) : Lexes (parseValue n) Value.quotes := by
  induction n with
  | zero =>
    intro cs v rest h
    cases h
  | succ n ih =>
    intro cs v rest h
    cases cs with
    | nil => cases h
    | cons c cs =>
      rw [parseValue] at h
      split_ifs at h with hquote hbrace hbracket
      · obtain ⟨⟨s, rest'⟩, hs, heq⟩ := Option.map_eq_some_iff.mp h
        cases heq
        have hopen : Place.outside.step c = some (.inside, 1) := by rw [hquote]; rfl
        exact ⟨.closed, .inr rfl, (Lexed.char hopen cs).trans (scanString_lexed hs)⟩
      · obtain ⟨⟨members, rest'⟩, hs, heq⟩ := Option.map_eq_some_iff.mp h
        cases heq
        have hopen : Place.outside.step c = some (.outside, 0) := by rw [hbrace]; rfl
        have hall := (Lexed.char hopen cs).trans
          (parseBracket_lexed (parseMember_lexes ih) (.inl rfl) hs)
        rw [Nat.zero_add, ← quotesMembers_eq] at hall
        exact ⟨.outside, .inl rfl, hall⟩
      · obtain ⟨⟨elems, rest'⟩, hs, heq⟩ := Option.map_eq_some_iff.mp h
        cases heq
        have hopen : Place.outside.step c = some (.outside, 0) := by rw [hbracket]; rfl
        have hall := (Lexed.char hopen cs).trans (parseBracket_lexed ih (.inr rfl) hs)
        rw [Nat.zero_add, ← quotesElems_eq] at hall
        exact ⟨.outside, .inl rfl, hall⟩
      · rcases Option.or_eq_some_iff.mp h with hword | ⟨-, hnumber⟩
        · obtain ⟨hlex, hv⟩ := scanWord_lexed hword
          exact ⟨.outside, .inl rfl, hv ▸ hlex⟩
        · obtain ⟨hlex, hv⟩ := scanNumber_lexed hnumber
          exact ⟨.outside, .inl rfl, hv ▸ hlex⟩

/-- The quotation marks of a text that is loaded. -/
theorem loads_lexed {text : List Char} {v : Value} (h : loads text = some v) :
    ∃ l : Place, l.Idle ∧ lex .outside text = some (l, v.quotes) := by
  unfold loads at h
  split_ifs at h
  obtain ⟨⟨v', rest⟩, hv, heq⟩ := Option.bind_eq_some_iff.mp h
  dsimp only at heq
  split_ifs at heq with hrest
  cases heq
  obtain ⟨l, hl, hlex⟩ := parseValue_lexed _ hv
  obtain ⟨m, hm, -, htail⟩ := lexed_skipWs hl rest
  rw [hrest] at htail
  obtain ⟨used, hused, hall⟩ := (lexed_skipWs_outside text).trans (hlex.trans htail)
  rw [List.append_nil] at hused
  rw [hused, hall]
  exact ⟨m, hm, by rw [Nat.zero_add, Nat.add_zero]⟩

/-! ## Fuel -/

theorem length_skipWs_le (cs : List Char) : (skipWs cs).length ≤ cs.length :=
  (lexed_skipWs_outside cs).length_le

section

variable {α : Type} {item item' : List Char → Option (α × List Char)} {bound : ℕ}

/-- The two parsers agree on the texts up to a length. -/
def AgreeUpTo (bound : ℕ) (item item' : List Char → Option (α × List Char)) : Prop :=
  ∀ ⦃cs : List Char⦄, cs.length ≤ bound → item cs = item' cs

theorem parseItems_agree {w : α → ℕ} (hagree : AgreeUpTo bound item item') (hitem : Lexes item w)
    (close : Char) {n m : ℕ} {cs : List Char} (hcs : cs.length ≤ bound) (hn : cs.length < n)
    (hm : cs.length < m) : parseItems item close n cs = parseItems item' close m cs := by
  induction n generalizing m cs with
  | zero => omega
  | succ n ih =>
    obtain ⟨m, rfl⟩ : ∃ k, m = k + 1 := ⟨m - 1, by omega⟩
    rw [parseItems, parseItems, ← hagree hcs]
    refine Option.bind_congr ?_
    rintro ⟨a, rest⟩ ha
    obtain ⟨l, -, hlex⟩ := hitem ha
    have hle := hlex.length_le
    have hskip := length_skipWs_le rest
    dsimp only
    cases hrest : skipWs rest with
    | nil => rfl
    | cons c tail =>
      rw [hrest, List.length_cons] at hskip
      have htail := length_skipWs_le tail
      have hitems : parseItems item close n (skipWs tail) = parseItems item' close m (skipWs tail) :=
        ih (by omega) (by omega) (by omega)
      dsimp only
      rw [hitems]

theorem parseBracket_agree {w : α → ℕ} (hagree : AgreeUpTo bound item item') (hitem : Lexes item w)
    (close : Char) {n m : ℕ} {cs : List Char} (hcs : cs.length ≤ bound) (hn : cs.length < n)
    (hm : cs.length < m) : parseBracket item close n cs = parseBracket item' close m cs := by
  have hskip := length_skipWs_le cs
  have hitems : parseItems item close n (skipWs cs) = parseItems item' close m (skipWs cs) :=
    parseItems_agree hagree hitem close (by omega) (by omega) (by omega)
  rw [parseBracket, parseBracket, hitems]

end

theorem parseMember_agree {bound : ℕ} {value value' : List Char → Option (Value × List Char)}
    (hagree : AgreeUpTo bound value value') :
    AgreeUpTo bound (parseMember value) (parseMember value') := by
  intro cs hcs
  rw [parseMember, parseMember]
  refine Option.bind_congr fun cs1 hquote => Option.bind_congr ?_
  rintro ⟨name, cs2⟩ hname
  refine Option.bind_congr fun cs3 hcolon => ?_
  have h1 := congrArg List.length (expect_eq_some hquote)
  have h2 := (scanString_lexed hname).length_le
  have h3 := congrArg List.length (expect_eq_some hcolon)
  have h4 := length_skipWs_le cs2
  have h5 := length_skipWs_le cs3
  rw [List.length_cons] at h1 h3
  have hvalue : value (skipWs cs3) = value' (skipWs cs3) := hagree (by omega)
  rw [hvalue]

/-- The result does not depend on the fuel when there is one unit for each
    character, and one more. -/
theorem parseValue_fuel {n m : ℕ} {cs : List Char} (hn : cs.length < n) (hm : cs.length < m) :
    parseValue n cs = parseValue m cs := by
  induction n generalizing m cs with
  | zero => omega
  | succ n ih =>
    obtain ⟨m, rfl⟩ : ∃ k, m = k + 1 := ⟨m - 1, by omega⟩
    cases cs with
    | nil => rfl
    | cons c cs =>
      rw [List.length_cons] at hn hm
      have hagree : AgreeUpTo cs.length (parseValue n) (parseValue m) := by
        intro cs' hle
        exact ih (by omega) (by omega)
      have hmembers := parseBracket_agree (parseMember_agree hagree)
        (parseMember_lexes (parseValue_lexed n)) '}' le_rfl (by omega : cs.length < n)
        (by omega : cs.length < m)
      have helems := parseBracket_agree hagree (parseValue_lexed n) ']' le_rfl
        (by omega : cs.length < n) (by omega : cs.length < m)
      rw [parseValue, parseValue, hmembers, helems]

/-! ## Reading members -/

theorem parseValue_string {content : List Char} (h : Quiet content) (n : ℕ) (rest : List Char) :
    parseValue (n + 1) ('"' :: (content ++ '"' :: rest)) =
      (unquote content).map fun s => (.str s, rest) := by
  rw [parseValue, if_pos rfl, scanString_of_quiet h, Option.map_map]
  rfl

theorem parseMember_name {name : List Char} {key : Str} (h : unquote name = some key)
    (value : List Char → Option (Value × List Char)) (cs : List Char) :
    parseMember value ('"' :: (name ++ '"' :: ':' :: cs)) =
      (value (skipWs cs)).map fun r => ((key, r.1), r.2) := by
  have hskip : expect ':' (skipWs (':' :: cs)) = some cs := rfl
  rw [parseMember, expect, if_pos rfl, Option.bind_some, scanString_of_quiet (quiet_of_unquote h), h,
    Option.map_some, Option.bind_some]
  dsimp only
  rw [hskip, Option.bind_some]

section

variable {α : Type} {item : List Char → Option (α × List Char)} {close : Char} {cs rest : List Char}
  {a : Option α}

/-- An item with a comma behind it. -/
theorem parseItems_next (h : item cs = a.map (·, ',' :: rest)) (hclose : close ≠ ',') (n : ℕ) :
    parseItems item close (n + 1) cs =
      a.bind fun a => (parseItems item close n (skipWs rest)).map fun r => (a :: r.1, r.2) := by
  cases a with
  | none => rw [parseItems, h, Option.map_none, Option.bind_none, Option.bind_none]
  | some a =>
    have hskip : skipWs (',' :: rest) = ',' :: rest := rfl
    rw [parseItems, h, Option.map_some, Option.bind_some, Option.bind_some]
    dsimp only
    rw [hskip]
    dsimp only
    rw [if_neg (Ne.symm hclose), if_pos rfl]

/-- The last item. -/
theorem parseItems_last (h : item cs = a.map (·, close :: rest)) (hclose : isWs close = false) (n : ℕ) :
    parseItems item close (n + 1) cs = a.map fun a => ([a], rest) := by
  cases a with
  | none => rw [parseItems, h, Option.map_none, Option.bind_none, Option.map_none]
  | some a =>
    have hskip : skipWs (close :: rest) = close :: rest :=
      List.dropWhile_cons_of_neg (by simp [hclose])
    rw [parseItems, h, Option.map_some, Option.bind_some, Option.map_some]
    dsimp only
    rw [hskip]
    dsimp only
    rw [if_pos rfl]

end

end LinuxFileManager.Lib.Json
