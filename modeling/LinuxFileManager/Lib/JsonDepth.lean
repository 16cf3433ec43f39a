import LinuxFileManager.Lib.Json

/-!
# `json.loads` with its limits

The scanner of `json.loads` calls itself for each array and each object, and
Python limits how deep calls can be nested. The parameter `levels` is the number of
brackets that can be open at once. One more is a `RecursionError`, which is not
a `ValueError`; the scanner stops there and reads nothing behind it.

The parameter `digits` is the number of digits that `int` converts, when there is a
limit. A literal of an integer with more of them is a `ValueError`, as a text that
is no JSON is.

Results:

* `valueWithin_agrees`: a value is the one of the decoder without limits.
* `valueWithin_of_length_le`: a text with no more characters than levels and digits
  does not reach the limits.
* `valueWithin_fuel`: the fuel of `loadsWithin` is enough.
-/

namespace LinuxFileManager.Lib.Json

/-! ## Results of a scanner -/

inductive LoadError where
  /-- `ValueError`, of which `JSONDecodeError` is one. -/
  | invalid
  /-- `RecursionError`. -/
  | tooDeep
  deriving DecidableEq

section

variable {α β : Type}

/-- The result of a scanner that has no limits. -/
def orInvalid : Option α → Except LoadError α
  | some a => .ok a
  | none => .error .invalid

/-- A result is the one without limits. -/
def Agrees : Except LoadError α → Option α → Prop
  | .ok a, o => o = some a
  | .error _, _ => True

theorem agrees_orInvalid (o : Option α) : Agrees (orInvalid o) o := by
  cases o with
  | none => trivial
  | some a => rfl

theorem Agrees.bind {x : Except LoadError α} {o : Option α} {f : α → Except LoadError β}
    {g : α → Option β} (h : Agrees x o) (hfg : ∀ a, Agrees (f a) (g a)) :
    Agrees (x.bind f) (o.bind g) := by
  match x, h with
  | .ok a, h =>
    rw [show o = some a from h]
    exact hfg a
  | .error _, _ => trivial

theorem Agrees.map {x : Except LoadError α} {o : Option α} (h : Agrees x o) (f : α → β) :
    Agrees (x.map f) (o.map f) := by
  match x, h with
  | .ok a, h =>
    rw [show o = some a from h]
    rfl
  | .error _, _ => trivial

theorem bind_congr_ok {x : Except LoadError α} {f g : α → Except LoadError β}
    (h : ∀ a, x = .ok a → f a = g a) : x.bind f = x.bind g := by
  cases x with
  | error e => rfl
  | ok a => exact h a rfl

theorem orInvalid_eq_ok {o : Option α} {a : α} : orInvalid o = .ok a ↔ o = some a := by
  cases o <;> simp [orInvalid]

theorem orInvalid_bind (o : Option α) (f : α → Option β) :
    orInvalid (o.bind f) = (orInvalid o).bind fun a => orInvalid (f a) := by
  cases o <;> rfl

theorem orInvalid_map (o : Option α) (f : α → β) : orInvalid (o.map f) = (orInvalid o).map f := by
  cases o <;> rfl

end

/-! ## The decoder -/

section

variable {α : Type}

/-- Items with commas between them, up to the closing bracket. -/
def itemsWithin (item : List Char → Except LoadError (α × List Char)) (close : Char) :
    ℕ → List Char → Except LoadError (List α × List Char)
  | 0, _ => .error .invalid
  | n + 1, cs =>
    (item cs).bind fun (a, cs) =>
      match skipWs cs with
      | [] => .error .invalid
      | c :: cs =>
        if c = close then .ok ([a], cs)
        else if c = ',' then (itemsWithin item close n (skipWs cs)).map fun r => (a :: r.1, r.2)
        else .error .invalid

/-- An array or an object behind its opening bracket. -/
def bracketWithin (item : List Char → Except LoadError (α × List Char)) (close : Char) (n : ℕ)
    (cs : List Char) : Except LoadError (List α × List Char) :=
  match expect close (skipWs cs) with
  | some rest => .ok ([], rest)
  | none => itemsWithin item close n (skipWs cs)

end

/-- A member of an object. -/
def memberWithin (value : List Char → Except LoadError (Value × List Char)) (cs : List Char) :
    Except LoadError ((Str × Value) × List Char) :=
  (orInvalid (expect '"' cs)).bind fun cs =>
    (orInvalid (scanString cs)).bind fun (name, cs) =>
      (orInvalid (expect ':' (skipWs cs))).bind fun cs =>
        (value (skipWs cs)).map fun (v, cs) => ((name, v), cs)

/-- The digits of a literal of an integer. -/
def wholeDigits (cs : List Char) : ℕ := ((scanWhole (scanMinus cs).2).map (·.1.length)).getD 0

/-- `int` converts the digits at the start of `cs`, if the value is an integer. -/
def Converts (digits : Option ℕ) (cs : List Char) : Value → Prop
  | .int _ => ∀ limit ∈ digits, wholeDigits cs ≤ limit
  | _ => True

instance (digits : Option ℕ) (cs : List Char) : DecidablePred (Converts digits cs)
  | .int _ => inferInstanceAs (Decidable (∀ limit ∈ digits, wholeDigits cs ≤ limit))
  | .null | .bool _ | .float _ _ _ | .nan | .infinity _ | .str _ | .arr _ | .obj _ => .isTrue trivial

/-- A number, when `int` converts it. -/
def numberWithin (digits : Option ℕ) (cs : List Char) : Option (Value × List Char) :=
  (scanNumber cs).filter fun r => Converts digits cs r.1

/-- A value, with the fuel of `parseValue` and the levels that are left. -/
def valueWithin (digits : Option ℕ) : ℕ → ℕ → List Char → Except LoadError (Value × List Char)
  | 0, _, _ => .error .invalid
  | _ + 1, _, [] => .error .invalid
  | n + 1, levels, c :: cs =>
    if c = '"' then orInvalid ((scanString cs).map fun r => (.str r.1, r.2))
    else if c = '{' then
      if levels = 0 then .error .tooDeep
      else
        (bracketWithin (memberWithin (valueWithin digits n (levels - 1))) '}' n cs).map fun r => (.obj r.1, r.2)
    else if c = '[' then
      if levels = 0 then .error .tooDeep
      else (bracketWithin (valueWithin digits n (levels - 1)) ']' n cs).map fun r => (.arr r.1, r.2)
    else orInvalid ((scanWord (c :: cs)).or (numberWithin digits (c :: cs)))

/-- `json.loads`. -/
def loadsWithin (digits : Option ℕ) (levels : ℕ) (text : List Char) : Except LoadError Value :=
  if text.head? = some (Char.ofNat 0xFEFF) then .error .invalid
  else
    (valueWithin digits (text.length + 1) levels (skipWs text)).bind fun (v, rest) =>
      if skipWs rest = [] then .ok v else .error .invalid

/-! ## The decoder without limits -/

section

variable {α : Type} {item : List Char → Except LoadError (α × List Char)}
  {item' : List Char → Option (α × List Char)}

theorem itemsWithin_agrees (h : ∀ cs, Agrees (item cs) (item' cs)) (close : Char) (n : ℕ)
    (cs : List Char) : Agrees (itemsWithin item close n cs) (parseItems item' close n cs) := by
  induction n generalizing cs with
  | zero => trivial
  | succ n ih =>
    rw [itemsWithin, parseItems]
    refine (h cs).bind ?_
    rintro ⟨a, rest⟩
    dsimp only
    cases skipWs rest with
    | nil => trivial
    | cons c rest =>
      dsimp only
      split_ifs
      · rfl
      · exact (ih (skipWs rest)).map _
      · trivial

theorem bracketWithin_agrees (h : ∀ cs, Agrees (item cs) (item' cs)) (close : Char) (n : ℕ)
    (cs : List Char) : Agrees (bracketWithin item close n cs) (parseBracket item' close n cs) := by
  rw [bracketWithin, parseBracket]
  cases expect close (skipWs cs) with
  | none => exact itemsWithin_agrees h close n (skipWs cs)
  | some rest => rfl

end

theorem memberWithin_agrees {value : List Char → Except LoadError (Value × List Char)}
    {value' : List Char → Option (Value × List Char)} (h : ∀ cs, Agrees (value cs) (value' cs))
    (cs : List Char) : Agrees (memberWithin value cs) (parseMember value' cs) :=
  (agrees_orInvalid _).bind fun _ => (agrees_orInvalid _).bind fun _ =>
    (agrees_orInvalid _).bind fun _ => (h _).map _

theorem numberWithin_eq_some {digits : Option ℕ} {cs : List Char} {r : Value × List Char}
    (h : numberWithin digits cs = some r) : scanNumber cs = some r :=
  (Option.filter_eq_some_iff.mp h).1

/-- A number is a word or a literal that `int` converts. -/
theorem numberWithin_agrees (digits : Option ℕ) (cs : List Char) :
    Agrees (orInvalid ((scanWord cs).or (numberWithin digits cs))) ((scanWord cs).or (scanNumber cs)) := by
  cases scanWord cs with
  | some r => rfl
  | none =>
    rw [Option.none_or, Option.none_or]
    cases hnumber : numberWithin digits cs with
    | none => trivial
    | some r => exact numberWithin_eq_some hnumber

/-- A value is the one of `parseValue`. -/
theorem valueWithin_agrees (digits : Option ℕ) (n levels : ℕ) (cs : List Char) :
    Agrees (valueWithin digits n levels cs) (parseValue n cs) := by
  induction n generalizing levels cs with
  | zero => trivial
  | succ n ih =>
    cases cs with
    | nil => trivial
    | cons c cs =>
      rw [valueWithin, parseValue]
      have hvalue := ih (levels - 1)
      split_ifs
      · exact agrees_orInvalid _
      · trivial
      · exact (bracketWithin_agrees (memberWithin_agrees hvalue) '}' n cs).map _
      · trivial
      · exact (bracketWithin_agrees hvalue ']' n cs).map _
      · exact numberWithin_agrees digits (c :: cs)

theorem loadsWithin_agrees (digits : Option ℕ) (levels : ℕ) (text : List Char) :
    Agrees (loadsWithin digits levels text) (loads text) := by
  rw [loadsWithin, loads]
  split_ifs with hbom
  · trivial
  · refine (valueWithin_agrees digits _ levels _).bind ?_
    rintro ⟨v, rest⟩
    dsimp only
    split_ifs
    · rfl
    · trivial

/-! ## Fuel and limits -/

section

variable {α : Type} {item item' : List Char → Except LoadError (α × List Char)} {bound : ℕ}

/-- The scanner does not go back. -/
def Shortens (item : List Char → Except LoadError (α × List Char)) : Prop :=
  ∀ ⦃cs : List Char⦄ ⦃a : α⦄ ⦃rest : List Char⦄, item cs = .ok (a, rest) → rest.length ≤ cs.length

theorem Shortens.of_agrees {parse : List Char → Option (α × List Char)} {w : α → ℕ}
    (h : ∀ cs, Agrees (item cs) (parse cs)) (hparse : Lexes parse w) : Shortens item := by
  intro cs a rest hitem
  have hok := h cs
  rw [hitem] at hok
  obtain ⟨l, -, hlex⟩ := hparse hok
  exact hlex.length_le

theorem shortens_valueWithin (digits : Option ℕ) (n levels : ℕ) :
    Shortens (valueWithin digits n levels) :=
  .of_agrees (valueWithin_agrees digits n levels) (parseValue_lexed n)

theorem shortens_memberWithin (digits : Option ℕ) (n levels : ℕ) :
    Shortens (memberWithin (valueWithin digits n levels)) :=
  .of_agrees (memberWithin_agrees (valueWithin_agrees digits n levels))
    (parseMember_lexes (parseValue_lexed n))

/-- The two scanners agree on the texts up to a length. -/
def AgreeWithin (bound : ℕ) (item item' : List Char → Except LoadError (α × List Char)) : Prop :=
  ∀ ⦃cs : List Char⦄, cs.length ≤ bound → item cs = item' cs

theorem itemsWithin_congr (hagree : AgreeWithin bound item item') (hitem : Shortens item) (close : Char)
    {n m : ℕ} {cs : List Char} (hcs : cs.length ≤ bound) (hn : cs.length < n) (hm : cs.length < m) :
    itemsWithin item close n cs = itemsWithin item' close m cs := by
  induction n generalizing m cs with
  | zero => omega
  | succ n ih =>
    obtain ⟨m, rfl⟩ : ∃ k, m = k + 1 := ⟨m - 1, by omega⟩
    rw [itemsWithin, itemsWithin, ← hagree hcs]
    refine bind_congr_ok ?_
    rintro ⟨a, rest⟩ ha
    have hle := hitem ha
    have hskip := length_skipWs_le rest
    dsimp only
    cases hrest : skipWs rest with
    | nil => rfl
    | cons c tail =>
      rw [hrest, List.length_cons] at hskip
      have htail := length_skipWs_le tail
      have hitems : itemsWithin item close n (skipWs tail) = itemsWithin item' close m (skipWs tail) :=
        ih (by omega) (by omega) (by omega)
      dsimp only
      rw [hitems]

theorem bracketWithin_congr (hagree : AgreeWithin bound item item') (hitem : Shortens item)
    (close : Char) {n m : ℕ} {cs : List Char} (hcs : cs.length ≤ bound) (hn : cs.length < n)
    (hm : cs.length < m) : bracketWithin item close n cs = bracketWithin item' close m cs := by
  have hskip := length_skipWs_le cs
  have hitems : itemsWithin item close n (skipWs cs) = itemsWithin item' close m (skipWs cs) :=
    itemsWithin_congr hagree hitem close (by omega) (by omega) (by omega)
  rw [bracketWithin, bracketWithin, hitems]

theorem itemsWithin_orInvalid (parse : List Char → Option (α × List Char)) (close : Char) (n : ℕ)
    (cs : List Char) :
    itemsWithin (fun cs => orInvalid (parse cs)) close n cs =
      orInvalid (parseItems parse close n cs) := by
  induction n generalizing cs with
  | zero => rfl
  | succ n ih =>
    rw [itemsWithin, parseItems, orInvalid_bind]
    refine bind_congr_ok ?_
    rintro ⟨a, rest⟩ -
    dsimp only
    cases skipWs rest with
    | nil => rfl
    | cons c rest =>
      dsimp only
      rw [ih, ← orInvalid_map]
      split_ifs <;> rfl

theorem bracketWithin_orInvalid (parse : List Char → Option (α × List Char)) (close : Char) (n : ℕ)
    (cs : List Char) :
    bracketWithin (fun cs => orInvalid (parse cs)) close n cs =
      orInvalid (parseBracket parse close n cs) := by
  rw [bracketWithin, parseBracket]
  cases expect close (skipWs cs) with
  | none => exact itemsWithin_orInvalid parse close n (skipWs cs)
  | some rest => rfl

end

theorem memberWithin_congr {bound : ℕ} {value value' : List Char → Except LoadError (Value × List Char)}
    (hagree : AgreeWithin bound value value') :
    AgreeWithin bound (memberWithin value) (memberWithin value') := by
  intro cs hcs
  rw [memberWithin, memberWithin]
  refine bind_congr_ok fun cs1 hquote => bind_congr_ok ?_
  rintro ⟨name, cs2⟩ hname
  refine bind_congr_ok fun cs3 hcolon => ?_
  have h1 := congrArg List.length (expect_eq_some (orInvalid_eq_ok.mp hquote))
  have h2 := (scanString_lexed (orInvalid_eq_ok.mp hname)).length_le
  have h3 := congrArg List.length (expect_eq_some (orInvalid_eq_ok.mp hcolon))
  have h4 := length_skipWs_le cs2
  have h5 := length_skipWs_le cs3
  rw [List.length_cons] at h1 h3
  have hvalue : value (skipWs cs3) = value' (skipWs cs3) := hagree (by omega)
  rw [hvalue]

theorem memberWithin_orInvalid (value : List Char → Option (Value × List Char)) (cs : List Char) :
    memberWithin (fun cs => orInvalid (value cs)) cs = orInvalid (parseMember value cs) := by
  rw [memberWithin, parseMember, orInvalid_bind]
  refine bind_congr_ok fun cs1 _ => ?_
  rw [orInvalid_bind]
  refine bind_congr_ok fun named _ => ?_
  rw [orInvalid_bind]
  exact bind_congr_ok fun cs3 _ => (orInvalid_map _ _).symm

/-- The result does not depend on the fuel when there is one unit for each
    character, and one more. -/
theorem valueWithin_fuel (digits : Option ℕ) {n m : ℕ} (levels : ℕ) {cs : List Char}
    (hn : cs.length < n) (hm : cs.length < m) :
    valueWithin digits n levels cs = valueWithin digits m levels cs := by
  induction n generalizing m levels cs with
  | zero => omega
  | succ n ih =>
    obtain ⟨m, rfl⟩ : ∃ k, m = k + 1 := ⟨m - 1, by omega⟩
    cases cs with
    | nil => rfl
    | cons c cs =>
      rw [List.length_cons] at hn hm
      have hagree : AgreeWithin cs.length (valueWithin digits n (levels - 1))
          (valueWithin digits m (levels - 1)) := by
        intro cs' hle
        exact ih _ (by omega) (by omega)
      have hmembers := bracketWithin_congr (memberWithin_congr hagree) (shortens_memberWithin digits n _) '}'
        le_rfl (by omega : cs.length < n) (by omega : cs.length < m)
      have helems := bracketWithin_congr hagree (shortens_valueWithin digits n _) ']' le_rfl
        (by omega : cs.length < n) (by omega : cs.length < m)
      rw [valueWithin, valueWithin, hmembers, helems]

theorem length_scanWhole {cs digits rest : List Char} (h : scanWhole cs = some (digits, rest)) :
    digits.length ≤ cs.length := by
  cases cs with
  | nil => cases h
  | cons c cs =>
    rw [scanWhole] at h
    split_ifs at h with hzero hdigit
    · cases h
      exact Nat.succ_le_succ (Nat.zero_le _)
    · cases h
      exact (List.takeWhile_prefix _).length_le

/-- The digits are characters of the text. -/
theorem wholeDigits_le (cs : List Char) : wholeDigits cs ≤ cs.length := by
  have hminus : (scanMinus cs).2.length ≤ cs.length := (lexed_scanMinus cs).length_le
  cases hwhole : scanWhole (scanMinus cs).2 with
  | none =>
    rw [wholeDigits, hwhole]
    exact Nat.zero_le _
  | some r =>
    rw [wholeDigits, hwhole]
    exact (length_scanWhole hwhole).trans hminus

/-- A literal with no more characters than digits is converted. -/
theorem numberWithin_of_length_le {digits : Option ℕ} {cs : List Char}
    (hdigits : ∀ limit ∈ digits, cs.length ≤ limit) : numberWithin digits cs = scanNumber cs := by
  have hconverts (v : Value) : Converts digits cs v := by
    cases v with
    | int n => exact fun limit hlimit => (wholeDigits_le cs).trans (hdigits limit hlimit)
    | null | bool | float | nan | infinity | str | arr | obj => trivial
  rw [numberWithin]
  cases scanNumber cs with
  | none => rfl
  | some r => exact Option.filter_some_pos (decide_eq_true (hconverts r.1))

/-- Each bracket and each digit is a character: a text with no more of them than levels
    and digits does not reach the limits. -/
theorem valueWithin_of_length_le {digits : Option ℕ} {n levels : ℕ} {cs : List Char}
    (hn : cs.length < n) (hlevels : cs.length ≤ levels) (hdigits : ∀ limit ∈ digits, cs.length ≤ limit) :
    valueWithin digits n levels cs = orInvalid (parseValue n cs) := by
  induction n generalizing levels cs with
  | zero => omega
  | succ n ih =>
    cases cs with
    | nil => rfl
    | cons c cs =>
      have hnumber := numberWithin_of_length_le hdigits
      rw [List.length_cons] at hn hlevels
      have hagree : AgreeWithin cs.length (valueWithin digits n (levels - 1))
          (fun cs => orInvalid (parseValue n cs)) := by
        intro cs' hle
        refine ih (by omega) (by omega) fun limit hlimit => ?_
        have hlimit := hdigits limit hlimit
        rw [List.length_cons] at hlimit
        omega
      have hmembers := bracketWithin_congr (memberWithin_congr hagree) (shortens_memberWithin digits n _) '}'
        le_rfl (by omega : cs.length < n) (by omega : cs.length < n)
      have helems := bracketWithin_congr hagree (shortens_valueWithin digits n _) ']' le_rfl
        (by omega : cs.length < n) (by omega : cs.length < n)
      rw [bracketWithin_orInvalid] at helems
      have hmember : memberWithin (fun cs => orInvalid (parseValue n cs)) =
          fun cs => orInvalid (parseMember (parseValue n) cs) := funext (memberWithin_orInvalid _)
      rw [hmember, bracketWithin_orInvalid] at hmembers
      have hopen : levels ≠ 0 := by omega
      rw [valueWithin, parseValue, hmembers, helems, hnumber, if_neg hopen, if_neg hopen, ← orInvalid_map,
        ← orInvalid_map]
      split_ifs <;> rfl

/-- A text with no more characters than levels and digits is loaded as without limits. -/
theorem loadsWithin_of_length_le {digits : Option ℕ} {levels : ℕ} {text : List Char}
    (hlevels : text.length ≤ levels) (hdigits : ∀ limit ∈ digits, text.length ≤ limit) :
    loadsWithin digits levels text = orInvalid (loads text) := by
  have hskip := length_skipWs_le text
  rw [loadsWithin, loads, valueWithin_of_length_le (by omega) (by omega)
    fun limit hlimit => hskip.trans (hdigits limit hlimit)]
  split_ifs with hbom
  · rfl
  · rw [orInvalid_bind]
    refine bind_congr_ok ?_
    rintro ⟨v, rest⟩ -
    dsimp only
    split_ifs <;> rfl

example : loadsWithin (some 3) 1 "[1234]".toList = .error .invalid := rfl
example : loadsWithin none 1 "[1234]".toList = .ok (.arr [.int 1234]) := rfl

end LinuxFileManager.Lib.Json
