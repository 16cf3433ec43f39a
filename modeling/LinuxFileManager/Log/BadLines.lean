import LinuxFileManager.Lib.JsonDepth
import LinuxFileManager.Log.Event
import LinuxFileManager.Log.Import

/-!
# Which lines block the import

`parse_line` (`test/log_etl.py` lines 57–80) skips a line when it catches a
`ValueError`: the `JSONDecodeError` of a text that is no JSON, the one of an integer
with too many digits, or the one of a string that is not a time. It does not catch the
`AttributeError` of a value that is not an object, the `TypeError` of a field that
cannot be cut or is not a time, nor the `RecursionError` of a value that is nested
too deep; and a line that is not UTF-8 does not get as far as `parse_line`. Each of
these ends the run before the offset is saved, so that the next run comes to the
same line.

The parameter `levels` is the number of brackets that Python's recursion limit lets
`json.loads` open, `digits` the number of digits that it lets an integer have, and
`accepts` tells which records the database takes.

Results:

* `parseTextWithin_ne_raised_iff`: the texts that `parse_line` copes with.
* `parseTextWithin_eq_record_iff`: the texts that it makes a record of.
* `skipsBadLines_iff`: the log files that are imported up to their end.
-/

namespace LinuxFileManager.Log

open Lib Lib.Json

/-! ## `parse_line` with Python's limits -/

/-- `parse_line` (`test/log_etl.py` lines 57–79). -/
def parseTextWithin (digits : Option ℕ) (levels : ℕ) (text : List Char) : Parsed Record :=
  let line := strip text
  if line = [] then .skipped
  else
    match loadsWithin digits levels line with
    | .error .invalid => .skipped
    | .error .tooDeep => .raised
    | .ok (.obj data) => recordOf data
    | .ok _ => .raised

/-- `parse_line` on the bytes of a line. -/
def parseLineWithin (digits : Option ℕ) (levels : ℕ) (line : List UInt8) : Parsed Record :=
  match decode line with
  | none => .raised
  | some text => parseTextWithin digits levels text

theorem length_strip_le (text : List Char) : (strip text).length ≤ text.length :=
  (List.rdropWhile_prefix _ _).length_le.trans (List.dropWhile_sublist _).length_le

/-- A text with no more characters than levels and digits does not reach the limits. -/
theorem parseTextWithin_of_length_le {digits : Option ℕ} {levels : ℕ} {text : List Char}
    (hlevels : text.length ≤ levels) (hdigits : ∀ limit ∈ digits, text.length ≤ limit) :
    parseTextWithin digits levels text = parseText text := by
  have hloads := loadsWithin_of_length_le ((length_strip_le text).trans hlevels)
    fun limit hlimit => (length_strip_le text).trans (hdigits limit hlimit)
  unfold parseTextWithin parseText
  dsimp only
  rw [hloads]
  split_ifs with hempty
  · rfl
  · cases loads (strip text) with
    | none => rfl
    | some v => cases v <;> rfl

/-- Nor does a line with no more bytes. -/
theorem parseLineWithin_of_length_le {digits : Option ℕ} {levels : ℕ} {line : List UInt8}
    (hlevels : line.length ≤ levels) (hdigits : ∀ limit ∈ digits, line.length ≤ limit) :
    parseLineWithin digits levels line = parseLine line := by
  unfold parseLineWithin parseLine
  cases htext : decode line with
  | none => rfl
  | some text =>
    have hlen : text.length ≤ line.length := by
      rw [decode_eq_some.mp htext]
      exact length_le_encode text
    exact parseTextWithin_of_length_le (hlen.trans hlevels)
      fun limit hlimit => hlen.trans (hdigits limit hlimit)

/-- The lines of `log_event_json` are shorter than its buffer. -/
theorem parseLineWithin_logEventJson {digits : Option ℕ} {levels : ℕ} (hlevels : bufferSize ≤ levels)
    (hdigits : ∀ limit ∈ digits, bufferSize ≤ limit) {jsonInitialized : Bool} {tm : LocalTime}
    {event clientIp : Option CString} {fd : Int32} {detail : Option CString} {line : List UInt8}
    (h : logEventJson jsonInitialized tm event clientIp fd detail = some line) :
    parseLineWithin digits levels line = parseLine line := by
  unfold logEventJson at h
  dsimp only at h
  split_ifs at h with hinit hlen
  cases h
  have hline := (not_le.mp (not_or.mp hlen).2).le
  exact parseLineWithin_of_length_le (hline.trans hlevels)
    fun limit hlimit => hline.trans (hdigits limit hlimit)

/-! ## The fields -/

/-- `data.get(name, fallback)`. -/
def fieldOr (data : List (Str × Value)) (name : String) (fallback : Value) : Value :=
  (lookup data (codes name.toList)).getD fallback

def tsOf (data : List (Str × Value)) : Value := fieldOr data "ts" (.str [])
def eventOf (data : List (Str × Value)) : Value := fieldOr data "event" (.str (codes "unknown".toList))
def ipOf (data : List (Str × Value)) : Value := fieldOr data "ip" (.str [])
def fdOf (data : List (Str × Value)) : Value := fieldOr data "fd" (.int 0)
def detailOf (data : List (Str × Value)) : Value := fieldOr data "detail" (.str [])

def isStr : Value → Bool
  | .str _ => true
  | _ => false

/-- `v[:n]` is not a `TypeError`. -/
def sliceable : Value → Bool
  | .str _ | .arr _ => true
  | _ => false

/-- A string that is not a time: a `ValueError`, which is caught. -/
def notIso : Value → Bool
  | .str s => s ≠ [] && (fromisoformat s).isNone
  | _ => false

/-- What the members of an object must be. -/
structure GoodFields (data : List (Str × Value)) : Prop where
  /-- The time is falsy or a string. -/
  time : truthy (tsOf data) = true → isStr (tsOf data) = true
  /-- The fields behind it are not read, or can be cut. -/
  cut : notIso (tsOf data) = true ∨
    sliceable (eventOf data) = true ∧ sliceable (ipOf data) = true ∧ sliceable (detailOf data) = true

instance (data : List (Str × Value)) : Decidable (GoodFields data) :=
  decidable_of_iff ((truthy (tsOf data) = true → isStr (tsOf data) = true) ∧ (notIso (tsOf data) = true ∨
    sliceable (eventOf data) = true ∧ sliceable (ipOf data) = true ∧ sliceable (detailOf data) = true))
    ⟨fun h => ⟨h.1, h.2⟩, fun h => ⟨h.time, h.cut⟩⟩

/-- The time that a value stands for; `none` is `datetime.now()`. -/
inductive TimeOf : Value → Option DateTime → Prop where
  | now {ts : Value} (h : truthy ts = false) : TimeOf ts none
  | read {s : Str} {t : DateTime} (hs : s ≠ []) (h : fromisoformat s = some t) : TimeOf (.str s) (some t)

/-- The record of an object. -/
structure RowOf (data : List (Str × Value)) (r : Record) : Prop where
  time : TimeOf (tsOf data) r.eventTime
  event : slice 50 (eventOf data) = some r.event
  clientIp : slice 45 (ipOf data) = some r.clientIp
  fd : fdOf data = r.fd
  detail : slice 255 (detailOf data) = some r.detail

/-! ## What `parse_line` does -/

theorem isSome_slice (n : ℕ) (v : Value) : (slice n v).isSome = sliceable v := by
  cases v <;> rfl

/-- What is made of the time. -/
theorem eventTime_spec (ts : Value) :
    (eventTime ts = .raised ∧ truthy ts = true ∧ isStr ts = false) ∨
    (eventTime ts = .skipped ∧ notIso ts = true ∧ isStr ts = true) ∨
    ∃ time, eventTime ts = .record time ∧ TimeOf ts time ∧ notIso ts = false ∧
      (truthy ts = true → isStr ts = true) := by
  by_cases htruthy : truthy ts = true
  · cases ts with
    | str s =>
      have hs : s ≠ [] := of_decide_eq_true htruthy
      cases hiso : fromisoformat s with
      | none =>
        refine .inr (.inl ⟨?_, ?_, rfl⟩)
        · simp only [eventTime, htruthy, if_true, hiso]
        · simp only [notIso, hiso, decide_eq_true hs, Option.isNone_none, Bool.and_self]
      | some t =>
        refine .inr (.inr ⟨some t, ?_, .read hs hiso, ?_, fun _ => rfl⟩)
        · simp only [eventTime, htruthy, if_true, hiso]
        · simp only [notIso, hiso, Option.isNone_some, Bool.and_false]
    | null | bool | int | float | nan | infinity | arr | obj =>
      exact .inl ⟨by simp only [eventTime, htruthy, if_true], htruthy, rfl⟩
  · rw [Bool.not_eq_true] at htruthy
    refine .inr (.inr ⟨none, by simp [eventTime, htruthy], .now htruthy, ?_, by simp [htruthy]⟩)
    cases ts with
    | str s =>
      have hs : s = [] := by simpa [truthy] using htruthy
      rw [hs]
      rfl
    | null | bool | int | float | nan | infinity | arr | obj => rfl

theorem recordOf_fields (data : List (Str × Value)) :
    recordOf data = match eventTime (tsOf data) with
      | .skipped => .skipped
      | .raised => .raised
      | .record time =>
        match slice 50 (eventOf data), slice 45 (ipOf data), slice 255 (detailOf data) with
        | some event, some ip, some detail => .record ⟨time, event, ip, fdOf data, detail⟩
        | _, _, _ => .raised := rfl

theorem eventTime_eq_record_iff {ts : Value} {time : Option DateTime} :
    eventTime ts = .record time ↔ TimeOf ts time := by
  constructor
  · intro h
    rcases eventTime_spec ts with ⟨htime, -⟩ | ⟨htime, -⟩ | ⟨time', htime, hof, -⟩
    · cases htime.symm.trans h
    · cases htime.symm.trans h
    · cases htime.symm.trans h
      exact hof
  · intro h
    cases h with
    | now h => simp only [eventTime, h, Bool.false_eq_true, if_false]
    | read hs h => simp only [eventTime, truthy, decide_eq_true hs, if_true, h]

/-- `parse_line` copes with an object exactly when its fields are good. -/
theorem recordOf_ne_raised_iff (data : List (Str × Value)) :
    recordOf data ≠ .raised ↔ GoodFields data := by
  rw [recordOf_fields]
  rcases eventTime_spec (tsOf data) with ⟨htime, htruthy, hstr⟩ | ⟨htime, hiso, hstr⟩ |
    ⟨time, htime, -, hiso, hstr⟩ <;> rw [htime] <;> dsimp only
  · refine iff_of_false (fun h => h rfl) fun h => ?_
    rw [h.time htruthy] at hstr
    cases hstr
  · exact iff_of_true nofun ⟨fun _ => hstr, .inl hiso⟩
  · have hgood : GoodFields data ↔ sliceable (eventOf data) = true ∧ sliceable (ipOf data) = true ∧
        sliceable (detailOf data) = true :=
      ⟨fun h => h.cut.resolve_left (by rw [hiso]; exact Bool.false_ne_true), fun h => ⟨hstr, .inr h⟩⟩
    rw [hgood, ← isSome_slice 50 (eventOf data), ← isSome_slice 45 (ipOf data),
      ← isSome_slice 255 (detailOf data)]
    cases slice 50 (eventOf data) <;> cases slice 45 (ipOf data) <;> cases slice 255 (detailOf data) <;>
      simp

/-- The record that it makes of an object. -/
theorem recordOf_eq_record_iff {data : List (Str × Value)} {r : Record} :
    recordOf data = .record r ↔ RowOf data r := by
  constructor
  · intro h
    rw [recordOf_fields] at h
    split at h
    · cases h
    · cases h
    · rename_i time htime
      split at h
      · rename_i event ip detail hevent hip hdetail
        cases h
        exact ⟨eventTime_eq_record_iff.mp htime, hevent, hip, rfl, hdetail⟩
      · cases h
  · intro h
    rw [recordOf_fields, eventTime_eq_record_iff.mpr h.time, h.event, h.clientIp, h.detail, h.fd]

/-! ## Texts and lines -/

/-- What `json.loads` must make of a line. -/
def GoodValue : Except LoadError Value → Prop
  | .error .invalid => True
  | .error .tooDeep => False
  | .ok (.obj data) => GoodFields data
  | .ok _ => False

/-- The text is blank, or is a `ValueError` for `json.loads`, or is an object with good
    fields. -/
def GoodText (digits : Option ℕ) (levels : ℕ) (text : List Char) : Prop :=
  strip text = [] ∨ GoodValue (loadsWithin digits levels (strip text))

/-- The text is an object that stands for the record `r`. -/
def Denotes (digits : Option ℕ) (levels : ℕ) (text : List Char) (r : Record) : Prop :=
  strip text ≠ [] ∧ ∃ data, loadsWithin digits levels (strip text) = .ok (.obj data) ∧ RowOf data r

/-- The bytes are UTF-8 for a good text. -/
def GoodLine (digits : Option ℕ) (levels : ℕ) (line : List UInt8) : Prop :=
  ∃ text, decode line = some text ∧ GoodText digits levels text

/-- The bytes are UTF-8 for a text that stands for the record `r`. -/
def LineDenotes (digits : Option ℕ) (levels : ℕ) (line : List UInt8) (r : Record) : Prop :=
  ∃ text, decode line = some text ∧ Denotes digits levels text r

instance : DecidablePred GoodValue
  | .error .invalid => inferInstanceAs (Decidable True)
  | .ok (.obj data) => inferInstanceAs (Decidable (GoodFields data))
  | .error .tooDeep | .ok .null | .ok (.bool _) | .ok (.int _) | .ok (.float _ _ _) | .ok .nan
  | .ok (.infinity _) | .ok (.str _) | .ok (.arr _) => inferInstanceAs (Decidable False)

instance (digits : Option ℕ) (levels : ℕ) (text : List Char) : Decidable (GoodText digits levels text) :=
  inferInstanceAs (Decidable (_ ∨ _))

instance (digits : Option ℕ) (levels : ℕ) (line : List UInt8) : Decidable (GoodLine digits levels line) :=
  match h : decode line with
  | none => isFalse (by simp [GoodLine, h])
  | some text => decidable_of_iff (GoodText digits levels text) (by simp [GoodLine, h])

/-- `parse_line` copes exactly with the good texts. -/
theorem parseTextWithin_ne_raised_iff (digits : Option ℕ) (levels : ℕ) (text : List Char) :
    parseTextWithin digits levels text ≠ .raised ↔ GoodText digits levels text := by
  unfold parseTextWithin GoodText
  dsimp only
  by_cases hempty : strip text = []
  · rw [if_pos hempty]
    exact iff_of_true nofun (.inl hempty)
  · rw [if_neg hempty, or_iff_right hempty]
    match loadsWithin digits levels (strip text) with
    | .error .invalid => exact iff_of_true nofun trivial
    | .error .tooDeep => exact iff_of_false (fun h => h rfl) id
    | .ok (.obj data) => exact recordOf_ne_raised_iff data
    | .ok .null | .ok (.bool _) | .ok (.int _) | .ok (.float _ _ _) | .ok .nan | .ok (.infinity _)
    | .ok (.str _) | .ok (.arr _) => exact iff_of_false (fun h => h rfl) id

/-- It makes a record exactly of the texts that stand for one. -/
theorem parseTextWithin_eq_record_iff {digits : Option ℕ} {levels : ℕ} {text : List Char} {r : Record} :
    parseTextWithin digits levels text = .record r ↔ Denotes digits levels text r := by
  unfold parseTextWithin Denotes
  dsimp only
  by_cases hempty : strip text = []
  · rw [if_pos hempty]
    exact iff_of_false nofun fun h => h.1 hempty
  · rw [if_neg hempty, and_iff_right hempty]
    match loadsWithin digits levels (strip text) with
    | .ok (.obj data) => simp [recordOf_eq_record_iff]
    | .error .invalid | .error .tooDeep | .ok .null | .ok (.bool _) | .ok (.int _) | .ok (.float _ _ _)
    | .ok .nan | .ok (.infinity _) | .ok (.str _) | .ok (.arr _) => simp

theorem parseLineWithin_ne_raised_iff {digits : Option ℕ} {levels : ℕ} {line : List UInt8} :
    parseLineWithin digits levels line ≠ .raised ↔ GoodLine digits levels line := by
  unfold parseLineWithin GoodLine
  cases decode line with
  | none => simp
  | some text => simp [parseTextWithin_ne_raised_iff]

theorem parseLineWithin_eq_record_iff {digits : Option ℕ} {levels : ℕ} {line : List UInt8} {r : Record} :
    parseLineWithin digits levels line = .record r ↔ LineDenotes digits levels line r := by
  unfold parseLineWithin LineDenotes
  cases decode line with
  | none => simp
  | some text => simp [parseTextWithin_eq_record_iff]

/-! ## The import of a log file -/

/-- A run of `log_etl.py` from the state `s`, in which the log is the file `i`: no
    line behind the saved offset raises an exception, and the run imports the records
    of all of them and moves the offset to the end of the file. -/
def SkipsBadLines (digits : Option ℕ) (levels : ℕ) (accepts : Record → Bool) (i : ℕ)
    (s : Pipeline Record) : Prop :=
  (∀ line ∈ s.linesBehind i, parseLineWithin digits levels line.text ≠ .raised) ∧
    Completes (parseLineWithin digits levels) accepts i s

/-- The saved offset is a position of the file, and the lines behind it are good, do
    not end with CR LF, and stand for no record that the database refuses. -/
def AllLinesGood (digits : Option ℕ) (levels : ℕ) (accepts : Record → Bool) (i : ℕ)
    (s : Pipeline Record) : Prop :=
  s.savedOffset ≤ (s.fs.content i).length ∧
    ∀ line ∈ s.linesBehind i, GoodLine digits levels line.text ∧
      (∀ r, LineDenotes digits levels line.text r → accepts r = true) ∧ ¬ line.EndsCrLf

/-- The log after a start of the gateway and lines with these bodies. -/
def logOf (bodies : List (List UInt8)) : Pipeline Record :=
  (exec (Pipeline.step (parseLineWithin (some 4300) 900)) (.init Record)
    (.gatewayStart :: bodies.map .append)).getD (.init Record)

/-- A line that is no JSON, between two events. -/
def brokenLine : List UInt8 := encode "\x7b\"ts\":\"2026".toList

/-- A line with an array: `data.get` is an `AttributeError`. -/
def arrayLine : List UInt8 := encode "[]".toList

-- The time is read, and the event cannot be cut.
example : ¬ GoodLine (some 4300) 900
    (encode "\x7b\"ts\":\"2026-09-10T12.345\",\"event\":null\x7d".toList) := by decide +kernel

end LinuxFileManager.Log
