import LinuxFileManager.Lib.Json
import LinuxFileManager.Lib.Utf8
import LinuxFileManager.Log.Pipeline

/-!
# A line of the event log

`log_event_json` (`src/log_json.c` lines 146–195) formats a line with `snprintf`,
and `parse_line` (`test/log_etl.py` lines 57–80) reads it back with `json.loads`.

`localtime_r` is a parameter, with a year from 1970 to 9999, and `write` writes
the whole line. Python is version 3.10, as in the README.

Results:

* `fromisoformat_strftime`: the time of an event is read back.
* `scanNumber_formatInt`: the descriptor is read back.
-/

namespace LinuxFileManager.Log

open Lib Lib.Json

/-! ## Time -/

def isLeap (year : ℕ) : Bool := year % 4 = 0 ∧ (year % 100 ≠ 0 ∨ year % 400 = 0)

def daysInMonth (year month : ℕ) : ℕ :=
  if month = 2 then if isLeap year then 29 else 28
  else if month = 4 ∨ month = 6 ∨ month = 9 ∨ month = 11 then 30
  else 31

/-- The fields of `struct tm` that the format uses, as a clock shows them. -/
structure LocalTime where
  year : ℕ
  month : ℕ
  day : ℕ
  hour : ℕ
  minute : ℕ
  second : ℕ
  year_bounds : 1970 ≤ year ∧ year ≤ 9999
  month_bounds : 1 ≤ month ∧ month ≤ 12
  day_bounds : 1 ≤ day ∧ day ≤ daysInMonth year month
  hour_lt : hour < 24
  minute_lt : minute < 60
  second_lt : second < 60

def twoDigits (n : ℕ) : List Char := [Nat.digitChar (n / 10), Nat.digitChar (n % 10)]

/-- `"%Y-%m-%d"`. -/
def dateOf (year month day : ℕ) : List Char :=
  twoDigits (year / 100) ++ twoDigits (year % 100) ++ ['-'] ++ twoDigits month ++ ['-'] ++ twoDigits day

/-- `"%H:%M:%S"`. -/
def clockOf (hour minute second : ℕ) : List Char :=
  twoDigits hour ++ [':'] ++ twoDigits minute ++ [':'] ++ twoDigits second

/-- `"%Y-%m-%dT%H:%M:%S"`. -/
def strftime (tm : LocalTime) : List Char :=
  dateOf tm.year tm.month tm.day ++ 'T' :: clockOf tm.hour tm.minute tm.second

/-- A `datetime`; the offset from UTC in microseconds, when it has one. -/
structure DateTime where
  year : ℕ
  month : ℕ
  day : ℕ
  hour : ℕ
  minute : ℕ
  second : ℕ
  microsecond : ℕ
  offset : Option ℤ
  deriving DecidableEq

/-- What `datetime` checks. -/
def DateTime.valid (t : DateTime) : Bool :=
  1 ≤ t.year ∧ 1 ≤ t.month ∧ t.month ≤ 12 ∧ 1 ≤ t.day ∧ t.day ≤ daysInMonth t.year t.month ∧
    t.hour < 24 ∧ t.minute < 60 ∧ t.second < 60 ∧ t.offset.all fun o => o.natAbs < 86400000000

/-- The number of `len` digits from position `start` on. -/
def digitsAt (s : Str) (start len : ℕ) : Option ℕ :=
  let field := (s.drop start).take len
  if field.length = len ∧ field.all (fun c => 48 ≤ c ∧ c ≤ 57) then
    some (field.foldl (fun n c => 10 * n + (c - 48)) 0)
  else none

/-- The character `c` at position `i`. -/
def charAt (s : Str) (i : ℕ) (c : Char) : Option Unit := if s[i]? = some c.toNat then some () else none

/-- `.fff` or `.ffffff` without the point, in microseconds. -/
def parseFraction (s : Str) : Option ℕ :=
  if s.length = 6 then digitsAt s 0 6
  else if s.length = 3 then (digitsAt s 0 3).map (1000 * ·)
  else none

/-- The loop of `parse_hh_mm_ss_ff` over up to `n` fields of two digits, and the
    fraction: the fields, the microseconds, and whether the string goes on. The
    character behind `s` is `next`. The end is looked for one character behind a field,
    and a point, or a colon behind the last field, is followed by a fraction. -/
def parseFields (next : ℕ) : ℕ → Str → Option (List ℕ × ℕ × Bool)
  | 0, s => (parseFraction s).map fun fraction => ([], fraction, next ≠ 0)
  | n + 1, s =>
    (digitsAt s 0 2).bind fun field =>
      match s.drop 2 with
      | [] => some ([field], 0, next ≠ 0)
      | c :: rest =>
        if rest = [] ∧ c < 0x80 then some ([field], 0, c ≠ 0)
        else if c = ':'.toNat then (parseFields next n rest).map fun r => (field :: r.1, r.2)
        else if c = '.'.toNat then
          (parseFraction rest).map fun fraction => ([field], fraction, next ≠ 0)
        else none

/-- What `parse_hh_mm_ss_ff` stores and returns. -/
structure Clock where
  hour : ℕ
  minute : ℕ
  second : ℕ
  microsecond : ℕ
  /-- It returns 1: a character that is not NUL is behind what it has read. -/
  more : Bool

/-- `parse_hh_mm_ss_ff` on a string `s` with the character `next` behind it. -/
def parseClock (next : ℕ) (s : Str) : Option Clock :=
  (parseFields next 3 s).map fun (fields, microsecond, more) =>
    ⟨fields.getD 0 0, fields.getD 1 0, fields.getD 2 0, microsecond, more⟩

def isSign (c : ℕ) : Bool := c = '+'.toNat ∨ c = '-'.toNat

/-- `+HH:MM[:SS[.ffffff]]`, in microseconds; nothing is no offset. Zero seconds are
    UTC, whatever the fraction is. -/
def parseOffset : Str → Option (Option ℤ)
  | [] => some none
  | sign :: s =>
    if s.length = 5 ∨ s.length = 8 ∨ s.length = 15 then
      (parseClock 0 s).bind fun clock =>
        let seconds := (clock.hour * 60 + clock.minute) * 60 + clock.second
        if clock.more then none
        else if seconds = 0 then some (some 0)
        else some (some (signed (sign = '-'.toNat) (seconds * 1000000 + clock.microsecond)))
    else none

/-- `YYYY-MM-DD` at the start: year, month and day. -/
def parseDate (s : Str) : Option (ℕ × ℕ × ℕ) := do
  let year ← digitsAt s 0 4
  charAt s 4 '-'
  let month ← digitsAt s 5 2
  charAt s 7 '-'
  let day ← digitsAt s 8 2
  return (year, month, day)

/-- `parse_isoformat_time` on what is behind the date: nothing, or any character, a
    clock and an offset. Without an offset, nothing may be behind the clock. -/
def parseTime : Str → Option (Clock × Option ℤ)
  | [] => some (⟨0, 0, 0, 0, false⟩, none)
  | _ :: s =>
    let zone := s.dropWhile fun c => !isSign c
    (parseClock (zone.headD 0) (s.takeWhile fun c => !isSign c)).bind fun clock =>
      if zone = [] ∧ clock.more then none
      else (parseOffset zone).map fun offset => (clock, offset)

/-- `datetime.fromisoformat`; `none` is `ValueError`. -/
def fromisoformat (s : Str) : Option DateTime :=
  (parseDate s).bind fun (year, month, day) =>
    (parseTime (s.drop 10)).bind fun (clock, offset) =>
      let t : DateTime :=
        ⟨year, month, day, clock.hour, clock.minute, clock.second, clock.microsecond, offset⟩
      if t.valid then some t else none

/-! ## `log_event_json` -/

/-- The bytes of a C string. -/
structure CString where
  bytes : List UInt8
  noNul : 0 ∉ bytes

/-- `s ? s : ""`. -/
def bytesOf (s : Option CString) : List UInt8 :=
  match s with
  | some s => s.bytes
  | none => []

/-- `%d`. -/
def formatInt (n : ℤ) : List Char :=
  if n < 0 then '-' :: Nat.toDigits 10 n.natAbs else Nat.toDigits 10 n.natAbs

def tsPiece : List Char := "\x7b\"ts\":\"".toList
def eventPiece : List Char := "\",\"event\":\"".toList
def ipPiece : List Char := "\",\"ip\":\"".toList
def fdPiece : List Char := "\",\"fd\":".toList
def detailPiece : List Char := ",\"detail\":\"".toList
def endPiece : List Char := "\"\x7d".toList

/-- What `snprintf` formats, without the line feed at its end. -/
def lineBody (tm : LocalTime) (event clientIp : Option CString) (fd : Int32)
    (detail : Option CString) : List UInt8 :=
  encode tsPiece ++ encode (strftime tm) ++ encode eventPiece ++ bytesOf event ++
    encode ipPiece ++ bytesOf clientIp ++ encode fdPiece ++ encode (formatInt fd.toInt) ++
    encode detailPiece ++ bytesOf detail ++ encode endPiece

/-- `char buffer[512]`. -/
def bufferSize : ℕ := 512

/-- `log_event_json`: what it writes, if anything. -/
def logEventJson (jsonInitialized : Bool) (tm : LocalTime) (event clientIp : Option CString)
    (fd : Int32) (detail : Option CString) : Option (List UInt8) :=
  if ¬ jsonInitialized then none
  else
    let buffer := lineBody tm event clientIp fd detail ++ [lf]
    if buffer.length ≤ 0 ∨ bufferSize ≤ buffer.length then none else some buffer

/-! ## `parse_line` -/

/-- `str.isspace` of a character. -/
def isSpace (c : Char) : Bool :=
  let n := c.toNat
  (9 ≤ n ∧ n ≤ 13) ∨ (0x1C ≤ n ∧ n ≤ 0x20) ∨ n = 0x85 ∨ n = 0xA0 ∨ n = 0x1680 ∨
    (0x2000 ≤ n ∧ n ≤ 0x200A) ∨ n = 0x2028 ∨ n = 0x2029 ∨ n = 0x202F ∨ n = 0x205F ∨ n = 0x3000

/-- `str.strip()`. -/
def strip (text : List Char) : List Char := (text.dropWhile isSpace).rdropWhile isSpace

/-- `bool(v)`. A float is false when it is rounded to zero. -/
def truthy : Value → Bool
  | .null => false
  | .bool b => b
  | .int n => n ≠ 0
  | .float _ mantissa exponent => 1 / (2 : ℚ) ^ 1075 < mantissa * (10 : ℚ) ^ exponent
  | .nan => true
  | .infinity _ => true
  | .str s => s ≠ []
  | .arr elems => ¬ elems.isEmpty
  | .obj members => ¬ members.isEmpty

/-- The tuple of `parse_line`. The time is `none` when it is `datetime.now()`. -/
structure Record where
  eventTime : Option DateTime
  event : Value
  clientIp : Value
  fd : Value
  detail : Value

/-- `v[:n]`; `none` is `TypeError`. -/
def slice (n : ℕ) : Value → Option Value
  | .str s => some (.str (s.take n))
  | .arr elems => some (.arr (elems.take n))
  | _ => none

/-- `event_time` from `data.get('ts', '')`. -/
def eventTime (ts : Value) : Parsed (Option DateTime) :=
  if truthy ts then
    match ts with
    | .str s =>
      match fromisoformat s with
      | some t => .record (some t)
      | none => .skipped
    | _ => .raised
  else .record none

/-- The tuple from the members of `data`. -/
def recordOf (data : List (Str × Value)) : Parsed Record :=
  match eventTime ((lookup data (codes "ts".toList)).getD (.str [])) with
  | .skipped => .skipped
  | .raised => .raised
  | .record time =>
    let event := (lookup data (codes "event".toList)).getD (.str (codes "unknown".toList))
    let ip := (lookup data (codes "ip".toList)).getD (.str [])
    let fd := (lookup data (codes "fd".toList)).getD (.int 0)
    let detail := (lookup data (codes "detail".toList)).getD (.str [])
    match slice 50 event, slice 45 ip, slice 255 detail with
    | some event, some ip, some detail => .record ⟨time, event, ip, fd, detail⟩
    | _, _, _ => .raised

/-- `parse_line`. The exceptions that it does not catch are `raised`. -/
def parseText (text : List Char) : Parsed Record :=
  let line := strip text
  if line = [] then .skipped
  else
    match loads line with
    | none => .skipped
    | some (.obj data) => recordOf data
    | some _ => .raised

/-- `parse_line` on the bytes of a line, which the iteration over the file decodes. -/
def parseLine (line : List UInt8) : Parsed Record :=
  match decode line with
  | none => .raised
  | some text => parseText text

/-! ## The time is read back -/

theorem toNat_digitChar : ∀ {d : ℕ}, d < 10 → (Nat.digitChar d).toNat = 48 + d := by
  decide

theorem codes_twoDigits {n : ℕ} (hn : n < 100) : codes (twoDigits n) = [48 + n / 10, 48 + n % 10] := by
  show [(Nat.digitChar (n / 10)).toNat, (Nat.digitChar (n % 10)).toNat] = _
  rw [toNat_digitChar (by omega), toNat_digitChar (by omega)]

theorem digitsAt_two {s : Str} {start n : ℕ} (hn : n < 100)
    (h : (s.drop start).take 2 = [48 + n / 10, 48 + n % 10]) : digitsAt s start 2 = some n := by
  have hall : [48 + n / 10, 48 + n % 10].all (fun c => 48 ≤ c ∧ c ≤ 57) = true := by
    simp only [List.all_cons, List.all_nil, Bool.and_true, Bool.and_eq_true, decide_eq_true_eq]
    omega
  simp only [digitsAt, h, hall, List.length_cons, List.length_nil, and_self, if_true, List.foldl_cons,
    List.foldl_nil, Option.some.injEq]
  omega

theorem digitsAt_four {s : Str} {start n m : ℕ} (hn : n < 100) (hm : m < 100)
    (h : (s.drop start).take 4 = [48 + n / 10, 48 + n % 10, 48 + m / 10, 48 + m % 10]) :
    digitsAt s start 4 = some (100 * n + m) := by
  have hall : [48 + n / 10, 48 + n % 10, 48 + m / 10, 48 + m % 10].all
      (fun c => 48 ≤ c ∧ c ≤ 57) = true := by
    simp only [List.all_cons, List.all_nil, Bool.and_true, Bool.and_eq_true, decide_eq_true_eq]
    omega
  simp only [digitsAt, h, hall, List.length_cons, List.length_nil, and_self, if_true, List.foldl_cons,
    List.foldl_nil, Option.some.injEq]
  omega

theorem daysInMonth_le (year month : ℕ) : daysInMonth year month ≤ 31 := by
  unfold daysInMonth
  split_ifs <;> omega

/-- The time of an event. -/
def LocalTime.toDateTime (tm : LocalTime) : DateTime :=
  ⟨tm.year, tm.month, tm.day, tm.hour, tm.minute, tm.second, 0, none⟩

theorem LocalTime.valid_toDateTime (tm : LocalTime) : tm.toDateTime.valid = true := by
  have hyear := tm.year_bounds
  have hfirst : 1 ≤ tm.year := by omega
  exact decide_eq_true ⟨hfirst, tm.month_bounds.1, tm.month_bounds.2, tm.day_bounds.1, tm.day_bounds.2,
    tm.hour_lt, tm.minute_lt, tm.second_lt, rfl⟩

theorem codes_clockOf {hour minute second : ℕ} (hh : hour < 100) (hm : minute < 100)
    (hs : second < 100) :
    codes (clockOf hour minute second) =
      [48 + hour / 10, 48 + hour % 10, 58, 48 + minute / 10, 48 + minute % 10, 58, 48 + second / 10,
        48 + second % 10] := by
  simp only [clockOf, codes_append, codes_twoDigits hh, codes_twoDigits hm, codes_twoDigits hs]
  rfl

theorem parseClock_clockOf {hour minute second : ℕ} (hh : hour < 100) (hm : minute < 100)
    (hs : second < 100) :
    parseClock 0 (codes (clockOf hour minute second)) = some ⟨hour, minute, second, 0, false⟩ := by
  have hsecond : parseFields 0 1 [48 + second / 10, 48 + second % 10] = some ([second], 0, false) := by
    rw [parseFields, digitsAt_two hs rfl]
    rfl
  have hminute : parseFields 0 2 [48 + minute / 10, 48 + minute % 10, 58, 48 + second / 10,
      48 + second % 10] = some ([minute, second], 0, false) := by
    rw [parseFields, digitsAt_two hm rfl]
    show (parseFields 0 1 [48 + second / 10, 48 + second % 10]).map _ = _
    rw [hsecond]
    rfl
  rw [codes_clockOf hh hm hs, parseClock, parseFields, digitsAt_two hh rfl]
  show ((parseFields 0 2 _).map _).map _ = _
  rw [hminute]
  rfl

theorem parseTime_clockOf {hour minute second : ℕ} (hh : hour < 100) (hm : minute < 100)
    (hs : second < 100) (sep : ℕ) :
    parseTime (sep :: codes (clockOf hour minute second)) =
      some (⟨hour, minute, second, 0, false⟩, none) := by
  have hsign : ∀ c ∈ codes (clockOf hour minute second), (!isSign c) = true := by
    intro c hc
    rw [codes_clockOf hh hm hs] at hc
    simp only [List.mem_cons, List.not_mem_nil, or_false] at hc
    have hplus : '+'.toNat = 43 := rfl
    have hminus : '-'.toNat = 45 := rfl
    rw [isSign, hplus, hminus, decide_eq_false (by omega), Bool.not_false]
  rw [parseTime]
  simp only [List.takeWhile_eq_self_iff.mpr hsign, List.dropWhile_eq_nil_iff.mpr hsign]
  show (parseClock 0 _).bind _ = _
  rw [parseClock_clockOf hh hm hs]
  rfl

theorem codes_dateOf {year month day : ℕ} (hy : year < 10000) (hm : month < 100) (hd : day < 100) :
    codes (dateOf year month day) =
      [48 + year / 100 / 10, 48 + year / 100 % 10, 48 + year % 100 / 10, 48 + year % 100 % 10, 45,
        48 + month / 10, 48 + month % 10, 45, 48 + day / 10, 48 + day % 10] := by
  have hhigh : year / 100 < 100 := by omega
  have hlow : year % 100 < 100 := by omega
  simp only [dateOf, codes_append, codes_twoDigits hhigh, codes_twoDigits hlow, codes_twoDigits hm,
    codes_twoDigits hd]
  rfl

theorem parseDate_dateOf {year month day : ℕ} (hy : year < 10000) (hm : month < 100) (hd : day < 100)
    (rest : Str) : parseDate (codes (dateOf year month day) ++ rest) = some (year, month, day) := by
  have hhigh : year / 100 < 100 := by omega
  have hlow : year % 100 < 100 := by omega
  have hyears : 100 * (year / 100) + year % 100 = year := Nat.div_add_mod ..
  rw [codes_dateOf hy hm hd, parseDate, digitsAt_four hhigh hlow rfl, hyears, digitsAt_two hm rfl,
    digitsAt_two hd rfl]
  rfl

/-- `datetime.fromisoformat` reads the time back that `strftime` has written. -/
theorem fromisoformat_strftime (tm : LocalTime) :
    fromisoformat (codes (strftime tm)) = some tm.toDateTime := by
  have hyear := tm.year_bounds
  have hmonth := tm.month_bounds
  have hday := tm.day_bounds.2.trans (daysInMonth_le tm.year tm.month)
  have hhour := tm.hour_lt
  have hminute := tm.minute_lt
  have hsecond := tm.second_lt
  have hcodes : codes (strftime tm) = codes (dateOf tm.year tm.month tm.day) ++
      84 :: codes (clockOf tm.hour tm.minute tm.second) := codes_append ..
  have hlen : (codes (dateOf tm.year tm.month tm.day)).length = 10 := by
    rw [codes_dateOf (by omega) (by omega) (by omega)]
    rfl
  rw [hcodes, fromisoformat, parseDate_dateOf (by omega) (by omega) (by omega),
    List.drop_left' hlen, Option.bind_some,
    parseTime_clockOf (by omega) (by omega) (by omega)]
  exact if_pos tm.valid_toDateTime

-- CPython takes a fraction behind any field, and a colon in place of its point.
example : fromisoformat (codes "2026-09-10T12.345".toList) =
    some ⟨2026, 9, 10, 12, 0, 0, 345000, none⟩ := by decide
example : fromisoformat (codes "2026-09-10T12:34:56:789".toList) =
    some ⟨2026, 9, 10, 12, 34, 56, 789000, none⟩ := by decide

/-- An ASCII character that stands for itself in a string literal. -/
def PlainAscii (c : Char) : Prop := PlainChar c ∧ c.toNat < 0x80

theorem plain_twoDigits {n : ℕ} (hn : n < 100) : ∀ c ∈ twoDigits n, PlainAscii c := by
  have hdigit : ∀ d < 10, PlainAscii (Nat.digitChar d) := by
    unfold PlainAscii PlainChar
    decide
  rw [twoDigits, List.forall_mem_cons, List.forall_mem_singleton]
  exact ⟨hdigit _ (by omega), hdigit _ (by omega)⟩

theorem plain_strftime (tm : LocalTime) : ∀ c ∈ strftime tm, PlainAscii c := by
  have hyear := tm.year_bounds
  have hmonth := tm.month_bounds
  have hday := tm.day_bounds.2.trans (daysInMonth_le tm.year tm.month)
  have hhour := tm.hour_lt
  have hminute := tm.minute_lt
  have hsecond := tm.second_lt
  have hmark (c : Char) (hc : c = '-' ∨ c = ':' ∨ c = 'T') : PlainAscii c := by
    unfold PlainAscii PlainChar
    rcases hc with rfl | rfl | rfl <;> decide
  have hdate : ∀ c ∈ dateOf tm.year tm.month tm.day, PlainAscii c := by
    simp only [dateOf, List.forall_mem_append, List.forall_mem_singleton]
    exact ⟨⟨⟨⟨⟨plain_twoDigits (by omega), plain_twoDigits (by omega)⟩, hmark _ (.inl rfl)⟩,
      plain_twoDigits (by omega)⟩, hmark _ (.inl rfl)⟩, plain_twoDigits (by omega)⟩
  have hclock : ∀ c ∈ clockOf tm.hour tm.minute tm.second, PlainAscii c := by
    simp only [clockOf, List.forall_mem_append, List.forall_mem_singleton]
    exact ⟨⟨⟨⟨plain_twoDigits (by omega), hmark _ (.inr (.inl rfl))⟩, plain_twoDigits (by omega)⟩,
      hmark _ (.inr (.inl rfl))⟩, plain_twoDigits (by omega)⟩
  rw [strftime, List.forall_mem_append, List.forall_mem_cons]
  exact ⟨hdate, hmark _ (.inr (.inr rfl)), hclock⟩

/-! ## The descriptor is read back -/

theorem toDigits_eq_cons {n : ℕ} (hn : 0 < n) :
    ∃ c cs, Nat.toDigits 10 n = c :: cs ∧ c ≠ '0' := by
  induction n using Nat.strong_induction_on with
  | _ n ih =>
    by_cases hlt : n < 10
    · have hdigit : ∀ d < 10, 0 < d → Nat.digitChar d ≠ '0' := by decide
      exact ⟨Nat.digitChar n, [], Nat.toDigits_of_lt_base hlt, hdigit n hlt hn⟩
    · obtain ⟨c, cs, hcs, hc⟩ := ih (n / 10) (by omega) (by omega)
      rw [Nat.toDigits_of_base_le (by decide) (by omega), hcs]
      exact ⟨c, _, rfl, hc⟩

theorem isDigit_toDigits {n : ℕ} : ∀ c ∈ Nat.toDigits 10 n, c.isDigit = true :=
  fun _ hc => Nat.isDigit_of_mem_toDigits (by decide) (by decide) hc

theorem spanDigits_toDigits (n : ℕ) (rest : List Char) :
    spanDigits (Nat.toDigits 10 n ++ ',' :: rest) = (Nat.toDigits 10 n, ',' :: rest) := by
  rw [spanDigits, List.takeWhile_append_of_pos isDigit_toDigits,
    List.dropWhile_append_of_pos isDigit_toDigits]
  simp [Char.isDigit]

theorem scanWhole_toDigits (n : ℕ) (rest : List Char) :
    scanWhole (Nat.toDigits 10 n ++ ',' :: rest) = some (Nat.toDigits 10 n, ',' :: rest) := by
  rcases Nat.eq_zero_or_pos n with rfl | hn
  · rfl
  · have hspan := spanDigits_toDigits n rest
    have hdigits := isDigit_toDigits (n := n)
    obtain ⟨c, cs, hcs, hc⟩ := toDigits_eq_cons hn
    rw [hcs, List.cons_append] at hspan ⊢
    rw [hcs] at hdigits
    rw [scanWhole, if_neg hc, if_pos (hdigits c List.mem_cons_self), hspan]

theorem scanMinus_of_ne {c : Char} (hc : c ≠ '-') (cs : List Char) :
    scanMinus (c :: cs) = (false, c :: cs) := by
  unfold scanMinus
  split
  · rename_i heq
    exact absurd (List.cons.inj heq).1 hc
  · rfl

/-- `json.loads` reads the number back that `%d` has written. -/
theorem scanNumber_formatInt (n : ℤ) (rest : List Char) :
    scanNumber (formatInt n ++ ',' :: rest) = some (.int n, ',' :: rest) := by
  have hwhole := scanWhole_toDigits n.natAbs rest
  have hvalue (negative : Bool) :
      numberValue negative (Nat.toDigits 10 n.natAbs) [] (false, []) =
        .int (signed negative n.natAbs) := by
    rw [numberValue, if_pos ⟨rfl, rfl⟩, Nat.ofDigitChars_ten_toDigits]
  have hscan (negative : Bool) (hn : signed negative n.natAbs = n)
      (hsign : scanMinus (formatInt n ++ ',' :: rest) =
        (negative, Nat.toDigits 10 n.natAbs ++ ',' :: rest)) :
      scanNumber (formatInt n ++ ',' :: rest) = some (.int n, ',' :: rest) := by
    simp only [scanNumber, hsign, hwhole, Option.map_some]
    show some (numberValue negative _ [] (false, []), _) = _
    rw [hvalue, hn]
    rfl
  by_cases hneg : n < 0
  · refine hscan true ?_ ?_
    · rw [signed, if_pos rfl]
      omega
    · rw [formatInt, if_pos hneg]
      rfl
  · refine hscan false ?_ ?_
    · rw [signed, if_neg (by decide)]
      omega
    · rw [formatInt, if_neg hneg]
      obtain ⟨c, cs, hcs⟩ := List.exists_cons_of_ne_nil (Nat.toDigits_ne_nil (n := n.natAbs) (b := 10))
      have hdigit := isDigit_toDigits (n := n.natAbs)
      rw [hcs] at hdigit ⊢
      have hc : c ≠ '-' := by
        rintro rfl
        cases hdigit _ List.mem_cons_self
      exact scanMinus_of_ne hc _

theorem formatInt_eq_cons (n : ℤ) :
    ∃ c cs, formatInt n = c :: cs ∧
      (c.isDigit = true ∨ c = '-' ∧ ∃ d ds, cs = d :: ds ∧ d.isDigit = true) := by
  obtain ⟨d, ds, hds⟩ := List.exists_cons_of_ne_nil (Nat.toDigits_ne_nil (n := n.natAbs) (b := 10))
  have hdigit : d.isDigit = true := isDigit_toDigits d (by rw [hds]; exact List.mem_cons_self)
  unfold formatInt
  split_ifs
  · exact ⟨'-', _, rfl, .inr ⟨rfl, d, ds, hds, hdigit⟩⟩
  · exact ⟨d, ds, hds, .inl hdigit⟩

theorem plain_formatInt (n : ℤ) : ∀ c ∈ formatInt n, PlainAscii c := by
  have hdigits : ∀ c ∈ Nat.toDigits 10 n.natAbs, PlainAscii c := by
    intro c hc
    have hdigit := isDigit_toDigits c hc
    simp only [Char.isDigit, ge_iff_le, Bool.and_eq_true, decide_eq_true_eq] at hdigit
    have hlow : 48 ≤ c.toNat := hdigit.1
    have hhigh : c.toNat ≤ 57 := hdigit.2
    refine ⟨⟨?_, ?_, by omega⟩, by omega⟩
    · rintro rfl
      exact absurd hlow (by decide)
    · rintro rfl
      exact absurd hhigh (by decide)
  unfold formatInt
  split_ifs
  · rw [List.forall_mem_cons]
    exact ⟨by unfold PlainAscii PlainChar; decide, hdigits⟩
  · exact hdigits

/-! ## An event -/

/-- 2026-09-10, 18:20:01. -/
def evening : LocalTime :=
  ⟨2026, 9, 10, 18, 20, 1, by decide, by decide, by decide, by decide, by decide, by decide⟩

/-- The C string of an ASCII text. -/
def cString (text : List Char) (h : 0 ∉ encode text) : Option CString := some ⟨encode text, h⟩

def sensorData : Option CString := cString "sensor_data".toList (by decide)
def deviceIp : Option CString := cString "10.0.0.7".toList (by decide)
def received : Option CString := cString "received".toList (by decide)

/-- The body of its line. -/
def sensorBody : List UInt8 := lineBody evening sensorData deviceIp 6 received

example : logEventJson true evening sensorData deviceIp 6 received = some (sensorBody ++ [lf]) := rfl

/-- A run of `log_etl.py` over one line, up to the commit of its row. -/
def commitLine : List EtlAction :=
  [.start, .readOffset false, .checkSize, .openLog, .nextLine, .endOfFile, .commit]

/-- A run over one line, up to its end. -/
def importLine : List EtlAction := commitLine ++ [.openOffset, .writeOffset]

end LinuxFileManager.Log
