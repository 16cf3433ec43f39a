import LinuxFileManager.Log.Event

/-!
# The round trip of a line

`log_event_json` puts the fields of an event between quotation marks without any
escapes. `roundTrips_iff` says which events `parse_line` gets back: those whose
fields, as contents of JSON strings, stand for themselves in the characters that
are kept.

Results:

* `loads_textBody`: what `json.loads` makes of a line whose fields have no
  quotation mark that ends them.
* `quiet_of_lex`: with as many quotation marks as `log_event_json` writes itself,
  the fields have none.
* `roundTrips_iff`: the condition.
* `survives_iff_plain`: for a field that is not cut, the condition is that it has
  no quotation mark, no backslash and no control character.
-/

namespace LinuxFileManager.Log

open Lib Lib.Json

/-! ## Specification -/

/-- The names in a line. -/
def memberNames : List Str :=
  [codes "ts".toList, codes "event".toList, codes "ip".toList, codes "fd".toList, codes "detail".toList]

/-- The value is the text of the field, cut to `n` characters. -/
def CutTo (n : ℕ) (field : List UInt8) (v : Value) : Prop :=
  ∃ text, decode field = some text ∧ v = .str ((codes text).take n)

/-- The line is one line and a JSON object with the five members, and `parse_line`
    gets the fields back from it. -/
structure RoundTrip (event clientIp : Option CString) (fd : Int32) (detail : Option CString)
    (line : List UInt8) : Prop where
  one_line : ∃ body, line = body ++ [lf] ∧ lf ∉ body
  members : ∃ text members, decode line = some text ∧ loads (strip text) = some (.obj members) ∧
    members.map Prod.fst = memberNames
  record : ∃ r, parseLine line = .record r ∧ CutTo 50 (bytesOf event) r.event ∧
    CutTo 45 (bytesOf clientIp) r.clientIp ∧ r.fd = .int fd.toInt ∧ CutTo 255 (bytesOf detail) r.detail

/-- `log_event_json` writes nothing, or a line with a round trip. -/
def RoundTrips (jsonInitialized : Bool) (tm : LocalTime) (event clientIp : Option CString) (fd : Int32)
    (detail : Option CString) : Prop :=
  ∀ line, logEventJson jsonInitialized tm event clientIp fd detail = some line →
    RoundTrip event clientIp fd detail line

/-- The field is a text that stands, between quotation marks, for a text with the same
    first `n` characters. -/
def Survives (n : ℕ) (field : List UInt8) : Prop :=
  ∃ text s, decode field = some text ∧ unquote text = some s ∧ s.take n = (codes text).take n

/-- The bytes of a line. -/
def lineLength (event clientIp : Option CString) (fd : Int32) (detail : Option CString) : ℕ :=
  66 + (bytesOf event).length + (bytesOf clientIp).length + (formatInt fd.toInt).length +
    (bytesOf detail).length

/-! ## The text of a line -/

/-- The text of a line, without the line feed. -/
def textBody (tm : LocalTime) (event clientIp : List Char) (fd : ℤ) (detail : List Char) : List Char :=
  tsPiece ++ strftime tm ++ eventPiece ++ event ++ ipPiece ++ clientIp ++ fdPiece ++ formatInt fd ++
    detailPiece ++ detail ++ endPiece

theorem lineBody_eq_encode (tm : LocalTime) {event clientIp detail : Option CString} {e i d : List Char}
    (he : bytesOf event = encode e) (hi : bytesOf clientIp = encode i)
    (hd : bytesOf detail = encode d) (fd : Int32) :
    lineBody tm event clientIp fd detail = encode (textBody tm e i fd.toInt d) := by
  simp only [lineBody, textBody, encode_append, he, hi, hd]

/-- A line is a text when its fields are. -/
theorem decode_line {tm : LocalTime} {event clientIp detail : Option CString} {fd : Int32}
    {text : List Char} (h : decode (lineBody tm event clientIp fd detail ++ [lf]) = some text) :
    ∃ e i d, decode (bytesOf event) = some e ∧ decode (bytesOf clientIp) = some i ∧
      decode (bytesOf detail) = some d ∧ text = textBody tm e i fd.toInt d ++ ['\n'] := by
  have hline : lineBody tm event clientIp fd detail ++ [lf] =
      encode (tsPiece ++ strftime tm ++ eventPiece) ++ (bytesOf event ++ encode ipPiece ++
        (bytesOf clientIp ++ encode (fdPiece ++ formatInt fd.toInt ++ detailPiece) ++
          (bytesOf detail ++ encode (endPiece ++ ['\n']) ++ []))) := by
    have hlf : encode ['\n'] = [lf] := rfl
    simp only [lineBody, encode_append, hlf, List.append_assoc, List.append_nil]
  rw [hline, decode_encode_append] at h
  obtain ⟨t1, h1, rfl⟩ := Option.map_eq_some_iff.mp h
  have hquote : '"'.toNat < 0x80 := by decide
  obtain ⟨e, t2, he, h2, rfl⟩ := decode_append_ascii (c := '"') rfl hquote h1
  obtain ⟨i, t3, hi, h3, rfl⟩ := decode_append_ascii (c := '"') rfl hquote h2
  obtain ⟨d, t4, hd, h4, rfl⟩ := decode_append_ascii (c := '"') rfl hquote h3
  cases Option.some.inj (h4.symm.trans (decode_encode []))
  refine ⟨e, i, d, he, hi, hd, ?_⟩
  simp only [textBody, List.append_assoc, List.append_nil]

/-- A member whose value is a string. -/
def stringMember (name : String) (content rest : List Char) : List Char :=
  '"' :: (name.toList ++ '"' :: ':' :: '"' :: (content ++ '"' :: rest))

/-- A member whose value is a number. -/
def intMember (name : String) (n : ℤ) (rest : List Char) : List Char :=
  '"' :: (name.toList ++ '"' :: ':' :: (formatInt n ++ rest))

theorem textBody_eq (tm : LocalTime) (e i : List Char) (fd : ℤ) (d : List Char) :
    textBody tm e i fd d =
      '{' :: stringMember "ts" (strftime tm) (',' :: stringMember "event" e (',' ::
        stringMember "ip" i (',' :: intMember "fd" fd (',' :: stringMember "detail" d ['}'])))) := by
  have hts : tsPiece = '{' :: '"' :: ("ts".toList ++ ['"', ':', '"']) := rfl
  have hevent : eventPiece = '"' :: ',' :: '"' :: ("event".toList ++ ['"', ':', '"']) := rfl
  have hip : ipPiece = '"' :: ',' :: '"' :: ("ip".toList ++ ['"', ':', '"']) := rfl
  have hfd : fdPiece = '"' :: ',' :: '"' :: ("fd".toList ++ ['"', ':']) := rfl
  have hdetail : detailPiece = ',' :: '"' :: ("detail".toList ++ ['"', ':', '"']) := rfl
  have hend : endPiece = ['"', '}'] := rfl
  simp only [textBody, stringMember, intMember, hts, hevent, hip, hfd, hdetail, hend, List.append_assoc,
    List.cons_append, List.nil_append]

/-! ### `strip` -/

theorem strip_textBody (tm : LocalTime) (e i : List Char) (fd : ℤ) (d : List Char) :
    strip (textBody tm e i fd d ++ ['\n']) = textBody tm e i fd d := by
  obtain ⟨tail, htail⟩ : ∃ tail, textBody tm e i fd d = '{' :: tail := ⟨_, textBody_eq ..⟩
  obtain ⟨init, hinit⟩ : ∃ init, textBody tm e i fd d = init ++ ['}'] := by
    have hpiece : endPiece = ['"'] ++ ['}'] := rfl
    rw [textBody, hpiece, ← List.append_assoc]
    exact ⟨_, rfl⟩
  have hlead : (textBody tm e i fd d ++ ['\n']).dropWhile isSpace = textBody tm e i fd d ++ ['\n'] := by
    rw [htail, List.cons_append, List.dropWhile_cons_of_neg (by decide)]
  rw [strip, hlead, List.rdropWhile_concat_pos _ _ _ (by decide), hinit]
  exact List.rdropWhile_concat_neg _ _ _ (by decide)

/-! ### `json.loads` -/

theorem parseMember_stringMember {name : String} (hname : unquote name.toList = some (codes name.toList))
    {content : List Char} (h : Quiet content) {n : ℕ} {rest : List Char} :
    parseMember (parseValue (n + 1)) (stringMember name content rest) =
      ((unquote content).map fun s => (codes name.toList, Value.str s)).map (·, rest) := by
  have hskip : skipWs ('"' :: (content ++ '"' :: rest)) = '"' :: (content ++ '"' :: rest) := rfl
  rw [stringMember, parseMember_name hname, hskip, parseValue_string h, Option.map_map, Option.map_map]
  rfl

theorem parseValue_formatInt (n : ℕ) (fd : ℤ) (rest : List Char) :
    parseValue (n + 1) (skipWs (formatInt fd ++ ',' :: rest)) = some (.int fd, ',' :: rest) := by
  have hnumber := scanNumber_formatInt fd rest
  obtain ⟨c, cs, hcs, hc⟩ := formatInt_eq_cons fd
  rw [hcs, List.cons_append] at hnumber ⊢
  have hne (x : Char) (hx : x.isDigit = false) (hminus : x ≠ '-') : c ≠ x := by
    rintro rfl
    rcases hc with hdigit | ⟨hc, -⟩
    · cases hx.symm.trans hdigit
    · exact hminus hc
  have hspace : isWs c = false := by
    simp only [isWs, Bool.or_eq_false_iff, beq_eq_false_iff_ne]
    exact ⟨⟨⟨hne ' ' rfl (by decide), hne '\t' rfl (by decide)⟩, hne '\n' rfl (by decide)⟩,
      hne '\r' rfl (by decide)⟩
  have hword : scanWord (c :: (cs ++ ',' :: rest)) = none := by
    have hn : c ≠ 'n' := hne 'n' rfl (by decide)
    have ht : c ≠ 't' := hne 't' rfl (by decide)
    have hf : c ≠ 'f' := hne 'f' rfl (by decide)
    have hN : c ≠ 'N' := hne 'N' rfl (by decide)
    have hI : c ≠ 'I' := hne 'I' rfl (by decide)
    rcases hc with hdigit | ⟨rfl, d, ds, rfl, hdigit⟩
    · have hminus : c ≠ '-' := by
        rintro rfl
        cases hdigit
      simp [scanWord, words, List.dropPrefix?, hn, ht, hf, hN, hI, hminus]
    · have hd : d ≠ 'I' := by
        rintro rfl
        cases hdigit
      simp [scanWord, words, List.dropPrefix?, hd]
  rw [skipWs, List.dropWhile_cons_of_neg (by simp [hspace]), parseValue,
    if_neg (hne '"' rfl (by decide)), if_neg (hne '{' rfl (by decide)),
    if_neg (hne '[' rfl (by decide)), hword, Option.none_or, hnumber]

theorem parseMember_intMember {name : String} (hname : unquote name.toList = some (codes name.toList))
    {n : ℕ} {fd : ℤ} {rest : List Char} :
    parseMember (parseValue (n + 1)) (intMember name fd (',' :: rest)) =
      (some (codes name.toList, Value.int fd)).map (·, ',' :: rest) := by
  rw [intMember, parseMember_name hname, parseValue_formatInt]
  rfl

theorem unquote_strftime (tm : LocalTime) : unquote (strftime tm) = some (codes (strftime tm)) :=
  unquote_plain fun c hc => (plain_strftime tm c hc).1

/-- The members of a line whose strings stand for `e`, `i` and `d`. -/
def dataOf (tm : LocalTime) (e i : Str) (fd : ℤ) (d : Str) : List (Str × Value) :=
  [(codes "ts".toList, .str (codes (strftime tm))), (codes "event".toList, .str e),
    (codes "ip".toList, .str i), (codes "fd".toList, .int fd), (codes "detail".toList, .str d)]

section

variable {name : String} (hname : unquote name.toList = some (codes name.toList)) (n m : ℕ)
include hname

theorem parseItems_stringMember {content : List Char} (h : Quiet content) (rest : List Char) :
    parseItems (parseMember (parseValue (n + 1))) '}' (m + 1) (stringMember name content (',' :: rest)) =
      (unquote content).bind fun s =>
        (parseItems (parseMember (parseValue (n + 1))) '}' m (skipWs rest)).map fun r =>
          ((codes name.toList, .str s) :: r.1, r.2) := by
  have hclose : '}' ≠ ',' := by decide
  rw [parseItems_next (parseMember_stringMember hname h) hclose, Option.bind_map]
  rfl

theorem parseItems_intMember (fd : ℤ) (rest : List Char) :
    parseItems (parseMember (parseValue (n + 1))) '}' (m + 1) (intMember name fd (',' :: rest)) =
      (parseItems (parseMember (parseValue (n + 1))) '}' m (skipWs rest)).map fun r =>
        ((codes name.toList, .int fd) :: r.1, r.2) := by
  have hclose : '}' ≠ ',' := by decide
  rw [parseItems_next (parseMember_intMember hname) hclose, Option.bind_some]

theorem parseItems_stringMember_last {content : List Char} (h : Quiet content) :
    parseItems (parseMember (parseValue (n + 1))) '}' (m + 1) (stringMember name content ['}']) =
      (unquote content).map fun s => ([(codes name.toList, .str s)], []) := by
  rw [parseItems_last (parseMember_stringMember hname h) rfl, Option.map_map]
  rfl

end

theorem skipWs_stringMember (name : String) (content rest : List Char) :
    skipWs (stringMember name content rest) = stringMember name content rest := rfl

theorem skipWs_intMember (name : String) (fd : ℤ) (rest : List Char) :
    skipWs (intMember name fd rest) = intMember name fd rest := rfl

/-- `json.loads` of a line whose fields have no quotation mark that ends them. -/
theorem loads_textBody (tm : LocalTime) {e i d : List Char} (he : Quiet e) (hi : Quiet i) (hd : Quiet d)
    (fd : ℤ) :
    loads (textBody tm e i fd d) =
      (unquote e).bind fun e => (unquote i).bind fun i => (unquote d).map fun d =>
        .obj (dataOf tm e i fd d) := by
  have htime := unquote_strftime tm
  obtain ⟨n, hn⟩ : ∃ n, (textBody tm e i fd d).length = n + 5 := by
    rw [textBody_eq]
    exact ⟨_, rfl⟩
  have hts : unquote "ts".toList = some (codes "ts".toList) := rfl
  have hevent : unquote "event".toList = some (codes "event".toList) := rfl
  have hip : unquote "ip".toList = some (codes "ip".toList) := rfl
  have hfd : unquote "fd".toList = some (codes "fd".toList) := rfl
  have hdetail : unquote "detail".toList = some (codes "detail".toList) := rfl
  have hvalue : parseValue (n + 6) (textBody tm e i fd d) =
      (unquote e).bind fun e => (unquote i).bind fun i => (unquote d).map fun d =>
        (.obj (dataOf tm e i fd d), []) := by
    rw [textBody_eq]
    show Option.map _ (parseItems _ '}' (n + 4 + 1) (skipWs _)) = _
    rw [skipWs_stringMember, parseItems_stringMember hts _ _ (quiet_of_unquote htime), htime,
      skipWs_stringMember, parseItems_stringMember hevent _ _ he,
      skipWs_stringMember, parseItems_stringMember hip _ _ hi,
      skipWs_intMember, parseItems_intMember hfd,
      skipWs_stringMember, parseItems_stringMember_last hdetail _ _ hd]
    cases unquote e <;> cases unquote i <;> cases unquote d <;> rfl
  have hhead : (textBody tm e i fd d).head? ≠ some (Char.ofNat 0xFEFF) := by
    rw [textBody_eq, List.head?_cons]
    decide
  have hskip : skipWs (textBody tm e i fd d) = textBody tm e i fd d := by
    rw [textBody_eq]
    rfl
  rw [loads, if_neg hhead, hskip, hn, hvalue]
  cases unquote e <;> cases unquote i <;> cases unquote d <;> rfl

/-! ### Quotation marks -/

theorem lex_formatInt (n : ℤ) : lex .outside (formatInt n) = some (.outside, 0) := by
  have hquote : '"' ∉ formatInt n := fun hmem => (plain_formatInt n _ hmem).1.1 rfl
  obtain ⟨used, hused, hlex⟩ := lexed_outside hquote []
  rw [List.append_nil, List.append_nil] at hused
  rwa [hused]

/-- What is before the name `ip` ends inside a string. -/
theorem lex_ipPiece {m : Place} {r : Place × ℕ} (h : lex m ipPiece = some r) :
    m = .inside ∧ r = (.inside, 4) := by
  cases m with
  | inside => exact ⟨rfl, (Option.some.inj h).symm⟩
  | outside => cases h
  | escape => cases h
  | closed => cases h

theorem lex_fdPiece {m : Place} {r : Place × ℕ} (h : lex m fdPiece = some r) :
    m = .inside ∧ r = (.outside, 3) := by
  cases m with
  | inside => exact ⟨rfl, (Option.some.inj h).symm⟩
  | outside => cases h
  | escape => cases h
  | closed => cases h

theorem lex_endPiece {m l : Place} {q : ℕ} (hl : l.Idle) (h : lex m endPiece = some (l, q)) :
    m = .inside ∧ q = 1 := by
  cases m with
  | inside =>
    cases h
    exact ⟨rfl, rfl⟩
  | outside =>
    cases h
    rcases hl with hl | hl <;> cases hl
  | escape =>
    cases h
    rcases hl with hl | hl <;> cases hl
  | closed => cases h

/-- With no more quotation marks than `log_event_json` writes itself, the fields have
    none. -/
theorem quiet_of_lex {tm : LocalTime} {e i d : List Char} {fd : ℤ} {l : Place} {q : ℕ} (hl : l.Idle)
    (h : lex .outside (textBody tm e i fd d) = some (l, q)) (hq : q ≤ 18) :
    Quiet e ∧ Quiet i ∧ Quiet d := by
  have htime := quiet_of_unquote (unquote_strftime tm)
  have hts : lex .outside tsPiece = some (.inside, 3) := rfl
  have hevent : lex .inside eventPiece = some (.inside, 4) := rfl
  have hdetail : lex .outside detailPiece = some (.inside, 3) := rfl
  -- the pieces fix the places, and the numbers of the quotation marks that they have
  simp only [textBody, List.append_assoc] at h
  obtain ⟨m1, q1, r1, h1, t1, hq1⟩ := lex_of_append h
  cases hts.symm.trans h1
  obtain ⟨m2, q2, r2, h2, t2, hq2⟩ := lex_of_append t1
  cases htime.symm.trans h2
  obtain ⟨m3, q3, r3, h3, t3, hq3⟩ := lex_of_append t2
  cases hevent.symm.trans h3
  obtain ⟨m4, q4, r4, h4, t4, hq4⟩ := lex_of_append t3
  obtain ⟨m5, q5, r5, h5, t5, hq5⟩ := lex_of_append t4
  obtain ⟨rfl, hip⟩ := lex_ipPiece h5
  cases hip
  obtain ⟨m6, q6, r6, h6, t6, hq6⟩ := lex_of_append t5
  obtain ⟨m7, q7, r7, h7, t7, hq7⟩ := lex_of_append t6
  obtain ⟨rfl, hfd⟩ := lex_fdPiece h7
  cases hfd
  obtain ⟨m8, q8, r8, h8, t8, hq8⟩ := lex_of_append t7
  cases (lex_formatInt fd).symm.trans h8
  obtain ⟨m9, q9, r9, h9, t9, hq9⟩ := lex_of_append t8
  cases hdetail.symm.trans h9
  obtain ⟨m10, q10, r10, h10, t10, hq10⟩ := lex_of_append t9
  obtain ⟨rfl, hend⟩ := lex_endPiece hl t10
  obtain ⟨rfl, rfl, rfl⟩ : q4 = 0 ∧ q6 = 0 ∧ q10 = 0 := by omega
  exact ⟨h4, h6, h10⟩

/-! ## The record -/

/-- The tuple from five values under the names of a line. -/
theorem recordOf_eq (ts event ip fd detail : Value) :
    recordOf [(codes "ts".toList, ts), (codes "event".toList, event), (codes "ip".toList, ip),
        (codes "fd".toList, fd), (codes "detail".toList, detail)] =
      match eventTime ts with
      | .skipped => .skipped
      | .raised => .raised
      | .record time =>
        match slice 50 event, slice 45 ip, slice 255 detail with
        | some event, some ip, some detail => .record ⟨time, event, ip, fd, detail⟩
        | _, _, _ => .raised := rfl

theorem eventTime_strftime (tm : LocalTime) :
    eventTime (.str (codes (strftime tm))) = .record (some tm.toDateTime) := by
  have hne : codes (strftime tm) ≠ [] := List.cons_ne_nil _ _
  have htrue : truthy (.str (codes (strftime tm))) = true := decide_eq_true hne
  rw [eventTime, if_pos htrue, fromisoformat_strftime]

theorem recordOf_dataOf (tm : LocalTime) (e i : Str) (fd : ℤ) (d : Str) :
    recordOf (dataOf tm e i fd d) =
      .record ⟨some tm.toDateTime, .str (e.take 50), .str (i.take 45), .int fd, .str (d.take 255)⟩ := by
  rw [dataOf, recordOf_eq, eventTime_strftime]
  rfl

theorem slice_eq_str {n : ℕ} {v : Value} {s : Str} (h : slice n v = some (.str s)) :
    ∃ t, v = .str t ∧ s = t.take n := by
  cases v with
  | str t =>
    cases h
    exact ⟨t, rfl, rfl⟩
  | arr elems => cases h
  | _ => cases h

theorem quotes_le_of_eventTime {v : Value} {t : Option DateTime} (h : eventTime v = .record t) :
    v.quotes ≤ 2 := by
  cases v with
  | str s => exact le_rfl
  | arr elems =>
    cases elems with
    | nil => exact Nat.zero_le 2
    | cons v vs => cases h
  | obj members =>
    cases members with
    | nil => exact Nat.zero_le 2
    | cons m ms => cases h
  | _ => exact Nat.zero_le 2

theorem eq_of_memberNames {members : List (Str × Value)} (h : members.map Prod.fst = memberNames) :
    ∃ ts event ip fd detail, members = [(codes "ts".toList, ts), (codes "event".toList, event),
      (codes "ip".toList, ip), (codes "fd".toList, fd), (codes "detail".toList, detail)] := by
  obtain ⟨⟨_, ts⟩, ms1, rfl, rfl, h1⟩ := List.map_eq_cons_iff.mp h
  obtain ⟨⟨_, event⟩, ms2, rfl, rfl, h2⟩ := List.map_eq_cons_iff.mp h1
  obtain ⟨⟨_, ip⟩, ms3, rfl, rfl, h3⟩ := List.map_eq_cons_iff.mp h2
  obtain ⟨⟨_, fd⟩, ms4, rfl, rfl, h4⟩ := List.map_eq_cons_iff.mp h3
  obtain ⟨⟨_, detail⟩, ms5, rfl, rfl, h5⟩ := List.map_eq_cons_iff.mp h4
  cases List.map_eq_nil_iff.mp h5
  exact ⟨ts, event, ip, fd, detail, rfl⟩

/-- What a record says about the values. -/
theorem of_recordOf {ts event ip fd detail : Value} {r : Record}
    (h : recordOf [(codes "ts".toList, ts), (codes "event".toList, event), (codes "ip".toList, ip),
      (codes "fd".toList, fd), (codes "detail".toList, detail)] = .record r) :
    eventTime ts = .record r.eventTime ∧ slice 50 event = some r.event ∧
      slice 45 ip = some r.clientIp ∧ fd = r.fd ∧ slice 255 detail = some r.detail := by
  rw [recordOf_eq] at h
  split at h
  · cases h
  · cases h
  · rename_i time htime
    split at h
    · rename_i event' ip' detail' hevent hip hdetail
      cases h
      exact ⟨htime, hevent, hip, rfl, hdetail⟩
    · cases h

/-- The quotation marks of a line that gives strings under the names of a line. -/
theorem quotes_le_of_recordOf {members : List (Str × Value)} {r : Record} {e i d : Str} {fd : ℤ}
    (hnames : members.map Prod.fst = memberNames) (h : recordOf members = .record r)
    (he : r.event = .str e) (hi : r.clientIp = .str i) (hfd : r.fd = .int fd)
    (hd : r.detail = .str d) : (Value.obj members).quotes ≤ 18 := by
  obtain ⟨ts, event, ip, _, detail, rfl⟩ := eq_of_memberNames hnames
  obtain ⟨htime, hevent, hip, rfl, hdetail⟩ := of_recordOf h
  rw [he] at hevent
  rw [hi] at hip
  rw [hd] at hdetail
  obtain ⟨e', rfl, -⟩ := slice_eq_str hevent
  obtain ⟨i', rfl, -⟩ := slice_eq_str hip
  obtain ⟨d', rfl, -⟩ := slice_eq_str hdetail
  have hts := quotes_le_of_eventTime htime
  have hquotes : (Value.obj [(codes "ts".toList, ts), (codes "event".toList, .str e'),
      (codes "ip".toList, .str i'), (codes "fd".toList, .int fd),
      (codes "detail".toList, .str d')]).quotes =
      (2 + ts.quotes) + ((2 + 2) + ((2 + 2) + ((2 + 0) + ((2 + 2) + 0)))) := rfl
  rw [hfd, hquotes]
  omega

/-! ## Fields that survive -/

theorem survives_plain {text : List Char} (h : ∀ c ∈ text, PlainChar c) (n : ℕ) :
    Survives n (encode text) :=
  ⟨text, codes text, decode_encode text, unquote_plain h, rfl⟩

/-- A field that is not cut survives exactly when it has no quotation mark, no
    backslash and no control character. -/
theorem survives_iff_plain {n : ℕ} {text : List Char} (hn : text.length ≤ n) :
    Survives n (encode text) ↔ ∀ c ∈ text, PlainChar c := by
  constructor
  · rintro ⟨text', s, hdecode, hs, hcut⟩
    cases (decode_encode text).symm.trans hdecode
    have hlen : (codes text).length = text.length := List.length_map ..
    rw [List.take_of_length_le (by omega : (codes text).length ≤ n)] at hcut
    have hle := congrArg List.length hcut
    rw [List.length_take] at hle
    exact plain_of_unquote hs (by omega)
  · exact fun h => survives_plain h n

/-! ## The round trip -/

section

variable {tm : LocalTime} {event clientIp detail : Option CString} {fd : Int32}

theorem textBody_ne_nil (tm : LocalTime) (e i : List Char) (fd : ℤ) (d : List Char) :
    textBody tm e i fd d ≠ [] := by
  rw [textBody_eq]
  exact List.cons_ne_nil _ _

/-- `parse_line` on a line that `json.loads` accepts. -/
theorem parseLine_eq {line : List UInt8} {e i d : List Char} {n : ℤ} {members : List (Str × Value)}
    (hdecode : decode line = some (textBody tm e i n d ++ ['\n']))
    (hloads : loads (textBody tm e i n d) = some (.obj members)) :
    parseLine line = recordOf members := by
  rw [parseLine, hdecode]
  show parseText _ = _
  rw [parseText, strip_textBody, if_neg (textBody_ne_nil tm e i n d), hloads]

/-- The members and the record of a line whose fields stand for `e'`, `i'` and `d'`. -/
theorem parseLine_line {e i d : List Char} {e' i' d' : Str} (he : decode (bytesOf event) = some e)
    (hi : decode (bytesOf clientIp) = some i) (hd : decode (bytesOf detail) = some d)
    (hue : unquote e = some e') (hui : unquote i = some i') (hud : unquote d = some d') :
    decode (lineBody tm event clientIp fd detail ++ [lf]) = some (textBody tm e i fd.toInt d ++ ['\n']) ∧
    loads (textBody tm e i fd.toInt d) = some (.obj (dataOf tm e' i' fd.toInt d')) ∧
    parseLine (lineBody tm event clientIp fd detail ++ [lf]) =
      .record ⟨some tm.toDateTime, .str (e'.take 50), .str (i'.take 45), .int fd.toInt,
        .str (d'.take 255)⟩ := by
  have hdecode : decode (lineBody tm event clientIp fd detail ++ [lf]) =
      some (textBody tm e i fd.toInt d ++ ['\n']) := by
    rw [decode_eq_some, encode_append, lineBody_eq_encode tm (decode_eq_some.mp he)
      (decode_eq_some.mp hi) (decode_eq_some.mp hd)]
    rfl
  have hloads : loads (textBody tm e i fd.toInt d) = some (.obj (dataOf tm e' i' fd.toInt d')) := by
    rw [loads_textBody tm (quiet_of_unquote hue) (quiet_of_unquote hui) (quiet_of_unquote hud), hue, hui,
      hud]
    rfl
  exact ⟨hdecode, hloads, (parseLine_eq hdecode hloads).trans (recordOf_dataOf tm e' i' fd.toInt d')⟩

theorem length_lineBody :
    (lineBody tm event clientIp fd detail ++ [lf]).length = lineLength event clientIp fd detail := by
  have htime : (encode (strftime tm)).length = 19 :=
    length_encode_ascii fun c hc => (plain_strftime tm c hc).2
  have hfd := length_encode_ascii fun c hc => (plain_formatInt fd.toInt c hc).2
  have hts : (encode tsPiece).length = 7 := rfl
  have hevent : (encode eventPiece).length = 11 := rfl
  have hip : (encode ipPiece).length = 8 := rfl
  have hfdPiece : (encode fdPiece).length = 7 := rfl
  have hdetail : (encode detailPiece).length = 11 := rfl
  have hend : (encode endPiece).length = 2 := rfl
  simp only [lineBody, lineLength, List.length_append, List.length_singleton, htime, hfd, hts, hevent,
    hip, hfdPiece, hdetail, hend]
  omega

/-- There is no line feed in a line before its end when the fields are contents of
    string literals. -/
theorem lf_not_mem_lineBody {e i d : List Char} {e' i' d' : Str} (he : decode (bytesOf event) = some e)
    (hi : decode (bytesOf clientIp) = some i) (hd : decode (bytesOf detail) = some d)
    (hue : unquote e = some e') (hui : unquote i = some i') (hud : unquote d = some d') :
    lf ∉ lineBody tm event clientIp fd detail := by
  have htext : ∀ c ∈ textBody tm e i fd.toInt d, 0x20 ≤ c.toNat := by
    have hpiece {piece : List Char} (h : piece.all (fun c => 0x20 ≤ c.toNat) = true) :
        ∀ c ∈ piece, 0x20 ≤ c.toNat :=
      fun c hc => of_decide_eq_true (List.all_eq_true.mp h c hc)
    have htime : ∀ c ∈ strftime tm, 0x20 ≤ c.toNat := fun c hc => (plain_strftime tm c hc).1.2.2
    have hfd : ∀ c ∈ formatInt fd.toInt, 0x20 ≤ c.toNat := fun c hc => (plain_formatInt _ c hc).1.2.2
    simp only [textBody, List.forall_mem_append]
    exact ⟨⟨⟨⟨⟨⟨⟨⟨⟨⟨hpiece rfl, htime⟩, hpiece rfl⟩, le_of_unquote hue⟩, hpiece rfl⟩,
      le_of_unquote hui⟩, hpiece rfl⟩, hfd⟩, hpiece rfl⟩, le_of_unquote hud⟩, hpiece rfl⟩
  rw [lineBody_eq_encode tm (decode_eq_some.mp he) (decode_eq_some.mp hi) (decode_eq_some.mp hd)]
  intro hmem
  obtain ⟨c, hc, hlf⟩ := exists_char_of_mem_encode hmem (by decide)
  have hle := htext c hc
  rw [hlf] at hle
  exact absurd hle (by decide)

/-- What `parse_line` gets back tells that the fields survive. -/
theorem survives_of_roundTrip
    (h : RoundTrip event clientIp fd detail (lineBody tm event clientIp fd detail ++ [lf])) :
    Survives 50 (bytesOf event) ∧ Survives 45 (bytesOf clientIp) ∧ Survives 255 (bytesOf detail) := by
  obtain ⟨text, members, hdecode, hloads, hnames⟩ := h.members
  obtain ⟨r, hr, ⟨e, he, hre⟩, ⟨i, hi, hri⟩, hrfd, ⟨d, hd, hrd⟩⟩ := h.record
  obtain ⟨e₁, i₁, d₁, he₁, hi₁, hd₁, rfl⟩ := decode_line hdecode
  cases he.symm.trans he₁
  cases hi.symm.trans hi₁
  cases hd.symm.trans hd₁
  rw [strip_textBody] at hloads
  -- the line has no more quotation marks than its members need
  have hrecord : recordOf members = .record r := (parseLine_eq hdecode hloads).symm.trans hr
  obtain ⟨l, hl, hlex⟩ := loads_lexed hloads
  obtain ⟨hqe, hqi, hqd⟩ := quiet_of_lex hl hlex (quotes_le_of_recordOf hnames hrecord hre hri hrfd hrd)
  rw [loads_textBody tm hqe hqi hqd] at hloads
  obtain ⟨e', hue, hloads⟩ := Option.bind_eq_some_iff.mp hloads
  obtain ⟨i', hui, hloads⟩ := Option.bind_eq_some_iff.mp hloads
  obtain ⟨d', hud, hobj⟩ := Option.map_eq_some_iff.mp hloads
  cases hobj
  cases (recordOf_dataOf tm e' i' fd.toInt d').symm.trans hrecord
  exact ⟨⟨e, e', he, hue, Value.str.inj hre⟩, ⟨i, i', hi, hui, Value.str.inj hri⟩,
    ⟨d, d', hd, hud, Value.str.inj hrd⟩⟩

theorem roundTrip_of_survives (he : Survives 50 (bytesOf event)) (hi : Survives 45 (bytesOf clientIp))
    (hd : Survives 255 (bytesOf detail)) :
    RoundTrip event clientIp fd detail (lineBody tm event clientIp fd detail ++ [lf]) := by
  obtain ⟨e, e', he, hue, hcute⟩ := he
  obtain ⟨i, i', hi, hui, hcuti⟩ := hi
  obtain ⟨d, d', hd, hud, hcutd⟩ := hd
  obtain ⟨hdecode, hloads, hparse⟩ := parseLine_line he hi hd hue hui hud
  refine ⟨⟨_, rfl, lf_not_mem_lineBody he hi hd hue hui hud⟩,
    ⟨_, dataOf tm e' i' fd.toInt d', hdecode, ?_, rfl⟩, ⟨_, hparse, ?_⟩⟩
  · exact (congrArg loads (strip_textBody ..)).trans hloads
  · exact ⟨⟨e, he, congrArg Value.str hcute⟩, ⟨i, hi, congrArg Value.str hcuti⟩, rfl,
      ⟨d, hd, congrArg Value.str hcutd⟩⟩

/-- An event has a round trip exactly when its line is not written or its fields
    survive. -/
theorem roundTrips_iff (jsonInitialized : Bool) :
    RoundTrips jsonInitialized tm event clientIp fd detail ↔
      jsonInitialized = false ∨ bufferSize ≤ lineLength event clientIp fd detail ∨
        Survives 50 (bytesOf event) ∧ Survives 45 (bytesOf clientIp) ∧ Survives 255 (bytesOf detail) := by
  have hlog : logEventJson jsonInitialized tm event clientIp fd detail =
      if jsonInitialized = false ∨ bufferSize ≤ lineLength event clientIp fd detail then none
      else some (lineBody tm event clientIp fd detail ++ [lf]) := by
    have hpos : ¬ lineLength event clientIp fd detail ≤ 0 := by
      unfold lineLength
      omega
    cases jsonInitialized with
    | false => rfl
    | true =>
      rw [logEventJson, if_neg (by simp)]
      simp only [length_lineBody, hpos, false_or, Bool.true_eq_false]
  unfold RoundTrips
  rw [hlog, ← or_assoc]
  split_ifs with hnone
  · exact iff_of_true (fun _ h => nomatch h) (.inl hnone)
  · constructor
    · intro h
      exact .inr (survives_of_roundTrip (h _ rfl))
    · rintro (habs | ⟨he, hi, hd⟩) line hline
      · exact absurd habs hnone
      · cases hline
        exact roundTrip_of_survives he hi hd

end

/-! ## A quotation mark in a field -/

/-- An event whose detail has a quotation mark does not come back. -/
theorem quote_breaks_line :
    ¬ RoundTrips true evening sensorData deviceIp 6 (cString "say \"hi\"".toList (by decide)) := by
  intro h
  have hlog : logEventJson true evening sensorData deviceIp 6
      (cString "say \"hi\"".toList (by decide)) = some _ := rfl
  obtain ⟨-, -, text, s, hdecode, hs, -⟩ := survives_of_roundTrip (h _ hlog)
  cases (decode_encode _).symm.trans hdecode
  cases hs

/-- A detail that brings a descriptor of its own. -/
example : parseLine (lineBody evening sensorData none 6
      (cString "\",\"fd\":7,\"detail\":\"".toList (by decide)) ++ [lf]) =
    .record ⟨some evening.toDateTime, .str (codes "sensor_data".toList), .str [], .int 7, .str []⟩ := by
  rfl

end LinuxFileManager.Log
