import LinuxFileManager.Config.Document
import LinuxFileManager.Lib.Buffer

/-!
# The settings

Model of `config_load` and `config_handler` (`src/config.c` lines 57–240). The global
`config`, the user's data of the handler, is zeroed before the file is parsed, the
paths are copied with `strncpy`, and the numbers are read with `atoi`. An error in the
file is not an error for `config_load`.

Results:

* `configLoad_fields`: whatever the file holds, each setting is what the last call
  for it gave, paths cut to 127 bytes, and is zero when there was none.
* `configLoad_configText`: settings written as `config.ini` writes them are loaded
  again.
-/

namespace LinuxFileManager.Config

open Lib

/-! ## Model -/

/-- `char[128]`, of which the last byte is never written behind the `memset`. -/
structure PathField where
  buffer : Buffer UInt8 128
  last : buffer.elems[127]? = some 0

def PathField.zero : PathField := ⟨Buffer.filled 128 0, by decide⟩

/-- The string in the field. -/
def PathField.str (field : PathField) : Bytes := field.buffer.cstr

/-- `strncpy(field, value, sizeof(field) - 1)`. -/
def PathField.strncpy (field : PathField) (value : Bytes) : PathField :=
  ⟨field.buffer.strncpy value 127 (by decide), by
    rw [Buffer.getElem?_strncpy _ _ _ le_rfl, field.last]⟩

/-- `Config`, the type of the global `config`. -/
structure GlobalConfig where
  logPath : PathField
  jsonPath : PathField
  taskNum : ℤ
  threadMax : ℤ
  threadMin : ℤ

/-- `memset(&config, 0, sizeof(Config))`. -/
def GlobalConfig.zero : GlobalConfig := ⟨.zero, .zero, 0, 0, 0⟩

/-- `config_handler`; `cfg` and `config` are the same object. -/
def configHandler : Handler GlobalConfig := fun cfg sect name value =>
  (if sect = bytes "log" then
      let cfg := if name = bytes "path" then { cfg with logPath := cfg.logPath.strncpy value } else cfg
      if name = bytes "json_path" then { cfg with jsonPath := cfg.jsonPath.strncpy value } else cfg
    else if sect = bytes "thread_pool" then
      if name = bytes "task_num" then { cfg with taskNum := atoi value }
      else if name = bytes "thread_max" then { cfg with threadMax := atoi value }
      else if name = bytes "thread_min" then { cfg with threadMin := atoi value }
      else cfg
    else cfg, true)

/-- `config_load`: its value, and `config` behind it. -/
def configLoad (below : UInt8) (file : Option Bytes) : ℤ × GlobalConfig :=
  let (result, cfg) := iniParse below configHandler .zero file
  if result < 0 then (-1, cfg) else (0, cfg)

/-! ## The last call for a setting -/

/-- The value of the last call for a name in a section. -/
def lastValue (sect name : Bytes) (calls : List Call) : Option Bytes :=
  (calls.filter fun call => call.1 = sect ∧ call.2.1 = name).getLast?.map fun call => call.2.2

theorem lastValue_concat (sect name : Bytes) (calls : List Call) (call : Call) :
    lastValue sect name (calls ++ [call]) =
      if call.1 = sect ∧ call.2.1 = name then some call.2.2 else lastValue sect name calls := by
  rw [lastValue, List.filter_append, List.filter_singleton]
  split_ifs with h
  · rw [decide_eq_true h]
    simp only [cond_true, List.getLast?_concat, Option.map_some]
  · rw [decide_eq_false h]
    simp only [cond_false, List.append_nil]
    rfl

/-- What is set by the calls for one name in one section shows the last of them. -/
theorem foldl_lastValue {σ γ : Type} {step : σ → Call → σ} (field : σ → γ) (put : Bytes → γ)
    {sect name : Bytes} {calls : List Call}
    (hput : ∀ st, ∀ call ∈ calls, call.1 = sect ∧ call.2.1 = name → field (step st call) = put call.2.2)
    (hkeep : ∀ st, ∀ call ∈ calls, ¬ (call.1 = sect ∧ call.2.1 = name) → field (step st call) = field st)
    (st : σ) : field (calls.foldl step st) = (lastValue sect name calls).elim (field st) put := by
  induction calls using List.reverseRecOn with
  | nil => rfl
  | append_singleton calls call ih =>
    rw [List.foldl_append, List.foldl_cons, List.foldl_nil, lastValue_concat]
    have hlast : call ∈ calls ++ [call] := List.mem_append_right _ List.mem_cons_self
    split_ifs with h
    · exact hput _ call hlast h
    · rw [hkeep _ call hlast h]
      exact ih (fun st c hc => hput st c (List.mem_append_left _ hc))
        fun st c hc => hkeep st c (List.mem_append_left _ hc)

/-! ## The fields -/

theorem PathField.str_strncpy (field : PathField) {value : Bytes} (h : 0 ∉ value) :
    (field.strncpy value).str = value.take 127 :=
  (Buffer.holds_strncpy field.buffer (by decide) h field.last).cstr_eq

/-- A call of the handler. -/
def configStep (cfg : GlobalConfig) (call : Call) : GlobalConfig :=
  (configHandler cfg call.1 call.2.1 call.2.2).1

/-- What each setting shows behind some calls. -/
structure Shows (cfg : GlobalConfig) (calls : List Call) : Prop where
  logPath : cfg.logPath.str = ((lastValue (bytes "log") (bytes "path") calls).getD []).take 127
  jsonPath : cfg.jsonPath.str = ((lastValue (bytes "log") (bytes "json_path") calls).getD []).take 127
  taskNum : cfg.taskNum = (lastValue (bytes "thread_pool") (bytes "task_num") calls).elim 0 atoi
  threadMax : cfg.threadMax = (lastValue (bytes "thread_pool") (bytes "thread_max") calls).elim 0 atoi
  threadMin : cfg.threadMin = (lastValue (bytes "thread_pool") (bytes "thread_min") calls).elim 0 atoi

theorem elim_take (value : Option Bytes) :
    value.elim [] (fun value => value.take 127) = (value.getD []).take 127 := by
  cases value <;> rfl

theorem shows_foldl {calls : List Call} (h : ∀ call ∈ calls, 0 ∉ call.2.2) :
    Shows (calls.foldl configStep .zero) calls := by
  -- a call for another name leaves a field alone
  have hkeep : ∀ cfg : GlobalConfig, ∀ call : Call,
      (¬ (call.1 = bytes "log" ∧ call.2.1 = bytes "path") →
        (configStep cfg call).logPath = cfg.logPath) ∧
      (¬ (call.1 = bytes "log" ∧ call.2.1 = bytes "json_path") →
        (configStep cfg call).jsonPath = cfg.jsonPath) ∧
      (¬ (call.1 = bytes "thread_pool" ∧ call.2.1 = bytes "task_num") →
        (configStep cfg call).taskNum = cfg.taskNum) ∧
      (¬ (call.1 = bytes "thread_pool" ∧ call.2.1 = bytes "thread_max") →
        (configStep cfg call).threadMax = cfg.threadMax) ∧
      (¬ (call.1 = bytes "thread_pool" ∧ call.2.1 = bytes "thread_min") →
        (configStep cfg call).threadMin = cfg.threadMin) := by
    intro cfg call
    refine ⟨?_, ?_, ?_, ?_, ?_⟩ <;>
    · intro hother
      simp only [configStep, configHandler]
      split_ifs <;> first | rfl | exact absurd ⟨‹_›, ‹_›⟩ hother
  refine ⟨?_, ?_, ?_, ?_, ?_⟩
  · rw [← elim_take]
    refine foldl_lastValue (fun cfg => cfg.logPath.str) _ ?_
      (fun cfg call _ hne => congrArg PathField.str ((hkeep cfg call).1 hne)) _
    rintro cfg ⟨sect, name, value⟩ hcall ⟨rfl, rfl⟩
    exact PathField.str_strncpy cfg.logPath (h _ hcall)
  · rw [← elim_take]
    refine foldl_lastValue (fun cfg => cfg.jsonPath.str) _ ?_
      (fun cfg call _ hne => congrArg PathField.str ((hkeep cfg call).2.1 hne)) _
    rintro cfg ⟨sect, name, value⟩ hcall ⟨rfl, rfl⟩
    exact PathField.str_strncpy cfg.jsonPath (h _ hcall)
  · refine foldl_lastValue GlobalConfig.taskNum atoi ?_ (fun cfg call _ => (hkeep cfg call).2.2.1) _
    rintro cfg ⟨sect, name, value⟩ - ⟨rfl, rfl⟩
    rfl
  · refine foldl_lastValue GlobalConfig.threadMax atoi ?_ (fun cfg call _ => (hkeep cfg call).2.2.2.1) _
    rintro cfg ⟨sect, name, value⟩ - ⟨rfl, rfl⟩
    rfl
  · refine foldl_lastValue GlobalConfig.threadMin atoi ?_ (fun cfg call _ => (hkeep cfg call).2.2.2.2) _
    rintro cfg ⟨sect, name, value⟩ - ⟨rfl, rfl⟩
    rfl

theorem configLoad_eq (below : UInt8) (file : Option Bytes) :
    (configLoad below file).2 = (iniCalls below file).2.foldl configStep .zero := by
  have h := iniParse_eq_calls below configHandler (fun _ _ _ _ => rfl) .zero file
  rw [configLoad, h]
  dsimp only
  split_ifs <;> rfl

theorem iniCalls_nonneg (below : UInt8) (file : Option Bytes) :
    (iniCalls below file).1 < 0 ↔ file = none := by
  cases file with
  | none => simp [iniCalls, iniParse]
  | some text => simp [iniCalls, iniParse]

/-- The settings are those of the last calls, and an error in the file is no error. -/
theorem configLoad_fields (below : UInt8) (file : Option Bytes) :
    (configLoad below file).1 = (if file = none then -1 else 0) ∧
      Shows (configLoad below file).2 (iniCalls below file).2 := by
  refine ⟨?_, ?_⟩
  · have h := iniParse_eq_calls below configHandler (fun _ _ _ _ => rfl) .zero file
    rw [configLoad, h]
    simp only [iniCalls_nonneg]
    split_ifs <;> rfl
  · rw [configLoad_eq]
    exact shows_foldl fun call hcall => ((calls_ok below file call hcall).clean.2.2).1

/-! ## Writing the settings -/

/-- A path that fits into its field and may stand behind a sign. -/
structure SavedPath where
  text : Bytes
  ok : ValueOk text
  clean : Clean text
  length_le : text.length ≤ 127

/-- An `int`. -/
structure SavedInt where
  value : ℤ
  isInt : IsInt value

/-- What `config.ini` holds. -/
structure Settings where
  logPath : SavedPath
  jsonPath : SavedPath
  taskNum : SavedInt
  threadMax : SavedInt
  threadMin : SavedInt

/-- `name=value`. -/
def plainPair (name : String) (value : Bytes) : Item := .pair (bytes name) value ⟨[], false, [], ⟨[], none⟩⟩

/-- The items of `app/config.ini`. -/
def configItems (settings : Settings) : List Item :=
  [.header (bytes "log") [], .blank [], plainPair "path" settings.logPath.text,
    plainPair "json_path" settings.jsonPath.text, .blank [], .header (bytes "thread_pool") [], .blank [],
    plainPair "task_num" (decimal settings.taskNum.value),
    plainPair "thread_max" (decimal settings.threadMax.value),
    plainPair "thread_min" (decimal settings.threadMin.value), .blank [], .blank []]

/-- The text of `app/config.ini`. -/
def configText (settings : Settings) : Bytes := render (configItems settings)

theorem mem_decimal {n : ℤ} {c : UInt8} (h : c ∈ decimal n) : c = byte '-' ∨ isdigit c = true := by
  obtain ⟨d, hd, rfl⟩ := List.mem_map.mp h
  split_ifs at hd with hneg
  · rcases List.mem_cons.mp hd with rfl | hd
    · exact .inl rfl
    · exact .inr (isdigit_byte (isDigit_toDigits_ten d hd))
  · exact .inr (isdigit_byte (isDigit_toDigits_ten d hd))

/-- No byte of a number means anything to the parser. -/
theorem decimal_plain {n : ℤ} {c : UInt8} (h : c ∈ decimal n) :
    isspace c = false ∧ c ≠ byte ';' ∧ c ≠ 0 ∧ c ≠ newline := by
  rcases mem_decimal h with rfl | hdigit
  · decide
  · obtain ⟨hlow, hhigh⟩ : 48 ≤ c.toNat ∧ c.toNat ≤ 57 := by
      rw [isdigit, Bool.and_eq_true, decide_eq_true_eq, decide_eq_true_eq] at hdigit
      exact ⟨UInt8.le_iff_toNat_le.mp hdigit.1, UInt8.le_iff_toNat_le.mp hdigit.2⟩
    generalize hn : c.toNat = k at hlow hhigh
    have hc : c = UInt8.ofNat k := by rw [← hn, UInt8.ofNat_toNat]
    subst hc
    interval_cases k <;> decide

theorem noComment_of_notMem {s : Bytes} (h : byte ';' ∉ s) (wasSpace : Bool) :
    noComment wasSpace s = true := by
  induction s generalizing wasSpace with
  | nil => rfl
  | cons c s ih =>
    rw [List.mem_cons, not_or] at h
    rw [noComment, decide_eq_false (Ne.symm h.1), Bool.and_false, ih h.2]
    rfl

theorem decimal_valueOk (n : ℤ) : ValueOk (decimal n) ∧ Clean (decimal n) := by
  refine ⟨⟨⟨fun c hc => ?_, fun c hc => ?_⟩, noComment_of_notMem (fun h => ?_) false⟩, fun h => ?_, fun h => ?_⟩
  · exact (decimal_plain (List.mem_of_mem_head? hc)).1
  · exact (decimal_plain (List.mem_of_getLast? hc)).1
  · exact (decimal_plain h).2.1 rfl
  · exact (decimal_plain h).2.2.1 rfl
  · exact (decimal_plain h).2.2.2 rfl

theorem length_decimal {n : ℤ} (h : IsInt n) : (decimal n).length ≤ 11 := by
  obtain ⟨hlow, hhigh⟩ := h
  have hdigits : (Nat.toDigits 10 n.natAbs).length ≤ 10 :=
    (Nat.length_toDigits_le_iff (by norm_num) (by norm_num)).mpr (by omega)
  rw [decimal, List.length_map]
  split_ifs
  · rw [List.length_cons]
    omega
  · omega

theorem plainPair_item {name : String} {value : Bytes} (hname : NameOk (bytes name) ∧ Clean (bytes name))
    (htrimmed : Trimmed (bytes name)) (hlength : (bytes name).length ≤ 10)
    (hvalue : ValueOk value ∧ Clean value) (hfits : value.length ≤ 127) :
    (plainPair name value).Ok ∧ Clean (plainPair name value).render ∧
      (plainPair name value).render.length + 1 < iniMaxLine := by
  have hmax : maxName = 50 := rfl
  have hmaxLine : iniMaxLine = 200 := rfl
  refine ⟨⟨hname.1, htrimmed, by omega, hvalue.1.trimmed, hvalue.1.plain, fun _ => rfl, allSpace_nil,
    allSpace_nil, allSpace_nil, fun h => absurd rfl h⟩, ⟨?_, ?_⟩, ?_⟩
  · simpa [plainPair, Item.render, Tail.text, Layout.sign, byte] using ⟨hname.2.1, hvalue.2.1⟩
  · simpa [plainPair, Item.render, Tail.text, Layout.sign, newline, byte] using ⟨hname.2.2, hvalue.2.2⟩
  · simp only [plainPair, Item.render, Tail.text, List.length_append, List.length_cons, List.length_nil]
    omega

theorem wellFormed_configItems (settings : Settings) : WellFormed [] (configItems settings) := by
  have hname : ∀ name ∈ ["path", "json_path", "task_num", "thread_max", "thread_min"],
      (NameOk (bytes name) ∧ Clean (bytes name)) ∧ Trimmed (bytes name) ∧ (bytes name).length ≤ 10 := by
    intro name hmem
    simp only [List.mem_cons, List.not_mem_nil, or_false] at hmem
    rcases hmem with rfl | rfl | rfl | rfl | rfl <;>
    · refine ⟨⟨⟨by decide, rfl, fun c hc => ?_⟩, by decide⟩, ⟨fun c hc => ?_, fun c hc => ?_⟩, by decide⟩
      all_goals cases hc; decide
  have hpair : ∀ name ∈ ["path", "json_path", "task_num", "thread_max", "thread_min"], ∀ value,
      ValueOk value ∧ Clean value → value.length ≤ 127 → (plainPair name value).Ok ∧
        Clean (plainPair name value).render ∧ (plainPair name value).render.length + 1 < iniMaxLine :=
    fun name hmem value => plainPair_item (hname name hmem).1 (hname name hmem).2.1 (hname name hmem).2.2
  have hpath : ∀ p : SavedPath, ValueOk p.text ∧ Clean p.text := fun p => ⟨p.ok, p.clean⟩
  have hint : ∀ n : SavedInt, (decimal n.value).length ≤ 127 :=
    fun n => (length_decimal n.isInt).trans (by norm_num)
  have hblank : AllSpace [] ∧ Clean [] ∧ 1 < iniMaxLine := ⟨allSpace_nil, by decide, by decide⟩
  refine WellFormed.of_forall (fun item hitem => ?_) []
  simp only [configItems, List.mem_cons, List.not_mem_nil, or_false] at hitem
  rcases hitem with rfl | rfl | rfl | rfl | rfl | rfl | rfl | rfl | rfl | rfl | rfl | rfl <;>
    refine ⟨rfl, ?_⟩
  · exact ⟨⟨⟨by decide, rfl⟩, by decide⟩, by decide, by decide⟩
  · exact hblank
  · exact hpair "path" (by decide) _ (hpath settings.logPath) settings.logPath.length_le
  · exact hpair "json_path" (by decide) _ (hpath settings.jsonPath) settings.jsonPath.length_le
  · exact hblank
  · exact ⟨⟨⟨by decide, rfl⟩, by decide⟩, by decide, by decide⟩
  · exact hblank
  · exact hpair "task_num" (by decide) _ (decimal_valueOk settings.taskNum.value) (hint _)
  · exact hpair "thread_max" (by decide) _ (decimal_valueOk settings.threadMax.value) (hint _)
  · exact hpair "thread_min" (by decide) _ (decimal_valueOk settings.threadMin.value) (hint _)
  · exact hblank
  · exact hblank

/-- Settings written to `config.ini` are loaded again. -/
theorem configLoad_configText (below : UInt8) (settings : Settings) :
    (configLoad below (some (configText settings))).1 = 0 ∧
      let cfg := (configLoad below (some (configText settings))).2
      cfg.logPath.str = settings.logPath.text ∧ cfg.jsonPath.str = settings.jsonPath.text ∧
        cfg.taskNum = settings.taskNum.value ∧ cfg.threadMax = settings.threadMax.value ∧
        cfg.threadMin = settings.threadMin.value := by
  have hbom : ¬ bom <+: configText settings := by
    intro h
    have hfirst : configText settings = byte '[' :: (configText settings).tail := rfl
    rw [hfirst, bom, List.cons_prefix_cons] at h
    exact absurd h.1 (by decide)
  have hcalls := iniCalls_render below (wellFormed_configItems settings) hbom
  obtain ⟨hvalue, hshows⟩ := configLoad_fields below (some (configText settings))
  rw [show iniCalls below (some (configText settings)) = _ from hcalls] at hshows
  refine ⟨hvalue, ?_, ?_, ?_, ?_, ?_⟩
  · rw [hshows.logPath]
    exact List.take_of_length_le settings.logPath.length_le
  · rw [hshows.jsonPath]
    exact List.take_of_length_le settings.jsonPath.length_le
  · rw [hshows.taskNum]
    exact atoi_decimal settings.taskNum.isInt
  · rw [hshows.threadMax]
    exact atoi_decimal settings.threadMax.isInt
  · rw [hshows.threadMin]
    exact atoi_decimal settings.threadMin.isInt

instance (s : Bytes) : Decidable (ValueOk s) :=
  have : Decidable (Trimmed s) := inferInstanceAs (Decidable (_ ∧ _))
  decidable_of_iff (Trimmed s ∧ noComment false s = true) ⟨fun h => ⟨h.1, h.2⟩, fun h => ⟨h.1, h.2⟩⟩

/-- The settings of the `app/config.ini` in the repository. -/
def shippedSettings : Settings where
  logPath := ⟨bytes "logs/system.log", by decide +kernel, by decide, by decide⟩
  jsonPath := ⟨bytes "logs/events.json.log", by decide +kernel, by decide, by decide⟩
  taskNum := ⟨100, by norm_num [IsInt]⟩
  threadMax := ⟨32, by norm_num [IsInt]⟩
  threadMin := ⟨1, by norm_num [IsInt]⟩

example : configText shippedSettings = bytes ("[log]\n\npath=logs/system.log\n" ++
    "json_path=logs/events.json.log\n\n[thread_pool]\n\ntask_num=100\nthread_max=32\n" ++
    "thread_min=1\n\n\n") := by decide +kernel

theorem configLoad_configText_shipped :
    (configLoad 0 (some (configText shippedSettings))).1 = 0 ∧
      let cfg := (configLoad 0 (some (configText shippedSettings))).2
      cfg.logPath.str = bytes "logs/system.log" ∧ cfg.jsonPath.str = bytes "logs/events.json.log" ∧
        cfg.taskNum = 100 ∧ cfg.threadMax = 32 ∧ cfg.threadMin = 1 :=
  configLoad_configText 0 shippedSettings

end LinuxFileManager.Config
