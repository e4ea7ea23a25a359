import OtaFetch.Config
import OtaFetch.Identity

/-!
# Loading the configuration

`ini_parse` delivers one event for each `name = value` line and `config_handler`
stores the value in the field of its key; a later event replaces an earlier one.
The required fields are checked once, after the last event.
-/
namespace OtaFetch.ConfigLoad
open CPath Identity Config

/-- A section and a name in it. -/
abbrev Key := CStr × CStr

/-- What the parser hands to its handler. -/
structure Event where
  sect : CStr
  name : CStr
  value : CStr
  deriving Repr, DecidableEq

def Event.key (ev : Event) : Key := (ev.sect, ev.name)

/-- The number that the digits after the sign stand for, up to the first byte
that is no digit. -/
def digits : ℕ → CStr → ℕ
  | acc, [] => acc
  | acc, c :: cs => if 48 ≤ c ∧ c ≤ 57 then digits (acc * 10 + (c.toNat - 48)) cs else acc

/-- The decimal number at the start of a string, after white space. -/
def numeral (s : CStr) : ℤ :=
  match s.dropWhile isspace with
  | 45 :: cs => -(digits 0 cs : ℤ)
  | 43 :: cs => digits 0 cs
  | cs => digits 0 cs

/-- `atoi`: `strtol` stops at the ends of `long`, and the cast keeps 32 bits. -/
def atoi (s : CStr) : ℤ := (max (-2 ^ 63) (min (2 ^ 63 - 1) (numeral s))).bmod (2 ^ 32)

/-- After `memset`. -/
def zeroed : OtaConfig where
  serverUrl := none
  enrollUrl := none
  tlsCaCert := none
  tlsClientCert := none
  tlsClientKey := none
  connectTimeout := 0
  transferTimeout := 0
  lowSpeedLimit := 0
  lowSpeedTime := 0
  retryAttempts := 0
  updateIntervalSec := 0
  inboxManifestDir := none
  currentManifestDir := none
  manifestCaCert := none
  logFile := none
  deviceId := none

/-- `config_handler`. It reports success for every event. -/
def configHandler (cfg : OtaConfig) (sect name value : CStr) : ℤ × OtaConfig :=
  if sect = text "network" ∧ name = text "server_url" then
    (1, { cfg with serverUrl := some value })
  else if sect = text "network" ∧ name = text "enroll_url" then
    (1, { cfg with enrollUrl := some value })
  else if sect = text "network" ∧ name = text "tls_ca_cert" then
    (1, { cfg with tlsCaCert := some value })
  else if sect = text "network" ∧ name = text "tls_client_cert" then
    (1, { cfg with tlsClientCert := some value })
  else if sect = text "network" ∧ name = text "tls_client_key" then
    (1, { cfg with tlsClientKey := some value })
  else if sect = text "network" ∧ name = text "connect_timeout" then
    (1, { cfg with connectTimeout := atoi value })
  else if sect = text "network" ∧ name = text "transfer_timeout" then
    (1, { cfg with transferTimeout := atoi value })
  else if sect = text "network" ∧ name = text "low_speed_limit" then
    (1, { cfg with lowSpeedLimit := atoi value })
  else if sect = text "network" ∧ name = text "low_speed_time" then
    (1, { cfg with lowSpeedTime := atoi value })
  else if sect = text "network" ∧ name = text "retry_attempts" then
    (1, { cfg with retryAttempts := atoi value })
  else if sect = text "system" ∧ name = text "update_interval_sec" then
    (1, { cfg with updateIntervalSec := atoi value })
  else if sect = text "system" ∧ name = text "inbox_manifest_dir" then
    (1, { cfg with inboxManifestDir := some value })
  else if sect = text "system" ∧ name = text "current_manifest_dir" then
    (1, { cfg with currentManifestDir := some value })
  else if sect = text "system" ∧ name = text "manifest_ca_cert" then
    (1, { cfg with manifestCaCert := some value })
  else if sect = text "system" ∧ name = text "log_file" then
    (1, { cfg with logFile := some value })
  else if sect = text "system" ∧ name = text "device_id" then
    (1, { cfg with deviceId := some value })
  else (1, cfg)

/-- An error is the line that is logged. -/
def validateRequiredString (value : Option CStr) (name : CStr) : Except CStr Unit :=
  match value with
  | none | some [] => .error (text "Config missing required value: " ++ name)
  | some (_ :: _) => .ok ()

/-- The checks of `config_load` in their order; the first that fails ends them. -/
def validateRequired (config : OtaConfig) : Except CStr Unit := do
  validateRequiredString config.serverUrl (text "network.server_url")
  validateRequiredString config.tlsCaCert (text "network.tls_ca_cert")
  validateRequiredString config.tlsClientCert (text "network.tls_client_cert")
  validateRequiredString config.tlsClientKey (text "network.tls_client_key")
  validateRequiredString config.inboxManifestDir (text "system.inbox_manifest_dir")
  validateRequiredString config.currentManifestDir (text "system.current_manifest_dir")
  validateRequiredString config.manifestCaCert (text "system.manifest_ca_cert")

/-- The return code, the configuration unless it was freed, and what was logged. -/
structure Loaded where
  rc : ℤ
  config : Option OtaConfig
  errors : List CStr
  deriving Repr, DecidableEq

/-- The configuration after the events that `ini_parse` delivered. -/
def handleAll (events : List Event) : OtaConfig :=
  events.foldl (fun cfg ev => (configHandler cfg ev.sect ev.name ev.value).2) zeroed

/-- `config_load`, given the result of `ini_parse` and the events it delivered. -/
def configLoad (iniParse : ℤ) (events : List Event) : Loaded :=
  if iniParse ≠ 0 then ⟨iniParse, none, []⟩
  else
    match validateRequired (handleAll events) with
    | .error line => ⟨-1, none, [line]⟩
    | .ok () => ⟨0, some (handleAll events), []⟩

/-- The value of the last event for a key. -/
def lastValue (events : List Event) (key : Key) : Option CStr :=
  ((events.filter fun ev => ev.key = key).getLast?).map Event.value

/-- Sixteen fields, each with the value of its own key. -/
def settings (last : Key → Option CStr) : OtaConfig where
  serverUrl := last (text "network", text "server_url")
  enrollUrl := last (text "network", text "enroll_url")
  tlsCaCert := last (text "network", text "tls_ca_cert")
  tlsClientCert := last (text "network", text "tls_client_cert")
  tlsClientKey := last (text "network", text "tls_client_key")
  connectTimeout := ((last (text "network", text "connect_timeout")).map atoi).getD 0
  transferTimeout := ((last (text "network", text "transfer_timeout")).map atoi).getD 0
  lowSpeedLimit := ((last (text "network", text "low_speed_limit")).map atoi).getD 0
  lowSpeedTime := ((last (text "network", text "low_speed_time")).map atoi).getD 0
  retryAttempts := ((last (text "network", text "retry_attempts")).map atoi).getD 0
  updateIntervalSec := ((last (text "system", text "update_interval_sec")).map atoi).getD 0
  inboxManifestDir := last (text "system", text "inbox_manifest_dir")
  currentManifestDir := last (text "system", text "current_manifest_dir")
  manifestCaCert := last (text "system", text "manifest_ca_cert")
  logFile := last (text "system", text "log_file")
  deviceId := last (text "system", text "device_id")

def requiredKeys : List Key :=
  [(text "network", text "server_url"), (text "network", text "tls_ca_cert"),
    (text "network", text "tls_client_cert"), (text "network", text "tls_client_key"),
    (text "system", text "inbox_manifest_dir"), (text "system", text "current_manifest_dir"),
    (text "system", text "manifest_ca_cert")]

def optionalKeys : List Key :=
  [(text "network", text "enroll_url"), (text "network", text "connect_timeout"),
    (text "network", text "transfer_timeout"), (text "network", text "low_speed_limit"),
    (text "network", text "low_speed_time"), (text "network", text "retry_attempts"),
    (text "system", text "update_interval_sec"), (text "system", text "log_file"),
    (text "system", text "device_id")]

def knownKeys : List Key := requiredKeys ++ optionalKeys

lemma settings_congr {last last' : Key → Option CStr}
    (h : ∀ key ∈ knownKeys, last key = last' key) : settings last = settings last' := by
  simp only [knownKeys, requiredKeys, optionalKeys, List.cons_append, List.nil_append,
    List.forall_mem_cons] at h
  simp only [settings, h]

lemma configHandler_unknown {sect name : CStr} (h : (sect, name) ∉ knownKeys) (cfg : OtaConfig)
    (value : CStr) : (configHandler cfg sect name value).2 = cfg := by
  simp only [knownKeys, requiredKeys, optionalKeys, List.cons_append, List.nil_append,
    List.mem_cons, List.not_mem_nil, or_false, Prod.mk.injEq, not_or] at h
  simp only [configHandler, h, if_false]

/-- One event changes the value of its own key and of no other. -/
lemma configHandler_settings (last : Key → Option CStr) (sect name value : CStr) :
    (configHandler (settings last) sect name value).2 =
      settings (Function.update last (sect, name) (some value)) := by
  by_cases hknown : (sect, name) ∈ knownKeys
  · simp only [knownKeys, requiredKeys, optionalKeys, List.cons_append, List.nil_append,
      List.mem_cons, List.not_mem_nil, or_false, Prod.mk.injEq] at hknown
    rcases hknown with ⟨rfl, rfl⟩ | ⟨rfl, rfl⟩ | ⟨rfl, rfl⟩ | ⟨rfl, rfl⟩ | ⟨rfl, rfl⟩ | ⟨rfl, rfl⟩ |
      ⟨rfl, rfl⟩ | ⟨rfl, rfl⟩ | ⟨rfl, rfl⟩ | ⟨rfl, rfl⟩ | ⟨rfl, rfl⟩ | ⟨rfl, rfl⟩ | ⟨rfl, rfl⟩ |
      ⟨rfl, rfl⟩ | ⟨rfl, rfl⟩ | ⟨rfl, rfl⟩ <;> rfl
  · rw [configHandler_unknown hknown]
    apply settings_congr
    intro key hkey
    have hne : key ≠ (sect, name) := by
      rintro rfl
      exact hknown hkey
    rw [Function.update_of_ne hne]

lemma lastValue_concat (events : List Event) (ev : Event) :
    lastValue (events ++ [ev]) = Function.update (lastValue events) ev.key (some ev.value) := by
  funext key
  unfold lastValue
  rw [List.filter_append]
  by_cases hkey : key = ev.key
  · subst hkey
    simp
  · have hno : ev.key ≠ key := Ne.symm hkey
    rw [Function.update_of_ne hkey, List.filter_singleton]
    simp [hno]

/-- After all events every field holds the last value of its key. -/
theorem handleAll_eq (events : List Event) : handleAll events = settings (lastValue events) := by
  induction events using List.reverseRecOn with
  | nil => rfl
  | append_singleton events ev ih =>
    unfold handleAll at ih ⊢
    rw [List.foldl_append, ih, lastValue_concat]
    exact configHandler_settings _ _ _ _

lemma validateRequiredString_eq (value : Option CStr) (name : CStr) :
    validateRequiredString value name =
      if value.getD [] = [] then .error (text "Config missing required value: " ++ name)
      else .ok () := by
  cases value with
  | none => rfl
  | some v =>
    cases v with
    | nil => rfl
    | cons c cs => rfl

lemma validate_bind (value : Option CStr) (name : CStr) (next : Except CStr Unit) :
    (validateRequiredString value name >>= fun _ => next) =
      if value.getD [] = [] then .error (text "Config missing required value: " ++ name)
      else next := by
  rw [validateRequiredString_eq]
  split_ifs <;> rfl

/-- The key as an error message names it. -/
def Key.shown (key : Key) : CStr := key.1 ++ text "." ++ key.2

/-- The check of the keys in order: an error names the first that has no value. -/
def firstMissing (last : Key → Option CStr) (keys : List Key) : Except CStr Unit :=
  match keys.find? fun key => (last key).getD [] = [] with
  | none => .ok ()
  | some key => .error (text "Config missing required value: " ++ Key.shown key)

lemma firstMissing_cons (last : Key → Option CStr) (key : Key) (keys : List Key) :
    firstMissing last (key :: keys) =
      if (last key).getD [] = [] then
        .error (text "Config missing required value: " ++ Key.shown key)
      else firstMissing last keys := by
  unfold firstMissing
  rw [List.find?_cons]
  by_cases h : (last key).getD [] = []
  · rw [if_pos h, decide_eq_true h]
  · rw [if_neg h, decide_eq_false h]

lemma validateRequired_settings (last : Key → Option CStr) :
    validateRequired (settings last) = firstMissing last requiredKeys := by
  unfold validateRequired requiredKeys
  simp only [validate_bind, firstMissing_cons]
  rw [validateRequiredString_eq]
  rfl

lemma firstMissing_ok_iff (last : Key → Option CStr) (keys : List Key) :
    firstMissing last keys = .ok () ↔
      ∀ key ∈ keys, ∃ value, last key = some value ∧ value ≠ [] := by
  induction keys with
  | nil => simp [firstMissing]
  | cons key keys ih =>
    rw [firstMissing_cons, List.forall_mem_cons, ← ih]
    cases hlast : last key with
    | none => simp
    | some value => by_cases hvalue : value = [] <;> simp [hvalue]

lemma handleAll_congr {events events' : List Event}
    (h : ∀ key ∈ knownKeys,
      events.filter (fun ev => ev.key = key) = events'.filter (fun ev => ev.key = key)) :
    handleAll events = handleAll events' := by
  rw [handleAll_eq, handleAll_eq]
  apply settings_congr
  intro key hkey
  rw [lastValue, h key hkey, lastValue]

/-- A number that fits an `int` is read exactly. -/
lemma atoi_of_fits {s : CStr} (hlow : -2 ^ 31 ≤ numeral s) (hhigh : numeral s < 2 ^ 31) :
    atoi s = numeral s := by
  unfold atoi
  rw [min_eq_right (by omega), max_eq_right (by omega)]
  exact Int.bmod_eq_of_le (by omega) (by omega)

/-- `config_load` succeeds just if the parser does and every required key ends
with a value, and then each field holds the last value of its own key. Events
count only through the sequence of those with one and the same known key. -/
theorem configLoad_last_wins (iniParse : ℤ) (events : List Event) :
    ((configLoad iniParse events).rc = 0 ↔
      iniParse = 0 ∧
        ∀ key ∈ requiredKeys, ∃ value, lastValue events key = some value ∧ value ≠ []) ∧
    ((configLoad iniParse events).rc = 0 →
      (configLoad iniParse events).config = some (settings (lastValue events))) ∧
    (∀ s, -2 ^ 31 ≤ numeral s → numeral s < 2 ^ 31 → atoi s = numeral s) ∧
    (∀ events' : List Event,
      (∀ key ∈ knownKeys,
        events.filter (fun ev => ev.key = key) = events'.filter (fun ev => ev.key = key)) →
      configLoad iniParse events = configLoad iniParse events') := by
  rw [← firstMissing_ok_iff, ← validateRequired_settings, ← handleAll_eq]
  refine ⟨?_, ?_, fun s => atoi_of_fits, ?_⟩
  · unfold configLoad
    by_cases hparse : iniParse = 0
    · rw [if_neg (not_not.mpr hparse)]
      cases validateRequired (handleAll events) with
      | error line => simp
      | ok x => simp [hparse]
    · rw [if_pos hparse]
      simp [hparse]
  · unfold configLoad
    split_ifs with hparse
    · exact fun hrc => absurd hrc hparse
    · cases validateRequired (handleAll events) with
      | error line => simp
      | ok x => simp
  · intro events' hsame
    rw [configLoad, configLoad, handleAll_congr hsame]

/-- The seven required keys, `retry_attempts` twice, a key in the wrong section
and one that nobody knows. -/
def sampleEvents : List Event :=
  [⟨text "network", text "retry_attempts", text "9"⟩,
    ⟨text "network", text "server_url", text "https://u"⟩,
    ⟨text "network", text "tls_ca_cert", text "ca"⟩,
    ⟨text "network", text "device_id", text "x"⟩,
    ⟨text "network", text "tls_client_cert", text "crt"⟩,
    ⟨text "network", text "tls_client_key", text "key"⟩,
    ⟨text "network", text "retry_attempts", text " -3;"⟩,
    ⟨text "system", text "inbox_manifest_dir", text "in"⟩,
    ⟨text "system", text "current_manifest_dir", text "cur"⟩,
    ⟨text "system", text "colour", text "red"⟩,
    ⟨text "system", text "manifest_ca_cert", text "root"⟩]

theorem configLoad_last_wins_sample :
    (configLoad 0 sampleEvents).rc = 0 ∧
    (settings (lastValue sampleEvents)).retryAttempts = -3 ∧
    (settings (lastValue sampleEvents)).deviceId = none ∧
    (configLoad 0 sampleEvents).config = some (settings (lastValue sampleEvents)) ∧
    configLoad 0 sampleEvents = configLoad 0
      ((sampleEvents.drop 7 ++ sampleEvents.take 7).filter fun ev => ev.key ∈ knownKeys) := by
  have hrc : (configLoad 0 sampleEvents).rc = 0 :=
    (configLoad_last_wins 0 sampleEvents).1.mpr ⟨rfl, by decide +kernel⟩
  exact ⟨hrc, by decide +kernel, by decide +kernel,
    (configLoad_last_wins 0 sampleEvents).2.1 hrc,
    (configLoad_last_wins 0 sampleEvents).2.2.2 _ (by decide +kernel)⟩

end OtaFetch.ConfigLoad
