import OtaFetch.IniRoundTrip
import OtaFetch.Verify

/-!
# The configuration file

`config_load` from the bytes of the file. A configuration that is written to a
file is loaded back as it was. A read error looks like the end of the file, so
that a configuration can be loaded from the part in front of it.
-/
namespace OtaFetch.ConfigFile
open CPath Identity Config ConfigLoad Lines Ini
open Verify (decimal)

/-- `config_load`; `none` is a file that does not open. -/
def configLoadFile (file : Option FileIn) : Except Fault Loaded := do
  let (rc, config) ← iniParse file configHandler zeroed
  if rc ≠ 0 then pure ⟨rc, none, []⟩
  else
    match validateRequired config with
    | .error line => pure ⟨-1, none, [line]⟩
    | .ok () => pure ⟨0, some config, []⟩

/-- The parser with another state of the handler. -/
def mapUser {υ ω : Type} (f : υ → ω) (p : Parser υ) : Parser ω :=
  ⟨p.sect, p.prevName, p.lineno, p.error, f p.user⟩

lemma mapUser_fail {υ ω : Type} (f : υ → ω) (p : Parser υ) :
    (mapUser f p).fail = mapUser f p.fail := by
  by_cases h : p.error = 0
  · simp [Parser.fail, mapUser, h]
  · simp [Parser.fail, mapUser, h]

/-- `f` takes the states of one handler to those of another that does the same. -/
def Carries {υ ω : Type} (f : υ → ω) (handler : IniHandler υ) (handler' : IniHandler ω) : Prop :=
  ∀ u sect name value, handler' (f u) sect name value =
    ((handler u sect name value).1, f (handler u sect name value).2)

lemma mapUser_handle {υ ω : Type} {f : υ → ω} {handler : IniHandler υ} {handler' : IniHandler ω}
    (h : Carries f handler handler') (p : Parser υ) (name value : CStr) :
    (mapUser f p).handle handler' name value = mapUser f (p.handle handler name value) := by
  have hanswer : handler' (mapUser f p).user (mapUser f p).sect name value =
      ((handler p.user p.sect name value).1, f (handler p.user p.sect name value).2) :=
    h p.user p.sect name value
  unfold Parser.handle
  rw [hanswer]
  by_cases hrefused : (handler p.user p.sect name value).1 = 0
  · dsimp only
    rw [if_pos hrefused, if_pos hrefused]
    exact mapUser_fail f { p with user := (handler p.user p.sect name value).2 }
  · dsimp only
    rw [if_neg hrefused, if_neg hrefused]
    rfl

lemma mapUser_apply {υ ω : Type} {f : υ → ω} {handler : IniHandler υ} {handler' : IniHandler ω}
    (h : Carries f handler handler') (p : Parser υ) (shape : Shape) :
    shape.apply handler' (mapUser f p) = mapUser f (shape.apply handler p) := by
  cases shape with
  | blank => rfl
  | more value => exact mapUser_handle h p _ value
  | header name => rfl
  | pair name value =>
    exact mapUser_handle h { p with prevName := iniStrncpy0 name maxName } name value
  | malformed => exact mapUser_fail f p

lemma mapUser_iniLine {υ ω : Type} {f : υ → ω} {handler : IniHandler υ} {handler' : IniHandler ω}
    (h : Carries f handler handler') (p : Parser υ) (line : CStr) :
    iniLine handler' (mapUser f p) line = mapUser f (iniLine handler p line) := by
  rw [iniLine_eq_shape, iniLine_eq_shape]
  exact mapUser_apply h p _

lemma mapUser_iniDiscard {υ ω : Type} (f : υ → ω) (reader : Reader) (fuel : ℕ) (p : Parser υ)
    (s : Bytes) :
    iniDiscard reader fuel (mapUser f p) s =
      (iniDiscard reader fuel p s).map fun r => (mapUser f r.1, r.2) := by
  induction fuel generalizing p s with
  | zero => rfl
  | succ fuel ih =>
    unfold iniDiscard
    cases reader abyssSize s with
    | none => rfl
    | some got =>
      dsimp only
      cases (cstring got.1).getLast? with
      | none => rfl
      | some c =>
        dsimp only
        rw [mapUser_fail]
        split_ifs
        · rfl
        · exact ih p.fail got.2

/-- The parser does the same for both handlers, and also fails alike. -/
lemma mapUser_iniParseStream {υ ω : Type} {f : υ → ω} {handler : IniHandler υ}
    {handler' : IniHandler ω} (h : Carries f handler handler') (reader : Reader) (fuel : ℕ)
    (p : Parser υ) (s : Bytes) :
    iniParseStream reader handler' fuel (mapUser f p) s =
      (iniParseStream reader handler fuel p s).map (mapUser f) := by
  induction fuel generalizing p s with
  | zero => rfl
  | succ fuel ih =>
    unfold iniParseStream
    cases reader iniMaxLine s with
    | none => rfl
    | some got =>
      dsimp only
      have hnext : ∀ (q : Parser υ) (s : Bytes),
          iniParseStream reader handler' fuel
              (iniLine handler' (mapUser f q) (cstring got.1)) s =
            (iniParseStream reader handler fuel (iniLine handler q (cstring got.1)) s).map
              (mapUser f) := by
        intro q s
        rw [mapUser_iniLine h, ih]
      have hnumber : ({ mapUser f p with lineno := (mapUser f p).lineno + 1 } : Parser ω) =
          mapUser f { p with lineno := p.lineno + 1 } := rfl
      rw [hnumber]
      split_ifs
      · rw [mapUser_iniDiscard]
        cases iniDiscard reader fuel { p with lineno := p.lineno + 1 } got.2 with
        | error fault => rfl
        | ok r => exact hnext r.1 r.2
      · exact hnext _ _

lemma mapUser_iniParse {υ ω : Type} {f : υ → ω} {handler : IniHandler υ} {handler' : IniHandler ω}
    (h : Carries f handler handler') (file : Option FileIn) (user : υ) :
    iniParse file handler' (f user) =
      (iniParse file handler user).map fun r => (r.1, f r.2) := by
  cases file with
  | none => rfl
  | some file =>
    have hrun := mapUser_iniParseStream h (fgets file.broken) (file.data.length + 1)
      (.init user) file.data
    have hinit : mapUser f (Parser.init user) = Parser.init (f user) := rfl
    rw [hinit] at hrun
    unfold iniParse iniParseFile
    dsimp only
    rw [hrun]
    cases iniParseStream (fgets file.broken) handler (file.data.length + 1) (.init user)
      file.data with
    | error fault => rfl
    | ok p => rfl

lemma configHandler_accepts (cfg : OtaConfig) (sect name value : CStr) :
    (configHandler cfg sect name value).1 = 1 := by
  simp only [configHandler, apply_ite Prod.fst, ite_self]

/-- Handling the events as they come, or all of them at the end. -/
lemma configHandler_carries : Carries handleAll record configHandler := by
  intro events sect name value
  have hsnd : handleAll (events ++ [⟨sect, name, value⟩]) =
      (configHandler (handleAll events) sect name value).2 := by
    unfold handleAll
    rw [List.foldl_append, List.foldl_cons, List.foldl_nil]
  rw [record, hsnd, ← configHandler_accepts (handleAll events) sect name value]

/-- `config_load` is the parser followed by the handling of its events. -/
theorem configLoadFile_eq (file : Option FileIn) :
    configLoadFile file =
      (iniParse file record []).map fun r => configLoad r.1 r.2 := by
  have hparse := mapUser_iniParse configHandler_carries file []
  have hzeroed : handleAll [] = zeroed := rfl
  rw [hzeroed] at hparse
  unfold configLoadFile
  rw [hparse]
  cases iniParse file record [] with
  | error fault => rfl
  | ok r =>
    unfold configLoad
    dsimp only [Except.map, bind, Except.bind]
    split_ifs
    · rfl
    · cases validateRequired (handleAll r.2) <;> rfl

/-- A read error is not noticed: the complete lines in front of it decide, and the
line that it breaks off is dropped. -/
theorem configLoadFile_broken (whole part : Bytes) (hzero : 0 ∉ whole)
    (hwhole : whole = [] ∨ whole.getLast? = some newline) (hpart : newline ∉ part)
    (hshort : part.length < iniMaxLine - 1) :
    configLoadFile (some ⟨whole ++ part, true⟩) = configLoadFile (some ⟨whole, false⟩) := by
  have hfuel : whole.length < (whole ++ part).length + 1 := by
    rw [List.length_append]
    omega
  have hbroken := iniParseStream_lines (fgets_broken_delivers hwhole hpart hshort) record hzero
    (.init []) hfuel
  rw [configLoadFile_eq, configLoadFile_eq, iniParse_eq_lines record [] hzero, iniParse,
    iniParseFile, hbroken]
  rfl

/-- The last line would have set `manifest_ca_cert`. -/
theorem configLoadFile_broken_ca :
    configLoadFile (some ⟨text "[system]\nmanifest_ca_cert = old\n" ++ text "manifest_ca_cert = n",
        true⟩) =
      configLoadFile (some ⟨text "[system]\nmanifest_ca_cert = old\n", false⟩) :=
  configLoadFile_broken (text "[system]\nmanifest_ca_cert = old\n") (text "manifest_ca_cert = n")
    (by decide +kernel) (by decide +kernel) (by decide +kernel) (by decide +kernel)

/-- `%d`. -/
def showInt (n : ℤ) : CStr :=
  if n < 0 then text "-" ++ decimal n.natAbs else decimal n.natAbs

lemma decimal_eq (n : ℕ) : decimal n = (Nat.toDigits 10 n).map fun c => c.toNat.toUInt8 := by
  rw [decimal, text, Nat.toString_eq_repr, Nat.toList_repr]

lemma digit_byte {n : ℕ} {c : Char} (hc : c ∈ Nat.toDigits 10 n) :
    c.toNat.toUInt8.toNat = c.toNat ∧ 48 ≤ c.toNat ∧ c.toNat ≤ 57 := by
  have hdigit := Nat.isDigit_of_mem_toDigits (by decide) le_rfl hc
  simp only [Char.isDigit, Bool.and_eq_true, decide_eq_true_eq] at hdigit
  have hrange : 48 ≤ c.toNat ∧ c.toNat ≤ 57 :=
    ⟨UInt32.le_iff_toNat_le.mp hdigit.1, UInt32.le_iff_toNat_le.mp hdigit.2⟩
  refine ⟨?_, hrange⟩
  rw [Nat.toUInt8, UInt8.toNat_ofNat']
  omega

lemma decimal_digits (n : ℕ) : ∀ b ∈ decimal n, 48 ≤ b ∧ b ≤ 57 := by
  intro b hb
  rw [decimal_eq] at hb
  obtain ⟨c, hc, rfl⟩ := List.mem_map.mp hb
  obtain ⟨hbyte, hlow, hhigh⟩ := digit_byte hc
  rw [UInt8.le_iff_toNat_le, UInt8.le_iff_toNat_le, hbyte]
  exact ⟨hlow, hhigh⟩

/-- Reading digits accumulates their value. -/
lemma digits_map (acc : ℕ) (cs : List Char)
    (h : ∀ c ∈ cs, c.toNat.toUInt8.toNat = c.toNat ∧ 48 ≤ c.toNat ∧ c.toNat ≤ 57) :
    digits acc (cs.map fun c => c.toNat.toUInt8) = Nat.ofDigitChars 10 cs acc := by
  induction cs generalizing acc with
  | nil => rfl
  | cons c cs ih =>
    rw [List.forall_mem_cons] at h
    obtain ⟨⟨hbyte, hlow, hhigh⟩, hrest⟩ := h
    have hdigit : (48 : UInt8) ≤ c.toNat.toUInt8 ∧ c.toNat.toUInt8 ≤ 57 := by
      rw [UInt8.le_iff_toNat_le, UInt8.le_iff_toNat_le, hbyte]
      exact ⟨hlow, hhigh⟩
    have hzero : '0'.toNat = 48 := rfl
    rw [List.map_cons, digits, if_pos hdigit, ih _ hrest, Nat.ofDigitChars_cons, hbyte, hzero,
      Nat.mul_comm acc 10]

lemma digits_decimal (n : ℕ) : digits 0 (decimal n) = n := by
  rw [decimal_eq, digits_map 0 _ fun c hc => digit_byte hc]
  exact Nat.ofDigitChars_toDigits (by decide) le_rfl

lemma decimal_cons (n : ℕ) : ∃ b rest, decimal n = b :: rest ∧ 48 ≤ b ∧ b ≤ 57 := by
  have hne : decimal n ≠ [] := by
    rw [decimal_eq]
    simp [Nat.toDigits_ne_nil]
  obtain ⟨b, rest, hb⟩ := List.exists_cons_of_ne_nil hne
  exact ⟨b, rest, hb, decimal_digits n b (by simp [hb])⟩

lemma isspace_of_le {b : UInt8} (h : 33 ≤ b) : isspace b = false := by
  have hb : 33 ≤ b.toNat := UInt8.le_iff_toNat_le.mp h
  have hne : b ≠ 32 := by
    rintro rfl
    exact absurd h (by decide)
  have hgt : ¬ b ≤ 13 := by
    rw [UInt8.le_iff_toNat_le]
    have h13 : (13 : UInt8).toNat = 13 := rfl
    omega
  simp [isspace, hne, hgt]

lemma numeral_showInt (n : ℤ) : numeral (showInt n) = n := by
  unfold showInt
  split_ifs with hn
  · have htext : text "-" ++ decimal n.natAbs = 45 :: decimal n.natAbs := rfl
    have hskip : (45 :: decimal n.natAbs).dropWhile isspace = 45 :: decimal n.natAbs :=
      List.dropWhile_cons_of_neg (by decide)
    rw [htext, numeral, hskip]
    show -(digits 0 (decimal n.natAbs) : ℤ) = n
    rw [digits_decimal]
    omega
  · obtain ⟨b, rest, hcons, hlow, hhigh⟩ := decimal_cons n.natAbs
    have hdigits := digits_decimal n.natAbs
    have hspace : isspace b = false := isspace_of_le (UInt8.le_trans (by decide) hlow)
    have hskip : (b :: rest).dropWhile isspace = b :: rest :=
      List.dropWhile_cons_of_neg (by simp [hspace])
    rw [hcons] at hdigits ⊢
    rw [numeral, hskip]
    split
    · rename_i heq
      obtain ⟨rfl, -⟩ := List.cons_eq_cons.mp heq
      exact absurd hlow (by decide)
    · rename_i heq
      obtain ⟨rfl, -⟩ := List.cons_eq_cons.mp heq
      exact absurd hlow (by decide)
    · rw [hdigits]
      omega

lemma commentFree_of_not_mem {s : CStr} (h : semicolon ∉ s) (wasSpace : Bool) :
    commentFree wasSpace s = true := by
  induction s generalizing wasSpace with
  | nil => rfl
  | cons c s ih =>
    rw [List.mem_cons, not_or] at h
    rw [commentFree, ih h.2, Bool.and_true, beq_eq_false_iff_ne.mpr (Ne.symm h.1), Bool.and_false,
      Bool.not_false]

/-- Characters that show, without a semicolon, make a value. -/
lemma valueOk_of_visible {s : CStr} (h : ∀ b ∈ s, 33 ≤ b ∧ b ≠ semicolon) : ValueOk s where
  inline := ⟨fun h0 => absurd (h 0 h0).1 (by decide), fun hn => absurd (h _ hn).1 (by decide)⟩
  free := commentFree_of_not_mem (fun hs => (h _ hs).2 rfl) false
  startsClean := fun c hc => isspace_of_le (h c (List.mem_of_head? hc)).1
  endsClean := fun c hc => isspace_of_le (h c (List.mem_of_getLast? hc)).1

lemma showInt_visible (n : ℤ) : ∀ b ∈ showInt n, 33 ≤ b ∧ b ≠ semicolon := by
  have hdecimal : ∀ b ∈ decimal n.natAbs, 33 ≤ b ∧ b ≠ semicolon := by
    intro b hb
    obtain ⟨hlow, hhigh⟩ := decimal_digits n.natAbs b hb
    refine ⟨UInt8.le_trans (by decide) hlow, ?_⟩
    rintro rfl
    exact absurd hhigh (by decide)
  have hsign : ∀ b ∈ text "-", 33 ≤ b ∧ b ≠ semicolon := by
    intro b hb
    have hminus : b = 45 := List.mem_singleton.mp hb
    subst hminus
    decide
  unfold showInt
  split_ifs
  · exact List.forall_mem_append.mpr ⟨hsign, hdecimal⟩
  · exact hdecimal

lemma length_showInt {n : ℤ} (hlow : -2 ^ 31 ≤ n) (hhigh : n < 2 ^ 31) :
    (showInt n).length ≤ 11 := by
  have hdecimal : (decimal n.natAbs).length ≤ 10 := by
    rw [decimal_eq, List.length_map]
    exact (Nat.length_toDigits_le_iff (by decide) (by decide)).mpr (by omega)
  have hsign : (text "-").length = 1 := rfl
  unfold showInt
  split_ifs
  · rw [List.length_append]
    omega
  · omega

/-- The fields that are strings, with their keys. -/
def stringFields (cfg : OtaConfig) : List (Key × Option CStr) :=
  [((text "network", text "server_url"), cfg.serverUrl),
    ((text "network", text "enroll_url"), cfg.enrollUrl),
    ((text "network", text "tls_ca_cert"), cfg.tlsCaCert),
    ((text "network", text "tls_client_cert"), cfg.tlsClientCert),
    ((text "network", text "tls_client_key"), cfg.tlsClientKey),
    ((text "system", text "inbox_manifest_dir"), cfg.inboxManifestDir),
    ((text "system", text "current_manifest_dir"), cfg.currentManifestDir),
    ((text "system", text "manifest_ca_cert"), cfg.manifestCaCert),
    ((text "system", text "log_file"), cfg.logFile),
    ((text "system", text "device_id"), cfg.deviceId)]

/-- The fields that are numbers, with their keys. -/
def intFields (cfg : OtaConfig) : List (Key × ℤ) :=
  [((text "network", text "connect_timeout"), cfg.connectTimeout),
    ((text "network", text "transfer_timeout"), cfg.transferTimeout),
    ((text "network", text "low_speed_limit"), cfg.lowSpeedLimit),
    ((text "network", text "low_speed_time"), cfg.lowSpeedTime),
    ((text "network", text "retry_attempts"), cfg.retryAttempts),
    ((text "system", text "update_interval_sec"), cfg.updateIntervalSec)]

/-- All fields as text; a string that is not set is left out. -/
def fields (cfg : OtaConfig) : List (Key × Option CStr) :=
  stringFields cfg ++ (intFields cfg).map fun f => (f.1, some (showInt f.2))

def fieldEvent (field : Key × Option CStr) : Option Event :=
  field.2.map fun value => ⟨field.1.1, field.1.2, value⟩

/-- The text of a configuration file with this configuration. -/
def configText (cfg : OtaConfig) : Bytes := render ((fields cfg).filterMap fieldEvent)

/-- A configuration that a file can hold: the required strings are there, the
strings fit a line and survive trimming, and the numbers are of type `int`. -/
structure Storable (cfg : OtaConfig) : Prop where
  required : ∀ field ∈ stringFields cfg, field.1 ∈ requiredKeys → field.2.getD [] ≠ []
  strings : ∀ field ∈ stringFields cfg, ∀ value, field.2 = some value →
    ValueOk value ∧ value.length + 30 ≤ iniMaxLine
  ints : ∀ field ∈ intFields cfg, -2 ^ 31 ≤ field.2 ∧ field.2 < 2 ^ 31

lemma fields_keys (cfg : OtaConfig) :
    (fields cfg).map Prod.fst = (fields zeroed).map Prod.fst := by
  simp [fields, stringFields, intFields]

lemma requiredKeys_mem (cfg : OtaConfig) :
    ∀ key ∈ requiredKeys, key ∈ (stringFields cfg).map Prod.fst := by
  have hkeys : (stringFields cfg).map Prod.fst = (stringFields zeroed).map Prod.fst := by
    simp [stringFields]
  rw [hkeys]
  decide +kernel

lemma fields_keys_nodup (cfg : OtaConfig) : ((fields cfg).map Prod.fst).Nodup := by
  rw [fields_keys]
  decide +kernel

lemma filter_fields_nil {fs : List (Key × Option CStr)} {key : Key}
    (h : key ∉ fs.map Prod.fst) :
    (fs.filterMap fieldEvent).filter (fun ev => ev.key = key) = [] := by
  rw [List.filter_eq_nil_iff]
  intro ev hev
  obtain ⟨field, hfield, hsome⟩ := List.mem_filterMap.mp hev
  obtain ⟨value, hvalue, rfl⟩ := Option.map_eq_some_iff.mp hsome
  have hkey : Event.key ⟨field.1.1, field.1.2, value⟩ = field.1 := rfl
  rw [hkey, decide_eq_true_eq]
  exact fun heq => h (heq ▸ List.mem_map_of_mem hfield)

/-- With one event for a key, its value is the last one. -/
lemma lastValue_fields {fs : List (Key × Option CStr)} (hnodup : (fs.map Prod.fst).Nodup)
    {field : Key × Option CStr} (hmem : field ∈ fs) :
    lastValue (fs.filterMap fieldEvent) field.1 = field.2 := by
  obtain ⟨before, later, rfl⟩ := List.append_of_mem hmem
  rw [List.map_append, List.map_cons, List.nodup_append] at hnodup
  obtain ⟨-, hlater, hdisjoint⟩ := hnodup
  have hbefore : field.1 ∉ before.map Prod.fst :=
    fun h => hdisjoint _ h _ (List.mem_cons_self ..) rfl
  have hown : (([field].filterMap fieldEvent).filter fun ev => ev.key = field.1) =
      (fieldEvent field).toList := by
    unfold fieldEvent
    cases hvalue : field.2 with
    | none => simp [hvalue]
    | some value => simp [hvalue, Event.key]
  unfold lastValue
  rw [← List.singleton_append, List.filterMap_append, List.filterMap_append, List.filter_append,
    List.filter_append, filter_fields_nil hbefore, filter_fields_nil (List.nodup_cons.mp hlater).1,
    hown, List.nil_append, List.append_nil]
  unfold fieldEvent
  cases field.2 <;> rfl

/-- The configuration is what its fields say. -/
lemma settings_of_fields {cfg : OtaConfig} {last : Key → Option CStr}
    (hstrings : ∀ field ∈ stringFields cfg, last field.1 = field.2)
    (hints : ∀ field ∈ intFields cfg, (last field.1).map atoi = some field.2) :
    settings last = cfg := by
  simp only [stringFields, List.forall_mem_cons] at hstrings
  simp only [intFields, List.forall_mem_cons] at hints
  unfold settings
  simp only [hstrings, hints, Option.getD_some]

lemma atoi_showInt {n : ℤ} (hlow : -2 ^ 31 ≤ n) (hhigh : n < 2 ^ 31) : atoi (showInt n) = n := by
  have hn := numeral_showInt n
  rw [atoi_of_fits (by rwa [hn]) (by rwa [hn]), hn]

/-- Small letters and underscores. -/
def Word (s : CStr) : Prop := ∀ b ∈ s, 95 ≤ b ∧ b ≤ 122

lemma Word.valueOk {s : CStr} (h : Word s) : ValueOk s := by
  refine valueOk_of_visible fun b hb => ⟨UInt8.le_trans (by decide) (h b hb).1, ?_⟩
  rintro rfl
  exact absurd (h _ hb).1 (by decide)

lemma Word.ne {s : CStr} (h : Word s) {b c : UInt8} (hb : b ∈ s) (hc : c < 95) : b ≠ c := by
  rintro rfl
  exact absurd (h b hb).1 (UInt8.not_le.mpr hc)

lemma Word.sectOk {s : CStr} (h : Word s) : SectOk s where
  inline := h.valueOk.inline
  free := h.valueOk.free
  unclosed := fun c hc => beq_eq_false_iff_ne.mpr (h.ne hc (by decide))

lemma Word.nameOk {s : CStr} (h : Word s) : NameOk s where
  inline := h.valueOk.inline
  free := h.valueOk.free
  unassigned := by
    intro c hc
    simp [isAssign, h.ne hc (show equalsSign < 95 by decide), h.ne hc (show colon < 95 by decide)]
  start := by
    intro c hc
    have hmem := List.mem_of_head? hc
    exact ⟨h.valueOk.startsClean c hc, h.ne hmem (by decide), h.ne hmem (by decide),
      h.ne hmem (by decide)⟩

/-- The keys are short words. -/
lemma fields_key_word (cfg : OtaConfig) :
    ∀ key ∈ (fields cfg).map Prod.fst,
      (Word key.1 ∧ key.1.length < maxSection) ∧ Word key.2 ∧ key.2.length ≤ 20 := by
  rw [fields_keys]
  unfold Word
  decide +kernel

lemma fieldEvent_writable {cfg : OtaConfig} {field : Key × Option CStr}
    (hfield : field ∈ fields cfg)
    {value : CStr} (hvalue : ValueOk value) (hlen : value.length + 30 ≤ iniMaxLine) :
    Writable ⟨field.1.1, field.1.2, value⟩ := by
  obtain ⟨⟨hsect, hsectLen⟩, hname, hnameLen⟩ :=
    fields_key_word cfg field.1 (List.mem_map_of_mem hfield)
  exact
    { wellFormed := ⟨hsect.sectOk, hsectLen, hname.nameOk, fun _ => hname.valueOk.endsClean, hvalue⟩
      nameEnd := hname.valueOk.endsClean
      fits := by
        dsimp only
        omega }

lemma events_writable {cfg : OtaConfig} (h : Storable cfg) :
    ∀ ev ∈ (fields cfg).filterMap fieldEvent, Writable ev := by
  intro ev hev
  obtain ⟨field, hfield, hsome⟩ := List.mem_filterMap.mp hev
  obtain ⟨value, hvalue, rfl⟩ := Option.map_eq_some_iff.mp hsome
  rcases List.mem_append.mp hfield with hstring | hint
  · obtain ⟨hok, hlen⟩ := h.strings field hstring value hvalue
    exact fieldEvent_writable hfield hok hlen
  · obtain ⟨⟨key, n⟩, hmem, rfl⟩ := List.mem_map.mp hint
    obtain rfl : showInt n = value := Option.some.inj hvalue
    obtain ⟨hlow, hhigh⟩ := h.ints (key, n) hmem
    have hlen : (showInt n).length ≤ 11 := length_showInt hlow hhigh
    have hmax : iniMaxLine = 200 := rfl
    exact fieldEvent_writable hfield (valueOk_of_visible (showInt_visible n)) (by omega)

lemma lastValue_configText {cfg : OtaConfig} (h : Storable cfg) :
    settings (lastValue ((fields cfg).filterMap fieldEvent)) = cfg := by
  refine settings_of_fields ?_ ?_
  · intro field hfield
    exact lastValue_fields (fields_keys_nodup cfg) (List.mem_append_left _ hfield)
  · intro field hfield
    have hmem : (field.1, some (showInt field.2)) ∈ fields cfg :=
      List.mem_append_right _ (List.mem_map.mpr ⟨field, hfield, rfl⟩)
    obtain ⟨hlow, hhigh⟩ := h.ints field hfield
    rw [lastValue_fields (fields_keys_nodup cfg) hmem, Option.map_some, atoi_showInt hlow hhigh]

/-- What is stored is loaded, field by field. -/
theorem configLoadFile_configText (cfg : OtaConfig) (h : Storable cfg) :
    configLoadFile (some ⟨configText cfg, false⟩) = .ok ⟨0, some cfg, []⟩ := by
  have hrequired : firstMissing (lastValue ((fields cfg).filterMap fieldEvent)) requiredKeys =
      .ok () := by
    rw [firstMissing_ok_iff]
    intro key hkey
    obtain ⟨field, hfield, rfl⟩ := List.mem_map.mp (requiredKeys_mem cfg key hkey)
    have hset := h.required field hfield hkey
    rw [lastValue_fields (fields_keys_nodup cfg) (List.mem_append_left _ hfield)]
    cases hvalue : field.2 with
    | none => simp [hvalue] at hset
    | some value => exact ⟨value, rfl, by simpa [hvalue] using hset⟩
  have hall : handleAll ((fields cfg).filterMap fieldEvent) = cfg := by
    rw [handleAll_eq, lastValue_configText h]
  have hload : configLoad 0 ((fields cfg).filterMap fieldEvent) = ⟨0, some cfg, []⟩ := by
    rw [← validateRequired_settings, ← handleAll_eq] at hrequired
    rw [configLoad, if_neg (by simp), hrequired, hall]
  rw [configLoadFile_eq, configText, iniParse_render (events_writable h)]
  exact congrArg Except.ok hload

def gatewayConfig : OtaConfig :=
  { zeroed with
    serverUrl := some (text "https://localhost:8443")
    tlsCaCert := some (text "trust/tls-ca-chain.pem")
    tlsClientCert := some (text "client/client.crt")
    tlsClientKey := some (text "client/client.key")
    connectTimeout := 5
    retryAttempts := -1
    inboxManifestDir := some (text "var/lib/ota-fetch/inbox")
    currentManifestDir := some (text "var/lib/ota-fetch/current")
    manifestCaCert := some (text "trust/manifest-ca-chain.pem") }

lemma gatewayConfig_storable : Storable gatewayConfig where
  required := by decide +kernel
  strings := by
    have hvisible : ∀ field ∈ stringFields gatewayConfig, ∀ value ∈ field.2,
        (∀ b ∈ value, 33 ≤ b ∧ b ≠ semicolon) ∧ value.length + 30 ≤ iniMaxLine := by
      decide +kernel
    intro field hfield value hvalue
    obtain ⟨hbytes, hlen⟩ := hvisible field hfield value hvalue
    exact ⟨valueOk_of_visible hbytes, hlen⟩
  ints := by decide +kernel

theorem configLoadFile_configText_gateway :
    Storable gatewayConfig ∧
      configLoadFile (some ⟨configText gatewayConfig, false⟩) =
        .ok ⟨0, some gatewayConfig, []⟩ :=
  ⟨gatewayConfig_storable, configLoadFile_configText gatewayConfig gatewayConfig_storable⟩

end OtaFetch.ConfigFile
