import OtaFetch.GetOpt
import OtaFetch.ConfigFile
import OtaFetch.Enroll
import OtaFetch.Log

/-!
# The command line

`main` reads the command line and the configuration before it does anything. The
first request for help and the first mistake both end the program, whichever comes
first; of the other options the last one of a kind counts, and operands are
passed over.
-/
namespace OtaFetch.CommandLine
open CPath Config ConfigLoad ConfigFile GetOpt Machine Releases Update Enroll Log
open Ini (FileIn Fault)

inductive RunMode where
  | oneshot
  | daemon
  deriving Repr, DecidableEq

/-- What `print_usage` sends to standard output. -/
def printUsage (progname : CStr) : Bytes :=
  text "Usage:\n" ++
    (text "  " ++ progname ++ text " [--daemon] [--oneshot] [--debug] [--config=PATH]\n") ++
    (text "  " ++ progname ++ text " enroll [--config PATH] [--token-file PATH] [--force] " ++
      text "[--debug]\n")

def letter (c : Char) : UInt8 := c.toNat.toUInt8

def fetchOptions : Spec where
  optstring := text "doc:vh"
  longopts :=
    [⟨text "daemon", false, letter 'd'⟩, ⟨text "oneshot", false, letter 'o'⟩,
      ⟨text "config", true, letter 'c'⟩, ⟨text "debug", false, letter 'v'⟩,
      ⟨text "help", false, letter 'h'⟩]

def enrollOptions : Spec where
  optstring := text "c:t:fvh"
  longopts :=
    [⟨text "config", true, letter 'c'⟩, ⟨text "token-file", true, letter 't'⟩,
      ⟨text "force", false, letter 'f'⟩, ⟨text "debug", false, letter 'v'⟩,
      ⟨text "help", false, letter 'h'⟩]

/-- What the pointers that are passed to `parse_fetch_args` point to, and what is
written to standard output. -/
structure FetchArgs where
  configPath : Option CStr
  mode : RunMode
  debugEnabled : Bool
  stdout : Bytes
  deriving Repr, DecidableEq

/-- The body of the loop in `parse_fetch_args`. -/
def fetchOption (progname : CStr) (st : FetchArgs) : Found → Option ℤ × FetchArgs
  | .option val optarg =>
    if val = letter 'd' then (none, { st with mode := .daemon })
    else if val = letter 'o' then (none, { st with mode := .oneshot })
    else if val = letter 'c' then (none, { st with configPath := optarg })
    else if val = letter 'v' then (none, { st with debugEnabled := true })
    else if val = letter 'h' then (some 1, { st with stdout := printUsage progname })
    else (some (-1), { st with stdout := printUsage progname })
  | .bad => (some (-1), { st with stdout := printUsage progname })

def parseFetchArgs (posix : Bool) (progname : CStr) (args : List CStr) (st : FetchArgs) :
    ℤ × FetchArgs :=
  getoptLoop posix fetchOptions (fetchOption progname) ⟨[], args⟩ st

structure EnrollArgs where
  configPath : Option CStr
  tokenFile : Option CStr
  force : Bool
  debugEnabled : Bool
  stdout : Bytes
  deriving Repr, DecidableEq

/-- The body of the loop in `parse_enroll_args`. -/
def enrollOption (progname : CStr) (st : EnrollArgs) : Found → Option ℤ × EnrollArgs
  | .option val optarg =>
    if val = letter 'c' then (none, { st with configPath := optarg })
    else if val = letter 't' then (none, { st with tokenFile := optarg })
    else if val = letter 'f' then (none, { st with force := true })
    else if val = letter 'v' then (none, { st with debugEnabled := true })
    else if val = letter 'h' then (some 1, { st with stdout := printUsage progname })
    else (some (-1), { st with stdout := printUsage progname })
  | .bad => (some (-1), { st with stdout := printUsage progname })

def parseEnrollArgs (posix : Bool) (progname : CStr) (args : List CStr) (st : EnrollArgs) :
    ℤ × EnrollArgs :=
  getoptLoop posix enrollOptions (enrollOption progname) ⟨[], args⟩ st

def defaultConfig : CStr := text "/etc/ota-fetch/ota-fetch.conf"
def defaultToken : CStr := text "/var/lib/ota-fetch/identity/enroll.token"

/-- What `main` does once it has read the command line and the configuration:
it returns, having printed and logged something, or it starts to work. -/
inductive Plan where
  | leave (rc : ℤ) (stdout : Bytes) (errors : List CStr)
  | fetch (logLevel : ℤ) (daemonMode : Bool) (cfg : OtaConfig)
  | enroll (logLevel : ℤ) (cfg : OtaConfig) (tokenFile : Option CStr) (force : Bool)
  deriving DecidableEq

/-- The line that `main` logs for a configuration that is not loaded. -/
def configError (path : CStr) (rc : ℤ) : CStr :=
  if 0 < rc then
    text "Failed to load config " ++ path ++ text " (parse error near line " ++ showInt rc ++
      text ")"
  else text "Failed to load config: " ++ path

/-- `main` from the call of `config_load` on. A path that is `NULL` names no file. -/
def withConfig (files : CStr → Option FileIn) (configPath : Option CStr)
    (work : OtaConfig → Plan) : Except Fault Plan := do
  let loaded ← configLoadFile (configPath.bind files)
  match loaded.config with
  | none => pure (.leave 1 [] (loaded.errors ++ [configError (configPath.getD []) loaded.rc]))
  | some cfg => pure (work cfg)

def levelOf (debugEnabled : Bool) : ℤ := if debugEnabled then logLevelDebug else logLevelInfo

def isEnroll (argv : List CStr) : Bool := argv[1]? == some (text "enroll")

/-- `main` up to the call of `ota_fetch_run` or `ota_fetch_enroll`. -/
def mainPlan (posix : Bool) (files : CStr → Option FileIn) (argv : List CStr) :
    Except Fault Plan :=
  let progname := argv.headD []
  if isEnroll argv then
    let (rc, st) := parseEnrollArgs posix progname (argv.drop 2)
      ⟨some defaultConfig, some defaultToken, false, false, []⟩
    if 0 < rc then .ok (.leave 0 st.stdout [])
    else if rc < 0 then .ok (.leave 1 st.stdout [])
    else
      withConfig files st.configPath fun cfg =>
        .enroll (levelOf st.debugEnabled) cfg st.tokenFile st.force
  else
    let (rc, st) := parseFetchArgs posix progname (argv.drop 1)
      ⟨some defaultConfig, .oneshot, false, []⟩
    if 0 < rc then .ok (.leave 0 st.stdout [])
    else if rc < 0 then .ok (.leave 1 st.stdout [])
    else
      withConfig files st.configPath fun cfg =>
        .fetch (levelOf st.debugEnabled) (st.mode = .daemon) cfg

/-- The result of `main` for a plan. -/
def Plan.carryOut (cjson : CJson) (fuel : ℕ) : Plan → Proc (Option ℤ)
  | .leave rc _ _ => pure (some rc)
  | .fetch _ daemonMode cfg => otaFetchRun fuel daemonMode cfg
  | .enroll _ cfg tokenFile force => otaFetchEnroll cjson fuel cfg tokenFile force

def main (cjson : CJson) (fuel : ℕ) (posix : Bool) (files : CStr → Option FileIn)
    (argv : List CStr) : Except Fault (Proc (Option ℤ)) :=
  (mainPlan posix files argv).map (Plan.carryOut cjson fuel)

/-- A mistake or a request for help. -/
def Item.ends : Item → Bool
  | .bad => true
  | .option val _ => val == letter 'h'
  | .operand _ => false

def argOf (c : UInt8) : Item → Option CStr
  | .option val (some arg) => if val = c then some arg else none
  | _ => none

def isOption (c : UInt8) : Item → Bool
  | .option val _ => val == c
  | _ => false

def modeOf : Item → Option RunMode
  | .option val _ =>
    if val = letter 'd' then some .daemon
    else if val = letter 'o' then some .oneshot
    else none
  | _ => none

/-- The argument of the last option with this letter. -/
def lastArg (c : Char) (items : List Item) : Option CStr :=
  (items.filterMap (argOf (letter c))).getLast?

def given (c : Char) (items : List Item) : Bool := items.any (isOption (letter c))

def lastMode (items : List Item) : Option RunMode := (items.filterMap modeOf).getLast?

/-- What a command line asks for: the first mistake or request for help decides,
and without one the last option of each kind. -/
def commandPlan (files : CStr → Option FileIn) (progname : CStr) (enrolls : Bool)
    (items : List Item) : Except Fault Plan :=
  match items.find? Item.ends with
  | some .bad => .ok (.leave 1 (printUsage progname) [])
  | some _ => .ok (.leave 0 (printUsage progname) [])
  | none =>
    withConfig files (some ((lastArg 'c' items).getD defaultConfig)) fun cfg =>
      if enrolls then
        .enroll (levelOf (given 'v' items)) cfg (some ((lastArg 't' items).getD defaultToken))
          (given 'f' items)
      else
        .fetch (levelOf (given 'v' items)) ((lastMode items).getD .oneshot = .daemon) cfg

lemma getLast?_filterMap_cons {α β : Type} (f : α → Option β) (x : α) (xs : List α) :
    ((x :: xs).filterMap f).getLast? = ((xs.filterMap f).getLast?).or (f x) := by
  cases hx : f x with
  | none => rw [List.filterMap_cons_none hx, Option.or_none]
  | some y =>
    rw [List.filterMap_cons_some hx, List.getLast?_cons]
    cases (xs.filterMap f).getLast? <;> rfl

lemma lastArg_cons (c : Char) (item : Item) (items : List Item) :
    lastArg c (item :: items) = (lastArg c items).or (argOf (letter c) item) :=
  getLast?_filterMap_cons _ _ _

/-- What an option of `parse_fetch_args` does that does not end it. -/
def fetchNext (st : FetchArgs) (item : Item) : FetchArgs where
  configPath := (argOf (letter 'c') item).or st.configPath
  mode := (modeOf item).getD st.mode
  debugEnabled := isOption (letter 'v') item || st.debugEnabled
  stdout := st.stdout

def enrollNext (st : EnrollArgs) (item : Item) : EnrollArgs where
  configPath := (argOf (letter 'c') item).or st.configPath
  tokenFile := (argOf (letter 't') item).or st.tokenFile
  force := isOption (letter 'f') item || st.force
  debugEnabled := isOption (letter 'v') item || st.debugEnabled
  stdout := st.stdout

lemma foldl_fetchNext (items : List Item) (st : FetchArgs) :
    items.foldl fetchNext st =
      ⟨(lastArg 'c' items).or st.configPath, (lastMode items).getD st.mode,
        given 'v' items || st.debugEnabled, st.stdout⟩ := by
  induction items generalizing st with
  | nil => rfl
  | cons item items ih =>
    have hmode : lastMode (item :: items) = (lastMode items).or (modeOf item) :=
      getLast?_filterMap_cons _ _ _
    have hmode' : (lastMode items).getD ((modeOf item).getD st.mode) =
        ((lastMode items).or (modeOf item)).getD st.mode := by
      cases lastMode items <;> rfl
    rw [List.foldl_cons, ih, lastArg_cons, hmode, ← hmode']
    simp only [fetchNext, given, List.any_cons, Option.or_assoc, FetchArgs.mk.injEq, true_and,
      and_true]
    cases isOption (letter 'v') item <;> simp

lemma foldl_enrollNext (items : List Item) (st : EnrollArgs) :
    items.foldl enrollNext st =
      ⟨(lastArg 'c' items).or st.configPath, (lastArg 't' items).or st.tokenFile,
        given 'f' items || st.force, given 'v' items || st.debugEnabled, st.stdout⟩ := by
  induction items generalizing st with
  | nil => rfl
  | cons item items ih =>
    rw [List.foldl_cons, ih, lastArg_cons, lastArg_cons]
    simp only [enrollNext, given, List.any_cons, Option.or_assoc, EnrollArgs.mk.injEq, true_and,
      and_true]
    constructor
    · cases isOption (letter 'f') item <;> simp
    · cases isOption (letter 'v') item <;> simp

lemma fetchOptions_has {val : UInt8} {hasArg : Bool} (h : fetchOptions.Has val hasArg) :
    (val, hasArg) ∈ [(letter 'd', false), (letter 'o', false), (letter 'c', true),
      (letter 'v', false), (letter 'h', false)] :=
  h.mem (by decide +kernel) (by decide +kernel)

lemma enrollOptions_has {val : UInt8} {hasArg : Bool} (h : enrollOptions.Has val hasArg) :
    (val, hasArg) ∈ [(letter 'c', true), (letter 't', true), (letter 'f', false),
      (letter 'v', false), (letter 'h', false)] :=
  h.mem (by decide +kernel) (by decide +kernel)

/-- The result of the parsing functions at a mistake or a request for help. -/
def endCode : Item → ℤ
  | .bad => -1
  | _ => 1

lemma ends_cases {item : Item} (h : Item.ends item = true) :
    item = .bad ∨ ∃ arg, item = .option (letter 'h') arg := by
  cases item with
  | bad => exact .inl rfl
  | operand word => cases h
  | option val arg =>
    have hval : val = letter 'h' := by simpa [Item.ends] using h
    exact .inr ⟨arg, by rw [hval]⟩

lemma parseFetchArgs_items {posix : Bool} {args : List CStr} {items : List Item}
    (h : Written posix fetchOptions args items) (progname : CStr) (st : FetchArgs) :
    (∀ item, items.find? Item.ends = some item →
      (parseFetchArgs posix progname args st).1 = endCode item ∧
        (parseFetchArgs posix progname args st).2.stdout = printUsage progname) ∧
    (items.find? Item.ends = none →
      parseFetchArgs posix progname args st = (0, items.foldl fetchNext st)) := by
  rw [parseFetchArgs, h.getoptLoop]
  refine handleFinds_items items Item.ends fetchNext endCode
    (fun st => st.stdout = printUsage progname) ?_ ?_ st
  · intro item _ hends
    rcases ends_cases hends with rfl | ⟨arg, rfl⟩
    · exact ⟨.bad, rfl, fun st => ⟨rfl, rfl⟩⟩
    · exact ⟨.option (letter 'h') arg, rfl, fun st => ⟨rfl, rfl⟩⟩
  · intro item hmem hends st
    cases item with
    | bad => cases hends
    | operand word => exact .inl ⟨rfl, rfl⟩
    | option val arg =>
      have hhas := fetchOptions_has (h.has hmem)
      simp only [List.mem_cons, List.not_mem_nil, or_false, Prod.mk.injEq] at hhas
      rcases hhas with ⟨rfl, harg⟩ | ⟨rfl, harg⟩ | ⟨rfl, harg⟩ | ⟨rfl, harg⟩ | ⟨rfl, harg⟩
      · obtain rfl : arg = none := by simpa using harg
        exact .inr ⟨_, rfl, rfl⟩
      · obtain rfl : arg = none := by simpa using harg
        exact .inr ⟨_, rfl, rfl⟩
      · obtain ⟨path, rfl⟩ := Option.isSome_iff_exists.mp harg
        exact .inr ⟨_, rfl, rfl⟩
      · obtain rfl : arg = none := by simpa using harg
        exact .inr ⟨_, rfl, rfl⟩
      · cases hends

lemma parseEnrollArgs_items {posix : Bool} {args : List CStr} {items : List Item}
    (h : Written posix enrollOptions args items) (progname : CStr) (st : EnrollArgs) :
    (∀ item, items.find? Item.ends = some item →
      (parseEnrollArgs posix progname args st).1 = endCode item ∧
        (parseEnrollArgs posix progname args st).2.stdout = printUsage progname) ∧
    (items.find? Item.ends = none →
      parseEnrollArgs posix progname args st = (0, items.foldl enrollNext st)) := by
  rw [parseEnrollArgs, h.getoptLoop]
  refine handleFinds_items items Item.ends enrollNext endCode
    (fun st => st.stdout = printUsage progname) ?_ ?_ st
  · intro item _ hends
    rcases ends_cases hends with rfl | ⟨arg, rfl⟩
    · exact ⟨.bad, rfl, fun st => ⟨rfl, rfl⟩⟩
    · exact ⟨.option (letter 'h') arg, rfl, fun st => ⟨rfl, rfl⟩⟩
  · intro item hmem hends st
    cases item with
    | bad => cases hends
    | operand word => exact .inl ⟨rfl, rfl⟩
    | option val arg =>
      have hhas := enrollOptions_has (h.has hmem)
      simp only [List.mem_cons, List.not_mem_nil, or_false, Prod.mk.injEq] at hhas
      rcases hhas with ⟨rfl, harg⟩ | ⟨rfl, harg⟩ | ⟨rfl, harg⟩ | ⟨rfl, harg⟩ | ⟨rfl, harg⟩
      · obtain ⟨path, rfl⟩ := Option.isSome_iff_exists.mp harg
        exact .inr ⟨_, rfl, rfl⟩
      · obtain ⟨path, rfl⟩ := Option.isSome_iff_exists.mp harg
        exact .inr ⟨_, rfl, rfl⟩
      · obtain rfl : arg = none := by simpa using harg
        exact .inr ⟨_, rfl, rfl⟩
      · obtain rfl : arg = none := by simpa using harg
        exact .inr ⟨_, rfl, rfl⟩
      · cases hends

lemma or_some_eq (arg : Option CStr) (path : CStr) : arg.or (some path) = some (arg.getD path) := by
  cases arg <;> rfl

lemma mainPlan_enroll {posix : Bool} {argv : List CStr} {items : List Item}
    (files : CStr → Option FileIn) (henroll : isEnroll argv = true)
    (h : Written posix enrollOptions (argv.drop 2) items) :
    mainPlan posix files argv = commandPlan files (argv.headD []) true items := by
  obtain ⟨hends, hgoes⟩ := parseEnrollArgs_items h (argv.headD [])
    ⟨some defaultConfig, some defaultToken, false, false, []⟩
  unfold mainPlan commandPlan
  simp only [henroll, if_true]
  cases hfind : items.find? Item.ends with
  | none =>
    rw [hgoes hfind, foldl_enrollNext]
    simp only [or_some_eq, Bool.or_false, lt_self_iff_false, if_false]
  | some item =>
    obtain ⟨hrc, hstdout⟩ := hends item hfind
    rw [hrc, hstdout]
    rcases ends_cases (List.find?_some hfind) with rfl | ⟨arg, rfl⟩
    · rfl
    · rfl

lemma mainPlan_fetch {posix : Bool} {argv : List CStr} {items : List Item}
    (files : CStr → Option FileIn) (hfetch : isEnroll argv = false)
    (h : Written posix fetchOptions (argv.drop 1) items) :
    mainPlan posix files argv = commandPlan files (argv.headD []) false items := by
  obtain ⟨hends, hgoes⟩ := parseFetchArgs_items h (argv.headD [])
    ⟨some defaultConfig, .oneshot, false, []⟩
  unfold mainPlan commandPlan
  simp only [hfetch, Bool.false_eq_true, if_false]
  cases hfind : items.find? Item.ends with
  | none =>
    rw [hgoes hfind, foldl_fetchNext]
    simp only [or_some_eq, Bool.or_false, lt_self_iff_false, if_false]
  | some item =>
    obtain ⟨hrc, hstdout⟩ := hends item hfind
    rw [hrc, hstdout]
    rcases ends_cases (List.find?_some hfind) with rfl | ⟨arg, rfl⟩
    · rfl
    · rfl

/-- An abbreviation, an operand, and letters in one word with their argument in the next. -/
example : parseFetchArgs false (text "ota-fetch")
    [text "--dae", text "extra", text "-vc", text "device.conf"]
    ⟨some defaultConfig, .oneshot, false, []⟩ =
      (0, ⟨some (text "device.conf"), .daemon, true, []⟩) := by
  decide +kernel

end OtaFetch.CommandLine
