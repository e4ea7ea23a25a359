import OtaFetch.Fetch

/-!
# The update loop

One iteration cleans the inbox, downloads the manifest with its signature and
certificate, verifies, compares with the current manifest, loads, downloads the
payload, validates it and applies it. The stages hand data to each other through
files that are read again by path. Every stage that fails ends the iteration;
the loop then retries (one-shot) or waits for the next poll (daemon). The loop
has no bound in daemon mode, so it is given a number of iterations to run, and a
run that is still going after them has no return code.
-/
namespace OtaFetch.Update
open CPath FileTree Interaction Machine Config Releases Hash Verify Fetch

structure OtaCtx where
  config : OtaConfig
  currentManifestPath : CStr
  inboxManifestPath : CStr
  inboxSigPath : CStr
  inboxCertPath : CStr
  inboxManifest : Option Manifest
  payloadPath : Option CStr
  release : Option ManifestRelease

def manifestName : CStr := text "manifest.json"
def sigName : CStr := text "manifest.json.sig"
def certName : CStr := text "signer.crt"

/-- All four paths are built even after a failure; the context is used only
when none failed. -/
def otaCtxInit (cfg : OtaConfig) : Proc (Option OtaCtx) := do
  let current ← buildPath cfg.currentManifestDir (some manifestName)
  let inbox ← buildPath cfg.inboxManifestDir (some manifestName)
  let sig ← buildPath cfg.inboxManifestDir (some sigName)
  let cert ← buildPath cfg.inboxManifestDir (some certName)
  match current, inbox, sig, cert with
  | some current, some inbox, some sig, some cert =>
    pure (some ⟨cfg, current, inbox, sig, cert, none, none, none⟩)
  | _, _, _, _ => pure none

/-- `strcmp(name + strlen(name) - 4, ".tmp") == 0`, for names of four bytes or more. -/
def endsTmp (name : CStr) : Bool :=
  decide (4 ≤ name.length ∧ name.drop (name.length - 4) = text ".tmp")

def cleanupLoop (dir : CStr) : List CStr → Proc Unit
  | [] => pure ()
  | name :: rest =>
    if endsTmp name then do
      match ← buildPath (some dir) (some name) with
      | none => cleanupLoop dir rest
      | some tmpPath => do
        let _ ← call (.unlink tmpPath)
        cleanupLoop dir rest
    else cleanupLoop dir rest

def otaInboxCleanup (ctx : OtaCtx) : Proc Unit := do
  let _ ← call (.unlink ctx.inboxManifestPath)
  let _ ← call (.unlink ctx.inboxSigPath)
  let _ ← call (.unlink ctx.inboxCertPath)
  match ctx.config.inboxManifestDir with
  | none => pure ()
  | some dir =>
    match ← call (.opendir dir) with
    | .error _ => pure ()
    | .ok names => cleanupLoop dir names

def fetchNewManifest (ctx : OtaCtx) : Proc ℤ := do
  let manifestUrl ← buildPath ctx.config.serverUrl (some manifestName)
  let sigUrl ← buildPath ctx.config.serverUrl (some sigName)
  let certUrl ← buildPath ctx.config.serverUrl (some certName)
  match manifestUrl, sigUrl, certUrl with
  | some manifestUrl, some sigUrl, some certUrl => do
    let rc1 ← fetchFile manifestUrl ctx.inboxManifestPath ctx.config false
    let rc2 ← fetchFile sigUrl ctx.inboxSigPath ctx.config false
    let rc3 ← fetchFile certUrl ctx.inboxCertPath ctx.config false
    pure (if rc1 ≠ 0 ∨ rc2 ≠ 0 ∨ rc3 ≠ 0 then 1 else 0)
  | _, _, _ => pure (-1)

/-- The verification `validate_new_manifest` asks for. -/
abbrev verifyCall (ctx : OtaCtx) : Call :=
  .verify (some ctx.inboxManifestPath) (some ctx.inboxSigPath) (some ctx.inboxCertPath)
    ctx.config.manifestCaCert verifyErrbufLen

def validateNewManifest (ctx : OtaCtx) : Proc ℤ := do
  let vres ← call (verifyCall ctx)
  if vres.1 ≠ .ok then pure (-1) else pure 0

inductive FilesEqual where
  | eq | neq | err
  deriving Repr, DecidableEq

def fileExists (path : CStr) : Proc Bool := do
  match ← call (.stat path) with
  | .ok () => pure true
  | .error _ => pure false

def filesEqual (path1 path2 : CStr) : Proc FilesEqual := do
  let hash1 ← call (.sha256sum (some path1))
  let hash2 ← call (.sha256sum (some path2))
  match hash1, hash2 with
  | .ok hash1, .ok hash2 => pure (if hash1.bytes = hash2.bytes then .eq else .neq)
  | _, _ => pure .err

def compareManifests (ctx : OtaCtx) : Proc FilesEqual := do
  if !(← fileExists ctx.currentManifestPath) then pure .neq
  else if !(← fileExists ctx.inboxManifestPath) then pure .err
  else filesEqual ctx.currentManifestPath ctx.inboxManifestPath

/-- `mkdir_p` refuses `NULL` before it looks at anything. -/
def mkdirPOrNull (path : Option CStr) (mode : ℕ) : Proc ℤ :=
  match path with
  | some path => mkdirP path mode
  | none => pure (-1)

def makeNewManifestCurrent (ctx : OtaCtx) : Proc ℤ := do
  let _ ← mkdirPOrNull ctx.config.currentManifestDir 493
  let _ ← call (.unlink ctx.currentManifestPath)
  match ← call (.rename ctx.inboxManifestPath ctx.currentManifestPath) with
  | .error _ => pure (-1)
  | .ok () => pure 0

def fetchRelease (ctx : OtaCtx) : Proc (ℤ × OtaCtx) :=
  let ctx := { ctx with release := manifestSelectRelease ctx.inboxManifest ctx.config.deviceId }
  match ctx.release with
  | none => pure (-1, ctx)
  | some release =>
    match release.files with
    | [] => pure (-1, ctx)
    | file :: _ =>
      match file.filename, file.path, file.sha256, file.fileType with
      | some filename, some path, some _, some _ => do
        let payloadPath ← buildPath ctx.config.inboxManifestDir (some filename)
        let ctx := { ctx with payloadPath := payloadPath }
        match payloadPath with
        | none => pure (-1, ctx)
        | some payloadPath => do
          match ← buildPath ctx.config.serverUrl (some path) with
          | none => pure (-1, ctx)
          | some payloadUrl => do
            let ret ← fetchFile payloadUrl payloadPath ctx.config true
            pure (ret, ctx)
      | _, _, _, _ => pure (-1, ctx)

/-- The first file of the release in use. -/
def firstFile (ctx : OtaCtx) : Option ManifestFile :=
  match ctx.release with
  | none => none
  | some release => release.files.head?

/-- The hash is formatted into `char hash_string[65]` and compared as a C string. -/
def validateRelease (ctx : OtaCtx) : Proc ℤ :=
  match (firstFile ctx).bind ManifestFile.sha256 with
  | none => pure (-1)
  | some expected => do
    match ← call (.sha256sum ctx.payloadPath) with
    | .error _ => pure (-1)
    | .ok hash =>
      let hashString := List.replicate (sha256DigestLen * 2 + 1) 0
      match hexEncode (some hashString) (sha256DigestLen * 2 + 1) (some hash.bytes) with
      | (rc, some hashString) =>
        if rc ≠ 0 then pure (-1)
        else if cstring hashString ≠ expected then pure (-1)
        else pure 0
      | (_, none) => pure (-1)

def raucBundleTest : CStr := text "rauc_bundle_test"
def raucBundle : CStr := text "rauc_bundle"

/-- The argument vector ends at the first `NULL`. -/
def raucArgv (payloadPath : Option CStr) : List CStr :=
  text "rauc" :: text "install" :: payloadPath.toList

def applyRelease (ctx : OtaCtx) : Proc ℤ :=
  match (firstFile ctx).bind ManifestFile.fileType with
  | none => pure (-1)
  | some fileType =>
    if fileType = raucBundleTest then do
      if (← makeNewManifestCurrent ctx) ≠ 0 then pure (-1) else pure 0
    else if fileType = raucBundle then do
      match ← call (.spawn (raucArgv ctx.payloadPath)) with
      | .error _ => pure (-1)
      | .ok () =>
        match ← call .waitpid with
        | .error _ => pure (-1)
        | .ok (.exited status) =>
          if status ≠ 0 then pure (-1)
          else if (← makeNewManifestCurrent ctx) ≠ 0 then pure 1
          else do
            call .sync
            call .reboot
            pure 0
        | .ok (.signaled _) => pure (-1)
        | .ok .other => pure (-1)
    else pure 1

/-- An iteration makes the whole function return, or reaches `attempt_end`. -/
inductive AttemptEnd where
  | returned (rc : ℤ)
  | ended (rc : ℤ)
  deriving Repr, DecidableEq

def attempt (daemonMode : Bool) (cfg : OtaConfig) : Proc AttemptEnd := do
  call .startCheck
  match ← otaCtxInit cfg with
  | none => pure (.ended (-1))
  | some ctx => do
    otaInboxCleanup ctx
    let rc ← fetchNewManifest ctx
    if rc ≠ 0 then pure (.ended rc)
    else
      let rc ← validateNewManifest ctx
      if rc ≠ 0 then pure (.ended rc)
      else
        match ← compareManifests ctx with
        | .eq => if daemonMode then pure (.ended 0) else pure (.returned 0)
        | .err => pure (.ended (-1))
        | .neq =>
          match ← call (.load ctx.inboxManifestPath) with
          | none => pure (.ended (-1))
          | some m =>
            let (rc, ctx) ← fetchRelease { ctx with inboxManifest := some m }
            if rc ≠ 0 then pure (.ended rc)
            else
              let rc ← validateRelease ctx
              if rc ≠ 0 then pure (.ended rc)
              else
                let rc ← applyRelease ctx
                if rc = 0 ∧ daemonMode = false then pure (.returned rc) else pure (.ended rc)

def fetchIntervalSec : ℤ := 3600
def retryDelay : ℤ := 5

/-- Sleep, then look at `g_terminate`. -/
def pause (seconds : ℤ) : Proc Bool := do
  call (.sleep seconds)
  call .terminated

/-- `while (1)` with the count of attempts made so far. -/
def otaFetchLoop (daemonMode : Bool) (cfg : OtaConfig) (interval : ℤ) :
    ℕ → ℤ → Proc (Option ℤ)
  | 0, _ => pure none
  | fuel + 1, made => do
    match ← attempt daemonMode cfg with
    | .returned rc => pure (some rc)
    | .ended rc =>
      if daemonMode then
        if ← pause interval then pure (some 0)
        else otaFetchLoop daemonMode cfg interval fuel made
      else if made + 1 < cfg.retryAttempts then
        if ← pause retryDelay then pure (some 0)
        else otaFetchLoop daemonMode cfg interval fuel (made + 1)
      else pure (some rc)

def otaFetchRun (fuel : ℕ) (daemonMode : Bool) (cfg : OtaConfig) : Proc (Option ℤ) :=
  let interval := if 0 < cfg.updateIntervalSec then cfg.updateIntervalSec else fetchIntervalSec
  otaFetchLoop daemonMode cfg interval fuel 0

lemma buildPath_obeys {E : (c : Call) → Resp c → Prop} {A : Call → Prop} (dir : Option CStr)
    (f : CStr) (h : A .malloc) :
    Obeys E A (fun r => ∀ p, r = some p → ∃ d, dir = some d ∧ p = join d f)
      (buildPath dir (some f)) := by
  cases dir with
  | none => exact Obeys.ret (by simp)
  | some d =>
    refine Obeys.call h (fun ok _ => ?_)
    split
    · refine Obeys.ret ?_
      intro p hp
      exact ⟨d, rfl, (Option.some.inj hp).symm⟩
    · exact Obeys.ret (by simp)

/-- The paths of a context are those its configuration asks for. -/
structure OtaCtx.Built (cfg : OtaConfig) (ctx : OtaCtx) (inbox current : CStr) : Prop where
  config : ctx.config = cfg
  inboxDir : cfg.inboxManifestDir = some inbox
  currentDir : cfg.currentManifestDir = some current
  currentManifest : ctx.currentManifestPath = join current manifestName
  inboxManifest : ctx.inboxManifestPath = join inbox manifestName
  inboxSig : ctx.inboxSigPath = join inbox sigName
  inboxCert : ctx.inboxCertPath = join inbox certName

/-- The inbox and the current manifest lie in different directories. -/
def DirsApart (cwd : Path) (cfg : OtaConfig) : Prop :=
  ∀ inbox current, cfg.inboxManifestDir = some inbox → cfg.currentManifestDir = some current →
    dirPlace cwd inbox ≠ dirPlace cwd current

lemma otaCtxInit_obeys (E : (c : Call) → Resp c → Prop) (cfg : OtaConfig) :
    Obeys E (· = .malloc)
      (fun r => ∀ ctx, r = some ctx → ∃ inbox current, ctx.Built cfg inbox current)
      (otaCtxInit cfg) := by
  unfold otaCtxInit
  refine Obeys.bind (buildPath_obeys _ _ rfl) (fun c hc => ?_)
  refine Obeys.bind (buildPath_obeys _ _ rfl) (fun i hi => ?_)
  refine Obeys.bind (buildPath_obeys _ _ rfl) (fun g hg => ?_)
  refine Obeys.bind (buildPath_obeys _ _ rfl) (fun t ht => ?_)
  split
  · rename_i current inbox sig cert
    refine Obeys.ret ?_
    intro ctx hctx
    obtain rfl := Option.some.inj hctx
    obtain ⟨dc, hdc, rfl⟩ := hc _ rfl
    obtain ⟨di, hdi, rfl⟩ := hi _ rfl
    obtain ⟨dg, hdg, rfl⟩ := hg _ rfl
    obtain ⟨dt, hdt, rfl⟩ := ht _ rfl
    rw [hdi] at hdg hdt
    obtain rfl := Option.some.inj hdg
    obtain rfl := Option.some.inj hdt
    exact ⟨di, dc, rfl, hdi, hdc, rfl, rfl, rfl, rfl⟩
  · exact Obeys.ret (by simp)

/-- The calls of `ota_inbox_cleanup`. -/
inductive CleanupCall (ctx : OtaCtx) : Call → Prop where
  | manifest : CleanupCall ctx (.unlink ctx.inboxManifestPath)
  | sig : CleanupCall ctx (.unlink ctx.inboxSigPath)
  | cert : CleanupCall ctx (.unlink ctx.inboxCertPath)
  | opendir (dir : CStr) : CleanupCall ctx (.opendir dir)
  | malloc : CleanupCall ctx .malloc
  | tmp (dir name : CStr) (hdir : ctx.config.inboxManifestDir = some dir)
      (hname : name ≠ [] ∧ slash ∉ name) (htmp : endsTmp name = true) :
      CleanupCall ctx (.unlink (join dir name))

lemma cleanupLoop_obeys (E : (c : Call) → Resp c → Prop) (ctx : OtaCtx) {dir : CStr}
    (hdir : ctx.config.inboxManifestDir = some dir) (names : List CStr)
    (hnames : ∀ n ∈ names, n ≠ [] ∧ slash ∉ n) :
    Obeys E (CleanupCall ctx) (fun _ => True) (cleanupLoop dir names) := by
  induction names with
  | nil => exact Obeys.ret trivial
  | cons name rest ih =>
    have hrest := ih (fun n hn => hnames n (List.mem_cons_of_mem _ hn))
    unfold cleanupLoop
    split_ifs with htmp
    · refine (buildPath_obeys _ _ .malloc).bind (fun r hr => ?_)
      split
      · exact hrest
      · obtain ⟨d, hd, rfl⟩ := hr _ rfl
        obtain rfl := Option.some.inj hd
        have hname := hnames name (List.mem_cons_self ..)
        exact Obeys.call (.tmp dir name hdir hname htmp) (fun _ _ => hrest)
    · exact hrest

lemma otaInboxCleanup_obeys (e : Env) (ctx : OtaCtx) :
    Obeys (Lawful e) (CleanupCall ctx) (fun _ => True) (otaInboxCleanup ctx) := by
  unfold otaInboxCleanup
  refine Obeys.call .manifest (fun _ _ => ?_)
  refine Obeys.call .sig (fun _ _ => ?_)
  refine Obeys.call .cert (fun _ _ => ?_)
  split
  · exact Obeys.ret trivial
  · rename_i dir hdir
    refine Obeys.call (.opendir dir) (fun r hr => ?_)
    split
    · exact Obeys.ret trivial
    · rename_i names
      exact cleanupLoop_obeys _ ctx hdir names (hr names rfl)

/-- The calls of `fetch_new_manifest`: three downloads into the inbox. -/
inductive NewManifestCall (e : Env) (ctx : OtaCtx) : Call → Prop where
  | malloc : NewManifestCall e ctx .malloc
  | fetch (url name dest : CStr) (c : Call) (hurl : ctx.config.serverUrl = some url)
      (hname : name = manifestName ∧ dest = ctx.inboxManifestPath ∨
        name = sigName ∧ dest = ctx.inboxSigPath ∨ name = certName ∧ dest = ctx.inboxCertPath)
      (hc : FetchCall e (fetchRequest (join url name) ctx.config false) dest c) :
      NewManifestCall e ctx c

lemma fetchNewManifest_obeys (e : Env) (ctx : OtaCtx) :
    Obeys (Lawful e) (NewManifestCall e ctx) (fun _ => True) (fetchNewManifest ctx) := by
  unfold fetchNewManifest
  refine (buildPath_obeys _ _ .malloc).bind (fun m hm => ?_)
  refine (buildPath_obeys _ _ .malloc).bind (fun g hg => ?_)
  refine (buildPath_obeys _ _ .malloc).bind (fun t ht => ?_)
  split
  · obtain ⟨d1, hd1, rfl⟩ := hm _ rfl
    obtain ⟨d2, hd2, rfl⟩ := hg _ rfl
    obtain ⟨d3, hd3, rfl⟩ := ht _ rfl
    refine Obeys.bind ((fetchFile_obeys e _ _ _ _).mono (fun _ _ => id)
      (fun c hc => .fetch d1 manifestName _ c hd1 (.inl ⟨rfl, rfl⟩) hc) (fun _ => id)) ?_
    intro _ _
    refine Obeys.bind ((fetchFile_obeys e _ _ _ _).mono (fun _ _ => id)
      (fun c hc => .fetch d2 sigName _ c hd2 (.inr (.inl ⟨rfl, rfl⟩)) hc) (fun _ => id)) ?_
    intro _ _
    refine Obeys.bind ((fetchFile_obeys e _ _ _ _).mono (fun _ _ => id)
      (fun c hc => .fetch d3 certName _ c hd3 (.inr (.inr ⟨rfl, rfl⟩)) hc) (fun _ => id)) ?_
    intro _ _
    exact Obeys.ret trivial
  · exact Obeys.ret trivial

lemma validateNewManifest_obeys (E : (c : Call) → Resp c → Prop) (ctx : OtaCtx) :
    Obeys E (· = verifyCall ctx) (fun _ => True) (validateNewManifest ctx) := by
  refine Obeys.call rfl (fun r _ => ?_)
  split <;> exact Obeys.ret trivial

lemma validateRelease_obeys (E : (c : Call) → Resp c → Prop) (ctx : OtaCtx) :
    Obeys E (· = .sha256sum ctx.payloadPath) (fun _ => True) (validateRelease ctx) := by
  unfold validateRelease
  split
  · exact Obeys.ret trivial
  · refine Obeys.call rfl (fun r _ => ?_)
    split
    · exact Obeys.ret trivial
    · dsimp only
      split
      · split_ifs <;> exact Obeys.ret trivial
      · exact Obeys.ret trivial

/-- The calls that look at the manifests on disk. -/
inductive CompareCall (ctx : OtaCtx) : Call → Prop where
  | stat (p : CStr) : CompareCall ctx (.stat p)
  | sha256sum (p : Option CStr) : CompareCall ctx (.sha256sum p)

lemma compareManifests_obeys (E : (c : Call) → Resp c → Prop) (ctx : OtaCtx) :
    Obeys E (CompareCall ctx) (fun _ => True) (compareManifests ctx) := by
  have hexists : ∀ p, Obeys E (CompareCall ctx) (fun _ => True) (fileExists p) := by
    intro p
    refine Obeys.call (.stat p) (fun r _ => ?_)
    split <;> exact Obeys.ret trivial
  unfold compareManifests
  refine (hexists _).bind (fun r _ => ?_)
  split
  · exact Obeys.ret trivial
  refine (hexists _).bind (fun r _ => ?_)
  split
  · exact Obeys.ret trivial
  refine Obeys.call (.sha256sum _) (fun h1 _ => ?_)
  refine Obeys.call (.sha256sum _) (fun h2 _ => ?_)
  split <;> exact Obeys.ret trivial

/-- The release the device gets, its first file, and the names that matter. -/
structure Chosen (ctx : OtaCtx) (release : ManifestRelease) (file : ManifestFile)
    (dir filename path : CStr) : Prop where
  select : manifestSelectRelease ctx.inboxManifest ctx.config.deviceId = some release
  first : release.files.head? = some file
  filename : file.filename = some filename
  path : file.path = some path
  inboxDir : ctx.config.inboxManifestDir = some dir

/-- The calls of `fetch_release`: one download, under the name the manifest gives. -/
inductive ReleaseCall (e : Env) (ctx : OtaCtx) : Call → Prop where
  | malloc : ReleaseCall e ctx .malloc
  | fetch (release : ManifestRelease) (file : ManifestFile) (dir filename path url : CStr)
      (c : Call) (h : Chosen ctx release file dir filename path)
      (hurl : ctx.config.serverUrl = some url)
      (hc : FetchCall e (fetchRequest (join url path) ctx.config true) (join dir filename) c) :
      ReleaseCall e ctx c

/-- What `fetch_release` leaves in the context when it succeeds. -/
def Released (ctx ctx' : OtaCtx) : Prop :=
  ∃ release file dir filename path, Chosen ctx release file dir filename path ∧
    file.sha256.isSome = true ∧ file.fileType.isSome = true ∧
    ctx' = { ctx with release := some release, payloadPath := some (join dir filename) }

lemma fetchRelease_obeys (e : Env) (ctx : OtaCtx) :
    Obeys (Lawful e) (ReleaseCall e ctx) (fun r => r.1 = 0 → Released ctx r.2)
      (fetchRelease ctx) := by
  have hbad : ∀ c : OtaCtx, Obeys (Lawful e) (ReleaseCall e ctx)
      (fun r => r.1 = 0 → Released ctx r.2) (pure (-1, c) : Proc (ℤ × OtaCtx)) :=
    fun c => Obeys.ret (fun h => absurd h (by simp))
  unfold fetchRelease
  dsimp only
  split
  · exact hbad _
  rename_i release hrel
  split
  · exact hbad _
  rename_i file rest hfiles
  split
  · rename_i filename path sha fileType hname hpath hsha htype
    refine (buildPath_obeys _ _ .malloc).bind (fun p hp => ?_)
    split
    · exact hbad _
    rename_i payload
    obtain ⟨dir, hdir, rfl⟩ := hp payload rfl
    have hchosen : Chosen ctx release file dir filename path :=
      ⟨hrel, by rw [hfiles]; rfl, hname, hpath, hdir⟩
    refine (buildPath_obeys _ _ .malloc).bind (fun u hu => ?_)
    split
    · exact hbad _
    rename_i url
    obtain ⟨server, hserver, rfl⟩ := hu url rfl
    refine Obeys.bind ((fetchFile_obeys e _ _ _ _).mono (fun _ _ => id)
      (fun c hc => .fetch release file dir filename path server c hchosen hserver hc)
      (fun _ => id)) ?_
    intro rc _
    refine Obeys.ret ?_
    intro _
    refine ⟨release, file, dir, filename, path, hchosen, by rw [hsha]; rfl, by rw [htype]; rfl, ?_⟩
    rw [← hrel]
  · exact hbad _

/-- The calls of `apply_release`. -/
inductive ApplyCall (ctx : OtaCtx) : Call → Prop where
  | mkdir (dir u : CStr) (m : ℕ) (hdir : ctx.config.currentManifestDir = some dir)
      (hne : u ≠ []) (h : Cut u dir) : ApplyCall ctx (.mkdir u m)
  | unlink : ApplyCall ctx (.unlink ctx.currentManifestPath)
  | rename : ApplyCall ctx (.rename ctx.inboxManifestPath ctx.currentManifestPath)
  | spawn (h : (firstFile ctx).bind ManifestFile.fileType = some raucBundle) :
      ApplyCall ctx (.spawn (raucArgv ctx.payloadPath))
  | waitpid : ApplyCall ctx .waitpid
  | sync : ApplyCall ctx .sync
  | reboot : ApplyCall ctx .reboot

lemma makeNewManifestCurrent_obeys (E : (c : Call) → Resp c → Prop) {A : Call → Prop}
    (ctx : OtaCtx)
    (hmkdir : ∀ dir u m, ctx.config.currentManifestDir = some dir → u ≠ [] → Cut u dir →
      A (.mkdir u m))
    (hunlink : A (.unlink ctx.currentManifestPath))
    (hrename : A (.rename ctx.inboxManifestPath ctx.currentManifestPath)) :
    Obeys E A ZeroOrNeg (makeNewManifestCurrent ctx) := by
  unfold makeNewManifestCurrent
  refine Obeys.bind (U := fun _ => True) ?_ ?_
  · unfold mkdirPOrNull
    split
    · rename_i dir hdir
      refine (mkdirP_obeys E dir 493).mono (fun _ _ => id) ?_ (fun _ _ => trivial)
      rintro c ⟨u, m, rfl, hne, hu⟩
      exact hmkdir dir u m hdir hne hu
    · exact Obeys.ret trivial
  · intro _ _
    refine Obeys.call hunlink (fun _ _ => ?_)
    refine Obeys.call hrename (fun r _ => ?_)
    split
    · exact Obeys.ret (.inr rfl)
    · exact Obeys.ret (.inl rfl)

lemma applyRelease_obeys (E : (c : Call) → Resp c → Prop) (ctx : OtaCtx) :
    Obeys E (ApplyCall ctx) (fun _ => True) (applyRelease ctx) := by
  unfold applyRelease
  split
  · exact Obeys.ret trivial
  rename_i fileType htype
  split_ifs with htest hrauc
  · refine (makeNewManifestCurrent_obeys E ctx .mkdir .unlink .rename).bind (fun rc _ => ?_)
    split <;> exact Obeys.ret trivial
  · subst hrauc
    refine Obeys.call (.spawn htype) (fun r _ => ?_)
    split
    · exact Obeys.ret trivial
    refine Obeys.call .waitpid (fun r _ => ?_)
    split
    · exact Obeys.ret trivial
    · split
      · exact Obeys.ret trivial
      · refine (makeNewManifestCurrent_obeys E ctx .mkdir .unlink .rename).bind (fun rc _ => ?_)
        split
        · exact Obeys.ret trivial
        · refine Obeys.call .sync (fun _ _ => ?_)
          refine Obeys.call .reboot (fun _ _ => ?_)
          exact Obeys.ret trivial
    · exact Obeys.ret trivial
    · exact Obeys.ret trivial
  · exact Obeys.ret trivial

end OtaFetch.Update
