import OtaFetch.Ledger
import OtaFetch.ManifestMemory
import OtaFetch.Update

/-!
# The memory of the update loop

`ota_fetch_run` with every string, the loaded manifest, the directory stream and
the transfer handle as blocks that are acquired and released where the source
does it. A string is looked up before it is passed on. The manifest is one block
here. Functions that acquire nothing are the ones of the plain model, after the
lookup of what they read.
-/
namespace OtaFetch.FetchMemory
open CPath FileTree Interaction Machine Config Releases Hash Verify Fetch Update Memory Ledger
open ManifestMemory (StrCell StrPtr strBlock)

abbrev OwnedProc := Owner Call Resp

def buildPathCells (dir file : Option CStr) : OwnedProc StrPtr :=
  match dir, file with
  | some d, some f => do
    if ← plain (call .malloc) then do
      let b ← acquire
      pure (some ⟨b, join d f⟩)
    else pure none
  | _, _ => pure none

/-- The label `cleanup`, reached with `rc != 0`. -/
def fetchCleanupCells (tmpPath : StrCell) (fp : Option Stream) (curl : Block) : OwnedProc ℤ := do
  plain (closeIfOpen fp)
  use (some tmpPath.block)
  let _ ← plain (call (.unlink tmpPath.data))
  release (some tmpPath.block)
  release curl
  pure (-1)

/-- `fetch_file` from the point where the temporary file is open. -/
def fetchOpenedCells (url destPath tmpPath : StrCell) (cfg : OtaConfig) (showProgress : Bool)
    (fp : Stream) : OwnedProc ℤ := do
  let ready ← plain (call .curlInit)
  if !ready then fetchCleanupCells tmpPath (some fp) none
  else do
    let curl ← acquire
    use (some url.block)
    use (some curl)
    let res ← plain (curlEasyPerform (fetchRequest url.data cfg showProgress) fp)
    if res.result ≠ curleOk then fetchCleanupCells tmpPath (some res.fp) (some curl)
    else if res.status < 200 ∨ 300 ≤ res.status then
      fetchCleanupCells tmpPath (some res.fp) (some curl)
    else do
      let (flushed, fp) ← plain (call (.fflush res.fp))
      match flushed with
      | .error _ => fetchCleanupCells tmpPath (some fp) (some curl)
      | .ok () => do
        match ← plain (call (.fclose fp)) with
        | .error _ => fetchCleanupCells tmpPath none (some curl)
        | .ok () => do
          use (some tmpPath.block)
          use (some destPath.block)
          match ← plain (call (.rename tmpPath.data destPath.data)) with
          | .error _ => fetchCleanupCells tmpPath none (some curl)
          | .ok () => do
            release (some tmpPath.block)
            release (some curl)
            pure 0

def fetchFileCells (url destPath : StrCell) (cfg : OtaConfig) (showProgress : Bool) :
    OwnedProc ℤ := do
  use (some destPath.block)
  let rc ← plain (ensureParentDirExists destPath.data)
  if rc ≠ 0 then pure (-1)
  else do
    let granted ← plain (call .malloc)
    if !granted then pure (-1)
    else do
      let b ← acquire
      let tmpPath : StrCell := ⟨b, tmpOf destPath.data⟩
      match ← plain (call (.fopen tmpPath.data)) with
      | .error _ => fetchCleanupCells tmpPath none none
      | .ok fp => fetchOpenedCells url destPath tmpPath cfg showProgress fp

/-- The strings of `config` belong to the caller. `release` points into the
manifest. -/
structure CtxCells where
  config : OtaConfig
  currentManifestPath : StrPtr
  inboxManifestPath : StrPtr
  inboxSigPath : StrPtr
  inboxCertPath : StrPtr
  inboxManifest : Option (ℕ × Manifest)
  payloadPath : StrPtr
  release : Option ManifestRelease

/-- A failed string leaves `NULL` and the others are built all the same. -/
def otaCtxInitCells (cfg : OtaConfig) : OwnedProc (ℤ × CtxCells) := do
  let current ← buildPathCells cfg.currentManifestDir (some manifestName)
  let inbox ← buildPathCells cfg.inboxManifestDir (some manifestName)
  let sig ← buildPathCells cfg.inboxManifestDir (some sigName)
  let cert ← buildPathCells cfg.inboxManifestDir (some certName)
  let rc : ℤ := if current.isNone || inbox.isNone || sig.isNone || cert.isNone then -1 else 0
  pure (rc, ⟨cfg, current, inbox, sig, cert, none, none, none⟩)

def otaCtxFree (ctx : CtxCells) : OwnedProc Unit := do
  release (ctx.inboxManifest.map Prod.fst)
  release (strBlock ctx.currentManifestPath)
  release (strBlock ctx.inboxManifestPath)
  release (strBlock ctx.inboxSigPath)
  release (strBlock ctx.inboxCertPath)
  release (strBlock ctx.payloadPath)

/-- The text of a string that is not `NULL`. -/
def strData (p : StrPtr) : CStr :=
  match p with
  | none => []
  | some c => c.data

/-- The context as the functions read it that acquire nothing. -/
def CtxCells.view (ctx : CtxCells) : OtaCtx :=
  ⟨ctx.config, strData ctx.currentManifestPath, strData ctx.inboxManifestPath,
    strData ctx.inboxSigPath, strData ctx.inboxCertPath, ctx.inboxManifest.map Prod.snd,
    ctx.payloadPath.map StrCell.data, ctx.release⟩

/-- The loop over the entries that `readdir` gives. -/
def cleanupLoopCells (handle : ℕ) (dir : CStr) : List CStr → OwnedProc Unit
  | [] => pure ()
  | name :: rest => do
    use (some handle)
    if endsTmp name then do
      match ← buildPathCells (some dir) (some name) with
      | none => cleanupLoopCells handle dir rest
      | some tmpPath => do
        use (some tmpPath.block)
        let _ ← plain (call (.unlink tmpPath.data))
        release (some tmpPath.block)
        cleanupLoopCells handle dir rest
    else cleanupLoopCells handle dir rest

/-- `unlink` of a path of the context, which is passed over when it is `NULL`. -/
def unlinkPath (p : StrPtr) : OwnedProc Unit :=
  match p with
  | none => pure ()
  | some c => do
    use (some c.block)
    let _ ← plain (call (.unlink c.data))
    pure ()

def otaInboxCleanupCells (ctx : CtxCells) : OwnedProc Unit := do
  unlinkPath ctx.inboxManifestPath
  unlinkPath ctx.inboxSigPath
  unlinkPath ctx.inboxCertPath
  match ctx.config.inboxManifestDir with
  | none => pure ()
  | some dir => do
    match ← plain (call (.opendir dir)) with
    | .error _ => pure ()
    | .ok names => do
      let handle ← acquire
      cleanupLoopCells handle dir names
      release (some handle)

/-- A download to a path of the context. `NULL` cannot be used. -/
def fetchTo (url : StrCell) (dest : StrPtr) (cfg : OtaConfig) : OwnedProc ℤ :=
  match dest with
  | none => do
    use none
    pure (-1)
  | some dest => fetchFileCells url dest cfg false

def fetchNewManifestCells (ctx : CtxCells) : OwnedProc ℤ := do
  let manifestUrl ← buildPathCells ctx.config.serverUrl (some manifestName)
  let sigUrl ← buildPathCells ctx.config.serverUrl (some sigName)
  let certUrl ← buildPathCells ctx.config.serverUrl (some certName)
  match manifestUrl, sigUrl, certUrl with
  | some manifestUrl, some sigUrl, some certUrl => do
    let rc1 ← fetchTo manifestUrl ctx.inboxManifestPath ctx.config
    let rc2 ← fetchTo sigUrl ctx.inboxSigPath ctx.config
    let rc3 ← fetchTo certUrl ctx.inboxCertPath ctx.config
    release (some manifestUrl.block)
    release (some sigUrl.block)
    release (some certUrl.block)
    pure (if rc1 ≠ 0 ∨ rc2 ≠ 0 ∨ rc3 ≠ 0 then 1 else 0)
  | manifestUrl, sigUrl, certUrl => do
    release (strBlock manifestUrl)
    release (strBlock sigUrl)
    release (strBlock certUrl)
    pure (-1)

def validateNewManifestCells (ctx : CtxCells) : OwnedProc ℤ := do
  use (strBlock ctx.inboxManifestPath)
  use (strBlock ctx.inboxSigPath)
  use (strBlock ctx.inboxCertPath)
  plain (validateNewManifest ctx.view)

def compareManifestsCells (ctx : CtxCells) : OwnedProc FilesEqual := do
  use (strBlock ctx.currentManifestPath)
  use (strBlock ctx.inboxManifestPath)
  plain (compareManifests ctx.view)

def manifestLoadBlock (path : StrPtr) : OwnedProc (Option (ℕ × Manifest)) := do
  use (strBlock path)
  match ← plain (call (.load (strData path))) with
  | none => pure none
  | some m => do
    let b ← acquire
    pure (some (b, m))

/-- From the point where the first file of the release has all its fields. An
earlier payload path would be freed. -/
def fetchPayloadCells (ctx : CtxCells) (filename path : CStr) : OwnedProc (ℤ × CtxCells) := do
  release (strBlock ctx.payloadPath)
  let payloadPath ← buildPathCells ctx.config.inboxManifestDir (some filename)
  let ctx := { ctx with payloadPath := payloadPath }
  match payloadPath with
  | none => pure (-1, ctx)
  | some payloadPath => do
    match ← buildPathCells ctx.config.serverUrl (some path) with
    | none => pure (-1, ctx)
    | some payloadUrl => do
      let ret ← fetchFileCells payloadUrl payloadPath ctx.config true
      release (some payloadUrl.block)
      pure (ret, ctx)

def fetchReleaseCells (ctx : CtxCells) : OwnedProc (ℤ × CtxCells) := do
  use (ctx.inboxManifest.map Prod.fst)
  let ctx := { ctx with
    release := manifestSelectRelease (ctx.inboxManifest.map Prod.snd) ctx.config.deviceId }
  match ctx.release with
  | none => pure (-1, ctx)
  | some release =>
    match release.files with
    | [] => pure (-1, ctx)
    | file :: _ =>
      match file.filename, file.path, file.sha256, file.fileType with
      | some filename, some path, some _, some _ => fetchPayloadCells ctx filename path
      | _, _, _, _ => pure (-1, ctx)

def validateReleaseCells (ctx : CtxCells) : OwnedProc ℤ := do
  use (ctx.inboxManifest.map Prod.fst)
  use (strBlock ctx.payloadPath)
  plain (validateRelease ctx.view)

def applyReleaseCells (ctx : CtxCells) : OwnedProc ℤ := do
  use (ctx.inboxManifest.map Prod.fst)
  use (strBlock ctx.payloadPath)
  use (strBlock ctx.currentManifestPath)
  use (strBlock ctx.inboxManifestPath)
  plain (applyRelease ctx.view)

/-- Every way out of an iteration frees the context. -/
def leave (ctx : CtxCells) (how : AttemptEnd) : OwnedProc AttemptEnd := do
  otaCtxFree ctx
  pure how

def attemptCells (daemonMode : Bool) (cfg : OtaConfig) : OwnedProc AttemptEnd := do
  plain (call .startCheck)
  let (rc, ctx) ← otaCtxInitCells cfg
  if rc ≠ 0 then leave ctx (.ended rc)
  else do
    otaInboxCleanupCells ctx
    let rc ← fetchNewManifestCells ctx
    if rc ≠ 0 then leave ctx (.ended rc)
    else do
      let rc ← validateNewManifestCells ctx
      if rc ≠ 0 then leave ctx (.ended rc)
      else do
        match ← compareManifestsCells ctx with
        | .eq => leave ctx (if daemonMode then .ended 0 else .returned 0)
        | .err => leave ctx (.ended (-1))
        | .neq => do
          match ← manifestLoadBlock ctx.inboxManifestPath with
          | none => leave ctx (.ended (-1))
          | some m => do
            let (rc, ctx) ← fetchReleaseCells { ctx with inboxManifest := some m }
            if rc ≠ 0 then leave ctx (.ended rc)
            else do
              let rc ← validateReleaseCells ctx
              if rc ≠ 0 then leave ctx (.ended rc)
              else do
                let rc ← applyReleaseCells ctx
                leave ctx (if rc = 0 ∧ daemonMode = false then .returned rc else .ended rc)

def otaFetchLoopCells (daemonMode : Bool) (cfg : OtaConfig) (interval : ℤ) :
    ℕ → ℤ → OwnedProc (Option ℤ)
  | 0, _ => pure none
  | fuel + 1, made => do
    match ← attemptCells daemonMode cfg with
    | .returned rc => pure (some rc)
    | .ended rc =>
      if daemonMode then do
        if ← plain (pause interval) then pure (some 0)
        else otaFetchLoopCells daemonMode cfg interval fuel made
      else if made + 1 < cfg.retryAttempts then do
        if ← plain (pause retryDelay) then pure (some 0)
        else otaFetchLoopCells daemonMode cfg interval fuel (made + 1)
      else pure (some rc)

def otaFetchRunCells (fuel : ℕ) (daemonMode : Bool) (cfg : OtaConfig) :
    OwnedProc (Option ℤ) :=
  let interval := if 0 < cfg.updateIntervalSec then cfg.updateIntervalSec else fetchIntervalSec
  otaFetchLoopCells daemonMode cfg interval fuel 0

lemma buildPathCells_keeps (dir file : Option CStr) :
    Keeps (buildPathCells dir file) (buildPath dir file) 0
      (fun p r => p.map StrCell.data = r) (fun p => owned (strBlock p)) := by
  unfold buildPathCells buildPath
  cases dir with
  | none => exact Keeps.ret rfl rfl
  | some d =>
    cases file with
    | none => exact Keeps.ret rfl rfl
    | some f =>
      refine Keeps.step _ (fun granted => ?_)
      cases granted with
      | false => exact Keeps.ret rfl rfl
      | true => exact Keeps.acquire (fun b => Keeps.ret rfl (add_zero _))

/-- A string is built and the rest goes on with its block. -/
lemma keeps_build {α β : Type} (dir file : Option CStr) {f : StrPtr → OwnedProc α}
    {g : Option CStr → Proc β} {held : Multiset ℕ} {rel : α → β → Prop}
    {give : α → Multiset ℕ}
    (h : ∀ p, Keeps (f p) (g (p.map StrCell.data)) (owned (strBlock p) + held) rel give) :
    Keeps (buildPathCells dir file >>= f) (buildPath dir file >>= g) held rel give := by
  refine Keeps.bindFrame (buildPathCells_keeps dir file) (zero_add held).symm ?_
  rintro p r rfl
  exact h p

lemma fetchCleanupCells_keeps (tmpPath : StrCell) (fp : Option Stream) (curl : Block)
    (held : Multiset ℕ) :
    Keeps (fetchCleanupCells tmpPath fp curl) (fetchCleanup tmpPath.data fp)
      (owned curl + ({tmpPath.block} + held)) (· = ·) (fun _ => held) := by
  unfold fetchCleanupCells fetchCleanup
  refine Keeps.step _ (fun _ => ?_)
  refine Keeps.use (by simp) ?_
  refine Keeps.step _ (fun _ => ?_)
  refine Keeps.release (some tmpPath.block) (add_left_comm _ _ _) ?_
  exact Keeps.release curl rfl (Keeps.ret rfl rfl)

lemma fetchOpenedCells_keeps (url destPath : StrCell) (b : ℕ) (cfg : OtaConfig)
    (showProgress : Bool) (fp : Stream) {held : Multiset ℕ} (hurl : url.block ∈ held)
    (hdest : destPath.block ∈ held) :
    Keeps (fetchOpenedCells url destPath ⟨b, tmpOf destPath.data⟩ cfg showProgress fp)
      (fetchOpened url.data destPath.data cfg showProgress fp)
      ({b} + held) (· = ·) (fun _ => held) := by
  have hclean : ∀ fp curl, Keeps (fetchCleanupCells ⟨b, tmpOf destPath.data⟩ fp curl)
      (fetchCleanup (tmpOf destPath.data) fp) (owned curl + ({b} + held)) (· = ·)
      (fun _ => held) :=
    fun fp curl => fetchCleanupCells_keeps _ fp curl held
  unfold fetchOpenedCells fetchOpened
  refine Keeps.step _ (fun ready => ?_)
  cases ready with
  | false =>
    have hnull := hclean (some fp) none
    rw [owned_none, zero_add] at hnull
    exact hnull
  | true =>
    refine Keeps.acquire (fun curl => ?_)
    refine Keeps.use (by simp [hurl]) ?_
    refine Keeps.use (by simp) ?_
    refine Keeps.step _ (fun res => ?_)
    split
    · exact hclean _ (some curl)
    split
    · exact hclean _ (some curl)
    refine Keeps.step _ (fun r => ?_)
    obtain ⟨flushed, fp⟩ := r
    cases flushed with
    | error _ => exact hclean _ (some curl)
    | ok _ =>
      refine Keeps.step _ (fun closed => ?_)
      cases closed with
      | error _ => exact hclean _ (some curl)
      | ok _ =>
        refine Keeps.use (by simp) ?_
        refine Keeps.use (by simp [hdest]) ?_
        refine Keeps.step _ (fun moved => ?_)
        cases moved with
        | error _ => exact hclean _ (some curl)
        | ok _ =>
          refine Keeps.release (some b) (add_left_comm _ _ _) ?_
          exact Keeps.release (some curl) rfl (Keeps.ret rfl rfl)

/-- A download leaves what was held before it. -/
lemma fetchFileCells_keeps (url destPath : StrCell) (cfg : OtaConfig) (showProgress : Bool)
    {held : Multiset ℕ} (hurl : url.block ∈ held) (hdest : destPath.block ∈ held) :
    Keeps (fetchFileCells url destPath cfg showProgress)
      (fetchFile url.data destPath.data cfg showProgress) held (· = ·) (fun _ => held) := by
  unfold fetchFileCells fetchFile
  refine Keeps.use hdest ?_
  refine Keeps.step _ (fun rc => ?_)
  split
  · exact Keeps.ret rfl rfl
  refine Keeps.step _ (fun granted => ?_)
  cases granted with
  | false => exact Keeps.ret rfl rfl
  | true =>
    refine Keeps.acquire (fun b => ?_)
    refine Keeps.step _ (fun opened => ?_)
    cases opened with
    | error _ =>
      have hnull := fetchCleanupCells_keeps ⟨b, tmpOf destPath.data⟩ none none held
      rw [owned_none, zero_add] at hnull
      exact hnull
    | ok fp => exact fetchOpenedCells_keeps url destPath b cfg showProgress fp hurl hdest

/-- The blocks that `ota_ctx_free` gives back. -/
def CtxCells.own (ctx : CtxCells) : Multiset ℕ :=
  owned (ctx.inboxManifest.map Prod.fst) + (owned (strBlock ctx.currentManifestPath) +
    (owned (strBlock ctx.inboxManifestPath) + (owned (strBlock ctx.inboxSigPath) +
      (owned (strBlock ctx.inboxCertPath) + owned (strBlock ctx.payloadPath)))))

/-- `ota_ctx_free` stands next to nothing, as it makes no call of the plain model. -/
lemma leave_keeps (ctx : CtxCells) (how : AttemptEnd) :
    Keeps (leave ctx how) (.ret how) ctx.own (· = ·) (fun _ => 0) := by
  have hfree : Keeps (otaCtxFree ctx) (.ret ()) ctx.own (fun _ _ => True) (fun _ => 0) := by
    unfold otaCtxFree
    refine Keeps.release _ rfl (Keeps.release _ rfl (Keeps.release _ rfl ?_))
    exact Keeps.release _ rfl (Keeps.release _ rfl (Keeps.releaseOnly _))
  exact Keeps.quiet hfree (add_zero _).symm (fun _ => Keeps.ret rfl (add_zero _))

/-- The paths are there. -/
structure CtxCells.Whole (ctx : CtxCells) (current inbox sig cert : StrCell) : Prop where
  currentManifest : ctx.currentManifestPath = some current
  inboxManifest : ctx.inboxManifestPath = some inbox
  inboxSig : ctx.inboxSigPath = some sig
  inboxCert : ctx.inboxCertPath = some cert

/-- What `ota_ctx_init` tells its caller about the context it leaves. -/
def Initialised (r : ℤ × CtxCells) (c : Option OtaCtx) : Prop :=
  match c with
  | none => r.1 = -1
  | some c => r.1 = 0 ∧ c = r.2.view ∧ r.2.inboxManifest = none ∧
      ∃ current inbox sig cert, r.2.Whole current inbox sig cert

lemma otaCtxInitCells_keeps (cfg : OtaConfig) :
    Keeps (otaCtxInitCells cfg) (otaCtxInit cfg) 0 Initialised (fun r => r.2.own) := by
  unfold otaCtxInitCells otaCtxInit
  refine keeps_build _ _ (fun current => ?_)
  refine keeps_build _ _ (fun inbox => ?_)
  refine keeps_build _ _ (fun sig => ?_)
  refine keeps_build _ _ (fun cert => ?_)
  have hown : owned (strBlock cert) + (owned (strBlock sig) + (owned (strBlock inbox) +
      (owned (strBlock current) + 0))) =
      CtxCells.own ⟨cfg, current, inbox, sig, cert, none, none, none⟩ := by
    unfold CtxCells.own
    show _ = 0 + (_ + (_ + (_ + (_ + 0))))
    abel
  cases current with
  | none => exact Keeps.ret rfl hown
  | some current =>
    cases inbox with
    | none => exact Keeps.ret rfl hown
    | some inbox =>
      cases sig with
      | none => exact Keeps.ret rfl hown
      | some sig =>
        cases cert with
        | none => exact Keeps.ret rfl hown
        | some cert =>
          exact Keeps.ret ⟨rfl, rfl, rfl, current, inbox, sig, cert, rfl, rfl, rfl, rfl⟩ hown

lemma CtxCells.Whole.mem {ctx : CtxCells} {current inbox sig cert : StrCell}
    (h : ctx.Whole current inbox sig cert) :
    current.block ∈ ctx.own ∧ inbox.block ∈ ctx.own ∧ sig.block ∈ ctx.own ∧
      cert.block ∈ ctx.own := by
  unfold CtxCells.own
  rw [h.currentManifest, h.inboxManifest, h.inboxSig, h.inboxCert]
  simp [strBlock]

/-- A string that is held may be looked up. -/
lemma keeps_use {α β : Type} {p : StrPtr} {c : StrCell} {f : Unit → OwnedProc α} {q : Proc β}
    {held : Multiset ℕ} {rel : α → β → Prop} {give : α → Multiset ℕ} (hp : p = some c)
    (hc : c.block ∈ held) (hf : Keeps (f ()) q held rel give) :
    Keeps (use (strBlock p) >>= f) q held rel give := by
  subst hp
  exact Keeps.use hc hf

lemma keeps_useManifest {α β : Type} {p : Option (ℕ × Manifest)} {m : ℕ × Manifest}
    {f : Unit → OwnedProc α} {q : Proc β} {held : Multiset ℕ} {rel : α → β → Prop}
    {give : α → Multiset ℕ} (hp : p = some m) (hm : m.1 ∈ held)
    (hf : Keeps (f ()) q held rel give) :
    Keeps (use (p.map Prod.fst) >>= f) q held rel give := by
  subst hp
  exact Keeps.use hm hf

lemma cleanupLoopCells_keeps (handle : ℕ) (dir : CStr) (names : List CStr) {held : Multiset ℕ}
    (hhandle : handle ∈ held) :
    Keeps (cleanupLoopCells handle dir names) (cleanupLoop dir names) held (· = ·)
      (fun _ => held) := by
  induction names with
  | nil => exact Keeps.ret rfl rfl
  | cons name rest ih =>
    unfold cleanupLoopCells cleanupLoop
    refine Keeps.use hhandle ?_
    split
    · refine keeps_build _ _ (fun p => ?_)
      cases p with
      | none =>
        show Keeps _ _ (0 + held) _ _
        rw [zero_add]
        exact ih
      | some tmpPath =>
        refine Keeps.use (Multiset.mem_add.mpr (.inl (Multiset.mem_singleton_self _))) ?_
        refine Keeps.step _ (fun _ => ?_)
        exact Keeps.release (some tmpPath.block) rfl ih
    · exact ih

lemma unlinkPath_keeps {p : StrPtr} {c : StrCell} {held : Multiset ℕ} {α β : Type}
    {f : Unit → OwnedProc α} {q : Proc β} {rel : α → β → Prop} {give : α → Multiset ℕ}
    (hp : p = some c) (hc : c.block ∈ held) (hf : Keeps (f ()) q held rel give) :
    Keeps (unlinkPath p >>= f) (call (.unlink (strData p)) >>= fun _ => q) held rel give := by
  subst hp
  have hunlink : Keeps (unlinkPath (some c)) (call (.unlink c.data)) held (fun _ _ => True)
      (fun _ => held) := by
    refine Keeps.use hc ?_
    exact Keeps.after (Keeps.plain _ held) (fun _ _ _ => Keeps.ret trivial rfl)
  exact hunlink.bind (fun _ _ _ => hf)

lemma otaInboxCleanupCells_keeps {ctx : CtxCells} {current inbox sig cert : StrCell}
    (h : ctx.Whole current inbox sig cert) :
    Keeps (otaInboxCleanupCells ctx) (otaInboxCleanup ctx.view) ctx.own (· = ·)
      (fun _ => ctx.own) := by
  obtain ⟨-, hinbox, hsig, hcert⟩ := h.mem
  unfold otaInboxCleanupCells otaInboxCleanup
  refine unlinkPath_keeps h.inboxManifest hinbox ?_
  refine unlinkPath_keeps h.inboxSig hsig ?_
  refine unlinkPath_keeps h.inboxCert hcert ?_
  show Keeps _ (match ctx.config.inboxManifestDir with
    | none => pure ()
    | some dir => _) _ _ _
  cases ctx.config.inboxManifestDir with
  | none => exact Keeps.ret rfl rfl
  | some dir =>
    refine Keeps.step _ (fun opened => ?_)
    cases opened with
    | error _ => exact Keeps.ret rfl rfl
    | ok names =>
      refine Keeps.acquire (fun handle => ?_)
      have hmem : handle ∈ {handle} + ctx.own :=
        Multiset.mem_add.mpr (.inl (Multiset.mem_singleton_self _))
      refine Keeps.after (cleanupLoopCells_keeps handle dir names hmem) (fun _ _ _ => ?_)
      exact ((Keeps.releaseOnly (some handle)).frame ctx.own).mono
        (fun _ _ _ => ⟨rfl, zero_add _⟩)

lemma fetchTo_keeps (url : StrCell) {dest : StrPtr} {c : StrCell} (cfg : OtaConfig)
    {held : Multiset ℕ} (hdest : dest = some c) (hurl : url.block ∈ held) (hc : c.block ∈ held) :
    Keeps (fetchTo url dest cfg) (fetchFile url.data (strData dest) cfg false) held (· = ·)
      (fun _ => held) := by
  subst hdest
  exact fetchFileCells_keeps url c cfg false hurl hc

/-- The three URLs are freed whether or not they could all be built. -/
lemma fetchNewManifestCells_keeps {ctx : CtxCells} {current inbox sig cert : StrCell}
    (h : ctx.Whole current inbox sig cert) :
    Keeps (fetchNewManifestCells ctx) (fetchNewManifest ctx.view) ctx.own (· = ·)
      (fun _ => ctx.own) := by
  obtain ⟨-, hinbox, hsig, hcert⟩ := h.mem
  unfold fetchNewManifestCells fetchNewManifest
  refine keeps_build _ _ (fun m => ?_)
  refine keeps_build _ _ (fun g => ?_)
  refine keeps_build _ _ (fun t => ?_)
  have hnull : Keeps (do
      release (strBlock m)
      release (strBlock g)
      release (strBlock t)
      pure (-1) : OwnedProc ℤ) (.ret (-1))
      (owned (strBlock t) + (owned (strBlock g) + (owned (strBlock m) + ctx.own))) (· = ·)
      (fun _ => ctx.own) := by
    have hm : owned (strBlock t) + (owned (strBlock g) + (owned (strBlock m) + ctx.own)) =
        owned (strBlock m) + (owned (strBlock t) + (owned (strBlock g) + ctx.own)) := by
      abel
    refine Keeps.release _ hm (Keeps.release _ (add_left_comm _ _ _) ?_)
    exact Keeps.release _ rfl (Keeps.ret rfl rfl)
  cases m with
  | none => exact hnull
  | some m =>
    cases g with
    | none => exact hnull
    | some g =>
      cases t with
      | none => exact hnull
      | some t =>
        show Keeps _ _ ({t.block} + ({g.block} + ({m.block} + ctx.own))) _ _
        refine Keeps.bind (fetchTo_keeps m _ h.inboxManifest (by simp) (by simp [hinbox])) ?_
        rintro rc1 _ rfl
        refine Keeps.bind (fetchTo_keeps g _ h.inboxSig (by simp) (by simp [hsig])) ?_
        rintro rc2 _ rfl
        refine Keeps.bind (fetchTo_keeps t _ h.inboxCert (by simp) (by simp [hcert])) ?_
        rintro rc3 _ rfl
        have hm : ({t.block} + ({g.block} + ({m.block} + ctx.own)) : Multiset ℕ) =
            {m.block} + ({t.block} + ({g.block} + ctx.own)) := by
          abel
        refine Keeps.release (some m.block) hm ?_
        refine Keeps.release (some g.block) (add_left_comm _ _ _) ?_
        exact Keeps.release (some t.block) rfl (Keeps.ret rfl rfl)

lemma validateNewManifestCells_keeps {ctx : CtxCells} {current inbox sig cert : StrCell}
    (h : ctx.Whole current inbox sig cert) :
    Keeps (validateNewManifestCells ctx) (validateNewManifest ctx.view) ctx.own (· = ·)
      (fun _ => ctx.own) := by
  obtain ⟨-, hinbox, hsig, hcert⟩ := h.mem
  refine keeps_use h.inboxManifest hinbox ?_
  refine keeps_use h.inboxSig hsig ?_
  exact keeps_use h.inboxCert hcert (Keeps.plain _ _)

lemma compareManifestsCells_keeps {ctx : CtxCells} {current inbox sig cert : StrCell}
    (h : ctx.Whole current inbox sig cert) :
    Keeps (compareManifestsCells ctx) (compareManifests ctx.view) ctx.own (· = ·)
      (fun _ => ctx.own) := by
  obtain ⟨hcurrent, hinbox, -, -⟩ := h.mem
  refine keeps_use h.currentManifest hcurrent ?_
  exact keeps_use h.inboxManifest hinbox (Keeps.plain _ _)

lemma manifestLoadBlock_keeps {p : StrPtr} {c : StrCell} {held : Multiset ℕ} (hp : p = some c)
    (hc : c.block ∈ held) :
    Keeps (manifestLoadBlock p) (call (.load (strData p))) held
      (fun m r => m.map Prod.snd = r) (fun m => owned (m.map Prod.fst) + held) := by
  unfold manifestLoadBlock
  refine keeps_use hp hc (Keeps.after (Keeps.plain _ held) ?_)
  rintro r _ rfl
  cases r with
  | none => exact Keeps.ret rfl (zero_add held).symm
  | some m => exact Keeps.acquire (fun b => Keeps.ret rfl rfl)

/-- What `fetch_release` changes in the context. -/
def Fetched (ctx : CtxCells) (r : ℤ × CtxCells) (c : ℤ × OtaCtx) : Prop :=
  c = (r.1, r.2.view) ∧
    (∃ rel, r.2 = { ctx with release := rel, payloadPath := r.2.payloadPath }) ∧
    (r.1 = 0 → ∃ p, r.2.payloadPath = some p)

/-- A failure with the context as it is. -/
lemma fetched_failed (ctx : CtxCells) (rel : Option ManifestRelease) (p : StrPtr)
    {held : Multiset ℕ}
    (hheld : held = CtxCells.own { ctx with release := rel, payloadPath := p }) :
    Keeps (pure (-1, { ctx with release := rel, payloadPath := p }) : OwnedProc (ℤ × CtxCells))
      (.ret (-1, CtxCells.view { ctx with release := rel, payloadPath := p })) held
      (Fetched ctx) (fun r => r.2.own) :=
  Keeps.ret ⟨rfl, ⟨rel, rfl⟩, fun h : (-1 : ℤ) = 0 => absurd h (by decide)⟩ hheld

/-- The payload path replaces an earlier one. -/
lemma own_payloadPath (ctx : CtxCells) (rel : Option ManifestRelease) (p : StrPtr) :
    CtxCells.own { ctx with release := rel, payloadPath := p } =
      owned (strBlock p) + CtxCells.own { ctx with payloadPath := none } := by
  unfold CtxCells.own
  show _ = _ + (_ + (_ + (_ + (_ + (_ + 0)))))
  abel

lemma fetchPayloadCells_keeps (ctx : CtxCells) (release : ManifestRelease)
    (filename path : CStr) :
    Keeps (fetchPayloadCells { ctx with release := some release } filename path)
      (do
        let payloadPath ← buildPath ctx.config.inboxManifestDir (some filename)
        let c : OtaCtx := { ctx.view with release := some release, payloadPath := payloadPath }
        match payloadPath with
        | none => pure (-1, c)
        | some payloadPath => do
          match ← buildPath c.config.serverUrl (some path) with
          | none => pure (-1, c)
          | some payloadUrl => do
            let ret ← fetchFile payloadUrl payloadPath c.config true
            pure (ret, c)) ctx.own (Fetched ctx) (fun r => r.2.own) := by
  unfold fetchPayloadCells
  refine Keeps.release _ (own_payloadPath ctx ctx.release ctx.payloadPath) ?_
  refine keeps_build _ _ (fun p => ?_)
  rw [← own_payloadPath ctx (some release) p]
  cases p with
  | none => exact fetched_failed ctx (some release) none rfl
  | some p =>
    refine keeps_build _ _ (fun url => ?_)
    cases url with
    | none => exact fetched_failed ctx (some release) (some p) (zero_add _)
    | some url =>
      have hp : p.block ∈
          CtxCells.own { ctx with release := some release, payloadPath := some p } := by
        rw [own_payloadPath]
        exact Multiset.mem_add.mpr (.inl (Multiset.mem_singleton_self _))
      refine Keeps.bind (fetchFileCells_keeps url p _ true (by simp [strBlock]) (by simp [hp])) ?_
      rintro ret _ rfl
      refine Keeps.release (some url.block) rfl (Keeps.ret ?_ rfl)
      exact ⟨rfl, ⟨some release, rfl⟩, fun _ => ⟨p, rfl⟩⟩

lemma fetchReleaseCells_keeps {ctx : CtxCells} {m : ℕ × Manifest}
    (hm : ctx.inboxManifest = some m) :
    Keeps (fetchReleaseCells ctx) (fetchRelease ctx.view) ctx.own (Fetched ctx)
      (fun r => r.2.own) := by
  have hmem : m.1 ∈ ctx.own := by
    unfold CtxCells.own
    rw [hm]
    exact Multiset.mem_add.mpr (.inl (Multiset.mem_singleton_self _))
  unfold fetchReleaseCells fetchRelease
  have hview : ctx.view.inboxManifest = ctx.inboxManifest.map Prod.snd := rfl
  have hdevice : ctx.view.config = ctx.config := rfl
  rw [hview, hdevice]
  refine keeps_useManifest hm hmem ?_
  generalize manifestSelectRelease (ctx.inboxManifest.map Prod.snd) ctx.config.deviceId = rel
  dsimp only
  cases rel with
  | none => exact fetched_failed ctx none ctx.payloadPath rfl
  | some release =>
    dsimp only
    cases release.files with
    | nil => exact fetched_failed ctx (some release) ctx.payloadPath rfl
    | cons file rest =>
      dsimp only
      cases file.filename with
      | none => exact fetched_failed ctx (some release) ctx.payloadPath rfl
      | some filename =>
        cases file.path with
        | none => exact fetched_failed ctx (some release) ctx.payloadPath rfl
        | some path =>
          cases file.sha256 with
          | none => exact fetched_failed ctx (some release) ctx.payloadPath rfl
          | some sha256 =>
            cases file.fileType with
            | none => exact fetched_failed ctx (some release) ctx.payloadPath rfl
            | some fileType => exact fetchPayloadCells_keeps ctx release filename path

/-- From the point where the payload is there, to the end of the iteration. -/
lemma installCells_keeps (daemonMode : Bool) {ctx : CtxCells} {m : ℕ × Manifest}
    {payload current inbox sig cert : StrCell} (hm : ctx.inboxManifest = some m)
    (hpayload : ctx.payloadPath = some payload) (h : ctx.Whole current inbox sig cert) :
    Keeps (do
        let rc ← validateReleaseCells ctx
        if rc ≠ 0 then leave ctx (.ended rc)
        else do
          let rc ← applyReleaseCells ctx
          leave ctx (if rc = 0 ∧ daemonMode = false then .returned rc else .ended rc))
      (do
        let rc ← validateRelease ctx.view
        if rc ≠ 0 then pure (.ended rc)
        else do
          let rc ← applyRelease ctx.view
          if rc = 0 ∧ daemonMode = false then pure (.returned rc) else pure (.ended rc))
      ctx.own (· = ·) (fun _ => 0) := by
  obtain ⟨hcurrent, hinbox, -, -⟩ := h.mem
  have hmem : m.1 ∈ ctx.own ∧ payload.block ∈ ctx.own := by
    unfold CtxCells.own
    rw [hm, hpayload]
    simp [strBlock]
  have hvalidate : Keeps (validateReleaseCells ctx) (validateRelease ctx.view) ctx.own (· = ·)
      (fun _ => ctx.own) :=
    keeps_useManifest hm hmem.1 (keeps_use hpayload hmem.2 (Keeps.plain _ _))
  have happly : Keeps (applyReleaseCells ctx) (applyRelease ctx.view) ctx.own (· = ·)
      (fun _ => ctx.own) := by
    refine keeps_useManifest hm hmem.1 (keeps_use hpayload hmem.2 ?_)
    refine keeps_use h.currentManifest hcurrent ?_
    exact keeps_use h.inboxManifest hinbox (Keeps.plain _ _)
  refine hvalidate.bind ?_
  rintro rc _ rfl
  split
  · exact leave_keeps _ _
  · refine happly.bind ?_
    rintro rc _ rfl
    split
    · exact leave_keeps _ _
    · exact leave_keeps _ _

lemma attemptCells_keeps (daemonMode : Bool) (cfg : OtaConfig) :
    Keeps (attemptCells daemonMode cfg) (attempt daemonMode cfg) 0 (· = ·) (fun _ => 0) := by
  unfold attemptCells attempt
  refine Keeps.step _ (fun _ => ?_)
  refine (otaCtxInitCells_keeps cfg).bind ?_
  rintro ⟨rc, ctx⟩ c hinit
  cases c with
  | none =>
    obtain rfl : rc = -1 := hinit
    exact leave_keeps _ _
  | some c =>
    obtain ⟨hrc, rfl, hnone, current, inbox, sig, cert, h⟩ := hinit
    obtain rfl : rc = 0 := hrc
    dsimp only
    rw [if_neg (by decide)]
    refine (otaInboxCleanupCells_keeps h).bind (fun _ _ _ => ?_)
    refine (fetchNewManifestCells_keeps h).bind ?_
    rintro rc _ rfl
    split
    · exact leave_keeps _ _
    refine (validateNewManifestCells_keeps h).bind ?_
    rintro rc _ rfl
    split
    · exact leave_keeps _ _
    refine (compareManifestsCells_keeps h).bind ?_
    rintro result _ rfl
    cases result with
    | eq => cases daemonMode <;> exact leave_keeps _ _
    | err => exact leave_keeps _ _
    | neq =>
      refine Keeps.bind (manifestLoadBlock_keeps h.inboxManifest h.mem.2.1) ?_
      rintro loaded _ rfl
      cases loaded with
      | none =>
        show Keeps _ _ (0 + ctx.own) _ _
        rw [zero_add]
        exact leave_keeps _ _
      | some m =>
        have hown : owned ((some m).map Prod.fst) + ctx.own =
            CtxCells.own { ctx with inboxManifest := some m } := by
          unfold CtxCells.own
          rw [hnone]
          show _ + (0 + _) = _ + _
          rw [zero_add]
        dsimp only
        rw [hown]
        refine Keeps.bind (fetchReleaseCells_keeps (m := m) rfl) ?_
        rintro ⟨rc, ctx'⟩ _ ⟨rfl, ⟨rel, hctx'⟩, hpayload⟩
        dsimp only at hctx' hpayload ⊢
        split
        · exact leave_keeps _ _
        · rename_i hrc
          obtain ⟨payload, hp⟩ := hpayload (not_not.mp hrc)
          have hwhole : ctx'.Whole current inbox sig cert := by
            rw [hctx']
            exact ⟨h.currentManifest, h.inboxManifest, h.inboxSig, h.inboxCert⟩
          have hm : ctx'.inboxManifest = some m := by rw [hctx']
          exact installCells_keeps daemonMode hm hp hwhole

lemma otaFetchLoopCells_keeps (daemonMode : Bool) (cfg : OtaConfig) (interval : ℤ) (fuel : ℕ)
    (made : ℤ) :
    Keeps (otaFetchLoopCells daemonMode cfg interval fuel made)
      (otaFetchLoop daemonMode cfg interval fuel made) 0 (· = ·) (fun _ => 0) := by
  induction fuel generalizing made with
  | zero => exact Keeps.ret rfl rfl
  | succ fuel ih =>
    unfold otaFetchLoopCells otaFetchLoop
    refine (attemptCells_keeps daemonMode cfg).bind ?_
    rintro how _ rfl
    cases how with
    | returned rc => exact Keeps.ret rfl rfl
    | ended rc =>
      dsimp only
      split
      · refine Keeps.step _ (fun stop => ?_)
        cases stop with
        | false => exact ih made
        | true => exact Keeps.ret rfl rfl
      · split
        · refine Keeps.step _ (fun stop => ?_)
          cases stop with
          | false => exact ih (made + 1)
          | true => exact Keeps.ret rfl rfl
        · exact Keeps.ret rfl rfl

/-- However many iterations run and whatever is refused on the way, the run with
its blocks makes the calls of the plain one and returns what it returns. It uses
and frees only what it holds, and it holds nothing more when it returns or stands
between two iterations than it held at the start. -/
theorem otaFetchRun_frees_everything (e : Env) (w : World) (fuel : ℕ) (daemonMode : Bool)
    (cfg : OtaConfig) (l : Book) :
    (run (exec e) (otaFetchRunCells fuel daemonMode cfg l) w).trace =
        (run (exec e) (otaFetchRun fuel daemonMode cfg) w).trace ∧
      (run (exec e) (otaFetchRunCells fuel daemonMode cfg l) w).value.1 =
        (run (exec e) (otaFetchRun fuel daemonMode cfg) w).value ∧
      (run (exec e) (otaFetchRunCells fuel daemonMode cfg l) w).value.2.live = l.live ∧
      (run (exec e) (otaFetchRunCells fuel daemonMode cfg l) w).value.2.bad = l.bad := by
  have hloop := otaFetchLoopCells_keeps daemonMode cfg
    (if 0 < cfg.updateIntervalSec then cfg.updateIntervalSec else fetchIntervalSec) fuel 0 l
    l.live (add_zero _).symm
  obtain ⟨htrace, -, hvalue, hlive, hbad⟩ := hloop.run (exec e) w
  rw [add_zero] at hlive
  exact ⟨htrace, hvalue, hlive, hbad⟩

end OtaFetch.FetchMemory
