import OtaFetch.Points

/-!
# The install gate

Whenever the installer is spawned, everything it relies on was established
earlier in the same iteration, about the same bytes. One part of this rests on
`stat`: a current manifest that is there but cannot be looked at counts as
absent, and then the same manifest is installed again.
-/
namespace OtaFetch.Gate
open CPath FileTree Stdio Interaction Machine Config Releases Hash Verify Fetch Update
open Iteration Stages

/-- The call to `stat` on a current manifest that is there does not fail. -/
def StatSees (e : Env) (cfg : OtaConfig) (s : Step Call Resp World) : Prop :=
  ∀ current, cfg.currentManifestDir = some current →
    s.call = .stat (join current manifestName) →
    sourceAt s.before.fs e.cwd (join current manifestName) ≠ .missing →
    e.fault s.before.clock (.stat (join current manifestName)) = none

/-- A comparison that saw the current manifest found another digest. -/
lemma sha256_ne_of_differs {e : Env} {cfg : OtaConfig} {ctx : OtaCtx} {inbox current : CStr}
    (hb : ctx.Built cfg inbox current) {v v' : World} {u : Trace} (hc : Chain (exec e) v u v')
    (hro : ∀ s ∈ u, ReadOnly s.call) (hd : Differs ctx u) (hsees : ∀ s ∈ u, StatSees e cfg s)
    {b c : Bytes} (hin : sourceAt v.fs e.cwd (join inbox manifestName) = .file b)
    (hcur : sourceAt v.fs e.cwd (join current manifestName) = .file c) :
    e.sha256 c ≠ e.sha256 b := by
  have hfs := (chain_readOnly hc hro).2
  rw [Differs, hb.currentManifest, hb.inboxManifest] at hd
  rcases hd with ⟨s, hs, err, hev⟩ | ⟨d₁, d₂, ⟨⟨s₁, hs₁, hev₁⟩, s₂, hs₂, hev₂⟩, hne⟩
  · have hx := step_event (hc.answer hs) hev
    have hfile : sourceAt s.before.fs e.cwd (join current manifestName) = .file c := by
      rw [(hfs s hs).1, hcur]
    have hfault := hsees s hs current hb.currentDir (congrArg Sigma.fst hev) (by simp [hfile])
    have hmiss := exec_stat_error hx hfault
    rw [hfile] at hmiss
    cases hmiss
  · obtain ⟨p₁, data₁, hp₁, hsrc₁, rfl⟩ := exec_sha256sum_ok (step_event (hc.answer hs₁) hev₁)
    obtain ⟨p₂, data₂, hp₂, hsrc₂, rfl⟩ := exec_sha256sum_ok (step_event (hc.answer hs₂) hev₂)
    obtain rfl := Option.some.inj hp₁
    obtain rfl := Option.some.inj hp₂
    rw [(hfs s₁ hs₁).1, hcur] at hsrc₁
    rw [(hfs s₂ hs₂).1, hin] at hsrc₂
    rw [Source.file.inj hsrc₁, Source.file.inj hsrc₂]
    exact hne

/-- `here` is what the current iteration has done so far, at the end of `pre`. -/
def ThisIteration (pre here : Trace) : Prop :=
  ∃ before, pre = before ++ here ∧ OpensWith (· ≠ .startCheck) here

/-- What the steps `here` of an iteration have established when its step `s`
spawns the installer. -/
def Gated (e : Env) (cfg : OtaConfig) (here : Trace) (s : Step Call Resp World) : Prop :=
  ∃ inbox current b m sv release file filename bytes,
    cfg.inboxManifestDir = some inbox ∧ cfg.currentManifestDir = some current ∧
    Authentic e cfg inbox b m sv here ∧
    (∀ c, sourceAt sv.before.fs e.cwd (join current manifestName) = .file c →
      e.sha256 c ≠ e.sha256 b) ∧
    Validated e cfg inbox m release file filename bytes here ∧
    file.fileType = some raucBundle ∧
    s.call = .spawn [text "rauc", text "install", join inbox filename] ∧
    sourceAt s.before.fs e.cwd (join inbox filename) = .file bytes

/-- Every spawn of the trace is gated by its own iteration. -/
def InstallGate (e : Env) (cfg : OtaConfig) (t : Trace) : Prop :=
  ∀ pre s post argv, t = pre ++ s :: post → s.call = .spawn argv →
    ∃ here, ThisIteration pre here ∧ Gated e cfg here s

lemma replaced_calls {e : Env} {ctx : OtaCtx} {w v : World} {rc : ℤ} {t : Trace}
    (h : Replaced e ctx w rc t v) {s : Step Call Resp World} (hs : s ∈ t) (argv : List CStr) :
    s.call ≠ .spawn argv := by
  cases h with
  | mk mk w₁ w₂ v r₁ r₂ hmk hcalls h₁ h₂ =>
    rcases List.mem_append.mp hs with hs | hs
    · obtain ⟨dir, -, u, m, hc, -⟩ := hcalls s hs
      rw [hc]
      simp
    · simp only [List.mem_cons, List.not_mem_nil, or_false] at hs
      rcases hs with rfl | rfl <;> simp

/-- The installer is spawned by the first step of the last stage. -/
lemma applied_spawn {e : Env} {ctx : OtaCtx} {w v : World} {rc : ℤ} {pre post : Trace}
    {s : Step Call Resp World} {argv : List CStr} (h : Applied e ctx w rc (pre ++ s :: post) v)
    (hs : s.call = .spawn argv) :
    pre = [] ∧ s.before = w ∧ s.call = .spawn (raucArgv ctx.payloadPath) ∧
      (firstFile ctx).bind ManifestFile.fileType = some raucBundle := by
  have hfirst : ∀ {x : Step Call Resp World} {rest : Trace}, pre ++ s :: post = x :: rest →
      (∀ y ∈ rest, y.call ≠ .spawn argv) → pre = [] ∧ s = x := by
    intro x rest he hrest
    cases pre with
    | nil => exact ⟨rfl, (List.cons_eq_cons.mp he).1⟩
    | cons y ys =>
      have hmem : s ∈ rest := by
        rw [← (List.cons_eq_cons.mp he).2]
        simp
      exact absurd hs (hrest s hmem)
  generalize ht : pre ++ s :: post = t at h
  cases h with
  | unsupported rc hrc htest htype => simp at ht
  | tested rc t v htype hrep => exact absurd hs (replaced_calls hrep (by rw [← ht]; simp) argv)
  | unspawned err v htype hx =>
    obtain ⟨hpre, rfl⟩ := hfirst ht (by simp)
    exact ⟨hpre, rfl, rfl, htype⟩
  | failed w₁ v r htype h₁ h₂ hr =>
    obtain ⟨hpre, rfl⟩ := hfirst ht (by simp)
    exact ⟨hpre, rfl, rfl, htype⟩
  | kept w₁ w₂ v t rc htype h₁ h₂ hrep hrc =>
    obtain ⟨hpre, rfl⟩ := hfirst ht (by
      intro y hy
      rcases List.mem_cons.mp hy with rfl | hy
      · simp
      · exact replaced_calls hrep hy argv)
    exact ⟨hpre, rfl, rfl, htype⟩
  | rebooted w₁ w₂ w₃ w₄ v t htype h₁ h₂ hrep h₃ h₄ =>
    obtain ⟨hpre, rfl⟩ := hfirst ht (by
      intro y hy
      simp only [List.mem_cons, List.mem_append, List.not_mem_nil, or_false] at hy
      rcases hy with rfl | hy | rfl | rfl
      · simp
      · exact replaced_calls hrep hy argv
      · simp
      · simp)
    exact ⟨hpre, rfl, rfl, htype⟩

/-- What a validated payload and the steps before it make of a spawn. -/
lemma gated_of_validated {e : Env} {cfg : OtaConfig} {w v : World} {ctx : OtaCtx} {t : Trace}
    {s : Step Call Resp World} (hr : Reach e cfg w .validated ctx t v)
    (hsees : ∀ x ∈ t, StatSees e cfg x) (hbefore : s.before = v)
    (hcall : s.call = .spawn (raucArgv ctx.payloadPath))
    (htype : (firstFile ctx).bind ManifestFile.fileType = some raucBundle) :
    Gated e cfg t s := by
  obtain ⟨inbox, current, hb⟩ := hr.built
  obtain ⟨ctx₀, t₀, v₀, u, m, release, file, filename, bytes, hr₀, hb₀, hm, rfl, -, -, hval, hfirst,
    hpayload, hsrc⟩ := hr.validated hb
  obtain ⟨b, m', sv, x, v₁, v₂, hm', hauth, -, hv₁, hc, hsub, hro, hdiff⟩ := hr₀.loaded hb₀
  obtain rfl : m = m' := Option.some.inj (hm.symm.trans hm')
  rw [hfirst] at htype
  rw [hpayload] at hcall
  refine ⟨inbox, current, b, m, sv, release, file, filename, bytes, hb.inboxDir, hb.currentDir,
    hauth.mono fun y hy => List.mem_append_left _ hy, ?_,
    hval.mono fun y hy => List.mem_append_right _ hy, htype, hcall, by rw [hbefore, hsrc]⟩
  intro c hcur
  have hin := hauth.bytes
  rw [← hv₁] at hin hcur
  exact sha256_ne_of_differs hb₀ hc hro hdiff
    (fun y hy => hsees y (List.mem_append_left _ (hsub y hy))) hin hcur

/-- In every run in which `stat` never fails on a current manifest that is
there, every spawn of the installer is gated. -/
theorem otaFetchRun_installGate (e : Env) (w : World) (fuel : ℕ) (daemonMode : Bool)
    (cfg : OtaConfig)
    (hsees : ∀ s ∈ (run (exec e) (otaFetchRun fuel daemonMode cfg) w).trace, StatSees e cfg s) :
    InstallGate e cfg (run (exec e) (otaFetchRun fuel daemonMode cfg) w).trace := by
  intro pre s post argv ht hs
  rcases otaFetchRun_step ht with hp | ⟨before, here, after, w', rfl, hit, hsub⟩
  · rcases hp with ⟨n, hn⟩ | hn <;> rw [hs] at hn <;> cases hn
  have hlate : ¬ Early s.call := fun hearly => hearly.2.1 argv hs
  obtain ⟨ctx, t₀, v₀, pre', hr, rfl, happ⟩ := attempt_late hit (stageCalls_early e cfg)
    (fun _ _ _ _ _ => trivial) (by rw [hs]; simp) hlate
  have happlied : Applied e ctx v₀ _ _ _ := applyRelease_yields e v₀ ctx
  rw [happ] at happlied
  obtain ⟨rfl, hbefore, hcall, htype⟩ := applied_spawn happlied hs
  rw [List.append_nil] at hsub ⊢
  have hsees₀ : ∀ x ∈ t₀, StatSees e cfg x := fun x hx => hsees x (hsub x (by simp [hx]))
  refine ⟨t₀, ?_, gated_of_validated hr hsees₀ hbefore hcall htype⟩
  have hopen := hr.calls (stageCalls_early e cfg) (fun _ _ _ _ _ => trivial)
  exact ⟨before, rfl, hopen.mono fun c hc => hc.1⟩

/-- A device that polls `u` into `in` and keeps its manifest in `cur`. -/
def deviceConfig : OtaConfig :=
  { blankConfig with
    serverUrl := some (text "u")
    retryAttempts := 1
    inboxManifestDir := some (text "in")
    currentManifestDir := some (text "cur")
    manifestCaCert := some (text "ca")
    deviceId := some (text "cam") }

lemma deviceConfig_apart : DirsApart [] deviceConfig := by
  intro inbox current hin hcur
  obtain rfl : text "in" = inbox := Option.some.inj hin
  obtain rfl : text "cur" = current := Option.some.inj hcur
  decide

def bundleBytes : Bytes := [1, 2, 3]

/-- One release, for the device, with one file. -/
def releaseMembers (filename fileType : CStr) : List (CStr × Json) :=
  let file := .obj [(text "file_type", .str fileType), (text "filename", .str filename),
    (text "sha256", .str (hexText (padDigest bundleBytes).bytes)), (text "path", .str (text "b"))]
  [(text "releases",
    .arr [.obj [(text "device_id", .str (text "cam")), (text "files", .arr [file])]])]

/-- The text of that manifest. -/
def manifestFor (filename fileType : CStr) : Bytes :=
  (Json.obj (releaseMembers filename fileType)).print

def manifestBytes : Bytes := manifestFor (text "fw") raucBundle

/-- The bundle at `u/b`, and the same document under every other name. -/
def deviceServer (doc : Bytes) (_ : ℕ) (req : CurlRequest) : Transfer :=
  if req.url = text "u/b" then ⟨[bundleBytes], 0, 200⟩ else ⟨[doc], 0, 200⟩

def deviceEnv (filename fileType : CStr) : Env :=
  .calm (deviceServer (manifestFor filename fileType))
    (.ofObject (releaseMembers filename fileType))

/-- Nothing but the CA file. -/
def deviceTree : Tree CStr FileRec := bareTree.put [text "ca"] ⟨[0], 420⟩

/-- The served manifest is already the current one. -/
def updatedTree : Tree CStr FileRec :=
  (deviceTree.makeDir [text "cur"]).put [manifestName, text "cur"] ⟨manifestBytes, 420⟩

def isSpawn : Call → Bool
  | .spawn _ => true
  | _ => false

def isStat : Call → Bool
  | .stat _ => true
  | _ => false

def isVerify : Call → Bool
  | .verify _ _ _ _ _ => true
  | _ => false

theorem otaFetchRun_installGate_device :
    (∃ s ∈ (run (exec (deviceEnv (text "fw") raucBundle)) (otaFetchRun 1 false deviceConfig)
        (.at deviceTree)).trace, isSpawn s.call = true) ∧
      InstallGate (deviceEnv (text "fw") raucBundle) deviceConfig
        (run (exec (deviceEnv (text "fw") raucBundle)) (otaFetchRun 1 false deviceConfig)
          (.at deviceTree)).trace := by
  refine ⟨by decide +kernel, otaFetchRun_installGate _ _ _ _ _ ?_⟩
  intro s _ current _ _ _
  rfl

/-- `stat` fails with an I/O error. -/
def blindEnv : Env :=
  { deviceEnv (text "fw") raucBundle with
    fault := fun _ c => if isStat c then some .eio else none }

/-- With a current manifest equal to the served one, a failing `stat` leads to a
second installation of it. -/
theorem otaFetchRun_installs_again :
    ¬ InstallGate blindEnv deviceConfig
      (run (exec blindEnv) (otaFetchRun 1 false deviceConfig) (.at updatedTree)).trace := by
  intro hgate
  have hspawn : ∃ s ∈ (run (exec blindEnv) (otaFetchRun 1 false deviceConfig)
      (.at updatedTree)).trace, isSpawn s.call = true := by decide +kernel
  have hverify : ∀ s ∈ (run (exec blindEnv) (otaFetchRun 1 false deviceConfig)
      (.at updatedTree)).trace, isVerify s.call = true →
      sourceAt s.before.fs [] (text "cur/manifest.json") = .file manifestBytes ∧
        sourceAt s.before.fs [] (text "in/manifest.json") = .file manifestBytes := by
    decide +kernel
  obtain ⟨s, hs, hsp⟩ := hspawn
  obtain ⟨pre, post, ht⟩ := List.append_of_mem hs
  obtain ⟨argv, hargv⟩ : ∃ argv, s.call = .spawn argv := by
    cases hc : s.call with
    | spawn argv => exact ⟨argv, rfl⟩
    | _ => simp [hc, isSpawn] at hsp
  obtain ⟨here, ⟨before, rfl, -⟩, inbox, current, b, m, sv, release, file, filename, bytes, hin,
    hcur, hauth, hdiff, -⟩ := hgate pre s post argv ht hargv
  obtain rfl : text "in" = inbox := Option.some.inj hin
  obtain rfl : text "cur" = current := Option.some.inj hcur
  obtain ⟨msg, hev⟩ := hauth.verified
  have hmem : sv ∈ (run (exec blindEnv) (otaFetchRun 1 false deviceConfig)
      (.at updatedTree)).trace := by
    rw [ht]
    simp [hauth.mem]
  have hcall : isVerify sv.call = true := by
    rw [show sv.call = _ from congrArg Sigma.fst hev]
    rfl
  obtain ⟨hold, hnew⟩ := hverify sv hmem hcall
  have hb : Source.file b = .file manifestBytes := hauth.bytes.symm.trans hnew
  obtain rfl := Source.file.inj hb
  exact hdiff manifestBytes hold rfl

end OtaFetch.Gate
