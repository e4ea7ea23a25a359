import OtaFetch.Current

/-!
# Iterations in which all goes well

When local operations succeed and the server offers a signed manifest with a
matching payload, no stage of an iteration fails, and what each of them leaves
is what was offered.
-/
namespace OtaFetch.Smooth
open CPath FileTree Stdio Interaction Machine Config Releases Hash Verify Fetch Update
open Iteration Stages Gate Untrusted Current

/-- A local operation does what it is asked to. Refused calls of `unlink` and
`opendir` do no harm and are left open. -/
def LocalOk (e : Env) (w : World) : (c : Call) → Resp c → Prop
  | .malloc, r => r = true
  | .curlInit, r => r = true
  | .mkdir _ _, r => r = .ok () ∨ r = .error .eexist
  | .rename _ _, r => r = .ok ()
  | .fopen _, r => r.isOk = true
  | .fwrite _ chunk, r => r.1 = chunk.length
  | .fflush _, r => r.1 = .ok ()
  | .fclose _, r => r = .ok ()
  | .stat p, r => r.isOk = true ∨ contentAt e w p = none
  | .sha256sum _, r => r.isOk = true
  | .load p, r => r = (contentAt e w p).bind (manifestParse e.cjson)
  | _, _ => True

instance (e : Env) (w : World) : (c : Call) → (r : Resp c) → Decidable (LocalOk e w c r)
  | .malloc, r => inferInstanceAs (Decidable (r = true))
  | .curlInit, r => inferInstanceAs (Decidable (r = true))
  | .mkdir _ _, r => inferInstanceAs (Decidable (r = .ok () ∨ r = .error .eexist))
  | .rename _ _, r => inferInstanceAs (Decidable (r = .ok ()))
  | .fopen _, r => inferInstanceAs (Decidable (r.isOk = true))
  | .fwrite _ chunk, r => inferInstanceAs (Decidable (r.1 = chunk.length))
  | .fflush _, r => inferInstanceAs (Decidable (r.1 = .ok ()))
  | .fclose _, r => inferInstanceAs (Decidable (r = .ok ()))
  | .stat p, r => inferInstanceAs (Decidable (r.isOk = true ∨ contentAt e w p = none))
  | .sha256sum _, r => inferInstanceAs (Decidable (r.isOk = true))
  | .load p, r =>
    inferInstanceAs (Decidable (r = (contentAt e w p).bind (manifestParse e.cjson)))
  | .startCheck, _ | .unlink _, _ | .opendir _, _ | .perform _, _ | .verify _ _ _ _ _, _
  | .spawn _, _ | .waitpid, _ | .sleep _, _ | .sync, _ | .reboot, _ | .terminated, _
  | .readToken _, _ | .keyAndCsr _, _ | .requestJson _ _, _ | .openWrite _ _, _ | .openDir _, _
  | .write _ _, _ | .fchmod _ _, _ | .fsync _, _ | .close _, _ => isTrue trivial

/-- What the server offers in one iteration, and what the device finds in it. -/
structure Offer where
  manifest : Bytes
  sig : Bytes
  cert : Bytes
  payload : Bytes
  doc : Manifest
  release : ManifestRelease
  file : ManifestFile
  filename : CStr
  path : CStr

/-- The manifest has a release for the device, whose first file is complete, of a
supported type, matches the payload, and is not stored over the inbox manifest. -/
structure Offer.Fit (e : Env) (cfg : OtaConfig) (inbox : CStr) (o : Offer) : Prop where
  parsed : manifestParse e.cjson o.manifest = some o.doc
  select : manifestSelectRelease (some o.doc) cfg.deviceId = some o.release
  first : o.release.files.head? = some o.file
  named : o.file.filename = some o.filename
  located : o.file.path = some o.path
  sha256 : o.file.sha256 = some (hexText (e.sha256 o.payload).bytes)
  fileType : o.file.fileType = some raucBundleTest ∨ o.file.fileType = some raucBundle
  elsewhere : place e.cwd (join inbox o.filename) ≠ place e.cwd (join inbox manifestName)

/-- The transfer succeeds with this body. -/
def Delivers (tr : Transfer) (body : Bytes) : Prop :=
  tr.result = curleOk ∧ 200 ≤ tr.status ∧ tr.status < 300 ∧ tr.chunks.flatten = body

instance (tr : Transfer) (body : Bytes) : Decidable (Delivers tr body) :=
  inferInstanceAs (Decidable (_ ∧ _))

/-- The server delivers the offer, its signature is valid, and the installer succeeds. -/
def Serves (e : Env) (cfg : OtaConfig) (url : CStr) (o : Offer) (w : World) :
    (c : Call) → Resp c → Prop
  | .perform req, tr =>
    (req = fetchRequest (join url manifestName) cfg false → Delivers tr o.manifest) ∧
    (req = fetchRequest (join url sigName) cfg false → Delivers tr o.sig) ∧
    (req = fetchRequest (join url certName) cfg false → Delivers tr o.cert) ∧
    (req = fetchRequest (join url o.path) cfg true → Delivers tr o.payload)
  | .verify d g c _ _, r =>
    d.bind (contentAt e w) = some o.manifest → g.bind (contentAt e w) = some o.sig →
      c.bind (contentAt e w) = some o.cert → r.1 = .ok
  | .spawn _, r => r = .ok ()
  | .waitpid, r => r = .ok (.exited 0)
  | _, _ => True

instance (e : Env) (cfg : OtaConfig) (url : CStr) (o : Offer) (w : World) :
    (c : Call) → (r : Resp c) → Decidable (Serves e cfg url o w c r)
  | .perform _, _ => inferInstanceAs (Decidable (_ ∧ _))
  | .verify _ _ _ _ _, _ => inferInstanceAs (Decidable (_ → _))
  | .spawn _, r => inferInstanceAs (Decidable (r = .ok ()))
  | .waitpid, r => inferInstanceAs (Decidable (r = .ok (.exited 0)))
  | .startCheck, _ | .malloc, _ | .mkdir _ _, _ | .unlink _, _ | .rename _ _, _ | .stat _, _
  | .opendir _, _ | .fopen _, _ | .fwrite _ _, _ | .fflush _, _ | .fclose _, _ | .curlInit, _
  | .sha256sum _, _ | .load _, _ | .sleep _, _ | .sync, _ | .reboot, _ | .terminated, _
  | .readToken _, _ | .keyAndCsr _, _ | .requestJson _ _, _ | .openWrite _ _, _ | .openDir _, _
  | .write _ _, _ | .fchmod _ _, _ | .fsync _, _ | .close _, _ => isTrue trivial

/-- A step of an iteration in which all goes well with this offer. -/
def Fair (e : Env) (cfg : OtaConfig) (url : CStr) (o : Offer) (s : Step Call Resp World) : Prop :=
  LocalOk e s.before s.call s.reply ∧ Serves e cfg url o s.before s.call s.reply

instance (e : Env) (cfg : OtaConfig) (url : CStr) (o : Offer) (s : Step Call Resp World) :
    Decidable (Fair e cfg url o s) :=
  inferInstanceAs (Decidable (_ ∧ _))

/-- The request of a call that asks the server for something. -/
def request? : Call → Option CurlRequest
  | .perform req => some req
  | _ => none

/-- The argument vector of a call that starts a program. -/
def spawn? : Call → Option (List CStr)
  | .spawn argv => some argv
  | _ => none

/-- What `f` picks from the calls of a trace, in order. -/
def gather {β : Type} (f : Call → Option β) (t : Trace) : List β := t.filterMap fun s => f s.call

@[simp] theorem gather_nil {β : Type} (f : Call → Option β) : gather f [] = [] := rfl

@[simp] theorem gather_append {β : Type} (f : Call → Option β) (t u : Trace) :
    gather f (t ++ u) = gather f t ++ gather f u := List.filterMap_append

@[simp] theorem gather_cons {β : Type} (f : Call → Option β) (s : Step Call Resp World)
    (t : Trace) : gather f (s :: t) = (f s.call).toList ++ gather f t := by
  unfold gather
  rw [List.filterMap_cons]
  cases f s.call with
  | none => rfl
  | some b => rfl

lemma gather_eq_nil {β : Type} {f : Call → Option β} {t : Trace}
    (h : ∀ s ∈ t, f s.call = none) : gather f t = [] :=
  List.filterMap_eq_nil_iff.mpr h

lemma gather_malloc {t : Trace} (h : ∀ s ∈ t, s.call = .malloc) : gather request? t = [] := by
  apply gather_eq_nil
  intro s hs
  rw [h s hs]
  rfl

/-- Every step is a local operation that succeeds, whatever else is known of it. -/
def Local (e : Env) (G : Step Call Resp World → Prop) : Prop :=
  ∀ s, G s → LocalOk e s.before s.call s.reply

lemma fair_local (e : Env) (cfg : OtaConfig) (url : CStr) (o : Offer) :
    Local e (Fair e cfg url o) := fun _ h => h.1

lemma buildPath_granted {e : Env} {G : Step Call Resp World → Prop} (hG : Local e G) (w : World)
    (d f : CStr) :
    Granted (exec e) G w (buildPath (some d) (some f)) (fun r t _ =>
      r = some (join d f) ∧ ∀ s ∈ t, s.call = .malloc) := by
  unfold buildPath
  refine Granted.call ?_
  intro r v _ hg
  obtain rfl : r = true := hG _ hg
  exact Granted.ret ⟨rfl, by simp⟩

lemma mkdirOne_granted {e : Env} {G : Step Call Resp World → Prop} (hG : Local e G) (w : World)
    (p : CStr) (m : ℕ) :
    Granted (exec e) G w (mkdirOne p m) (fun b _ _ => b = true) := by
  unfold mkdirOne
  refine Granted.call ?_
  intro r v _ hg
  rcases (hG _ hg : r = .ok () ∨ r = .error .eexist) with rfl | rfl
  · exact Granted.ret rfl
  · exact Granted.ret rfl

lemma mkdirLoop_granted {e : Env} {G : Step Call Resp World → Prop} (hG : Local e G) (w : World)
    (m : ℕ) (done rest : CStr) :
    Granted (exec e) G w (mkdirLoop m done rest) (fun rc _ _ => rc = 0) := by
  induction rest generalizing done w with
  | nil =>
    unfold mkdirLoop
    refine Granted.bind _ (mkdirOne_granted hG w done m) ?_
    rintro b t v rfl -
    exact Granted.ret rfl
  | cons c rest ih =>
    unfold mkdirLoop
    split
    · refine Granted.bind _ (mkdirOne_granted hG w done m) ?_
      rintro b t v rfl -
      exact ih v (done ++ [c])
    · exact ih w (done ++ [c])

/-- The parent of a path cut to the buffer is short enough for `mkdir_p`. -/
lemma cutLast_take_length {dest dir : CStr} (h : cutLast (dest.take (pathMax - 1)) = some dir) :
    dir.length < pathMax := by
  obtain ⟨c, -, hc⟩ := cutLast_some h
  have hlen := congrArg List.length hc
  rw [List.length_take, List.length_append, List.length_cons] at hlen
  have hcut : min (pathMax - 1) dest.length ≤ pathMax - 1 := Nat.min_le_left _ _
  have hmax : 0 < pathMax := by decide
  omega

lemma ensureParentDirExists_granted {e : Env} {G : Step Call Resp World → Prop}
    (hG : Local e G) (w : World) (dest : CStr) :
    Granted (exec e) G w (ensureParentDirExists dest) (fun rc _ _ => rc = 0) := by
  unfold ensureParentDirExists
  split
  · exact Granted.ret rfl
  · rename_i dir hdir
    have hlen := cutLast_take_length hdir
    split
    · exact Granted.ret rfl
    · rename_i hne
      unfold mkdirP
      rw [if_neg hne, if_neg (by omega)]
      exact mkdirLoop_granted hG w 493 _ _

lemma fileWriteCallback_granted {e : Env} {G : Step Call Resp World → Prop} (hG : Local e G)
    (w : World) (chunk : Bytes) (fp : Stream) :
    Granted (exec e) G w (fileWriteCallback chunk fp) (fun r t _ =>
      r.1 = chunk.length ∧ gather request? t = []) := by
  unfold fileWriteCallback
  split
  · rename_i hempty
    exact Granted.ret ⟨by rw [hempty]; rfl, rfl⟩
  · refine Yields.op ?_
    intro r v _ hall
    have hg := hG _ (hall _ (List.mem_singleton_self _))
    exact ⟨hg, rfl⟩

lemma deliver_granted {e : Env} {G : Step Call Resp World → Prop} (hG : Local e G) (w : World)
    (chunks : List Bytes) (fp : Stream) :
    Granted (exec e) G w (deliver chunks fp) (fun r t _ =>
      r.1 = true ∧ gather request? t = []) := by
  induction chunks generalizing w fp with
  | nil => exact Granted.ret ⟨rfl, rfl⟩
  | cons chunk rest ih =>
    unfold deliver
    refine Granted.bind _ (fileWriteCallback_granted hG w chunk fp) ?_
    rintro r t v ⟨hn, ht⟩ -
    dsimp only
    rw [if_pos hn]
    refine (ih v r.2).mono ?_
    intro r' t' _ _ h
    rw [gather_append, ht, h.2]
    exact ⟨h.1, rfl⟩

/-- A request that is served is one step, and its body goes into the stream. -/
lemma curlEasyPerform_granted {e : Env} {G : Step Call Resp World → Prop} (hG : Local e G)
    (w : World) (req : CurlRequest) (fp : Stream) {body : Bytes}
    (hserve : ∀ s, G s → ∀ tr, s.event = ⟨.perform req, tr⟩ → Delivers tr body) :
    Granted (exec e) G w (curlEasyPerform req fp) (fun res t _ =>
      res.result = curleOk ∧ 200 ≤ res.status ∧ res.status < 300 ∧ gather request? t = [req]) := by
  unfold curlEasyPerform
  refine Granted.call ?_
  intro tr w₁ _ hg
  obtain ⟨hresult, hlow, hhigh, -⟩ := hserve _ hg tr rfl
  refine Granted.bind _ (deliver_granted hG w₁ tr.chunks fp) ?_
  rintro ⟨taken, fp'⟩ t v ⟨htaken, ht⟩ -
  obtain rfl : taken = true := htaken
  refine Granted.ret ⟨hresult, hlow, hhigh, ?_⟩
  simp [ht, request?]

lemma fetchOpened_granted {e : Env} {G : Step Call Resp World → Prop} (hG : Local e G)
    (w : World) (url dest : CStr) (cfg : OtaConfig) (showProgress : Bool) (fp : Stream)
    {body : Bytes}
    (hserve : ∀ s, G s → ∀ tr, s.event = ⟨.perform (fetchRequest url cfg showProgress), tr⟩ →
      Delivers tr body) :
    Granted (exec e) G w (fetchOpened url dest cfg showProgress fp) (fun rc t _ =>
      rc = 0 ∧ gather request? t = [fetchRequest url cfg showProgress]) := by
  unfold fetchOpened
  refine Granted.call ?_
  intro r₁ w₁ _ hg₁
  obtain rfl : r₁ = true := hG _ hg₁
  refine Granted.bind _ (curlEasyPerform_granted hG w₁ _ fp hserve) ?_
  rintro res t₂ w₂ ⟨hresult, hlow, hhigh, ht₂⟩ -
  rw [if_neg (not_not.mpr hresult), if_neg (by omega)]
  refine Granted.call ?_
  rintro ⟨flushed, fp'⟩ w₃ _ hg₃
  obtain rfl : flushed = .ok () := hG _ hg₃
  refine Granted.call ?_
  intro closed w₄ _ hg₄
  obtain rfl : closed = .ok () := hG _ hg₄
  refine Granted.call ?_
  intro moved w₅ _ hg₅
  obtain rfl : moved = .ok () := hG _ hg₅
  refine Granted.ret ⟨rfl, ?_⟩
  simp [ht₂, request?]

/-- A download that is served and meets no local failure stores the body, with
one request. -/
theorem fetchFile_granted {e : Env} {G : Step Call Resp World → Prop} (hG : Local e G)
    (w : World) (url dest : CStr) (cfg : OtaConfig) (showProgress : Bool) {body : Bytes}
    (hserve : ∀ s, G s → ∀ tr, s.event = ⟨.perform (fetchRequest url cfg showProgress), tr⟩ →
      Delivers tr body) :
    Granted (exec e) G w (fetchFile url dest cfg showProgress) (fun rc t v =>
      rc = 0 ∧ gather request? t = [fetchRequest url cfg showProgress] ∧
        contentAt e v dest = some body) := by
  have hmk : Yields (exec e) w (ensureParentDirExists dest) (fun _ t _ =>
      gather request? t = []) := by
    have hcalls := Yields.of_obeys (w := w) (ensureParentDirExists_obeys (Lawful e) dest)
      (exec_lawful e)
    refine hcalls.mono ?_
    intro _ t _ ht
    apply gather_eq_nil
    intro s hs
    obtain ⟨u, m, hc, -⟩ := ht.2 s hs
    rw [hc]
    rfl
  have hrun : Granted (exec e) G w (fetchFile url dest cfg showProgress) (fun rc t _ =>
      rc = 0 ∧ gather request? t = [fetchRequest url cfg showProgress]) := by
    unfold fetchFile
    refine Granted.bind _ ((ensureParentDirExists_granted hG w dest).and hmk) ?_
    rintro rc t₁ w₁ ⟨rfl, ht₁⟩ -
    rw [if_neg (by simp)]
    refine Granted.call ?_
    intro r₂ w₂ _ hg₂
    obtain rfl : r₂ = true := hG _ hg₂
    refine Granted.call ?_
    intro r₃ w₃ _ hg₃
    cases r₃ with
    | error err => cases (hG _ hg₃ : (Except.error err : Except Errno Stream).isOk = true)
    | ok fp =>
      refine (fetchOpened_granted hG w₃ url dest cfg showProgress fp hserve).mono ?_
      rintro rc t v - ⟨hrc, ht⟩
      refine ⟨hrc, ?_⟩
      simp [ht₁, ht, request?]
  refine (hrun.and (fetchFile_stored e w url dest cfg showProgress)).mono ?_
  rintro rc t v hall ⟨⟨hrc, ht⟩, hstored⟩
  obtain ⟨tr, ⟨⟨⟨s, hs, hev⟩, -⟩, -⟩, hcont⟩ := hstored hrc
  obtain ⟨-, -, -, hbody⟩ := hserve s (hall s hs) tr hev
  exact ⟨hrc, ht, by rw [hcont, hbody]⟩

/-- The requests of `fetch_new_manifest`. -/
def manifestRequests (cfg : OtaConfig) (url : CStr) : List CurlRequest :=
  [fetchRequest (join url manifestName) cfg false, fetchRequest (join url sigName) cfg false,
    fetchRequest (join url certName) cfg false]

/-- The context of an iteration that has just begun. -/
def freshCtx (cfg : OtaConfig) (inbox current : CStr) : OtaCtx :=
  ⟨cfg, join current manifestName, join inbox manifestName, join inbox sigName,
    join inbox certName, none, none, none⟩

lemma freshCtx_built {cfg : OtaConfig} {inbox current : CStr}
    (hin : cfg.inboxManifestDir = some inbox) (hcur : cfg.currentManifestDir = some current) :
    (freshCtx cfg inbox current).Built cfg inbox current :=
  ⟨rfl, hin, hcur, rfl, rfl, rfl, rfl⟩

lemma otaCtxInit_granted {e : Env} {G : Step Call Resp World → Prop} (hG : Local e G) (w : World)
    {cfg : OtaConfig} {inbox current : CStr} (hin : cfg.inboxManifestDir = some inbox)
    (hcur : cfg.currentManifestDir = some current) :
    Granted (exec e) G w (otaCtxInit cfg) (fun r t _ =>
      r = some (freshCtx cfg inbox current) ∧ ∀ s ∈ t, s.call = .malloc) := by
  unfold otaCtxInit
  rw [hin, hcur]
  refine Granted.bind _ (buildPath_granted hG w _ _) ?_
  rintro r₁ t₁ w₁ ⟨rfl, ht₁⟩ -
  refine Granted.bind _ (buildPath_granted hG w₁ _ _) ?_
  rintro r₂ t₂ w₂ ⟨rfl, ht₂⟩ -
  refine Granted.bind _ (buildPath_granted hG w₂ _ _) ?_
  rintro r₃ t₃ w₃ ⟨rfl, ht₃⟩ -
  refine Granted.bind _ (buildPath_granted hG w₃ _ _) ?_
  rintro r₄ t₄ w₄ ⟨rfl, ht₄⟩ -
  refine Granted.ret ⟨rfl, ?_⟩
  intro s hs
  simp only [List.append_nil, List.mem_append] at hs
  rcases hs with hs | hs | hs | hs
  · exact ht₁ s hs
  · exact ht₂ s hs
  · exact ht₃ s hs
  · exact ht₄ s hs

/-- The three manifest files hold what is offered. -/
structure InInbox (e : Env) (inbox : CStr) (o : Offer) (w : World) : Prop where
  manifest : contentAt e w (join inbox manifestName) = some o.manifest
  sig : contentAt e w (join inbox sigName) = some o.sig
  cert : contentAt e w (join inbox certName) = some o.cert

lemma InInbox.of_fs {e : Env} {inbox : CStr} {o : Offer} {w v : World} (h : InInbox e inbox o w)
    (hfs : v.fs = w.fs) : InInbox e inbox o v := by
  exact ⟨(contentAt_congr hfs _).trans h.manifest, (contentAt_congr hfs _).trans h.sig,
    (contentAt_congr hfs _).trans h.cert⟩

/-- The four requests the server answers with the offer. -/
lemma fair_serves {e : Env} {cfg : OtaConfig} {url : CStr} {o : Offer}
    {s : Step Call Resp World} (h : Fair e cfg url o s) {req : CurlRequest} {tr : Transfer}
    (hev : s.event = ⟨.perform req, tr⟩) : Serves e cfg url o s.before (.perform req) tr := by
  obtain ⟨before, call, reply, after⟩ := s
  cases hev
  exact h.2

theorem fetchNewManifest_granted {e : Env} {cfg : OtaConfig} {url inbox current : CStr}
    {o : Offer} (w : World) (hurl : cfg.serverUrl = some url) :
    Granted (exec e) (Fair e cfg url o) w (fetchNewManifest (freshCtx cfg inbox current))
      (fun rc t v => rc = 0 ∧ gather request? t = manifestRequests cfg url ∧
        InInbox e inbox o v) := by
  have hG := fair_local e cfg url o
  unfold fetchNewManifest
  dsimp only [freshCtx]
  rw [hurl]
  refine Granted.bind _ (buildPath_granted hG w _ _) ?_
  rintro r₁ t₁ w₁ ⟨rfl, ht₁⟩ -
  refine Granted.bind _ (buildPath_granted hG w₁ _ _) ?_
  rintro r₂ t₂ w₂ ⟨rfl, ht₂⟩ -
  refine Granted.bind _ (buildPath_granted hG w₂ _ _) ?_
  rintro r₃ t₃ w₃ ⟨rfl, ht₃⟩ -
  refine Granted.bind _ (fetchFile_granted hG w₃ _ _ cfg false
    (fun s hs tr hev => (fair_serves hs hev).1 rfl)) ?_
  rintro rc₄ t₄ w₄ ⟨rfl, ht₄, hm⟩ -
  refine Granted.bind _ ((fetchFile_granted hG w₄ _ _ cfg false
    (fun s hs tr hev => (fair_serves hs hev).2.1 rfl)).and
    (fetchFile_beside e w₄ _ inbox cfg false (by decide : Plain manifestName)
      (by decide) (by decide) (by decide) (by decide))) ?_
  rintro rc₅ t₅ w₅ ⟨⟨rfl, ht₅, hs⟩, hm₅⟩ -
  refine Granted.bind _ ((fetchFile_granted hG w₅ _ _ cfg false
    (fun s hs tr hev => (fair_serves hs hev).2.2.1 rfl)).and
    ((fetchFile_beside e w₅ _ inbox cfg false (by decide : Plain manifestName)
      (by decide) (by decide) (by decide) (by decide)).and
    (fetchFile_beside e w₅ _ inbox cfg false (by decide : Plain sigName)
      (by decide) (by decide) (by decide) (by decide)))) ?_
  rintro rc₆ t₆ w₆ ⟨⟨rfl, ht₆, hc⟩, hm₆, hs₆⟩ -
  refine Granted.ret ⟨rfl, ?_, ?_, ?_, hc⟩
  · simp [ht₄, ht₅, ht₆, gather_malloc ht₁, gather_malloc ht₂, gather_malloc ht₃, manifestRequests]
  · rw [hm₆, hm₅, hm]
  · rw [hs₆, hs]

theorem validateNewManifest_granted {e : Env} {cfg : OtaConfig} {url inbox current : CStr}
    {o : Offer} {w : World} (h : InInbox e inbox o w) :
    Granted (exec e) (Fair e cfg url o) w (validateNewManifest (freshCtx cfg inbox current))
      (fun rc _ v => rc = 0 ∧ v.fs = w.fs) := by
  unfold validateNewManifest
  refine Granted.call ?_
  intro r v hx hg
  have hfs : v.fs = w.fs := congrArg (fun a => a.2.fs) hx.symm
  have hok : r.1 = .ok := hg.2 h.manifest h.sig h.cert
  rw [if_neg (not_not.mpr hok)]
  exact Granted.ret ⟨rfl, hfs⟩

lemma fileExists_granted {e : Env} {G : Step Call Resp World → Prop} (hG : Local e G) (w : World)
    (p : CStr) :
    Granted (exec e) G w (fileExists p) (fun b _ v =>
      (b = false → contentAt e w p = none) ∧ v.fs = w.fs) := by
  unfold fileExists
  refine Granted.call ?_
  intro r v hx hg
  have hfs : v.fs = w.fs := (congrArg (fun a => a.2.fs) hx.symm).trans (exec_stat_fs e w p)
  cases r with
  | ok u => exact Granted.ret ⟨by simp, hfs⟩
  | error err =>
    rcases (hG _ hg : (Except.error err : Except Errno Unit).isOk = true ∨
      contentAt e w p = none) with hok | hnone
    · cases hok
    · exact Granted.ret ⟨fun _ => hnone, hfs⟩

/-- Hashing succeeds, and tells the digests of the two contents. -/
lemma filesEqual_granted {e : Env} {G : Step Call Resp World → Prop} (hG : Local e G) (w : World)
    (path₁ path₂ : CStr) :
    Granted (exec e) G w (filesEqual path₁ path₂) (fun r _ _ =>
      ∃ b₁ b₂, contentAt e w path₁ = some b₁ ∧ contentAt e w path₂ = some b₂ ∧
        r = if (e.sha256 b₁).bytes = (e.sha256 b₂).bytes then .eq else .neq) := by
  have hhash : ∀ {w v : World} {p : CStr} {d : Digest},
      exec e w (.sha256sum (some p)) = (.ok d, v) →
      ∃ b, contentAt e w p = some b ∧ d = e.sha256 b := by
    intro w v p d hx
    obtain ⟨p', b, hp, hsrc, hd⟩ := exec_sha256sum_ok hx
    obtain rfl := Option.some.inj hp
    exact ⟨b, contentAt_of_source hsrc, hd⟩
  unfold filesEqual
  refine Granted.call ?_
  intro r₁ w₁ hx₁ hg₁
  refine Granted.call ?_
  intro r₂ w₂ hx₂ hg₂
  cases r₁ with
  | error err => cases (hG _ hg₁ : (Except.error err : Except Sha256sumErr Digest).isOk = true)
  | ok d₁ =>
    cases r₂ with
    | error err => cases (hG _ hg₂ : (Except.error err : Except Sha256sumErr Digest).isOk = true)
    | ok d₂ =>
      obtain ⟨b₁, hb₁, rfl⟩ := hhash hx₁
      obtain ⟨b₂, hb₂, rfl⟩ := hhash hx₂
      have hfs : w₁.fs = w.fs := congrArg (fun a => a.2.fs) hx₁.symm
      refine Granted.ret ⟨b₁, b₂, hb₁, ?_, rfl⟩
      rwa [contentAt, hfs] at hb₂

/-- Among manifests that the hash tells apart, the comparison is equality of contents. -/
theorem compareManifests_granted {e : Env} {cfg : OtaConfig} {url inbox current : CStr}
    {o : Offer} {w : World} (h : InInbox e inbox o w)
    (hinj : ∀ b, contentAt e w (join current manifestName) = some b →
      e.sha256 b = e.sha256 o.manifest → b = o.manifest) :
    Granted (exec e) (Fair e cfg url o) w (compareManifests (freshCtx cfg inbox current))
      (fun r _ _ =>
        r = if contentAt e w (join current manifestName) = some o.manifest then .eq else .neq) := by
  have hG := fair_local e cfg url o
  unfold compareManifests
  refine Granted.bind _ (fileExists_granted hG w _) ?_
  rintro b₁ t₁ w₁ ⟨hb₁, hfs₁⟩ -
  cases b₁ with
  | false =>
    have hnone : contentAt e w (join current manifestName) = none := hb₁ rfl
    refine Granted.ret ?_
    rw [hnone, if_neg (by simp)]
  | true =>
    refine Granted.bind _ (fileExists_granted hG w₁ _) ?_
    rintro b₂ t₂ w₂ ⟨hb₂, hfs₂⟩ -
    have hin₁ := h.of_fs hfs₁
    cases b₂ with
    | false =>
      have hnone : contentAt e w₁ (join inbox manifestName) = none := hb₂ rfl
      rw [hin₁.manifest] at hnone
      cases hnone
    | true =>
      have hin₂ := hin₁.of_fs hfs₂
      have hcur : contentAt e w₂ (join current manifestName) =
          contentAt e w (join current manifestName) := contentAt_congr (hfs₂.trans hfs₁) _
      refine (filesEqual_granted hG w₂ _ _).mono ?_
      rintro r t v - ⟨b, m, hb, hm, hr⟩
      obtain rfl : m = o.manifest := Option.some.inj (hm.symm.trans hin₂.manifest)
      have hb' : contentAt e w (join current manifestName) = some b := hcur.symm.trans hb
      rw [hr, hb']
      by_cases heq : b = o.manifest
      · rw [heq, if_pos rfl, if_pos rfl]
      · rw [if_neg, if_neg (fun hsome => heq (Option.some.inj hsome))]
        intro hbytes
        apply heq
        apply hinj b hb'
        cases h₁ : e.sha256 b
        cases h₂ : e.sha256 o.manifest
        rw [h₁, h₂] at hbytes
        simpa using hbytes

/-- The context once the payload is downloaded. -/
def payloadCtx (cfg : OtaConfig) (inbox current : CStr) (o : Offer) : OtaCtx :=
  { freshCtx cfg inbox current with
    inboxManifest := some o.doc
    payloadPath := some (join inbox o.filename)
    release := some o.release }

theorem fetchRelease_granted {e : Env} {cfg : OtaConfig} {url inbox current : CStr} {o : Offer}
    (w : World) (hurl : cfg.serverUrl = some url) (hin : cfg.inboxManifestDir = some inbox)
    (hfit : o.Fit e cfg inbox) :
    Granted (exec e) (Fair e cfg url o) w
      (fetchRelease { freshCtx cfg inbox current with inboxManifest := some o.doc })
      (fun r t v => r = (0, payloadCtx cfg inbox current o) ∧
        gather request? t = [fetchRequest (join url o.path) cfg true] ∧
        contentAt e v (join inbox o.filename) = some o.payload ∧
        contentAt e v (join inbox manifestName) = contentAt e w (join inbox manifestName)) := by
  have hG := fair_local e cfg url o
  obtain ⟨fileType, htype⟩ : ∃ fileType, o.file.fileType = some fileType := by
    rcases hfit.fileType with h | h
    · exact ⟨_, h⟩
    · exact ⟨_, h⟩
  have hfiles : ∃ rest, o.release.files = o.file :: rest := by
    cases hl : o.release.files with
    | nil =>
      have hfirst := hfit.first
      rw [hl] at hfirst
      cases hfirst
    | cons file rest =>
      have hfirst := hfit.first
      rw [hl] at hfirst
      exact ⟨rest, by rw [Option.some.inj hfirst]⟩
  obtain ⟨rest, hrest⟩ := hfiles
  unfold fetchRelease
  dsimp only [freshCtx]
  rw [hfit.select]
  dsimp only
  rw [hrest]
  dsimp only
  rw [hfit.named, hfit.located, hfit.sha256, htype]
  dsimp only
  rw [hin]
  refine Granted.bind _ (buildPath_granted hG w _ _) ?_
  rintro r₁ t₁ w₁ ⟨rfl, ht₁⟩ hc₁
  dsimp only
  rw [hurl]
  refine Granted.bind _ (buildPath_granted hG w₁ _ _) ?_
  rintro r₂ t₂ w₂ ⟨rfl, ht₂⟩ hc₂
  dsimp only
  refine Granted.bind _ ((fetchFile_granted hG w₂ _ _ cfg true
    (fun s hs tr hev => (fair_serves hs hev).2.2.2 rfl)).and
    (fetchFile_frame e w₂ _ _ cfg true (Ne.symm hfit.elsewhere)
      (Ne.symm (place_tmpOf_ne_manifest e.cwd _ inbox)))) ?_
  rintro rc t₃ w₃ ⟨⟨rfl, ht₃, hpayload⟩, hframe⟩ -
  have hstill : ∀ {a b : World} {t : Trace}, Chain (exec e) a t b →
      (∀ s ∈ t, s.call = .malloc) →
      contentAt e b (join inbox manifestName) = contentAt e a (join inbox manifestName) := by
    intro a b t hc ht
    refine (chain_contentAt hc ?_).1
    intro s hs
    rw [ht s hs]
    exact id
  refine Granted.ret ⟨rfl, ?_, hpayload, ?_⟩
  · simp [gather_malloc ht₁, gather_malloc ht₂, ht₃]
  · rw [← hstill hc₁ ht₁, ← hstill hc₂ ht₂, contentAt, contentAt, hframe]

lemma firstFile_payloadCtx {e : Env} {cfg : OtaConfig} {inbox : CStr} {o : Offer}
    (hfit : o.Fit e cfg inbox) (current : CStr) :
    firstFile (payloadCtx cfg inbox current o) = some o.file := hfit.first

theorem validateRelease_granted {e : Env} {cfg : OtaConfig} {url inbox current : CStr} {o : Offer}
    {w : World} (hfit : o.Fit e cfg inbox)
    (hpayload : contentAt e w (join inbox o.filename) = some o.payload) :
    Granted (exec e) (Fair e cfg url o) w (validateRelease (payloadCtx cfg inbox current o))
      (fun rc _ v => rc = 0 ∧ v.fs = w.fs) := by
  have hexp : (firstFile (payloadCtx cfg inbox current o)).bind ManifestFile.sha256 =
      some (hexText (e.sha256 o.payload).bytes) := by
    rw [firstFile_payloadCtx hfit]
    exact hfit.sha256
  have hboth := (validateRelease_step w hexp).and (validateRelease_yields e w _)
  refine (Granted.of_yields hboth).mono ?_
  rintro rc t v hall ⟨⟨r, hx, rfl⟩, hiff⟩
  have hfs : v.fs = w.fs := congrArg (fun a => a.2.fs) hx.symm
  have hok := (hall _ (List.mem_singleton_self _)).1
  cases r with
  | error err => cases (hok : (Except.error err : Except Sha256sumErr Digest).isOk = true)
  | ok d =>
    obtain ⟨p, b, hp, hsrc, rfl⟩ := exec_sha256sum_ok hx
    obtain rfl : join inbox o.filename = p := Option.some.inj hp
    obtain rfl : o.payload = b := Option.some.inj (hpayload.symm.trans (contentAt_of_source hsrc))
    exact ⟨hiff.mpr ⟨_, hexp, hx, rfl⟩, hfs⟩

/-- What a replacement does when its rename succeeds. -/
lemma replaced_granted {e : Env} {cfg : OtaConfig} {url : CStr} {o : Offer} {ctx : OtaCtx}
    {w v : World} {rc : ℤ} {t : Trace} (h : Replaced e ctx w rc t v)
    (hall : ∀ s ∈ t, Fair e cfg url o s)
    (hne : place e.cwd ctx.inboxManifestPath ≠ place e.cwd ctx.currentManifestPath) :
    rc = 0 ∧ gather request? t = [] ∧ gather spawn? t = [] ∧
      (∃ s ∈ t, s.event = ⟨.rename ctx.inboxManifestPath ctx.currentManifestPath, .ok ()⟩) ∧
      contentAt e v ctx.currentManifestPath = contentAt e w ctx.inboxManifestPath := by
  cases h with
  | mk mk w₁ w₂ v r₁ r₂ hmk hcalls h₁ h₂ =>
    have hlast := hall ⟨w₂, .rename ctx.inboxManifestPath ctx.currentManifestPath, r₂, v⟩ (by simp)
    obtain rfl : r₂ = .ok () := hlast.1
    have hdirs : ∀ s ∈ mk, ∃ u m, s.call = .mkdir u m := by
      intro s hs
      obtain ⟨dir, -, u, m, hc, -⟩ := hcalls s hs
      exact ⟨u, m, hc⟩
    have hreq : gather request? mk = [] := by
      apply gather_eq_nil
      intro s hs
      obtain ⟨u, m, hc⟩ := hdirs s hs
      rw [hc]
      rfl
    have hspawn : gather spawn? mk = [] := by
      apply gather_eq_nil
      intro s hs
      obtain ⟨u, m, hc⟩ := hdirs s hs
      rw [hc]
      rfl
    have hin₁ : contentAt e w₁ ctx.inboxManifestPath = contentAt e w ctx.inboxManifestPath := by
      refine (chain_contentAt hmk ?_).1
      intro s hs
      obtain ⟨dir, -, hcall⟩ := hcalls s hs
      exact mkdirCall_writes hcall _
    have hin₂ : contentAt e w₂ ctx.inboxManifestPath = contentAt e w₁ ctx.inboxManifestPath := by
      have hunlink := exec_contentAt (e := e) (c := .unlink ctx.currentManifestPath) w₁ hne
      rw [h₁] at hunlink
      exact hunlink
    obtain ⟨b, hsrc, hdst⟩ := rename_content h₂
    refine ⟨if_pos rfl, by simp [hreq, request?], by simp [hspawn, spawn?],
      ⟨_, List.mem_append_right _ (List.mem_cons_of_mem _ (List.mem_singleton_self _)), rfl⟩, ?_⟩
    rw [hdst, ← hsrc, hin₂, hin₁]

/-- The installations an offer asks for. -/
def Offer.installs (inbox : CStr) (o : Offer) : List (List CStr) :=
  if o.file.fileType = some raucBundle then
    [[text "rauc", text "install", join inbox o.filename]]
  else []

theorem applyRelease_granted {e : Env} {cfg : OtaConfig} {url inbox current : CStr} {o : Offer}
    (w : World) (hfit : o.Fit e cfg inbox)
    (hne : place e.cwd (join inbox manifestName) ≠ place e.cwd (join current manifestName)) :
    Granted (exec e) (Fair e cfg url o) w (applyRelease (payloadCtx cfg inbox current o))
      (fun rc t v => rc = 0 ∧ gather request? t = [] ∧ gather spawn? t = o.installs inbox ∧
        (∃ s ∈ t, s.event = ⟨.rename (join inbox manifestName) (join current manifestName),
          .ok ()⟩) ∧
        contentAt e v (join current manifestName) = contentAt e w (join inbox manifestName)) := by
  have htype : (firstFile (payloadCtx cfg inbox current o)).bind ManifestFile.fileType =
      o.file.fileType := by
    rw [firstFile_payloadCtx hfit]
    rfl
  refine (Granted.of_yields (applyRelease_yields e w _)).mono ?_
  intro rc t v hall happ
  cases happ with
  | unsupported _ _ htest hrauc =>
    rw [htype] at htest hrauc
    exact (hfit.fileType.elim htest hrauc).elim
  | tested _ _ _ hkind hrep =>
    rw [htype] at hkind
    obtain ⟨hrc, hreq, hspawn, hmove, hcont⟩ := replaced_granted hrep hall hne
    have hnone : o.installs inbox = [] := by
      rw [Offer.installs, hkind, if_neg (by decide)]
    exact ⟨hrc, hreq, hspawn.trans hnone.symm, hmove, hcont⟩
  | unspawned err _ _ hx => cases (hall _ (List.mem_singleton_self _)).2
  | failed w₁ _ r _ _ h₂ hr =>
    have hwait := hall ⟨w₁, .waitpid, r, v⟩ (by simp)
    exact absurd hwait.2 hr
  | kept w₁ w₂ _ t rc _ _ _ hrep hrc =>
    have hall' : ∀ s ∈ t, Fair e cfg url o s := fun s hs => hall s (by simp [hs])
    exact absurd (replaced_granted hrep hall' hne).1 hrc
  | rebooted w₁ w₂ w₃ w₄ _ t hkind h₁ h₂ hrep h₃ h₄ =>
    rw [htype] at hkind
    have hall' : ∀ s ∈ t, Fair e cfg url o s := fun s hs => hall s (by simp [hs])
    obtain ⟨hrc, hreq, hspawn, ⟨s, hs, hev⟩, hcont⟩ := replaced_granted hrep hall' hne
    have hfs : w₂.fs = w.fs := (waitpid_fs h₂).trans (spawn_fs h₁)
    have hfs' : v.fs = w₃.fs :=
      (congrArg (fun a => a.2.fs) h₄.symm).trans (congrArg (fun a => a.2.fs) h₃.symm)
    refine ⟨rfl, by simp [hreq, request?], ?_, ⟨s, by simp [hs], hev⟩, ?_⟩
    · simp [hspawn, spawn?, Offer.installs, hkind, raucArgv, payloadCtx]
    · calc contentAt e v (join current manifestName)
        _ = contentAt e w₃ (join current manifestName) := contentAt_congr hfs' _
        _ = contentAt e w₂ (join inbox manifestName) := hcont
        _ = contentAt e w (join inbox manifestName) := contentAt_congr hfs _

end OtaFetch.Smooth
