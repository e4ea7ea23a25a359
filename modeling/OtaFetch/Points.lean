import OtaFetch.Iteration
import OtaFetch.Stages

/-!
# What an iteration knows at its points

From the download of the manifest to the loaded release nothing is written, so
the bytes that were downloaded, verified, compared and parsed are the same. The
release and the hash of the payload then come from that parse.
-/
namespace OtaFetch.Iteration
open CPath FileTree Stdio Interaction Machine Config Releases Hash Verify Fetch Update Stages

theorem Reach.fetched {e : Env} {cfg : OtaConfig} {w v : World} {ctx : OtaCtx} {t : Trace}
    {inbox current : CStr} (h : Reach e cfg w .fetched ctx t v)
    (hb : ctx.Built cfg inbox current) :
    ∃ url tm ts tc, cfg.serverUrl = some url ∧ Downloaded e cfg inbox url tm ts tc t ∧
      contentAt e v (join inbox manifestName) = some tm.chunks.flatten := by
  cases h with
  | fetch _ t v hr hrc =>
    obtain ⟨url, tm, ts, tc, hurl, hdown, hcont⟩ := fetchNewManifest_yields e v hb hrc
    exact ⟨url, tm, ts, tc, hurl, hdown.mono fun s hs => List.mem_append_right _ hs, hcont⟩

theorem Reach.verified {e : Env} {cfg : OtaConfig} {w v : World} {ctx : OtaCtx} {t : Trace}
    (h : Reach e cfg w .verified ctx t v) :
    ∃ t₀ v₀ msg, Reach e cfg w .fetched ctx t₀ v₀ ∧
      exec e v₀ (verifyCall ctx) = ((.ok, msg), v) ∧
      t = t₀ ++ [⟨v₀, verifyCall ctx, (.ok, msg), v⟩] := by
  cases h with
  | verify _ t v hr hrc =>
    obtain ⟨⟨res, msg⟩, hx, ht, hiff⟩ := validateNewManifest_yields e v ctx
    obtain rfl : res = .ok := hiff.mp hrc
    exact ⟨t, v, msg, hr, hx, by rw [ht]⟩

theorem Reach.changed {e : Env} {cfg : OtaConfig} {w v : World} {ctx : OtaCtx} {t : Trace}
    (h : Reach e cfg w .changed ctx t v) :
    ∃ t₀ v₀ u, Reach e cfg w .verified ctx t₀ v₀ ∧ t = t₀ ++ u ∧ Chain (exec e) v₀ u v ∧
      (∀ s ∈ u, ReadOnly s.call) ∧ Differs ctx u := by
  cases h with
  | compare _ t v hr hrc =>
    have hcalls := (calls_of_obeys (compareManifests_obeys (Lawful e) ctx) v).1
    exact ⟨t, v, _, hr, rfl, run_chain _ _ v, fun s hs => compareCall_readOnly (hcalls s hs),
      (compareManifests_yields e v ctx).1 hrc⟩

/-- The bytes `b` of the inbox manifest are the ones a download put there, the
ones verified in the step `sv`, and the ones `m` was parsed from. -/
structure Authentic (e : Env) (cfg : OtaConfig) (inbox : CStr) (b : Bytes) (m : Manifest)
    (sv : Step Call Resp World) (t : Trace) : Prop where
  downloaded : ∃ url tm ts tc, cfg.serverUrl = some url ∧
    Downloaded e cfg inbox url tm ts tc t ∧ b = tm.chunks.flatten
  mem : sv ∈ t
  verified : ∃ msg, sv.event = ⟨.verify (some (join inbox manifestName))
    (some (join inbox sigName)) (some (join inbox certName)) cfg.manifestCaCert verifyErrbufLen,
    (.ok, msg)⟩
  bytes : sourceAt sv.before.fs e.cwd (join inbox manifestName) = .file b
  loaded : ∃ s ∈ t, s.event = ⟨.load (join inbox manifestName), some m⟩
  parsed : manifestParse e.cjson b = some m

lemma Authentic.mono {e : Env} {cfg : OtaConfig} {inbox : CStr} {b : Bytes} {m : Manifest}
    {sv : Step Call Resp World} {t u : Trace} (h : Authentic e cfg inbox b m sv t)
    (hsub : ∀ s ∈ t, s ∈ u) : Authentic e cfg inbox b m sv u := by
  obtain ⟨url, tm, ts, tc, hurl, hdown, hb⟩ := h.downloaded
  obtain ⟨s, hs, hev⟩ := h.loaded
  exact ⟨⟨url, tm, ts, tc, hurl, hdown.mono hsub, hb⟩, hsub sv h.mem, h.verified, h.bytes,
    ⟨s, hsub s hs, hev⟩, h.parsed⟩

/-- When the manifest is loaded, it is authentic, nothing was written since the
verification, and the comparison in between found a difference. -/
theorem Reach.loaded {e : Env} {cfg : OtaConfig} {w v : World} {ctx : OtaCtx} {t : Trace}
    {inbox current : CStr} (h : Reach e cfg w .loaded ctx t v)
    (hb : ctx.Built cfg inbox current) :
    ∃ b m sv u v₁ v₂, ctx.inboxManifest = some m ∧ Authentic e cfg inbox b m sv t ∧
      v.fs = sv.before.fs ∧ v₁.fs = sv.before.fs ∧ Chain (exec e) v₁ u v₂ ∧ (∀ s ∈ u, s ∈ t) ∧
      (∀ s ∈ u, ReadOnly s.call) ∧ Differs ctx u := by
  cases h with
  | load ctx₀ t v₀ v m hr hx =>
    have hb₀ : ctx₀.Built cfg inbox current := ⟨hb.1, hb.2, hb.3, hb.4, hb.5, hb.6, hb.7⟩
    obtain ⟨t₁, v₁, u, hr₁, rfl, hc, hro, hdiff⟩ := hr.changed
    obtain ⟨t₂, v₂, msg, hr₂, hx₂, rfl⟩ := hr₁.verified
    obtain ⟨url, tm, ts, tc, hurl, hdown, hcont⟩ := hr₂.fetched hb₀
    have hfs₁ : v₁.fs = v₂.fs := congrArg (fun r => r.2.fs) hx₂.symm
    have hfs₀ : v₀.fs = v₂.fs := (chain_readOnly hc hro).1.trans hfs₁
    have hfs : v.fs = v₂.fs := (congrArg (fun r => r.2.fs) hx.symm).trans hfs₀
    obtain ⟨data, hdata⟩ := exec_verify_ok hx₂
    rw [hb₀.inboxManifest] at hdata
    have hbody : data = tm.chunks.flatten := by
      have h := contentAt_of_source hdata
      rw [hcont] at h
      exact (Option.some.inj h).symm
    obtain ⟨data', hdata', hparse⟩ := exec_load_some hx
    rw [hb₀.inboxManifest, hfs₀, hdata] at hdata'
    obtain rfl := Source.file.inj hdata'
    refine ⟨data, m, ⟨v₂, verifyCall ctx₀, (.ok, msg), v₁⟩, u, v₁, v₀, rfl,
      ⟨⟨url, tm, ts, tc, hurl, hdown.mono ?_, hbody⟩, by simp, ⟨msg, ?_⟩, hdata, ?_, hparse⟩, hfs,
      hfs₁, hc, ?_, hro, hdiff⟩
    · intro s hs
      simp [hs]
    · change (⟨.verify (some ctx₀.inboxManifestPath) (some ctx₀.inboxSigPath)
        (some ctx₀.inboxCertPath) ctx₀.config.manifestCaCert verifyErrbufLen, (.ok, msg)⟩ :
        Σ c, Resp c) = _
      rw [hb₀.inboxManifest, hb₀.inboxSig, hb₀.inboxCert, hb₀.config]
    · refine ⟨_, List.mem_append_right _ (List.mem_singleton_self _), ?_⟩
      change (⟨.load ctx₀.inboxManifestPath, some m⟩ : Σ c, Resp c) = _
      rw [hb₀.inboxManifest]
    · intro s hs
      simp [hs]

/-- None of the calls loads a manifest. -/
def NoLoad (t : Trace) : Prop := ∀ s ∈ t, ∀ p, s.call ≠ .load p

lemma noLoad_of_obeys {e : Env} {α : Type} {m : Proc α} {A : Call → Prop} {V : α → Prop}
    (h : Obeys (Lawful e) A V m) (hA : ∀ p, ¬ A (.load p)) (w : World) :
    NoLoad (run (exec e) m w).trace :=
  fun s hs p hc => hA p (hc ▸ (calls_of_obeys h w).1 s hs)

lemma fetchCall_noLoad {e : Env} {req : CurlRequest} {dest p : CStr} :
    ¬ FetchCall e req dest (.load p) := by
  rintro (h | h)
  · cases h
  · cases h

lemma otaCtxInit_noLoad (e : Env) (cfg : OtaConfig) (w : World) :
    NoLoad (run (exec e) (otaCtxInit cfg) w).trace :=
  noLoad_of_obeys (otaCtxInit_obeys (Lawful e) cfg) (fun p h => by cases h) w

lemma otaInboxCleanup_noLoad (e : Env) (ctx : OtaCtx) (w : World) :
    NoLoad (run (exec e) (otaInboxCleanup ctx) w).trace :=
  noLoad_of_obeys (otaInboxCleanup_obeys e ctx) (fun p h => by cases h) w

lemma fetchNewManifest_noLoad (e : Env) (ctx : OtaCtx) (w : World) :
    NoLoad (run (exec e) (fetchNewManifest ctx) w).trace := by
  refine noLoad_of_obeys (fetchNewManifest_obeys e ctx) (fun p h => ?_) w
  cases h with
  | fetch url name dest c hurl hname hc => exact fetchCall_noLoad hc

lemma validateNewManifest_noLoad (e : Env) (ctx : OtaCtx) (w : World) :
    NoLoad (run (exec e) (validateNewManifest ctx) w).trace :=
  noLoad_of_obeys (validateNewManifest_obeys (Lawful e) ctx) (fun p h => by cases h) w

lemma compareManifests_noLoad (e : Env) (ctx : OtaCtx) (w : World) :
    NoLoad (run (exec e) (compareManifests ctx) w).trace :=
  noLoad_of_obeys (compareManifests_obeys (Lawful e) ctx) (fun p h => by cases h) w

lemma fetchRelease_noLoad (e : Env) (ctx : OtaCtx) (w : World) :
    NoLoad (run (exec e) (fetchRelease ctx) w).trace := by
  refine noLoad_of_obeys (fetchRelease_obeys e ctx) (fun p h => ?_) w
  cases h with
  | fetch _ _ _ _ _ _ c _ _ hc => exact fetchCall_noLoad hc

lemma validateRelease_noLoad (e : Env) (ctx : OtaCtx) (w : World) :
    NoLoad (run (exec e) (validateRelease ctx) w).trace :=
  noLoad_of_obeys (validateRelease_obeys (Lawful e) ctx) (fun p h => by cases h) w

lemma applyRelease_noLoad (e : Env) (ctx : OtaCtx) (w : World) :
    NoLoad (run (exec e) (applyRelease ctx) w).trace :=
  noLoad_of_obeys (applyRelease_obeys (Lawful e) ctx) (fun p h => by cases h) w

/-- Every manifest in the trace is loaded where an iteration from `w` has found that it
differs from the current one. -/
def LoadsThere (e : Env) (cfg : OtaConfig) (w : World) (t : Trace) : Prop :=
  ∀ pre s post p m, t = pre ++ s :: post → s.event = ⟨.load p, some m⟩ →
    ∃ ctx, Reach e cfg w .changed ctx pre s.before ∧ ctx.inboxManifestPath = p ∧
      exec e s.before (.load p) = (some m, s.after)

lemma loadsThere_nil (e : Env) (cfg : OtaConfig) (w : World) : LoadsThere e cfg w [] := by
  intro pre s post p m ht
  simp at ht

lemma LoadsThere.append {e : Env} {cfg : OtaConfig} {w : World} {t u : Trace}
    (h : LoadsThere e cfg w t) (hu : NoLoad u) : LoadsThere e cfg w (t ++ u) := by
  intro pre s post p m ht hev
  rcases append_split ht with ⟨post', ht', -⟩ | ⟨pre', -, hu'⟩
  · exact h pre s post' p m ht' hev
  · exact absurd (congrArg Sigma.fst hev) (hu s (by rw [hu']; simp) p)

lemma LoadsThere.init {e : Env} {cfg : OtaConfig} {w w' : World} :
    LoadsThere e cfg w (⟨w, .startCheck, (), w'⟩ :: (run (exec e) (otaCtxInit cfg) w').trace) := by
  refine (loadsThere_nil e cfg w).append (u := _ :: _) fun s hs p => ?_
  rcases List.mem_cons.mp hs with rfl | hs
  · simp
  · exact otaCtxInit_noLoad e cfg w' s hs p

lemma LoadsThere.load {e : Env} {cfg : OtaConfig} {w v v' : World} {ctx : OtaCtx} {t : Trace}
    {r : Option Manifest} (h : LoadsThere e cfg w t) (hr : Reach e cfg w .changed ctx t v)
    (hx : exec e v (.load ctx.inboxManifestPath) = (r, v')) :
    LoadsThere e cfg w (t ++ [⟨v, .load ctx.inboxManifestPath, r, v'⟩]) := by
  intro pre s post p m ht hev
  rcases append_split ht with ⟨post', ht', -⟩ | ⟨pre', rfl, hu⟩
  · exact h pre s post' p m ht' hev
  cases pre' with
  | nil =>
    obtain ⟨rfl, -⟩ := List.cons_eq_cons.mp hu
    obtain ⟨hp, hreply⟩ := Sigma.mk.inj hev
    obtain rfl := Call.load.inj hp
    obtain rfl := eq_of_heq hreply
    exact ⟨ctx, by rwa [List.append_nil], rfl, hx⟩
  | cons x xs => simp at hu

lemma Reach.loadsThere {e : Env} {cfg : OtaConfig} {w v : World} {p : Point} {ctx : OtaCtx}
    {t : Trace} (h : Reach e cfg w p ctx t v) : LoadsThere e cfg w t := by
  induction h with
  | init w' ctx hs h => exact .init
  | clean ctx t v hr ih => exact ih.append (otaInboxCleanup_noLoad e ctx v)
  | fetch ctx t v hr h ih => exact ih.append (fetchNewManifest_noLoad e ctx v)
  | verify ctx t v hr h ih => exact ih.append (validateNewManifest_noLoad e ctx v)
  | compare ctx t v hr h ih => exact ih.append (compareManifests_noLoad e ctx v)
  | load ctx t v v' m hr hx ih => exact ih.load hr hx
  | release ctx ctx' t v hr h ih => exact ih.append (fetchRelease_noLoad e ctx v)
  | validate ctx t v hr h ih => exact ih.append (validateRelease_noLoad e ctx v)

lemma Ends.loadsThere {e : Env} {daemonMode : Bool} {cfg : OtaConfig} {w v : World}
    {r : AttemptEnd} {t : Trace} (h : Ends e daemonMode cfg w r t v) : LoadsThere e cfg w t := by
  cases h with
  | noCtx w' hs h => exact .init
  | noManifest ctx t v hr h => exact hr.loadsThere.append (fetchNewManifest_noLoad e ctx v)
  | badSignature ctx t v hr h => exact hr.loadsThere.append (validateNewManifest_noLoad e ctx v)
  | upToDate ctx t v hr h => exact hr.loadsThere.append (compareManifests_noLoad e ctx v)
  | incomparable ctx t v hr h => exact hr.loadsThere.append (compareManifests_noLoad e ctx v)
  | unreadable ctx t v v' hr hx => exact hr.loadsThere.load hr hx
  | noRelease ctx t v hr h => exact hr.loadsThere.append (fetchRelease_noLoad e ctx v)
  | badPayload ctx t v hr h => exact hr.loadsThere.append (validateRelease_noLoad e ctx v)
  | applied ctx t v hr => exact hr.loadsThere.append (applyRelease_noLoad e ctx v)

/-- An iteration loads a manifest only after it has verified and compared it. -/
theorem attempt_loadsThere (e : Env) (daemonMode : Bool) (cfg : OtaConfig) (w : World) :
    LoadsThere e cfg w (run (exec e) (attempt daemonMode cfg) w).trace := by
  have hends : Ends e daemonMode cfg w _ _ _ := attempt_ends e daemonMode cfg w
  exact hends.loadsThere

/-- The release the device gets from `m`, and the hash of its first file, which
`bytes` were found to have. -/
structure Validated (e : Env) (cfg : OtaConfig) (inbox : CStr) (m : Manifest)
    (release : ManifestRelease) (file : ManifestFile) (filename : CStr) (bytes : Bytes)
    (t : Trace) : Prop where
  select : manifestSelectRelease (some m) cfg.deviceId = some release
  first : release.files.head? = some file
  named : file.filename = some filename
  hashed : ∃ s ∈ t, s.event = ⟨.sha256sum (some (join inbox filename)), .ok (e.sha256 bytes)⟩
  sha256 : file.sha256 = some (hexText (e.sha256 bytes).bytes)

lemma Validated.mono {e : Env} {cfg : OtaConfig} {inbox : CStr} {m : Manifest}
    {release : ManifestRelease} {file : ManifestFile} {filename : CStr} {bytes : Bytes}
    {t u : Trace} (h : Validated e cfg inbox m release file filename bytes t)
    (hsub : ∀ s ∈ t, s ∈ u) : Validated e cfg inbox m release file filename bytes u := by
  obtain ⟨s, hs, hev⟩ := h.hashed
  exact ⟨h.select, h.first, h.named, ⟨s, hsub s hs, hev⟩, h.sha256⟩

/-- The calls between the loaded manifest and the last stage. -/
def PayloadCall (e : Env) (ctx : OtaCtx) (c : Call) : Prop :=
  ReleaseCall e ctx c ∨ ∃ p, c = .sha256sum p

/-- When the payload is validated, its bytes are still at its path. -/
theorem Reach.validated {e : Env} {cfg : OtaConfig} {w v : World} {ctx : OtaCtx} {t : Trace}
    {inbox current : CStr} (h : Reach e cfg w .validated ctx t v)
    (hb : ctx.Built cfg inbox current) :
    ∃ ctx₀ t₀ v₀ u m release file filename bytes, Reach e cfg w .loaded ctx₀ t₀ v₀ ∧
      ctx₀.Built cfg inbox current ∧ ctx₀.inboxManifest = some m ∧ t = t₀ ++ u ∧
      Chain (exec e) v₀ u v ∧ (∀ s ∈ u, PayloadCall e ctx₀ s.call) ∧
      Validated e cfg inbox m release file filename bytes u ∧ firstFile ctx = some file ∧
      ctx.payloadPath = some (join inbox filename) ∧
      sourceAt v.fs e.cwd (join inbox filename) = .file bytes := by
  cases h with
  | validate _ t v hr hrc =>
    cases hr with
    | release ctx₀ _ t₀ v₀ hr₀ hrel =>
      obtain ⟨hcalls, hval⟩ := calls_of_obeys (fetchRelease_obeys e ctx₀) v₀
      rw [hrel] at hval
      obtain ⟨release, file, dir, filename, path, hchosen, -, -, rfl⟩ := hval rfl
      have hb₀ : ctx₀.Built cfg inbox current := ⟨hb.1, hb.2, hb.3, hb.4, hb.5, hb.6, hb.7⟩
      obtain ⟨b, m, -, -, -, -, hm, -⟩ := hr₀.loaded hb₀
      have hdir : dir = inbox := by
        have h := hchosen.inboxDir
        rw [hb₀.config, hb₀.inboxDir] at h
        exact (Option.some.inj h).symm
      subst hdir
      obtain ⟨d, hsha, hx, htrace⟩ := (validateRelease_yields e _ _).mp hrc
      obtain ⟨p, bytes, hp, hsrc, rfl⟩ := exec_sha256sum_ok hx
      obtain rfl := Option.some.inj hp
      have hsel := hchosen.select
      rw [hm, hb₀.config] at hsel
      have hfirst : firstFile { ctx₀ with
          release := some release, payloadPath := some (join dir filename) } = some file :=
        hchosen.first
      rw [hfirst] at hsha
      refine ⟨ctx₀, t₀, v₀, _, m, release, file, filename, bytes, hr₀, hb₀, hm,
        List.append_assoc _ _ _, Chain.append_iff.mpr ⟨_, run_chain _ _ v₀, run_chain _ _ _⟩, ?_,
        ⟨hsel, hchosen.first, hchosen.filename, ?_, hsha⟩, hfirst, rfl, ?_⟩
      · intro s hs
        rcases List.mem_append.mp hs with hs | hs
        · exact .inl (hcalls s hs)
        · rw [htrace, List.mem_singleton] at hs
          rw [hs]
          exact .inr ⟨_, rfl⟩
      · rw [htrace]
        exact ⟨_, List.mem_append_right _ (List.mem_singleton_self _), rfl⟩
      · have hfs := congrArg (fun r => r.2.fs) hx
        dsimp only at hfs
        rw [← hfs]
        exact hsrc

end OtaFetch.Iteration
