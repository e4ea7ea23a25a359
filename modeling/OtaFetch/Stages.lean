import OtaFetch.Update

/-!
# What the stages establish

One statement for each stage about its return code, its trace and the state it
leaves. The stages between the download of the manifest and the download of the
payload only read, so they all see the same tree.
-/
namespace OtaFetch.Stages
open CPath FileTree Stdio Interaction Machine Config Releases Hash Verify Fetch Update

/-- Verification succeeds exactly when its one call says so. -/
theorem validateNewManifest_yields (e : Env) (w : World) (ctx : OtaCtx) :
    Yields (exec e) w (validateNewManifest ctx) (fun rc t v =>
      ∃ r, exec e w (verifyCall ctx) = (r, v) ∧ t = [⟨w, verifyCall ctx, r, v⟩] ∧
        (rc = 0 ↔ r.1 = .ok)) := by
  unfold validateNewManifest
  refine Yields.call ?_
  intro r v hx
  split
  · rename_i hr
    exact Yields.ret ⟨r, hx, rfl, by simp [hr]⟩
  · rename_i hr
    exact Yields.ret ⟨r, hx, rfl, by simp [not_not.mp hr]⟩

lemma compareCall_readOnly {ctx : OtaCtx} {c : Call} (h : CompareCall ctx c) : ReadOnly c := by
  intro e w
  cases h with
  | stat p => exact refuse_fs e w _ _
  | sha256sum p => rfl

/-- Both files were hashed, in the trace. -/
def Hashed (path₁ path₂ : CStr) (d₁ d₂ : Digest) (t : Trace) : Prop :=
  (∃ s ∈ t, s.event = ⟨.sha256sum (some path₁), .ok d₁⟩) ∧
    ∃ s ∈ t, s.event = ⟨.sha256sum (some path₂), .ok d₂⟩

lemma Hashed.mono {path₁ path₂ : CStr} {d₁ d₂ : Digest} {t u : Trace}
    (h : Hashed path₁ path₂ d₁ d₂ t) (hsub : ∀ s ∈ t, s ∈ u) : Hashed path₁ path₂ d₁ d₂ u := by
  obtain ⟨⟨s₁, hs₁, hev₁⟩, s₂, hs₂, hev₂⟩ := h
  exact ⟨⟨s₁, hsub s₁ hs₁, hev₁⟩, s₂, hsub s₂ hs₂, hev₂⟩

lemma filesEqual_yields (e : Env) (w : World) (path₁ path₂ : CStr) :
    Yields (exec e) w (filesEqual path₁ path₂) (fun r t _ =>
      (r = .neq → ∃ d₁ d₂, Hashed path₁ path₂ d₁ d₂ t ∧ d₁ ≠ d₂) ∧
      (r = .eq → ∃ d, Hashed path₁ path₂ d d t) ∧
      (r = .err → ∃ s ∈ t, ∃ p err, s.event = ⟨.sha256sum p, .error err⟩)) := by
  unfold filesEqual
  refine Yields.call ?_
  intro r₁ v₁ _
  refine Yields.call ?_
  intro r₂ v₂ _
  cases r₁ with
  | error err =>
    refine Yields.ret ⟨by simp, by simp, fun _ => ?_⟩
    exact ⟨_, List.mem_cons_self .., _, err, rfl⟩
  | ok d₁ =>
    cases r₂ with
    | error err =>
      refine Yields.ret ⟨by simp, by simp, fun _ => ?_⟩
      exact ⟨_, List.mem_cons_of_mem _ (List.mem_singleton_self _), _, err, rfl⟩
    | ok d₂ =>
      have hboth : Hashed path₁ path₂ d₁ d₂ [⟨w, .sha256sum (some path₁), .ok d₁, v₁⟩,
          ⟨v₁, .sha256sum (some path₂), .ok d₂, v₂⟩] :=
        ⟨⟨_, List.mem_cons_self .., rfl⟩,
          ⟨_, List.mem_cons_of_mem _ (List.mem_singleton_self _), rfl⟩⟩
      refine Yields.ret ?_
      split_ifs with hd
      · have he : d₁ = d₂ := by
          cases d₁
          cases d₂
          simpa using hd
        subst he
        exact ⟨by simp, fun _ => ⟨d₁, hboth⟩, by simp⟩
      · have hne : d₁ ≠ d₂ := fun he => hd (congrArg Digest.bytes he)
        exact ⟨fun _ => ⟨d₁, d₂, hboth, hne⟩, by simp, by simp⟩

/-- The downloaded manifest was found to differ: the current one could not be
looked at, or both were hashed to different digests. -/
def Differs (ctx : OtaCtx) (t : Trace) : Prop :=
  (∃ s ∈ t, ∃ err, s.event = ⟨.stat ctx.currentManifestPath, .error err⟩) ∨
  ∃ d₁ d₂, Hashed ctx.currentManifestPath ctx.inboxManifestPath d₁ d₂ t ∧ d₁ ≠ d₂

/-- Both manifests were hashed, to the same digest. -/
def Same (ctx : OtaCtx) (t : Trace) : Prop :=
  ∃ d, Hashed ctx.currentManifestPath ctx.inboxManifestPath d d t

/-- No comparison was possible: the inbox manifest could not be looked at, or
one of the two could not be hashed. -/
def Incomparable (ctx : OtaCtx) (t : Trace) : Prop :=
  (∃ s ∈ t, ∃ err, s.event = ⟨.stat ctx.inboxManifestPath, .error err⟩) ∨
  ∃ s ∈ t, ∃ p err, s.event = ⟨.sha256sum p, .error err⟩

lemma fileExists_yields (e : Env) (w : World) (p : CStr) :
    Yields (exec e) w (fileExists p) (fun b t _ =>
      b = false → ∃ s ∈ t, ∃ err, s.event = ⟨.stat p, .error err⟩) := by
  unfold fileExists
  refine Yields.call ?_
  intro r u _
  cases r with
  | ok _ => exact Yields.ret (by simp)
  | error err => exact Yields.ret (fun _ => ⟨_, List.mem_singleton_self _, err, rfl⟩)

theorem compareManifests_yields (e : Env) (w : World) (ctx : OtaCtx) :
    Yields (exec e) w (compareManifests ctx) (fun r t _ =>
      (r = .neq → Differs ctx t) ∧ (r = .eq → Same ctx t) ∧ (r = .err → Incomparable ctx t)) := by
  unfold compareManifests
  refine Yields.bind _ (fileExists_yields e w _) ?_
  intro b t v hb _
  split
  · rename_i hnot
    obtain ⟨s, hs, err, hev⟩ := hb (by simpa using hnot)
    exact Yields.ret ⟨fun _ => .inl ⟨s, by simp [hs], err, hev⟩, by simp, by simp⟩
  refine Yields.bind _ (fileExists_yields e v _) ?_
  intro b' t' v' hb' _
  split
  · rename_i hnot
    obtain ⟨s, hs, err, hev⟩ := hb' (by simpa using hnot)
    exact Yields.ret ⟨by simp, by simp, fun _ => .inl ⟨s, by simp [hs], err, hev⟩⟩
  refine (filesEqual_yields e v' _ _).mono ?_
  rintro r u x ⟨hneq, heq, herr⟩
  have hsub : ∀ s ∈ u, s ∈ t ++ (t' ++ u) := fun s hs => by simp [hs]
  refine ⟨?_, ?_, ?_⟩
  · intro hr
    obtain ⟨d₁, d₂, hh, hne⟩ := hneq hr
    exact .inr ⟨d₁, d₂, hh.mono hsub, hne⟩
  · intro hr
    obtain ⟨d, hh⟩ := heq hr
    exact ⟨d, hh.mono hsub⟩
  · intro hr
    obtain ⟨s, hs, hev⟩ := herr hr
    exact .inr ⟨s, hsub s hs, hev⟩

lemma contentAt_of_source {e : Env} {w : World} {p : CStr} {b : Bytes}
    (h : sourceAt w.fs e.cwd p = .file b) : contentAt e w p = some b := by
  unfold sourceAt at h
  split at h
  · cases h
  · rename_i q hq
    obtain ⟨rfl, -⟩ := locate_ok hq
    split at h
    · cases h
    · cases h
    · rename_i f hf
      rw [contentAt_of_file hf, ← Source.file.inj h]

lemma buildPath_yields (e : Env) (w : World) (dir : Option CStr) (f : CStr) :
    Yields (exec e) w (buildPath dir (some f)) (fun r t _ =>
      (∀ p, r = some p → ∃ d, dir = some d ∧ p = join d f) ∧ ∀ s ∈ t, s.call = .malloc) :=
  Yields.of_obeys (A := (· = .malloc)) (buildPath_obeys dir f rfl) (exec_lawful e)

/-- The three downloads all succeeded, and their bodies are in the inbox. -/
structure Downloaded (e : Env) (cfg : OtaConfig) (inbox url : CStr) (tm ts tc : Transfer)
    (t : Trace) : Prop where
  manifest : Stored e (fetchRequest (join url manifestName) cfg false) (join inbox manifestName)
    tm t
  sig : Stored e (fetchRequest (join url sigName) cfg false) (join inbox sigName) ts t
  cert : Stored e (fetchRequest (join url certName) cfg false) (join inbox certName) tc t

lemma Downloaded.mono {e : Env} {cfg : OtaConfig} {inbox url : CStr} {tm ts tc : Transfer}
    {t u : Trace} (h : Downloaded e cfg inbox url tm ts tc t) (hsub : ∀ s ∈ t, s ∈ u) :
    Downloaded e cfg inbox url tm ts tc u :=
  ⟨h.manifest.mono hsub, h.sig.mono hsub, h.cert.mono hsub⟩

/-- A download of another plain name into the inbox leaves a file there alone. -/
lemma fetchFile_beside (e : Env) (w : World) (url inbox : CStr) (cfg : OtaConfig)
    (showProgress : Bool) {n m : CStr} (hn : Plain n) (hm : Plain m) (ht : Plain (tmpOf m))
    (hnm : n ≠ m) (hnt : n ≠ tmpOf m) :
    Yields (exec e) w (fetchFile url (join inbox m) cfg showProgress) (fun _ _ v =>
      contentAt e v (join inbox n) = contentAt e w (join inbox n)) := by
  have hd : place e.cwd (join inbox n) ≠ place e.cwd (join inbox m) :=
    place_join_ne e.cwd inbox hn hm hnm
  have hd' : place e.cwd (join inbox n) ≠ place e.cwd (tmpOf (join inbox m)) := by
    rw [tmpOf_join]
    exact place_join_ne e.cwd inbox hn ht hnt
  refine (fetchFile_frame e w url (join inbox m) cfg showProgress hd hd').mono ?_
  intro _ _ v hv
  rw [contentAt, contentAt, hv]

/-- What success of the first stage means. -/
theorem fetchNewManifest_yields (e : Env) (w : World) {cfg : OtaConfig} {ctx : OtaCtx}
    {inbox current : CStr} (hb : ctx.Built cfg inbox current) :
    Yields (exec e) w (fetchNewManifest ctx) (fun rc t v =>
      rc = 0 → ∃ url tm ts tc, cfg.serverUrl = some url ∧ Downloaded e cfg inbox url tm ts tc t ∧
        contentAt e v (join inbox manifestName) = some tm.chunks.flatten) := by
  unfold fetchNewManifest
  rw [hb.config, hb.inboxManifest, hb.inboxSig, hb.inboxCert]
  refine Yields.bind _ (buildPath_yields e w _ _) ?_
  intro u₁ t₁ w₁ h₁ _
  refine Yields.bind _ (buildPath_yields e w₁ _ _) ?_
  intro u₂ t₂ w₂ h₂ _
  refine Yields.bind _ (buildPath_yields e w₂ _ _) ?_
  intro u₃ t₃ w₃ h₃ _
  split
  · obtain ⟨url, hserver, rfl⟩ := h₁.1 _ rfl
    obtain ⟨d₂, hd₂, rfl⟩ := h₂.1 _ rfl
    obtain ⟨d₃, hd₃, rfl⟩ := h₃.1 _ rfl
    obtain rfl : url = d₂ := Option.some.inj (hserver.symm.trans hd₂)
    obtain rfl : url = d₃ := Option.some.inj (hserver.symm.trans hd₃)
    refine Yields.bind _ (fetchFile_stored e w₃ _ _ cfg false) ?_
    intro rc₁ t₄ w₄ hm _
    refine Yields.bind _ ((fetchFile_stored e w₄ _ _ cfg false).and
      (fetchFile_beside e w₄ _ inbox cfg false (by decide : Plain manifestName)
        (by decide) (by decide) (by decide) (by decide))) ?_
    rintro rc₂ t₅ w₅ ⟨hs, hkeep₅⟩ -
    refine Yields.bind _ ((fetchFile_stored e w₅ _ _ cfg false).and
      (fetchFile_beside e w₅ _ inbox cfg false (by decide : Plain manifestName)
        (by decide) (by decide) (by decide) (by decide))) ?_
    rintro rc₃ t₆ w₆ ⟨hc, hkeep₆⟩ -
    refine Yields.ret ?_
    intro hrc
    have hall : rc₁ = 0 ∧ rc₂ = 0 ∧ rc₃ = 0 := by
      by_contra hn
      rw [if_pos (by omega)] at hrc
      omega
    obtain ⟨tm, hm, hcont⟩ := hm hall.1
    obtain ⟨ts, hs, -⟩ := hs hall.2.1
    obtain ⟨tc, hc, -⟩ := hc hall.2.2
    refine ⟨url, tm, ts, tc, hserver, ⟨hm.mono ?_, hs.mono ?_, hc.mono ?_⟩, ?_⟩
    · intro s hs
      simp [hs]
    · intro s hs
      simp [hs]
    · intro s hs
      simp [hs]
    · rw [hkeep₆, hkeep₅, hcont]
  · exact Yields.ret (by simp)

/-- A payload with an expected hash is hashed once, and that is all. -/
lemma validateRelease_step {e : Env} (w : World) {ctx : OtaCtx} {expected : CStr}
    (h : (firstFile ctx).bind ManifestFile.sha256 = some expected) :
    Yields (exec e) w (validateRelease ctx) (fun _ t v =>
      ∃ r, exec e w (.sha256sum ctx.payloadPath) = (r, v) ∧
        t = [⟨w, .sha256sum ctx.payloadPath, r, v⟩]) := by
  unfold validateRelease
  rw [h]
  refine Yields.call ?_
  intro r v hx
  cases r with
  | error err => exact Yields.ret ⟨_, hx, rfl⟩
  | ok d =>
    dsimp only
    split
    · split_ifs <;> exact Yields.ret ⟨_, hx, rfl⟩
    · exact Yields.ret ⟨_, hx, rfl⟩

/-- The payload is accepted exactly when its one hash succeeds and its text is
the one the manifest gives. -/
theorem validateRelease_yields (e : Env) (w : World) (ctx : OtaCtx) :
    Yields (exec e) w (validateRelease ctx) (fun rc t v =>
      rc = 0 ↔ ∃ d, (firstFile ctx).bind ManifestFile.sha256 = some (hexText d.bytes) ∧
        exec e w (.sha256sum ctx.payloadPath) = (.ok d, v) ∧
        t = [⟨w, .sha256sum ctx.payloadPath, .ok d, v⟩]) := by
  unfold validateRelease
  split
  · rename_i hnone
    refine Yields.ret ⟨by simp, ?_⟩
    rintro ⟨d, hd, -⟩
    rw [hnone] at hd
    cases hd
  rename_i expected hexp
  refine Yields.call ?_
  intro r v hx
  cases r with
  | error err =>
    refine Yields.ret ⟨by simp, ?_⟩
    rintro ⟨d, -, hd, -⟩
    rw [hx] at hd
    cases hd
  | ok d =>
    have hlen : d.bytes.length = sha256DigestLen := d.length_eq
    have henc := hexEncode_fits (List.replicate (sha256DigestLen * 2 + 1) 0) d.bytes
      (sha256DigestLen * 2 + 1) (by omega) (by rw [List.length_replicate])
    dsimp only
    rw [henc]
    dsimp only
    rw [cstring_hexText]
    by_cases he : hexText d.bytes = expected
    · rw [if_neg (by simp), if_neg (not_not.mpr he)]
      exact Yields.ret ⟨fun _ => ⟨d, by rw [hexp, he], hx, rfl⟩, fun _ => rfl⟩
    · rw [if_neg (by simp), if_pos he]
      refine Yields.ret ⟨by simp, ?_⟩
      rintro ⟨d', hd', hx', -⟩
      rw [hx] at hx'
      cases hx'
      exact absurd (Option.some.inj (hexp.symm.trans hd')).symm he

/-- The steps of `make_new_manifest_current`: directories, then the `unlink`,
then the rename, whose answer decides the return code. -/
inductive Replaced (e : Env) (ctx : OtaCtx) (w : World) : ℤ → Trace → World → Prop where
  | mk (mk : Trace) (w₁ w₂ v : World) (r₁ r₂ : Except Errno Unit)
      (hmk : Chain (exec e) w mk w₁)
      (hcalls : ∀ s ∈ mk, ∃ dir, ctx.config.currentManifestDir = some dir ∧ MkdirCall dir s.call)
      (h₁ : exec e w₁ (.unlink ctx.currentManifestPath) = (r₁, w₂))
      (h₂ : exec e w₂ (.rename ctx.inboxManifestPath ctx.currentManifestPath) = (r₂, v)) :
      Replaced e ctx w (if r₂ = .ok () then 0 else -1)
        (mk ++ [⟨w₁, .unlink ctx.currentManifestPath, r₁, w₂⟩,
          ⟨w₂, .rename ctx.inboxManifestPath ctx.currentManifestPath, r₂, v⟩]) v

theorem makeNewManifestCurrent_yields (e : Env) (w : World) (ctx : OtaCtx) :
    Yields (exec e) w (makeNewManifestCurrent ctx) (Replaced e ctx w) := by
  have hmk : Yields (exec e) w (mkdirPOrNull ctx.config.currentManifestDir 493) (fun _ t _ =>
      ∀ s ∈ t, ∃ dir, ctx.config.currentManifestDir = some dir ∧ MkdirCall dir s.call) := by
    unfold mkdirPOrNull
    split
    · rename_i dir hdir
      have h := Yields.of_obeys (w := w) (mkdirP_obeys (Lawful e) dir 493) (exec_lawful e)
      refine h.mono ?_
      intro _ t _ ht s hs
      exact ⟨dir, hdir, ht.2 s hs⟩
    · exact Yields.ret (by simp)
  unfold makeNewManifestCurrent
  refine Yields.bind _ hmk ?_
  intro _ t w₁ ht hc
  refine Yields.call ?_
  intro r₁ w₂ h₁
  refine Yields.call ?_
  intro r₂ v h₂
  have hend := Replaced.mk t w₁ w₂ v r₁ r₂ hc ht h₁ h₂
  cases r₂ with
  | error err =>
    rw [if_neg (by simp)] at hend
    exact Yields.ret hend
  | ok u =>
    rw [if_pos rfl] at hend
    exact Yields.ret hend

/-- The ways `apply_release` can end. -/
inductive Applied (e : Env) (ctx : OtaCtx) (w : World) : ℤ → Trace → World → Prop where
  | unsupported (rc : ℤ) (hrc : rc ≠ 0)
      (htest : (firstFile ctx).bind ManifestFile.fileType ≠ some raucBundleTest)
      (htype : (firstFile ctx).bind ManifestFile.fileType ≠ some raucBundle) :
      Applied e ctx w rc [] w
  | tested (rc : ℤ) (t : Trace) (v : World)
      (htype : (firstFile ctx).bind ManifestFile.fileType = some raucBundleTest)
      (h : Replaced e ctx w rc t v) : Applied e ctx w rc t v
  | unspawned (err : Errno) (v : World)
      (htype : (firstFile ctx).bind ManifestFile.fileType = some raucBundle)
      (h : exec e w (.spawn (raucArgv ctx.payloadPath)) = (.error err, v)) :
      Applied e ctx w (-1) [⟨w, .spawn (raucArgv ctx.payloadPath), .error err, v⟩] v
  | failed (w₁ v : World) (r : Except Errno WaitStatus)
      (htype : (firstFile ctx).bind ManifestFile.fileType = some raucBundle)
      (h₁ : exec e w (.spawn (raucArgv ctx.payloadPath)) = (.ok (), w₁))
      (h₂ : exec e w₁ .waitpid = (r, v)) (hr : r ≠ .ok (.exited 0)) :
      Applied e ctx w (-1) [⟨w, .spawn (raucArgv ctx.payloadPath), .ok (), w₁⟩,
        ⟨w₁, .waitpid, r, v⟩] v
  | kept (w₁ w₂ v : World) (t : Trace) (rc : ℤ)
      (htype : (firstFile ctx).bind ManifestFile.fileType = some raucBundle)
      (h₁ : exec e w (.spawn (raucArgv ctx.payloadPath)) = (.ok (), w₁))
      (h₂ : exec e w₁ .waitpid = (.ok (.exited 0), w₂))
      (h : Replaced e ctx w₂ rc t v) (hrc : rc ≠ 0) :
      Applied e ctx w 1 (⟨w, .spawn (raucArgv ctx.payloadPath), .ok (), w₁⟩ ::
        ⟨w₁, .waitpid, .ok (.exited 0), w₂⟩ :: t) v
  | rebooted (w₁ w₂ w₃ w₄ v : World) (t : Trace)
      (htype : (firstFile ctx).bind ManifestFile.fileType = some raucBundle)
      (h₁ : exec e w (.spawn (raucArgv ctx.payloadPath)) = (.ok (), w₁))
      (h₂ : exec e w₁ .waitpid = (.ok (.exited 0), w₂)) (h : Replaced e ctx w₂ 0 t w₃)
      (h₃ : exec e w₃ .sync = ((), w₄)) (h₄ : exec e w₄ .reboot = ((), v)) :
      Applied e ctx w 0 (⟨w, .spawn (raucArgv ctx.payloadPath), .ok (), w₁⟩ ::
        ⟨w₁, .waitpid, .ok (.exited 0), w₂⟩ ::
        (t ++ [⟨w₃, .sync, (), w₄⟩, ⟨w₄, .reboot, (), v⟩])) v

lemma Replaced.zeroOrNeg {e : Env} {ctx : OtaCtx} {w v : World} {rc : ℤ} {t : Trace}
    (h : Replaced e ctx w rc t v) : ZeroOrNeg rc := by
  cases h
  split_ifs
  · exact .inl rfl
  · exact .inr rfl

theorem applyRelease_yields (e : Env) (w : World) (ctx : OtaCtx) :
    Yields (exec e) w (applyRelease ctx) (Applied e ctx w) := by
  unfold applyRelease
  split
  · rename_i hnone
    exact Yields.ret (.unsupported _ (by decide) (by simp [hnone]) (by simp [hnone]))
  rename_i fileType htype
  split
  · rename_i htest
    subst htest
    refine Yields.bind _ (makeNewManifestCurrent_yields e w ctx) ?_
    intro rc t v hrep _
    have hend : Applied e ctx w rc t v := .tested rc t v htype hrep
    rcases hrep.zeroOrNeg with rfl | rfl
    · exact Yields.ret (by simpa using hend)
    · exact Yields.ret (by simpa using hend)
  rename_i htest
  split
  · rename_i hrauc
    subst hrauc
    refine Yields.call ?_
    intro r₁ w₁ h₁
    cases r₁ with
    | error err => exact Yields.ret (.unspawned err w₁ htype h₁)
    | ok u =>
      refine Yields.call ?_
      intro r₂ w₂ h₂
      have hfail : r₂ ≠ .ok (.exited 0) → Applied e ctx w (-1)
          [⟨w, .spawn (raucArgv ctx.payloadPath), .ok (), w₁⟩, ⟨w₁, .waitpid, r₂, w₂⟩] w₂ :=
        fun hr => .failed w₁ w₂ r₂ htype h₁ h₂ hr
      cases r₂ with
      | error err => exact Yields.ret (hfail (by simp))
      | ok st =>
        cases st with
        | signaled sig => exact Yields.ret (hfail (by simp))
        | other => exact Yields.ret (hfail (by simp))
        | exited code =>
          dsimp only
          split
          · rename_i hcode
            exact Yields.ret (hfail (by simpa using hcode))
          rename_i hcode
          obtain rfl : code = 0 := not_not.mp hcode
          refine Yields.bind _ (makeNewManifestCurrent_yields e w₂ ctx) ?_
          intro rc t w₃ hrep _
          split
          · rename_i hrc
            refine Yields.ret ?_
            rw [List.append_nil]
            exact .kept w₁ w₂ w₃ t rc htype h₁ h₂ hrep hrc
          · rename_i hrc
            obtain rfl : rc = 0 := not_not.mp hrc
            refine Yields.call ?_
            intro _ w₄ h₃
            refine Yields.call ?_
            intro _ v h₄
            exact Yields.ret (.rebooted w₁ w₂ w₃ w₄ v t htype h₁ h₂ hrep h₃ h₄)
  · rename_i hrauc
    refine Yields.ret (.unsupported _ (by decide) ?_ ?_)
    · rw [htype]
      exact fun he => htest (Option.some.inj he)
    · rw [htype]
      exact fun he => hrauc (Option.some.inj he)

end OtaFetch.Stages
