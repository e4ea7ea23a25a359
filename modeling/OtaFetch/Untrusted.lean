import OtaFetch.Gate

/-!
# Unverified bytes are inert

As long as no verification succeeds, a run asks for the three manifest files
only and changes nothing but those files and temporary names in the inbox,
whatever the server answers. Two runs against different servers therefore agree
on everything else.
-/
namespace OtaFetch.Untrusted
open CPath FileTree Stdio Interaction Machine Config Releases Hash Verify Fetch Update
open Iteration Stages Gate

/-- A verification that succeeds. -/
def accepts (s : Step Call Resp World) : Bool :=
  match s.event with
  | ⟨.verify _ _ _ _ _, (.ok, _)⟩ => true
  | _ => false

/-- The names `fetch_new_manifest` asks for. -/
def ManifestFileName (n : CStr) : Prop := n = manifestName ∨ n = sigName ∨ n = certName

lemma ManifestFileName.plain {n : CStr} (h : ManifestFileName n) : Plain n := by
  rcases h with rfl | rfl | rfl <;> decide

/-- The entries of the inbox that may change before anything is trusted. -/
def Scratch (cwd : Path) (inbox : CStr) (q : Path) : Prop :=
  ∃ n, (ManifestFileName n ∨ endsTmp n = true) ∧ q = n :: dirPlace cwd inbox

/-- The current manifest is none of them. -/
lemma current_not_scratch {cwd : Path} {cfg : OtaConfig} {inbox current : CStr}
    (hin : cfg.inboxManifestDir = some inbox) (hcur : cfg.currentManifestDir = some current)
    (hapart : DirsApart cwd cfg) : ¬ Scratch cwd inbox (place cwd (join current manifestName)) := by
  rw [place_join_plain cwd current (by decide)]
  rintro ⟨n, -, hq⟩
  exact hapart inbox current hin hcur (List.cons_eq_cons.mp hq).2.symm

/-- What a call may be before anything is trusted. -/
structure InertCall (e : Env) (cfg : OtaConfig) (inbox : CStr) (c : Call) : Prop where
  request : ∀ req, c = .perform req → ∃ url n, cfg.serverUrl = some url ∧ ManifestFileName n ∧
    req = fetchRequest (join url n) cfg false
  load : ∀ p, c ≠ .load p
  spawn : ∀ argv, c ≠ .spawn argv
  writes : ∀ q, Writes e c q → Scratch e.cwd inbox q
  mkdir : ∀ p m, c = .mkdir p m → p ≠ [] ∧ Cut p inbox

/-- A call that names no file and asks for nothing. -/
lemma InertCall.of_idle {e : Env} {cfg : OtaConfig} {inbox : CStr} {c : Call}
    (hreq : ∀ req, c ≠ .perform req) (hload : ∀ p, c ≠ .load p)
    (hspawn : ∀ argv, c ≠ .spawn argv) (hwrites : ∀ q, ¬ Writes e c q)
    (hmkdir : ∀ p m, c ≠ .mkdir p m) : InertCall e cfg inbox c where
  request req h := absurd h (hreq req)
  load := hload
  spawn := hspawn
  writes q h := absurd h (hwrites q)
  mkdir p m h := absurd h (hmkdir p m)

lemma endsTmp_tmpOf (n : CStr) : endsTmp (tmpOf n) = true := by
  have hlen : (text ".tmp").length = 4 := by decide
  have hdrop : (tmpOf n).length - 4 = n.length := by
    rw [tmpOf, List.length_append]
    omega
  rw [endsTmp, decide_eq_true_eq, hdrop, tmpOf, List.length_append, List.drop_left]
  exact ⟨by omega, rfl⟩

lemma endsTmp_plain {n : CStr} (h : endsTmp n = true) (hs : slash ∉ n) : Plain n := by
  obtain ⟨-, hdrop⟩ := of_decide_eq_true h
  have hn : tmpOf (n.take (n.length - 4)) = n := by
    rw [tmpOf, ← hdrop, List.take_append_drop]
  rw [← hn]
  exact tmp_plain fun hmem => hs (List.mem_of_mem_take hmem)

lemma scratch_name {cwd : Path} {inbox n : CStr} (h : ManifestFileName n) :
    Scratch cwd inbox (place cwd (join inbox n)) :=
  ⟨n, .inl h, place_join_plain cwd inbox h.plain⟩

lemma scratch_tmp {cwd : Path} {inbox n : CStr} (h : ManifestFileName n) :
    Scratch cwd inbox (place cwd (tmpOf (join inbox n))) := by
  refine ⟨tmpOf n, .inr (endsTmp_tmpOf n), ?_⟩
  rw [tmpOf_join, place_join_plain cwd inbox (tmp_plain h.plain.1)]

/-- A download of one of the three files. -/
lemma inertCall_of_fetch {e : Env} {cfg : OtaConfig} {inbox url n : CStr} {c : Call}
    (hn : ManifestFileName n) (hurl : cfg.serverUrl = some url)
    (h : FetchCall e (fetchRequest (join url n) cfg false) (join inbox n) c) :
    InertCall e cfg inbox c := by
  rcases h with h | rfl
  · refine ⟨?_, ?_, ?_, ?_, ?_⟩
    · rintro req rfl
      cases h
      exact ⟨url, n, hurl, hn, rfl⟩
    · rintro p rfl
      cases h
    · rintro argv rfl
      cases h
    · intro q hq
      rw [tmpCall_writes h hq]
      exact scratch_tmp hn
    · rintro p m rfl
      cases h with
      | mkdir u m hne habove => exact ⟨hne, above_join hn.plain.1 habove⟩
  · refine ⟨by simp, by simp, by simp, ?_, by simp⟩
    rintro q (rfl | rfl)
    · exact scratch_tmp hn
    · exact scratch_name hn

lemma inertCall_of_newManifest {e : Env} {cfg : OtaConfig} {ctx : OtaCtx} {inbox current : CStr}
    {c : Call} (hb : ctx.Built cfg inbox current) (h : NewManifestCall e ctx c) :
    InertCall e cfg inbox c := by
  cases h with
  | malloc => exact .of_idle (by simp) (by simp) (by simp) (fun _ => id) (by simp)
  | fetch url n dest c hurl hname hc =>
    rw [hb.config] at hurl hc
    rcases hname with ⟨hn, hd⟩ | ⟨hn, hd⟩ | ⟨hn, hd⟩
    · rw [hd, hb.inboxManifest, ← hn] at hc
      exact inertCall_of_fetch (.inl hn) hurl hc
    · rw [hd, hb.inboxSig, ← hn] at hc
      exact inertCall_of_fetch (.inr (.inl hn)) hurl hc
    · rw [hd, hb.inboxCert, ← hn] at hc
      exact inertCall_of_fetch (.inr (.inr hn)) hurl hc

lemma inertCall_of_unlink {e : Env} {cfg : OtaConfig} {inbox p : CStr}
    (h : Scratch e.cwd inbox (place e.cwd p)) : InertCall e cfg inbox (.unlink p) := by
  refine ⟨by simp, by simp, by simp, ?_, by simp⟩
  rintro q rfl
  exact h

lemma inertCall_of_cleanup {e : Env} {cfg : OtaConfig} {ctx : OtaCtx} {inbox current : CStr}
    {c : Call} (hb : ctx.Built cfg inbox current) (h : CleanupCall ctx c) :
    InertCall e cfg inbox c := by
  cases h with
  | manifest =>
    rw [hb.inboxManifest]
    exact inertCall_of_unlink (scratch_name (.inl rfl))
  | sig =>
    rw [hb.inboxSig]
    exact inertCall_of_unlink (scratch_name (.inr (.inl rfl)))
  | cert =>
    rw [hb.inboxCert]
    exact inertCall_of_unlink (scratch_name (.inr (.inr rfl)))
  | «opendir» dir => exact .of_idle (by simp) (by simp) (by simp) (fun _ => id) (by simp)
  | malloc => exact .of_idle (by simp) (by simp) (by simp) (fun _ => id) (by simp)
  | tmp dir n hdir hn htmp =>
    rw [hb.config, hb.inboxDir] at hdir
    obtain rfl := Option.some.inj hdir
    refine inertCall_of_unlink ⟨n, .inr htmp, ?_⟩
    rw [place_join_plain e.cwd inbox (endsTmp_plain htmp hn.2)]

/-- The points that come after a successful verification. -/
def pastVerify : Point → Bool
  | .inited | .cleaned | .fetched => false
  | _ => true

lemma accepts_of_verified {e : Env} {cfg : OtaConfig} {w v : World} {p : Point} {ctx : OtaCtx}
    {t : Trace} (h : Reach e cfg w p ctx t v) (hp : pastVerify p = true) :
    ∃ s ∈ t, accepts s = true := by
  have hmore : ∀ {t u : Trace}, (∃ s ∈ t, accepts s = true) → ∃ s ∈ t ++ u, accepts s = true := by
    rintro t u ⟨s, hs, hacc⟩
    exact ⟨s, List.mem_append_left _ hs, hacc⟩
  induction h with
  | init | clean | fetch => cases hp
  | verify ctx t v hr h _ =>
    obtain ⟨t₀, v₀, msg, -, -, ht⟩ := (Reach.verify ctx t v hr h).verified
    rw [ht]
    exact ⟨_, List.mem_append_right _ (List.mem_singleton_self _), rfl⟩
  | compare _ _ _ _ _ ih => exact hmore (ih rfl)
  | load _ _ _ _ _ _ _ ih => exact hmore (ih rfl)
  | release _ _ _ _ _ _ ih => exact hmore (ih rfl)
  | validate _ _ _ _ _ ih => exact hmore (ih rfl)

lemma inert_append {e : Env} {cfg : OtaConfig} {inbox : CStr} {t u : Trace}
    (ht : ∀ s ∈ t, InertCall e cfg inbox s.call) (hu : ∀ s ∈ u, InertCall e cfg inbox s.call) :
    ∀ s ∈ t ++ u, InertCall e cfg inbox s.call := by
  intro s hs
  exact (List.mem_append.mp hs).elim (ht s) (hu s)

lemma otaCtxInit_inert (e : Env) (cfg : OtaConfig) (inbox : CStr) (w w' : World) :
    ∀ s ∈ (⟨w, .startCheck, (), w'⟩ :: (run (exec e) (otaCtxInit cfg) w').trace : Trace),
      InertCall e cfg inbox s.call := by
  intro s hmem
  rcases List.mem_cons.mp hmem with rfl | hmem
  · exact .of_idle (by simp) (by simp) (by simp) (fun _ => id) (by simp)
  · have hc := (calls_of_obeys (otaCtxInit_obeys (Lawful e) cfg) w').1 s hmem
    rw [hc]
    exact .of_idle (by simp) (by simp) (by simp) (fun _ => id) (by simp)

lemma fetchNewManifest_inert {e : Env} {cfg : OtaConfig} {ctx : OtaCtx} {inbox current : CStr}
    (hb : ctx.Built cfg inbox current) (v : World) :
    ∀ s ∈ (run (exec e) (fetchNewManifest ctx) v).trace, InertCall e cfg inbox s.call :=
  fun s hs =>
    inertCall_of_newManifest hb ((calls_of_obeys (fetchNewManifest_obeys e ctx) v).1 s hs)

/-- Everything before the verification is inert. -/
lemma inert_of_unverified {e : Env} {cfg : OtaConfig} {inbox : CStr} {w v : World} {p : Point}
    {ctx : OtaCtx} {t : Trace} (h : Reach e cfg w p ctx t v) (hp : pastVerify p = false)
    (hin : cfg.inboxManifestDir = some inbox) : ∀ s ∈ t, InertCall e cfg inbox s.call := by
  obtain ⟨inbox', current, hb⟩ := h.built
  obtain rfl : inbox = inbox' := Option.some.inj (hin.symm.trans hb.inboxDir)
  induction h with
  | init w' ctx hs h => exact otaCtxInit_inert e cfg inbox w w'
  | clean ctx t v hr ih =>
    refine inert_append (ih rfl hb) ?_
    intro s hs
    exact inertCall_of_cleanup hb ((calls_of_obeys (otaInboxCleanup_obeys e ctx) v).1 s hs)
  | fetch ctx t v hr h ih => exact inert_append (ih rfl hb) (fetchNewManifest_inert hb v)
  | verify | compare | load | release | validate => cases hp

/-- An iteration without a successful verification is inert. -/
theorem attempt_inert {e : Env} {daemonMode : Bool} {cfg : OtaConfig} {inbox : CStr} {w : World}
    (hin : cfg.inboxManifestDir = some inbox)
    (hno : ∀ s ∈ (run (exec e) (attempt daemonMode cfg) w).trace, accepts s = false) :
    ∀ s ∈ (run (exec e) (attempt daemonMode cfg) w).trace, InertCall e cfg inbox s.call := by
  have hends : Ends e daemonMode cfg w _ _ _ := attempt_ends e daemonMode cfg w
  generalize (run (exec e) (attempt daemonMode cfg) w).value = r,
    (run (exec e) (attempt daemonMode cfg) w).trace = t,
    (run (exec e) (attempt daemonMode cfg) w).final = v at hends hno
  have hlate : ∀ {p : Point} {ctx : OtaCtx} {t₀ u : Trace} {v₀ : World},
      Reach e cfg w p ctx t₀ v₀ → pastVerify p = true → t = t₀ ++ u → False := by
    intro p ctx t₀ u v₀ hr hp ht
    obtain ⟨s, hs, hacc⟩ := accepts_of_verified hr hp
    have hrej := hno s (by rw [ht]; exact List.mem_append_left _ hs)
    rw [hacc] at hrej
    cases hrej
  cases hends with
  | noCtx w' hs h => exact otaCtxInit_inert e cfg inbox w w'
  | noManifest ctx t v hr h =>
    obtain ⟨inbox', current, hb⟩ := hr.built
    obtain rfl : inbox = inbox' := Option.some.inj (hin.symm.trans hb.inboxDir)
    exact inert_append (inert_of_unverified hr rfl hin) (fetchNewManifest_inert hb v)
  | badSignature ctx t v hr h =>
    refine inert_append (inert_of_unverified hr rfl hin) ?_
    intro s hs
    rw [(calls_of_obeys (validateNewManifest_obeys (Lawful e) ctx) v).1 s hs]
    exact .of_idle (by simp) (by simp) (by simp) (fun _ => id) (by simp)
  | upToDate ctx t v hr h => exact (hlate hr rfl rfl).elim
  | incomparable ctx t v hr h => exact (hlate hr rfl rfl).elim
  | unreadable ctx t v v' hr hx => exact (hlate hr rfl rfl).elim
  | noRelease ctx t v hr h => exact (hlate hr rfl rfl).elim
  | badPayload ctx t v hr h => exact (hlate hr rfl rfl).elim
  | applied ctx t v hr => exact (hlate hr rfl rfl).elim

/-- A run without a successful verification is inert. -/
theorem otaFetchRun_calls_inert {e : Env} {daemonMode : Bool} {cfg : OtaConfig} {inbox : CStr}
    {w : World} {fuel : ℕ} (hin : cfg.inboxManifestDir = some inbox)
    (hno : ∀ s ∈ (run (exec e) (otaFetchRun fuel daemonMode cfg) w).trace, accepts s = false) :
    ∀ s ∈ (run (exec e) (otaFetchRun fuel daemonMode cfg) w).trace,
      InertCall e cfg inbox s.call := by
  intro s hs
  obtain ⟨pre, post, ht⟩ := List.append_of_mem hs
  rcases otaFetchRun_step ht with hp | ⟨before, here, after, w', hpre, hit, hsub⟩
  · rcases hp with ⟨n, hn⟩ | hn
    · rw [hn]
      exact .of_idle (by simp) (by simp) (by simp) (fun _ => id) (by simp)
    · rw [hn]
      exact .of_idle (by simp) (by simp) (by simp) (fun _ => id) (by simp)
  · rw [← hit] at hsub
    exact attempt_inert hin (fun x hx => hno x (hsub x hx)) s (by rw [hit]; simp)

/-- Outside the scratch entries `b` has what `a` has, apart from directories on
the way to the inbox that were missing. -/
def Leaves (cwd : Path) (inbox : CStr) (a b : World) : Prop :=
  ∀ q, ¬ Scratch cwd inbox q → b.fs.node q = a.fs.node q ∨
    a.fs.node q = none ∧ b.fs.node q = some .dir ∧ ∃ u, Cut u inbox ∧ q = place cwd u

lemma Leaves.trans {cwd : Path} {inbox : CStr} {a b c : World} (hab : Leaves cwd inbox a b)
    (hbc : Leaves cwd inbox b c) : Leaves cwd inbox a c := by
  intro q hq
  rcases hab q hq with h₁ | ⟨hn, hd, hu⟩
  · rcases hbc q hq with h₂ | ⟨hn, hd, hu⟩
    · exact .inl (h₂.trans h₁)
    · exact .inr ⟨h₁.symm.trans hn, hd, hu⟩
  · rcases hbc q hq with h₂ | ⟨hn', -⟩
    · exact .inr ⟨hn, h₂.trans hd, hu⟩
    · rw [hd] at hn'
      cases hn'

lemma Leaves.fileAt {cwd : Path} {inbox : CStr} {a b : World} (h : Leaves cwd inbox a b)
    {q : Path} (hq : ¬ Scratch cwd inbox q) : b.fs.fileAt q = a.fs.fileAt q := by
  rcases h q hq with hn | ⟨hn, hd, -⟩
  · exact Tree.fileAt_congr hn
  · rw [Tree.fileAt_eq_none.mpr (.inl hn), Tree.fileAt_eq_none.mpr (.inr hd)]

lemma exec_leaves {e : Env} {cfg : OtaConfig} {inbox : CStr} {w : World} {c : Call}
    (h : InertCall e cfg inbox c) : Leaves e.cwd inbox w (exec e w c).2 := by
  intro q hq
  rcases exec_node (w := w) (fun hw => hq (h.writes q hw)) with hn | ⟨p, m, hc, rfl, hn, hd⟩
  · exact .inl hn
  · exact .inr ⟨hn, hd, p, (h.mkdir p m hc).2, rfl⟩

/-- What a run from `w` with this trace and final state has left alone. -/
structure Inert (e : Env) (cfg : OtaConfig) (inbox : CStr) (w : World) (t : Trace) (v : World) :
    Prop where
  requests : ∀ s ∈ t, ∀ req, s.call = .perform req → ∃ url n, cfg.serverUrl = some url ∧
    ManifestFileName n ∧ req = fetchRequest (join url n) cfg false
  loads : ∀ s ∈ t, ∀ p, s.call ≠ .load p
  spawns : ∀ s ∈ t, ∀ argv, s.call ≠ .spawn argv
  final : Leaves e.cwd inbox w v
  states : ∀ s ∈ t, Leaves e.cwd inbox w s.after
  currentFinal : ∀ current, cfg.currentManifestDir = some current →
    v.fs.fileAt (place e.cwd (join current manifestName)) =
      w.fs.fileAt (place e.cwd (join current manifestName))
  currentStates : ∀ current, cfg.currentManifestDir = some current → ∀ s ∈ t,
    s.after.fs.fileAt (place e.cwd (join current manifestName)) =
      w.fs.fileAt (place e.cwd (join current manifestName))

theorem inert_of_calls {e : Env} {cfg : OtaConfig} {inbox : CStr} {w v : World} {t : Trace}
    (hc : Chain (exec e) w t v) (hcalls : ∀ s ∈ t, InertCall e cfg inbox s.call)
    (hin : cfg.inboxManifestDir = some inbox) (hapart : DirsApart e.cwd cfg) :
    Inert e cfg inbox w t v := by
  have hstep : ∀ s ∈ t, Leaves e.cwd inbox s.before s.after := by
    intro s hs
    have h := exec_leaves (w := s.before) (hcalls s hs)
    rwa [← hc.answer hs] at h
  obtain ⟨hfinal, hstates⟩ := hc.rel (Leaves e.cwd inbox) (fun _ _ _ => .inl rfl)
    (fun _ _ _ => Leaves.trans) hstep
  have hcur : ∀ current, cfg.currentManifestDir = some current →
      ¬ Scratch e.cwd inbox (place e.cwd (join current manifestName)) :=
    fun _ hdir => current_not_scratch hin hdir hapart
  exact {
    requests := fun s hs => (hcalls s hs).request
    loads := fun s hs => (hcalls s hs).load
    spawns := fun s hs => (hcalls s hs).spawn
    final := hfinal
    states := fun s hs => (hstates s hs).2
    currentFinal := fun current hdir => hfinal.fileAt (hcur current hdir)
    currentStates := fun current hdir s hs => (hstates s hs).2.fileAt (hcur current hdir) }

/-- Two runs from the same state, against any two environments, in which no
verification succeeds: both are inert, and they agree on every file outside the
scratch entries. -/
theorem otaFetchRun_inert (e₁ e₂ : Env) (w : World) (fuel₁ fuel₂ : ℕ) (daemonMode : Bool)
    (cfg : OtaConfig) (inbox : CStr) (hin : cfg.inboxManifestDir = some inbox)
    (hcwd : e₁.cwd = e₂.cwd) (hapart : DirsApart e₁.cwd cfg)
    (h₁ : ∀ s ∈ (run (exec e₁) (otaFetchRun fuel₁ daemonMode cfg) w).trace, accepts s = false)
    (h₂ : ∀ s ∈ (run (exec e₂) (otaFetchRun fuel₂ daemonMode cfg) w).trace, accepts s = false) :
    let o₁ := run (exec e₁) (otaFetchRun fuel₁ daemonMode cfg) w
    let o₂ := run (exec e₂) (otaFetchRun fuel₂ daemonMode cfg) w
    Inert e₁ cfg inbox w o₁.trace o₁.final ∧
    Inert e₂ cfg inbox w o₂.trace o₂.final ∧
    ∀ q, ¬ Scratch e₁.cwd inbox q → o₁.final.fs.fileAt q = o₂.final.fs.fileAt q := by
  intro o₁ o₂
  have hinert₁ : Inert e₁ cfg inbox w o₁.trace o₁.final :=
    inert_of_calls (run_chain _ _ w) (otaFetchRun_calls_inert hin h₁) hin hapart
  have hinert₂ : Inert e₂ cfg inbox w o₂.trace o₂.final :=
    inert_of_calls (run_chain _ _ w) (otaFetchRun_calls_inert hin h₂) hin (by rwa [← hcwd])
  refine ⟨hinert₁, hinert₂, ?_⟩
  intro q hq
  rw [hinert₁.final.fileAt hq, hinert₂.final.fileAt (by rwa [← hcwd])]

/-- Every request is answered with 404. -/
def absentEnv : Env := .calm (fun _ _ => ⟨[], 0, 404⟩) .empty

/-- Everything is served, but the signature does not match. -/
def forgedEnv : Env :=
  { deviceEnv (text "fw") raucBundle with
    verify := fun _ => { calmVerify with digestVerifyFinal := fun _ _ _ => 0 }
    Cert := Unit
    Key := Unit }

theorem otaFetchRun_inert_device :
    Inert absentEnv deviceConfig (text "in") (.at updatedTree)
        (run (exec absentEnv) (otaFetchRun 2 true deviceConfig) (.at updatedTree)).trace
        (run (exec absentEnv) (otaFetchRun 2 true deviceConfig) (.at updatedTree)).final ∧
      Inert forgedEnv deviceConfig (text "in") (.at updatedTree)
        (run (exec forgedEnv) (otaFetchRun 2 true deviceConfig) (.at updatedTree)).trace
        (run (exec forgedEnv) (otaFetchRun 2 true deviceConfig) (.at updatedTree)).final := by
  obtain ⟨h₁, h₂, -⟩ := otaFetchRun_inert absentEnv forgedEnv (.at updatedTree) 2 2 true
    deviceConfig (text "in") rfl rfl deviceConfig_apart (by decide +kernel) (by decide +kernel)
  exact ⟨h₁, h₂⟩

end OtaFetch.Untrusted
