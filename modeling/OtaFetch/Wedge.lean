import OtaFetch.Recovery

/-!
# A device that cannot update any more

No step removes a directory, and a download cannot be stored through one that has
its temporary name. A signed payload name with a slash can put such a directory in
the inbox, and from then on no manifest gets as far as its verification.
-/
namespace OtaFetch.Wedge
open CPath FileTree Interaction Machine Config Releases Fetch Update
open Iteration Stages Gate Untrusted Current Storing Recovery

/-- Nothing is stored through a directory. -/
lemma stored_unblocked {e : Env} {req : CurlRequest} {dest : CStr} {tr : Transfer} {w v : World}
    {t : Trace} (hc : Chain (exec e) w t v) (h : Stored e req dest tr t) :
    w.fs.node (place e.cwd (tmpOf dest)) ≠ some .dir := by
  intro hdir
  obtain ⟨-, ⟨a, c, r, b⟩, hr, hev, -⟩ := h
  obtain ⟨rfl, hreply⟩ := Sigma.mk.inj hev
  obtain rfl := eq_of_heq hreply
  obtain ⟨-, hafter⟩ := chain_dirs hc hdir _ hr
  obtain ⟨f, -, -, hnone⟩ := exec_rename_ok (hc.answer hr).symm (place_tmpOf_ne e.cwd dest)
  rw [hnone] at hafter
  cases hafter

/-- The calls of an iteration that does not get hold of a manifest. -/
def Idle (e : Env) (cfg : OtaConfig) (inbox : CStr) (c : Call) : Prop :=
  InertCall e cfg inbox c ∧ isVerify c = false

/-- An iteration that starts with such a directory does not fetch its manifest. -/
lemma reach_blocked {e : Env} {cfg : OtaConfig} {w v : World} {p : Point} {ctx : OtaCtx}
    {t : Trace} {inbox n : CStr} (hin : cfg.inboxManifestDir = some inbox)
    (hn : ManifestFileName n) (hdir : w.fs.node (place e.cwd (tmpOf (join inbox n))) = some .dir)
    (h : Reach e cfg w p ctx t v) : p = .inited ∨ p = .cleaned := by
  induction h with
  | init => exact Or.inl rfl
  | clean => exact Or.inr rfl
  | fetch ctx t v hr hrc =>
    have hfetched := Reach.fetch ctx t v hr hrc
    obtain ⟨inbox', current, hb⟩ := hfetched.built
    obtain rfl : inbox' = inbox := Option.some.inj (hb.inboxDir.symm.trans hin)
    obtain ⟨url, tm, ts, tc, -, hdown, -⟩ := hfetched.fetched hb
    have hchain := hfetched.chain
    rcases hn with rfl | rfl | rfl
    · exact absurd hdir (stored_unblocked hchain hdown.manifest)
    · exact absurd hdir (stored_unblocked hchain hdown.sig)
    · exact absurd hdir (stored_unblocked hchain hdown.cert)
  | verify _ _ _ _ _ ih => rcases ih with h | h <;> cases h
  | compare _ _ _ _ _ ih => rcases ih with h | h <;> cases h
  | load _ _ _ _ _ _ _ ih => rcases ih with h | h <;> cases h
  | release _ _ _ _ _ _ ih => rcases ih with h | h <;> cases h
  | validate _ _ _ _ _ ih => rcases ih with h | h <;> cases h

lemma fetchCall_unverified {e : Env} {req : CurlRequest} {dest : CStr} {c : Call}
    (h : FetchCall e req dest c) : isVerify c = false := by
  rcases h with h | rfl
  · cases h <;> rfl
  · rfl

/-- Without a manifest nothing is verified. -/
lemma newManifest_idle {e : Env} {cfg : OtaConfig} {ctx : OtaCtx} {inbox current : CStr}
    (hb : ctx.Built cfg inbox current) {c : Call} (h : NewManifestCall e ctx c) :
    Idle e cfg inbox c := by
  refine ⟨inertCall_of_newManifest hb h, ?_⟩
  cases h with
  | malloc => rfl
  | fetch url name dest c hurl hname hc => exact fetchCall_unverified hc

lemma cleanup_idle {e : Env} {cfg : OtaConfig} {ctx : OtaCtx} {inbox current : CStr}
    (hb : ctx.Built cfg inbox current) {c : Call} (h : CleanupCall ctx c) :
    Idle e cfg inbox c := by
  refine ⟨inertCall_of_cleanup hb h, ?_⟩
  cases h <;> rfl

/-- A point before the download has made idle calls only. -/
lemma reach_idle {e : Env} {cfg : OtaConfig} {w v : World} {p : Point} {ctx : OtaCtx} {t : Trace}
    {inbox : CStr} (hin : cfg.inboxManifestDir = some inbox) (h : Reach e cfg w p ctx t v)
    (hp : p = .inited ∨ p = .cleaned) : ∀ s ∈ t, Idle e cfg inbox s.call := by
  obtain ⟨inbox', current, hb⟩ := h.built
  obtain rfl : inbox' = inbox := Option.some.inj (hb.inboxDir.symm.trans hin)
  have hinit : ∀ (w' : World), ∀ s ∈ (⟨w, .startCheck, (), w'⟩ ::
      (run (exec e) (otaCtxInit cfg) w').trace : Trace), Idle e cfg inbox' s.call := by
    intro w' s hs
    refine ⟨otaCtxInit_inert e cfg inbox' w w' s hs, ?_⟩
    rcases List.mem_cons.mp hs with rfl | hs
    · rfl
    · rw [(calls_of_obeys (otaCtxInit_obeys (Lawful e) cfg) w').1 s hs]
      rfl
  cases h with
  | init w' ctx _ _ => exact hinit w'
  | clean _ t v hr =>
    cases hr with
    | init w' ctx _ _ =>
      refine List.forall_mem_append.mpr ⟨hinit w', ?_⟩
      intro s hs
      exact cleanup_idle hb ((calls_of_obeys (otaInboxCleanup_obeys e _) _).1 s hs)
  | fetch | verify | compare | load | release | validate => rcases hp with hp | hp <;> cases hp

/-- An iteration that starts with a directory in the way is idle. -/
theorem attempt_idle {e : Env} {cfg : OtaConfig} {daemonMode : Bool} {w : World} {inbox n : CStr}
    (hin : cfg.inboxManifestDir = some inbox) (hn : ManifestFileName n)
    (hdir : w.fs.node (place e.cwd (tmpOf (join inbox n))) = some .dir) :
    ∀ s ∈ (run (exec e) (attempt daemonMode cfg) w).trace, Idle e cfg inbox s.call := by
  have hends : Ends e daemonMode cfg w _ _ _ := attempt_ends e daemonMode cfg w
  generalize (run (exec e) (attempt daemonMode cfg) w).value = r,
    (run (exec e) (attempt daemonMode cfg) w).trace = t,
    (run (exec e) (attempt daemonMode cfg) w).final = v at hends
  have hlate : ∀ {p : Point} {ctx : OtaCtx} {t : Trace} {v : World}, Reach e cfg w p ctx t v →
      p = .inited ∨ p = .cleaned := fun hr => reach_blocked hin hn hdir hr
  cases hends with
  | noCtx w' hs h =>
    intro s hs
    refine ⟨otaCtxInit_inert e cfg inbox w w' s hs, ?_⟩
    rcases List.mem_cons.mp hs with rfl | hs
    · rfl
    · rw [(calls_of_obeys (otaCtxInit_obeys (Lawful e) cfg) w').1 s hs]
      rfl
  | noManifest ctx t v hr h =>
    obtain ⟨inbox', current, hb⟩ := hr.built
    obtain rfl : inbox' = inbox := Option.some.inj (hb.inboxDir.symm.trans hin)
    refine List.forall_mem_append.mpr ⟨reach_idle hin hr (Or.inr rfl), ?_⟩
    intro s hs
    exact newManifest_idle hb ((calls_of_obeys (fetchNewManifest_obeys e ctx) v).1 s hs)
  | badSignature ctx t v hr h => rcases hlate hr with hp | hp <;> cases hp
  | upToDate ctx t v hr h => rcases hlate hr with hp | hp <;> cases hp
  | incomparable ctx t v hr h => rcases hlate hr with hp | hp <;> cases hp
  | unreadable ctx t v v' hr hx => rcases hlate hr with hp | hp <;> cases hp
  | noRelease ctx t v hr h => rcases hlate hr with hp | hp <;> cases hp
  | badPayload ctx t v hr h => rcases hlate hr with hp | hp <;> cases hp
  | applied ctx t v hr => rcases hlate hr with hp | hp <;> cases hp

/-- So is a run: each of its iterations finds the directory again. -/
theorem otaFetchRun_idle {e : Env} {cfg : OtaConfig} {fuel : ℕ} {daemonMode : Bool} {w : World}
    {inbox n : CStr} (hin : cfg.inboxManifestDir = some inbox) (hn : ManifestFileName n)
    (hdir : w.fs.node (place e.cwd (tmpOf (join inbox n))) = some .dir) :
    ∀ s ∈ (run (exec e) (otaFetchRun fuel daemonMode cfg) w).trace,
      Idle e cfg inbox s.call := by
  intro s hs
  have hdirs := chain_dirs (run_chain (exec e) (otaFetchRun fuel daemonMode cfg) w) hdir
  obtain ⟨pre, post, ht⟩ := List.append_of_mem hs
  rcases otaFetchRun_step ht with hp | ⟨before, here, after, w', -, hit, hsub⟩
  · rcases hp with ⟨m, hm⟩ | hm
    · rw [hm]
      exact ⟨.of_idle (by simp) (by simp) (by simp) (fun _ => id) (by simp), rfl⟩
    · rw [hm]
      exact ⟨.of_idle (by simp) (by simp) (by simp) (fun _ => id) (by simp), rfl⟩
  · -- the iteration starts where its first step does
    have hchain := run_chain (exec e) (attempt daemonMode cfg) w'
    have hstart : w'.fs.node (place e.cwd (tmpOf (join inbox n))) = some .dir := by
      rw [hit] at hchain
      cases hhere : here ++ s :: after with
      | nil => simp at hhere
      | cons x xs =>
        rw [hhere] at hchain hsub
        have hfirst : x.before = w' := hchain.1
        rw [← hfirst]
        exact (hdirs x (hsub x List.mem_cons_self)).1
    exact attempt_idle hin hn hstart s (by rw [hit]; simp)

/-- What is left alone before a run and in the run is left alone in both. -/
lemma inert_after {e : Env} {cfg : OtaConfig} {inbox : CStr} {w u v : World} {t : Trace}
    (hin : cfg.inboxManifestDir = some inbox) (hapart : DirsApart e.cwd cfg)
    (hleaves : Leaves e.cwd inbox w u) (h : Inert e cfg inbox u t v) : Inert e cfg inbox w t v := by
  have hcurrent : ∀ current, cfg.currentManifestDir = some current →
      u.fs.fileAt (place e.cwd (join current manifestName)) =
        w.fs.fileAt (place e.cwd (join current manifestName)) :=
    fun current hdir => hleaves.fileAt (current_not_scratch hin hdir hapart)
  exact {
    requests := h.requests
    loads := h.loads
    spawns := h.spawns
    final := hleaves.trans h.final
    states := fun s hs => hleaves.trans (h.states s hs)
    currentFinal := fun current hdir => (h.currentFinal current hdir).trans (hcurrent current hdir)
    currentStates := fun current hdir s hs =>
      (h.currentStates current hdir s hs).trans (hcurrent current hdir) }

/-- A device with a directory at the temporary name of a manifest file keeps it,
and leaves all else as it is, in every history. -/
lemma history_leaves {cwd : Path} {cfg : OtaConfig} {P : Trace → Prop} {w v : World}
    {inbox n : CStr} (hin : cfg.inboxManifestDir = some inbox) (hapart : DirsApart cwd cfg)
    (hn : ManifestFileName n)
    (hdir : w.fs.node (place cwd (tmpOf (join inbox n))) = some .dir)
    (hv : History cwd cfg P w v) :
    v.fs.node (place cwd (tmpOf (join inbox n))) = some .dir ∧ Leaves cwd inbox w v := by
  induction hv with
  | start v hfs =>
    rw [hfs]
    exact ⟨hdir, fun q _ => Or.inl (by rw [hfs])⟩
  | run e fuel daemonMode u v s hcwd _ _ hs hfs ih =>
    subst hcwd
    obtain ⟨hu, hleaves⟩ := ih
    have hc := run_chain (exec e) (otaFetchRun fuel daemonMode cfg) u
    have hinert : Inert e cfg inbox u _ _ :=
      inert_of_calls hc (fun s hs => (otaFetchRun_idle hin hn hu s hs).1) hin hapart
    have hafter := hleaves.trans (hinert.states s hs)
    refine ⟨by rw [hfs]; exact (chain_dirs hc hu s hs).2, ?_⟩
    intro q hq
    rw [hfs]
    exact hafter q hq

/-- Once there is a directory at the temporary name of a manifest file, it is there
after every step of every later run of the device, and no such run, whatever the
server offers, verifies a manifest, loads one, installs anything or changes the
current manifest. -/
theorem history_wedged (e : Env) (cfg : OtaConfig) (inbox n : CStr) (P : Trace → Prop)
    (w v : World) (fuel : ℕ) (daemonMode : Bool) (hin : cfg.inboxManifestDir = some inbox)
    (hapart : DirsApart e.cwd cfg) (hn : ManifestFileName n)
    (hdir : w.fs.node (place e.cwd (tmpOf (join inbox n))) = some .dir)
    (hv : History e.cwd cfg P w v) :
    v.fs.node (place e.cwd (tmpOf (join inbox n))) = some .dir ∧
      (∀ s ∈ (run (exec e) (otaFetchRun fuel daemonMode cfg) v).trace,
        s.after.fs.node (place e.cwd (tmpOf (join inbox n))) = some .dir) ∧
      (∀ s ∈ (run (exec e) (otaFetchRun fuel daemonMode cfg) v).trace, isVerify s.call = false) ∧
      Inert e cfg inbox w (run (exec e) (otaFetchRun fuel daemonMode cfg) v).trace
        (run (exec e) (otaFetchRun fuel daemonMode cfg) v).final := by
  obtain ⟨hkept, hleaves⟩ := history_leaves hin hapart hn hdir hv
  have hc := run_chain (exec e) (otaFetchRun fuel daemonMode cfg) v
  have hidle : ∀ s ∈ (run (exec e) (otaFetchRun fuel daemonMode cfg) v).trace,
      Idle e cfg inbox s.call := otaFetchRun_idle hin hn hkept
  refine ⟨hkept, fun s hs => (chain_dirs hc hkept s hs).2, fun s hs => (hidle s hs).2,
    inert_after hin hapart hleaves ?_⟩
  exact inert_of_calls hc (fun s hs => (hidle s hs).1) hin hapart

/-- A signed manifest whose payload goes below the temporary name of the manifest. -/
def trapEnv : Env := deviceEnv (text "manifest.json.tmp/x") raucBundleTest

def trappedWorld : World :=
  (run (exec trapEnv) (otaFetchRun 1 false deviceConfig) (.at deviceTree)).final

def isBlocked (s : Step Call Resp World) : Bool :=
  match s.event with
  | ⟨.fopen _, .error _⟩ => true
  | _ => false

/-- The device accepts it, and never gets past it. A run is cut off when the
directory stands in its way, and the next one ends no better. -/
theorem history_wedged_device :
    contentAt trapEnv trappedWorld (text "cur/manifest.json") =
        some (manifestFor (text "manifest.json.tmp/x") raucBundleTest) ∧
      trappedWorld.fs.node (place [] (text "in/manifest.json.tmp")) = some .dir ∧
      ∃ s ∈ (run (exec (deviceEnv (text "fw") raucBundle)) (otaFetchRun 1 false deviceConfig)
        trappedWorld).trace, isBlocked s = true ∧
        (∀ x ∈ (run (exec (deviceEnv (text "fw") raucBundle)) (otaFetchRun 2 true deviceConfig)
          s.after).trace, x.after.fs.node (place [] (text "in/manifest.json.tmp")) = some .dir) ∧
        Inert (deviceEnv (text "fw") raucBundle) deviceConfig (text "in") trappedWorld
          (run (exec (deviceEnv (text "fw") raucBundle)) (otaFetchRun 2 true deviceConfig)
            s.after).trace
          (run (exec (deviceEnv (text "fw") raucBundle)) (otaFetchRun 2 true deviceConfig)
            s.after).final := by
  have hdir : trappedWorld.fs.node (place [] (text "in/manifest.json.tmp")) = some .dir := by
    decide +kernel
  have hstep : ∃ s ∈ (run (exec (deviceEnv (text "fw") raucBundle)) (otaFetchRun 1 false
      deviceConfig) trappedWorld).trace, isBlocked s = true := by decide +kernel
  obtain ⟨s, hs, hblocked⟩ := hstep
  have hpast : History [] deviceConfig (fun _ => True) trappedWorld s.after :=
    .run (deviceEnv (text "fw") raucBundle) 1 false trappedWorld s.after s rfl
      (.start _ rfl) trivial hs rfl
  have hplace : place (deviceEnv (text "fw") raucBundle).cwd (tmpOf (join (text "in")
      manifestName)) = place [] (text "in/manifest.json.tmp") := rfl
  have hthere := hdir
  rw [← hplace] at hthere
  have hwedged := history_wedged (deviceEnv (text "fw") raucBundle) deviceConfig (text "in")
    manifestName (fun _ => True) trappedWorld s.after 2 true rfl deviceConfig_apart (Or.inl rfl)
    hthere hpast
  rw [hplace] at hwedged
  exact ⟨by decide +kernel, hdir, s, hs, hblocked, hwedged.2.1, hwedged.2.2.2⟩

end OtaFetch.Wedge
