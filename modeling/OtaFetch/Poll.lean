import OtaFetch.Smooth

/-!
# Polling

Iterations have no memory but the files they leave. One in which all goes well
ends with the offered manifest as the current one; it downloads and applies the
payload when the manifest is new, and otherwise touches nothing. A sequence of
such iterations follows the server.
-/
namespace OtaFetch.Poll
open CPath FileTree Interaction Machine Config Releases Hash Fetch Update
open Iteration Stages Gate Untrusted Current Smooth

/-- Calls that leave the current manifest alone and start no program. -/
def Still (e : Env) (current : CStr) (c : Call) : Prop :=
  ¬ Writes e c (place e.cwd (join current manifestName)) ∧ spawn? c = none

lemma early_spawn {c : Call} (h : Early c) : spawn? c = none := by
  cases c with
  | spawn argv => exact absurd rfl (h.2.1 argv)
  | _ => rfl

/-- An iteration that finds the offered manifest in place. -/
structure Skips (e : Env) (cfg : OtaConfig) (url current : CStr) (t : Trace) : Prop where
  requests : gather request? t = manifestRequests cfg url
  calls : ∀ s ∈ t, Still e current s.call

/-- An iteration that downloads the offered payload, applies it, and makes the
manifest the current one. -/
structure Updates (cfg : OtaConfig) (url inbox current : CStr) (o : Offer) (t : Trace) : Prop where
  requests : gather request? t =
    manifestRequests cfg url ++ [fetchRequest (join url o.path) cfg true]
  spawns : gather spawn? t = o.installs inbox
  renamed : ∃ s ∈ t, s.event =
    ⟨.rename (join inbox manifestName) (join current manifestName), .ok ()⟩

lemma still_contentAt {e : Env} {current : CStr} {w v : World} {t : Trace}
    (hc : Chain (exec e) w t v) (h : ∀ s ∈ t, Still e current s.call) :
    contentAt e v (join current manifestName) = contentAt e w (join current manifestName) :=
  (chain_contentAt hc fun s hs => (h s hs).1).1

/-- Cleaning the inbox asks the server for nothing. -/
lemma cleanupCall_request {ctx : OtaCtx} {c : Call} (h : CleanupCall ctx c) :
    request? c = none := by
  cases h <;> rfl

lemma compareCall_request {ctx : OtaCtx} {c : Call} (h : CompareCall ctx c) :
    request? c = none := by
  cases h <;> rfl

/-- What the configuration has to provide. -/
structure Setup (e : Env) (cfg : OtaConfig) (url inbox current : CStr) : Prop where
  serverUrl : cfg.serverUrl = some url
  inboxDir : cfg.inboxManifestDir = some inbox
  currentDir : cfg.currentManifestDir = some current
  apart : DirsApart e.cwd cfg

/-- The iteration before the comparison: the context as it began, these requests,
and nothing done to the current manifest. -/
structure Opening (e : Env) (cfg : OtaConfig) (inbox current : CStr) (reqs : List CurlRequest)
    (ctx : OtaCtx) (t : Trace) : Prop where
  fresh : ctx = freshCtx cfg inbox current
  requests : gather request? t = reqs
  calls : ∀ s ∈ t, Still e current s.call

lemma Opening.append {e : Env} {cfg : OtaConfig} {inbox current : CStr}
    {reqs reqs' : List CurlRequest} {ctx : OtaCtx} {t u : Trace}
    (h : Opening e cfg inbox current reqs ctx t) (hreq : gather request? u = reqs')
    (hu : ∀ s ∈ u, Still e current s.call) :
    Opening e cfg inbox current (reqs ++ reqs') ctx (t ++ u) := by
  refine ⟨h.fresh, by rw [gather_append, h.requests, hreq], ?_⟩
  intro s hs
  exact (List.mem_append.mp hs).elim (h.calls s) (hu s)

lemma Opening.quiet {e : Env} {cfg : OtaConfig} {inbox current : CStr}
    {reqs : List CurlRequest} {ctx : OtaCtx} {t u : Trace}
    (h : Opening e cfg inbox current reqs ctx t) (hreq : gather request? u = [])
    (hu : ∀ s ∈ u, Still e current s.call) :
    Opening e cfg inbox current reqs ctx (t ++ u) := by
  have hquiet := h.append hreq hu
  rw [List.append_nil] at hquiet
  exact hquiet

lemma opening_of_cleaned {e : Env} {cfg : OtaConfig} {url inbox current : CStr} {o : Offer}
    {w v : World} {ctx : OtaCtx} {t : Trace} (hset : Setup e cfg url inbox current)
    (h : Reach e cfg w .cleaned ctx t v) (hall : ∀ s ∈ t, Fair e cfg url o s) :
    Opening e cfg inbox current [] ctx t := by
  cases h with
  | clean _ t v hr =>
    obtain ⟨inbox', current', hb⟩ := hr.built
    have hcleanup := (calls_of_obeys (otaInboxCleanup_obeys e ctx) v).1
    have hstage := stageCalls_current (e := e) hset.inboxDir hset.currentDir hset.apart
    have hfirst : Opening e cfg inbox current [] ctx t := by
      cases hr with
      | init w' _ hs hinit =>
        have hmem : ∀ s ∈ (run (exec e) (otaCtxInit cfg) w').trace, Fair e cfg url o s :=
          fun s hs => hall s (by simp [hs])
        obtain ⟨hctx, hmalloc⟩ := otaCtxInit_granted (fair_local e cfg url o) w' hset.inboxDir
          hset.currentDir hmem
        rw [hinit] at hctx
        refine ⟨Option.some.inj hctx, ?_, ?_⟩
        · rw [gather_cons, gather_malloc hmalloc]
          rfl
        · intro s hs
          rcases List.mem_cons.mp hs with rfl | hs
          · exact ⟨id, rfl⟩
          · rw [hmalloc s hs]
            exact ⟨id, rfl⟩
    refine hfirst.quiet (gather_eq_nil fun s hs => cleanupCall_request (hcleanup s hs)) ?_
    intro s hs
    exact ⟨hstage.cleanup hb (hcleanup s hs),
      early_spawn ((stageCalls_early e cfg).cleanup hb (hcleanup s hs))⟩

/-- When the manifest is verified, the inbox holds what is offered. -/
lemma opening_of_verified {e : Env} {cfg : OtaConfig} {url inbox current : CStr} {o : Offer}
    {w v : World} {ctx : OtaCtx} {t : Trace} (hset : Setup e cfg url inbox current)
    (h : Reach e cfg w .verified ctx t v) (hall : ∀ s ∈ t, Fair e cfg url o s) :
    Opening e cfg inbox current (manifestRequests cfg url) ctx t ∧ InInbox e inbox o v := by
  cases h with
  | verify _ t v hr hrc =>
    cases hr with
    | fetch _ t v₀ hr₀ hrc₀ =>
      rw [List.forall_mem_append, List.forall_mem_append] at hall
      have hopen := opening_of_cleaned hset hr₀ hall.1.1
      obtain rfl := hopen.fresh
      have hb := freshCtx_built hset.inboxDir hset.currentDir
      have hstage := stageCalls_current (e := e) hset.inboxDir hset.currentDir hset.apart
      have hnew := (calls_of_obeys (fetchNewManifest_obeys e (freshCtx cfg inbox current)) v₀).1
      have hverify := (calls_of_obeys (validateNewManifest_obeys (Lawful e)
        (freshCtx cfg inbox current))
        (run (exec e) (fetchNewManifest (freshCtx cfg inbox current)) v₀).final).1
      obtain ⟨-, hreq, hin⟩ := fetchNewManifest_granted v₀ hset.serverUrl hall.1.2
      obtain ⟨-, hfs⟩ := validateNewManifest_granted hin hall.2
      have hfetched := hopen.append hreq fun s hs =>
        ⟨hstage.newManifest hb (hnew s hs),
          early_spawn ((stageCalls_early e cfg).newManifest hb (hnew s hs))⟩
      have hverified := hfetched.quiet (gather_eq_nil fun s hs => by rw [hverify s hs]; rfl)
        fun s hs => by
          rw [hverify s hs]
          exact ⟨id, rfl⟩
      exact ⟨hverified, hin.of_fs hfs⟩

/-- The comparison asks the server for nothing, leaves both manifests alone, and
finds the offer unchanged exactly when it is the current manifest. -/
lemma compared_of_verified {e : Env} {cfg : OtaConfig} {url inbox current : CStr} {o : Offer}
    {w v : World} {ctx : OtaCtx} {t : Trace} (hset : Setup e cfg url inbox current)
    (hinj : ∀ b, contentAt e w (join current manifestName) = some b →
      e.sha256 b = e.sha256 o.manifest → b = o.manifest)
    (h : Reach e cfg w .verified ctx t v)
    (hall : ∀ s ∈ t ++ (run (exec e) (compareManifests ctx) v).trace, Fair e cfg url o s) :
    Opening e cfg inbox current (manifestRequests cfg url) ctx
      (t ++ (run (exec e) (compareManifests ctx) v).trace) ∧
    (run (exec e) (compareManifests ctx) v).value =
      (if contentAt e w (join current manifestName) = some o.manifest then .eq else .neq) ∧
    InInbox e inbox o (run (exec e) (compareManifests ctx) v).final := by
  rw [List.forall_mem_append] at hall
  obtain ⟨hopen, hin⟩ := opening_of_verified hset h hall.1
  obtain rfl := hopen.fresh
  have hstage := stageCalls_current (e := e) hset.inboxDir hset.currentDir hset.apart
  have hcalls := (calls_of_obeys (compareManifests_obeys (Lawful e)
    (freshCtx cfg inbox current)) v).1
  have hchain := run_chain (exec e) (compareManifests (freshCtx cfg inbox current)) v
  have hkeep : contentAt e v (join current manifestName) =
      contentAt e w (join current manifestName) := still_contentAt h.chain hopen.calls
  rw [← hkeep] at hinj
  have hvalue := compareManifests_granted hin hinj hall.2
  rw [hkeep] at hvalue
  have hcompared := hopen.quiet (gather_eq_nil fun s hs => compareCall_request (hcalls s hs))
    fun s hs => ⟨hstage.compare (hcalls s hs),
      early_spawn ((stageCalls_early e cfg).compare (hcalls s hs))⟩
  refine ⟨hcompared, hvalue, hin.of_fs ?_⟩
  exact (chain_readOnly hchain fun s hs => compareCall_readOnly (hcalls s hs)).1

/-- The iteration after the comparison has found the offer to be news: these
requests, nothing installed yet, and the offered manifest in the inbox. -/
structure Updating (e : Env) (inbox current : CStr) (o : Offer) (w : World)
    (reqs : List CurlRequest) (t : Trace) (v : World) : Prop where
  differs : contentAt e w (join current manifestName) ≠ some o.manifest
  requests : gather request? t = reqs
  spawns : gather spawn? t = []
  manifest : contentAt e v (join inbox manifestName) = some o.manifest

lemma Updating.append {e : Env} {inbox current : CStr} {o : Offer} {w v v' : World}
    {reqs reqs' : List CurlRequest} {t u : Trace} (h : Updating e inbox current o w reqs t v)
    (hreq : gather request? u = reqs') (hspawn : gather spawn? u = [])
    (hkeep : contentAt e v' (join inbox manifestName) = contentAt e v (join inbox manifestName)) :
    Updating e inbox current o w (reqs ++ reqs') (t ++ u) v' := by
  refine ⟨h.differs, ?_, ?_, hkeep.trans h.manifest⟩
  · rw [gather_append, h.requests, hreq]
  · rw [gather_append, h.spawns, hspawn, List.append_nil]

lemma Updating.quiet {e : Env} {inbox current : CStr} {o : Offer} {w v v' : World}
    {reqs : List CurlRequest} {t u : Trace} (h : Updating e inbox current o w reqs t v)
    (hreq : gather request? u = []) (hspawn : gather spawn? u = [])
    (hkeep : contentAt e v' (join inbox manifestName) = contentAt e v (join inbox manifestName)) :
    Updating e inbox current o w reqs (t ++ u) v' := by
  have hquiet := h.append hreq hspawn hkeep
  rw [List.append_nil] at hquiet
  exact hquiet

lemma updating_of_changed {e : Env} {cfg : OtaConfig} {url inbox current : CStr} {o : Offer}
    {w v : World} {ctx : OtaCtx} {t : Trace} (hset : Setup e cfg url inbox current)
    (hinj : ∀ b, contentAt e w (join current manifestName) = some b →
      e.sha256 b = e.sha256 o.manifest → b = o.manifest)
    (h : Reach e cfg w .changed ctx t v) (hall : ∀ s ∈ t, Fair e cfg url o s) :
    ctx = freshCtx cfg inbox current ∧
      Updating e inbox current o w (manifestRequests cfg url) t v := by
  cases h with
  | compare _ t v hr hneq =>
    obtain ⟨hopen, hvalue, hin⟩ := compared_of_verified hset hinj hr hall
    refine ⟨hopen.fresh, ?_, hopen.requests, ?_, hin.manifest⟩
    · intro hsame
      rw [hneq, if_pos hsame] at hvalue
      cases hvalue
    · exact gather_eq_nil fun s hs => (hopen.calls s hs).2

/-- The offered manifest is what the load reads. -/
lemma load_fair {e : Env} {cfg : OtaConfig} {url inbox current : CStr} {o : Offer}
    {v v' : World} {r : Option Manifest} (hfit : o.Fit e cfg inbox)
    (hm : contentAt e v (join inbox manifestName) = some o.manifest)
    (hfair : Fair e cfg url o
      ⟨v, .load (freshCtx cfg inbox current).inboxManifestPath, r, v'⟩) :
    r = some o.doc := by
  have hload : r = (contentAt e v (join inbox manifestName)).bind (manifestParse e.cjson) :=
    hfair.1
  rw [hload, hm]
  exact hfit.parsed

lemma updating_of_loaded {e : Env} {cfg : OtaConfig} {url inbox current : CStr} {o : Offer}
    {w v : World} {ctx : OtaCtx} {t : Trace} (hset : Setup e cfg url inbox current)
    (hfit : o.Fit e cfg inbox)
    (hinj : ∀ b, contentAt e w (join current manifestName) = some b →
      e.sha256 b = e.sha256 o.manifest → b = o.manifest)
    (h : Reach e cfg w .loaded ctx t v) (hall : ∀ s ∈ t, Fair e cfg url o s) :
    ctx = { freshCtx cfg inbox current with inboxManifest := some o.doc } ∧
      Updating e inbox current o w (manifestRequests cfg url) t v := by
  cases h with
  | load ctx t v₀ _ m hr hx =>
    rw [List.forall_mem_append] at hall
    obtain ⟨rfl, hup⟩ := updating_of_changed hset hinj hr hall.1
    have hfs : v.fs = v₀.fs := congrArg (fun a => a.2.fs) hx.symm
    obtain rfl := Option.some.inj
      (load_fair hfit hup.manifest (hall.2 _ (List.mem_singleton_self _)))
    exact ⟨rfl, hup.quiet rfl rfl (contentAt_congr hfs _)⟩

lemma updating_of_released {e : Env} {cfg : OtaConfig} {url inbox current : CStr} {o : Offer}
    {w v : World} {ctx : OtaCtx} {t : Trace} (hset : Setup e cfg url inbox current)
    (hfit : o.Fit e cfg inbox)
    (hinj : ∀ b, contentAt e w (join current manifestName) = some b →
      e.sha256 b = e.sha256 o.manifest → b = o.manifest)
    (h : Reach e cfg w .released ctx t v) (hall : ∀ s ∈ t, Fair e cfg url o s) :
    ctx = payloadCtx cfg inbox current o ∧
      Updating e inbox current o w
        (manifestRequests cfg url ++ [fetchRequest (join url o.path) cfg true]) t v ∧
      contentAt e v (join inbox o.filename) = some o.payload := by
  cases h with
  | release ctx₀ _ t v₀ hr hrc =>
    rw [List.forall_mem_append] at hall
    obtain ⟨rfl, hup⟩ := updating_of_loaded hset hfit hinj hr hall.1
    obtain ⟨hvalue, hreq, hpayload, hkeep⟩ :=
      fetchRelease_granted v₀ hset.serverUrl hset.inboxDir hfit hall.2
    rw [hrc] at hvalue
    have hcalls := (calls_of_obeys (fetchRelease_obeys e
      { freshCtx cfg inbox current with inboxManifest := some o.doc }) v₀).1
    have hspawn := gather_eq_nil (f := spawn?) fun s hs =>
      early_spawn (releaseCall_early (hcalls s hs))
    exact ⟨(Prod.mk.inj hvalue).2, hup.append hreq hspawn hkeep, hpayload⟩

lemma updating_of_validated {e : Env} {cfg : OtaConfig} {url inbox current : CStr} {o : Offer}
    {w v : World} {ctx : OtaCtx} {t : Trace} (hset : Setup e cfg url inbox current)
    (hfit : o.Fit e cfg inbox)
    (hinj : ∀ b, contentAt e w (join current manifestName) = some b →
      e.sha256 b = e.sha256 o.manifest → b = o.manifest)
    (h : Reach e cfg w .validated ctx t v) (hall : ∀ s ∈ t, Fair e cfg url o s) :
    ctx = payloadCtx cfg inbox current o ∧
      Updating e inbox current o w
        (manifestRequests cfg url ++ [fetchRequest (join url o.path) cfg true]) t v := by
  cases h with
  | validate _ t v₀ hr hrc =>
    rw [List.forall_mem_append] at hall
    obtain ⟨rfl, hup, hpayload⟩ := updating_of_released hset hfit hinj hr hall.1
    obtain ⟨-, hfs⟩ := validateRelease_granted hfit hpayload hall.2
    have hcalls := (calls_of_obeys (validateRelease_obeys (Lawful e)
      (payloadCtx cfg inbox current o)) v₀).1
    have hreq := gather_eq_nil (f := request?) fun s hs => by rw [hcalls s hs]; rfl
    have hspawn := gather_eq_nil (f := spawn?) fun s hs => by rw [hcalls s hs]; rfl
    exact ⟨rfl, hup.quiet hreq hspawn (contentAt_congr hfs _)⟩

/-- Applying the release completes the update. -/
lemma updates_of_applied {e : Env} {cfg : OtaConfig} {url inbox current : CStr} {o : Offer}
    {w v : World} {t : Trace} (hset : Setup e cfg url inbox current) (hfit : o.Fit e cfg inbox)
    (hup : Updating e inbox current o w
      (manifestRequests cfg url ++ [fetchRequest (join url o.path) cfg true]) t v)
    (hall : ∀ s ∈ (run (exec e) (applyRelease (payloadCtx cfg inbox current o)) v).trace,
      Fair e cfg url o s) :
    (run (exec e) (applyRelease (payloadCtx cfg inbox current o)) v).value = 0 ∧
    Updates cfg url inbox current o
      (t ++ (run (exec e) (applyRelease (payloadCtx cfg inbox current o)) v).trace) ∧
    contentAt e (run (exec e) (applyRelease (payloadCtx cfg inbox current o)) v).final
      (join current manifestName) = some o.manifest := by
  have hne : place e.cwd (join inbox manifestName) ≠ place e.cwd (join current manifestName) := by
    intro heq
    exact current_not_scratch hset.inboxDir hset.currentDir hset.apart
      (heq ▸ scratch_name (.inl rfl))
  obtain ⟨hrc, hreq, hspawn, ⟨s, hs, hev⟩, hcont⟩ := applyRelease_granted v hfit hne hall
  refine ⟨hrc, ⟨?_, ?_, s, List.mem_append_right _ hs, hev⟩, hcont.trans hup.manifest⟩
  · rw [gather_append, hup.requests, hreq, List.append_nil]
  · rw [gather_append, hup.spawns, hspawn, List.nil_append]

/-- An iteration in which all goes well ends with 0. It skips the offered
manifest when it is the current one, and otherwise updates to it. -/
theorem attempt_granted {e : Env} {cfg : OtaConfig} {url inbox current : CStr} {o : Offer}
    (daemonMode : Bool) (w : World) (hset : Setup e cfg url inbox current)
    (hfit : o.Fit e cfg inbox)
    (hinj : ∀ b, contentAt e w (join current manifestName) = some b →
      e.sha256 b = e.sha256 o.manifest → b = o.manifest) :
    Granted (exec e) (Fair e cfg url o) w (attempt daemonMode cfg) (fun r t v =>
      r = (if daemonMode then .ended 0 else .returned 0) ∧
      (contentAt e w (join current manifestName) = some o.manifest →
        Skips e cfg url current t) ∧
      (contentAt e w (join current manifestName) ≠ some o.manifest →
        Updates cfg url inbox current o t ∧
        contentAt e v (join current manifestName) = some o.manifest)) := by
  refine (Granted.of_yields (attempt_ends e daemonMode cfg w)).mono ?_
  intro r t v hall hend
  cases hend with
  | noCtx w' hs hnone =>
    have hctx := (otaCtxInit_granted (fair_local e cfg url o) w' hset.inboxDir hset.currentDir
      fun s hs => hall s (List.mem_cons_of_mem _ hs)).1
    rw [hnone] at hctx
    cases hctx
  | noManifest ctx t v hr hrc =>
    rw [List.forall_mem_append] at hall
    obtain rfl := (opening_of_cleaned hset hr hall.1).fresh
    exact absurd (fetchNewManifest_granted v hset.serverUrl hall.2).1 hrc
  | badSignature ctx t v hr hrc =>
    rw [List.forall_mem_append] at hall
    cases hr with
    | fetch _ t v₀ hr₀ _ =>
      rw [List.forall_mem_append] at hall
      obtain rfl := (opening_of_cleaned hset hr₀ hall.1.1).fresh
      obtain ⟨-, -, hin⟩ := fetchNewManifest_granted v₀ hset.serverUrl hall.1.2
      exact absurd (validateNewManifest_granted hin hall.2).1 hrc
  | upToDate ctx t v hr heq =>
    obtain ⟨hopen, hvalue, -⟩ := compared_of_verified hset hinj hr hall
    refine ⟨rfl, fun _ => ⟨hopen.requests, hopen.calls⟩, ?_⟩
    intro hne
    rw [heq, if_neg hne] at hvalue
    cases hvalue
  | incomparable ctx t v hr herr =>
    obtain ⟨-, hvalue, -⟩ := compared_of_verified hset hinj hr hall
    rw [herr] at hvalue
    split at hvalue
    · cases hvalue
    · cases hvalue
  | unreadable ctx t v₀ _ hr hx =>
    rw [List.forall_mem_append] at hall
    obtain ⟨rfl, hup⟩ := updating_of_changed hset hinj hr hall.1
    cases load_fair hfit hup.manifest (hall.2 _ (List.mem_singleton_self _))
  | noRelease ctx t v hr hrc =>
    rw [List.forall_mem_append] at hall
    obtain ⟨rfl, -⟩ := updating_of_loaded hset hfit hinj hr hall.1
    have hvalue := (fetchRelease_granted v hset.serverUrl hset.inboxDir hfit hall.2).1
    rw [hvalue] at hrc
    exact absurd rfl hrc
  | badPayload ctx t v hr hrc =>
    rw [List.forall_mem_append] at hall
    obtain ⟨rfl, -, hpayload⟩ := updating_of_released hset hfit hinj hr hall.1
    exact absurd (validateRelease_granted hfit hpayload hall.2).1 hrc
  | applied ctx t v hr =>
    rw [List.forall_mem_append] at hall
    obtain ⟨rfl, hup⟩ := updating_of_validated hset hfit hinj hr hall.1
    obtain ⟨hrc, hupdates, hcont⟩ := updates_of_applied hset hfit hup hall.2
    refine ⟨?_, fun h => absurd h hup.differs, fun _ => ⟨hupdates, hcont⟩⟩
    rw [hrc]
    cases daemonMode with
    | true => rfl
    | false => rfl

/-- One iteration of a session: what it is offered, in which mode it runs, and
where it starts. -/
structure Tick where
  offer : Offer
  daemonMode : Bool
  start : World

def Tick.outcome (e : Env) (cfg : OtaConfig) (k : Tick) : Outcome Call Resp World AttemptEnd :=
  run (exec e) (attempt k.daemonMode cfg) k.start

/-- Each iteration starts on the files that the one before has left. Between two
of them time passes, in a pause of the daemon or between two one-shot runs. -/
def Session (e : Env) (cfg : OtaConfig) : World → List Tick → Prop
  | _, [] => True
  | w, k :: ks => k.start.fs = w.fs ∧ Session e cfg (k.outcome e cfg).final ks

/-- The iteration ends with the offered manifest as the current one, updates
exactly when that is news, and is the whole run in one-shot mode. -/
structure Follows (e : Env) (cfg : OtaConfig) (url inbox current : CStr) (k : Tick) : Prop where
  final : contentAt e (k.outcome e cfg).final (join current manifestName) = some k.offer.manifest
  updates : Updates cfg url inbox current k.offer (k.outcome e cfg).trace ↔
    contentAt e k.start (join current manifestName) ≠ some k.offer.manifest
  skips : contentAt e k.start (join current manifestName) = some k.offer.manifest →
    Skips e cfg url current (k.outcome e cfg).trace ∧
      ∀ s ∈ (k.outcome e cfg).trace, contentAt e s.after (join current manifestName) =
        contentAt e k.start (join current manifestName)
  value : (k.outcome e cfg).value = if k.daemonMode then .ended 0 else .returned 0
  oneShot : k.daemonMode = false → ∀ fuel,
    run (exec e) (otaFetchRun (fuel + 1) false cfg) k.start =
      ⟨some 0, (k.outcome e cfg).trace, (k.outcome e cfg).final⟩

/-- An iteration that makes the function return is all of a one-shot run. -/
lemma otaFetchRun_returned {e : Env} {cfg : OtaConfig} {w : World} {rc : ℤ}
    (h : (run (exec e) (attempt false cfg) w).value = .returned rc) (fuel : ℕ) :
    run (exec e) (otaFetchRun (fuel + 1) false cfg) w =
      ⟨some rc, (run (exec e) (attempt false cfg) w).trace,
        (run (exec e) (attempt false cfg) w).final⟩ := by
  unfold otaFetchRun otaFetchLoop
  rw [run_bind, h]
  simp

theorem tick_follows {e : Env} {cfg : OtaConfig} {url inbox current : CStr} {k : Tick}
    (hurl : cfg.serverUrl = some url) (hin : cfg.inboxManifestDir = some inbox)
    (hcur : cfg.currentManifestDir = some current) (hapart : DirsApart e.cwd cfg)
    (hfit : k.offer.Fit e cfg inbox)
    (hfair : ∀ s ∈ (k.outcome e cfg).trace, Fair e cfg url k.offer s)
    (hinj : ∀ b, contentAt e k.start (join current manifestName) = some b →
      e.sha256 b = e.sha256 k.offer.manifest → b = k.offer.manifest) :
    Follows e cfg url inbox current k := by
  obtain ⟨hvalue, hskips, hupdates⟩ :=
    attempt_granted k.daemonMode k.start ⟨hurl, hin, hcur, hapart⟩ hfit hinj hfair
  have hc : Chain (exec e) k.start (k.outcome e cfg).trace (k.outcome e cfg).final :=
    run_chain _ _ _
  have hsame : contentAt e k.start (join current manifestName) = some k.offer.manifest →
      Skips e cfg url current (k.outcome e cfg).trace ∧
      contentAt e (k.outcome e cfg).final (join current manifestName) =
        contentAt e k.start (join current manifestName) ∧
      ∀ s ∈ (k.outcome e cfg).trace, contentAt e s.after (join current manifestName) =
        contentAt e k.start (join current manifestName) := by
    intro h
    have hskip := hskips h
    exact ⟨hskip, chain_contentAt hc fun s hs => (hskip.calls s hs).1⟩
  refine ⟨?_, ⟨?_, fun hne => (hupdates hne).1⟩, fun h => ⟨(hsame h).1, (hsame h).2.2⟩, hvalue,
    ?_⟩
  · by_cases h : contentAt e k.start (join current manifestName) = some k.offer.manifest
    · rw [(hsame h).2.1, h]
    · exact (hupdates h).2
  · intro hup h
    have hreq := hup.requests
    rw [(hsame h).1.requests] at hreq
    have hlen := congrArg List.length hreq
    rw [List.length_append, List.length_singleton] at hlen
    omega
  · intro hmode fuel
    have hret : (run (exec e) (attempt false cfg) k.start).value = .returned 0 := by
      have h := hvalue
      rw [hmode] at h
      exact h
    rw [otaFetchRun_returned hret, Tick.outcome, hmode]

/-- In a session in which all goes well, every iteration follows the server. -/
theorem session_follows (e : Env) (cfg : OtaConfig) (url inbox current : CStr) (w : World)
    (ks : List Tick) (hurl : cfg.serverUrl = some url) (hin : cfg.inboxManifestDir = some inbox)
    (hcur : cfg.currentManifestDir = some current) (hapart : DirsApart e.cwd cfg)
    (hsession : Session e cfg w ks) (hfit : ∀ k ∈ ks, k.offer.Fit e cfg inbox)
    (hfair : ∀ k ∈ ks, ∀ s ∈ (k.outcome e cfg).trace, Fair e cfg url k.offer s)
    (hinj : Set.InjOn e.sha256 {b | contentAt e w (join current manifestName) = some b ∨
      ∃ k ∈ ks, k.offer.manifest = b}) :
    ∀ k ∈ ks, Follows e cfg url inbox current k := by
  -- the current manifest is always the initial one or one that was offered
  induction ks generalizing w with
  | nil => simp
  | cons k ks ih =>
    obtain ⟨hstart, hrest⟩ := hsession
    rw [List.forall_mem_cons] at hfit hfair ⊢
    have hfs : contentAt e k.start (join current manifestName) =
        contentAt e w (join current manifestName) := contentAt_congr hstart _
    have hfirst : Follows e cfg url inbox current k := by
      refine tick_follows hurl hin hcur hapart hfit.1 hfair.1 ?_
      intro b hb hsha
      rw [hfs] at hb
      exact hinj (.inl hb) (.inr ⟨k, List.mem_cons_self .., rfl⟩) hsha
    refine ⟨hfirst, ih _ hrest hfit.2 hfair.2 (hinj.mono ?_)⟩
    rintro b (hb | ⟨k', hk', hb⟩)
    · rw [hfirst.final] at hb
      exact .inr ⟨k, List.mem_cons_self .., Option.some.inj hb⟩
    · exact .inr ⟨k', List.mem_cons_of_mem _ hk', hb⟩

/-- The bundle for the device, offered with these bytes as the manifest. -/
def deviceOffer (manifest : Bytes) : Offer :=
  let file := ⟨some raucBundle, some (text "fw"), some (hexText (padDigest bundleBytes).bytes),
    some (text "b")⟩
  let release := ⟨some (text "cam"), none, none, none, [file]⟩
  { manifest, sig := manifest, cert := manifest, payload := bundleBytes
    doc := ⟨none, none, [release]⟩, release, file, filename := text "fw", path := text "b" }

/-- The same document after a blank, which has another digest. -/
def secondManifest : Bytes := 32 :: manifestBytes

/-- A server that has a new manifest from time 1000 on. -/
def changingEnv : Env :=
  .calm (fun n req =>
      if req.url = text "u/b" then ⟨[bundleBytes], 0, 200⟩
      else ⟨[if n < 1000 then manifestBytes else secondManifest], 0, 200⟩)
    (.ofObject (releaseMembers (text "fw") raucBundle))

def firstTick : Tick := ⟨deviceOffer manifestBytes, false, .at deviceTree⟩

def secondTick : Tick :=
  ⟨deviceOffer manifestBytes, true, (firstTick.outcome changingEnv deviceConfig).final⟩

def thirdTick : Tick :=
  ⟨deviceOffer secondManifest, true,
    { (secondTick.outcome changingEnv deviceConfig).final with clock := 1000 }⟩

lemma deviceOffer_fit {manifest : Bytes}
    (h : manifestParse changingEnv.cjson manifest = some (deviceOffer manifest).doc) :
    (deviceOffer manifest).Fit changingEnv deviceConfig (text "in") where
  parsed := h
  select := by
    change manifestSelectRelease (some (deviceOffer []).doc) (some (text "cam")) =
      some (deviceOffer []).release
    decide
  first := rfl
  named := rfl
  located := rfl
  sha256 := rfl
  fileType := .inr rfl
  elsewhere := by
    change place [] (join (text "in") (text "fw")) ≠ place [] (join (text "in") manifestName)
    decide

/-- An update, an iteration without news, and another update. -/
theorem session_follows_device :
    contentAt changingEnv (secondTick.outcome changingEnv deviceConfig).final
        (text "cur/manifest.json") = some manifestBytes ∧
      gather spawn? (secondTick.outcome changingEnv deviceConfig).trace = [] ∧
      ∀ k ∈ [firstTick, secondTick, thirdTick],
        Follows changingEnv deviceConfig (text "u") (text "in") (text "cur") k := by
  have hsession : Session changingEnv deviceConfig (.at deviceTree)
      [firstTick, secondTick, thirdTick] := by
    refine ⟨by rw [firstTick], by rw [secondTick], by rw [thirdTick], trivial⟩
  have hfit : ∀ k ∈ [firstTick, secondTick, thirdTick],
      k.offer.Fit changingEnv deviceConfig (text "in") := by
    intro k hk
    simp only [List.mem_cons, List.not_mem_nil, or_false] at hk
    rcases hk with rfl | rfl | rfl
    · exact deviceOffer_fit (by decide +kernel)
    · exact deviceOffer_fit (by decide +kernel)
    · exact deviceOffer_fit (by decide +kernel)
  have hinit : contentAt changingEnv (.at deviceTree) (join (text "cur") manifestName) = none := by
    decide +kernel
  refine ⟨by decide +kernel, by decide +kernel, session_follows changingEnv deviceConfig _ _ _
    (.at deviceTree) _ rfl rfl rfl deviceConfig_apart hsession hfit (by decide +kernel) ?_⟩
  have hcases : ∀ b, (contentAt changingEnv (.at deviceTree) (join (text "cur") manifestName) =
      some b ∨ ∃ k ∈ [firstTick, secondTick, thirdTick], k.offer.manifest = b) →
      b = manifestBytes ∨ b = secondManifest := by
    rintro b (hb | ⟨k, hk, rfl⟩)
    · rw [hinit] at hb
      cases hb
    · simp only [List.mem_cons, List.not_mem_nil, or_false] at hk
      rcases hk with rfl | rfl | rfl
      · exact .inl rfl
      · exact .inl rfl
      · exact .inr rfl
  have hne : padDigest manifestBytes ≠ padDigest secondManifest := by decide
  intro b hb b' hb' hsha
  rcases hcases b hb with rfl | rfl <;> rcases hcases b' hb' with rfl | rfl
  · rfl
  · exact absurd hsha hne
  · exact absurd hsha (Ne.symm hne)
  · rfl

/-- The trace of a daemon: iterations, each with a pause after it. -/
inductive Interleaved (e : Env) (cfg : OtaConfig) : List Tick → Trace → Prop where
  | nil : Interleaved e cfg [] []
  | cons (k : Tick) (ks : List Tick) (gap rest : Trace) (hgap : ∀ s ∈ gap, Pause s.call)
      (h : Interleaved e cfg ks rest) :
      Interleaved e cfg (k :: ks) ((k.outcome e cfg).trace ++ (gap ++ rest))

lemma Session.of_fs {e : Env} {cfg : OtaConfig} {w v : World} {ks : List Tick}
    (h : Session e cfg w ks) (hfs : w.fs = v.fs) : Session e cfg v ks := by
  cases ks with
  | nil => trivial
  | cons k ks => exact ⟨h.1.trans hfs, h.2⟩

/-- A daemon's loop makes an iteration, pauses, and stops or goes on from the
files as they are. -/
lemma daemonLoop_trace (e : Env) (cfg : OtaConfig) (interval : ℤ) (fuel : ℕ) (made : ℤ)
    (w : World) :
    ∃ gap : Trace, (∀ s ∈ gap, Pause s.call) ∧
      ((run (exec e) (otaFetchLoop true cfg interval (fuel + 1) made) w).trace =
          (run (exec e) (attempt true cfg) w).trace ++ gap ∨
        ∃ v : World, v.fs = (run (exec e) (attempt true cfg) w).final.fs ∧
          (run (exec e) (otaFetchLoop true cfg interval (fuel + 1) made) w).trace =
            (run (exec e) (attempt true cfg) w).trace ++ (gap ++
              (run (exec e) (otaFetchLoop true cfg interval fuel made) v).trace)) := by
  rw [otaFetchLoop, run_bind]
  generalize run (exec e) (attempt true cfg) w = a
  cases a.value with
  | returned rc => exact ⟨[], by simp, .inl rfl⟩
  | ended rc =>
    have hgap := (calls_of_obeys (pause_obeys (Lawful e) interval) a.final).1
    have hfs : (run (exec e) (pause interval) a.final).final.fs = a.final.fs := rfl
    dsimp only
    rw [if_pos rfl, run_bind]
    cases (run (exec e) (pause interval) a.final).value with
    | true => exact ⟨_, hgap, .inl (by simp)⟩
    | false => exact ⟨_, hgap, .inr ⟨_, hfs, rfl⟩⟩

/-- A daemon's run is a session, whatever is offered in its iterations. -/
theorem otaFetchRun_session (e : Env) (cfg : OtaConfig) (w : World) (offers : List Offer) :
    ∃ ks, Session e cfg w ks ∧ (∀ k ∈ ks, k.daemonMode = true) ∧
      ks.map Tick.offer <+: offers ∧
      Interleaved e cfg ks (run (exec e) (otaFetchRun offers.length true cfg) w).trace := by
  unfold otaFetchRun
  dsimp only
  generalize (if 0 < cfg.updateIntervalSec then cfg.updateIntervalSec else fetchIntervalSec) = i
  induction offers generalizing w with
  | nil => exact ⟨[], trivial, by simp, List.nil_prefix, .nil⟩
  | cons o offers ih =>
    rw [List.length_cons]
    obtain ⟨gap, hgap, hstop | ⟨v, hfs, hgo⟩⟩ := daemonLoop_trace e cfg i offers.length 0 w
    · refine ⟨[⟨o, true, w⟩], ⟨rfl, trivial⟩, by simp, by simp, ?_⟩
      rw [hstop, ← List.append_nil gap]
      exact .cons ⟨o, true, w⟩ [] gap [] hgap .nil
    · obtain ⟨ks, hsession, hmode, hoffers, hinter⟩ := ih v
      refine ⟨⟨o, true, w⟩ :: ks, ⟨rfl, hsession.of_fs hfs⟩, by simpa using hmode, ?_, ?_⟩
      · rw [List.map_cons]
        exact (List.prefix_cons_inj o).mpr hoffers
      · rw [hgo]
        exact .cons ⟨o, true, w⟩ ks gap _ hgap hinter

end OtaFetch.Poll
