import OtaFetch.Update

/-!
# The shape of an iteration and of a run

The control flow of one iteration, said once: which points it can reach, with
the trace up to there, and how it can end. What a stage guarantees is proved
about the stage alone and is put together along these two relations. A run is a
sequence of iterations with pauses between them.
-/
namespace OtaFetch.Iteration
open CPath FileTree Interaction Machine Config Releases Hash Verify Fetch Update

/-- The points of an iteration between its stages. -/
inductive Point where
  | inited | cleaned | fetched | verified | changed | loaded | released | validated
  deriving Repr, DecidableEq

/-- An iteration that starts in `w` reaches the point with this context, trace
and state. -/
inductive Reach (e : Env) (cfg : OtaConfig) (w : World) :
    Point → OtaCtx → Trace → World → Prop where
  | init (w' : World) (ctx : OtaCtx) (hs : exec e w .startCheck = ((), w'))
      (h : (run (exec e) (otaCtxInit cfg) w').value = some ctx) :
      Reach e cfg w .inited ctx
        (⟨w, .startCheck, (), w'⟩ :: (run (exec e) (otaCtxInit cfg) w').trace)
        (run (exec e) (otaCtxInit cfg) w').final
  | clean (ctx : OtaCtx) (t : Trace) (v : World) (hr : Reach e cfg w .inited ctx t v) :
      Reach e cfg w .cleaned ctx (t ++ (run (exec e) (otaInboxCleanup ctx) v).trace)
        (run (exec e) (otaInboxCleanup ctx) v).final
  | fetch (ctx : OtaCtx) (t : Trace) (v : World) (hr : Reach e cfg w .cleaned ctx t v)
      (h : (run (exec e) (fetchNewManifest ctx) v).value = 0) :
      Reach e cfg w .fetched ctx (t ++ (run (exec e) (fetchNewManifest ctx) v).trace)
        (run (exec e) (fetchNewManifest ctx) v).final
  | verify (ctx : OtaCtx) (t : Trace) (v : World) (hr : Reach e cfg w .fetched ctx t v)
      (h : (run (exec e) (validateNewManifest ctx) v).value = 0) :
      Reach e cfg w .verified ctx (t ++ (run (exec e) (validateNewManifest ctx) v).trace)
        (run (exec e) (validateNewManifest ctx) v).final
  | compare (ctx : OtaCtx) (t : Trace) (v : World) (hr : Reach e cfg w .verified ctx t v)
      (h : (run (exec e) (compareManifests ctx) v).value = .neq) :
      Reach e cfg w .changed ctx (t ++ (run (exec e) (compareManifests ctx) v).trace)
        (run (exec e) (compareManifests ctx) v).final
  | load (ctx : OtaCtx) (t : Trace) (v v' : World) (m : Manifest)
      (hr : Reach e cfg w .changed ctx t v)
      (hx : exec e v (.load ctx.inboxManifestPath) = (some m, v')) :
      Reach e cfg w .loaded { ctx with inboxManifest := some m }
        (t ++ [⟨v, .load ctx.inboxManifestPath, some m, v'⟩]) v'
  | release (ctx ctx' : OtaCtx) (t : Trace) (v : World) (hr : Reach e cfg w .loaded ctx t v)
      (h : (run (exec e) (fetchRelease ctx) v).value = (0, ctx')) :
      Reach e cfg w .released ctx' (t ++ (run (exec e) (fetchRelease ctx) v).trace)
        (run (exec e) (fetchRelease ctx) v).final
  | validate (ctx : OtaCtx) (t : Trace) (v : World) (hr : Reach e cfg w .released ctx t v)
      (h : (run (exec e) (validateRelease ctx) v).value = 0) :
      Reach e cfg w .validated ctx (t ++ (run (exec e) (validateRelease ctx) v).trace)
        (run (exec e) (validateRelease ctx) v).final

/-- The ways an iteration that starts in `w` can end. -/
inductive Ends (e : Env) (daemonMode : Bool) (cfg : OtaConfig) (w : World) :
    AttemptEnd → Trace → World → Prop where
  | noCtx (w' : World) (hs : exec e w .startCheck = ((), w'))
      (h : (run (exec e) (otaCtxInit cfg) w').value = none) :
      Ends e daemonMode cfg w (.ended (-1))
        (⟨w, .startCheck, (), w'⟩ :: (run (exec e) (otaCtxInit cfg) w').trace)
        (run (exec e) (otaCtxInit cfg) w').final
  | noManifest (ctx : OtaCtx) (t : Trace) (v : World) (hr : Reach e cfg w .cleaned ctx t v)
      (h : (run (exec e) (fetchNewManifest ctx) v).value ≠ 0) :
      Ends e daemonMode cfg w (.ended (run (exec e) (fetchNewManifest ctx) v).value)
        (t ++ (run (exec e) (fetchNewManifest ctx) v).trace)
        (run (exec e) (fetchNewManifest ctx) v).final
  | badSignature (ctx : OtaCtx) (t : Trace) (v : World) (hr : Reach e cfg w .fetched ctx t v)
      (h : (run (exec e) (validateNewManifest ctx) v).value ≠ 0) :
      Ends e daemonMode cfg w (.ended (run (exec e) (validateNewManifest ctx) v).value)
        (t ++ (run (exec e) (validateNewManifest ctx) v).trace)
        (run (exec e) (validateNewManifest ctx) v).final
  | upToDate (ctx : OtaCtx) (t : Trace) (v : World) (hr : Reach e cfg w .verified ctx t v)
      (h : (run (exec e) (compareManifests ctx) v).value = .eq) :
      Ends e daemonMode cfg w (if daemonMode then .ended 0 else .returned 0)
        (t ++ (run (exec e) (compareManifests ctx) v).trace)
        (run (exec e) (compareManifests ctx) v).final
  | incomparable (ctx : OtaCtx) (t : Trace) (v : World) (hr : Reach e cfg w .verified ctx t v)
      (h : (run (exec e) (compareManifests ctx) v).value = .err) :
      Ends e daemonMode cfg w (.ended (-1))
        (t ++ (run (exec e) (compareManifests ctx) v).trace)
        (run (exec e) (compareManifests ctx) v).final
  | unreadable (ctx : OtaCtx) (t : Trace) (v v' : World) (hr : Reach e cfg w .changed ctx t v)
      (hx : exec e v (.load ctx.inboxManifestPath) = (none, v')) :
      Ends e daemonMode cfg w (.ended (-1))
        (t ++ [⟨v, .load ctx.inboxManifestPath, none, v'⟩]) v'
  | noRelease (ctx : OtaCtx) (t : Trace) (v : World) (hr : Reach e cfg w .loaded ctx t v)
      (h : (run (exec e) (fetchRelease ctx) v).value.1 ≠ 0) :
      Ends e daemonMode cfg w (.ended (run (exec e) (fetchRelease ctx) v).value.1)
        (t ++ (run (exec e) (fetchRelease ctx) v).trace)
        (run (exec e) (fetchRelease ctx) v).final
  | badPayload (ctx : OtaCtx) (t : Trace) (v : World) (hr : Reach e cfg w .released ctx t v)
      (h : (run (exec e) (validateRelease ctx) v).value ≠ 0) :
      Ends e daemonMode cfg w (.ended (run (exec e) (validateRelease ctx) v).value)
        (t ++ (run (exec e) (validateRelease ctx) v).trace)
        (run (exec e) (validateRelease ctx) v).final
  | applied (ctx : OtaCtx) (t : Trace) (v : World) (hr : Reach e cfg w .validated ctx t v) :
      Ends e daemonMode cfg w
        (if (run (exec e) (applyRelease ctx) v).value = 0 ∧ daemonMode = false then
          .returned (run (exec e) (applyRelease ctx) v).value
        else .ended (run (exec e) (applyRelease ctx) v).value)
        (t ++ (run (exec e) (applyRelease ctx) v).trace)
        (run (exec e) (applyRelease ctx) v).final

theorem attempt_ends (e : Env) (daemonMode : Bool) (cfg : OtaConfig) (w : World) :
    Yields (exec e) w (attempt daemonMode cfg) (Ends e daemonMode cfg w) := by
  unfold attempt
  refine Yields.call ?_
  intro u w' hs
  refine Yields.seq (u := ([⟨w, .startCheck, u, w'⟩] : Trace)) ?_
  split
  · rename_i h
    exact Yields.seq_ret (.noCtx w' hs h)
  rename_i ctx h
  have hr1 := Reach.init w' ctx hs h
  refine Yields.seq ?_
  have hr2 := Reach.clean ctx _ _ hr1
  refine Yields.seq ?_
  split
  · rename_i hfetch
    exact Yields.seq_ret (.noManifest ctx _ _ hr2 hfetch)
  rename_i hfetch
  have hr3 := Reach.fetch ctx _ _ hr2 (not_not.mp hfetch)
  refine Yields.seq ?_
  split
  · rename_i hverify
    exact Yields.seq_ret (.badSignature ctx _ _ hr3 hverify)
  rename_i hverify
  have hr4 := Reach.verify ctx _ _ hr3 (not_not.mp hverify)
  refine Yields.seq ?_
  split
  · rename_i hcmp
    have hend : Ends e daemonMode cfg w _ _ _ := .upToDate ctx _ _ hr4 hcmp
    split_ifs with hd
    · rw [if_pos hd] at hend
      exact Yields.seq_ret hend
    · rw [if_neg hd] at hend
      exact Yields.seq_ret hend
  · rename_i hcmp
    exact Yields.seq_ret (.incomparable ctx _ _ hr4 hcmp)
  rename_i hcmp
  have hr5 := Reach.compare ctx _ _ hr4 hcmp
  refine Yields.seq_call ?_
  intro r v hx
  split
  · exact Yields.seq_ret (.unreadable ctx _ _ v hr5 hx)
  rename_i m
  have hr6 := Reach.load ctx _ _ v m hr5 hx
  refine Yields.seq ?_
  split
  rename_i rc ctx' hrel
  split
  · rename_i hrc
    have hend : Ends e daemonMode cfg w _ _ _ := .noRelease _ _ _ hr6 (by rw [hrel]; exact hrc)
    rw [hrel] at hend
    exact Yields.seq_ret hend
  rename_i hrc
  rw [not_not.mp hrc] at hrel
  have hr7 := Reach.release _ ctx' _ _ hr6 hrel
  refine Yields.seq ?_
  split
  · rename_i hvalid
    exact Yields.seq_ret (.badPayload ctx' _ _ hr7 hvalid)
  rename_i hvalid
  have hr8 := Reach.validate ctx' _ _ hr7 (not_not.mp hvalid)
  have hend : Ends e daemonMode cfg w _ _ _ := .applied ctx' _ _ hr8
  refine Yields.seq ?_
  split_ifs with happ
  · rw [if_pos happ] at hend
    exact Yields.seq_ret hend
  · rw [if_neg happ] at hend
    exact Yields.seq_ret hend

/-- The calls between iterations. -/
def Pause (c : Call) : Prop := (∃ n, c = .sleep n) ∨ c = .terminated

lemma pause_obeys (E : (c : Call) → Resp c → Prop) (n : ℤ) :
    Obeys E Pause (fun _ => True) (pause n) :=
  Obeys.call (.inl ⟨n, rfl⟩) (fun _ _ => Obeys.op (.inr rfl) (fun _ _ => trivial))

/-- A step after a pause is part of the pause or lies in what follows. -/
lemma pause_split {e : Env} {n : ℤ} {k : Bool → Proc (Option ℤ)} {w : World} {pre post : Trace}
    {s : Step Call Resp World}
    (ht : (run (exec e) (pause n >>= k) w).trace = pre ++ s :: post) :
    Pause s.call ∨ ∃ gap pre' w' b, pre = gap ++ pre' ∧ Chain (exec e) w gap w' ∧
      (run (exec e) (k b) w').trace = pre' ++ s :: post := by
  rcases run_bind_split ht with ⟨post', hp, -⟩ | ⟨pre', rfl, hk⟩
  · left
    have hcalls := (pause_obeys (Lawful e) n).trace (exec e) w (chain_lawful (run_chain _ _ w))
    exact hcalls.1 s (by rw [hp]; simp)
  · exact .inr ⟨_, pre', _, _, rfl, run_chain _ _ w, hk⟩

/-- A step of a run is a pause or lies in an iteration, which starts from a
state that the steps before it lead to and is part of the run as a whole. -/
theorem otaFetchLoop_step {e : Env} {daemonMode : Bool} {cfg : OtaConfig} {interval : ℤ}
    {fuel : ℕ} {made : ℤ} {w : World} {pre post : Trace} {s : Step Call Resp World}
    (ht : (run (exec e) (otaFetchLoop daemonMode cfg interval fuel made) w).trace =
      pre ++ s :: post) :
    Pause s.call ∨ ∃ before here after rest w', pre = before ++ here ∧ post = after ++ rest ∧
      Chain (exec e) w before w' ∧
      (run (exec e) (attempt daemonMode cfg) w').trace = here ++ s :: after := by
  induction fuel generalizing made w pre with
  | zero => simp [otaFetchLoop] at ht
  | succ fuel ih =>
    unfold otaFetchLoop at ht
    rcases run_bind_split ht with ⟨after, hit, hpost⟩ | ⟨pre₁, rfl, hrest⟩
    · exact .inr ⟨[], pre, after, _, w, rfl, hpost, rfl, hit⟩
    have hfirst := run_chain (exec e) (attempt daemonMode cfg) w
    have hnext : ∀ (n m : ℤ), (run (exec e) (pause n >>= fun b =>
        if b = true then pure (some 0) else otaFetchLoop daemonMode cfg interval fuel m)
        (run (exec e) (attempt daemonMode cfg) w).final).trace = pre₁ ++ s :: post →
        Pause s.call ∨ ∃ before here after rest w',
          (run (exec e) (attempt daemonMode cfg) w).trace ++ pre₁ = before ++ here ∧
          post = after ++ rest ∧ Chain (exec e) w before w' ∧
          (run (exec e) (attempt daemonMode cfg) w').trace = here ++ s :: after := by
      intro n m hn
      rcases pause_split hn with hp | ⟨gap, pre₂, v, b, rfl, hgap, hk⟩
      · exact .inl hp
      split at hk
      · simp at hk
      · rcases ih hk with hp | ⟨before, here, after, rest, w', rfl, hpost, hc, hit⟩
        · exact .inl hp
        · refine .inr ⟨(run (exec e) (attempt daemonMode cfg) w).trace ++ (gap ++ before), here,
            after, rest, w', by simp, hpost, ?_, hit⟩
          exact Chain.append_iff.mpr ⟨_, hfirst, Chain.append_iff.mpr ⟨v, hgap, hc⟩⟩
    split at hrest
    · simp at hrest
    · split_ifs at hrest
      · exact hnext _ _ hrest
      · exact hnext _ _ hrest
      · simp at hrest

/-- The same for a whole run, with the steps of the iteration found in it. -/
theorem otaFetchRun_step {e : Env} {daemonMode : Bool} {cfg : OtaConfig} {fuel : ℕ} {w : World}
    {pre post : Trace} {s : Step Call Resp World}
    (ht : (run (exec e) (otaFetchRun fuel daemonMode cfg) w).trace = pre ++ s :: post) :
    Pause s.call ∨ ∃ before here after w', pre = before ++ here ∧
      (run (exec e) (attempt daemonMode cfg) w').trace = here ++ s :: after ∧
      ∀ y ∈ here ++ s :: after, y ∈ (run (exec e) (otaFetchRun fuel daemonMode cfg) w).trace := by
  rcases otaFetchLoop_step ht with hp | ⟨before, here, after, rest, w', hpre, hpost, -, hit⟩
  · exact .inl hp
  · refine .inr ⟨before, here, after, w', hpre, hit, ?_⟩
    intro y hy
    have hwhole : (run (exec e) (otaFetchRun fuel daemonMode cfg) w).trace =
        before ++ ((here ++ s :: after) ++ rest) := by
      rw [ht, hpre, hpost]
      simp
    rw [hwhole]
    exact List.mem_append_right _ (List.mem_append_left _ hy)

theorem Reach.chain {e : Env} {cfg : OtaConfig} {w v : World} {p : Point} {ctx : OtaCtx}
    {t : Trace} (h : Reach e cfg w p ctx t v) : Chain (exec e) w t v := by
  induction h with
  | init w' ctx hs h => exact ⟨rfl, hs.symm, run_chain _ _ w'⟩
  | load ctx t v v' m hr hx ih =>
    exact Chain.append_iff.mpr ⟨v, ih, rfl, hx.symm, rfl⟩
  | clean _ _ v _ ih => exact Chain.append_iff.mpr ⟨v, ih, run_chain _ _ v⟩
  | fetch _ _ v _ _ ih => exact Chain.append_iff.mpr ⟨v, ih, run_chain _ _ v⟩
  | verify _ _ v _ _ ih => exact Chain.append_iff.mpr ⟨v, ih, run_chain _ _ v⟩
  | compare _ _ v _ _ ih => exact Chain.append_iff.mpr ⟨v, ih, run_chain _ _ v⟩
  | release _ _ _ v _ _ ih => exact Chain.append_iff.mpr ⟨v, ih, run_chain _ _ v⟩
  | validate _ _ v _ _ ih => exact Chain.append_iff.mpr ⟨v, ih, run_chain _ _ v⟩

lemma calls_of_obeys {e : Env} {α : Type} {m : Proc α} {A : Call → Prop} {V : α → Prop}
    (h : Obeys (Lawful e) A V m) (w : World) :
    (∀ s ∈ (run (exec e) m w).trace, A s.call) ∧ V (run (exec e) m w).value :=
  h.trace (exec e) w (chain_lawful (run_chain _ _ w))

theorem Reach.built {e : Env} {cfg : OtaConfig} {w v : World} {p : Point} {ctx : OtaCtx}
    {t : Trace} (h : Reach e cfg w p ctx t v) :
    ∃ inbox current, ctx.Built cfg inbox current := by
  induction h with
  | init w' ctx hs h => exact (calls_of_obeys (otaCtxInit_obeys (Lawful e) cfg) w').2 ctx h
  | load ctx t v v' m hr hx ih =>
    obtain ⟨inbox, current, hb⟩ := ih
    exact ⟨inbox, current, hb.1, hb.2, hb.3, hb.4, hb.5, hb.6, hb.7⟩
  | clean _ _ _ _ ih => exact ih
  | fetch _ _ _ _ _ ih => exact ih
  | verify _ _ _ _ _ ih => exact ih
  | compare _ _ _ _ _ ih => exact ih
  | release ctx ctx' t v hr h ih =>
    obtain ⟨inbox, current, hb⟩ := ih
    have hrel := (calls_of_obeys (fetchRelease_obeys e ctx) v).2
    rw [h] at hrel
    obtain ⟨release, file, dir, filename, path, -, -, -, rfl⟩ := hrel rfl
    exact ⟨inbox, current, hb.1, hb.2, hb.3, hb.4, hb.5, hb.6, hb.7⟩
  | validate _ _ _ _ _ ih => exact ih

/-- What every call of the stages before the last one keeps to, when the
manifests that are loaded satisfy `L`. -/
structure StageCalls (e : Env) (cfg : OtaConfig) (L : Manifest → Prop) (A : Call → Prop) :
    Prop where
  malloc : A .malloc
  cleanup : ∀ {ctx : OtaCtx} {inbox current : CStr} {c : Call}, ctx.Built cfg inbox current →
    CleanupCall ctx c → A c
  newManifest : ∀ {ctx : OtaCtx} {inbox current : CStr} {c : Call}, ctx.Built cfg inbox current →
    NewManifestCall e ctx c → A c
  verify : ∀ ctx : OtaCtx, A (verifyCall ctx)
  compare : ∀ {ctx : OtaCtx} {c : Call}, CompareCall ctx c → A c
  load : ∀ p, A (.load p)
  release : ∀ {ctx : OtaCtx} {inbox current : CStr} {m : Manifest} {c : Call},
    ctx.Built cfg inbox current → ctx.inboxManifest = some m → L m → ReleaseCall e ctx c → A c
  hash : ∀ p, A (.sha256sum p)

/-- Every manifest that the trace loads satisfies `L`. -/
def Loads (L : Manifest → Prop) (t : Trace) : Prop :=
  ∀ s ∈ t, ∀ p m, s.event = ⟨.load p, some m⟩ → L m

lemma Loads.sub {L : Manifest → Prop} {t u : Trace} (h : Loads L u) (hsub : ∀ s ∈ t, s ∈ u) :
    Loads L t :=
  fun s hs => h s (hsub s hs)

lemma Loads.mono {L M : Manifest → Prop} {t : Trace} (h : Loads L t) (hLM : ∀ m, L m → M m) :
    Loads M t :=
  fun s hs p m hev => hLM m (h s hs p m hev)

/-- The first line of an iteration, then calls that keep to `A`. -/
def OpensWith (A : Call → Prop) (t : Trace) : Prop :=
  ∃ s rest, t = s :: rest ∧ s.call = .startCheck ∧ ∀ x ∈ rest, A x.call

lemma OpensWith.mono {A B : Call → Prop} {t : Trace} (h : OpensWith A t) (hAB : ∀ c, A c → B c) :
    OpensWith B t := by
  obtain ⟨s, rest, rfl, hs, hrest⟩ := h
  exact ⟨s, rest, rfl, hs, fun x hx => hAB x.call (hrest x hx)⟩

lemma OpensWith.append {A : Call → Prop} {t u : Trace} (h : OpensWith A t)
    (hu : ∀ x ∈ u, A x.call) : OpensWith A (t ++ u) := by
  obtain ⟨s, rest, rfl, hs, hrest⟩ := h
  refine ⟨s, rest ++ u, rfl, hs, ?_⟩
  intro x hx
  exact (List.mem_append.mp hx).elim (hrest x) (hu x)

lemma OpensWith.mem {A : Call → Prop} {t : Trace} (h : OpensWith A t)
    {x : Step Call Resp World} (hx : x ∈ t) : x.call = .startCheck ∨ A x.call := by
  obtain ⟨s, rest, rfl, hs, hrest⟩ := h
  rcases List.mem_cons.mp hx with rfl | hx
  · exact .inl hs
  · exact .inr (hrest x hx)

/-- The manifest in the context is one the iteration has loaded. -/
lemma Reach.manifest {e : Env} {cfg : OtaConfig} {w v : World} {ctx : OtaCtx} {t : Trace}
    (h : Reach e cfg w .loaded ctx t v) :
    ∃ m, ctx.inboxManifest = some m ∧ ∃ s ∈ t, ∃ p, s.event = ⟨.load p, some m⟩ := by
  cases h with
  | load ctx t v v' m hr hx =>
    exact ⟨m, rfl, _, List.mem_append_right _ (List.mem_singleton_self _), _, rfl⟩

lemma otaCtxInit_calls {e : Env} {cfg : OtaConfig} {L : Manifest → Prop} {A : Call → Prop}
    (hA : StageCalls e cfg L A) (w : World) :
    ∀ x ∈ (run (exec e) (otaCtxInit cfg) w).trace, A x.call := by
  intro x hx
  rw [(calls_of_obeys (otaCtxInit_obeys (Lawful e) cfg) w).1 x hx]
  exact hA.malloc

lemma validateNewManifest_calls {e : Env} {cfg : OtaConfig} {L : Manifest → Prop}
    {A : Call → Prop} (hA : StageCalls e cfg L A) (ctx : OtaCtx) (w : World) :
    ∀ x ∈ (run (exec e) (validateNewManifest ctx) w).trace, A x.call := by
  intro x hx
  rw [(calls_of_obeys (validateNewManifest_obeys (Lawful e) ctx) w).1 x hx]
  exact hA.verify ctx

lemma compareManifests_calls {e : Env} {cfg : OtaConfig} {L : Manifest → Prop} {A : Call → Prop}
    (hA : StageCalls e cfg L A) (ctx : OtaCtx) (w : World) :
    ∀ x ∈ (run (exec e) (compareManifests ctx) w).trace, A x.call :=
  fun x hx => hA.compare ((calls_of_obeys (compareManifests_obeys (Lawful e) ctx) w).1 x hx)

lemma load_calls {e : Env} {cfg : OtaConfig} {L : Manifest → Prop} {A : Call → Prop}
    (hA : StageCalls e cfg L A) (v v' : World) (p : CStr) (r : Option Manifest) :
    ∀ x ∈ ([⟨v, .load p, r, v'⟩] : Trace), A x.call := by
  intro x hx
  rw [List.mem_singleton.mp hx]
  exact hA.load p

lemma validateRelease_calls {e : Env} {cfg : OtaConfig} {L : Manifest → Prop} {A : Call → Prop}
    (hA : StageCalls e cfg L A) (ctx : OtaCtx) (w : World) :
    ∀ x ∈ (run (exec e) (validateRelease ctx) w).trace, A x.call := by
  intro x hx
  rw [(calls_of_obeys (validateRelease_obeys (Lawful e) ctx) w).1 x hx]
  exact hA.hash _

lemma Reach.fetchNewManifest_calls {e : Env} {cfg : OtaConfig} {L : Manifest → Prop}
    {A : Call → Prop} {p : Point} {ctx : OtaCtx} {w v : World} {t : Trace}
    (h : Reach e cfg w p ctx t v) (hA : StageCalls e cfg L A) :
    ∀ x ∈ (run (exec e) (fetchNewManifest ctx) v).trace, A x.call := by
  obtain ⟨inbox, current, hb⟩ := h.built
  exact fun x hx =>
    hA.newManifest hb ((calls_of_obeys (fetchNewManifest_obeys e ctx) v).1 x hx)

lemma Reach.fetchRelease_calls {e : Env} {cfg : OtaConfig} {L : Manifest → Prop}
    {A : Call → Prop} {ctx : OtaCtx} {w v : World} {t : Trace}
    (h : Reach e cfg w .loaded ctx t v) (hA : StageCalls e cfg L A) (hL : Loads L t) :
    ∀ x ∈ (run (exec e) (fetchRelease ctx) v).trace, A x.call := by
  obtain ⟨inbox, current, hb⟩ := h.built
  obtain ⟨m, hm, s, hs, p, hev⟩ := h.manifest
  exact fun x hx =>
    hA.release hb hm (hL s hs p m hev) ((calls_of_obeys (fetchRelease_obeys e ctx) v).1 x hx)

theorem Reach.calls {e : Env} {cfg : OtaConfig} {L : Manifest → Prop} {A : Call → Prop}
    {w v : World} {p : Point} {ctx : OtaCtx} {t : Trace} (h : Reach e cfg w p ctx t v)
    (hA : StageCalls e cfg L A) (hL : Loads L t) : OpensWith A t := by
  induction h with
  | init w' ctx hs h => exact ⟨_, _, rfl, rfl, otaCtxInit_calls hA w'⟩
  | clean ctx t v hr ih =>
    obtain ⟨inbox, current, hb⟩ := hr.built
    refine (ih (hL.sub fun s => List.mem_append_left _)).append ?_
    intro x hx
    exact hA.cleanup hb ((calls_of_obeys (otaInboxCleanup_obeys e ctx) v).1 x hx)
  | fetch ctx t v hr h ih =>
    exact (ih (hL.sub fun s => List.mem_append_left _)).append (hr.fetchNewManifest_calls hA)
  | verify ctx t v hr h ih =>
    exact (ih (hL.sub fun s => List.mem_append_left _)).append (validateNewManifest_calls hA ctx v)
  | compare ctx t v hr h ih =>
    exact (ih (hL.sub fun s => List.mem_append_left _)).append (compareManifests_calls hA ctx v)
  | load ctx t v v' m hr hx ih =>
    exact (ih (hL.sub fun s => List.mem_append_left _)).append (load_calls hA v v' _ _)
  | release ctx ctx' t v hr h ih =>
    have hL' := hL.sub fun s => List.mem_append_left _
    exact (ih hL').append (hr.fetchRelease_calls hA hL')
  | validate ctx t v hr h ih =>
    exact (ih (hL.sub fun s => List.mem_append_left _)).append (validateRelease_calls hA ctx v)

/-- The calls of a whole iteration: those of its last stage come after a payload
was validated. -/
theorem Ends.calls {e : Env} {daemonMode : Bool} {cfg : OtaConfig} {L : Manifest → Prop}
    {A : Call → Prop} {w v : World} {r : AttemptEnd} {t : Trace}
    (h : Ends e daemonMode cfg w r t v) (hA : StageCalls e cfg L A) (hL : Loads L t) :
    OpensWith A t ∨ ∃ ctx t₀ v₀, Reach e cfg w .validated ctx t₀ v₀ ∧ OpensWith A t₀ ∧
      t = t₀ ++ (run (exec e) (applyRelease ctx) v₀).trace := by
  cases h with
  | noCtx w' hs h => exact .inl ⟨_, _, rfl, rfl, otaCtxInit_calls hA w'⟩
  | noManifest ctx t v hr h =>
    exact .inl ((hr.calls hA (hL.sub fun s => List.mem_append_left _)).append
      (hr.fetchNewManifest_calls hA))
  | badSignature ctx t v hr h =>
    exact .inl ((hr.calls hA (hL.sub fun s => List.mem_append_left _)).append
      (validateNewManifest_calls hA ctx v))
  | upToDate ctx t v hr h =>
    exact .inl ((hr.calls hA (hL.sub fun s => List.mem_append_left _)).append
      (compareManifests_calls hA ctx v))
  | incomparable ctx t v hr h =>
    exact .inl ((hr.calls hA (hL.sub fun s => List.mem_append_left _)).append
      (compareManifests_calls hA ctx v))
  | unreadable ctx t v v' hr hx =>
    exact .inl ((hr.calls hA (hL.sub fun s => List.mem_append_left _)).append
      (load_calls hA v _ _ _))
  | noRelease ctx t v hr h =>
    have hL' := hL.sub fun s => List.mem_append_left _
    exact .inl ((hr.calls hA hL').append (hr.fetchRelease_calls hA hL'))
  | badPayload ctx t v hr h =>
    exact .inl ((hr.calls hA (hL.sub fun s => List.mem_append_left _)).append
      (validateRelease_calls hA ctx v))
  | applied ctx t v hr =>
    exact .inr ⟨ctx, t, v, hr, hr.calls hA (hL.sub fun s => List.mem_append_left _), rfl⟩

/-- A step that the earlier stages cannot make lies in the last stage. -/
theorem attempt_late {e : Env} {daemonMode : Bool} {cfg : OtaConfig} {L : Manifest → Prop}
    {A : Call → Prop} {w : World} {here after : Trace} {s : Step Call Resp World}
    (ht : (run (exec e) (attempt daemonMode cfg) w).trace = here ++ s :: after)
    (hA : StageCalls e cfg L A) (hL : Loads L (here ++ s :: after))
    (hstart : s.call ≠ .startCheck) (hlate : ¬ A s.call) :
    ∃ ctx t₀ v₀ pre, Reach e cfg w .validated ctx t₀ v₀ ∧ here = t₀ ++ pre ∧
      (run (exec e) (applyRelease ctx) v₀).trace = pre ++ s :: after := by
  have hends : Ends e daemonMode cfg w _ _ _ := attempt_ends e daemonMode cfg w
  have hnot : ∀ {t : Trace}, OpensWith A t → s ∉ t := by
    intro t hopen hs
    exact (hopen.mem hs).elim hstart hlate
  rw [ht] at hends
  rcases hends.calls hA hL with hopen | ⟨ctx, t₀, v₀, hr, hopen, happ⟩
  · exact absurd (by simp) (hnot hopen)
  · rcases append_split happ.symm with ⟨post, hpre, -⟩ | ⟨pre, hpre, hstage⟩
    · exact absurd (by rw [hpre]; simp) (hnot hopen)
    · exact ⟨ctx, t₀, v₀, pre, hr, hpre, hstage⟩

/-- What every call of a run keeps to. -/
structure RunCalls (e : Env) (cfg : OtaConfig) (L : Manifest → Prop) (A : Call → Prop) : Prop
    extends StageCalls e cfg L A where
  start : A .startCheck
  pause : ∀ {c : Call}, Pause c → A c
  apply : ∀ {ctx : OtaCtx} {inbox current : CStr} {c : Call}, ctx.Built cfg inbox current →
    ApplyCall ctx c → A c

/-- A run keeps to what its stages keep to. -/
theorem otaFetchRun_calls {e : Env} {daemonMode : Bool} {cfg : OtaConfig} {fuel : ℕ} {w : World}
    {L : Manifest → Prop} {A : Call → Prop} (hA : RunCalls e cfg L A)
    (hL : Loads L (run (exec e) (otaFetchRun fuel daemonMode cfg) w).trace) :
    ∀ s ∈ (run (exec e) (otaFetchRun fuel daemonMode cfg) w).trace, A s.call := by
  intro s hs
  obtain ⟨pre, post, ht⟩ := List.append_of_mem hs
  rcases otaFetchRun_step ht with hp | ⟨before, here, after, w', -, hit, hsub⟩
  · exact hA.pause hp
  by_contra hlate
  have hstart : s.call ≠ .startCheck := by
    intro heq
    exact hlate (heq ▸ hA.start)
  obtain ⟨ctx, t₀, v₀, pre', hr, -, happ⟩ :=
    attempt_late hit hA.toStageCalls (hL.sub hsub) hstart hlate
  obtain ⟨inbox, current, hb⟩ := hr.built
  have hcall := (calls_of_obeys (applyRelease_obeys (Lawful e) ctx) v₀).1 s (by rw [happ]; simp)
  exact hlate (hA.apply hb hcall)

/-- Calls that mark neither the start of an iteration nor its last stage. -/
def Early (c : Call) : Prop :=
  c ≠ .startCheck ∧ (∀ argv, c ≠ .spawn argv) ∧ ∀ d x, c ≠ .rename (join d manifestName) x

lemma tmpOf_ne_manifest (s d : CStr) : tmpOf s ≠ join d manifestName := by
  intro h
  have hl := congrArg List.getLast? h
  rw [tmpOf, join, List.getLast?_append_of_ne_nil _ (by decide),
    List.getLast?_append_of_ne_nil _ (by simp), List.getLast?_cons_of_ne_nil (by decide)] at hl
  revert hl
  decide

lemma fetchCall_early {e : Env} {req : CurlRequest} {dest : CStr} {c : Call}
    (h : FetchCall e req dest c) : Early c := by
  rcases h with h | rfl
  · cases h <;> exact ⟨by simp, by simp, by simp⟩
  · refine ⟨by simp, by simp, ?_⟩
    intro d x hx
    injection hx with hx
    exact tmpOf_ne_manifest dest d hx

lemma cleanupCall_early {ctx : OtaCtx} {c : Call} (h : CleanupCall ctx c) : Early c := by
  cases h <;> exact ⟨by simp, by simp, by simp⟩

lemma newManifestCall_early {e : Env} {ctx : OtaCtx} {c : Call} (h : NewManifestCall e ctx c) :
    Early c := by
  cases h with
  | malloc => exact ⟨by simp, by simp, by simp⟩
  | fetch url name dest c hurl hname hc => exact fetchCall_early hc

lemma compareCall_early {ctx : OtaCtx} {c : Call} (h : CompareCall ctx c) : Early c := by
  cases h <;> exact ⟨by simp, by simp, by simp⟩

lemma releaseCall_early {e : Env} {ctx : OtaCtx} {c : Call} (h : ReleaseCall e ctx c) :
    Early c := by
  cases h with
  | malloc => exact ⟨by simp, by simp, by simp⟩
  | fetch _ _ _ _ _ _ c _ _ hc => exact fetchCall_early hc

/-- Everything before the last stage is early. -/
theorem stageCalls_early (e : Env) (cfg : OtaConfig) :
    StageCalls e cfg (fun _ => True) Early where
  malloc := ⟨by simp, by simp, by simp⟩
  cleanup _ h := cleanupCall_early h
  newManifest _ h := newManifestCall_early h
  verify ctx := ⟨by simp, by simp, by simp⟩
  compare h := compareCall_early h
  load p := ⟨by simp, by simp, by simp⟩
  release _ _ _ h := releaseCall_early h
  hash p := ⟨by simp, by simp, by simp⟩

/-- Calls that decide neither the pace of a run nor an install. -/
def Routine : Call → Prop
  | .startCheck | .spawn _ | .waitpid | .sleep _ | .terminated => False
  | _ => True

lemma fetchCall_routine {e : Env} {req : CurlRequest} {dest : CStr} {c : Call}
    (h : FetchCall e req dest c) : Routine c := by
  rcases h with h | rfl
  · cases h <;> trivial
  · trivial

lemma cleanupCall_routine {ctx : OtaCtx} {c : Call} (h : CleanupCall ctx c) : Routine c := by
  cases h <;> trivial

lemma newManifestCall_routine {e : Env} {ctx : OtaCtx} {c : Call}
    (h : NewManifestCall e ctx c) : Routine c := by
  cases h with
  | malloc => trivial
  | fetch url name dest c hurl hname hc => exact fetchCall_routine hc

lemma compareCall_routine {ctx : OtaCtx} {c : Call} (h : CompareCall ctx c) : Routine c := by
  cases h <;> trivial

lemma releaseCall_routine {e : Env} {ctx : OtaCtx} {c : Call} (h : ReleaseCall e ctx c) :
    Routine c := by
  cases h with
  | malloc => trivial
  | fetch _ _ _ _ _ _ c _ _ hc => exact fetchCall_routine hc

/-- Everything between the first line of an iteration and its last stage is routine. -/
theorem stageCalls_routine (e : Env) (cfg : OtaConfig) :
    StageCalls e cfg (fun _ => True) Routine where
  malloc := trivial
  cleanup _ h := cleanupCall_routine h
  newManifest _ h := newManifestCall_routine h
  verify _ := trivial
  compare h := compareCall_routine h
  load _ := trivial
  release _ _ _ h := releaseCall_routine h
  hash _ := trivial

end OtaFetch.Iteration
