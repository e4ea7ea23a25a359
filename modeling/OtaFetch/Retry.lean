import OtaFetch.Gate
import Mathlib.Data.ENat.Lattice

/-!
# One-shot runs

A one-shot run makes attempts until one succeeds, the configured number is used
up, or a termination signal is seen after a failed one. The attempts of a run
are marked in its trace by their first line, the delays by their `sleep`. What
a run of any length does is said once, by how it comes to its end; the return
code and the number of attempts are read off from that.
-/
namespace OtaFetch.Retry
open CPath FileTree Interaction Machine Config Releases Hash Verify Fetch Update Iteration
open Gate

/-- An attempt that starts in `w` succeeds: after the verification the manifest
is found to be the current one, or the release is applied. -/
def Succeeds (e : Env) (cfg : OtaConfig) (w : World) : Prop :=
  (∃ ctx t v, Reach e cfg w .verified ctx t v ∧
    (run (exec e) (compareManifests ctx) v).value = .eq) ∨
  ∃ ctx t v, Reach e cfg w .validated ctx t v ∧ (run (exec e) (applyRelease ctx) v).value = 0

lemma attempt_upToDate {e : Env} {cfg : OtaConfig} {w v : World} {ctx : OtaCtx} {t : Trace}
    (hr : Reach e cfg w .verified ctx t v)
    (heq : (run (exec e) (compareManifests ctx) v).value = .eq) :
    (run (exec e) (attempt false cfg) w).value = .returned 0 := by
  cases hr with
  | verify _ _ _ hr hverify =>
  cases hr with
  | fetch _ _ _ hr hfetch =>
  cases hr with
  | clean _ _ _ hr =>
  cases hr with
  | init w' _ hs hinit =>
    have hstart : (exec e w .startCheck).2 = w' := by rw [hs]
    simp [attempt, run_bind, Prog.op, run_call, hstart, hinit, hfetch, hverify, heq]

lemma attempt_applied {e : Env} {cfg : OtaConfig} {w v : World} {ctx : OtaCtx} {t : Trace}
    (hr : Reach e cfg w .validated ctx t v)
    (hzero : (run (exec e) (applyRelease ctx) v).value = 0) :
    (run (exec e) (attempt false cfg) w).value = .returned 0 := by
  cases hr with
  | validate _ _ _ hr hvalid =>
  cases hr with
  | release _ _ _ _ hr hrelease =>
  cases hr with
  | load _ _ _ _ m hr hload =>
  cases hr with
  | compare _ _ _ hr hneq =>
  cases hr with
  | verify _ _ _ hr hverify =>
  cases hr with
  | fetch _ _ _ hr hfetch =>
  cases hr with
  | clean _ _ _ hr =>
  cases hr with
  | init w' _ hs hinit =>
    have hstart : (exec e w .startCheck).2 = w' := by rw [hs]
    simp [attempt, run_bind, Prog.op, run_call, hstart, hinit, hfetch, hverify, hneq, hload,
      hrelease, hvalid, hzero]

lemma Succeeds.value {e : Env} {cfg : OtaConfig} {w : World} (h : Succeeds e cfg w) :
    (run (exec e) (attempt false cfg) w).value = .returned 0 := by
  rcases h with ⟨ctx, t, v, hr, heq⟩ | ⟨ctx, t, v, hr, hzero⟩
  · exact attempt_upToDate hr heq
  · exact attempt_applied hr hzero

/-- An attempt fails with the code it leaves at `attempt_end`. -/
structure Fails (e : Env) (cfg : OtaConfig) (w : World) (rc : ℤ) : Prop where
  value : (run (exec e) (attempt false cfg) w).value = .ended rc
  nonzero : rc ≠ 0

lemma Fails.not_succeeds {e : Env} {cfg : OtaConfig} {w : World} {rc : ℤ}
    (h : Fails e cfg w rc) : ¬ Succeeds e cfg w := by
  intro hs
  have hv := hs.value
  rw [h.value] at hv
  cases hv

/-- A one-shot attempt succeeds and returns 0, or fails with another code. -/
theorem attempt_succeeds_or_fails (e : Env) (cfg : OtaConfig) (w : World) :
    Succeeds e cfg w ∨ ∃ rc, Fails e cfg w rc := by
  have hend : Yields (exec e) w (attempt false cfg) (fun r _ _ =>
      Succeeds e cfg w ∨ ∃ rc, r = .ended rc ∧ rc ≠ 0) := by
    refine (attempt_ends e false cfg w).mono ?_
    intro r t v h
    cases h with
    | noCtx w' hs h => exact .inr ⟨_, rfl, by decide⟩
    | noManifest ctx t v hr h => exact .inr ⟨_, rfl, h⟩
    | badSignature ctx t v hr h => exact .inr ⟨_, rfl, h⟩
    | upToDate ctx t v hr h => exact .inl (.inl ⟨ctx, t, v, hr, h⟩)
    | incomparable ctx t v hr h => exact .inr ⟨_, rfl, by decide⟩
    | unreadable ctx t v v' hr hx => exact .inr ⟨_, rfl, by decide⟩
    | noRelease ctx t v hr h => exact .inr ⟨_, rfl, h⟩
    | badPayload ctx t v hr h => exact .inr ⟨_, rfl, h⟩
    | applied ctx t v hr =>
      by_cases hzero : (run (exec e) (applyRelease ctx) v).value = 0
      · exact .inl (.inr ⟨ctx, t, v, hr, hzero⟩)
      · exact .inr ⟨_, if_neg (fun h => hzero h.1), hzero⟩
  rcases hend with hs | ⟨rc, hv, hrc⟩
  · exact .inl hs
  · exact .inr ⟨rc, hv, hrc⟩

/-- Calls that mark nothing: neither the start of an attempt nor a pause. -/
def Unmarked (c : Call) : Prop := c ≠ .startCheck ∧ (∀ n, c ≠ .sleep n) ∧ c ≠ .terminated

lemma unmarked_of_routine {c : Call} (h : Routine c) : Unmarked c := by
  cases c with
  | startCheck => exact False.elim h
  | sleep n => exact False.elim h
  | terminated => exact False.elim h
  | _ => exact ⟨by simp, by simp, by simp⟩

lemma unmarked_of_apply {ctx : OtaCtx} {c : Call} (h : ApplyCall ctx c) : Unmarked c := by
  cases h <;> exact ⟨by simp, by simp, by simp⟩

/-- One mark, at its start, and no pause. -/
theorem attempt_opens (e : Env) (daemonMode : Bool) (cfg : OtaConfig) (w : World) :
    OpensWith Unmarked (run (exec e) (attempt daemonMode cfg) w).trace := by
  have hend : Ends e daemonMode cfg w _ _ _ := attempt_ends e daemonMode cfg w
  rcases hend.calls (stageCalls_routine e cfg) (fun _ _ _ _ _ => trivial) with
    hopen | ⟨ctx, t, v, -, hopen, htrace⟩
  · exact hopen.mono fun _ => unmarked_of_routine
  · rw [htrace]
    refine (hopen.mono fun _ => unmarked_of_routine).append ?_
    intro x hx
    exact unmarked_of_apply ((calls_of_obeys (applyRelease_obeys (Lawful e) ctx) v).1 x hx)

/-- Where the attempts of a trace start. -/
def starts (t : Trace) : List World :=
  t.filterMap fun s =>
    match s.call with
    | .startCheck => some s.before
    | _ => none

inductive Mark where
  | attempt
  | delay (seconds : ℤ)
  deriving Repr, DecidableEq

/-- The attempts and delays of a trace, in order. -/
def marks (t : Trace) : List Mark :=
  t.filterMap fun s =>
    match s.call with
    | .startCheck => some .attempt
    | .sleep n => some (.delay n)
    | _ => none

/-- The run saw the termination flag set. -/
def SawSignal (t : Trace) : Prop := ∃ s ∈ t, s.event = ⟨.terminated, true⟩

@[simp] lemma starts_append (t u : Trace) : starts (t ++ u) = starts t ++ starts u :=
  List.filterMap_append

@[simp] lemma marks_append (t u : Trace) : marks (t ++ u) = marks t ++ marks u :=
  List.filterMap_append

@[simp] lemma sawSignal_append (t u : Trace) :
    SawSignal (t ++ u) ↔ SawSignal t ∨ SawSignal u := by
  simp [SawSignal, or_and_right, exists_or]

lemma starts_unmarked {t : Trace} (h : ∀ s ∈ t, Unmarked s.call) : starts t = [] := by
  apply List.filterMap_eq_nil_iff.mpr
  intro s hs
  split
  · rename_i hc
    exact absurd hc (h s hs).1
  · rfl

lemma marks_unmarked {t : Trace} (h : ∀ s ∈ t, Unmarked s.call) : marks t = [] := by
  apply List.filterMap_eq_nil_iff.mpr
  intro s hs
  split
  · rename_i hc
    exact absurd hc (h s hs).1
  · rename_i n hc
    exact absurd hc ((h s hs).2.1 n)
  · rfl

lemma not_sawSignal_unmarked {t : Trace} (h : ∀ s ∈ t, Unmarked s.call) : ¬ SawSignal t := by
  rintro ⟨s, hs, hev⟩
  exact (h s hs).2.2 (congrArg Sigma.fst hev)

/-- An attempt as a run of its own. -/
abbrev tried (e : Env) (cfg : OtaConfig) (w : World) : Outcome Call Resp World AttemptEnd :=
  run (exec e) (attempt false cfg) w

/-- The pause after an attempt. -/
abbrev paused (e : Env) (cfg : OtaConfig) (w : World) : Outcome Call Resp World Bool :=
  run (exec e) (pause retryDelay) (tried e cfg w).final

lemma tried_marks (e : Env) (cfg : OtaConfig) (w : World) :
    starts (tried e cfg w).trace = [w] ∧ marks (tried e cfg w).trace = [.attempt] ∧
      ¬ SawSignal (tried e cfg w).trace := by
  obtain ⟨s, rest, htrace, hs, hrest⟩ := attempt_opens e false cfg w
  have hchain := run_chain (exec e) (attempt false cfg) w
  rw [htrace] at hchain
  have hbefore : s.before = w := hchain.1
  rw [htrace]
  obtain ⟨before, call, reply, after⟩ := s
  obtain rfl : call = .startCheck := hs
  refine ⟨?_, ?_, ?_⟩
  · change before :: starts rest = [w]
    rw [starts_unmarked hrest]
    exact congrArg (· :: []) hbefore
  · change Mark.attempt :: marks rest = [.attempt]
    rw [marks_unmarked hrest]
  · rintro ⟨x, hx, hev⟩
    rcases List.mem_cons.mp hx with rfl | hx
    · cases hev
    · exact not_sawSignal_unmarked hrest ⟨x, hx, hev⟩

lemma paused_marks (e : Env) (cfg : OtaConfig) (w : World) :
    starts (paused e cfg w).trace = [] ∧ marks (paused e cfg w).trace = [.delay retryDelay] ∧
      (SawSignal (paused e cfg w).trace ↔ (paused e cfg w).value = true) := by
  refine ⟨rfl, rfl, ?_⟩
  constructor
  · rintro ⟨s, hs, hev⟩
    rcases List.mem_cons.mp hs with rfl | hs
    · cases hev
    · obtain rfl := List.mem_singleton.mp hs
      exact eq_of_heq (Sigma.mk.inj hev).2
  · intro hv
    refine ⟨_, List.mem_cons_of_mem _ (List.mem_singleton_self _), ?_⟩
    exact Sigma.ext rfl (heq_of_eq hv)

/-- A one-shot run with `made` attempts behind it, by how it comes to its end. -/
inductive Tries (e : Env) (cfg : OtaConfig) : ℤ → World → ℤ → Trace → World → Prop where
  | succeeded (made : ℤ) (w : World) (h : Succeeds e cfg w) :
      Tries e cfg made w 0 (tried e cfg w).trace (tried e cfg w).final
  | gaveUp (made : ℤ) (w : World) (rc : ℤ) (h : Fails e cfg w rc)
      (hlast : cfg.retryAttempts ≤ made + 1) :
      Tries e cfg made w rc (tried e cfg w).trace (tried e cfg w).final
  | stopped (made : ℤ) (w : World) (rc : ℤ) (h : Fails e cfg w rc)
      (hmore : made + 1 < cfg.retryAttempts) (hp : (paused e cfg w).value = true) :
      Tries e cfg made w 0 ((tried e cfg w).trace ++ (paused e cfg w).trace)
        (paused e cfg w).final
  | again (made : ℤ) (w v : World) (rc code : ℤ) (t : Trace) (h : Fails e cfg w rc)
      (hmore : made + 1 < cfg.retryAttempts) (hp : (paused e cfg w).value = false)
      (hrest : Tries e cfg (made + 1) (paused e cfg w).final code t v) :
      Tries e cfg made w code ((tried e cfg w).trace ++ ((paused e cfg w).trace ++ t)) v

/-- With enough fuel the loop always ends, in one of these ways. -/
theorem otaFetchLoop_tries (e : Env) (cfg : OtaConfig) (interval : ℤ) (fuel : ℕ) (made : ℤ)
    (w : World) (hpos : 0 < fuel) (hfuel : cfg.retryAttempts - made ≤ fuel) :
    Yields (exec e) w (otaFetchLoop false cfg interval fuel made)
      (fun r t v => ∃ rc, r = some rc ∧ Tries e cfg made w rc t v) := by
  induction fuel generalizing made w with
  | zero => omega
  | succ fuel ih =>
    unfold otaFetchLoop
    rcases attempt_succeeds_or_fails e cfg w with hs | ⟨rc, hf⟩
    · refine Yields.bind_value hs.value (Yields.ret ⟨0, rfl, ?_⟩)
      rw [List.append_nil]
      exact .succeeded made w hs
    · refine Yields.bind_value hf.value ?_
      dsimp only
      rw [if_neg (by simp)]
      by_cases hmore : made + 1 < cfg.retryAttempts
      · rw [if_pos hmore]
        cases hp : (paused e cfg w).value with
        | true =>
          refine Yields.bind_value hp (Yields.ret ⟨0, rfl, ?_⟩)
          rw [List.append_nil]
          exact .stopped made w rc hf hmore hp
        | false =>
          refine Yields.bind_value hp ?_
          refine (ih (made + 1) (paused e cfg w).final (by omega) (by omega)).mono ?_
          rintro r t v ⟨code, rfl, hrest⟩
          exact ⟨code, rfl, .again made w v rc code t hf hmore hp hrest⟩
      · rw [if_neg hmore]
        refine Yields.ret ⟨rc, rfl, ?_⟩
        rw [List.append_nil]
        exact .gaveUp made w rc hf (by omega)

/-- Where the attempts of a run that is never stopped start. -/
def attemptStart (e : Env) (cfg : OtaConfig) : World → ℕ → World
  | w, 0 => w
  | w, i + 1 => attemptStart e cfg (paused e cfg w).final i

inductive Verdict where
  | succeeded | gaveUp | stopped
  deriving Repr, DecidableEq

/-- A run of `n + 1` attempts, of which all but the last have failed. -/
structure Course (e : Env) (cfg : OtaConfig) (made : ℤ) (w : World) (verdict : Verdict) (n : ℕ)
    (rc : ℤ) (t : Trace) (v : World) : Prop where
  starts : starts t = (List.range (n + 1)).map (attemptStart e cfg w)
  failed : ∀ i < n, ¬ Succeeds e cfg (attemptStart e cfg w i)
  allowed : n = 0 ∨ made + n < cfg.retryAttempts
  last : Succeeds e cfg (attemptStart e cfg w n) ↔ verdict = .succeeded
  code : rc = 0 ↔ verdict ≠ .gaveUp
  exhausted : verdict = .gaveUp → cfg.retryAttempts ≤ made + n + 1
  sawSignal : SawSignal t ↔ verdict = .stopped
  marks : verdict ≠ .stopped →
    marks t = (List.replicate (n + 1) Mark.attempt).intersperse (.delay retryDelay)

/-- One more failed attempt in front of a run. -/
lemma Course.again {e : Env} {cfg : OtaConfig} {made : ℤ} {w v : World} {verdict : Verdict}
    {n : ℕ} {rc code : ℤ} {t : Trace} (hf : Fails e cfg w rc)
    (hmore : made + 1 < cfg.retryAttempts) (hp : (paused e cfg w).value = false)
    (h : Course e cfg (made + 1) (paused e cfg w).final verdict n code t v) :
    Course e cfg made w verdict (n + 1) code
      ((tried e cfg w).trace ++ ((paused e cfg w).trace ++ t)) v := by
  obtain ⟨hstarts, hmarks, hsaw⟩ := tried_marks e cfg w
  obtain ⟨hstarts', hmarks', hsaw'⟩ := paused_marks e cfg w
  refine ⟨?_, ?_, .inr ?_, h.last, h.code, ?_, ?_, ?_⟩
  · have hrange : List.range (n + 1 + 1) = 0 :: (List.range (n + 1)).map Nat.succ :=
      List.range_succ_eq_map
    rw [starts_append, starts_append, hstarts, hstarts', h.starts, hrange, List.map_cons,
      List.map_map]
    rfl
  · intro i hi
    cases i with
    | zero => exact hf.not_succeeds
    | succ i => exact h.failed i (by omega)
  · have hallowed := h.allowed
    push_cast
    omega
  · intro hv
    have hexhausted := h.exhausted hv
    push_cast
    omega
  · rw [sawSignal_append, sawSignal_append, hsaw', h.sawSignal]
    simp [hsaw, hp]
  · intro hv
    rw [marks_append, marks_append, hmarks, hmarks', h.marks hv, List.replicate_succ]
    rfl

theorem Tries.course {e : Env} {cfg : OtaConfig} {made : ℤ} {w v : World} {rc : ℤ} {t : Trace}
    (h : Tries e cfg made w rc t v) : ∃ verdict n, Course e cfg made w verdict n rc t v := by
  induction h with
  | succeeded made w h =>
    obtain ⟨hstarts, hmarks, hsaw⟩ := tried_marks e cfg w
    exact ⟨.succeeded, 0, hstarts, by simp, .inl rfl, by simpa [attemptStart] using h, by simp,
      by simp, by simpa using hsaw, fun _ => hmarks⟩
  | gaveUp made w rc h hlast =>
    obtain ⟨hstarts, hmarks, hsaw⟩ := tried_marks e cfg w
    exact ⟨.gaveUp, 0, hstarts, by simp, .inl rfl, by simpa [attemptStart] using h.not_succeeds,
      by simpa using h.nonzero, by simpa using hlast, by simpa using hsaw, fun _ => hmarks⟩
  | stopped made w rc h hmore hp =>
    obtain ⟨hstarts, -, -⟩ := tried_marks e cfg w
    obtain ⟨hstarts', -, hsaw'⟩ := paused_marks e cfg w
    refine ⟨.stopped, 0, ?_, by simp, .inl rfl, by simpa [attemptStart] using h.not_succeeds,
      by simp, by simp, ?_, by simp⟩
    · rw [starts_append, hstarts, hstarts']
      rfl
    · rw [sawSignal_append, hsaw']
      simp [hp]
  | again made w v rc code t h hmore hp hrest ih =>
    obtain ⟨verdict, n, hcourse⟩ := ih
    exact ⟨verdict, n + 1, hcourse.again h hmore hp⟩

theorem otaFetchRun_course (e : Env) (cfg : OtaConfig) (fuel : ℕ) (w : World) (hpos : 0 < fuel)
    (hfuel : cfg.retryAttempts ≤ fuel) :
    Yields (exec e) w (otaFetchRun fuel false cfg) (fun r t v =>
      ∃ rc verdict n, r = some rc ∧ Course e cfg 0 w verdict n rc t v) := by
  have htries := otaFetchLoop_tries e cfg
    (if 0 < cfg.updateIntervalSec then cfg.updateIntervalSec else fetchIntervalSec) fuel 0 w hpos
    (by omega)
  refine htries.mono ?_
  intro r t v h
  obtain ⟨rc, hr, ht⟩ := h
  obtain ⟨verdict, n, hcourse⟩ := ht.course
  exact ⟨rc, verdict, n, hr, hcourse⟩

/-- The return code is 0 exactly when the last attempt succeeded. -/
def ExitTruthful (e : Env) (cfg : OtaConfig) (o : Outcome Call Resp World (Option ℤ)) : Prop :=
  ∃ last, (starts o.trace).getLast? = some last ∧ (o.value = some 0 ↔ Succeeds e cfg last)

lemma Course.getLast {e : Env} {cfg : OtaConfig} {made : ℤ} {w v : World} {verdict : Verdict}
    {n : ℕ} {rc : ℤ} {t : Trace} (h : Course e cfg made w verdict n rc t v) :
    (Retry.starts t).getLast? = some (attemptStart e cfg w n) := by
  rw [h.starts, List.range_succ, List.map_append]
  simp

/-- A one-shot run always returns, and its return code tells the truth exactly
when the run was not stopped by a signal. -/
theorem otaFetchRun_exit_iff (e : Env) (cfg : OtaConfig) (fuel : ℕ) (w : World) (hpos : 0 < fuel)
    (hfuel : cfg.retryAttempts ≤ fuel) :
    let o := run (exec e) (otaFetchRun fuel false cfg) w
    (∃ rc, o.value = some rc) ∧ (ExitTruthful e cfg o ↔ ¬ SawSignal o.trace) := by
  intro o
  obtain ⟨rc, verdict, n, hr, hcourse⟩ :
      ∃ rc verdict n, o.value = some rc ∧ Course e cfg 0 w verdict n rc o.trace o.final :=
    otaFetchRun_course e cfg fuel w hpos hfuel
  refine ⟨⟨rc, hr⟩, ?_⟩
  have hexit : ExitTruthful e cfg o ↔ (verdict ≠ .gaveUp ↔ verdict = .succeeded) := by
    unfold ExitTruthful
    rw [hcourse.getLast, hr, Option.some_inj, hcourse.code]
    constructor
    · rintro ⟨last, hlast, hiff⟩
      obtain rfl := Option.some.inj hlast
      rw [hiff, hcourse.last]
    · intro hiff
      exact ⟨_, rfl, by rw [hiff, hcourse.last]⟩
  rw [hexit, hcourse.sawSignal]
  cases verdict <;> simp

def retryTwice : OtaConfig := { deviceConfig with retryAttempts := 2 }

/-- The server cannot be reached. -/
def unreachableEnv (signal : ℕ → Bool) : Env :=
  { deviceEnv (text "fw") raucBundle with
    server := fun _ _ => ⟨[], 7, 0⟩
    signal := signal }

theorem otaFetchRun_exit_device :
    ExitTruthful (unreachableEnv fun _ => false) retryTwice
      (run (exec (unreachableEnv fun _ => false)) (otaFetchRun 2 false retryTwice)
        (.at deviceTree)) := by
  refine (otaFetchRun_exit_iff _ retryTwice 2 _ (by decide) (by decide)).2.mpr ?_
  rintro ⟨s, hs, hev⟩
  have hfalse : ∀ x ∈ (run (exec (unreachableEnv fun _ => false)) (otaFetchRun 2 false retryTwice)
      (.at deviceTree)).trace, x.before.terminate = false := by decide +kernel
  have hreply := step_event ((run_chain _ _ _).answer hs) hev
  have hflag : s.before.terminate = true := congrArg Prod.fst hreply
  rw [hfalse s hs] at hflag
  cases hflag

/-- The only attempt fails, the signal ends the run before the second, and the
run returns 0. -/
theorem otaFetchRun_reports_success :
    ¬ ExitTruthful (unreachableEnv fun n => n == 3) retryTwice
      (run (exec (unreachableEnv fun n => n == 3)) (otaFetchRun 2 false retryTwice)
        (.at deviceTree)) := by
  rintro ⟨last, hlast, hiff⟩
  have hvalue : (run (exec (unreachableEnv fun n => n == 3)) (otaFetchRun 2 false retryTwice)
      (.at deviceTree)).value = some 0 := by decide +kernel
  have hone : (starts (run (exec (unreachableEnv fun n => n == 3)) (otaFetchRun 2 false retryTwice)
      (.at deviceTree)).trace).length = 1 := by decide +kernel
  obtain ⟨rc, verdict, n, -, hcourse⟩ :=
    otaFetchRun_course (unreachableEnv fun n => n == 3) retryTwice 2 (.at deviceTree) (by decide)
      (by decide)
  rw [hcourse.starts, List.length_map, List.length_range] at hone
  obtain rfl : n = 0 := by omega
  rw [hcourse.getLast] at hlast
  obtain rfl := Option.some.inj hlast
  have hsucc := (hiff.mp hvalue).value
  have hfail : (run (exec (unreachableEnv fun n => n == 3)) (attempt false retryTwice)
      (.at deviceTree)).value = .ended 1 := by decide +kernel
  rw [attemptStart, hfail] at hsucc
  cases hsucc

/-- `INT_MAX`. -/
def intMax : ℤ := 2147483647

/-- The counter does not fit into its `int`. -/
inductive Overflow where
  | overflow
  deriving Repr, DecidableEq

/-- The one-shot loop with `attempt++` as the increment of an `int`. -/
def countedLoop (cfg : OtaConfig) : ℕ → ℤ → Proc (Except Overflow (Option ℤ))
  | 0, _ => pure (.ok none)
  | fuel + 1, made => do
    match ← attempt false cfg with
    | .returned rc => pure (.ok (some rc))
    | .ended rc =>
      if intMax ≤ made then pure (.error .overflow)
      else if made + 1 < cfg.retryAttempts then
        if ← pause retryDelay then pure (.ok (some 0)) else countedLoop cfg fuel (made + 1)
      else pure (.ok (some rc))

/-- The counter never overflows. -/
theorem countedLoop_ok (cfg : OtaConfig) (interval : ℤ) (fuel : ℕ) (made : ℤ)
    (hint : cfg.retryAttempts ≤ intMax) (hmade : made < intMax) :
    countedLoop cfg fuel made =
      (do pure (.ok (← otaFetchLoop false cfg interval fuel made))) := by
  induction fuel generalizing made with
  | zero => rfl
  | succ fuel ih =>
    rw [countedLoop, otaFetchLoop, Prog.bind_assoc]
    refine congrArg (attempt false cfg >>= ·) (funext ?_)
    intro a
    cases a with
    | returned rc => rfl
    | ended rc =>
      have hshot : ¬ (false = true) := by decide
      dsimp only
      rw [if_neg (not_le.mpr hmade), if_neg hshot]
      by_cases hmore : made + 1 < cfg.retryAttempts
      · rw [if_pos hmore, if_pos hmore, Prog.bind_assoc]
        refine congrArg (pause retryDelay >>= ·) (funext ?_)
        intro stop
        cases stop with
        | true => rfl
        | false => exact ih (made + 1) (by omega)
      · rw [if_neg hmore, if_neg hmore]
        rfl

/-- The number of the first attempt that succeeds, if attempts go on. -/
noncomputable def firstSuccess (e : Env) (cfg : OtaConfig) (w : World) : ℕ∞ :=
  ⨅ i ∈ {i : ℕ | Succeeds e cfg (attemptStart e cfg w i)}, (i + 1 : ℕ∞)

lemma Course.length_eq {e : Env} {cfg : OtaConfig} {w v : World} {verdict : Verdict} {n : ℕ}
    {rc : ℤ} {t : Trace} (h : Course e cfg 0 w verdict n rc t v) (hv : verdict ≠ .stopped) :
    ((n + 1 : ℕ) : ℕ∞) = min (firstSuccess e cfg w) (max 1 cfg.retryAttempts.toNat : ℕ) := by
  have hallowed := h.allowed
  have hle : n + 1 ≤ max 1 cfg.retryAttempts.toNat := by omega
  have hfirst : ((n + 1 : ℕ) : ℕ∞) ≤ firstSuccess e cfg w := by
    refine le_iInf₂ ?_
    intro i hi
    have hni : n ≤ i := by
      by_contra hlt
      exact h.failed i (by omega) hi
    exact_mod_cast Nat.succ_le_succ hni
  apply le_antisymm
  · exact le_min hfirst (by exact_mod_cast hle)
  · cases verdict with
    | stopped => exact absurd rfl hv
    | succeeded =>
      refine (min_le_left _ _).trans ?_
      have hlast : n ∈ {i : ℕ | Succeeds e cfg (attemptStart e cfg w i)} := h.last.mpr rfl
      exact_mod_cast iInf₂_le n hlast
    | gaveUp =>
      have hexhausted := h.exhausted rfl
      refine (min_le_right _ _).trans ?_
      have hmax : max 1 cfg.retryAttempts.toNat ≤ n + 1 := by omega
      exact_mod_cast hmax

/-- A one-shot run ends after at most `max(1, retry_attempts)` attempts, with a
counter that fits, and makes none after a success. Without a signal it goes on
until the first success or the last allowed attempt, with one delay between two
attempts. -/
theorem otaFetchRun_attempts (e : Env) (cfg : OtaConfig) (fuel : ℕ) (w : World) (hpos : 0 < fuel)
    (hfuel : cfg.retryAttempts ≤ fuel) (hint : cfg.retryAttempts ≤ intMax) :
    let o := run (exec e) (otaFetchRun fuel false cfg) w
    (∃ rc, o.value = some rc) ∧
    (starts o.trace).length ≤ max 1 cfg.retryAttempts.toNat ∧
    countedLoop cfg fuel 0 = (do pure (.ok (← otaFetchRun fuel false cfg))) ∧
    (∀ w' ∈ (starts o.trace).dropLast, ¬ Succeeds e cfg w') ∧
    (o.final.terminate = false →
      ((starts o.trace).length : ℕ∞) =
        min (firstSuccess e cfg w) (max 1 cfg.retryAttempts.toNat : ℕ) ∧
      marks o.trace =
        (List.replicate (starts o.trace).length Mark.attempt).intersperse (.delay retryDelay)) := by
  intro o
  obtain ⟨rc, verdict, n, hr, hcourse⟩ :
      ∃ rc verdict n, o.value = some rc ∧ Course e cfg 0 w verdict n rc o.trace o.final :=
    otaFetchRun_course e cfg fuel w hpos hfuel
  have hlen : (starts o.trace).length = n + 1 := by
    rw [hcourse.starts, List.length_map, List.length_range]
  have hallowed := hcourse.allowed
  refine ⟨⟨rc, hr⟩, by omega, countedLoop_ok cfg _ fuel 0 hint (by decide), ?_, ?_⟩
  · intro w' hw'
    rw [hcourse.starts, List.range_succ, List.map_append, List.map_singleton,
      List.dropLast_concat] at hw'
    obtain ⟨i, hi, rfl⟩ := List.mem_map.mp hw'
    exact hcourse.failed i (List.mem_range.mp hi)
  · intro hquiet
    have hv : verdict ≠ .stopped := by
      intro hv
      obtain ⟨s, hs, hev⟩ := hcourse.sawSignal.mpr hv
      have hc := run_chain (exec e) (otaFetchRun fuel false cfg) w
      have hflag : s.before.terminate = true :=
        congrArg Prod.fst (step_event (hc.answer hs) hev)
      have hfin := ((chain_terminate hc).2 s hs).1 hflag
      rw [hquiet] at hfin
      cases hfin
    rw [hlen]
    exact ⟨hcourse.length_eq hv, hcourse.marks hv⟩

theorem otaFetchRun_attempts_device :
    marks (run (exec (unreachableEnv fun _ => false)) (otaFetchRun 2 false retryTwice)
      (.at deviceTree)).trace = [.attempt, .delay 5, .attempt] := by
  have hlen : (starts (run (exec (unreachableEnv fun _ => false)) (otaFetchRun 2 false retryTwice)
      (.at deviceTree)).trace).length = 2 := by decide +kernel
  have hrun := (otaFetchRun_attempts (unreachableEnv fun _ => false) retryTwice 2 (.at deviceTree)
    (by decide) (by decide) (by decide)).2.2.2.2 (by decide +kernel)
  rw [hlen] at hrun
  exact hrun.2

end OtaFetch.Retry
