import OtaFetch.Interleave
import OtaFetch.Gate

/-!
# The installer as a child process

`apply_release` forks `rauc install` and waits for it. The children run beside
the process and end when they like, and a signal can come in at any time. The
handlers are installed without `SA_RESTART`, so a `waitpid` that blocks returns
with `EINTR` after one of them has run. The process then goes on without knowing
how its child ends, and the flag that the handler has set is all that keeps it
from spawning another.
-/
namespace OtaFetch.Install
open CPath FileTree Interaction Machine Config Releases Hash Verify Fetch Update Iteration
open Stages Gate Interleave

/-- A child that has not been reaped. -/
inductive Child where
  | running
  | ended (status : WaitStatus)
  deriving Repr, DecidableEq

/-- `g_terminate`, and the children that have not been reaped, the last one first. -/
structure Procs where
  terminate : Bool
  children : List Child
  deriving Repr, DecidableEq

/-- A signal comes in, or a child comes to its end. -/
inductive Other : Procs → Procs → Prop where
  | signal (s : Procs) : Other s { s with terminate := true }
  | exit (b : Bool) (pre post : List Child) (status : WaitStatus) :
      Other ⟨b, pre ++ .running :: post⟩ ⟨b, pre ++ .ended status :: post⟩

/-- The calls that have to do with children and signals. -/
def ProcessCall : Call → Prop
  | .spawn _ | .waitpid | .terminated => True
  | _ => False

/-- `waitpid` waits for the child spawned last: it returns once that child has
ended, or with `EINTR` once a handler has run. Every other call gets any lawful
reply. -/
inductive Answer (e : Env) : Procs → (c : Call) → Resp c → Procs → Prop where
  | forked (s : Procs) (argv : List CStr) :
      Answer e s (.spawn argv) (.ok ()) { s with children := .running :: s.children }
  | unforked (s : Procs) (argv : List CStr) (err : Errno) :
      Answer e s (.spawn argv) (.error err) s
  | reaped (b : Bool) (status : WaitStatus) (rest : List Child) :
      Answer e ⟨b, .ended status :: rest⟩ .waitpid (.ok status) ⟨b, rest⟩
  | interrupted (child : Child) (rest : List Child) :
      Answer e ⟨true, child :: rest⟩ .waitpid (.error .eintr) ⟨true, child :: rest⟩
  | childless (b : Bool) (r : Except Errno WaitStatus) : Answer e ⟨b, []⟩ .waitpid r ⟨b, []⟩
  | flag (s : Procs) : Answer e s .terminated s.terminate s
  | plain (s : Procs) (c : Call) (r : Resp c) (hc : ¬ ProcessCall c) (hr : Lawful e c r) :
      Answer e s c r s

/-- The process among its children. -/
def procs (e : Env) : Shared Call Resp Procs := ⟨Other, Answer e⟩

/-- No install is started while an earlier one has not been reaped. -/
def Apart (s : Procs) (c : Call) : Prop := ∀ argv, c = .spawn argv → s.children = []

/-- Nothing is left to reap. -/
def Reaped (s : Procs) : Prop := s.children = []

/-- Nothing is left to reap, or a handler has run. -/
def ReapedOrWarned (s : Procs) : Prop := s.children = [] ∨ s.terminate = true

lemma reaped_stable (e : Env) : (procs e).Stable Reaped := by
  intro s s' h hs
  cases h with
  | signal s => exact hs
  | exit b pre post status => simp [Reaped] at hs

lemma reapedOrWarned_stable (e : Env) : (procs e).Stable ReapedOrWarned := by
  intro s s' h hs
  cases h with
  | signal s => exact .inr rfl
  | exit b pre post status =>
    rcases hs with hs | hs
    · simp at hs
    · exact .inr hs

lemma one_stable (e : Env) : (procs e).Stable (fun s => ∃ child, s.children = [child]) := by
  intro s s' h hs
  cases h with
  | signal s => exact hs
  | exit b pre post status =>
    obtain ⟨child, hc⟩ := hs
    cases pre with
    | nil =>
      obtain ⟨-, rfl⟩ := List.cons_eq_cons.mp hc
      exact ⟨.ended status, rfl⟩
    | cons c cs => simp at hc

lemma true_stable (e : Env) : (procs e).Stable (fun _ => True) := fun _ _ _ _ => trivial

lemma answer_plain {e : Env} {s s' : Procs} {c : Call} {r : Resp c} (hc : ¬ ProcessCall c)
    (h : Answer e s c r s') : Lawful e c r ∧ s' = s := by
  cases h with
  | forked => exact absurd trivial hc
  | unforked => exact absurd trivial hc
  | reaped => exact absurd trivial hc
  | interrupted => exact absurd trivial hc
  | childless => exact absurd trivial hc
  | flag => exact absurd trivial hc
  | plain _ _ _ _ hr => exact ⟨hr, rfl⟩

lemma answer_spawn {e : Env} {s s' : Procs} {argv : List CStr} {r : Except Errno Unit}
    (h : Answer e s (.spawn argv) r s') :
    (r = .ok () ∧ s'.children = .running :: s.children) ∨ ∃ err, r = .error err ∧ s' = s := by
  cases h with
  | forked => exact .inl ⟨rfl, rfl⟩
  | unforked _ _ err => exact .inr ⟨err, rfl, rfl⟩
  | plain _ _ _ hc => exact absurd trivial hc

/-- A wait for the only child reaps it or is interrupted by a handler. -/
lemma answer_waitpid {e : Env} {s s' : Procs} {r : Except Errno WaitStatus}
    (hs : ∃ child, s.children = [child]) (h : Answer e s .waitpid r s') :
    (∃ status, r = .ok status ∧ Reaped s') ∨ (r = .error .eintr ∧ s'.terminate = true) := by
  obtain ⟨child, hc⟩ := hs
  cases h with
  | reaped b status rest => exact .inl ⟨status, rfl, (List.cons_eq_cons.mp hc).2⟩
  | interrupted child rest => exact .inr ⟨rfl, rfl⟩
  | childless b => cases hc
  | plain _ _ _ hp => exact absurd trivial hp

lemma answer_terminated {e : Env} {s s' : Procs} {r : Bool} (h : Answer e s .terminated r s') :
    r = s.terminate ∧ s' = s := by
  cases h with
  | flag => exact ⟨rfl, rfl⟩
  | plain _ _ _ hc => exact absurd trivial hc

lemma not_processCall_of_routine {c : Call} (h : Routine c) : ¬ ProcessCall c := by
  cases c with
  | spawn argv => exact False.elim h
  | waitpid => exact False.elim h
  | terminated => exact False.elim h
  | _ => exact id

lemma apart_of_plain {s : Procs} {c : Call} (hc : ¬ ProcessCall c) : Apart s c := by
  rintro argv rfl
  exact absurd trivial hc

/-- A stage of routine calls leaves nothing to reap if nothing was. -/
lemma outline_of_routine {e : Env} {α : Type} {m : Proc α} {B : Call → Prop} {V : α → Prop}
    {s : Procs} (hm : Obeys (Lawful e) B V m) (hB : ∀ c, B c → Routine c) (hs : Reaped s) :
    Outline (procs e) Apart (fun _ s => Reaped s) m s := by
  have hplain : Obeys (Lawful e) (fun c => ¬ ProcessCall c) (fun _ => True) m :=
    hm.mono (fun _ _ => id) (fun c hc => not_processCall_of_routine (hB c hc))
      (fun _ _ => trivial)
  have hout := Outline.of_obeys (S := procs e) (A := Apart) hplain (reaped_stable e) hs
    (fun _ _ _ hc => apart_of_plain hc) (fun s c r s' hs hc hans => by
      obtain ⟨hr, rfl⟩ := answer_plain hc hans
      exact ⟨hr, hs⟩)
  exact hout.mono fun _ _ h => h.2

/-- A plain call, from a stable condition that it keeps. -/
lemma outline_call {e : Env} {α : Type} {Q : α → Procs → Prop} {I : Procs → Prop} {c : Call}
    {f : Resp c → Proc α} {s : Procs} (hc : ¬ ProcessCall c) (hI : (procs e).Stable I) (hs : I s)
    (hf : ∀ r s, I s → Outline (procs e) Apart Q (f r) s) :
    Outline (procs e) Apart Q (Prog.op c >>= f) s := by
  refine Outline.call hI hs (fun _ _ => apart_of_plain hc) ?_
  intro s' r s'' hs' hans
  obtain ⟨-, rfl⟩ := answer_plain hc hans
  exact hf r _ hs'

lemma outline_ret {e : Env} {α : Type} {I : Procs → Prop} {a : α} {s : Procs}
    (hI : (procs e).Stable I) (hs : I s) :
    Outline (procs e) Apart (fun _ s => I s) (.ret a : Proc α) s :=
  Outline.ret hI hs

/-- After the install the child is reaped, unless a handler has run. -/
theorem applyRelease_outline (e : Env) (ctx : OtaCtx) {s : Procs} (hs : Reaped s) :
    Outline (procs e) Apart (fun _ s => ReapedOrWarned s) (applyRelease ctx) s := by
  have hwarned := reapedOrWarned_stable e
  have hmove : ∀ {s : Procs}, Reaped s →
      Outline (procs e) Apart (fun _ s => Reaped s) (makeNewManifestCurrent ctx) s := fun hs =>
    outline_of_routine
      (makeNewManifestCurrent_obeys (Lawful e) ctx (fun _ _ _ _ _ _ => trivial) trivial trivial)
      (fun _ => id) hs
  unfold applyRelease
  split
  · exact outline_ret hwarned (.inl hs)
  split_ifs
  · refine (hmove hs).bind ?_
    intro rc s hs
    split <;> exact outline_ret hwarned (.inl hs)
  · refine Outline.call (reaped_stable e) hs (fun _ hs _ _ => hs) ?_
    intro s₀ r₁ s₁ hs₀ hspawn
    rcases answer_spawn hspawn with ⟨rfl, hchild⟩ | ⟨err, rfl, rfl⟩
    · have hone : ∃ child, s₁.children = [child] := ⟨.running, by rw [hchild, hs₀]⟩
      refine Outline.call (one_stable e) hone (fun _ _ _ hc => by cases hc) ?_
      intro s₂ r₂ s₃ hs₂ hwait
      rcases answer_waitpid hs₂ hwait with ⟨status, rfl, hs₃⟩ | ⟨rfl, hs₃⟩
      · cases status with
        | signaled sig => exact outline_ret hwarned (.inl hs₃)
        | other => exact outline_ret hwarned (.inl hs₃)
        | exited code =>
          dsimp only
          split
          · exact outline_ret hwarned (.inl hs₃)
          refine (hmove hs₃).bind ?_
          intro rc s₄ hs₄
          split
          · exact outline_ret hwarned (.inl hs₄)
          refine outline_call id (reaped_stable e) hs₄ ?_
          intro _ s₅ hs₅
          refine outline_call id (reaped_stable e) hs₅ ?_
          intro _ s₆ hs₆
          exact outline_ret hwarned (.inl hs₆)
      · exact outline_ret hwarned (.inr hs₃)
    · exact outline_ret hwarned (.inl hs₀)
  · exact outline_ret hwarned (.inl hs)

theorem attempt_outline (e : Env) (daemonMode : Bool) (cfg : OtaConfig) {s : Procs}
    (hs : Reaped s) :
    Outline (procs e) Apart (fun _ s => ReapedOrWarned s) (attempt daemonMode cfg) s := by
  have hstop : ∀ {s : Procs} {r : AttemptEnd}, Reaped s → Outline (procs e) Apart
      (fun _ s => ReapedOrWarned s) (.ret r : Proc AttemptEnd) s :=
    fun hs => outline_ret (reapedOrWarned_stable e) (.inl hs)
  unfold attempt
  refine outline_call id (reaped_stable e) hs ?_
  intro _ s₁ hs₁
  refine (outline_of_routine (otaCtxInit_obeys (Lawful e) cfg)
    (fun _ hc => by rw [hc]; trivial) hs₁).bind ?_
  intro r s₂ hs₂
  split
  · exact hstop hs₂
  rename_i ctx
  refine (outline_of_routine (otaInboxCleanup_obeys e ctx) (fun _ => cleanupCall_routine)
    hs₂).bind ?_
  intro _ s₃ hs₃
  refine (outline_of_routine (fetchNewManifest_obeys e ctx) (fun _ => newManifestCall_routine)
    hs₃).bind ?_
  intro rc s₄ hs₄
  split
  · exact hstop hs₄
  refine (outline_of_routine (validateNewManifest_obeys (Lawful e) ctx)
    (fun _ hc => by rw [hc]; trivial) hs₄).bind ?_
  intro rc s₅ hs₅
  split
  · exact hstop hs₅
  refine (outline_of_routine (compareManifests_obeys (Lawful e) ctx)
    (fun _ => compareCall_routine) hs₅).bind ?_
  intro cmp s₆ hs₆
  split
  · split
    · exact hstop hs₆
    · exact hstop hs₆
  · exact hstop hs₆
  refine outline_call id (reaped_stable e) hs₆ ?_
  intro m s₇ hs₇
  split
  · exact hstop hs₇
  rename_i m
  refine (outline_of_routine (fetchRelease_obeys e _) (fun _ => releaseCall_routine) hs₇).bind ?_
  intro r s₈ hs₈
  dsimp only
  split
  · exact hstop hs₈
  refine (outline_of_routine (validateRelease_obeys (Lawful e) r.2)
    (fun _ hc => by rw [hc]; trivial) hs₈).bind ?_
  intro rc s₉ hs₉
  split
  · exact hstop hs₉
  refine (applyRelease_outline e r.2 hs₉).bind ?_
  intro rc s hs
  split
  · exact outline_ret (reapedOrWarned_stable e) hs
  · exact outline_ret (reapedOrWarned_stable e) hs

/-- A pause that does not end the run leaves nothing to reap. -/
lemma pause_outline (e : Env) (seconds : ℤ) {s : Procs} (hs : ReapedOrWarned s) :
    Outline (procs e) Apart (fun stop s => stop = false → Reaped s) (pause seconds) s := by
  unfold pause
  refine outline_call id (reapedOrWarned_stable e) hs ?_
  intro _ s₁ hs₁
  have hlast : ∀ stop, (procs e).Stable (fun s => stop = false → Reaped s) :=
    fun stop s s' h hs hstop => reaped_stable e s s' h (hs hstop)
  refine Outline.call (f := .ret) (reapedOrWarned_stable e) hs₁ (fun _ _ _ hc => by cases hc) ?_
  intro s₂ r s₃ hs₂ hans
  obtain ⟨rfl, rfl⟩ := answer_terminated hans
  refine Outline.ret (hlast _) ?_
  intro hstop
  rcases hs₂ with hreaped | hflag
  · exact hreaped
  · rw [hflag] at hstop
    cases hstop

theorem otaFetchLoop_outline (e : Env) (daemonMode : Bool) (cfg : OtaConfig) (interval : ℤ)
    (fuel : ℕ) (made : ℤ) {s : Procs} (hs : Reaped s) :
    Outline (procs e) Apart (fun _ _ => True) (otaFetchLoop daemonMode cfg interval fuel made)
      s := by
  have hret : ∀ {s : Procs} {r : Option ℤ},
      Outline (procs e) Apart (fun _ _ => True) (.ret r : Proc (Option ℤ)) s :=
    Outline.ret (true_stable e) trivial
  induction fuel generalizing made s with
  | zero => exact hret
  | succ fuel ih =>
    have hnext : ∀ (n made : ℤ) {s : Procs}, ReapedOrWarned s →
        Outline (procs e) Apart (fun _ _ => True) (pause n >>= fun b =>
          if b = true then pure (some 0)
          else otaFetchLoop daemonMode cfg interval fuel made) s := by
      intro n made s hs
      refine (pause_outline e n hs).bind ?_
      intro stop s' hs'
      cases stop with
      | true => exact hret
      | false => exact ih made (hs' rfl)
    unfold otaFetchLoop
    refine (attempt_outline e daemonMode cfg hs).bind ?_
    intro r s' hs'
    split
    · exact hret
    split_ifs
    · exact hnext _ _ hs'
    · exact hnext _ _ hs'
    · exact hret

theorem otaFetchRun_outline (e : Env) (fuel : ℕ) (daemonMode : Bool) (cfg : OtaConfig)
    {s : Procs} (hs : Reaped s) :
    Outline (procs e) Apart (fun _ _ => True) (otaFetchRun fuel daemonMode cfg) s :=
  otaFetchLoop_outline e daemonMode cfg _ fuel 0 hs

/-- `waitpid` fails only with `EINTR`, and only when a signal comes in during it. -/
def WaitLaw (e : Env) : Prop :=
  ∀ n err, e.fault n .waitpid = some err → err = .eintr ∧ e.signal n = true

/-- The machine's view of the children: how many are not reaped. -/
def Counts (w : World) (s : Procs) : Prop :=
  s = ⟨w.terminate, List.replicate w.unreaped .running⟩

lemma meanwhile_warned (e : Env) (s : Procs) (b : Bool) :
    (procs e).Meanwhile s { s with terminate := s.terminate || b } := by
  cases b with
  | true =>
    rw [Bool.or_true]
    exact .single (.signal s)
  | false =>
    rw [Bool.or_false]
    exact .refl

lemma counts_spawn (e : Env) (w : World) (argv : List CStr) :
    ∃ s₁ s₂ s₃, (procs e).Meanwhile ⟨w.terminate, List.replicate w.unreaped .running⟩ s₁ ∧
      Answer e s₁ (.spawn argv) (exec e w (.spawn argv)).1 s₂ ∧ (procs e).Meanwhile s₂ s₃ ∧
      Counts (exec e w (.spawn argv)).2 s₃ := by
  simp only [exec]
  split
  · exact ⟨_, _, _, .refl, .unforked _ argv _, meanwhile_warned e _ (e.signal w.clock), rfl⟩
  · exact ⟨_, _, _, .refl, .forked _ argv, meanwhile_warned e _ (e.signal w.clock), rfl⟩

lemma counts_waitpid {e : Env} (he : WaitLaw e) (w : World) :
    ∃ s₁ s₂ s₃, (procs e).Meanwhile ⟨w.terminate, List.replicate w.unreaped .running⟩ s₁ ∧
      Answer e s₁ .waitpid (exec e w .waitpid).1 s₂ ∧ (procs e).Meanwhile s₂ s₃ ∧
      Counts (exec e w .waitpid).2 s₃ := by
  obtain ⟨fs, clock, terminate, unreaped⟩ := w
  cases unreaped with
  | zero =>
    refine ⟨_, _, _, .refl, .childless _ _, meanwhile_warned e _ (e.signal clock), ?_⟩
    simp only [exec]
    split <;> rfl
  | succ n =>
    simp only [exec]
    split
    · rename_i err hf
      obtain ⟨rfl, hsignal⟩ := he _ _ hf
      refine ⟨_, _, _, .single (.signal _), .interrupted .running (List.replicate n .running),
        .refl, ?_⟩
      simp only [Counts, World.tick, hsignal, Bool.or_true]
      rfl
    · exact ⟨_, _, _, .single (.exit terminate [] (List.replicate n .running) (e.child clock)),
        .reaped _ _ _, meanwhile_warned e _ (e.signal clock), rfl⟩

/-- Every run of the machine is one of the interleavings. -/
theorem exec_simulates {e : Env} (he : WaitLaw e) : Simulates (exec e) (procs e) Counts := by
  intro w s c hrel
  obtain rfl := hrel
  by_cases hc : ProcessCall c
  · cases c with
    | spawn argv => exact counts_spawn e w argv
    | waitpid => exact counts_waitpid he w
    | terminated =>
      exact ⟨_, _, _, .refl, .flag _, meanwhile_warned e _ (e.signal w.clock), rfl⟩
    | _ => exact False.elim hc
  · refine ⟨_, _, _, .refl, .plain _ c _ hc (exec_lawful e w c),
      meanwhile_warned e _ (e.signal w.clock), ?_⟩
    have hs : ∀ argv, c ≠ .spawn argv := by
      rintro argv rfl
      exact hc trivial
    have hw : c ≠ .waitpid := by
      rintro rfl
      exact hc trivial
    rw [Counts, exec_terminate, exec_unreaped hs hw]

theorem otaFetchRun_unreaped {e : Env} (he : WaitLaw e) (fuel : ℕ) (daemonMode : Bool)
    (cfg : OtaConfig) {w : World} (hw : w.unreaped = 0) :
    ∀ x ∈ (run (exec e) (otaFetchRun fuel daemonMode cfg) w).trace, ∀ argv,
      x.call = .spawn argv → x.before.unreaped = 0 := by
  have hcounts : Counts w ⟨w.terminate, []⟩ := by rw [Counts, hw]; rfl
  have hreach := ((exec_simulates he).reaches (m := otaFetchRun fuel daemonMode cfg) hcounts).1
  intro x hx argv hcall
  obtain ⟨k, s, hs, hr⟩ := hreach x hx
  have hhere := (otaFetchRun_outline e fuel daemonMode cfg (s := ⟨w.terminate, []⟩) rfl).reaches hr
  have hnone : s.children = [] := (hhere s .refl).1 argv hcall
  rw [hs] at hnone
  simpa using hnone

/-- Whatever the children and the signals do, when the process spawns an
installer every earlier one has been reaped. -/
theorem otaFetchRun_installs_apart (e : Env) (fuel : ℕ) (daemonMode : Bool) (cfg : OtaConfig)
    (terminate : Bool) {argv : List CStr} {k : Resp (.spawn argv) → Proc (Option ℤ)} {s : Procs}
    (h : (procs e).Reaches (otaFetchRun fuel daemonMode cfg, ⟨terminate, []⟩)
      (.call (.spawn argv) k, s)) : s.children = [] := by
  have hstart : Outline (procs e) Apart (fun _ _ => True) (otaFetchRun fuel daemonMode cfg)
      ⟨terminate, []⟩ := otaFetchRun_outline e fuel daemonMode cfg rfl
  have hhere := hstart.reaches h
  exact (hhere s .refl).1 argv rfl

/-- The installer fails. -/
def refusedEnv : Env := { deviceEnv (text "fw") raucBundle with child := fun _ => .exited 1 }

/-- A daemon spawns the installer again after it has failed. -/
theorem otaFetchRun_installs_apart_again :
    ∃ x ∈ (run (exec refusedEnv) (otaFetchRun 2 true deviceConfig) (.at deviceTree)).trace,
      (∃ y ∈ (run (exec refusedEnv) (otaFetchRun 2 true deviceConfig) (.at deviceTree)).trace,
        isSpawn y.call = true ∧ y.before.clock < x.before.clock) ∧
      ∃ argv k s, x.call = .spawn argv ∧ (procs refusedEnv).Reaches
        (otaFetchRun 2 true deviceConfig, ⟨false, []⟩) (.call (.spawn argv) k, s) ∧
        Counts x.before s ∧ s.children = [] := by
  have hlaw : WaitLaw refusedEnv := by
    intro n err hf
    cases hf
  have hspawn : ∃ x ∈ (run (exec refusedEnv) (otaFetchRun 2 true deviceConfig)
      (.at deviceTree)).trace, isSpawn x.call = true ∧
      ∃ y ∈ (run (exec refusedEnv) (otaFetchRun 2 true deviceConfig) (.at deviceTree)).trace,
        isSpawn y.call = true ∧ y.before.clock < x.before.clock := by
    decide +kernel
  obtain ⟨x, hx, hsp, hearlier⟩ := hspawn
  have hcounts : Counts (.at deviceTree) ⟨false, []⟩ := rfl
  obtain ⟨k, s, hs, hr⟩ := ((exec_simulates hlaw).reaches (m := otaFetchRun 2 true deviceConfig)
    hcounts).1 x hx
  refine ⟨x, hx, hearlier, ?_⟩
  obtain ⟨before, call, reply, after⟩ := x
  cases call with
  | spawn argv =>
    exact ⟨argv, k, s, rfl, hr, hs, otaFetchRun_installs_apart refusedEnv 2 true deviceConfig
      false hr⟩
  | _ => cases hsp

/-- How the child that is forked in `w` ends, whether or not it is waited for. -/
def childEnd (e : Env) (w : World) : WaitStatus := e.child (w.clock + 1)

/-- A return code and a trace that agree with how the installer ended: after
success the manifest is moved, and after anything else the function fails and
leaves the current manifest alone. -/
structure InstallAgrees (e : Env) (ctx : OtaCtx) (w : World) (rc : ℤ) (t : Trace) : Prop where
  moved : childEnd e w = .exited 0 →
    ∃ s ∈ t, s.call = .rename ctx.inboxManifestPath ctx.currentManifestPath
  kept : childEnd e w ≠ .exited 0 → rc ≠ 0 ∧ ∀ s ∈ t,
    s.after.fs.fileAt (place e.cwd ctx.currentManifestPath) =
      w.fs.fileAt (place e.cwd ctx.currentManifestPath)

/-- The wait came back with an error. -/
def WaitFailed (t : Trace) : Prop := ∃ s ∈ t, ∃ err, s.event = ⟨.waitpid, .error err⟩

lemma exec_waitpid {e : Env} {w w₁ v : World} {argv : List CStr} {r : Except Errno WaitStatus}
    (h₁ : exec e w (.spawn argv) = (.ok (), w₁)) (h₂ : exec e w₁ .waitpid = (r, v)) :
    r = .ok (childEnd e w) ∨ ∃ err, r = .error err := by
  have hclock : w₁.clock = w.clock + 1 := by
    simp only [exec] at h₁
    split at h₁
    · cases h₁
    · cases h₁
      rfl
  simp only [exec] at h₂
  split at h₂
  · cases h₂
    exact .inr ⟨_, rfl⟩
  · cases h₂
    exact .inl (by rw [childEnd, hclock])

lemma replaced_moves {e : Env} {ctx : OtaCtx} {w v : World} {rc : ℤ} {t : Trace}
    (h : Replaced e ctx w rc t v) :
    (∃ s ∈ t, s.call = .rename ctx.inboxManifestPath ctx.currentManifestPath) ∧
      ¬ WaitFailed t := by
  cases h with
  | mk mk w₁ w₂ v r₁ r₂ hmk hcalls h₁ h₂ =>
    refine ⟨⟨_, List.mem_append_right _ (List.mem_cons_of_mem _ (List.mem_singleton_self _)),
      rfl⟩, ?_⟩
    rintro ⟨s, hs, err, hev⟩
    have hcall : s.call = .waitpid := congrArg Sigma.fst hev
    rcases List.mem_append.mp hs with hs | hs
    · obtain ⟨dir, -, u, m, hmkdir, -⟩ := hcalls s hs
      rw [hcall] at hmkdir
      cases hmkdir
    · rcases List.mem_cons.mp hs with rfl | hs
      · cases hcall
      · obtain rfl := List.mem_singleton.mp hs
        cases hcall

lemma waitFailed_cons {s : Step Call Resp World} {t : Trace}
    (hs : ∀ err, s.event ≠ ⟨.waitpid, .error err⟩) : WaitFailed (s :: t) ↔ WaitFailed t := by
  constructor
  · rintro ⟨x, hx, err, hev⟩
    rcases List.mem_cons.mp hx with rfl | hx
    · exact absurd hev (hs err)
    · exact ⟨x, hx, err, hev⟩
  · rintro ⟨x, hx, hev⟩
    exact ⟨x, List.mem_cons_of_mem _ hx, hev⟩

/-- An installer whose success the process has seen. -/
lemma agrees_of_seen {e : Env} {ctx : OtaCtx} {w w₁ w₂ w₃ : World} {rc rc' : ℤ} {t u : Trace}
    (h₁ : exec e w (.spawn (raucArgv ctx.payloadPath)) = (.ok (), w₁))
    (h₂ : exec e w₁ .waitpid = (.ok (.exited 0), w₂)) (h : Replaced e ctx w₂ rc' t w₃)
    (hu : ¬ WaitFailed u) :
    InstallAgrees e ctx w rc (⟨w, .spawn (raucArgv ctx.payloadPath), .ok (), w₁⟩ ::
        ⟨w₁, .waitpid, .ok (.exited 0), w₂⟩ :: (t ++ u)) ↔
      (childEnd e w = .exited 0 → ¬ WaitFailed (⟨w, .spawn (raucArgv ctx.payloadPath), .ok (),
        w₁⟩ :: ⟨w₁, .waitpid, .ok (.exited 0), w₂⟩ :: (t ++ u))) := by
  have hend : childEnd e w = .exited 0 := by
    rcases exec_waitpid h₁ h₂ with hr | ⟨err, hr⟩
    · exact (Except.ok.inj hr).symm
    · cases hr
  obtain ⟨⟨s, hs, hcall⟩, hno⟩ := replaced_moves h
  have hwait : ¬ WaitFailed (⟨w, .spawn (raucArgv ctx.payloadPath), .ok (), w₁⟩ ::
      ⟨w₁, .waitpid, .ok (.exited 0), w₂⟩ :: (t ++ u)) := by
    rw [waitFailed_cons (by rintro err hev; cases hev),
      waitFailed_cons (by rintro err hev; cases hev)]
    rintro ⟨x, hx, hev⟩
    rcases List.mem_append.mp hx with hx | hx
    · exact hno ⟨x, hx, hev⟩
    · exact hu ⟨x, hx, hev⟩
  exact ⟨fun _ _ => hwait, fun _ => ⟨fun _ => ⟨s, by simp [hs], hcall⟩,
    fun hne => absurd hend hne⟩⟩

/-- An installer whose success the process has not seen. -/
lemma agrees_of_unseen {e : Env} {ctx : OtaCtx} {w w₁ v : World} {r : Except Errno WaitStatus}
    (h₁ : exec e w (.spawn (raucArgv ctx.payloadPath)) = (.ok (), w₁))
    (h₂ : exec e w₁ .waitpid = (r, v)) (hr : r ≠ .ok (.exited 0)) :
    InstallAgrees e ctx w (-1) [⟨w, .spawn (raucArgv ctx.payloadPath), .ok (), w₁⟩,
        ⟨w₁, .waitpid, r, v⟩] ↔
      (childEnd e w = .exited 0 → ¬ WaitFailed [⟨w, .spawn (raucArgv ctx.payloadPath), .ok (),
        w₁⟩, ⟨w₁, .waitpid, r, v⟩]) := by
  constructor
  · intro h hend
    obtain ⟨s, hs, hcall⟩ := h.moved hend
    rcases List.mem_cons.mp hs with rfl | hs
    · cases hcall
    · obtain rfl := List.mem_singleton.mp hs
      cases hcall
  · intro h
    have hne : childEnd e w ≠ .exited 0 := by
      intro hend
      rcases exec_waitpid h₁ h₂ with hok | ⟨err, rfl⟩
      · exact hr (by rw [hok, hend])
      · exact h hend ⟨_, List.mem_cons_of_mem _ (List.mem_singleton_self _), err, rfl⟩
    refine ⟨fun hend => absurd hend hne, fun _ => ⟨by decide, ?_⟩⟩
    have hspawn := exec_fileAt (e := e) (w := w) (c := .spawn (raucArgv ctx.payloadPath))
      (q := place e.cwd ctx.currentManifestPath) id
    have hwait := exec_fileAt (e := e) (w := w₁) (c := .waitpid)
      (q := place e.cwd ctx.currentManifestPath) id
    rw [h₁] at hspawn
    rw [h₂] at hwait
    intro s hs
    rcases List.mem_cons.mp hs with rfl | hs
    · exact hspawn
    · obtain rfl := List.mem_singleton.mp hs
      exact hwait.trans hspawn

/-- The record agrees with the installer exactly when the wait for an installer
that succeeds does not fail. -/
theorem applyRelease_agrees_iff (e : Env) (ctx : OtaCtx) (w : World)
    (htype : (firstFile ctx).bind ManifestFile.fileType = some raucBundle)
    (hfork : (exec e w (.spawn (raucArgv ctx.payloadPath))).1 = .ok ()) :
    let o := run (exec e) (applyRelease ctx) w
    InstallAgrees e ctx w o.value o.trace ↔
      (childEnd e w = .exited 0 → ¬ WaitFailed o.trace) := by
  have happlied : Yields (exec e) w (applyRelease ctx) (fun rc t _ =>
      InstallAgrees e ctx w rc t ↔ (childEnd e w = .exited 0 → ¬ WaitFailed t)) := by
    refine (applyRelease_yields e w ctx).mono ?_
    intro rc t v h
    cases h with
    | unsupported _ _ htest hrauc => exact absurd htype hrauc
    | tested _ _ _ htest =>
      rw [htype] at htest
      exact absurd (Option.some.inj htest) (by decide)
    | unspawned err v _ h =>
      rw [h] at hfork
      cases hfork
    | failed w₁ v r _ h₁ h₂ hr => exact agrees_of_unseen h₁ h₂ hr
    | kept w₁ w₂ v t rc _ h₁ h₂ h hrc =>
      rw [← List.append_nil t]
      exact agrees_of_seen h₁ h₂ h (by simp [WaitFailed])
    | rebooted w₁ w₂ w₃ w₄ v t _ h₁ h₂ h h₃ h₄ =>
      refine agrees_of_seen h₁ h₂ h ?_
      rw [waitFailed_cons (by rintro err hev; cases hev),
        waitFailed_cons (by rintro err hev; cases hev)]
      simp [WaitFailed]
  exact happlied

/-- A validated bundle, ready to be handed over. -/
def bundleCtx : OtaCtx where
  config := deviceConfig
  currentManifestPath := text "cur/manifest.json"
  inboxManifestPath := text "in/manifest.json"
  inboxSigPath := text "in/manifest.json.sig"
  inboxCertPath := text "in/signer.crt"
  inboxManifest := none
  payloadPath := some (text "in/fw")
  release := some ⟨none, none, none, none,
    [⟨some raucBundle, some (text "fw"), none, some (text "b")⟩]⟩

def isFailedWait (s : Step Call Resp World) : Bool :=
  match s.event with
  | ⟨.waitpid, .error _⟩ => true
  | _ => false

lemma not_waitFailed {t : Trace} (h : ∀ s ∈ t, isFailedWait s = false) : ¬ WaitFailed t := by
  rintro ⟨s, hs, err, hev⟩
  have hno := h s hs
  rw [isFailedWait, hev] at hno
  cases hno

/-- An installer that succeeds and one that fails, both reaped. -/
theorem applyRelease_agrees_reaped :
    (childEnd (deviceEnv (text "fw") raucBundle) (.at updatedTree) = .exited 0 ∧
      InstallAgrees (deviceEnv (text "fw") raucBundle) bundleCtx (.at updatedTree)
        (run (exec (deviceEnv (text "fw") raucBundle)) (applyRelease bundleCtx)
          (.at updatedTree)).value
        (run (exec (deviceEnv (text "fw") raucBundle)) (applyRelease bundleCtx)
          (.at updatedTree)).trace) ∧
      childEnd refusedEnv (.at updatedTree) = .exited 1 ∧
      InstallAgrees refusedEnv bundleCtx (.at updatedTree)
        (run (exec refusedEnv) (applyRelease bundleCtx) (.at updatedTree)).value
        (run (exec refusedEnv) (applyRelease bundleCtx) (.at updatedTree)).trace := by
  refine ⟨⟨rfl, ?_⟩, rfl, ?_⟩
  · refine (applyRelease_agrees_iff _ bundleCtx (.at updatedTree) rfl rfl).mpr fun _ => ?_
    exact not_waitFailed (by decide +kernel)
  · refine (applyRelease_agrees_iff refusedEnv bundleCtx (.at updatedTree) rfl rfl).mpr ?_
    intro hend
    exact absurd hend (by decide)

/-- A signal comes in while the process waits, and the wait is interrupted. -/
def interruptedEnv : Env :=
  { deviceEnv (text "fw") raucBundle with
    signal := fun n => n == 1
    fault := fun n c => if n = 1 ∧ c matches .waitpid then some .eintr else none }

def isRename : Call → Bool
  | .rename _ _ => true
  | _ => false

/-- The installer exits with 0, and `apply_release` fails without moving the
manifest. -/
theorem applyRelease_forgets_install :
    childEnd interruptedEnv (.at updatedTree) = .exited 0 ∧
      ¬ InstallAgrees interruptedEnv bundleCtx (.at updatedTree)
        (run (exec interruptedEnv) (applyRelease bundleCtx) (.at updatedTree)).value
        (run (exec interruptedEnv) (applyRelease bundleCtx) (.at updatedTree)).trace := by
  refine ⟨rfl, ?_⟩
  intro h
  obtain ⟨s, hs, hcall⟩ := h.moved rfl
  have hnone : ∀ x ∈ (run (exec interruptedEnv) (applyRelease bundleCtx)
      (.at updatedTree)).trace, isRename x.call = false := by decide +kernel
  have hs' := hnone s hs
  rw [hcall] at hs'
  exact absurd hs' (by decide)

end OtaFetch.Install
