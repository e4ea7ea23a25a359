import OtaFetch.Monitor
import OtaFetch.Enroll

/-!
# Open files

A monitor for the stream of `fetch_file` and the descriptors of `write_file_atomic`
and `fsync_parent_dir`. At most one of them is open at a time. It is used only while
it is open, in the state the last use left it, and closed once. While the stream is
open the only other calls are those of the transfer that fills it, and while a
descriptor is open there are no other calls. No process is started, nothing is renamed
or removed, and no wait begins before the handle is closed. The files that are read
whole, for a hash, a signature, a manifest or a token, and the listing of the inbox are
opened and closed within one call here, and the monitor does not see them.
-/
namespace OtaFetch.Handles
open CPath FileTree Interaction Monitor Machine Config Fetch Update AtomicWrite Enroll

inductive Held where
  | nothing
  | stream (fp : Stream)
  | descriptor (fd : Path)
  deriving Repr, DecidableEq

/-- What a successful open gives is held from then on. -/
def Held.ofOpen {α : Type} (handle : α → Held) : Except Errno α → Held
  | .ok a => handle a
  | .error _ => .nothing

/-- A call that needs the handles to be `need` leaves them as `next`. -/
def Held.require (held need next : Held) : Option Held :=
  if held = need then some next else none

/-- `fclose` and `close` give the handle up even when they report an error. The calls that
read a file whole or list a directory leave nothing open behind them. -/
def hold : Watcher Call Resp Held
  | held, .fopen _, r => held.require .nothing (.ofOpen .stream r)
  | held, .fwrite fp _, r => held.require (.stream fp) (.stream r.2)
  | held, .fflush fp, r => held.require (.stream fp) (.stream r.2)
  | held, .fclose fp, _ => held.require (.stream fp) .nothing
  | held, .openWrite _ _, r => held.require .nothing (.ofOpen .descriptor r)
  | held, .openDir _, r => held.require .nothing (.ofOpen .descriptor r)
  | held, .write fd _, _ => held.require (.descriptor fd) held
  | held, .fchmod fd _, _ => held.require (.descriptor fd) held
  | held, .fsync fd, _ => held.require (.descriptor fd) held
  | held, .close fd, _ => held.require (.descriptor fd) .nothing
  | .descriptor _, .curlInit, _ => none
  | .descriptor _, .perform _, _ => none
  | held, .curlInit, _ => some held
  | held, .perform _, _ => some held
  | held, _, _ => held.require .nothing .nothing

@[simp] lemma Held.require_self (held next : Held) : held.require held next = some next :=
  if_pos rfl

/-- Programs that no reply lets break the discipline. They start with nothing
open and end in a state that goes with the value. -/
abbrev Disciplined {α : Type} (e : Env) (held : Held) (p : Proc α) (Q : α → Held → Prop) : Prop :=
  Accepted (Lawful e) hold Q p held

/-- Calls that may be made with nothing open and open nothing. -/
def Handleless (c : Call) : Prop := ∀ r, hold .nothing c r = some .nothing

lemma handleless_mkdir (p : CStr) (m : ℕ) : Handleless (.mkdir p m) := fun _ => rfl
lemma handleless_malloc : Handleless .malloc := fun _ => rfl

lemma disciplined_of_obeys {α : Type} {e : Env} {A : Call → Prop} {V : α → Prop} {p : Proc α}
    (hp : Obeys (Lawful e) A V p) (hA : ∀ c, A c → Handleless c) :
    Disciplined e .nothing p (fun a held => V a ∧ held = .nothing) :=
  Accepted.of_obeys hp (fun c r hc => hA c hc r)

/-- The value does not matter. -/
lemma disciplined_of_obeys' {α : Type} {e : Env} {A : Call → Prop} {V : α → Prop} {p : Proc α}
    (hp : Obeys (Lawful e) A V p) (hA : ∀ c, A c → Handleless c) :
    Disciplined e .nothing p (fun _ held => held = .nothing) :=
  (disciplined_of_obeys hp hA).mono fun _ _ h => h.2

lemma closeIfOpen_disciplined (e : Env) (fp : Option Stream) {held : Held}
    (h : held = fp.elim .nothing .stream) :
    Disciplined e held (closeIfOpen fp) (fun _ held => held = .nothing) := by
  subst h
  cases fp with
  | none => exact Accepted.ret rfl
  | some fp => exact Accepted.call fun r _ => ⟨.nothing, Held.require_self _ _, rfl⟩

lemma fetchCleanup_disciplined (e : Env) (tmpPath : CStr) (fp : Option Stream) {held : Held}
    (h : held = fp.elim .nothing .stream) :
    Disciplined e held (fetchCleanup tmpPath fp) (fun _ held => held = .nothing) := by
  refine (closeIfOpen_disciplined e fp h).bind ?_
  rintro _ _ rfl
  exact Accepted.skip (fun _ => rfl) (fun _ _ => Accepted.ret rfl)

/-- Delivery keeps the stream it was given open, in its latest state. -/
lemma deliver_disciplined (e : Env) (chunks : List Bytes) (fp : Stream) :
    Disciplined e (.stream fp) (deliver chunks fp) (fun r held => held = .stream r.2) := by
  induction chunks generalizing fp with
  | nil => exact Accepted.ret rfl
  | cons chunk rest ih =>
    have hcallback : Disciplined e (.stream fp) (fileWriteCallback chunk fp)
        (fun r held => held = .stream r.2) := by
      unfold fileWriteCallback
      split_ifs
      · exact Accepted.ret rfl
      · exact fun r _ => ⟨.stream r.2, Held.require_self _ _, rfl⟩
    refine hcallback.bind ?_
    rintro r _ rfl
    dsimp only
    split_ifs
    · exact ih r.2
    · exact Accepted.ret rfl

lemma fetchOpened_disciplined (e : Env) (url dest : CStr) (cfg : OtaConfig)
    (showProgress : Bool) (fp : Stream) :
    Disciplined e (.stream fp) (fetchOpened url dest cfg showProgress fp)
      (fun _ held => held = .nothing) := by
  unfold fetchOpened
  refine Accepted.skip (fun _ => rfl) (fun ok _ => ?_)
  split
  · exact fetchCleanup_disciplined e _ (some fp) rfl
  have hperform : Disciplined e (.stream fp)
      (curlEasyPerform (fetchRequest url cfg showProgress) fp)
      (fun res held => held = .stream res.fp) := by
    refine Accepted.skip (fun _ => rfl) (fun t _ => ?_)
    exact (deliver_disciplined e t.chunks fp).bind fun r _ hr => Accepted.ret hr
  refine hperform.bind ?_
  rintro res _ rfl
  split
  · exact fetchCleanup_disciplined e _ (some res.fp) rfl
  split
  · exact fetchCleanup_disciplined e _ (some res.fp) rfl
  refine Accepted.call fun r _ => ⟨.stream r.2, Held.require_self _ _, ?_⟩
  dsimp only
  split
  · exact fetchCleanup_disciplined e _ (some r.2) rfl
  refine Accepted.call fun closed _ => ⟨.nothing, Held.require_self _ _, ?_⟩
  split
  · exact fetchCleanup_disciplined e _ none rfl
  refine Accepted.skip (fun _ => rfl) (fun moved _ => ?_)
  split
  · exact fetchCleanup_disciplined e _ none rfl
  · exact Accepted.ret rfl

/-- A download opens its temporary file at most once and has closed it on every
way out. -/
theorem fetchFile_disciplined (e : Env) (url dest : CStr) (cfg : OtaConfig)
    (showProgress : Bool) :
    Disciplined e .nothing (fetchFile url dest cfg showProgress)
      (fun _ held => held = .nothing) := by
  unfold fetchFile
  refine (disciplined_of_obeys' (ensureParentDirExists_obeys _ dest) ?_).bind ?_
  · rintro c ⟨u, m, rfl, -⟩
    exact handleless_mkdir u m
  rintro rc _ rfl
  split
  · exact Accepted.ret rfl
  refine Accepted.skip (fun _ => rfl) (fun ok _ => ?_)
  split
  · exact Accepted.ret rfl
  refine Accepted.call fun r _ => ⟨_, Held.require_self _ _, ?_⟩
  cases r with
  | error err => exact fetchCleanup_disciplined e _ none rfl
  | ok fp => exact fetchOpened_disciplined e url dest cfg showProgress fp

lemma buildPath_disciplined (e : Env) (dir : Option CStr) (name : CStr) :
    Disciplined e .nothing (buildPath dir (some name)) (fun _ held => held = .nothing) :=
  disciplined_of_obeys' (buildPath_obeys dir name handleless_malloc) (fun _ => id)

lemma fetchNewManifest_disciplined (e : Env) (ctx : OtaCtx) :
    Disciplined e .nothing (fetchNewManifest ctx) (fun _ held => held = .nothing) := by
  unfold fetchNewManifest
  refine (buildPath_disciplined e _ _).bind ?_
  rintro m _ rfl
  refine (buildPath_disciplined e _ _).bind ?_
  rintro g _ rfl
  refine (buildPath_disciplined e _ _).bind ?_
  rintro t _ rfl
  split
  · refine (fetchFile_disciplined e _ _ _ _).bind ?_
    rintro _ _ rfl
    refine (fetchFile_disciplined e _ _ _ _).bind ?_
    rintro _ _ rfl
    refine (fetchFile_disciplined e _ _ _ _).bind ?_
    rintro _ _ rfl
    exact Accepted.ret rfl
  · exact Accepted.ret rfl

lemma fetchRelease_disciplined (e : Env) (ctx : OtaCtx) :
    Disciplined e .nothing (fetchRelease ctx) (fun _ held => held = .nothing) := by
  unfold fetchRelease
  dsimp only
  split
  · exact Accepted.ret rfl
  split
  · exact Accepted.ret rfl
  split
  · refine (buildPath_disciplined e _ _).bind ?_
    rintro p _ rfl
    split
    · exact Accepted.ret rfl
    refine (buildPath_disciplined e _ _).bind ?_
    rintro u _ rfl
    split
    · exact Accepted.ret rfl
    refine (fetchFile_disciplined e _ _ _ _).bind ?_
    rintro _ _ rfl
    exact Accepted.ret rfl
  · exact Accepted.ret rfl

lemma cleanupCall_handleless {ctx : OtaCtx} {c : Call} (h : CleanupCall ctx c) :
    Handleless c := by
  cases h <;> exact fun _ => rfl

lemma applyCall_handleless {ctx : OtaCtx} {c : Call} (h : ApplyCall ctx c) : Handleless c := by
  cases h <;> exact fun _ => rfl

lemma compareCall_handleless {ctx : OtaCtx} {c : Call} (h : CompareCall ctx c) :
    Handleless c := by
  cases h <;> exact fun _ => rfl

/-- An iteration starts with nothing open and ends so, whichever stage ends it. -/
theorem attempt_disciplined (e : Env) (daemonMode : Bool) (cfg : OtaConfig) :
    Disciplined e .nothing (attempt daemonMode cfg) (fun _ held => held = .nothing) := by
  unfold attempt
  refine Accepted.skip (fun _ => rfl) (fun _ _ => ?_)
  refine (disciplined_of_obeys' (otaCtxInit_obeys _ cfg) ?_).bind ?_
  · rintro c rfl
    exact handleless_malloc
  rintro ctx _ rfl
  split
  · exact Accepted.ret rfl
  refine (disciplined_of_obeys' (otaInboxCleanup_obeys e _) fun c => cleanupCall_handleless).bind ?_
  rintro _ _ rfl
  refine (fetchNewManifest_disciplined e _).bind ?_
  rintro rc _ rfl
  split
  · exact Accepted.ret rfl
  refine (disciplined_of_obeys' (validateNewManifest_obeys _ _) ?_).bind ?_
  · rintro c rfl
    exact fun _ => rfl
  rintro rc _ rfl
  split
  · exact Accepted.ret rfl
  refine (disciplined_of_obeys' (compareManifests_obeys _ _)
    fun c => compareCall_handleless).bind ?_
  rintro same _ rfl
  cases same with
  | eq =>
    dsimp only
    split <;> exact Accepted.ret rfl
  | err => exact Accepted.ret rfl
  | neq =>
    refine Accepted.skip (fun _ => rfl) (fun m _ => ?_)
    split
    · exact Accepted.ret rfl
    refine (fetchRelease_disciplined e _).bind ?_
    rintro r _ rfl
    dsimp only
    split
    · exact Accepted.ret rfl
    refine (disciplined_of_obeys' (validateRelease_obeys _ _) ?_).bind ?_
    · rintro c rfl
      exact fun _ => rfl
    rintro rc _ rfl
    split
    · exact Accepted.ret rfl
    refine (disciplined_of_obeys' (applyRelease_obeys _ _) fun c => applyCall_handleless).bind ?_
    rintro rc _ rfl
    split <;> exact Accepted.ret rfl

lemma pause_disciplined (e : Env) (seconds : ℤ) :
    Disciplined e .nothing (pause seconds) (fun _ held => held = .nothing) :=
  Accepted.skip (fun _ => rfl) (fun _ _ _ _ => ⟨.nothing, rfl, rfl⟩)

lemma otaFetchLoop_disciplined (e : Env) (daemonMode : Bool) (cfg : OtaConfig) (interval : ℤ)
    (fuel : ℕ) (made : ℤ) :
    Disciplined e .nothing (otaFetchLoop daemonMode cfg interval fuel made)
      (fun _ held => held = .nothing) := by
  induction fuel generalizing made with
  | zero => exact Accepted.ret rfl
  | succ fuel ih =>
    unfold otaFetchLoop
    refine (attempt_disciplined e daemonMode cfg).bind ?_
    rintro r _ rfl
    cases r with
    | returned rc => exact Accepted.ret rfl
    | ended rc =>
      have hnext : ∀ (seconds next : ℤ), Disciplined e .nothing
          (do if ← pause seconds then pure (some 0)
              else otaFetchLoop daemonMode cfg interval fuel next)
          (fun _ held => held = .nothing) := by
        intro seconds next
        refine (pause_disciplined e seconds).bind ?_
        rintro stop _ rfl
        split
        · exact Accepted.ret rfl
        · exact ih next
      dsimp only
      split_ifs
      · exact hnext interval made
      · exact hnext retryDelay (made + 1)
      · exact Accepted.ret rfl

/-- Over every run of `ota_fetch_run`, however many iterations it makes and whatever fails
in them, the discipline is kept and no stream of a download is left open. -/
theorem otaFetchRun_closes_files (e : Env) (w : World) (fuel : ℕ) (daemonMode : Bool)
    (cfg : OtaConfig) :
    watch hold .nothing (run (exec e) (otaFetchRun fuel daemonMode cfg) w).trace =
      some .nothing := by
  obtain ⟨held, hwatch, rfl⟩ :=
    (otaFetchLoop_disciplined e daemonMode cfg _ fuel 0).watch (exec_lawful e) w
  exact hwatch

lemma enrollEndpoint_disciplined (e : Env) (cfg : OtaConfig) :
    Disciplined e .nothing (enrollEndpoint cfg) (fun _ held => held = .nothing) := by
  unfold enrollEndpoint
  split
  · exact Accepted.ret rfl
  split
  · exact Accepted.ret rfl
  refine Accepted.skip (fun _ => rfl) (fun ok _ => ?_)
  split <;> exact Accepted.ret rfl

lemma refusesIdentity_disciplined (e : Env) (force : Bool) (keyPath certPath : CStr) :
    Disciplined e .nothing (refusesIdentity force keyPath certPath)
      (fun _ held => held = .nothing) := by
  have hexists : ∀ p, Disciplined e .nothing (fileExists p) (fun _ held => held = .nothing) := by
    intro p
    refine Accepted.skip (fun _ => rfl) (fun r _ => ?_)
    split <;> exact Accepted.ret rfl
  unfold refusesIdentity
  split
  · exact Accepted.ret rfl
  refine (hexists keyPath).bind ?_
  rintro there _ rfl
  split
  · exact Accepted.ret rfl
  · exact hexists certPath

lemma slistAppend_disciplined (e : Env) (headers : List CStr) (s : CStr) :
    Disciplined e .nothing (slistAppend headers s) (fun _ held => held = .nothing) := by
  refine Accepted.skip (fun _ => rfl) (fun ok _ => ?_)
  split <;> exact Accepted.ret rfl

lemma receive_disciplined (e : Env) (chunks : List Bytes) (mem : Bytes) :
    Disciplined e .nothing (receive chunks mem) (fun _ held => held = .nothing) := by
  induction chunks generalizing mem with
  | nil => exact Accepted.ret rfl
  | cons chunk rest ih =>
    have hcallback : Disciplined e .nothing (writeCallback chunk mem)
        (fun _ held => held = .nothing) := by
      refine Accepted.skip (fun _ => rfl) (fun ok _ => ?_)
      split <;> exact Accepted.ret rfl
    refine hcallback.bind ?_
    rintro r _ rfl
    dsimp only
    split_ifs
    · exact ih _
    · exact Accepted.ret rfl

lemma postEnrollRequest_disciplined (e : Env) (url : CStr) (cfg : OtaConfig)
    (token requestJson : CStr) :
    Disciplined e .nothing (postEnrollRequest url cfg token requestJson)
      (fun _ held => held = .nothing) := by
  unfold postEnrollRequest
  refine Accepted.skip (fun _ => rfl) (fun ok _ => ?_)
  split
  · exact Accepted.ret rfl
  refine Accepted.skip (fun _ => rfl) (fun ok _ => ?_)
  split
  · exact Accepted.ret rfl
  refine (slistAppend_disciplined e _ _).bind ?_
  rintro h₁ _ rfl
  refine (slistAppend_disciplined e _ _).bind ?_
  rintro h₂ _ rfl
  refine (slistAppend_disciplined e _ _).bind ?_
  rintro h₃ _ rfl
  refine Accepted.skip (fun _ => rfl) (fun tr _ => ?_)
  refine (receive_disciplined e _ _).bind ?_
  rintro r _ rfl
  dsimp only
  split_ifs <;> exact Accepted.ret rfl

lemma requestIdentity_disciplined (e : Env) (cjson : Releases.CJson) (cfg : OtaConfig)
    (tokenFile : CStr) :
    Disciplined e .nothing (requestIdentity cjson cfg tokenFile)
      (fun _ held => held = .nothing) := by
  unfold requestIdentity
  refine Accepted.skip (fun _ => rfl) (fun token _ => ?_)
  split
  · exact Accepted.ret rfl
  refine (enrollEndpoint_disciplined e cfg).bind ?_
  rintro url _ rfl
  split
  · exact Accepted.ret rfl
  refine Accepted.skip (fun _ => rfl) (fun made _ => ?_)
  split
  · exact Accepted.ret rfl
  refine Accepted.skip (fun _ => rfl) (fun request _ => ?_)
  split
  · exact Accepted.ret rfl
  refine (postEnrollRequest_disciplined e _ _ _ _).bind ?_
  rintro response _ rfl
  split
  · exact Accepted.ret rfl
  split
  · exact Accepted.ret rfl
  refine Accepted.skip (fun _ => rfl) (fun ok _ => ?_)
  split <;> exact Accepted.ret rfl

lemma fsyncParentDir_disciplined (e : Env) (path : CStr) :
    Disciplined e .nothing (fsyncParentDir path) (fun _ held => held = .nothing) := by
  unfold fsyncParentDir
  split
  · exact Accepted.ret rfl
  split
  · exact Accepted.ret rfl
  split
  · exact Accepted.ret rfl
  refine Accepted.call fun r _ => ⟨_, Held.require_self _ _, ?_⟩
  cases r with
  | error err => exact Accepted.ret rfl
  | ok fd =>
    refine Accepted.call fun synced _ => ⟨_, Held.require_self _ _, ?_⟩
    exact Accepted.call fun closed _ => ⟨_, Held.require_self _ _, Accepted.ret rfl⟩

/-- The writing loop keeps its descriptor, also when it is still interrupted. -/
lemma writeAll_disciplined (e : Env) (fuel : ℕ) (fd : Path) (data : Bytes) :
    Disciplined e (.descriptor fd) (writeAll fuel fd data)
      (fun _ held => held = .descriptor fd) := by
  induction fuel generalizing data with
  | zero => cases data <;> exact Accepted.ret rfl
  | succ fuel ih =>
    cases data with
    | nil => exact Accepted.ret rfl
    | cons b rest =>
      refine Accepted.call fun r _ => ⟨_, Held.require_self _ _, ?_⟩
      split
      · exact ih _
      · exact Accepted.ret rfl
      · exact ih _

lemma writeCleanup_disciplined (e : Env) (tmpPath : CStr) (fd : Option Path) {held : Held}
    (h : held = fd.elim .nothing .descriptor) :
    Disciplined e held (writeCleanup tmpPath fd) (fun _ held => held = .nothing) := by
  subst h
  cases fd with
  | none => exact Accepted.skip (fun _ => rfl) (fun _ _ => Accepted.ret rfl)
  | some fd =>
    refine Accepted.call fun r _ => ⟨_, Held.require_self _ _, ?_⟩
    exact Accepted.skip (fun _ => rfl) (fun _ _ => Accepted.ret rfl)

/-- Every return from `write_file_atomic` has closed the descriptor. -/
lemma writeOpened_disciplined (e : Env) (fuel : ℕ) (path : CStr) (data : Bytes) (mode : ℕ)
    (fd : Path) :
    Disciplined e (.descriptor fd) (writeOpened fuel path data mode fd)
      (fun r held => r.isSome = true → held = .nothing) := by
  have hcleanup : ∀ (fd : Option Path), Disciplined e (fd.elim .nothing .descriptor)
      (writeCleanup (tmpOf path) fd) (fun r held => r.isSome = true → held = .nothing) :=
    fun fd => (writeCleanup_disciplined e _ fd rfl).mono fun _ _ h _ => h
  unfold writeOpened
  refine (writeAll_disciplined e fuel fd data).bind ?_
  rintro written _ rfl
  cases written with
  | none => exact Accepted.ret (by simp)
  | some rc =>
    dsimp only
    split
    · exact hcleanup (some fd)
    refine Accepted.call fun r _ => ⟨_, Held.require_self _ _, ?_⟩
    split
    · exact hcleanup (some fd)
    refine Accepted.call fun r _ => ⟨_, Held.require_self _ _, ?_⟩
    split
    · exact hcleanup (some fd)
    refine Accepted.call fun r _ => ⟨_, Held.require_self _ _, ?_⟩
    split
    · exact hcleanup none
    refine Accepted.skip (fun _ => rfl) (fun moved _ => ?_)
    split
    · exact hcleanup none
    refine (fsyncParentDir_disciplined e path).bind ?_
    rintro rc _ rfl
    split
    · exact hcleanup none
    · exact Accepted.ret fun _ => rfl

theorem writeFileAtomic_disciplined (e : Env) (fuel : ℕ) (path : CStr) (data : Bytes)
    (mode : ℕ) :
    Disciplined e .nothing (writeFileAtomic fuel path data mode)
      (fun r held => r.isSome = true → held = .nothing) := by
  unfold writeFileAtomic
  refine (disciplined_of_obeys' (ensureParentDir_obeys handleless_mkdir path 448)
    fun _ => id).bind ?_
  rintro rc _ rfl
  split
  · exact Accepted.ret fun _ => rfl
  refine Accepted.skip (fun _ => rfl) (fun ok _ => ?_)
  split
  · exact Accepted.ret fun _ => rfl
  refine Accepted.call fun r _ => ⟨_, Held.require_self _ _, ?_⟩
  cases r with
  | error err => exact (writeCleanup_disciplined e _ none rfl).mono fun _ _ h _ => h
  | ok fd => exact writeOpened_disciplined e fuel path data mode fd

lemma otaFetchEnroll_disciplined (e : Env) (cjson : Releases.CJson) (fuel : ℕ)
    (cfg : OtaConfig) (tokenFile : Option CStr) (force : Bool) :
    Disciplined e .nothing (otaFetchEnroll cjson fuel cfg tokenFile force)
      (fun r held => r.isSome = true → held = .nothing) := by
  unfold otaFetchEnroll
  split
  · refine (refusesIdentity_disciplined e force _ _).bind ?_
    rintro refused _ rfl
    split
    · exact Accepted.ret fun _ => rfl
    refine (requestIdentity_disciplined e cjson cfg _).bind ?_
    rintro identity _ rfl
    split
    · exact Accepted.ret fun _ => rfl
    refine (writeFileAtomic_disciplined e fuel _ _ _).bind ?_
    intro r₁ held₁ h₁
    split
    · exact Accepted.ret (by simp)
    obtain rfl := h₁ rfl
    split
    · exact Accepted.ret fun _ => rfl
    refine (writeFileAtomic_disciplined e fuel _ _ _).bind ?_
    intro r₂ held₂ h₂
    split
    · exact Accepted.ret (by simp)
    obtain rfl := h₂ rfl
    split
    · exact Accepted.ret fun _ => rfl
    refine Accepted.skip (fun _ => rfl) (fun gone _ => ?_)
    split <;> exact Accepted.ret fun _ => rfl
  · exact Accepted.ret fun _ => rfl

/-- The same for the descriptors of `ota_fetch_enroll`. Only a writing loop that never
stops being interrupted still holds one, and then the function has not returned. -/
theorem otaFetchEnroll_closes_files (e : Env) (w : World) (fuel : ℕ) (cfg : OtaConfig)
    (tokenFile : Option CStr) (force : Bool) :
    ∃ held,
      watch hold .nothing
        (run (exec e) (otaFetchEnroll e.cjson fuel cfg tokenFile force) w).trace = some held ∧
      ((run (exec e) (otaFetchEnroll e.cjson fuel cfg tokenFile force) w).value.isSome = true →
        held = .nothing) :=
  (otaFetchEnroll_disciplined e e.cjson fuel cfg tokenFile force).watch (exec_lawful e) w

end OtaFetch.Handles
