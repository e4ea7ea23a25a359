import OtaFetch.Current

/-!
# Where a run writes

The paths a run creates, opens, renames onto or unlinks come from the two
configured directories and from the file name in the manifest, by string
concatenation. As long as none of these strings has a `..` component, all of
them resolve into the inbox, to the current manifest or to a directory above one
of the two. Nothing checks the file name: `../x` leads out of the inbox.
-/
namespace OtaFetch.Confine
open CPath FileTree Interaction Machine Config Releases Fetch Update Iteration Gate Untrusted
open Current

/-- The locations that a call creates, opens for writing, renames onto or unlinks. -/
def touched (e : Env) : Call → List Path
  | .mkdir p _ => [place e.cwd p]
  | .unlink p => [place e.cwd p]
  | .rename _ d => [place e.cwd d]
  | .fopen p => [place e.cwd p]
  | .openWrite p _ => [place e.cwd p]
  | _ => []

/-- Inside the inbox, the current manifest, or above one of the two. Locations are
written from the innermost name outwards. -/
def Confined (cwd : Path) (inbox current : CStr) (q : Path) : Prop :=
  dirPlace cwd inbox <:+ q ∨ q <:+ dirPlace cwd inbox ∨ q <:+ place cwd (join current manifestName)

instance (cwd : Path) (inbox current : CStr) (q : Path) :
    Decidable (Confined cwd inbox current q) :=
  inferInstanceAs (Decidable (_ ∨ _))

/-- The call stays in the confined locations. -/
def Stays (e : Env) (inbox current : CStr) (c : Call) : Prop :=
  ∀ q ∈ touched e c, Confined e.cwd inbox current q

instance (e : Env) (inbox current : CStr) (c : Call) : Decidable (Stays e inbox current c) :=
  inferInstanceAs (Decidable (∀ q ∈ _, _))

/-- The payload's file name has no `..` component. -/
def NameStays (cfg : OtaConfig) (m : Manifest) : Prop :=
  ∀ filename, chosenName cfg m = some filename → NoUp filename

/-- Apart from `mkdir`, a call touches only what it writes. -/
lemma touched_cases {e : Env} {c : Call} {q : Path} (h : q ∈ touched e c) :
    (∃ p m, c = .mkdir p m ∧ q = place e.cwd p) ∨ Writes e c q := by
  cases c with
  | mkdir p m => exact .inl ⟨p, m, rfl, List.mem_singleton.mp h⟩
  | unlink p => exact .inr (List.mem_singleton.mp h)
  | rename s d => exact .inr (.inr (List.mem_singleton.mp h))
  | fopen p => exact .inr (List.mem_singleton.mp h)
  | openWrite p m => exact .inr (List.mem_singleton.mp h)
  | _ => cases h

lemma stays_of_inert {e : Env} {cfg : OtaConfig} {inbox : CStr} {c : Call} (current : CStr)
    (hin : NoUp inbox) (h : InertCall e cfg inbox c) : Stays e inbox current c := by
  intro q hq
  rcases touched_cases hq with ⟨p, m, hc, rfl⟩ | hw
  · obtain ⟨hne, hcut⟩ := h.mkdir p m hc
    exact .inr (.inl (place_cut_suffix hne hin hcut))
  · obtain ⟨n, -, rfl⟩ := h.writes q hw
    exact .inl (List.suffix_cons n _)

/-- The directories that are made for a payload. -/
lemma confined_above_payload {cwd : Path} {inbox filename u : CStr} (current : CStr)
    (hin : NoUp inbox) (hname : NoUp filename) (hne : u ≠ [])
    (h : Above u (join inbox filename)) : Confined cwd inbox current (place cwd u) := by
  rcases above_join_cases h with hcut | ⟨a, rfl, ha⟩
  · exact .inr (.inl (place_cut_suffix hne hin hcut))
  · exact .inl (dirPlace_suffix_place_join cwd inbox (hname.of_above ha))

lemma stays_of_release {e : Env} {cfg : OtaConfig} {ctx : OtaCtx} {inbox current : CStr}
    {m : Manifest} {c : Call} (hb : ctx.Built cfg inbox current) (hm : ctx.inboxManifest = some m)
    (hin : NoUp inbox) (hname : NameStays cfg m) (h : ReleaseCall e ctx c) :
    Stays e inbox current c := by
  intro q hq
  rcases touched_cases hq with ⟨u, mode, rfl, rfl⟩ | hw
  · cases h with
    | fetch release file dir filename path url c hchosen hurl hc =>
      have hdir := hchosen.inboxDir
      rw [hb.config, hb.inboxDir] at hdir
      obtain rfl := Option.some.inj hdir
      have hup := hname filename (chosenName_of_chosen hchosen hb.config hm)
      rcases hc with hc | hc
      · cases hc with
        | mkdir u m hne habove => exact confined_above_payload current hin hup hne habove
      · cases hc
  · obtain ⟨filename, hchosen, hq⟩ := releaseCall_writes hb hm h hw
    have hup := hname filename hchosen
    rcases hq with rfl | rfl
    · exact .inl (dirPlace_suffix_place_join e.cwd inbox hup)
    · rw [tmpOf_join]
      exact .inl (dirPlace_suffix_place_join e.cwd inbox hup.tmpOf)

lemma stays_of_apply {e : Env} {cfg : OtaConfig} {ctx : OtaCtx} {inbox current : CStr} {c : Call}
    (hb : ctx.Built cfg inbox current) (hcur : NoUp current) (h : ApplyCall ctx c) :
    Stays e inbox current c := by
  have hmanifest : Confined e.cwd inbox current (place e.cwd ctx.currentManifestPath) := by
    rw [hb.currentManifest]
    exact .inr (.inr List.suffix_rfl)
  intro q hq
  cases h with
  | mkdir dir u m hdir hne hcut =>
    rw [hb.config, hb.currentDir] at hdir
    obtain rfl := Option.some.inj hdir
    rw [List.mem_singleton.mp hq]
    have hdown : dirPlace e.cwd current <:+ place e.cwd (join current manifestName) :=
      dirPlace_suffix_place_join e.cwd current (by decide)
    exact .inr (.inr ((place_cut_suffix hne hcur hcut).trans hdown))
  | unlink =>
    rw [List.mem_singleton.mp hq]
    exact hmanifest
  | rename =>
    rw [List.mem_singleton.mp hq]
    exact hmanifest
  | _ => cases hq

theorem runCalls_stays {e : Env} {cfg : OtaConfig} {inbox current : CStr}
    (hdir : cfg.inboxManifestDir = some inbox) (hdir' : cfg.currentManifestDir = some current)
    (hin : NoUp inbox) (hcur : NoUp current) :
    RunCalls e cfg (NameStays cfg) (Stays e inbox current) := by
  have hsame : ∀ {ctx : OtaCtx} {inbox' current' : CStr}, ctx.Built cfg inbox' current' →
      inbox' = inbox ∧ current' = current := by
    intro ctx inbox' current' hb
    constructor
    · exact Option.some.inj (hb.inboxDir.symm.trans hdir)
    · exact Option.some.inj (hb.currentDir.symm.trans hdir')
  have hnone : ∀ {c : Call}, touched e c = [] → Stays e inbox current c := by
    intro c hc q hq
    rw [hc] at hq
    cases hq
  exact {
    malloc := hnone rfl
    cleanup := fun hb h => by
      obtain ⟨rfl, rfl⟩ := hsame hb
      exact stays_of_inert _ hin (inertCall_of_cleanup hb h)
    newManifest := fun hb h => by
      obtain ⟨rfl, rfl⟩ := hsame hb
      exact stays_of_inert _ hin (inertCall_of_newManifest hb h)
    verify := fun _ => hnone rfl
    compare := fun h => by cases h <;> exact hnone rfl
    load := fun _ => hnone rfl
    release := fun hb hm hname h => by
      obtain ⟨rfl, rfl⟩ := hsame hb
      exact stays_of_release hb hm hin hname h
    hash := fun _ => hnone rfl
    start := hnone rfl
    pause := fun h => by
      rcases h with ⟨n, rfl⟩ | rfl <;> exact hnone rfl
    apply := fun hb h => by
      obtain ⟨rfl, rfl⟩ := hsame hb
      exact stays_of_apply hb hcur h }

/-- In every run whose directories and file names have no `..` component, every
call stays in the confined locations. -/
theorem otaFetchRun_confined (e : Env) (w : World) (fuel : ℕ) (daemonMode : Bool)
    (cfg : OtaConfig) (inbox current : CStr) (hdir : cfg.inboxManifestDir = some inbox)
    (hdir' : cfg.currentManifestDir = some current) (hin : NoUp inbox) (hcur : NoUp current)
    (hname : Loads (NameStays cfg) (run (exec e) (otaFetchRun fuel daemonMode cfg) w).trace) :
    ∀ s ∈ (run (exec e) (otaFetchRun fuel daemonMode cfg) w).trace,
      Stays e inbox current s.call :=
  otaFetchRun_calls (runCalls_stays hdir hdir' hin hcur) hname

theorem otaFetchRun_confined_device :
    (run (exec (deviceEnv (text "fw") raucBundle)) (otaFetchRun 1 false deviceConfig)
        (.at deviceTree)).value = some 0 ∧
      ∀ s ∈ (run (exec (deviceEnv (text "fw") raucBundle)) (otaFetchRun 1 false deviceConfig)
        (.at deviceTree)).trace,
        Stays (deviceEnv (text "fw") raucBundle) (text "in") (text "cur") s.call := by
  refine ⟨by decide +kernel, otaFetchRun_confined _ _ _ _ _ _ _ rfl rfl (by decide) (by decide) ?_⟩
  have hloads : Loads _ (run (exec (deviceEnv (text "fw") raucBundle))
      (otaFetchRun 1 false deviceConfig) (.at deviceTree)).trace :=
    loads_of_name (show ∀ s ∈ _, loadsOther deviceConfig (text "fw") s = false by decide +kernel)
  refine hloads.mono ?_
  intro m hm filename hchosen
  rw [hm filename hchosen]
  decide

/-- A signed manifest that stores its payload as `../x`. -/
def climbEnv : Env := deviceEnv (text "../x") raucBundleTest

/-- The payload ends up beside the inbox. -/
theorem otaFetchRun_leaves_inbox :
    (¬ ∀ s ∈ (run (exec climbEnv) (otaFetchRun 1 false deviceConfig) (.at deviceTree)).trace,
      Stays climbEnv (text "in") (text "cur") s.call) ∧
    contentAt climbEnv (run (exec climbEnv) (otaFetchRun 1 false deviceConfig)
      (.at deviceTree)).final (text "x") = some bundleBytes := by
  decide +kernel

end OtaFetch.Confine
