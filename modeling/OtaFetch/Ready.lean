import OtaFetch.Storing
import OtaFetch.Confine

/-!
# What a run leaves in the way of the next one

A download needs the parts of its path before a slash to be directories or
missing, and neither its target nor its temporary name to be a directory. With
two directories that are not nested and payload names without a slash, no call
of any run takes that away, whatever fails.
-/
namespace OtaFetch.Ready
open CPath FileTree Interaction Machine Config Releases Fetch Update Iteration Gate Untrusted
open Current MakeDirs Storing

/-- The two directories have no `..` and none of them lies in the other. -/
structure Layout (cwd : Path) (inbox current : CStr) : Prop where
  inboxUp : NoUp inbox
  currentUp : NoUp current
  outside : ¬ dirPlace cwd inbox <:+ dirPlace cwd current
  beside : ¬ dirPlace cwd current <:+ dirPlace cwd inbox

lemma Layout.apart {cwd : Path} {cfg : OtaConfig} {inbox current : CStr}
    (h : Layout cwd inbox current) (hin : cfg.inboxManifestDir = some inbox)
    (hcur : cfg.currentManifestDir = some current) : DirsApart cwd cfg := by
  intro inbox' current' hin' hcur' heq
  obtain rfl := Option.some.inj (hin.symm.trans hin')
  obtain rfl := Option.some.inj (hcur.symm.trans hcur')
  exact h.outside (heq ▸ List.suffix_rfl)

/-- The call makes directories on the way to the two directories only, and writes
entries of the inbox or the current manifest. -/
structure Tidy (e : Env) (inbox current : CStr) (c : Call) : Prop where
  dirs : ∀ u m, c = .mkdir u m →
    place e.cwd u <:+ dirPlace e.cwd inbox ∨ place e.cwd u <:+ dirPlace e.cwd current
  files : ∀ q, Writes e c q →
    (∃ n, q = n :: dirPlace e.cwd inbox) ∨ q = manifestName :: dirPlace e.cwd current

/-- The paths are entries of the inbox, or the current manifest. -/
def Entries (inbox current : CStr) (paths : List CStr) : Prop :=
  ∀ p ∈ paths, (∃ n, Plain n ∧ p = join inbox n) ∨ p = join current manifestName

lemma cons_not_suffix {ν : Type} (n : ν) (p : List ν) : ¬ n :: p <:+ p := by
  intro h
  have hlen := h.length_le
  rw [List.length_cons] at hlen
  omega

/-- An entry of a directory does not lie on the way to another one that is not
below it. -/
lemma entry_not_suffix {ν : Type} {n : ν} {p q : List ν} (h : ¬ p <:+ q) : ¬ n :: p <:+ q :=
  fun hsuffix => h ((List.suffix_cons n p).trans hsuffix)

theorem Tidy.spares {e : Env} {inbox current : CStr} {paths : List CStr} {c : Call}
    (hlayout : Layout e.cwd inbox current) (hpaths : Entries inbox current paths)
    (h : Tidy e inbox current c) : Spares e paths c := by
  have hmanifest : Plain manifestName := by decide
  constructor
  · intro u m hc p hp heq
    rcases hpaths p hp with ⟨n, hn, rfl⟩ | rfl
    · rw [place_join_plain e.cwd inbox hn] at heq
      rcases h.dirs u m hc with hsuffix | hsuffix
      · exact cons_not_suffix n _ (heq ▸ hsuffix)
      · exact entry_not_suffix hlayout.outside (heq ▸ hsuffix)
    · rw [place_join_plain e.cwd current hmanifest] at heq
      rcases h.dirs u m hc with hsuffix | hsuffix
      · exact entry_not_suffix hlayout.beside (heq ▸ hsuffix)
      · exact cons_not_suffix manifestName _ (heq ▸ hsuffix)
  · intro q hw p hp u hu habove heq
    rcases hpaths p hp with ⟨n, hn, rfl⟩ | rfl
    · have hup : q <:+ dirPlace e.cwd inbox :=
        heq ▸ place_cut_suffix hu hlayout.inboxUp (above_join hn.1 habove)
      rcases h.files q hw with ⟨m, rfl⟩ | rfl
      · exact cons_not_suffix m _ hup
      · exact entry_not_suffix hlayout.beside hup
    · have hup : q <:+ dirPlace e.cwd current :=
        heq ▸ place_cut_suffix hu hlayout.currentUp (above_join hmanifest.1 habove)
      rcases h.files q hw with ⟨m, rfl⟩ | rfl
      · exact entry_not_suffix hlayout.outside hup
      · exact cons_not_suffix manifestName _ hup

/-- The payload's file name is one ordinary component. -/
def NamePlain (cfg : OtaConfig) (m : Manifest) : Prop :=
  ∀ filename, chosenName cfg m = some filename → Plain filename

lemma tidy_of_inert {e : Env} {cfg : OtaConfig} {inbox current : CStr} {c : Call}
    (hlayout : Layout e.cwd inbox current) (h : InertCall e cfg inbox c) :
    Tidy e inbox current c := by
  constructor
  · intro u m hc
    obtain ⟨hu, hcut⟩ := h.mkdir u m hc
    exact Or.inl (place_cut_suffix hu hlayout.inboxUp hcut)
  · intro q hw
    obtain ⟨n, -, rfl⟩ := h.writes q hw
    exact Or.inl ⟨n, rfl⟩

/-- A download of an entry of the inbox. -/
lemma tidy_of_fetch {e : Env} {inbox current n : CStr} {req : CurlRequest} {c : Call}
    (hlayout : Layout e.cwd inbox current) (hn : Plain n) (h : FetchCall e req (join inbox n) c) :
    Tidy e inbox current c := by
  have htarget : place e.cwd (join inbox n) = n :: dirPlace e.cwd inbox :=
    place_join_plain e.cwd inbox hn
  have htmp : place e.cwd (tmpOf (join inbox n)) = tmpOf n :: dirPlace e.cwd inbox := by
    rw [tmpOf_join, place_join_plain e.cwd inbox (tmp_plain hn.1)]
  constructor
  · intro u m hc
    subst hc
    rcases h with h | h
    · cases h with
      | mkdir u m hu habove =>
        exact Or.inl (place_cut_suffix hu hlayout.inboxUp (above_join hn.1 habove))
    · cases h
  · intro q hw
    rcases h with h | rfl
    · exact Or.inl ⟨tmpOf n, (tmpCall_writes h hw).trans htmp⟩
    · rcases hw with rfl | rfl
      · exact Or.inl ⟨tmpOf n, htmp⟩
      · exact Or.inl ⟨n, htarget⟩

lemma tidy_of_release {e : Env} {cfg : OtaConfig} {ctx : OtaCtx} {inbox current : CStr}
    {m : Manifest} {c : Call} (hlayout : Layout e.cwd inbox current)
    (hb : ctx.Built cfg inbox current) (hm : ctx.inboxManifest = some m)
    (hname : NamePlain cfg m) (h : ReleaseCall e ctx c) : Tidy e inbox current c := by
  cases h with
  | malloc => exact ⟨by simp, fun q hw => hw.elim⟩
  | fetch release file dir filename path url c hchosen hurl hc =>
    have hdir := hchosen.inboxDir
    rw [hb.config, hb.inboxDir] at hdir
    obtain rfl := Option.some.inj hdir
    exact tidy_of_fetch hlayout (hname filename (chosenName_of_chosen hchosen hb.config hm)) hc

lemma tidy_of_apply {e : Env} {cfg : OtaConfig} {ctx : OtaCtx} {inbox current : CStr} {c : Call}
    (hlayout : Layout e.cwd inbox current) (hb : ctx.Built cfg inbox current)
    (h : ApplyCall ctx c) : Tidy e inbox current c := by
  have hcurrent : place e.cwd ctx.currentManifestPath = manifestName :: dirPlace e.cwd current := by
    rw [hb.currentManifest, place_join_plain e.cwd current (by decide)]
  have hinbox : place e.cwd ctx.inboxManifestPath = manifestName :: dirPlace e.cwd inbox := by
    rw [hb.inboxManifest, place_join_plain e.cwd inbox (by decide)]
  cases h with
  | mkdir dir u m hdir hu hcut =>
    rw [hb.config, hb.currentDir] at hdir
    obtain rfl := Option.some.inj hdir
    refine ⟨?_, fun q hw => hw.elim⟩
    intro u' m' hc
    cases hc
    exact Or.inr (place_cut_suffix hu hlayout.currentUp hcut)
  | unlink =>
    refine ⟨by simp, fun q hw => Or.inr ?_⟩
    exact hw.trans hcurrent
  | rename =>
    refine ⟨by simp, fun q hw => ?_⟩
    rcases hw with rfl | rfl
    · exact Or.inl ⟨manifestName, hinbox⟩
    · exact Or.inr hcurrent
  | spawn _ => exact ⟨by simp, fun q hw => hw.elim⟩
  | waitpid => exact ⟨by simp, fun q hw => hw.elim⟩
  | sync => exact ⟨by simp, fun q hw => hw.elim⟩
  | reboot => exact ⟨by simp, fun q hw => hw.elim⟩

theorem runCalls_tidy {e : Env} {cfg : OtaConfig} {inbox current : CStr}
    (hin : cfg.inboxManifestDir = some inbox) (hcur : cfg.currentManifestDir = some current)
    (hlayout : Layout e.cwd inbox current) :
    RunCalls e cfg (NamePlain cfg) (Tidy e inbox current) := by
  have hsame : ∀ {ctx : OtaCtx} {inbox' current' : CStr}, ctx.Built cfg inbox' current' →
      ctx.Built cfg inbox current := by
    intro ctx inbox' current' hb
    obtain rfl : inbox' = inbox := Option.some.inj (hb.inboxDir.symm.trans hin)
    obtain rfl : current' = current := Option.some.inj (hb.currentDir.symm.trans hcur)
    exact hb
  exact {
    malloc := ⟨by simp, fun q hw => hw.elim⟩
    cleanup := fun hb h => tidy_of_inert hlayout (inertCall_of_cleanup (hsame hb) h)
    newManifest := fun hb h => tidy_of_inert hlayout (inertCall_of_newManifest (hsame hb) h)
    verify := fun _ => ⟨by simp, fun q hw => hw.elim⟩
    compare := fun h => by cases h <;> exact ⟨by simp, fun q hw => hw.elim⟩
    load := fun _ => ⟨by simp, fun q hw => hw.elim⟩
    release := fun hb hm hname h => tidy_of_release hlayout (hsame hb) hm hname h
    hash := fun _ => ⟨by simp, fun q hw => hw.elim⟩
    start := ⟨by simp, fun q hw => hw.elim⟩
    pause := fun h => by
      rcases h with ⟨n, rfl⟩ | rfl <;> exact ⟨by simp, fun q hw => hw.elim⟩
    apply := fun hb h => tidy_of_apply hlayout (hsame hb) h }

/-- The entries of the inbox that an iteration needs, and the current manifest. -/
def targets (inbox current filename : CStr) : List CStr :=
  [join inbox manifestName, tmpOf (join inbox manifestName), join inbox sigName,
    tmpOf (join inbox sigName), join inbox certName, tmpOf (join inbox certName),
    join inbox filename, tmpOf (join inbox filename), join current manifestName]

lemma targets_entries (inbox current : CStr) {filename : CStr} (h : Plain filename) :
    Entries inbox current (targets inbox current filename) := by
  have hentry : ∀ {n}, Plain n → (∃ m, Plain m ∧ join inbox n = join inbox m) ∨
      join inbox n = join current manifestName := fun hn => Or.inl ⟨_, hn, rfl⟩
  have htmp : ∀ {n}, Plain n → (∃ m, Plain m ∧ tmpOf (join inbox n) = join inbox m) ∨
      tmpOf (join inbox n) = join current manifestName :=
    fun hn => Or.inl ⟨_, tmp_plain hn.1, tmpOf_join inbox _⟩
  have hm : Plain manifestName := by decide
  have hs : Plain sigName := by decide
  have hc : Plain certName := by decide
  unfold Entries targets
  rw [List.forall_mem_cons, List.forall_mem_cons, List.forall_mem_cons, List.forall_mem_cons,
    List.forall_mem_cons, List.forall_mem_cons, List.forall_mem_cons, List.forall_mem_cons,
    List.forall_mem_singleton]
  exact ⟨hentry hm, htmp hm, hentry hs, htmp hs, hentry hc, htmp hc, hentry h, htmp h, Or.inr rfl⟩

end OtaFetch.Ready
