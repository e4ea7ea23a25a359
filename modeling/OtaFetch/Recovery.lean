import OtaFetch.Ready
import OtaFetch.Poll

/-!
# Recovery

Once failures stop and the server offers a release, one iteration brings the
device to it, from every state that a run can be cut off in. What is asked of the
device is asked of its configuration and of the tree before anything went wrong;
what is asked of the environment, of the time after.
-/
namespace OtaFetch.Recovery
open CPath FileTree Stdio Interaction Machine Config Releases Hash Verify Fetch Update
open Iteration Stages Gate Untrusted Current MakeDirs Smooth Poll Storing Ready

/-- No call fails, every write and read goes through whole, and the installer
succeeds. -/
structure Calm (e : Env) : Prop where
  fault : ∀ n c, e.fault n c = none
  accept : ∀ m n req, ∀ chunk ∈ (e.server n req).chunks, chunk.length ≤ e.accept m
  hash : ∀ n data, HashedAll (e.hash n) data
  child : ∀ n, e.child n = .exited 0

/-- The server delivers the offer whenever it is asked, the manifest can be read
whole, and its signature is valid for the certificate authority in `root`. -/
structure Offers (e : Env) (cfg : OtaConfig) (url inbox : CStr) (root : Bytes) (o : Offer) :
    Prop where
  manifest : ∀ n, Delivers (e.server n (fetchRequest (join url manifestName) cfg false)) o.manifest
  sig : ∀ n, Delivers (e.server n (fetchRequest (join url sigName) cfg false)) o.sig
  cert : ∀ n, Delivers (e.server n (fetchRequest (join url certName) cfg false)) o.cert
  payload : ∀ n, Delivers (e.server n (fetchRequest (join url o.path) cfg true)) o.payload
  loads : ∀ n, ReadWhole (e.loadRead n) o.manifest
  signed : ∀ n (src : CStr → Source), src (join inbox manifestName) = .file o.manifest →
    src (join inbox sigName) = .file o.sig → src (join inbox certName) = .file o.cert →
    (∀ ca, cfg.manifestCaCert = some ca → src ca = .file root) →
    (verifySignatureWithCert (e.verify n) src (some (join inbox manifestName))
      (some (join inbox sigName)) (some (join inbox certName)) cfg.manifestCaCert
      verifyErrbufLen).1 = .ok

/-- Calls that succeed in a calm environment whatever the tree is. -/
def Easy : Call → Prop
  | .startCheck | .malloc | .unlink _ | .opendir _ | .fflush _ | .fclose _ | .curlInit
  | .perform _ | .spawn _ | .waitpid | .sync | .reboot => True
  | _ => False

lemma local_easy {e : Env} (hcalm : Calm e) {w v : World} {c : Call} {r : Resp c}
    (hx : exec e w c = (r, v)) (hc : Easy c) : LocalOk e w c r := by
  have hr : r = (exec e w c).1 := by rw [hx]
  subst hr
  cases c <;> first | exact hc.elim | trivial | skip
  · simp [LocalOk, exec, hcalm.fault]
  · simp [LocalOk, exec, hcalm.fault]
  · simp [LocalOk, exec, hcalm.fault]
  · simp [LocalOk, exec, hcalm.fault]

/-- A call that is not a verification does its part, if it does so locally. -/
lemma fair_of_local {e : Env} {cfg : OtaConfig} {url inbox : CStr} {root : Bytes} {o : Offer}
    (hcalm : Calm e) (hoffers : Offers e cfg url inbox root o) {w v : World} {c : Call}
    {r : Resp c} (hx : exec e w c = (r, v)) (hc : ∀ d g x ca n, c ≠ .verify d g x ca n)
    (hlocal : LocalOk e w c r) : Fair e cfg url o ⟨w, c, r, v⟩ := by
  have hr : r = (exec e w c).1 := by rw [hx]
  refine ⟨hlocal, ?_⟩
  subst hr
  cases c with
  | perform req =>
    refine ⟨?_, ?_, ?_, ?_⟩
    · rintro rfl
      exact hoffers.manifest w.clock
    · rintro rfl
      exact hoffers.sig w.clock
    · rintro rfl
      exact hoffers.cert w.clock
    · rintro rfl
      exact hoffers.payload w.clock
  | verify d g x ca n => exact absurd rfl (hc d g x ca n)
  | spawn argv => simp [Serves, exec, hcalm.fault]
  | waitpid => simp [Serves, exec, hcalm.fault, hcalm.child]
  | _ => trivial

lemma fair_easy {e : Env} {cfg : OtaConfig} {url inbox : CStr} {root : Bytes} {o : Offer}
    (hcalm : Calm e) (hoffers : Offers e cfg url inbox root o) {w v : World} {c : Call}
    {r : Resp c} (hx : exec e w c = (r, v)) (hc : Easy c) : Fair e cfg url o ⟨w, c, r, v⟩ := by
  refine fair_of_local hcalm hoffers hx ?_ (local_easy hcalm hx hc)
  rintro d g x ca n rfl
  exact hc

/-- Every `mkdir` of a `mkdir_p` that succeeds counts as done. -/
lemma mkdirLoop_replies (e : Env) (w : World) (m : ℕ) (done rest : CStr) :
    Yields (exec e) w (mkdirLoop m done rest) (fun rc t _ =>
      rc = 0 → ∀ s ∈ t, LocalOk e s.before s.call s.reply ∧ ∃ u m, s.call = .mkdir u m) := by
  have hone : ∀ (w : World) (u : CStr), Yields (exec e) w (mkdirOne u m) (fun b t _ =>
      b = true → ∀ s ∈ t, LocalOk e s.before s.call s.reply ∧ ∃ u m, s.call = .mkdir u m) := by
    intro w u
    unfold mkdirOne
    refine Yields.call ?_
    intro r v _
    split
    · exact Yields.ret fun _ => List.forall_mem_singleton.mpr ⟨Or.inl rfl, u, m, rfl⟩
    · exact Yields.ret fun _ => List.forall_mem_singleton.mpr ⟨Or.inr rfl, u, m, rfl⟩
    · exact Yields.ret fun h => absurd h (by decide)
  induction rest generalizing done w with
  | nil =>
    unfold mkdirLoop
    refine Yields.bind _ (hone w done) ?_
    intro b t v hb _
    cases b with
    | true => exact Yields.ret fun _ => by simpa using hb rfl
    | false => exact Yields.ret fun h => absurd h (by decide)
  | cons c rest ih =>
    unfold mkdirLoop
    split_ifs with hc
    · refine Yields.bind _ (hone w done) ?_
      intro b t v hb _
      cases b with
      | true =>
        refine (ih v (done ++ [c])).mono ?_
        intro rc t' u hrest hrc
        exact List.forall_mem_append.mpr ⟨hb rfl, hrest hrc⟩
      | false => exact Yields.ret fun h => absurd h (by decide)
    · exact ih w (done ++ [c])

lemma mkdirP_assured {e : Env} {cfg : OtaConfig} {url inbox : CStr} {root : Bytes} {o : Offer}
    (hcalm : Calm e) (hoffers : Offers e cfg url inbox root o) {w : World} {dir : CStr} (m : ℕ)
    (hcwd : w.fs.node e.cwd = some .dir) (hne : dir ≠ []) (hlen : dir.length < pathMax)
    (hfree : ∀ u, u ≠ [] → Cut u dir → w.fs.fileAt (place e.cwd u) = none) :
    Assured (exec e) (Fair e cfg url o) w (mkdirP dir m) (fun rc _ v => rc = 0 ∧
      v.fs.node e.cwd = some .dir ∧
      ∀ u, u ≠ [] → Cut u dir → v.fs.node (place e.cwd u) = some .dir) := by
  have hmade := mkdirP_dirs (fun n _ _ => hcalm.fault n _) m hcwd hne hlen hfree
  have hreplies : Yields (exec e) w (mkdirP dir m) (fun rc t _ =>
      rc = 0 → ∀ s ∈ t, LocalOk e s.before s.call s.reply ∧ ∃ u m, s.call = .mkdir u m) := by
    unfold mkdirP
    rw [if_neg hne, if_neg (by omega)]
    exact mkdirLoop_replies e w m _ _
  refine ⟨?_, hmade⟩
  intro s hs
  obtain ⟨hlocal, u, m', hcall⟩ := hreplies hmade.1 s hs
  have hans := (run_chain (exec e) (mkdirP dir m) w).answer hs
  refine fair_of_local hcalm hoffers hans.symm ?_ hlocal
  intro d g x ca n hverify
  rw [hcall] at hverify
  cases hverify

/-- The directories for a download are made. -/
lemma ensureParentDirExists_assured {e : Env} {cfg : OtaConfig} {url inbox : CStr}
    {root : Bytes} {o : Offer} (hcalm : Calm e) (hoffers : Offers e cfg url inbox root o)
    {w : World} {dest : CStr} (hcwd : w.fs.node e.cwd = some .dir)
    (hclear : Clear w.fs e.cwd dest) (hlen : dest.length < pathMax) :
    Assured (exec e) (Fair e cfg url o) w (ensureParentDirExists dest) (fun rc _ v => rc = 0 ∧
      v.fs.node e.cwd = some .dir ∧ Dirs v.fs e.cwd dest) := by
  have htake : dest.take (pathMax - 1) = dest := List.take_of_length_le (by omega)
  unfold ensureParentDirExists
  rw [htake]
  cases hcut : cutLast dest with
  | none =>
    refine Assured.ret ⟨rfl, hcwd, ?_⟩
    rintro u - ⟨r, rfl⟩
    exact absurd (by simp) (cutLast_none hcut)
  | some dir =>
    obtain ⟨c, hc, rfl⟩ := cutLast_some hcut
    have hparts : ∀ {u}, Above u (dir ++ slash :: c) → Cut u dir := fun h => above_join hc h
    dsimp only
    split_ifs with hdir
    · refine Assured.ret ⟨rfl, hcwd, ?_⟩
      intro u hu habove
      rcases hparts habove with rfl | ⟨r, hr⟩
      · exact absurd hdir hu
      · rw [hdir] at hr
        simp at hr
    · have hshort : dir.length < pathMax := by
        rw [List.length_append] at hlen
        omega
      have hfree : ∀ u, u ≠ [] → Cut u dir → w.fs.fileAt (place e.cwd u) = none :=
        fun u hu hcut => hclear u hu (hcut.above ⟨c, rfl⟩)
      refine (mkdirP_assured hcalm hoffers 493 hcwd hdir hshort hfree).mono ?_
      rintro rc t v ⟨hrc, hhere, hdirs⟩
      exact ⟨hrc, hhere, fun u hu habove => hdirs u hu (hparts habove)⟩

lemma deliver_assured {e : Env} {cfg : OtaConfig} {url inbox dest : CStr} {root : Bytes}
    {o : Offer} (hcalm : Calm e) (hoffers : Offers e cfg url inbox root o) {w : World}
    {chunks : List Bytes} {fp : Stream} (hfp : fp.loc = place e.cwd (tmpOf dest))
    (hchunks : ∀ m, ∀ chunk ∈ chunks, chunk.length ≤ e.accept m) (h : Opened e dest w) :
    Assured (exec e) (Fair e cfg url o) w (deliver chunks fp) (fun r _ v =>
      r.1 = true ∧ r.2.loc = place e.cwd (tmpOf dest) ∧ Opened e dest v) := by
  induction chunks generalizing w fp with
  | nil => exact Assured.ret ⟨rfl, hfp, h⟩
  | cons chunk rest ih =>
    have htail : ∀ m, ∀ chunk ∈ rest, chunk.length ≤ e.accept m :=
      fun m c hc => hchunks m c (List.mem_cons_of_mem chunk hc)
    have hwrite : Assured (exec e) (Fair e cfg url o) w (fileWriteCallback chunk fp)
        (fun r _ v => r.1 = chunk.length ∧ r.2.loc = place e.cwd (tmpOf dest) ∧
          Opened e dest v) := by
      unfold fileWriteCallback
      split_ifs with hempty
      · rw [hempty]
        exact Assured.ret ⟨rfl, hfp, h⟩
      · refine Assured.op ?_
        intro r v hx
        have hwhole : min (e.accept w.clock) chunk.length = chunk.length :=
          min_eq_right (hchunks w.clock chunk List.mem_cons_self)
        have hr : r.1 = chunk.length := by
          rw [← hwhole]
          exact congrArg (fun a => a.1.1) hx.symm
        have hloc : r.2.loc = fp.loc := congrArg (fun a => a.1.2.loc) hx.symm
        have hfs : v.fs = append w.fs fp.loc _ := congrArg (fun a => a.2.fs) hx.symm
        rw [hfp] at hfs
        exact ⟨fair_of_local hcalm hoffers hx (by simp) hr, hr, hloc.trans hfp, h.modify hfs⟩
    unfold deliver
    refine Assured.bind _ hwrite ?_
    rintro ⟨n, fp'⟩ t v ⟨hn, hloc, hopened⟩ -
    dsimp only at hn ⊢
    rw [if_pos hn]
    exact ih hloc htail hopened

/-- The body of a transfer that is served comes in whole and is moved into place. -/
lemma fetchOpened_assured {e : Env} {cfg : OtaConfig} {url inbox dest src : CStr} {root : Bytes}
    {o : Offer} {showProgress : Bool} {body : Bytes} (hcalm : Calm e)
    (hoffers : Offers e cfg url inbox root o)
    (hserved : ∀ n, Delivers (e.server n (fetchRequest src cfg showProgress)) body)
    (hne : dest ≠ []) (hlen : (tmpOf dest).length < pathMax) {w : World} {fp : Stream}
    (hfp : fp.loc = place e.cwd (tmpOf dest)) (h : Opened e dest w) :
    Assured (exec e) (Fair e cfg url o) w (fetchOpened src dest cfg showProgress fp)
      (fun _ _ _ => True) := by
  unfold fetchOpened
  refine Assured.call ?_
  intro r₁ w₁ hx₁
  have hr₁ : r₁ = true := local_easy hcalm hx₁ trivial
  have hfs₁ : w₁.fs = w.fs := congrArg (fun a => a.2.fs) hx₁.symm
  have h₁ := h.of_fs hfs₁
  refine ⟨fair_easy hcalm hoffers hx₁ trivial, ?_⟩
  subst hr₁
  have hperform : Assured (exec e) (Fair e cfg url o) w₁
      (curlEasyPerform (fetchRequest src cfg showProgress) fp) (fun res _ v =>
        res.result = curleOk ∧ 200 ≤ res.status ∧ res.status < 300 ∧
          res.fp.loc = place e.cwd (tmpOf dest) ∧ Opened e dest v) := by
    unfold curlEasyPerform
    refine Assured.call ?_
    intro tr w₂ hx₂
    have htr : tr = e.server w₁.clock (fetchRequest src cfg showProgress) :=
      congrArg Prod.fst hx₂.symm
    have hfs₂ : w₂.fs = w₁.fs := congrArg (fun a => a.2.fs) hx₂.symm
    have h₂ := h₁.of_fs hfs₂
    obtain ⟨hresult, hlow, hhigh, -⟩ := hserved w₁.clock
    refine ⟨fair_easy hcalm hoffers hx₂ trivial, ?_⟩
    subst htr
    refine Assured.bind _ (deliver_assured hcalm hoffers hfp
      (fun m => hcalm.accept m w₁.clock _) h₂) ?_
    rintro ⟨taken, fp'⟩ t v ⟨htaken, hloc, hopened⟩ -
    dsimp only at htaken hloc
    subst htaken
    exact Assured.ret ⟨hresult, hlow, hhigh, hloc, hopened⟩
  refine Assured.bind _ hperform ?_
  rintro res t w₃ ⟨hresult, hlow, hhigh, hloc, h₃⟩ -
  rw [if_neg (not_not.mpr hresult), if_neg (by omega)]
  refine Assured.call ?_
  rintro ⟨flushed, fp'⟩ w₄ hx₄
  have hflushed : flushed = .ok () := local_easy hcalm hx₄ trivial
  have hstream : fp' = ⟨res.fp.loc, []⟩ ∧ w₄.fs = append w₃.fs res.fp.loc res.fp.pending := by
    simp only [exec, hcalm.fault] at hx₄
    obtain ⟨hpair, hworld⟩ := Prod.mk.inj hx₄
    exact ⟨(Prod.mk.inj hpair).2.symm, by rw [← hworld]; rfl⟩
  refine ⟨fair_easy hcalm hoffers hx₄ trivial, ?_⟩
  obtain ⟨rfl, hfs₄⟩ := hstream
  rw [hloc] at hfs₄
  have h₄ := h₃.modify hfs₄
  subst hflushed
  refine Assured.call ?_
  intro closed w₅ hx₅
  have hclosed : closed = .ok () := local_easy hcalm hx₅ trivial
  have hfs₅ : w₅.fs = append w₄.fs res.fp.loc [] := by
    simp only [exec, hcalm.fault] at hx₅
    rw [← (Prod.mk.inj hx₅).2]
    rfl
  rw [hloc] at hfs₅
  have h₅ := h₄.modify hfs₅
  refine ⟨fair_easy hcalm hoffers hx₅ trivial, ?_⟩
  subst hclosed
  refine Assured.call ?_
  intro moved w₆ hx₆
  have htmp : tmpOf dest ≠ [] := by simp [tmpOf, hne]
  have hshort : dest.length < pathMax := by
    rw [tmpOf, List.length_append] at hlen
    omega
  obtain ⟨f, hf⟩ := h₅.tmp
  have hmoved : moved = .ok () := rename_succeeds hcalm.fault hx₆
    (locate_of_parts htmp hlen h₅.here h₅.dirs.tmpOf) hf
    (locate_of_parts hne hshort h₅.here h₅.dirs) h₅.vacant
  refine ⟨fair_of_local hcalm hoffers hx₆ (by simp) hmoved, ?_⟩
  subst hmoved
  exact Assured.ret trivial

/-- The configuration, and paths below its two directories that are not too long. -/
structure Site (e : Env) (cfg : OtaConfig) (url inbox current : CStr) (paths : List CStr) :
    Prop where
  serverUrl : cfg.serverUrl = some url
  inboxDir : cfg.inboxManifestDir = some inbox
  currentDir : cfg.currentManifestDir = some current
  layout : Layout e.cwd inbox current
  entries : Entries inbox current paths
  short : ∀ p ∈ paths, p.length < pathMax

theorem fetchFile_assured {e : Env} {cfg : OtaConfig} {url inbox current n src : CStr}
    {paths : List CStr} {root : Bytes} {o : Offer} {showProgress : Bool} {body : Bytes}
    (hcalm : Calm e) (hoffers : Offers e cfg url inbox root o)
    (hsite : Site e cfg url inbox current paths)
    (hserved : ∀ n, Delivers (e.server n (fetchRequest src cfg showProgress)) body)
    (hn : Plain n) (hdest : join inbox n ∈ paths) (htmp : tmpOf (join inbox n) ∈ paths)
    {w : World} (hready : ReadyFor e.cwd paths w.fs) :
    Assured (exec e) (Fair e cfg url o) w (fetchFile src (join inbox n) cfg showProgress)
      (fun _ _ v => ReadyFor e.cwd paths v.fs) := by
  have hkept : Yields (exec e) w (fetchFile src (join inbox n) cfg showProgress)
      (fun _ _ v => ReadyFor e.cwd paths v.fs) := by
    have hcalls := (calls_of_obeys (fetchFile_obeys e src (join inbox n) cfg showProgress) w).1
    refine (ready_chain (run_chain _ _ _) ?_ hready).1
    intro s hs
    exact (tidy_of_fetch hsite.layout hn (hcalls s hs)).spares hsite.layout hsite.entries
  have hmade : Yields (exec e) w (ensureParentDirExists (join inbox n))
      (fun _ _ v => ReadyFor e.cwd paths v.fs) := by
    have hcalls := (calls_of_obeys (ensureParentDirExists_obeys (Lawful e) (join inbox n)) w).1
    refine (ready_chain (run_chain _ _ _) ?_ hready).1
    intro s hs
    obtain ⟨u, m, hcall, hu, habove⟩ := hcalls s hs
    have hfetch : FetchCall e (fetchRequest src cfg showProgress) (join inbox n) s.call := by
      rw [hcall]
      exact Or.inl (.mkdir u m hu habove)
    exact (tidy_of_fetch hsite.layout hn hfetch).spares hsite.layout hsite.entries
  have hrun : Assured (exec e) (Fair e cfg url o) w
      (fetchFile src (join inbox n) cfg showProgress) (fun _ _ _ => True) := by
    unfold fetchFile
    refine Assured.bind _ ((ensureParentDirExists_assured hcalm hoffers hready.here
      (hready.free _ hdest).clear (hsite.short _ hdest)).and hmade) ?_
    rintro rc t w₁ ⟨⟨rfl, hcwd, hdirs⟩, hready₁⟩ -
    rw [if_neg (by simp)]
    refine Assured.call ?_
    intro r₂ w₂ hx₂
    have hr₂ : r₂ = true := local_easy hcalm hx₂ trivial
    have hfs₂ : w₂.fs = w₁.fs := congrArg (fun a => a.2.fs) hx₂.symm
    refine ⟨fair_easy hcalm hoffers hx₂ trivial, ?_⟩
    subst hr₂
    rw [← hfs₂] at hcwd hdirs hready₁
    refine Assured.call ?_
    intro r₃ w₃ hx₃
    have hlocate := locate_of_parts (tmpOf_ne_nil _) (hsite.short _ htmp) hcwd hdirs.tmpOf
    have hopen : r₃ = .ok ⟨place e.cwd (tmpOf (join inbox n)), []⟩ :=
      openAs_succeeds (hcalm.fault _ _) hx₃ hlocate (hready₁.free _ htmp).vacant
    refine ⟨fair_of_local hcalm hoffers hx₃ (by simp) (by rw [hopen]; rfl), ?_⟩
    subst hopen
    exact fetchOpened_assured hcalm hoffers hserved (join_ne_nil _ _) (hsite.short _ htmp) rfl
      (Opened.of_openAs hx₃ hcwd hdirs (hready₁.free _ hdest).vacant)
  exact hrun.and hkept |>.mono fun _ _ _ h => h.2

/-- The path is neither an entry of the inbox nor the current manifest. -/
def Elsewhere (cwd : Path) (inbox current p : CStr) : Prop :=
  (∀ n, place cwd p ≠ n :: dirPlace cwd inbox) ∧ place cwd p ≠ manifestName :: dirPlace cwd current

/-- The paths are free and the certificate authority can be read. -/
structure Prepared (e : Env) (cfg : OtaConfig) (paths : List CStr) (root : Bytes) (w : World) :
    Prop where
  ready : ReadyFor e.cwd paths w.fs
  authority : ∀ ca, cfg.manifestCaCert = some ca → sourceAt w.fs e.cwd ca = .file root

/-- Tidy calls leave a device prepared, in every state on the way. -/
theorem prepared_chain {e : Env} {cfg : OtaConfig} {inbox current : CStr} {paths : List CStr}
    {root : Bytes} (hlayout : Layout e.cwd inbox current) (hentries : Entries inbox current paths)
    (hca : ∀ ca, cfg.manifestCaCert = some ca → Elsewhere e.cwd inbox current ca)
    {w v : World} {t : Trace} (hc : Chain (exec e) w t v)
    (htidy : ∀ s ∈ t, Tidy e inbox current s.call) (h : Prepared e cfg paths root w) :
    Prepared e cfg paths root v ∧ ∀ s ∈ t, Prepared e cfg paths root s.after := by
  obtain ⟨hfinal, hafter⟩ := ready_chain hc
    (fun s hs => (htidy s hs).spares hlayout hentries) h.ready
  have hsource : ∀ ca, cfg.manifestCaCert = some ca → sourceAt v.fs e.cwd ca = .file root ∧
      ∀ s ∈ t, sourceAt s.after.fs e.cwd ca = .file root := by
    intro ca hsome
    refine chain_sourceAt hc ?_ (h.authority ca hsome)
    intro s hs hw
    obtain ⟨hinbox, hcurrent⟩ := hca ca hsome
    rcases (htidy s hs).files _ hw with ⟨n, hn⟩ | hm
    · exact hinbox n hn
    · exact hcurrent hm
  refine ⟨⟨hfinal, fun ca hsome => (hsource ca hsome).1⟩, ?_⟩
  intro s hs
  exact ⟨hafter s hs, fun ca hsome => (hsource ca hsome).2 s hs⟩

lemma dir_suffix {t : Tree CStr FileRec} {p q : Path} (h : q <:+ p) (hp : t.node p = some .dir) :
    t.node q = some .dir := by
  induction p with
  | nil =>
    rw [List.suffix_nil.mp h]
    exact hp
  | cons n p ih =>
    rcases List.suffix_cons_iff.mp h with rfl | h
    · exact hp
    · exact ih h (Tree.node_tail hp)

/-- A file that exists in a directory without `..` is found there. -/
lemma source_of_content {e : Env} {w : World} {d n : CStr} {b : Bytes} (hn : Plain n)
    (hup : NoUp d) (hlen : (join d n).length < pathMax) (hcwd : w.fs.node e.cwd = some .dir)
    (h : contentAt e w (join d n) = some b) : sourceAt w.fs e.cwd (join d n) = .file b := by
  have hdir : w.fs.node (dirPlace e.cwd d) = some .dir := by
    obtain ⟨f, hf, -⟩ := Option.map_eq_some_iff.mp h
    rw [Tree.fileAt_eq_some, place_join_plain e.cwd d hn] at hf
    exact w.fs.nested n _ (by simp [hf])
  have hparts : ∀ u, u ≠ [] → Above u (join d n) → w.fs.node (place e.cwd u) = some .dir :=
    fun u hu habove => dir_suffix (place_cut_suffix hu hup (above_join hn.1 habove)) hdir
  exact (sourceAt_eq_file (locate_of_parts (join_ne_nil d n) hlen hcwd hparts)).mpr h

lemma hash_answers {e : Env} (hcalm : Calm e) {w v : World} {p : CStr} {b : Bytes}
    {r : Except Sha256sumErr Digest} (hx : exec e w (.sha256sum (some p)) = (r, v))
    (hp : sourceAt w.fs e.cwd p = .file b) : r.isOk = true := by
  have hr : r = sha256sumFile e.sha256 (e.hash w.clock) (sourceAt w.fs e.cwd) (some p) :=
    congrArg Prod.fst hx.symm
  rw [hr, (sha256sumFile_ok_iff _ _ _ _ _).mpr ⟨p, b, rfl, hp, hcalm.hash w.clock b, rfl⟩]
  rfl

/-- All that an iteration needs from its environment and its configuration. -/
structure Favourable (e : Env) (cfg : OtaConfig) (url inbox current : CStr) (root : Bytes)
    (o : Offer) : Prop where
  calm : Calm e
  offers : Offers e cfg url inbox root o
  fit : o.Fit e cfg inbox
  name : Plain o.filename
  site : Site e cfg url inbox current (targets inbox current o.filename)
  authority : ∀ ca, cfg.manifestCaCert = some ca → Elsewhere e.cwd inbox current ca

/-- The tree and the certificate authority are in order for the offer. -/
abbrev InOrder (e : Env) (cfg : OtaConfig) (inbox current : CStr) (root : Bytes) (o : Offer)
    (w : World) : Prop :=
  Prepared e cfg (targets inbox current o.filename) root w

lemma inOrder_of_obeys {e : Env} {cfg : OtaConfig} {url inbox current : CStr} {root : Bytes}
    {o : Offer} (h : Favourable e cfg url inbox current root o) {α : Type} {m : Proc α}
    {A : Call → Prop} {V : α → Prop} (hm : Obeys (Lawful e) A V m)
    (hA : ∀ c, A c → Tidy e inbox current c) {w : World}
    (hw : InOrder e cfg inbox current root o w) :
    Yields (exec e) w m (fun _ _ v => InOrder e cfg inbox current root o v) := by
  have hcalls := (calls_of_obeys hm w).1
  exact (prepared_chain h.site.layout h.site.entries h.authority (run_chain _ _ _)
    (fun s hs => hA _ (hcalls s hs)) hw).1

lemma InOrder.of_fs {e : Env} {cfg : OtaConfig} {inbox current : CStr} {root : Bytes} {o : Offer}
    {w v : World} (h : InOrder e cfg inbox current root o w) (hfs : v.fs = w.fs) :
    InOrder e cfg inbox current root o v := by
  obtain ⟨hready, hauthority⟩ := h
  rw [← hfs] at hready hauthority
  exact ⟨hready, hauthority⟩

lemma buildPath_assured {e : Env} {cfg : OtaConfig} {url inbox current : CStr} {root : Bytes}
    {o : Offer} (h : Favourable e cfg url inbox current root o) (w : World) (d f : CStr) :
    Assured (exec e) (Fair e cfg url o) w (buildPath (some d) (some f)) (fun r _ v =>
      r = some (join d f) ∧ v.fs = w.fs) := by
  unfold buildPath
  refine Assured.call ?_
  intro r v hx
  have hr : r = true := local_easy h.calm hx trivial
  have hfs : v.fs = w.fs := congrArg (fun a => a.2.fs) hx.symm
  subst hr
  exact ⟨fair_easy h.calm h.offers hx trivial, Assured.ret ⟨rfl, hfs⟩⟩

/-- Programs whose calls are easy. -/
lemma easy_assured {e : Env} {cfg : OtaConfig} {url inbox current : CStr} {root : Bytes}
    {o : Offer} (h : Favourable e cfg url inbox current root o) {α : Type} {m : Proc α}
    {A : Call → Prop} {V : α → Prop} (hm : Obeys (Lawful e) A V m) (hA : ∀ c, A c → Easy c)
    (w : World) : Assured (exec e) (Fair e cfg url o) w m (fun _ _ _ => True) := by
  refine ⟨?_, trivial⟩
  intro s hs
  have hcall := (calls_of_obeys hm w).1 s hs
  exact fair_easy h.calm h.offers ((run_chain (exec e) m w).answer hs).symm (hA _ hcall)

lemma otaCtxInit_assured {e : Env} {cfg : OtaConfig} {url inbox current : CStr} {root : Bytes}
    {o : Offer} (h : Favourable e cfg url inbox current root o) (w : World) :
    Assured (exec e) (Fair e cfg url o) w (otaCtxInit cfg) (fun r _ _ =>
      r = some (freshCtx cfg inbox current)) := by
  have heasy := easy_assured h (otaCtxInit_obeys (Lawful e) cfg) (by rintro c rfl; trivial) w
  refine (heasy.grant (otaCtxInit_granted (fair_local e cfg url o) w h.site.inboxDir
    h.site.currentDir)).mono ?_
  intro r t v hr
  exact hr.2.1

lemma otaInboxCleanup_assured {e : Env} {cfg : OtaConfig} {url inbox current : CStr}
    {root : Bytes} {o : Offer} (h : Favourable e cfg url inbox current root o) {w : World}
    (hw : InOrder e cfg inbox current root o w) :
    Assured (exec e) (Fair e cfg url o) w (otaInboxCleanup (freshCtx cfg inbox current))
      (fun _ _ v => InOrder e cfg inbox current root o v) := by
  have hobeys := otaInboxCleanup_obeys e (freshCtx cfg inbox current)
  have hbuilt := freshCtx_built h.site.inboxDir h.site.currentDir
  have heasy := easy_assured h hobeys (by intro c hc; cases hc <;> trivial) w
  refine (heasy.and (inOrder_of_obeys h hobeys ?_ hw)).mono fun _ _ _ hv => hv.2
  intro c hc
  exact tidy_of_inert h.site.layout (inertCall_of_cleanup hbuilt hc)

lemma fetchNewManifest_assured {e : Env} {cfg : OtaConfig} {url inbox current : CStr}
    {root : Bytes} {o : Offer} (h : Favourable e cfg url inbox current root o) {w : World}
    (hw : InOrder e cfg inbox current root o w) :
    Assured (exec e) (Fair e cfg url o) w (fetchNewManifest (freshCtx cfg inbox current))
      (fun rc _ v => rc = 0 ∧ InInbox e inbox o v ∧ InOrder e cfg inbox current root o v) := by
  have hobeys := fetchNewManifest_obeys e (freshCtx cfg inbox current)
  have hbuilt := freshCtx_built h.site.inboxDir h.site.currentDir
  have hkept : Yields (exec e) w (fetchNewManifest (freshCtx cfg inbox current))
      (fun _ _ v => InOrder e cfg inbox current root o v) :=
    inOrder_of_obeys h hobeys
      (fun c hc => tidy_of_inert h.site.layout (inertCall_of_newManifest hbuilt hc)) hw
  have hrun : Assured (exec e) (Fair e cfg url o) w
      (fetchNewManifest (freshCtx cfg inbox current)) (fun _ _ _ => True) := by
    unfold fetchNewManifest
    dsimp only [freshCtx]
    rw [h.site.serverUrl]
    refine Assured.bind _ (buildPath_assured h w _ _) ?_
    rintro r₁ t₁ w₁ ⟨rfl, hfs₁⟩ -
    refine Assured.bind _ (buildPath_assured h w₁ _ _) ?_
    rintro r₂ t₂ w₂ ⟨rfl, hfs₂⟩ -
    refine Assured.bind _ (buildPath_assured h w₂ _ _) ?_
    rintro r₃ t₃ w₃ ⟨rfl, hfs₃⟩ -
    have hready₃ := (hw.of_fs (hfs₃.trans (hfs₂.trans hfs₁))).ready
    refine Assured.bind _ (fetchFile_assured h.calm h.offers h.site h.offers.manifest
      (by decide) (by simp [targets]) (by simp [targets]) hready₃) ?_
    intro rc₄ t₄ w₄ hready₄ _
    refine Assured.bind _ (fetchFile_assured h.calm h.offers h.site h.offers.sig
      (by decide) (by simp [targets]) (by simp [targets]) hready₄) ?_
    intro rc₅ t₅ w₅ hready₅ _
    refine Assured.bind _ (fetchFile_assured h.calm h.offers h.site h.offers.cert
      (by decide) (by simp [targets]) (by simp [targets]) hready₅) ?_
    intro rc₆ t₆ w₆ _ _
    exact Assured.ret trivial
  refine ((hrun.grant (fetchNewManifest_granted w h.site.serverUrl)).and hkept).mono ?_
  rintro rc t v ⟨⟨-, hrc, -, hin⟩, hv⟩
  exact ⟨hrc, hin, hv⟩

/-- The files of the inbox can be read back. -/
lemma inbox_source {e : Env} {cfg : OtaConfig} {url inbox current n : CStr} {root b : Bytes}
    {o : Offer} (h : Favourable e cfg url inbox current root o) {w : World}
    (hw : InOrder e cfg inbox current root o w) (hn : Plain n)
    (hmem : join inbox n ∈ targets inbox current o.filename)
    (hb : contentAt e w (join inbox n) = some b) :
    sourceAt w.fs e.cwd (join inbox n) = .file b :=
  source_of_content hn h.site.layout.inboxUp (h.site.short _ hmem) hw.ready.here hb

lemma validateNewManifest_assured {e : Env} {cfg : OtaConfig} {url inbox current : CStr}
    {root : Bytes} {o : Offer} (h : Favourable e cfg url inbox current root o) {w : World}
    (hw : InOrder e cfg inbox current root o w) (hin : InInbox e inbox o w) :
    Assured (exec e) (Fair e cfg url o) w (validateNewManifest (freshCtx cfg inbox current))
      (fun rc _ v => rc = 0 ∧ v.fs = w.fs) := by
  have hrun : Assured (exec e) (Fair e cfg url o) w
      (validateNewManifest (freshCtx cfg inbox current)) (fun _ _ _ => True) := by
    unfold validateNewManifest
    refine Assured.call ?_
    intro r v hx
    have hvalid : r.1 = .ok := by
      have hr : r = verifySignatureWithCert (e.verify w.clock) (sourceAt w.fs e.cwd) _ _ _ _ _ :=
        congrArg Prod.fst hx.symm
      rw [hr]
      exact h.offers.signed w.clock (sourceAt w.fs e.cwd)
        (inbox_source h hw (by decide) (by simp [targets]) hin.manifest)
        (inbox_source h hw (by decide) (by simp [targets]) hin.sig)
        (inbox_source h hw (by decide) (by simp [targets]) hin.cert) hw.authority
    refine ⟨⟨trivial, fun _ _ _ => hvalid⟩, ?_⟩
    rw [if_neg (not_not.mpr hvalid)]
    exact Assured.ret trivial
  exact (hrun.grant (validateNewManifest_granted hin)).mono fun _ _ _ hv => hv.2

/-- `stat` tells the truth. -/
lemma fileExists_assured {e : Env} {cfg : OtaConfig} {url inbox current d n : CStr}
    {root : Bytes} {o : Offer} (h : Favourable e cfg url inbox current root o) {w : World}
    (hw : InOrder e cfg inbox current root o w) (hn : Plain n) (hup : NoUp d)
    (hmem : join d n ∈ targets inbox current o.filename) :
    Assured (exec e) (Fair e cfg url o) w (fileExists (join d n)) (fun b _ v =>
      v.fs = w.fs ∧ (b = true → ∃ data, sourceAt w.fs e.cwd (join d n) = .file data) ∧
        (b = false → sourceAt w.fs e.cwd (join d n) = .missing)) := by
  unfold fileExists
  refine Assured.call ?_
  intro r v hx
  have hfs : v.fs = w.fs := (congrArg (fun a => a.2.fs) hx.symm).trans (exec_stat_fs e w _)
  have hstat := stat_answers h.calm.fault hx
  have hlocal : r.isOk = true ∨ contentAt e w (join d n) = none := by
    by_cases hmissing : sourceAt w.fs e.cwd (join d n) = .missing
    · right
      cases hcontent : contentAt e w (join d n) with
      | none => rfl
      | some b =>
        have hfile := source_of_content hn hup (h.site.short _ hmem) hw.ready.here hcontent
        rw [hmissing] at hfile
        cases hfile
    · exact Or.inl (hstat.mpr hmissing)
  refine ⟨fair_of_local h.calm h.offers hx (by simp) hlocal, ?_⟩
  cases r with
  | error err =>
    refine Assured.ret ⟨hfs, fun hfalse => (nomatch hfalse), fun _ => ?_⟩
    by_contra hthere
    exact Bool.false_ne_true (hstat.mpr hthere)
  | ok u =>
    refine Assured.ret ⟨hfs, fun _ => ?_, fun htrue => (nomatch htrue)⟩
    have hthere := hstat.mp rfl
    cases hsource : sourceAt w.fs e.cwd (join d n) with
    | missing => exact absurd hsource hthere
    | file data => exact ⟨data, rfl⟩
    | directory =>
      -- nothing but a file can be at one of the paths
      exfalso
      unfold sourceAt at hsource
      split at hsource
      · cases hsource
      · rename_i q hq
        obtain ⟨rfl, -⟩ := locate_ok hq
        split at hsource
        · cases hsource
        · rename_i hdir
          exact (hw.ready.free _ hmem).vacant hdir
        · cases hsource

lemma compareManifests_assured {e : Env} {cfg : OtaConfig} {url inbox current : CStr}
    {root : Bytes} {o : Offer} (h : Favourable e cfg url inbox current root o) {w : World}
    (hw : InOrder e cfg inbox current root o w) (hin : InInbox e inbox o w) :
    Assured (exec e) (Fair e cfg url o) w (compareManifests (freshCtx cfg inbox current))
      (fun r _ v => r ≠ .err ∧ v.fs = w.fs) := by
  unfold compareManifests
  refine Assured.bind _ (fileExists_assured h hw (by decide) h.site.layout.currentUp
    (by simp [targets])) ?_
  rintro b₁ t₁ w₁ ⟨hfs₁, hfile₁, -⟩ -
  cases b₁ with
  | false => exact Assured.ret ⟨by simp, hfs₁⟩
  | true =>
    have hw₁ := hw.of_fs hfs₁
    have hin₁ := hin.of_fs hfs₁
    have hinbox := inbox_source h hw₁ (by decide) (by simp [targets]) hin₁.manifest
    refine Assured.bind _ (fileExists_assured h hw₁ (by decide) h.site.layout.inboxUp
      (by simp [targets])) ?_
    rintro b₂ t₂ w₂ ⟨hfs₂, -, hmissing₂⟩ -
    cases b₂ with
    | false =>
      have hnone := hmissing₂ rfl
      rw [hinbox] at hnone
      cases hnone
    | true =>
      obtain ⟨data, hcurrent⟩ := hfile₁ rfl
      rw [← hfs₁, ← hfs₂] at hcurrent
      rw [← hfs₂] at hinbox
      show Assured (exec e) (Fair e cfg url o) w₂ (filesEqual _ _) _
      unfold filesEqual
      refine Assured.call ?_
      intro r₃ w₃ hx₃
      have hfs₃ : w₃.fs = w₂.fs := congrArg (fun a => a.2.fs) hx₃.symm
      have hr₃ := hash_answers h.calm hx₃ hcurrent
      refine ⟨fair_of_local h.calm h.offers hx₃ (by simp) hr₃, ?_⟩
      refine Assured.call ?_
      intro r₄ w₄ hx₄
      have hfs₄ : w₄.fs = w₃.fs := congrArg (fun a => a.2.fs) hx₄.symm
      rw [← hfs₃] at hinbox
      have hr₄ := hash_answers h.calm hx₄ hinbox
      refine ⟨fair_of_local h.calm h.offers hx₄ (by simp) hr₄, ?_⟩
      have hfs : w₄.fs = w.fs := hfs₄.trans (hfs₃.trans (hfs₂.trans hfs₁))
      cases r₃ with
      | error err => cases hr₃
      | ok d₃ =>
        cases r₄ with
        | error err => cases hr₄
        | ok d₄ =>
          refine Assured.ret ⟨?_, hfs⟩
          split_ifs
          · simp
          · simp

/-- The manifest that was verified is the one that is loaded. -/
lemma load_assured {e : Env} {cfg : OtaConfig} {url inbox current : CStr} {root : Bytes}
    {o : Offer} (h : Favourable e cfg url inbox current root o) {w v : World}
    {r : Option Manifest} (hw : InOrder e cfg inbox current root o w)
    (hin : InInbox e inbox o w)
    (hx : exec e w (.load (join inbox manifestName)) = (r, v)) :
    Fair e cfg url o ⟨w, .load (join inbox manifestName), r, v⟩ ∧ r = some o.doc ∧
      v.fs = w.fs := by
  have hsource := inbox_source h hw (by decide) (by simp [targets]) hin.manifest
  have hr : r = manifestParse e.cjson o.manifest := by
    have hload : r = manifestLoad e.cjson (e.loadRead w.clock)
        (sourceAt w.fs e.cwd (join inbox manifestName)) := congrArg Prod.fst hx.symm
    rw [hload, hsource, manifestLoad_whole (h.offers.loads w.clock)]
  have hlocal : r = (contentAt e w (join inbox manifestName)).bind (manifestParse e.cjson) := by
    rw [hr, hin.manifest]
    rfl
  exact ⟨fair_of_local h.calm h.offers hx (by simp) hlocal, hr.trans h.fit.parsed,
    congrArg (fun a => a.2.fs) hx.symm⟩

lemma fetchRelease_assured {e : Env} {cfg : OtaConfig} {url inbox current : CStr} {root : Bytes}
    {o : Offer} (h : Favourable e cfg url inbox current root o) {w : World}
    (hw : InOrder e cfg inbox current root o w) (hin : InInbox e inbox o w) :
    Assured (exec e) (Fair e cfg url o) w
      (fetchRelease { freshCtx cfg inbox current with inboxManifest := some o.doc })
      (fun r _ v => r = (0, payloadCtx cfg inbox current o) ∧
        InOrder e cfg inbox current root o v ∧
        contentAt e v (join inbox o.filename) = some o.payload ∧
        contentAt e v (join inbox manifestName) = some o.manifest) := by
  have hbuilt : { freshCtx cfg inbox current with inboxManifest := some o.doc }.Built cfg inbox
      current := ⟨rfl, h.site.inboxDir, h.site.currentDir, rfl, rfl, rfl, rfl⟩
  have hname : NamePlain cfg o.doc := by
    intro filename hchosen
    have hoffered : chosenName cfg o.doc = some o.filename := by
      unfold chosenName
      rw [h.fit.select]
      dsimp only
      rw [h.fit.first]
      exact h.fit.named
    rw [hoffered] at hchosen
    exact Option.some.inj hchosen ▸ h.name
  have hkept := inOrder_of_obeys h (fetchRelease_obeys e
    { freshCtx cfg inbox current with inboxManifest := some o.doc })
    (fun c hc => tidy_of_release h.site.layout hbuilt rfl hname hc) hw
  have hrun : Assured (exec e) (Fair e cfg url o) w
      (fetchRelease { freshCtx cfg inbox current with inboxManifest := some o.doc })
      (fun _ _ _ => True) := by
    obtain ⟨rest, hfiles⟩ : ∃ rest, o.release.files = o.file :: rest := by
      have hfirst := h.fit.first
      cases hlist : o.release.files with
      | nil => simp [hlist] at hfirst
      | cons file rest =>
        rw [hlist, List.head?_cons] at hfirst
        exact ⟨rest, by rw [Option.some.inj hfirst]⟩
    obtain ⟨fileType, htype⟩ : ∃ fileType, o.file.fileType = some fileType :=
      h.fit.fileType.elim (fun htest => ⟨_, htest⟩) (fun hrauc => ⟨_, hrauc⟩)
    unfold fetchRelease
    dsimp only [freshCtx]
    rw [h.fit.select]
    dsimp only
    rw [hfiles]
    dsimp only
    rw [h.fit.named, h.fit.located, h.fit.sha256, htype]
    dsimp only
    rw [h.site.inboxDir]
    refine Assured.bind _ (buildPath_assured h w _ _) ?_
    rintro r₁ t₁ w₁ ⟨rfl, hfs₁⟩ -
    dsimp only
    rw [h.site.serverUrl]
    refine Assured.bind _ (buildPath_assured h w₁ _ _) ?_
    rintro r₂ t₂ w₂ ⟨rfl, hfs₂⟩ -
    dsimp only
    refine Assured.bind _ (fetchFile_assured h.calm h.offers h.site h.offers.payload h.name
      (by simp [targets]) (by simp [targets]) (hw.of_fs (hfs₂.trans hfs₁)).ready) ?_
    intro rc t₃ w₃ _ _
    exact Assured.ret trivial
  refine ((hrun.grant (fetchRelease_granted w h.site.serverUrl h.site.inboxDir h.fit)).and
    hkept).mono ?_
  rintro r t v ⟨⟨-, hr, -, hpayload, hmanifest⟩, hv⟩
  exact ⟨hr, hv, hpayload, hmanifest.trans hin.manifest⟩

lemma validateRelease_assured {e : Env} {cfg : OtaConfig} {url inbox current : CStr}
    {root : Bytes} {o : Offer} (h : Favourable e cfg url inbox current root o) {w : World}
    (hw : InOrder e cfg inbox current root o w)
    (hpayload : contentAt e w (join inbox o.filename) = some o.payload) :
    Assured (exec e) (Fair e cfg url o) w (validateRelease (payloadCtx cfg inbox current o))
      (fun rc _ v => rc = 0 ∧ v.fs = w.fs) := by
  have hsource := inbox_source h hw h.name (by simp [targets]) hpayload
  have hrun : Assured (exec e) (Fair e cfg url o) w
      (validateRelease (payloadCtx cfg inbox current o)) (fun _ _ _ => True) := by
    have hexpected : (firstFile (payloadCtx cfg inbox current o)).bind ManifestFile.sha256 =
        some (hexText (e.sha256 o.payload).bytes) := by
      rw [firstFile_payloadCtx h.fit]
      exact h.fit.sha256
    refine (validateRelease_step w hexpected).mono ?_
    rintro rc t v ⟨r, hx, rfl⟩
    refine ⟨List.forall_mem_singleton.mpr ?_, trivial⟩
    exact fair_of_local h.calm h.offers hx (by simp) (hash_answers h.calm hx hsource)
  exact (hrun.grant (validateRelease_granted h.fit hpayload)).mono fun _ _ _ hv => hv.2

/-- The directories above the current manifest are made. -/
lemma currentDir_assured {e : Env} {cfg : OtaConfig} {url inbox current : CStr} {root : Bytes}
    {o : Offer} (h : Favourable e cfg url inbox current root o) {w : World}
    (hw : InOrder e cfg inbox current root o w) :
    Assured (exec e) (Fair e cfg url o) w (mkdirPOrNull cfg.currentManifestDir 493)
      (fun _ _ v => Dirs v.fs e.cwd (join current manifestName)) := by
  have hmem : join current manifestName ∈ targets inbox current o.filename := by simp [targets]
  have hparts : ∀ {u}, Above u (join current manifestName) → Cut u current :=
    fun habove => above_join (by decide) habove
  rw [h.site.currentDir]
  show Assured (exec e) (Fair e cfg url o) w (mkdirP current 493) _
  by_cases hne : current = []
  · have hnothing : mkdirP current 493 = .ret (-1) := by
      unfold mkdirP
      rw [if_pos hne]
      rfl
    rw [hnothing]
    refine Assured.ret ?_
    intro u hu habove
    rcases hparts habove with rfl | ⟨r, hr⟩
    · exact absurd hne hu
    · rw [hne] at hr
      simp at hr
  · have hshort : current.length < pathMax := by
      have hlen := h.site.short _ hmem
      rw [join, List.length_append] at hlen
      omega
    have hfree : ∀ u, u ≠ [] → Cut u current → w.fs.fileAt (place e.cwd u) = none :=
      fun u hu hcut => (hw.ready.free _ hmem).clear u hu (hcut.above ⟨manifestName, rfl⟩)
    refine (mkdirP_assured h.calm h.offers 493 hw.ready.here hne hshort hfree).mono ?_
    rintro rc t v ⟨-, -, hdirs⟩ u hu habove
    exact hdirs u hu (hparts habove)

/-- The inbox manifest can be renamed to the current one. -/
lemma makeNewManifestCurrent_assured {e : Env} {cfg : OtaConfig} {url inbox current : CStr}
    {root : Bytes} {o : Offer} (h : Favourable e cfg url inbox current root o) {w : World}
    (hw : InOrder e cfg inbox current root o w)
    (hmanifest : contentAt e w (join inbox manifestName) = some o.manifest) :
    Assured (exec e) (Fair e cfg url o) w
      (makeNewManifestCurrent (payloadCtx cfg inbox current o)) (fun rc _ _ => rc = 0) := by
  have hbuilt : (payloadCtx cfg inbox current o).Built cfg inbox current :=
    ⟨rfl, h.site.inboxDir, h.site.currentDir, rfl, rfl, rfl, rfl⟩
  have hmem : join current manifestName ∈ targets inbox current o.filename := by simp [targets]
  have hother : place e.cwd (join inbox manifestName) ≠
      place e.cwd (join current manifestName) := by
    rw [place_join_plain e.cwd inbox (by decide), place_join_plain e.cwd current (by decide)]
    intro heq
    exact h.site.layout.outside ((List.cons_eq_cons.mp heq).2 ▸ List.suffix_rfl)
  have hmkdir : Obeys (Lawful e) (fun c => ∃ u m, c = .mkdir u m ∧ u ≠ [] ∧ Cut u current)
      (fun _ => True) (mkdirPOrNull cfg.currentManifestDir 493) := by
    rw [h.site.currentDir]
    exact (mkdirP_obeys (Lawful e) current 493).mono (fun _ _ => id) (fun _ => id)
      (fun _ _ => trivial)
  have htidy : ∀ c, (∃ u m, c = .mkdir u m ∧ u ≠ [] ∧ Cut u current) →
      Tidy e inbox current c := by
    rintro c ⟨u, m, rfl, hu, hcut⟩
    exact tidy_of_apply h.site.layout hbuilt (.mkdir current u m h.site.currentDir hu hcut)
  have hkept : Yields (exec e) w (mkdirPOrNull cfg.currentManifestDir 493) (fun _ _ v =>
      contentAt e v (join inbox manifestName) = contentAt e w (join inbox manifestName)) := by
    have hcalls := (calls_of_obeys hmkdir w).1
    refine (chain_contentAt (run_chain _ _ _) ?_).1
    intro s hs
    obtain ⟨u, m, hcall, -⟩ := hcalls s hs
    rw [hcall]
    exact id
  unfold makeNewManifestCurrent
  refine Assured.bind _ (((currentDir_assured h hw).and
    (inOrder_of_obeys h hmkdir htidy hw)).and hkept) ?_
  rintro rc t₁ w₁ ⟨⟨hdirs, hw₁⟩, hcontent⟩ -
  rw [hmanifest] at hcontent
  refine Assured.call ?_
  intro r₂ w₂ hx₂
  refine ⟨fair_easy h.calm h.offers hx₂ trivial, ?_⟩
  have hstep : Chain (exec e) w₁ [⟨w₁, .unlink (join current manifestName), r₂, w₂⟩] w₂ :=
    ⟨rfl, hx₂.symm, rfl⟩
  have hcontent₂ : contentAt e w₂ (join inbox manifestName) = some o.manifest := by
    rw [(chain_contentAt hstep (List.forall_mem_singleton.mpr hother)).1, hcontent]
  have hw₂ : InOrder e cfg inbox current root o w₂ :=
    (prepared_chain h.site.layout h.site.entries h.authority hstep
      (List.forall_mem_singleton.mpr (tidy_of_apply h.site.layout hbuilt .unlink)) hw₁).1
  have hlocate₁ := locate_of_parts (join_ne_nil current manifestName) (h.site.short _ hmem)
    hw₁.ready.here hdirs
  have hlocate₂ := exec_locate hx₂ hlocate₁
  have hsource := inbox_source h hw₂ (by decide) (by simp [targets]) hcontent₂
  refine Assured.call ?_
  intro r₃ w₃ hx₃
  obtain ⟨f, hf, -⟩ := Option.map_eq_some_iff.mp hcontent₂
  rw [Tree.fileAt_eq_some] at hf
  have hr₃ : r₃ = .ok () := rename_succeeds h.calm.fault hx₃ (locate_of_source hsource) hf hlocate₂
    (hw₂.ready.free _ hmem).vacant
  refine ⟨fair_of_local h.calm h.offers hx₃ (by simp) hr₃, ?_⟩
  subst hr₃
  exact Assured.ret rfl

lemma applyRelease_assured {e : Env} {cfg : OtaConfig} {url inbox current : CStr} {root : Bytes}
    {o : Offer} (h : Favourable e cfg url inbox current root o) {w : World}
    (hw : InOrder e cfg inbox current root o w)
    (hmanifest : contentAt e w (join inbox manifestName) = some o.manifest) :
    Assured (exec e) (Fair e cfg url o) w (applyRelease (payloadCtx cfg inbox current o))
      (fun _ _ _ => True) := by
  have htype : (firstFile (payloadCtx cfg inbox current o)).bind ManifestFile.fileType =
      o.file.fileType := by
    rw [firstFile_payloadCtx h.fit]
    rfl
  unfold applyRelease
  rw [htype]
  rcases h.fit.fileType with htest | hrauc
  · rw [htest]
    dsimp only
    rw [if_pos rfl]
    refine Assured.bind _ (makeNewManifestCurrent_assured h hw hmanifest) ?_
    rintro rc t v rfl -
    rw [if_neg (by simp)]
    exact Assured.ret trivial
  · rw [hrauc]
    dsimp only
    rw [if_neg (by decide), if_pos rfl]
    refine Assured.call ?_
    intro r₁ w₁ hx₁
    have hfair₁ := fair_easy h.calm h.offers hx₁ trivial
    have hr₁ : r₁ = .ok () := hfair₁.2
    have hfs₁ := spawn_fs hx₁
    refine ⟨hfair₁, ?_⟩
    subst hr₁
    refine Assured.call ?_
    intro r₂ w₂ hx₂
    have hfair₂ := fair_easy h.calm h.offers hx₂ trivial
    have hr₂ : r₂ = .ok (.exited 0) := hfair₂.2
    have hfs₂ : w₂.fs = w.fs := (waitpid_fs hx₂).trans hfs₁
    refine ⟨hfair₂, ?_⟩
    subst hr₂
    dsimp only
    rw [if_neg (by simp)]
    refine Assured.bind _ (makeNewManifestCurrent_assured h (hw.of_fs hfs₂)
      ((contentAt_congr hfs₂ _).trans hmanifest)) ?_
    rintro rc t w₃ rfl -
    rw [if_neg (by simp)]
    refine Assured.call ?_
    intro r₄ w₄ hx₄
    refine ⟨fair_easy h.calm h.offers hx₄ trivial, ?_⟩
    refine Assured.call ?_
    intro r₅ w₅ hx₅
    exact ⟨fair_easy h.calm h.offers hx₅ trivial, Assured.ret trivial⟩

/-- All goes well in an iteration from a tree that is in order. -/
theorem attempt_assured {e : Env} {cfg : OtaConfig} {url inbox current : CStr} {root : Bytes}
    {o : Offer} (h : Favourable e cfg url inbox current root o) (daemonMode : Bool) {w : World}
    (hw : InOrder e cfg inbox current root o w) :
    Assured (exec e) (Fair e cfg url o) w (attempt daemonMode cfg) (fun _ _ _ => True) := by
  unfold attempt
  refine Assured.call ?_
  intro r₀ w₀ hx₀
  have hfs₀ : w₀.fs = w.fs := congrArg (fun a => a.2.fs) hx₀.symm
  refine ⟨fair_easy h.calm h.offers hx₀ trivial, ?_⟩
  have hinit : Yields (exec e) w₀ (otaCtxInit cfg)
      (fun _ _ v => InOrder e cfg inbox current root o v) :=
    inOrder_of_obeys h (otaCtxInit_obeys (Lawful e) cfg)
      (by rintro c rfl; exact ⟨by simp, fun q hq => hq.elim⟩) (hw.of_fs hfs₀)
  refine Assured.bind _ ((otaCtxInit_assured h w₀).and hinit) ?_
  rintro r₁ t₁ w₁ ⟨rfl, hw₁⟩ -
  refine Assured.bind _ (otaInboxCleanup_assured h hw₁) ?_
  intro _ t₂ w₂ hw₂ _
  refine Assured.bind _ (fetchNewManifest_assured h hw₂) ?_
  rintro rc₃ t₃ w₃ ⟨rfl, hin₃, hw₃⟩ -
  rw [if_neg (by simp)]
  refine Assured.bind _ (validateNewManifest_assured h hw₃ hin₃) ?_
  rintro rc₄ t₄ w₄ ⟨rfl, hfs₄⟩ -
  rw [if_neg (by simp)]
  refine Assured.bind _ (compareManifests_assured h (hw₃.of_fs hfs₄) (hin₃.of_fs hfs₄)) ?_
  rintro r₅ t₅ w₅ ⟨hr₅, hfs₅⟩ -
  have hw₅ := (hw₃.of_fs hfs₄).of_fs hfs₅
  have hin₅ := (hin₃.of_fs hfs₄).of_fs hfs₅
  cases r₅ with
  | err => exact absurd rfl hr₅
  | eq =>
    dsimp only
    split_ifs
    · exact Assured.ret trivial
    · exact Assured.ret trivial
  | neq =>
    refine Assured.call ?_
    intro r₆ w₆ hx₆
    obtain ⟨hfair₆, hr₆, hfs₆⟩ := load_assured h hw₅ hin₅ hx₆
    refine ⟨hfair₆, ?_⟩
    subst hr₆
    refine Assured.bind _ (fetchRelease_assured h (hw₅.of_fs hfs₆) (hin₅.of_fs hfs₆)) ?_
    rintro r₇ t₇ w₇ ⟨rfl, hw₇, hpayload₇, hmanifest₇⟩ -
    dsimp only
    rw [if_neg (by simp)]
    refine Assured.bind _ (validateRelease_assured h hw₇ hpayload₇) ?_
    rintro rc₈ t₈ w₈ ⟨rfl, hfs₈⟩ -
    rw [if_neg (by simp)]
    refine Assured.bind _ (applyRelease_assured h (hw₇.of_fs hfs₈)
      ((contentAt_congr hfs₈ _).trans hmanifest₇)) ?_
    intro rc₉ t₉ w₉ _ _
    split_ifs
    · exact Assured.ret trivial
    · exact Assured.ret trivial

/-- What runs of a device leave, each in an environment of its own that may fail
at any call, each cut off after any of its steps, and each with `P`. -/
inductive History (cwd : Path) (cfg : OtaConfig) (P : Trace → Prop) (w : World) :
    World → Prop where
  | start (v : World) (hfs : v.fs = w.fs) : History cwd cfg P w v
  | run (e : Env) (fuel : ℕ) (daemonMode : Bool) (u v : World) (s : Step Call Resp World)
      (hcwd : e.cwd = cwd) (h : History cwd cfg P w u)
      (hP : P (run (exec e) (otaFetchRun fuel daemonMode cfg) u).trace)
      (hs : s ∈ (run (exec e) (otaFetchRun fuel daemonMode cfg) u).trace)
      (hfs : v.fs = s.after.fs) : History cwd cfg P w v

/-- No history with plain payload names takes from the device what it needs for
the offer. -/
theorem history_inOrder {e : Env} {cfg : OtaConfig} {url inbox current : CStr} {root : Bytes}
    {o : Offer} (h : Favourable e cfg url inbox current root o) {w v : World}
    (hw : InOrder e cfg inbox current root o w)
    (hv : History e.cwd cfg (Loads (NamePlain cfg)) w v) :
    InOrder e cfg inbox current root o v := by
  induction hv with
  | start v hfs => exact hw.of_fs hfs
  | run e' fuel daemonMode u v s hcwd _ hname hs hfs ih =>
    have hlayout : Layout e'.cwd inbox current := hcwd ▸ h.site.layout
    have hca : ∀ ca, cfg.manifestCaCert = some ca → Elsewhere e'.cwd inbox current ca :=
      hcwd ▸ h.authority
    have htidy := otaFetchRun_calls (runCalls_tidy h.site.inboxDir h.site.currentDir hlayout) hname
    have hstart : Prepared e' cfg (targets inbox current o.filename) root u := by
      obtain ⟨hready, hauthority⟩ := ih
      rw [← hcwd] at hready hauthority
      exact ⟨hready, hauthority⟩
    obtain ⟨hready, hauthority⟩ :=
      (prepared_chain hlayout h.site.entries hca (run_chain _ _ _) htidy hstart).2 s hs
    rw [hcwd, ← hfs] at hready hauthority
    exact ⟨hready, hauthority⟩

/-- Whatever failed before and wherever runs were cut off, the next iteration in
which failures have stopped brings the device to what is offered. -/
theorem history_recovers (e : Env) (cfg : OtaConfig) (url inbox current : CStr) (root : Bytes)
    (o : Offer) (daemonMode : Bool) (w v : World)
    (h : Favourable e cfg url inbox current root o) (hw : InOrder e cfg inbox current root o w)
    (hv : History e.cwd cfg (Loads (NamePlain cfg)) w v)
    (hinj : ∀ b, contentAt e v (join current manifestName) = some b →
      e.sha256 b = e.sha256 o.manifest → b = o.manifest) :
    Follows e cfg url inbox current ⟨o, daemonMode, v⟩ := by
  have hfair := (attempt_assured h daemonMode (history_inOrder h hw hv)).1
  exact tick_follows h.site.serverUrl h.site.inboxDir h.site.currentDir
    (h.site.layout.apart h.site.inboxDir h.site.currentDir) h.fit hfair hinj

lemma device_signed {src : CStr → Source} {d g c ca : CStr} {root : Bytes}
    (hd : src d = .file manifestBytes) (hg : src g = .file manifestBytes)
    (hc : src c = .file manifestBytes) (hca : src ca = .file root) :
    verifyStages calmVerify src d g c ca = .ok () := by
  have hloads : CaLoads calmVerify src ca [.file ca] :=
    ⟨rfl, rfl, by rw [hca]; simp, .file ca, by rw [hca]; simp, rfl, rfl⟩
  have hsig : SignatureReads calmVerify.sigRead src g manifestBytes :=
    ⟨hg, by decide +kernel, by decide +kernel, by decide +kernel⟩
  have hstream : StreamAccepts calmVerify src d () manifestBytes :=
    ⟨manifestBytes, hd, rfl, rfl, rfl, fedAll_of_reads (fun _ => rfl) (fun _ => rfl) 0 _, rfl⟩
  exact (verifyStages_ok_iff _ _ _ _ _ _).mpr ⟨(), [.file ca], (), manifestBytes,
    ⟨rfl, manifestBytes, hc, rfl⟩, hloads, ⟨rfl, rfl, rfl⟩, rfl, hsig,
    Or.inr ⟨Or.inr rfl, hstream⟩⟩

lemma device_calm : Calm (deviceEnv (text "fw") raucBundle) where
  fault _ _ := rfl
  accept m n req := by
    change ∀ chunk ∈ (deviceServer manifestBytes n req).chunks, chunk.length ≤ 4096
    unfold deviceServer
    split_ifs
    · decide +kernel
    · decide +kernel
  hash n data := ⟨rfl, rfl, rfl, fedAll_of_reads (fun _ => rfl) (fun _ => rfl) 0 data, rfl, rfl⟩
  child _ := rfl

lemma device_offers : Offers (deviceEnv (text "fw") raucBundle) deviceConfig (text "u")
    (text "in") [0] (deviceOffer manifestBytes) where
  manifest _ := show Delivers (deviceServer manifestBytes 0 (fetchRequest (text "u/manifest.json")
    deviceConfig false)) manifestBytes by decide +kernel
  sig _ := show Delivers (deviceServer manifestBytes 0 (fetchRequest (text "u/manifest.json.sig")
    deviceConfig false)) manifestBytes by decide +kernel
  cert _ := show Delivers (deviceServer manifestBytes 0 (fetchRequest (text "u/signer.crt")
    deviceConfig false)) manifestBytes by decide +kernel
  payload _ := show Delivers (deviceServer manifestBytes 0 (fetchRequest (text "u/b")
    deviceConfig true)) bundleBytes by decide +kernel
  loads _ := ⟨rfl, rfl, rfl, rfl, show manifestBytes.length ≤ manifestMaxLen by decide +kernel⟩
  signed n src hd hg hc hca :=
    (verifySignatureWithCert_fst _ _ _ _ _ _ _).mpr (device_signed hd hg hc (hca _ rfl))

lemma device_layout : Layout [] (text "in") (text "cur") :=
  ⟨by decide, by decide, by decide, by decide⟩

lemma device_favourable : Favourable (deviceEnv (text "fw") raucBundle) deviceConfig (text "u")
    (text "in") (text "cur") [0] (deviceOffer manifestBytes) where
  calm := device_calm
  offers := device_offers
  fit := by
    have h : (deviceOffer manifestBytes).Fit changingEnv deviceConfig (text "in") :=
      deviceOffer_fit (by decide +kernel)
    exact ⟨h.parsed, h.select, h.first, h.named, h.located, h.sha256, h.fileType, h.elsewhere⟩
  name := by decide
  site := {
    serverUrl := rfl
    inboxDir := rfl
    currentDir := rfl
    layout := device_layout
    entries := targets_entries _ _ (by decide)
    short := by decide }
  authority := by
    intro ca hca
    obtain rfl : text "ca" = ca := Option.some.inj hca
    have hplace : place [] (text "ca") = [text "ca"] := by decide
    have hin : dirPlace [] (text "in") = [text "in"] := by decide
    change Elsewhere [] (text "in") (text "cur") (text "ca")
    refine ⟨?_, by decide⟩
    intro n hn
    rw [hplace, hin] at hn
    cases hn

/-- The only file on the device is not on the way to a path in another directory. -/
lemma device_free {d n : CStr} (hd : slash ∉ d) (hplace : place [] d ≠ [text "ca"])
    (hn : slash ∉ n) (hvacant : deviceTree.node (place [] (join d n)) ≠ some .dir) :
    Free deviceTree [] (join d n) := by
  refine ⟨?_, hvacant⟩
  intro u hu habove
  rcases above_join hn habove with rfl | ⟨r, hr⟩
  · rw [deviceTree, Tree.fileAt_congr (Tree.put_node_of_ne bareTree _ hplace)]
    rw [Tree.fileAt_eq_none, bareTree]
    dsimp only
    split_ifs
    · exact Or.inr rfl
    · exact Or.inl rfl
  · exact absurd (by rw [hr]; simp) hd

lemma device_inOrder : InOrder (deviceEnv (text "fw") raucBundle) deviceConfig (text "in")
    (text "cur") [0] (deviceOffer manifestBytes) (.at deviceTree) := by
  have hvacant : ∀ p ∈ targets (text "in") (text "cur") (text "fw"),
      deviceTree.node (place [] p) ≠ some .dir := by decide +kernel
  constructor
  · refine ⟨by decide, ?_⟩
    intro p hp
    rcases targets_entries (text "in") (text "cur") (by decide) p hp with ⟨n, hn, rfl⟩ | rfl
    · exact device_free (by decide) (by decide) hn.1 (hvacant _ hp)
    · exact device_free (by decide) (by decide) (by decide) (hvacant _ hp)
  · intro ca hca
    obtain rfl : text "ca" = ca := Option.some.inj hca
    decide +kernel

/-- The disk refuses to make the new manifest the current one. -/
def refusingEnv : Env :=
  { deviceEnv (text "fw") raucBundle with
    fault := fun _ c =>
      match c with
      | .rename _ d => if d = text "cur/manifest.json" then some .enospc else none
      | _ => none }

def isRefused (s : Step Call Resp World) : Bool :=
  match s.event with
  | ⟨.rename _ _, .error _⟩ => true
  | _ => false

/-- The run is cut off when the bundle is installed but its manifest is not the
current one. The next one installs it again. -/
theorem history_recovers_device :
    ∃ s ∈ (run (exec refusingEnv) (otaFetchRun 1 false deviceConfig) (.at deviceTree)).trace,
      isRefused s = true ∧
      Follows (deviceEnv (text "fw") raucBundle) deviceConfig (text "u") (text "in") (text "cur")
        ⟨deviceOffer manifestBytes, false, s.after⟩ := by
  have hstep : ∃ s ∈ (run (exec refusingEnv) (otaFetchRun 1 false deviceConfig)
      (.at deviceTree)).trace, isRefused s = true ∧
      contentAt (deviceEnv (text "fw") raucBundle) s.after (text "cur/manifest.json") = none := by
    decide +kernel
  obtain ⟨s, hs, hrefused, hnone⟩ := hstep
  have hloads := loads_of_name (t := (run (exec refusingEnv) (otaFetchRun 1 false deviceConfig)
    (.at deviceTree)).trace)
    (show ∀ s ∈ _, loadsOther deviceConfig (text "fw") s = false by decide +kernel)
  refine ⟨s, hs, hrefused, history_recovers _ _ _ _ _ [0] _ _ (.at deviceTree) _ device_favourable
    device_inOrder ?_ ?_⟩
  · refine .run refusingEnv 1 false (.at deviceTree) _ s rfl (.start _ rfl) (hloads.mono ?_) hs rfl
    intro m hm filename hchosen
    rw [hm filename hchosen]
    decide
  · intro b hb
    rw [show join (text "cur") manifestName = text "cur/manifest.json" by decide, hnone] at hb
    cases hb

end OtaFetch.Recovery
