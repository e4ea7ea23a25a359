import OtaFetch.Among
import OtaFetch.TreeView
import OtaFetch.Ready

/-!
# Other processes on the device

Other processes work on the same file system while the program runs, at any
moment. As long as they leave alone the inbox, the current manifest, the certificate
authority and the directories above them, the program makes the same calls with
the same answers as it does alone.
-/
namespace OtaFetch.Isolation
open CPath FileTree Stdio Interaction Among Machine Config Releases Hash Verify Fetch Update
open Iteration Gate Untrusted Current Ready

/-- The worlds differ in nothing but files outside the view. -/
structure Looks (V : View CStr) (w v : World) : Prop where
  tree : SameOn V w.fs v.fs
  clock : w.clock = v.clock
  terminate : w.terminate = v.terminate
  unreaped : w.unreaped = v.unreaped

/-- Looking up the path reads locations of the view only. -/
def Names (V : View CStr) (cwd : Path) (p : CStr) : Prop := V.Follows (origin cwd p) (comps p)

/-- The call reads and writes locations of the view only. -/
def Within (V : View CStr) (e : Env) : Call → Prop
  | .mkdir p _ => V.Follows (origin e.cwd p) (comps (p.rdropWhile (· == slash)))
  | .unlink p | .stat p | .fopen p | .load p | .readToken p | .openWrite p _ | .openDir p =>
    Names V e.cwd p
  | .rename s d => Names V e.cwd s ∧ Names V e.cwd d
  | .opendir p => Names V e.cwd p ∧ ∀ n, V.sees (n :: place e.cwd p)
  | .fwrite fp _ | .fflush fp | .fclose fp => V.sees fp.loc
  | .write fd _ | .fchmod fd _ => V.sees fd
  | .verify d s c ca _ => ∀ p ∈ [d, s, c, ca], ∀ q, p = some q → Names V e.cwd q
  | .sha256sum p => ∀ q, p = some q → Names V e.cwd q
  | _ => True

lemma Looks.tick {V : View CStr} {e : Env} {w v : World} (h : Looks V w v)
    {t u : Tree CStr FileRec} (htu : SameOn V t u) : Looks V (w.tick e t) (v.tick e u) := by
  refine ⟨htu, ?_, ?_, h.unreaped⟩
  · show w.clock + 1 = v.clock + 1
    rw [h.clock]
  · show (w.terminate || e.signal w.clock) = (v.terminate || e.signal v.clock)
    rw [h.terminate, h.clock]

lemma Names.place {V : View CStr} {cwd : Path} {p : CStr} (h : Names V cwd p) :
    V.sees (place cwd p) := h.resolve

lemma locate_same {V : View CStr} {cwd : Path} {p : CStr} {t u : Tree CStr FileRec}
    (h : SameOn V t u) (hp : Names V cwd p) : locate t cwd p = locate u cwd p := by
  unfold locate
  rw [h.walk hp]

lemma sourceAt_same {V : View CStr} {cwd : Path} {p : CStr} {t u : Tree CStr FileRec}
    (h : SameOn V t u) (hp : Names V cwd p) : sourceAt t cwd p = sourceAt u cwd p := by
  unfold sourceAt
  rw [locate_same h hp]
  cases hl : locate u cwd p with
  | error err => rfl
  | ok q =>
    obtain ⟨rfl, -⟩ := locate_ok hl
    dsimp only
    rw [h _ hp.place]

/-- A call that changes the tree does the same to both worlds. -/
lemma commit_looks {V : View CStr} {e : Env} {w v : World} (h : Looks V w v) (c : Call)
    {x y : Except Errno (Tree CStr FileRec)} (hxy : Alike V x y) :
    (commit e w c x).1 = (commit e v c y).1 ∧ Looks V (commit e w c x).2 (commit e v c y).2 := by
  unfold commit
  rw [h.clock]
  cases e.fault v.clock c with
  | some err => exact ⟨rfl, h.tick h.tree⟩
  | none =>
    cases x with
    | error a =>
      cases y with
      | error b =>
        obtain rfl : a = b := hxy
        exact ⟨rfl, h.tick h.tree⟩
      | ok u => exact hxy.elim
    | ok t =>
      cases y with
      | error b => exact hxy.elim
      | ok u => exact ⟨rfl, h.tick hxy⟩

lemma refuse_looks {V : View CStr} {α : Type} {e : Env} {w v : World} (h : Looks V w v) (c : Call)
    {x y : Except Errno α} (hxy : x = y) :
    (refuse e w c x).1 = (refuse e v c y).1 ∧ Looks V (refuse e w c x).2 (refuse e v c y).2 := by
  unfold refuse
  rw [h.clock, hxy]
  cases e.fault v.clock c with
  | some err => exact ⟨rfl, h.tick h.tree⟩
  | none => exact ⟨rfl, h.tick h.tree⟩

lemma openAs_looks {V : View CStr} {α : Type} {e : Env} {w v : World} (h : Looks V w v) (c : Call)
    {p : CStr} (hp : Names V e.cwd p) (m : ℕ) (handle : Path → α) :
    (openAs e w c p m handle).1 = (openAs e v c p m handle).1 ∧
      Looks V (openAs e w c p m handle).2 (openAs e v c p m handle).2 := by
  unfold openAs
  rw [h.clock, locate_same h.tree hp]
  cases e.fault v.clock c with
  | some err => exact ⟨rfl, h.tick h.tree⟩
  | none =>
    cases hl : locate v.fs e.cwd p with
    | error err => exact ⟨rfl, h.tick h.tree⟩
    | ok q =>
      obtain ⟨rfl, -⟩ := locate_ok hl
      have hopen : Alike V (create e w.fs (place e.cwd p) m) (create e v.fs (place e.cwd p) m) :=
        h.tree.openAt hp.place _ _
      dsimp only
      revert hopen
      cases create e w.fs (place e.cwd p) m with
      | error a =>
        cases create e v.fs (place e.cwd p) m with
        | error b =>
          rintro rfl
          exact ⟨rfl, h.tick h.tree⟩
        | ok u => exact fun hopen => hopen.elim
      | ok t =>
        cases create e v.fs (place e.cwd p) m with
        | error b => exact fun hopen => hopen.elim
        | ok u => exact fun hopen => ⟨rfl, h.tick hopen⟩

/-- A verification reads its four files and no others. -/
lemma verifySignatureWithCert_congr {Cert Key : Type} (a : VerifyAnswer Cert Key)
    {src src' : CStr → Source} {d s c ca : Option CStr} (len : ℕ)
    (h : ∀ p ∈ [d, s, c, ca], ∀ q, p = some q → src q = src' q) :
    verifySignatureWithCert a src d s c ca len = verifySignatureWithCert a src' d s c ca len := by
  have hpaths : verifyPaths a src d s c ca = verifyPaths a src' d s c ca := by
    unfold verifyPaths
    split
    · rename_i d' s' c' ca'
      have hd := h (some d') (by simp) d' rfl
      have hs := h (some s') (by simp) s' rfl
      have hc := h (some c') (by simp) c' rfl
      have hca := h (some ca') (by simp) ca' rfl
      unfold verifyStages loadSignerCert loadCaStore readSignatureFile verifyWithKey
        verifyEd25519Signature verifyRsaEcdsaSignature readFileAll
      rw [hd, hs, hc, hca]
    · rfl
  unfold verifySignatureWithCert
  rw [hpaths]

lemma sha256sumFile_congr {sha256 : Bytes → Digest} (a : HashAnswer) {src src' : CStr → Source}
    {p : Option CStr} (h : ∀ q, p = some q → src q = src' q) :
    sha256sumFile sha256 a src p = sha256sumFile sha256 a src' p := by
  cases p with
  | none => rfl
  | some q =>
    unfold sha256sumFile
    dsimp only
    rw [h q rfl]

lemma bind_alike {V : View CStr} {x y : Except Errno Path}
    {f g : Path → Except Errno (Tree CStr FileRec)} (hxy : x = y)
    (hfg : ∀ q, y = .ok q → Alike V (f q) (g q)) : Alike V (x >>= f) (y >>= g) := by
  subst hxy
  cases x with
  | error err => rfl
  | ok q => exact hfg q rfl

/-- A call within the view gets the same answer and leaves worlds that look the same. -/
theorem exec_looks {V : View CStr} {e : Env} {w v : World} {c : Call} (h : Looks V w v)
    (hc : Within V e c) :
    (exec e w c).1 = (exec e v c).1 ∧ Looks V (exec e w c).2 (exec e v c).2 := by
  have hsame : Looks V (w.tick e w.fs) (v.tick e v.fs) := h.tick h.tree
  cases c with
  | mkdir p m =>
    refine commit_looks h _ (bind_alike ?_ ?_)
    · unfold locateDir
      rw [h.tree.walk hc]
    · intro q hq
      unfold locateDir at hq
      split_ifs at hq
      rw [Tree.walk_ok hq]
      exact h.tree.mkdirAt (View.Follows.resolve hc)
  | unlink p =>
    refine commit_looks h _ (bind_alike (locate_same h.tree hc) ?_)
    intro q hq
    obtain ⟨rfl, -⟩ := locate_ok hq
    exact h.tree.unlinkAt hc.place
  | rename s d =>
    refine commit_looks h _ (bind_alike (locate_same h.tree hc.1) ?_)
    intro q hq
    refine bind_alike (locate_same h.tree hc.2) ?_
    intro r hr
    obtain ⟨rfl, -⟩ := locate_ok hq
    obtain ⟨rfl, -⟩ := locate_ok hr
    exact h.tree.renameAt hc.1.place hc.2.place
  | stat p =>
    refine refuse_looks h _ ?_
    rw [sourceAt_same h.tree hc]
  | opendir p =>
    refine refuse_looks h _ ?_
    rw [locate_same h.tree hc.1]
    cases hl : locate v.fs e.cwd p with
    | error err => rfl
    | ok q =>
      obtain ⟨rfl, -⟩ := locate_ok hl
      have hscan : scan e w (place e.cwd p) = scan e v (place e.cwd p) := by
        unfold scan
        rw [h.clock]
        refine List.filter_congr ?_
        intro n _
        rw [h.tree _ (hc.2 n)]
      dsimp only
      rw [h.tree _ hc.1.place, hscan]
  | fopen p => exact openAs_looks h _ hc _ _
  | openWrite p m => exact openAs_looks h _ hc _ _
  | openDir p =>
    refine refuse_looks h _ ?_
    rw [locate_same h.tree hc]
    cases hl : locate v.fs e.cwd p with
    | error err => rfl
    | ok q =>
      obtain ⟨rfl, -⟩ := locate_ok hl
      dsimp only
      rw [h.tree.isDir hc.place]
  | fwrite fp chunk =>
    simp only [exec, h.clock]
    exact ⟨trivial, h.tick (h.tree.modifyAt hc _)⟩
  | fflush fp =>
    simp only [exec, h.clock]
    cases e.fault v.clock (.fflush fp) with
    | some err => exact ⟨rfl, h.tick (h.tree.modifyAt hc _)⟩
    | none => exact ⟨rfl, h.tick (h.tree.modifyAt hc _)⟩
  | fclose fp =>
    simp only [exec, h.clock]
    cases e.fault v.clock (.fclose fp) with
    | some err => exact ⟨rfl, h.tick (h.tree.modifyAt hc _)⟩
    | none => exact ⟨rfl, h.tick (h.tree.modifyAt hc _)⟩
  | write fd data =>
    simp only [exec, h.clock]
    cases e.fault v.clock (.write fd data) with
    | some err => exact ⟨rfl, hsame⟩
    | none => exact ⟨rfl, h.tick (h.tree.modifyAt hc _)⟩
  | fchmod fd m => exact commit_looks h _ (h.tree.modifyAt hc _)
  | verify d s c ca n =>
    simp only [exec, h.clock]
    refine ⟨verifySignatureWithCert_congr _ n ?_, hsame⟩
    intro p hp q hq
    exact sourceAt_same h.tree (hc p hp q hq)
  | sha256sum p =>
    simp only [exec, h.clock]
    exact ⟨sha256sumFile_congr _ fun q hq => sourceAt_same h.tree (hc q hq), hsame⟩
  | load p =>
    simp only [exec, h.clock, sourceAt_same h.tree (hc : Names V e.cwd p)]
    exact ⟨trivial, hsame⟩
  | readToken p =>
    simp only [exec, h.clock, sourceAt_same h.tree (hc : Names V e.cwd p)]
    exact ⟨trivial, hsame⟩
  | spawn argv =>
    simp only [exec, h.clock]
    cases e.fault v.clock (.spawn argv) with
    | some err => exact ⟨rfl, hsame⟩
    | none => exact ⟨rfl, ⟨h.tree, hsame.clock, hsame.terminate, congrArg (· + 1) h.unreaped⟩⟩
  | waitpid =>
    simp only [exec, h.clock]
    cases e.fault v.clock .waitpid with
    | some err => exact ⟨rfl, hsame⟩
    | none => exact ⟨rfl, ⟨h.tree, hsame.clock, hsame.terminate, congrArg (· - 1) h.unreaped⟩⟩
  | fsync fd => exact refuse_looks h _ rfl
  | close fd => exact refuse_looks h _ rfl
  | terminated => exact ⟨h.terminate, hsame⟩
  | malloc | curlInit | perform | keyAndCsr | requestJson =>
    simp only [exec, h.clock]
    exact ⟨trivial, hsame⟩
  | startCheck | sleep | sync | reboot => exact ⟨rfl, hsame⟩

/-- What the program works on: the entries of the inbox, the current manifest, the
file or directory of the certificate authority, and all directories above them. -/
def ownView (cwd : Path) (inbox current : CStr) (ca : Option CStr) : View CStr where
  sees q := (∃ n, q <:+ n :: dirPlace cwd inbox) ∨ q <:+ manifestName :: dirPlace cwd current ∨
    ∃ p cs, ca = some p ∧ cs <+: comps p ∧ q <:+ resolve (origin cwd p) cs
  up := by
    have hup : ∀ {n : CStr} {p r : Path}, n :: p <:+ r → p <:+ r :=
      fun h => (List.suffix_cons _ _).trans h
    rintro n p (⟨m, h⟩ | h | ⟨q, cs, hca, hcs, h⟩)
    · exact Or.inl ⟨m, hup h⟩
    · exact Or.inr (Or.inl (hup h))
    · exact Or.inr (Or.inr ⟨q, cs, hca, hcs, hup h⟩)

lemma noUp_trimSlashes {s : CStr} (h : NoUp s) : NoUp (trimSlashes s) := by
  induction s using List.reverseRecOn with
  | nil => exact h
  | append_singleton u c ih =>
    by_cases hc : c = slash
    · rw [hc] at h ⊢
      rw [trimSlashes_concat]
      exact ih ((noUp_append_iff u []).mp h).1
    · rw [trimSlashes_concat_ne _ hc]
      exact h

lemma noUp_plain {n : CStr} (h : Plain n) : NoUp n := by
  rw [NoUp, comps_of_not_mem h.1, h.2]
  simp

lemma names_join {V : View CStr} {cwd : Path} {d n : CStr} (hup : NoUp d) (hn : Plain n)
    (h : V.sees (n :: dirPlace cwd d)) : Names V cwd (join d n) := by
  refine View.follows_of_down ((noUp_append_iff d n).mpr ⟨hup, noUp_plain hn⟩) ?_
  rw [← place_join_plain cwd d hn] at h
  exact h

lemma names_inbox {cwd : Path} {inbox current n : CStr} {ca : Option CStr} (hup : NoUp inbox)
    (hn : Plain n) : Names (ownView cwd inbox current ca) cwd (join inbox n) :=
  names_join hup hn (Or.inl ⟨n, List.suffix_rfl⟩)

lemma names_current {cwd : Path} {inbox current : CStr} {ca : Option CStr} (hup : NoUp current) :
    Names (ownView cwd inbox current ca) cwd (join current manifestName) :=
  names_join hup (by decide) (Or.inr (Or.inl List.suffix_rfl))

lemma names_ca {cwd : Path} {inbox current p : CStr} {ca : Option CStr} (hca : ca = some p) :
    Names (ownView cwd inbox current ca) cwd p := by
  have hall : ∀ cs ds, cs ++ ds = comps p →
      (ownView cwd inbox current ca).Follows (resolve (origin cwd p) cs) ds := by
    intro cs ds
    induction ds generalizing cs with
    | nil =>
      intro h
      exact Or.inr (Or.inr ⟨p, cs, hca, ⟨[], h⟩, List.suffix_rfl⟩)
    | cons d ds ih =>
      intro h
      refine ⟨Or.inr (Or.inr ⟨p, cs, hca, ⟨d :: ds, h⟩, List.suffix_rfl⟩), ?_⟩
      have hnext := ih (cs ++ [d]) (by rw [List.append_assoc]; exact h)
      rw [resolve_append] at hnext
      exact hnext
  exact hall [] (comps p) rfl

/-- A directory that is made lies on the way to one of the two. -/
lemma within_mkdir {V : View CStr} {e : Env} {u d : CStr} {m : ℕ} (hne : u ≠ []) (hup : NoUp d)
    (hcut : Cut u d) (h : V.sees (dirPlace e.cwd d)) : Within V e (.mkdir u m) := by
  have hu : NoUp u := by
    rcases hcut with rfl | habove
    · exact hup
    · exact hup.of_above habove
  refine View.follows_of_down (noUp_trimSlashes hu) ?_
  have hplace := V.suffix (place_cut_suffix hne hup hcut) h
  rw [place_trimSlashes] at hplace
  exact hplace

lemma sees_inbox {cwd : Path} {inbox current : CStr} {ca : Option CStr} :
    (ownView cwd inbox current ca).sees (dirPlace cwd inbox) :=
  Or.inl ⟨[], List.suffix_cons _ _⟩

lemma sees_current {cwd : Path} {inbox current : CStr} {ca : Option CStr} :
    (ownView cwd inbox current ca).sees (dirPlace cwd current) :=
  Or.inr (Or.inl (List.suffix_cons _ _))

/-- A download into the inbox. -/
lemma within_fetch {e : Env} {inbox current n : CStr} {ca : Option CStr} {req : CurlRequest}
    {c : Call} (hup : NoUp inbox) (hn : Plain n) (h : FetchCall e req (join inbox n) c) :
    Within (ownView e.cwd inbox current ca) e c := by
  have hdest : Names (ownView e.cwd inbox current ca) e.cwd (join inbox n) := names_inbox hup hn
  have htmp : Names (ownView e.cwd inbox current ca) e.cwd (tmpOf (join inbox n)) := by
    rw [tmpOf_join]
    exact names_inbox hup (tmp_plain hn.1)
  rcases h with h | rfl
  · cases h with
    | mkdir u m hne habove => exact within_mkdir hne hup (above_join hn.1 habove) sees_inbox
    | malloc | curlInit | perform => trivial
    | fopen => exact htmp
    | unlink => exact htmp
    | fwrite fp b hloc =>
      show View.sees _ fp.loc
      rw [hloc]
      exact htmp.place
    | fflush fp hloc =>
      show View.sees _ fp.loc
      rw [hloc]
      exact htmp.place
    | fclose fp hloc =>
      show View.sees _ fp.loc
      rw [hloc]
      exact htmp.place
  · exact ⟨htmp, hdest⟩

/-- Replies of the machine, with plain payload names in the manifests. -/
def Sound (e : Env) (cfg : OtaConfig) (c : Call) (r : Resp c) : Prop :=
  Lawful e c r ∧ ∀ p m, (⟨c, r⟩ : Σ c, Resp c) = ⟨.load p, some m⟩ → NamePlain cfg m

/-- A configuration whose two directories are named without `..`. -/
structure Setup (cfg : OtaConfig) (inbox current : CStr) : Prop where
  inboxDir : cfg.inboxManifestDir = some inbox
  currentDir : cfg.currentManifestDir = some current
  inboxUp : NoUp inbox
  currentUp : NoUp current
  nonempty : inbox ≠ []

lemma Setup.built {cfg : OtaConfig} {ctx : OtaCtx} {inbox current inbox' current' : CStr}
    (h : Setup cfg inbox current) (hb : ctx.Built cfg inbox' current') :
    ctx.Built cfg inbox current := by
  obtain rfl : inbox' = inbox := Option.some.inj (hb.inboxDir.symm.trans h.inboxDir)
  obtain rfl : current' = current := Option.some.inj (hb.currentDir.symm.trans h.currentDir)
  exact hb

lemma cleanupLoop_within {e : Env} {cfg : OtaConfig} {inbox current : CStr}
    (h : Setup cfg inbox current) (names : List CStr) (hnames : ∀ n ∈ names, n ≠ [] ∧ slash ∉ n) :
    Obeys (Sound e cfg) (Within (ownView e.cwd inbox current cfg.manifestCaCert) e)
      (fun _ => True) (cleanupLoop inbox names) := by
  induction names with
  | nil => exact Obeys.ret trivial
  | cons name rest ih =>
    have hrest := ih fun n hn => hnames n (List.mem_cons_of_mem name hn)
    unfold cleanupLoop
    split_ifs with htmp
    · refine (buildPath_obeys _ _ trivial).bind (fun r hr => ?_)
      split
      · exact hrest
      · obtain ⟨d, hd, rfl⟩ := hr _ rfl
        obtain rfl := Option.some.inj hd
        have hplain := endsTmp_plain htmp (hnames name List.mem_cons_self).2
        exact Obeys.call (names_inbox h.inboxUp hplain) (fun _ _ => hrest)
    · exact hrest

lemma otaInboxCleanup_within {e : Env} {cfg : OtaConfig} {ctx : OtaCtx} {inbox current : CStr}
    (h : Setup cfg inbox current) (hb : ctx.Built cfg inbox current) :
    Obeys (Sound e cfg) (Within (ownView e.cwd inbox current cfg.manifestCaCert) e)
      (fun _ => True) (otaInboxCleanup ctx) := by
  unfold otaInboxCleanup
  rw [hb.inboxManifest, hb.inboxSig, hb.inboxCert, hb.config, h.inboxDir]
  refine Obeys.call (names_inbox h.inboxUp (by decide)) (fun _ _ => ?_)
  refine Obeys.call (names_inbox h.inboxUp (by decide)) (fun _ _ => ?_)
  refine Obeys.call (names_inbox h.inboxUp (by decide)) (fun _ _ => ?_)
  have hplace : place e.cwd inbox = dirPlace e.cwd inbox := (dirPlace_of_ne_nil h.nonempty).symm
  have hdir : Within (ownView e.cwd inbox current cfg.manifestCaCert) e (.opendir inbox) := by
    refine ⟨View.follows_of_down h.inboxUp ?_, ?_⟩
    · have hsees : (ownView e.cwd inbox current cfg.manifestCaCert).sees (place e.cwd inbox) := by
        rw [hplace]
        exact sees_inbox
      exact hsees
    · intro n
      rw [hplace]
      exact Or.inl ⟨n, List.suffix_rfl⟩
  refine Obeys.call hdir (fun r hr => ?_)
  split
  · exact Obeys.ret trivial
  · rename_i names
    exact cleanupLoop_within h names (hr.1 names rfl)

lemma within_newManifest {e : Env} {cfg : OtaConfig} {ctx : OtaCtx} {inbox current : CStr}
    {c : Call} (h : Setup cfg inbox current) (hb : ctx.Built cfg inbox current)
    (hc : NewManifestCall e ctx c) :
    Within (ownView e.cwd inbox current cfg.manifestCaCert) e c := by
  cases hc with
  | malloc => trivial
  | fetch url name dest c hurl hname hc =>
    rcases hname with ⟨-, rfl⟩ | ⟨-, rfl⟩ | ⟨-, rfl⟩
    · rw [hb.inboxManifest] at hc
      exact within_fetch h.inboxUp (by decide) hc
    · rw [hb.inboxSig] at hc
      exact within_fetch h.inboxUp (by decide) hc
    · rw [hb.inboxCert] at hc
      exact within_fetch h.inboxUp (by decide) hc

lemma within_verify {e : Env} {cfg : OtaConfig} {ctx : OtaCtx} {inbox current : CStr}
    (h : Setup cfg inbox current) (hb : ctx.Built cfg inbox current) :
    Within (ownView e.cwd inbox current cfg.manifestCaCert) e (verifyCall ctx) := by
  intro p hp q hq
  rw [hb.inboxManifest, hb.inboxSig, hb.inboxCert, hb.config] at hp
  subst hq
  simp only [List.mem_cons, Option.some.injEq, List.not_mem_nil, or_false] at hp
  rcases hp with rfl | rfl | rfl | hca
  · exact names_inbox h.inboxUp (by decide)
  · exact names_inbox h.inboxUp (by decide)
  · exact names_inbox h.inboxUp (by decide)
  · exact names_ca hca.symm

lemma compareManifests_within {e : Env} {cfg : OtaConfig} {ctx : OtaCtx} {inbox current : CStr}
    (h : Setup cfg inbox current) (hb : ctx.Built cfg inbox current) :
    Obeys (Sound e cfg) (Within (ownView e.cwd inbox current cfg.manifestCaCert) e)
      (fun _ => True) (compareManifests ctx) := by
  have hold : Names (ownView e.cwd inbox current cfg.manifestCaCert) e.cwd
      ctx.currentManifestPath := by
    rw [hb.currentManifest]
    exact names_current h.currentUp
  have hnew : Names (ownView e.cwd inbox current cfg.manifestCaCert) e.cwd
      ctx.inboxManifestPath := by
    rw [hb.inboxManifest]
    exact names_inbox h.inboxUp (by decide)
  have hexists : ∀ p, Names (ownView e.cwd inbox current cfg.manifestCaCert) e.cwd p →
      Obeys (Sound e cfg) (Within (ownView e.cwd inbox current cfg.manifestCaCert) e)
        (fun _ => True) (fileExists p) := by
    intro p hp
    refine Obeys.call hp (fun r _ => ?_)
    split <;> exact Obeys.ret trivial
  have hhash : ∀ p, Names (ownView e.cwd inbox current cfg.manifestCaCert) e.cwd p →
      Within (ownView e.cwd inbox current cfg.manifestCaCert) e (.sha256sum (some p)) := by
    intro p hp q hq
    exact Option.some.inj hq ▸ hp
  unfold compareManifests
  refine (hexists _ hold).bind (fun r _ => ?_)
  split
  · exact Obeys.ret trivial
  refine (hexists _ hnew).bind (fun r _ => ?_)
  split
  · exact Obeys.ret trivial
  refine Obeys.call (hhash _ hold) (fun h1 _ => ?_)
  refine Obeys.call (hhash _ hnew) (fun h2 _ => ?_)
  split <;> exact Obeys.ret trivial

lemma within_release {e : Env} {cfg : OtaConfig} {ctx : OtaCtx} {inbox current : CStr}
    {m : Manifest} {c : Call} (h : Setup cfg inbox current) (hb : ctx.Built cfg inbox current)
    (hm : ctx.inboxManifest = some m) (hname : NamePlain cfg m) (hc : ReleaseCall e ctx c) :
    Within (ownView e.cwd inbox current cfg.manifestCaCert) e c := by
  cases hc with
  | malloc => trivial
  | fetch release file dir filename path url c hchosen hurl hc =>
    have hdir := hchosen.inboxDir
    rw [hb.config, hb.inboxDir] at hdir
    obtain rfl := Option.some.inj hdir
    exact within_fetch h.inboxUp (hname filename (chosenName_of_chosen hchosen hb.config hm)) hc

lemma within_apply {e : Env} {cfg : OtaConfig} {ctx : OtaCtx} {inbox current : CStr} {c : Call}
    (h : Setup cfg inbox current) (hb : ctx.Built cfg inbox current) (hc : ApplyCall ctx c) :
    Within (ownView e.cwd inbox current cfg.manifestCaCert) e c := by
  cases hc with
  | mkdir dir u m hdir hne hcut =>
    rw [hb.config, h.currentDir] at hdir
    obtain rfl := Option.some.inj hdir
    exact within_mkdir hne h.currentUp hcut sees_current
  | unlink =>
    show Names _ _ _
    rw [hb.currentManifest]
    exact names_current h.currentUp
  | rename =>
    show Names _ _ _ ∧ Names _ _ _
    rw [hb.currentManifest, hb.inboxManifest]
    exact ⟨names_inbox h.inboxUp (by decide), names_current h.currentUp⟩
  | spawn | waitpid | sync | reboot => trivial

theorem attempt_within {e : Env} {cfg : OtaConfig} {inbox current : CStr}
    (h : Setup cfg inbox current) (daemonMode : Bool) :
    Obeys (Sound e cfg) (Within (ownView e.cwd inbox current cfg.manifestCaCert) e)
      (fun _ => True) (attempt daemonMode cfg) := by
  have hlawful : ∀ c r, Sound e cfg c r → Lawful e c r := fun _ _ hr => hr.1
  unfold attempt
  refine Obeys.call trivial (fun _ _ => ?_)
  refine Obeys.bind ((otaCtxInit_obeys (Lawful e) cfg).mono hlawful
    (by rintro c rfl; trivial) (fun _ => id)) (fun r hr => ?_)
  split
  · exact Obeys.ret trivial
  rename_i ctx
  obtain ⟨inbox', current', hb'⟩ := hr ctx rfl
  have hb := h.built hb'
  refine (otaInboxCleanup_within h hb).bind (fun _ _ => ?_)
  refine Obeys.bind ((fetchNewManifest_obeys e ctx).mono hlawful
    (fun c hc => within_newManifest h hb hc) (fun _ => id)) (fun rc _ => ?_)
  split
  · exact Obeys.ret trivial
  refine Obeys.bind ((validateNewManifest_obeys (Lawful e) ctx).mono hlawful
    (by rintro c rfl; exact within_verify h hb) (fun _ => id)) (fun rc _ => ?_)
  split
  · exact Obeys.ret trivial
  refine (compareManifests_within h hb).bind (fun r _ => ?_)
  cases r with
  | eq =>
    dsimp only
    split_ifs
    · exact Obeys.ret trivial
    · exact Obeys.ret trivial
  | err => exact Obeys.ret trivial
  | neq =>
    have hload : Within (ownView e.cwd inbox current cfg.manifestCaCert) e
        (.load ctx.inboxManifestPath) := by
      show Names _ _ _
      rw [hb.inboxManifest]
      exact names_inbox h.inboxUp (by decide)
    refine Obeys.call hload (fun m hm => ?_)
    split
    · exact Obeys.ret trivial
    rename_i m
    have hname : NamePlain cfg m := hm.2 _ m rfl
    have hb₁ : { ctx with inboxManifest := some m }.Built cfg inbox current :=
      ⟨hb.config, hb.inboxDir, hb.currentDir, hb.currentManifest, hb.inboxManifest, hb.inboxSig,
        hb.inboxCert⟩
    refine Obeys.bind ((fetchRelease_obeys e { ctx with inboxManifest := some m }).mono hlawful
      (fun c hc => within_release h hb₁ rfl hname hc) (fun _ => id)) (fun r hr => ?_)
    dsimp only
    by_cases hrc : r.1 ≠ 0
    · rw [if_pos hrc]
      exact Obeys.ret trivial
    rw [if_neg hrc]
    obtain ⟨release, file, dir, filename, path, hchosen, -, -, hctx⟩ := hr (not_not.mp hrc)
    have hb₂ : r.2.Built cfg inbox current := by
      rw [hctx]
      exact ⟨hb.config, hb.inboxDir, hb.currentDir, hb.currentManifest, hb.inboxManifest,
        hb.inboxSig, hb.inboxCert⟩
    have hdir := hchosen.inboxDir
    rw [hb₁.config, hb.inboxDir] at hdir
    obtain rfl := Option.some.inj hdir
    have hpayload : Within (ownView e.cwd inbox current cfg.manifestCaCert) e
        (.sha256sum r.2.payloadPath) := by
      intro q hq
      rw [hctx] at hq
      obtain rfl := Option.some.inj hq
      exact names_inbox h.inboxUp (hname filename (chosenName_of_chosen hchosen hb₁.config rfl))
    refine Obeys.bind ((validateRelease_obeys (Lawful e) r.2).mono hlawful
      (by rintro c rfl; exact hpayload) (fun _ => id)) (fun rc _ => ?_)
    split
    · exact Obeys.ret trivial
    refine Obeys.bind ((applyRelease_obeys (Lawful e) r.2).mono hlawful
      (fun c hc => within_apply h hb₂ hc) (fun _ => id)) (fun rc _ => ?_)
    split_ifs
    · exact Obeys.ret trivial
    · exact Obeys.ret trivial

theorem otaFetchRun_within {e : Env} {cfg : OtaConfig} {inbox current : CStr}
    (h : Setup cfg inbox current) (daemonMode : Bool) (fuel : ℕ) :
    Obeys (Sound e cfg) (Within (ownView e.cwd inbox current cfg.manifestCaCert) e)
      (fun _ => True) (otaFetchRun fuel daemonMode cfg) := by
  have hloop : ∀ (interval : ℤ) (fuel : ℕ) (made : ℤ), Obeys (Sound e cfg)
      (Within (ownView e.cwd inbox current cfg.manifestCaCert) e) (fun _ => True)
      (otaFetchLoop daemonMode cfg interval fuel made) := by
    intro interval fuel
    induction fuel with
    | zero => exact fun _ => Obeys.ret trivial
    | succ fuel ih =>
      intro made
      unfold otaFetchLoop
      refine (attempt_within h daemonMode).bind (fun r _ => ?_)
      cases r with
      | returned rc => exact Obeys.ret trivial
      | ended rc =>
        have hnext : ∀ (seconds next : ℤ), Obeys (Sound e cfg)
            (Within (ownView e.cwd inbox current cfg.manifestCaCert) e) (fun _ => True)
            (do if ← pause seconds then pure (some 0)
                else otaFetchLoop daemonMode cfg interval fuel next) := by
          intro seconds next
          unfold pause
          refine Obeys.call trivial (fun _ _ => ?_)
          refine Obeys.call trivial (fun stop _ => ?_)
          split
          · exact Obeys.ret trivial
          · exact ih next
        dsimp only
        split_ifs
        · exact hnext interval made
        · exact hnext retryDelay (made + 1)
        · exact Obeys.ret trivial
  exact hloop _ fuel 0

lemma Looks.trans {V : View CStr} {w u v : World} (h : Looks V w u) (h' : Looks V u v) :
    Looks V w v :=
  ⟨h.tree.trans h'.tree, h.clock.trans h'.clock, h.terminate.trans h'.terminate,
    h.unreaped.trans h'.unreaped⟩

/-- Among processes that leave alone what the program works on, every moment of a
run is a moment of the run alone: the same calls with the same answers so far, the
same still to come, the same result and the same files of its own. -/
theorem otaFetchRun_isolated (e : Env) (cfg : OtaConfig) (inbox current : CStr) (fuel : ℕ)
    (daemonMode : Bool) (other : World → World → Prop) (w u v : World)
    (t : List (Σ c, Resp c)) (m : Proc (Option ℤ)) (h : Setup cfg inbox current)
    (hname : Loads (NamePlain cfg) (run (exec e) (otaFetchRun fuel daemonMode cfg) w).trace)
    (hother : ∀ a b, other a b → Looks (ownView e.cwd inbox current cfg.manifestCaCert) a b)
    (hstart : Looks (ownView e.cwd inbox current cfg.manifestCaCert) w u)
    (hgoes : Goes (exec e) other (otaFetchRun fuel daemonMode cfg) u t m v) :
    ∃ a, Looks (ownView e.cwd inbox current cfg.manifestCaCert) a v ∧
      Alone (exec e) (otaFetchRun fuel daemonMode cfg) w t m a := by
  have hsound : ∀ s ∈ (run (exec e) (otaFetchRun fuel daemonMode cfg) w).trace,
      Sound e cfg s.call s.reply := by
    intro s hs
    refine ⟨chain_lawful (run_chain _ _ _) s hs, ?_⟩
    intro p m hev
    exact hname s hs p m hev
  have hwithin := ((otaFetchRun_within h daemonMode fuel).trace (exec e) w hsound).1
  have hcall : ∀ a s c, Looks (ownView e.cwd inbox current cfg.manifestCaCert) a s →
      Within (ownView e.cwd inbox current cfg.manifestCaCert) e c →
      (exec e a c).1 = (exec e s c).1 ∧
        Looks (ownView e.cwd inbox current cfg.manifestCaCert) (exec e a c).2 (exec e s c).2 :=
    fun _ _ _ ha hc => exec_looks ha hc
  exact hgoes.alone (fun _ _ _ ha hstep => ha.trans (hother _ _ hstep)) hcall hstart hwithin

/-- A process that writes a file of its own. -/
def scribble (a b : World) : Prop := b = { a with fs := a.fs.put [text "x"] ⟨[7], 420⟩ }

lemma scribble_looks {a b : World} (h : scribble a b) :
    Looks (ownView [] (text "in") (text "cur") (some (text "ca"))) a b := by
  subst h
  refine ⟨?_, rfl, rfl, rfl⟩
  intro q hq
  refine (Tree.put_node_of_ne _ _ ?_).symm
  rintro rfl
  have hin : dirPlace [] (text "in") = [text "in"] := by decide
  have hcur : dirPlace [] (text "cur") = [text "cur"] := by decide
  have htwo : ∀ a b : CStr, [text "x"] <:+ [a, b] → b = text "x" := by
    intro a b h
    rcases List.suffix_cons_iff.mp h with h | h
    · cases h
    · rcases List.suffix_cons_iff.mp h with h | h
      · exact (List.cons_eq_cons.mp h).1.symm
      · cases List.suffix_nil.mp h
  rcases hq with ⟨n, h⟩ | h | ⟨p, cs, hp, hcs, h⟩
  · rw [hin] at h
    exact absurd (htwo _ _ h) (by decide)
  · rw [hcur] at h
    exact absurd (htwo _ _ h) (by decide)
  · obtain rfl := Option.some.inj hp
    have hcomps : comps (text "ca") = [.name (text "ca")] := by decide
    rw [hcomps] at hcs
    rcases List.prefix_cons_iff.mp hcs with rfl | ⟨ds, rfl, hds⟩
    · cases List.suffix_nil.mp h
    · obtain rfl := List.prefix_nil.mp hds
      exact absurd h (by decide)

/-- The run of the device after 41 calls, when it has verified the manifest and not
loaded it yet. -/
def halfway : Proc (Option ℤ) × World :=
  resume (exec (deviceEnv (text "fw") raucBundle)) 41 (otaFetchRun 1 false deviceConfig)
    (.at deviceTree)

/-- The process writes its file at that moment. -/
def scribbled : World := { halfway.2 with fs := halfway.2.fs.put [text "x"] ⟨[7], 420⟩ }

/-- The device makes the same calls, with the same answers and the same result, when the
process is at work in the middle of its run. -/
theorem otaFetchRun_isolated_device :
    scribbled.fs.node [text "x"] ≠ halfway.2.fs.node [text "x"] ∧
      (run (exec (deviceEnv (text "fw") raucBundle)) (otaFetchRun 1 false deviceConfig)
        (.at deviceTree)).trace.map Step.event =
      ((run (exec (deviceEnv (text "fw") raucBundle)) (otaFetchRun 1 false deviceConfig)
        (.at deviceTree)).trace.take 41).map Step.event ++
        (run (exec (deviceEnv (text "fw") raucBundle)) halfway.1 scribbled).trace.map
          Step.event ∧
      (run (exec (deviceEnv (text "fw") raucBundle)) (otaFetchRun 1 false deviceConfig)
        (.at deviceTree)).value =
      (run (exec (deviceEnv (text "fw") raucBundle)) halfway.1 scribbled).value := by
  have hloads := loads_of_name (t := (run (exec (deviceEnv (text "fw") raucBundle))
    (otaFetchRun 1 false deviceConfig) (.at deviceTree)).trace)
    (show ∀ s ∈ _, loadsOther deviceConfig (text "fw") s = false by decide +kernel)
  have hfirst : Goes (exec (deviceEnv (text "fw") raucBundle)) scribble
      (otaFetchRun 1 false deviceConfig) (.at deviceTree) _ halfway.1 halfway.2 :=
    Goes.resume _ _ 41 _ _
  have hstep : scribble halfway.2 scribbled := rfl
  have hgoes := hfirst.trans (.other hstep (Goes.of_run _ _ _ _))
  obtain ⟨a, -, halone⟩ := otaFetchRun_isolated (deviceEnv (text "fw") raucBundle) deviceConfig
    (text "in") (text "cur") 1 false scribble (.at deviceTree) (.at deviceTree) _ _ _
    ⟨rfl, rfl, by decide, by decide, by decide⟩
    (hloads.mono fun m hm filename hchosen => by rw [hm filename hchosen]; decide)
    (fun _ _ => scribble_looks) ⟨SameOn.refl _ _, rfl, rfl, rfl⟩ hgoes
  exact ⟨by decide +kernel, halone.returned.1, halone.returned.2.1⟩

/-- A process that replaces the file at a path. -/
def overwrites (e : Env) (p : CStr) (a b : World) : Prop :=
  ∃ f, b = { a with fs := a.fs.put (place e.cwd p) f }

/-- A reader of the path then finds the new bytes. -/
lemma replaced_source {t : Tree CStr FileRec} {cwd : Path} {p : CStr} {data : Bytes}
    (h : sourceAt t cwd p = .file data) (b : Bytes) :
    sourceAt (t.put (place cwd p) ⟨b, 420⟩) cwd p = .file b := by
  have hl := locate_of_source h
  have hfile : ∃ f, t.node (place cwd p) = some (.file f) := by
    unfold sourceAt at h
    rw [hl] at h
    dsimp only at h
    split at h
    · cases h
    · cases h
    · exact ⟨_, ‹_›⟩
  obtain ⟨f, hf⟩ := hfile
  have hl' : locate (t.put (place cwd p) ⟨b, 420⟩) cwd p = .ok (place cwd p) := by
    unfold locate at hl ⊢
    split_ifs at hl ⊢
    exact Tree.walk_mono (fun r hr => (Tree.put_edits t _ _).dir.mpr hr) hl
  unfold sourceAt
  rw [hl']
  dsimp only
  rw [Tree.put_node_self _ (Tree.holds_of_file hf)]

/-- A process that acts right before the file is loaded decides what is loaded. -/
lemma goes_replaced {e : Env} {α : Type} {prog : Proc α} {w : World} {pre post : Trace}
    {s : Step Call Resp World} {p : CStr} {r : Option Manifest} {data : Bytes}
    (ht : (run (exec e) prog w).trace = pre ++ s :: post) (hs : s.event = ⟨.load p, r⟩)
    (hdata : sourceAt s.before.fs e.cwd p = .file data) (b : Bytes) :
    ∃ k v, Goes (exec e) (overwrites e p) prog w
      (pre.map Step.event ++
        [⟨.load p, manifestLoad e.cjson (e.loadRead s.before.clock) (.file b)⟩]) k v := by
  obtain ⟨before, c, r', after⟩ := s
  obtain ⟨rfl, -⟩ := Sigma.mk.inj hs
  obtain ⟨k, hgoes⟩ : ∃ k, Goes (exec e) (overwrites e p) prog w
    (pre.map Step.event) (.call (.load p) k) before := Goes.upTo ht
  have hsource := replaced_source hdata b
  have hcall : Goes (exec e) (overwrites e p) (.call (.load p) k)
      { before with fs := before.fs.put (place e.cwd p) ⟨b, 420⟩ } [⟨.load p, _⟩] _ _ :=
    .call (.rest _ _)
  have hload : (exec e { before with fs := before.fs.put (place e.cwd p) ⟨b, 420⟩ } (.load p)).1 =
      manifestLoad e.cjson (e.loadRead before.clock) (.file b) := by
    show manifestLoad e.cjson (e.loadRead before.clock) (sourceAt _ e.cwd p) = _
    rw [hsource]
  rw [hload] at hcall
  exact ⟨_, _, hgoes.trans (.other ⟨⟨b, 420⟩, rfl⟩ hcall)⟩

/-- The file that was verified need not be the one that is loaded. Whenever a run loads
a manifest, it has verified the bytes of that manifest in the same iteration; but a
process that replaces the file after the verification makes the run load any other
bytes instead, after the same calls with the same answers. -/
theorem otaFetchRun_loads_replaced (e : Env) (cfg : OtaConfig) (fuel : ℕ) (daemonMode : Bool)
    (w : World) (pre post : Trace) (s : Step Call Resp World) (p : CStr) (m : Manifest)
    (ht : (run (exec e) (otaFetchRun fuel daemonMode cfg) w).trace = pre ++ s :: post)
    (hs : s.event = ⟨.load p, some m⟩) :
    ∃ inbox here sv msg data, cfg.inboxManifestDir = some inbox ∧ p = join inbox manifestName ∧
      ThisIteration pre here ∧ sv ∈ here ∧
      sv.event = ⟨.verify (some p) (some (join inbox sigName)) (some (join inbox certName))
        cfg.manifestCaCert verifyErrbufLen, (.ok, msg)⟩ ∧
      sourceAt sv.before.fs e.cwd p = .file data ∧ manifestParse e.cjson data = some m ∧
      ∀ b, ∃ k v, Goes (exec e) (overwrites e p) (otaFetchRun fuel daemonMode cfg) w
        (pre.map Step.event ++
          [⟨.load p, manifestLoad e.cjson (e.loadRead s.before.clock) (.file b)⟩]) k v := by
  rcases otaFetchRun_step ht with hp | ⟨before, here, after, w', rfl, hit, -⟩
  · have hload : s.call = .load p := congrArg Sigma.fst hs
    rcases hp with ⟨n, hn⟩ | hn <;> rw [hload] at hn <;> cases hn
  obtain ⟨ctx, hr, rfl, hx⟩ := attempt_loadsThere e daemonMode cfg w' _ _ _ _ _ hit hs
  obtain ⟨inbox, current, hb⟩ := hr.built
  have hbuilt : ({ ctx with inboxManifest := some m } : OtaCtx).Built cfg inbox current :=
    ⟨hb.1, hb.2, hb.3, hb.4, hb.5, hb.6, hb.7⟩
  obtain ⟨data, m', sv, -, -, -, hm, hauth, hfs, -⟩ :=
    (Reach.load ctx here s.before s.after m hr hx).loaded hbuilt
  obtain rfl : m = m' := Option.some.inj hm
  obtain ⟨msg, hev⟩ := hauth.verified
  have hmem : sv ∈ here := by
    rcases List.mem_append.mp hauth.mem with h | h
    · exact h
    · rw [List.mem_singleton.mp h] at hev
      cases congrArg Sigma.fst hev
  have hopen := hr.calls (stageCalls_early e cfg) (fun _ _ _ _ _ => trivial)
  have hdata : sourceAt s.before.fs e.cwd ctx.inboxManifestPath = .file data := by
    have hsame : s.before.fs = sv.before.fs := (congrArg (fun r => r.2.fs) hx).trans hfs
    rw [hsame, hb.inboxManifest]
    exact hauth.bytes
  have hbytes := hauth.bytes
  rw [← hb.inboxManifest] at hev hbytes
  refine ⟨inbox, here, sv, msg, data, hb.inboxDir, hb.inboxManifest,
    ⟨before, rfl, hopen.mono fun c hc => hc.1⟩, hmem, hev, hbytes, hauth.parsed, fun b => ?_⟩
  exact goes_replaced ht hs hdata b

/-- The device knows another manifest, which nobody has signed. -/
def otherEnv : Env :=
  .calm (deviceServer manifestBytes) (.ofDocuments
    [.obj (releaseMembers (text "fw") raucBundle), .obj (releaseMembers (text "no") raucBundle)]
    (by decide +kernel))

/-- What is read in that manifest. -/
def otherManifest : Option Manifest :=
  manifestParse otherEnv.cjson (manifestFor (text "no") raucBundle)

/-- The step loads a manifest from the inbox, but not that one. -/
def loadsSigned (s : Step Call Resp World) : Bool :=
  match s.event with
  | ⟨.load p, some m⟩ => p == text "in/manifest.json" && some m != otherManifest
  | _ => false

lemma loadsSigned_event {s : Step Call Resp World} (h : loadsSigned s = true) :
    ∃ m, s.event = ⟨.load (text "in/manifest.json"), some m⟩ ∧ some m ≠ otherManifest := by
  unfold loadsSigned at h
  split at h
  · rename_i p m hev
    rw [Bool.and_eq_true, bne_iff_ne] at h
    rw [hev, eq_of_beq h.1]
    exact ⟨m, rfl, h.2⟩
  · cases h

/-- It verifies one manifest and loads the other. -/
theorem otaFetchRun_loads_replaced_device :
    ∃ (pre : Trace) (sv : Step Call Resp World) (data : Bytes) (m m' : Manifest), sv ∈ pre ∧
      accepts sv = true ∧ sourceAt sv.before.fs [] (text "in/manifest.json") = .file data ∧
      manifestParse otherEnv.cjson data = some m ∧ m ≠ m' ∧
      ∃ k v, Goes (exec otherEnv) (overwrites otherEnv (text "in/manifest.json"))
        (otaFetchRun 1 false deviceConfig) (.at deviceTree)
        (pre.map Step.event ++ [⟨.load (text "in/manifest.json"), some m'⟩]) k v := by
  have hload : ((run (exec otherEnv) (otaFetchRun 1 false deviceConfig)
      (.at deviceTree)).trace.drop 41).head?.any loadsSigned = true := by decide +kernel
  obtain ⟨s, hs, hmatch⟩ := (Option.any_eq_true _ _).mp hload
  obtain ⟨m, hev, hne⟩ := loadsSigned_event hmatch
  have ht := List.take_append_drop 41 (run (exec otherEnv) (otaFetchRun 1 false deviceConfig)
    (.at deviceTree)).trace
  rw [← List.cons_head?_tail hs] at ht
  obtain ⟨inbox, here, sv, msg, data, -, -, ⟨before, hpre, -⟩, hsv, hverify, hdata, hparse,
    hgoes⟩ := otaFetchRun_loads_replaced otherEnv deviceConfig 1 false (.at deviceTree) _ _ s _ m
      ht.symm hev
  have haccepts : accepts sv = true := by
    rw [accepts, hverify]
  obtain ⟨m', hm'⟩ : ∃ m', otherManifest = some m' :=
    Option.isSome_iff_exists.mp (by decide +kernel)
  have hread : manifestLoad otherEnv.cjson (otherEnv.loadRead s.before.clock)
      (.file (manifestFor (text "no") raucBundle)) = some m' := by
    rw [manifestLoad_whole, ← hm', otherManifest]
    exact ⟨rfl, rfl, rfl, rfl, show _ ≤ manifestMaxLen by decide +kernel⟩
  refine ⟨_, sv, data, m, m', hpre ▸ List.mem_append_right _ hsv, haccepts, hdata, hparse, ?_,
    hread ▸ hgoes (manifestFor (text "no") raucBundle)⟩
  rintro rfl
  exact hne hm'.symm

end OtaFetch.Isolation
