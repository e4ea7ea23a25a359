import OtaFetch.Storing
import OtaFetch.Current
import OtaFetch.Enrolled

/-!
# Enrolling again

An enrollment can be cut off after any of its steps. The token is there as long as
no enrollment has stored both its key and its certificate, and nothing that a cut
leaves behind is in the way of the next enrollment: once failures stop, one that is
forced succeeds, and one that is not forced succeeds as long as neither file was
stored.
-/
namespace OtaFetch.Reenroll
open CPath FileTree Stdio Interaction Machine Config Releases Identity Fetch Update AtomicWrite
open Stages Current Enroll MakeDirs Storing

/-- A call of `write_file_atomic`. -/
structure Replacing (e : Env) (path : CStr) (c : Call) : Prop where
  dirs : ∀ u m, c = .mkdir u m → u ≠ [] ∧ Above u path
  files : ∀ q, Writes e c q → q = place e.cwd path ∨ q = place e.cwd (tmpOf path)

lemma ensureParentDir_above (E : (c : Call) → Resp c → Prop) (path : CStr) (mode : ℕ) :
    Obeys E (fun c => ∃ u m, c = .mkdir u m ∧ u ≠ [] ∧ Above u path) (fun _ => True)
      (ensureParentDir path mode) := by
  unfold ensureParentDir
  split
  · exact Obeys.ret trivial
  · split
    · exact Obeys.ret trivial
    · rename_i dir hdir
      obtain ⟨c, -, hpath⟩ := cutLast_some hdir
      split
      · exact Obeys.ret trivial
      · refine (mkdirP_obeys E dir mode).mono (fun _ _ => id) ?_ (fun _ _ => trivial)
        rintro _ ⟨u, m, rfl, hu, hcut⟩
        exact ⟨u, m, rfl, hu, hcut.above ⟨c, hpath⟩⟩

lemma replacing_mkdir {e : Env} {path u : CStr} {m : ℕ} (hu : u ≠ []) (habove : Above u path) :
    Replacing e path (.mkdir u m) := by
  refine ⟨?_, fun q h => h.elim⟩
  intro u' m' hc
  cases hc
  exact ⟨hu, habove⟩

lemma writeFileAtomic_replacing (e : Env) (fuel : ℕ) (path : CStr) (data : Bytes) (mode : ℕ) :
    Obeys (Lawful e) (Replacing e path) (fun _ => True)
      (writeFileAtomic fuel path data mode) := by
  have hquiet : ∀ {c : Call}, (∀ u m, c ≠ .mkdir u m) → (∀ q, ¬ Writes e c q) →
      Replacing e path c :=
    fun hd hw => ⟨fun u m h => absurd h (hd u m), fun q h => absurd h (hw q)⟩
  have htmp : ∀ {c : Call}, (∀ u m, c ≠ .mkdir u m) →
      (∀ q, Writes e c q → q = place e.cwd (tmpOf path)) → Replacing e path c :=
    fun hd hw => ⟨fun u m h => absurd h (hd u m), fun q h => .inr (hw q h)⟩
  have hclose : ∀ fd, Replacing e path (.close fd) := fun fd => hquiet (by simp) (fun _ => id)
  have hclean : ∀ fd, Obeys (Lawful e) (Replacing e path) (fun _ => True)
      (writeCleanup (tmpOf path) fd) := by
    intro fd
    refine (writeCleanup_obeys hclose ?_ fd).mono (fun _ _ => id) (fun _ => id) (fun _ _ => trivial)
    exact htmp (by simp) (fun _ => id)
  unfold writeFileAtomic
  refine Obeys.bind ((ensureParentDir_above (Lawful e) path 448).mono (fun _ _ => id) ?_
    (fun _ => id)) (fun rc _ => ?_)
  · rintro _ ⟨u, m, rfl, hu, habove⟩
    exact replacing_mkdir hu habove
  split
  · exact Obeys.ret trivial
  refine Obeys.call (hquiet (by simp) (fun _ => id)) (fun granted _ => ?_)
  split
  · exact Obeys.ret trivial
  refine Obeys.call (htmp (by simp) (fun _ => id)) (fun opened hopened => ?_)
  cases opened with
  | error _ => exact hclean none
  | ok fd =>
    obtain rfl : fd = place e.cwd (tmpOf path) := hopened fd rfl
    unfold writeOpened
    refine Obeys.bind (writeAll_obeys fuel data (fun rest _ => htmp (by simp) (fun _ => id)))
      (fun r _ => ?_)
    split
    · exact Obeys.ret trivial
    split
    · exact hclean _
    refine Obeys.call (htmp (by simp) (fun _ => id)) (fun r _ => ?_)
    split
    · exact hclean _
    refine Obeys.call (hquiet (by simp) (fun _ => id)) (fun r _ => ?_)
    split
    · exact hclean _
    refine Obeys.call (hclose _) (fun r _ => ?_)
    split
    · exact hclean _
    refine Obeys.call ⟨by simp, fun q hq => hq.symm⟩ (fun r _ => ?_)
    split
    · exact hclean _
    refine (fsyncParentDir_obeys (fun _ => hquiet (by simp) (fun _ => id))
      (fun _ => hquiet (by simp) (fun _ => id)) hclose path).bind (fun rc _ => ?_)
    split
    · exact hclean _
    · exact Obeys.ret trivial

/-- The files an enrollment may change. -/
def storedPaths (keyPath certPath tokenFile : CStr) : List CStr :=
  [keyPath, tmpOf keyPath, certPath, tmpOf certPath, tokenFile]

/-- A call of `ota_fetch_enroll`. -/
structure Enrolling (e : Env) (keyPath certPath tokenFile : CStr) (c : Call) : Prop where
  dirs : ∀ u m, c = .mkdir u m → u ≠ [] ∧ (Above u keyPath ∨ Above u certPath)
  files : ∀ q, Writes e c q → ∃ p ∈ storedPaths keyPath certPath tokenFile, q = place e.cwd p

lemma Replacing.ofKey {e : Env} {keyPath certPath tokenFile : CStr} {c : Call}
    (h : Replacing e keyPath c) : Enrolling e keyPath certPath tokenFile c := by
  refine ⟨fun u m hc => ⟨(h.dirs u m hc).1, .inl (h.dirs u m hc).2⟩, ?_⟩
  intro q hw
  rcases h.files q hw with rfl | rfl
  · exact ⟨keyPath, by simp [storedPaths], rfl⟩
  · exact ⟨tmpOf keyPath, by simp [storedPaths], rfl⟩

lemma Replacing.ofCert {e : Env} {keyPath certPath tokenFile : CStr} {c : Call}
    (h : Replacing e certPath c) : Enrolling e keyPath certPath tokenFile c := by
  refine ⟨fun u m hc => ⟨(h.dirs u m hc).1, .inr (h.dirs u m hc).2⟩, ?_⟩
  intro q hw
  rcases h.files q hw with rfl | rfl
  · exact ⟨certPath, by simp [storedPaths], rfl⟩
  · exact ⟨tmpOf certPath, by simp [storedPaths], rfl⟩

/-- The calls up to the point where there is a key and a certificate. -/
inductive Asking : Call → Prop where
  | stat (p : CStr) : Asking (.stat p)
  | readToken (p : CStr) : Asking (.readToken p)
  | malloc : Asking .malloc
  | keyAndCsr (d : Option CStr) : Asking (.keyAndCsr d)
  | requestJson (csr : CStr) (d : Option CStr) : Asking (.requestJson csr d)
  | curlInit : Asking .curlInit
  | perform (req : CurlRequest) : Asking (.perform req)

lemma Asking.readOnly {c : Call} (h : Asking c) : ReadOnly c := by
  intro e w
  cases h with
  | stat p => exact exec_stat_fs e w p
  | _ => rfl

lemma Asking.silent {c : Call} (h : Asking c) (e : Env) : Silent e c := by
  intro q hw
  cases h <;> exact hw

lemma Asking.enrolling {c : Call} (h : Asking c) (e : Env) (keyPath certPath tokenFile : CStr) :
    Enrolling e keyPath certPath tokenFile c := by
  refine ⟨?_, fun q hw => absurd hw (h.silent e q)⟩
  rintro u m rfl
  cases h

lemma refusesIdentity_asking (E : (c : Call) → Resp c → Prop) (force : Bool)
    (keyPath certPath : CStr) :
    Obeys E Asking (fun _ => True) (refusesIdentity force keyPath certPath) := by
  have hexists : ∀ p, Obeys E Asking (fun _ => True) (fileExists p) := by
    intro p
    refine Obeys.call (.stat p) (fun r _ => ?_)
    split
    · exact Obeys.ret trivial
    · exact Obeys.ret trivial
  unfold refusesIdentity
  split
  · exact Obeys.ret trivial
  · refine (hexists keyPath).bind (fun b _ => ?_)
    split
    · exact Obeys.ret trivial
    · exact hexists certPath

lemma receive_asking (E : (c : Call) → Resp c → Prop) (chunks : List Bytes) (mem : Bytes) :
    Obeys E Asking (fun _ => True) (receive chunks mem) := by
  induction chunks generalizing mem with
  | nil => exact Obeys.ret trivial
  | cons chunk rest ih =>
    have hgrow : Obeys E Asking (fun _ => True) (writeCallback chunk mem) := by
      refine Obeys.call .malloc (fun r _ => ?_)
      split
      · exact Obeys.ret trivial
      · exact Obeys.ret trivial
    refine hgrow.bind (fun r _ => ?_)
    dsimp only
    split
    · exact ih r.2
    · exact Obeys.ret trivial

lemma postEnrollRequest_asking (E : (c : Call) → Resp c → Prop) (url : CStr) (cfg : OtaConfig)
    (token json : CStr) :
    Obeys E Asking (fun _ => True) (postEnrollRequest url cfg token json) := by
  have hslist : ∀ headers s, Obeys E Asking (fun _ => True) (slistAppend headers s) := by
    intro headers s
    refine Obeys.call .malloc (fun r _ => ?_)
    split
    · exact Obeys.ret trivial
    · exact Obeys.ret trivial
  unfold postEnrollRequest
  refine Obeys.call .malloc (fun r _ => ?_)
  split
  · exact Obeys.ret trivial
  refine Obeys.call .curlInit (fun r _ => ?_)
  split
  · exact Obeys.ret trivial
  refine (hslist _ _).bind (fun _ _ => (hslist _ _).bind (fun _ _ => (hslist _ _).bind ?_))
  intro headers _
  refine Obeys.call (.perform _) (fun tr _ => ?_)
  refine (receive_asking E tr.chunks []).bind (fun r _ => ?_)
  dsimp only
  split_ifs <;> exact Obeys.ret trivial

lemma requestIdentity_asking (E : (c : Call) → Resp c → Prop) (cjson : CJson) (cfg : OtaConfig)
    (tokenFile : CStr) :
    Obeys E Asking (fun _ => True) (requestIdentity cjson cfg tokenFile) := by
  have hendpoint : Obeys E Asking (fun _ => True) (enrollEndpoint cfg) := by
    unfold enrollEndpoint
    split
    · exact Obeys.ret trivial
    · split
      · exact Obeys.ret trivial
      · refine Obeys.call .malloc (fun r _ => ?_)
        split
        · exact Obeys.ret trivial
        · exact Obeys.ret trivial
  unfold requestIdentity
  refine Obeys.call (.readToken _) (fun r₁ _ => ?_)
  split
  · exact Obeys.ret trivial
  refine hendpoint.bind (fun r₂ _ => ?_)
  split
  · exact Obeys.ret trivial
  refine Obeys.call (.keyAndCsr _) (fun r₃ _ => ?_)
  split
  · exact Obeys.ret trivial
  refine Obeys.call (.requestJson _ _) (fun r₄ _ => ?_)
  split
  · exact Obeys.ret trivial
  refine (postEnrollRequest_asking E _ cfg _ _).bind (fun r₅ _ => ?_)
  split
  · exact Obeys.ret trivial
  split
  · exact Obeys.ret trivial
  refine Obeys.call .malloc (fun r₆ _ => ?_)
  split
  · exact Obeys.ret trivial
  · exact Obeys.ret trivial

theorem otaFetchEnroll_enrolling (e : Env) (cjson : CJson) (fuel : ℕ) {cfg : OtaConfig}
    {keyPath certPath : CStr} (tokenFile : CStr) (force : Bool)
    (hkey : cfg.tlsClientKey = some keyPath) (hcert : cfg.tlsClientCert = some certPath) :
    Obeys (Lawful e) (Enrolling e keyPath certPath tokenFile) (fun _ => True)
      (otaFetchEnroll cjson fuel cfg (some tokenFile) force) := by
  have hask : ∀ c, Asking c → Enrolling e keyPath certPath tokenFile c :=
    fun c h => h.enrolling e keyPath certPath tokenFile
  have hunlink : Enrolling e keyPath certPath tokenFile (.unlink tokenFile) := by
    refine ⟨by simp, ?_⟩
    rintro q rfl
    exact ⟨tokenFile, by simp [storedPaths], rfl⟩
  unfold otaFetchEnroll
  rw [hkey, hcert]
  dsimp only
  refine Obeys.bind ((refusesIdentity_asking (Lawful e) force keyPath certPath).mono
    (fun _ _ => id) hask (fun _ => id)) (fun r₁ _ => ?_)
  split
  · exact Obeys.ret trivial
  refine Obeys.bind ((requestIdentity_asking (Lawful e) cjson cfg tokenFile).mono
    (fun _ _ => id) hask (fun _ => id)) (fun r₂ _ => ?_)
  split
  · exact Obeys.ret trivial
  refine Obeys.bind ((writeFileAtomic_replacing e fuel keyPath _ 384).mono
    (fun _ _ => id) (fun _ h => h.ofKey) (fun _ => id)) (fun r₃ _ => ?_)
  split
  · exact Obeys.ret trivial
  split
  · exact Obeys.ret trivial
  refine Obeys.bind ((writeFileAtomic_replacing e fuel certPath _ 420).mono
    (fun _ _ => id) (fun _ h => h.ofCert) (fun _ => id)) (fun r₄ _ => ?_)
  split
  · exact Obeys.ret trivial
  split
  · exact Obeys.ret trivial
  refine Obeys.call hunlink (fun r₅ _ => ?_)
  split
  · exact Obeys.ret trivial
  · exact Obeys.ret trivial
  · exact Obeys.ret trivial

lemma contentAt_congr {e e' : Env} {w v : World} {p : CStr} (hcwd : e'.cwd = e.cwd)
    (hfs : v.fs = w.fs) : contentAt e' v p = contentAt e w p := by
  rw [contentAt, contentAt, hcwd, hfs]

/-- Both files hold what the run has produced, and the token is gone. -/
structure Finished (e : Env) (keyPath certPath tokenFile : CStr) (t : Trace) (v : World) :
    Prop where
  identity : ∃ key cert, producedKey t = some key ∧ producedCert e.cjson t = some cert ∧
    contentAt e v keyPath = some key ∧ contentAt e v certPath = some cert
  token : contentAt e v tokenFile = none

lemma unlink_content {e : Env} {w v : World} {p : CStr} {r : Except Errno Unit}
    (hx : exec e w (.unlink p) = (r, v)) :
    contentAt e v p = contentAt e w p ∨ contentAt e v p = none := by
  cases r with
  | error err =>
    left
    rw [contentAt, contentAt, (commit_error hx).1]
  | ok _ =>
    right
    rw [contentAt, Tree.fileAt_eq_none.mpr (.inl (exec_unlink_ok hx).2), Option.map_none]

/-- Wherever an enrollment is cut off, the token is as it was or the enrollment is
done. -/
theorem otaFetchEnroll_cut (e : Env) (w : World) (fuel : ℕ) (cfg : OtaConfig)
    (tokenFile keyPath certPath : CStr) (force : Bool) (hkey : cfg.tlsClientKey = some keyPath)
    (hcert : cfg.tlsClientCert = some certPath)
    (hapart : PathsApart e.cwd keyPath certPath tokenFile) :
    Yields (exec e) w (otaFetchEnroll e.cjson fuel cfg (some tokenFile) force) (fun _ t _ =>
      ∀ s ∈ t, contentAt e s.after tokenFile = contentAt e w tokenFile ∨
        Finished e keyPath certPath tokenFile t s.after) := by
  have hends := otaFetchEnroll_phases e w fuel cfg tokenFile keyPath certPath force hkey hcert
  have hplaces := hapart
  simp only [PathsApart, List.nodup_cons, List.mem_cons, List.not_mem_nil, or_false, not_or]
    at hplaces
  obtain ⟨⟨-, hkt, -⟩, ⟨hct, -⟩, ⟨htk, htc, -⟩, -⟩ := hplaces
  have hkeyStep : ∀ {data r v₁ u v}, Rewritten e fuel keyPath data 384 r v₁ u v → ∀ s ∈ u,
      ¬ Writes e s.call (place e.cwd tokenFile) := by
    intro data r v₁ u v h s hs hw
    rcases h.written.writeEnd.writes hs hw with hq | hq
    · exact htk hq
    · exact hkt hq.symm
  have hcertStep : ∀ {data r v₁ u v}, Rewritten e fuel certPath data 420 r v₁ u v → ∀ s ∈ u,
      ¬ Writes e s.call (place e.cwd tokenFile) := by
    intro data r v₁ u v h s hs hw
    rcases h.written.writeEnd.writes hs hw with hq | hq
    · exact htc hq
    · exact hct hq.symm
  refine hends.mono ?_
  intro r t v h
  cases h with
  | early _ _ hr hc hsilent =>
    intro s hs
    exact .inl ((chain_contentAt hc fun s hs => hsilent s hs _).2 s hs)
  | atKey t u v₁ _ key cert r₁ hr hr₁ hready hkey =>
    intro s hs
    have hc := Chain.append_iff.mpr ⟨v₁, hready.chain, hkey.chain⟩
    refine .inl ((chain_contentAt hc ?_).2 s hs)
    exact List.forall_mem_append.mpr ⟨fun s hs => hready.silent s hs _, hkeyStep hkey⟩
  | atCert t u x v₁ v₂ _ key cert r₂ hr hr₂ hready hkey hcert =>
    intro s hs
    have hc := Chain.append_iff.mpr ⟨v₁, hready.chain,
      Chain.append_iff.mpr ⟨v₂, hkey.chain, hcert.chain⟩⟩
    refine .inl ((chain_contentAt hc ?_).2 s hs)
    simp only [List.forall_mem_append]
    exact ⟨fun s hs => hready.silent s hs _, hkeyStep hkey, hcertStep hcert⟩
  | atToken t u x v₁ v₂ v₃ _ key cert reply hr hready hkey hcert htoken =>
    have hc := Chain.append_iff.mpr ⟨v₁, hready.chain,
      Chain.append_iff.mpr ⟨v₂, hkey.chain, hcert.chain⟩⟩
    have hsame := chain_contentAt (p := tokenFile) hc (by
      simp only [List.forall_mem_append]
      exact ⟨fun s hs => hready.silent s hs _, hkeyStep hkey, hcertStep hcert⟩)
    intro s hs
    have hsplit : s ∈ (t ++ (u ++ x)) ∨ s = ⟨v₃, .unlink tokenFile, reply, v⟩ := by
      simp only [List.mem_append, List.mem_singleton] at hs ⊢
      tauto
    rcases hsplit with hs | rfl
    · exact .inl (hsame.2 s hs)
    · rcases unlink_content htoken with hkept | hgone
      · exact .inl (hkept.trans hsame.1)
      · right
        have hstored := (hready.writeKey tokenFile hapart hkey).resolve_left fun h => h.1 rfl
        have hboth := (hstored.writeCert hapart hcert.written.writeEnd hcert.chain).resolve_left
          fun h => h.1 rfl
        have hlast := hboth.unlinkToken hapart htoken
        rw [List.append_assoc, List.append_assoc] at hlast
        exact ⟨⟨key, cert, hlast.producedKey, hlast.producedCert, hlast.key, hlast.cert⟩, hgone⟩

lemma requestIdentity_tokenless {e : Env} {w : World} (cfg : OtaConfig) {tokenFile : CStr}
    (hgone : contentAt e w tokenFile = none) :
    Yields (exec e) w (requestIdentity e.cjson cfg tokenFile) (fun r _ _ => r = none) := by
  have hsource : ∀ data, sourceAt w.fs e.cwd tokenFile ≠ .file data := by
    intro data h
    have hsome := contentAt_of_source h
    rw [hgone] at hsome
    cases hsome
  unfold requestIdentity
  refine Yields.call ?_
  intro r v hx
  have hr : r = none := by
    rw [show r = readTokenFile (e.token w.clock) (sourceAt w.fs e.cwd tokenFile) from
      congrArg Prod.fst hx.symm]
    cases hs : sourceAt w.fs e.cwd tokenFile with
    | file data => exact absurd hs (hsource data)
    | missing => rfl
    | directory => rfl
  subst hr
  exact Yields.ret rfl

/-- Without a token nothing is changed. -/
lemma otaFetchEnroll_tokenless {e : Env} {w : World} (fuel : ℕ) {cfg : OtaConfig}
    {tokenFile keyPath certPath : CStr} (force : Bool) (hkey : cfg.tlsClientKey = some keyPath)
    (hcert : cfg.tlsClientCert = some certPath)
    (hgone : contentAt e w tokenFile = none) :
    Yields (exec e) w (otaFetchEnroll e.cjson fuel cfg (some tokenFile) force) (fun _ t _ =>
      ∀ s ∈ t, Asking s.call) := by
  unfold otaFetchEnroll
  rw [hkey, hcert]
  dsimp only
  refine Yields.bind _ (Yields.of_obeys (refusesIdentity_asking (Lawful e) force keyPath certPath)
    (exec_lawful e)) ?_
  rintro r₁ t₁ w₁ ⟨-, hask₁⟩ hc₁
  split
  · refine Yields.ret ?_
    rw [List.append_nil]
    exact hask₁
  have hfs := (chain_readOnly hc₁ fun s hs => (hask₁ s hs).readOnly).1
  have hasking := Yields.of_obeys (w := w₁) (requestIdentity_asking (Lawful e) e.cjson cfg
    tokenFile) (exec_lawful e)
  refine Yields.bind _ (hasking.and (requestIdentity_tokenless cfg
    ((contentAt_congr rfl hfs).trans hgone))) ?_
  rintro r₂ t₂ w₂ ⟨⟨-, hask₂⟩, rfl⟩ -
  refine Yields.ret ?_
  rw [List.append_nil]
  exact List.forall_mem_append.mpr ⟨hask₁, hask₂⟩

/-- An enrollment that was started. -/
structure Enrollment where
  env : Env
  fuel : ℕ
  force : Bool
  start : World

/-- What it would do if it were not cut off. -/
def Enrollment.trace (cfg : OtaConfig) (tokenFile : CStr) (x : Enrollment) : Trace :=
  (run (exec x.env) (otaFetchEnroll x.env.cjson x.fuel cfg (some tokenFile) x.force) x.start).trace

/-- Enrollments one after the other, each in an environment of its own and cut off
after any of its steps. The last one stands first. -/
inductive Enrollments (cwd : Path) (cfg : OtaConfig) (tokenFile : CStr) (w : World) :
    List Enrollment → World → Prop where
  | start (v : World) (hfs : v.fs = w.fs) : Enrollments cwd cfg tokenFile w [] v
  | cut (xs : List Enrollment) (x : Enrollment) (v : World) (s : Step Call Resp World)
      (hcwd : x.env.cwd = cwd) (h : Enrollments cwd cfg tokenFile w xs x.start)
      (hs : s ∈ x.trace cfg tokenFile) (hfs : v.fs = s.after.fs) :
      Enrollments cwd cfg tokenFile w (x :: xs) v

lemma Enrollments.cwd {cwd : Path} {cfg : OtaConfig} {tokenFile : CStr} {w v : World}
    {xs : List Enrollment} (h : Enrollments cwd cfg tokenFile w xs v) :
    ∀ x ∈ xs, x.env.cwd = cwd := by
  induction h with
  | start v hfs => simp
  | cut xs x v s hcwd _ hs hfs ih => exact List.forall_mem_cons.mpr ⟨hcwd, ih⟩

/-- One of the enrollments is done. -/
def SomeFinished (cfg : OtaConfig) (keyPath certPath tokenFile : CStr) (xs : List Enrollment)
    (v : World) : Prop :=
  ∃ x ∈ xs, Finished x.env keyPath certPath tokenFile (x.trace cfg tokenFile) v

lemma Finished.congr {e : Env} {keyPath certPath tokenFile : CStr} {t : Trace} {w v : World}
    (h : Finished e keyPath certPath tokenFile t w)
    (hsame : ∀ p, contentAt e v p = contentAt e w p) :
    Finished e keyPath certPath tokenFile t v := by
  obtain ⟨⟨key, cert, hpk, hpc, hk, hc⟩, htoken⟩ := h
  exact ⟨⟨key, cert, hpk, hpc, (hsame _).trans hk, (hsame _).trans hc⟩, (hsame _).trans htoken⟩

/-- The token is there until one of the enrollments is done. -/
theorem enrollments_token {e : Env} {cfg : OtaConfig} {tokenFile keyPath certPath : CStr}
    (hkey : cfg.tlsClientKey = some keyPath) (hcert : cfg.tlsClientCert = some certPath)
    (hapart : PathsApart e.cwd keyPath certPath tokenFile) {w v : World} {xs : List Enrollment}
    (h : Enrollments e.cwd cfg tokenFile w xs v) :
    contentAt e v tokenFile = contentAt e w tokenFile ∨
      SomeFinished cfg keyPath certPath tokenFile xs v := by
  induction h with
  | start v hfs => exact .inl (contentAt_congr rfl hfs)
  | cut xs x v s hcwd hprev hs hfs ih =>
    have hv : ∀ p, contentAt x.env v p = contentAt x.env s.after p :=
      fun p => contentAt_congr rfl hfs
    have hhere : ∀ (u : World) p, contentAt x.env u p = contentAt e u p :=
      fun u p => contentAt_congr hcwd rfl
    rcases ih with hkept | ⟨x', hx', hdone⟩
    · have hcut := otaFetchEnroll_cut x.env x.start x.fuel cfg tokenFile keyPath certPath x.force
        hkey hcert (hcwd ▸ hapart) s hs
      rcases hcut with hsame | hfin
      · left
        rw [← hhere, hv, hsame, hhere, hkept]
      · exact .inr ⟨x, List.mem_cons_self, hfin.congr hv⟩
    · -- the token is gone, so that nothing is changed any more
      have hcwd' := hprev.cwd x' hx'
      have hgone : contentAt x.env x.start tokenFile = none := by
        rw [hhere, ← hdone.token]
        exact contentAt_congr hcwd'.symm rfl
      have hask := otaFetchEnroll_tokenless x.fuel x.force hkey hcert hgone
      have hstill := ((chain_readOnly (run_chain _ _ x.start)
        fun s hs => (hask s hs).readOnly).2 s hs).2
      refine .inr ⟨x', List.mem_cons_of_mem _ hx', hdone.congr fun p => ?_⟩
      exact contentAt_congr rfl (hfs.trans hstill)

/-- The headers of a request, when the list could be built. -/
def enrollHeaders (token : CStr) : List CStr :=
  [text "Content-Type: application/json", text "Accept: application/json",
    text "Authorization: Bearer " ++ token]

/-- The response is a certificate that can be written in `fuel` calls. -/
def Certifies (cjson : CJson) (fuel : ℕ) (tr : Transfer) : Prop :=
  tr.result = curleOk ∧ 200 ≤ tr.status ∧ tr.status < 300 ∧ tr.chunks.flatten ≠ [] ∧
    ∃ cert, parseEnrollResponse cjson (cstring tr.chunks.flatten) = some cert ∧
      cert.length ≤ fuel

/-- No call fails, the token can be read, and the server certifies any key for it. -/
structure Issues (e : Env) (cfg : OtaConfig) (tok : Bytes) (token : CStr) (fuel : ℕ) : Prop where
  fault : ∀ n c, e.fault n c = none
  readable : ∀ n, readTokenFile (e.token n) (.file tok) = some token
  endpoint : ∃ url, nonEmpty cfg.enrollUrl = some url ∨ deriveEnrollUrl cfg.serverUrl = some url
  key : ∀ n, ∃ key csr, generateKeyAndCsr (e.key n) cfg.deviceId = some (key, csr) ∧
    key.length ≤ fuel
  request : ∀ n csr, ∃ json, buildEnrollRequestJson (e.request n) csr cfg.deviceId = some json
  server : ∀ n url json, Endpoint cfg url →
    Certifies e.cjson fuel (e.server n (enrollRequest url cfg (enrollHeaders token) json))

lemma malloc_granted {e : Env} (hfault : ∀ n c, e.fault n c = none) {w v : World} {r : Bool}
    (hx : exec e w .malloc = (r, v)) : r = true := by
  simp only [exec, hfault] at hx
  exact (congrArg Prod.fst hx).symm

lemma receive_granted {e : Env} (hfault : ∀ n c, e.fault n c = none) (w : World)
    (chunks : List Bytes) (mem : Bytes) :
    Yields (exec e) w (receive chunks mem) (fun r _ _ => r = (true, mem ++ chunks.flatten)) := by
  induction chunks generalizing mem w with
  | nil => exact Yields.ret (by simp)
  | cons chunk rest ih =>
    have hgrow : Yields (exec e) w (writeCallback chunk mem) (fun r _ _ =>
        r = (chunk.length, mem ++ chunk)) := by
      refine Yields.call ?_
      intro r v hx
      obtain rfl := malloc_granted hfault hx
      exact Yields.ret rfl
    refine Yields.bind _ hgrow ?_
    rintro _ t v rfl -
    rw [List.flatten_cons, ← List.append_assoc]
    dsimp only
    rw [if_pos rfl]
    exact ih v (mem ++ chunk)

lemma slistAppend_granted {e : Env} (hfault : ∀ n c, e.fault n c = none) (w : World)
    (headers : List CStr) (s : CStr) :
    Yields (exec e) w (slistAppend headers s) (fun r _ _ => r = headers ++ [s]) := by
  refine Yields.call ?_
  intro r v hx
  obtain rfl := malloc_granted hfault hx
  exact Yields.ret rfl

lemma postEnrollRequest_granted {e : Env} {cfg : OtaConfig} {tok : Bytes} {token : CStr}
    {fuel : ℕ} (h : Issues e cfg tok token fuel) (w : World) {url : CStr} (json : CStr)
    (hurl : Endpoint cfg url) :
    Yields (exec e) w (postEnrollRequest url cfg token json) (fun r _ _ => ∃ response cert,
      r = some response ∧ parseEnrollResponse e.cjson response = some cert ∧
        cert.length ≤ fuel) := by
  unfold postEnrollRequest
  refine Yields.call ?_
  intro r₁ w₁ hx₁
  obtain rfl := malloc_granted h.fault hx₁
  refine Yields.call ?_
  intro r₂ w₂ hx₂
  have hr₂ : r₂ = true := by
    simp only [exec, h.fault] at hx₂
    exact (congrArg Prod.fst hx₂).symm
  subst hr₂
  refine Yields.bind _ (slistAppend_granted h.fault w₂ _ _) ?_
  rintro _ t₃ w₃ rfl -
  refine Yields.bind _ (slistAppend_granted h.fault w₃ _ _) ?_
  rintro _ t₄ w₄ rfl -
  refine Yields.bind _ (slistAppend_granted h.fault w₄ _ _) ?_
  rintro _ t₅ w₅ rfl -
  refine Yields.call ?_
  intro tr w₆ hx₆
  have htr : tr = e.server w₅.clock (enrollRequest url cfg (enrollHeaders token) json) :=
    congrArg Prod.fst hx₆.symm
  obtain ⟨hresult, hlow, hhigh, hbody, cert, hparse, hlen⟩ := h.server w₅.clock url json hurl
  rw [← htr] at hresult hlow hhigh hbody hparse
  refine Yields.bind _ (receive_granted h.fault w₆ tr.chunks []) ?_
  rintro _ t₇ w₇ rfl -
  dsimp only
  rw [if_pos rfl, if_neg (not_not.mpr hresult), if_neg (by omega), List.nil_append, if_neg hbody]
  exact Yields.ret ⟨_, cert, rfl, hparse, hlen⟩

lemma enrollEndpoint_granted {e : Env} {cfg : OtaConfig} {tok : Bytes} {token : CStr}
    {fuel : ℕ} (h : Issues e cfg tok token fuel) (w : World) :
    Yields (exec e) w (enrollEndpoint cfg) (fun r _ _ => ∃ url, r = some url ∧
      Endpoint cfg url) := by
  have hobeys : Yields (exec e) w (enrollEndpoint cfg) (fun r _ _ =>
      ∀ url, r = some url → Endpoint cfg url) :=
    (Yields.of_obeys (enrollEndpoint_obeys (E := Lawful e) e cfg) (exec_lawful e)).mono
      fun _ _ _ h => h.1
  have hsome : Yields (exec e) w (enrollEndpoint cfg) (fun r _ _ => ∃ url, r = some url) := by
    unfold enrollEndpoint
    obtain ⟨url, hurl⟩ := h.endpoint
    split
    · exact Yields.ret ⟨_, rfl⟩
    · rename_i hnone
      rw [hnone] at hurl
      rw [hurl.resolve_left (by simp)]
      refine Yields.call ?_
      intro r v hx
      obtain rfl := malloc_granted h.fault hx
      exact Yields.ret ⟨url, rfl⟩
  refine (hobeys.and hsome).mono ?_
  rintro r t v ⟨hall, url, hr⟩
  exact ⟨url, hr, hall url hr⟩

lemma requestIdentity_granted {e : Env} {cfg : OtaConfig} {tok : Bytes} {token : CStr}
    {fuel : ℕ} (h : Issues e cfg tok token fuel) {w : World} {tokenFile : CStr}
    (htoken : sourceAt w.fs e.cwd tokenFile = .file tok) :
    Yields (exec e) w (requestIdentity e.cjson cfg tokenFile) (fun r _ _ => ∃ key cert,
      r = some (key, cert) ∧ key.length ≤ fuel ∧ cert.length ≤ fuel) := by
  unfold requestIdentity
  refine Yields.call ?_
  intro r₁ w₁ hx₁
  have hr₁ : r₁ = some token := by
    rw [← h.readable w.clock, ← htoken]
    exact congrArg Prod.fst hx₁.symm
  subst hr₁
  refine Yields.bind _ (enrollEndpoint_granted h w₁) ?_
  rintro _ t₂ w₂ ⟨url, rfl, hurl⟩ -
  refine Yields.call ?_
  intro r₃ w₃ hx₃
  obtain ⟨key, csr, hkey, hkeyLen⟩ := h.key w₂.clock
  have hr₃ : r₃ = some (key, csr) := by
    rw [← hkey]
    exact congrArg Prod.fst hx₃.symm
  subst hr₃
  refine Yields.call ?_
  intro r₄ w₄ hx₄
  obtain ⟨json, hjson⟩ := h.request w₃.clock csr
  have hr₄ : r₄ = some json := by
    rw [← hjson]
    exact congrArg Prod.fst hx₄.symm
  subst hr₄
  refine Yields.bind _ (postEnrollRequest_granted h w₄ json hurl) ?_
  rintro _ t₅ w₅ ⟨response, cert, rfl, hparse, hcertLen⟩ -
  dsimp only
  rw [hparse]
  refine Yields.call ?_
  intro r₆ w₆ hx₆
  obtain rfl := malloc_granted h.fault hx₆
  exact Yields.ret ⟨key, cert, rfl, hkeyLen, hcertLen⟩

lemma ensureParentDir_granted {e : Env} (hfault : ∀ n c, e.fault n c = none) {w : World}
    {path : CStr} (mode : ℕ) (hcwd : w.fs.node e.cwd = some .dir) (hne : path ≠ [])
    (hlen : path.length < pathMax) (hclear : Clear w.fs e.cwd path) :
    Yields (exec e) w (ensureParentDir path mode) (fun rc _ v => rc = 0 ∧
      v.fs.node e.cwd = some .dir ∧ Dirs v.fs e.cwd path) := by
  unfold ensureParentDir
  rw [if_neg (not_or.mpr ⟨hne, not_le.mpr hlen⟩)]
  cases hcut : cutLast path with
  | none =>
    refine Yields.ret ⟨rfl, hcwd, ?_⟩
    rintro u - ⟨r, rfl⟩
    exact absurd (by simp) (cutLast_none hcut)
  | some dir =>
    obtain ⟨c, hc, rfl⟩ := cutLast_some hcut
    have hparts : ∀ {u}, Above u (dir ++ slash :: c) → Cut u dir := fun h => above_join hc h
    dsimp only
    split_ifs with hdir
    · refine Yields.ret ⟨rfl, hcwd, ?_⟩
      intro u hu habove
      rcases hparts habove with rfl | ⟨r, hr⟩
      · exact absurd hdir hu
      · rw [hdir] at hr
        simp at hr
    · have hshort : dir.length < pathMax := by
        rw [List.length_append] at hlen
        omega
      refine (mkdirP_dirs (fun n _ _ => hfault n _) mode hcwd hdir hshort
        fun u hu hcut => hclear u hu (hcut.above ⟨c, rfl⟩)).mono ?_
      rintro rc t v ⟨hrc, hhere, hdirs⟩
      exact ⟨hrc, hhere, fun u hu habove => hdirs u hu (hparts habove)⟩

/-- The loop ends when it may make a call for every byte. -/
lemma writeAll_granted {e : Env} (hfault : ∀ n c, e.fault n c = none) {path : CStr} (fuel : ℕ)
    {w : World} (data : Bytes) (hlen : data.length ≤ fuel) (h : Opened e path w) :
    Yields (exec e) w (writeAll fuel (place e.cwd (tmpOf path)) data) (fun r _ v =>
      r = some 0 ∧ Opened e path v) := by
  induction fuel generalizing w data with
  | zero =>
    obtain rfl := List.length_eq_zero_iff.mp (Nat.le_zero.mp hlen)
    exact Yields.ret ⟨rfl, h⟩
  | succ fuel ih =>
    cases data with
    | nil => exact Yields.ret ⟨rfl, h⟩
    | cons b rest =>
      unfold writeAll
      refine Yields.call ?_
      intro r v hx
      simp only [exec, hfault] at hx
      obtain ⟨hr, hv⟩ := Prod.mk.inj hx
      subst hr
      have hfs := congrArg World.fs hv.symm
      refine ih _ ?_ (h.modify hfs)
      rw [List.length_drop]
      rw [List.length_cons] at hlen ⊢
      omega

lemma fsyncParentDir_granted {e : Env} (hfault : ∀ n c, e.fault n c = none) {w : World}
    {path : CStr} (hcwd : w.fs.node e.cwd = some .dir) (hne : path ≠ [])
    (hlen : path.length < pathMax) (hdirs : Dirs w.fs e.cwd path) :
    Yields (exec e) w (fsyncParentDir path) (fun rc _ _ => rc = 0) := by
  unfold fsyncParentDir
  rw [if_neg (not_or.mpr ⟨hne, not_le.mpr hlen⟩)]
  cases hcut : cutLast path with
  | none => exact Yields.ret rfl
  | some dir =>
    obtain ⟨c, hc, rfl⟩ := cutLast_some hcut
    dsimp only
    split_ifs with hdir
    · exact Yields.ret rfl
    have habove : Above dir (dir ++ slash :: c) := ⟨c, rfl⟩
    have hshort : dir.length < pathMax := by
      rw [List.length_append] at hlen
      omega
    have hlocate : locate w.fs e.cwd dir = .ok (place e.cwd dir) :=
      locate_of_parts hdir hshort hcwd fun u hu hup => hdirs u hu (Cut.above (.inr hup) habove)
    have hisDir : w.fs.isDir (place e.cwd dir) = true :=
      (Tree.isDir_iff _ _).mpr (hdirs dir hdir habove)
    refine Yields.call ?_
    intro r₁ w₁ hx₁
    simp only [exec, refuse, hfault, hlocate, hisDir] at hx₁
    obtain ⟨hr₁, -⟩ := Prod.mk.inj hx₁
    subst hr₁
    refine Yields.call ?_
    intro r₂ w₂ hx₂
    simp only [exec, refuse, hfault] at hx₂
    obtain ⟨hr₂, -⟩ := Prod.mk.inj hx₂
    refine Yields.call ?_
    intro r₃ w₃ _
    refine Yields.ret ?_
    rw [if_pos hr₂.symm]

/-- Where nothing fails and nothing is in the way, the file is replaced. -/
theorem writeFileAtomic_granted {e : Env} (hfault : ∀ n c, e.fault n c = none) {w : World}
    {path : CStr} {paths : List CStr} {fuel : ℕ} {data : Bytes} (mode : ℕ)
    (hready : ReadyFor e.cwd paths w.fs) (hpath : path ∈ paths) (htmp : tmpOf path ∈ paths)
    (hspares : ∀ c, Replacing e path c → Spares e paths c) (hne : path ≠ [])
    (hlen : (tmpOf path).length < pathMax) (hdata : data.length ≤ fuel) :
    Yields (exec e) w (writeFileAtomic fuel path data mode) (fun r _ v =>
      r = some 0 ∧ ReadyFor e.cwd paths v.fs) := by
  have hshort : path.length < pathMax := by
    rw [tmpOf, List.length_append] at hlen
    omega
  have hkept : Yields (exec e) w (writeFileAtomic fuel path data mode) (fun _ _ v =>
      ReadyFor e.cwd paths v.fs) := by
    have hcalls := Yields.of_obeys (w := w) (writeFileAtomic_replacing e fuel path data mode)
      (exec_lawful e)
    exact (ready_chain (run_chain _ _ _) (fun s hs => hspares _ (hcalls.2 s hs)) hready).1
  have hmade : Yields (exec e) w (ensureParentDir path 448) (fun _ _ v =>
      ReadyFor e.cwd paths v.fs) := by
    have hcalls := Yields.of_obeys (w := w) (ensureParentDir_above (Lawful e) path 448)
      (exec_lawful e)
    refine (ready_chain (run_chain _ _ _) (fun s hs => ?_) hready).1
    obtain ⟨u, m, hcall, hu⟩ := hcalls.2 s hs
    exact hspares _ (hcall ▸ replacing_mkdir hu.1 hu.2)
  refine Yields.and ?_ hkept
  unfold writeFileAtomic
  refine Yields.bind _ ((ensureParentDir_granted hfault 448 hready.here hne hshort
    (hready.free path hpath).clear).and hmade) ?_
  rintro rc t₁ w₁ ⟨⟨rfl, hcwd, hdirs⟩, hready₁⟩ -
  rw [if_neg (by simp)]
  refine Yields.call ?_
  intro r₂ w₂ hx₂
  obtain rfl := malloc_granted hfault hx₂
  have hfs₂ : w₂.fs = w₁.fs := congrArg (fun a => a.2.fs) hx₂.symm
  rw [← hfs₂] at hcwd hdirs hready₁
  refine Yields.call ?_
  intro r₃ w₃ hx₃
  have hlocate := locate_of_parts (tmpOf_ne_nil path) hlen hcwd hdirs.tmpOf
  have hopen : r₃ = .ok (place e.cwd (tmpOf path)) :=
    openAs_succeeds (hfault _ _) hx₃ hlocate (hready₁.free _ htmp).vacant
  subst hopen
  have h₃ : Opened e path w₃ := Opened.of_openAs hx₃ hcwd hdirs (hready₁.free _ hpath).vacant
  unfold writeOpened
  refine Yields.bind _ (writeAll_granted hfault fuel data hdata h₃) ?_
  rintro _ t₄ w₄ ⟨rfl, h₄⟩ -
  dsimp only
  rw [if_neg (by simp)]
  refine Yields.call ?_
  intro r₅ w₅ hx₅
  simp only [exec, commit, hfault] at hx₅
  obtain ⟨hr₅, hw₅⟩ := Prod.mk.inj hx₅
  subst hr₅
  have h₅ := h₄.modify (congrArg World.fs hw₅.symm)
  refine Yields.call ?_
  intro r₆ w₆ hx₆
  simp only [exec, refuse, hfault] at hx₆
  obtain ⟨hr₆, hw₆⟩ := Prod.mk.inj hx₆
  subst hr₆
  have hfs₆ : w₆.fs = w₅.fs := by rw [← hw₆]; rfl
  refine Yields.call ?_
  intro r₇ w₇ hx₇
  simp only [exec, refuse, hfault] at hx₇
  obtain ⟨hr₇, hw₇⟩ := Prod.mk.inj hx₇
  subst hr₇
  have hfs₇ : w₇.fs = w₆.fs := by rw [← hw₇]; rfl
  have h₇ := h₅.of_fs (hfs₇.trans hfs₆)
  refine Yields.call ?_
  intro r₈ w₈ hx₈
  obtain ⟨f, hf⟩ := h₇.tmp
  have hmoved : r₈ = .ok () := rename_succeeds hfault hx₈
    (locate_of_parts (tmpOf_ne_nil path) hlen h₇.here h₇.dirs.tmpOf) hf
    (locate_of_parts hne hshort h₇.here h₇.dirs) h₇.vacant
  subst hmoved
  have hstays : ∀ {q : Path}, w₇.fs.node q = some .dir → w₈.fs.node q = some .dir := by
    intro q hq
    have hdir := exec_dir (e := e) (c := .rename (tmpOf path) path) hq
    rwa [hx₈] at hdir
  refine Yields.bind _ (fsyncParentDir_granted hfault (hstays h₇.here) hne hshort
    (fun u hu habove => hstays (h₇.dirs u hu habove))) ?_
  rintro _ t₉ w₉ rfl -
  rw [if_neg (by simp)]
  exact Yields.ret rfl

/-- The two files and their temporary names. -/
def identityPaths (keyPath certPath : CStr) : List CStr :=
  [keyPath, tmpOf keyPath, certPath, tmpOf certPath]

/-- The paths of an identity: different files, none of which lies above another. -/
structure Site (cwd : Path) (cfg : OtaConfig) (keyPath certPath tokenFile : CStr) : Prop where
  key : cfg.tlsClientKey = some keyPath
  cert : cfg.tlsClientCert = some certPath
  apart : PathsApart cwd keyPath certPath tokenFile
  above : ∀ u, u ≠ [] → Above u keyPath ∨ Above u certPath →
    ∀ p ∈ storedPaths keyPath certPath tokenFile, place cwd u ≠ place cwd p
  keyNamed : keyPath ≠ []
  certNamed : certPath ≠ []
  keyShort : (tmpOf keyPath).length < pathMax
  certShort : (tmpOf certPath).length < pathMax

lemma identityPaths_above {keyPath certPath p u : CStr} (hp : p ∈ identityPaths keyPath certPath)
    (h : Above u p) : Above u keyPath ∨ Above u certPath := by
  simp only [identityPaths, List.mem_cons, List.not_mem_nil, or_false] at hp
  rcases hp with rfl | rfl | rfl | rfl
  · exact .inl h
  · exact .inl (above_tmpOf h)
  · exact .inr h
  · exact .inr (above_tmpOf h)

lemma identityPaths_stored {keyPath certPath p : CStr} (tokenFile : CStr)
    (hp : p ∈ identityPaths keyPath certPath) : p ∈ storedPaths keyPath certPath tokenFile := by
  simp only [identityPaths, storedPaths, List.mem_cons, List.not_mem_nil, or_false] at hp ⊢
  tauto

/-- No call of an enrollment puts anything in the way of the next one. -/
lemma Site.spares {e : Env} {cfg : OtaConfig} {keyPath certPath tokenFile : CStr}
    (h : Site e.cwd cfg keyPath certPath tokenFile) {c : Call}
    (hc : Enrolling e keyPath certPath tokenFile c) :
    Spares e (identityPaths keyPath certPath) c := by
  constructor
  · intro u m hmkdir p hp
    obtain ⟨hu, habove⟩ := hc.dirs u m hmkdir
    exact h.above u hu habove p (identityPaths_stored tokenFile hp)
  · intro q hw p hp u hu habove hq
    obtain ⟨p', hp', rfl⟩ := hc.files q hw
    exact h.above u hu (identityPaths_above hp habove) p' hp' hq.symm

theorem enrollments_ready {e : Env} {cfg : OtaConfig} {keyPath certPath tokenFile : CStr}
    (hsite : Site e.cwd cfg keyPath certPath tokenFile) {w v : World} {xs : List Enrollment}
    (hw : ReadyFor e.cwd (identityPaths keyPath certPath) w.fs)
    (h : Enrollments e.cwd cfg tokenFile w xs v) :
    ReadyFor e.cwd (identityPaths keyPath certPath) v.fs := by
  induction h with
  | start v hfs =>
    rw [hfs]
    exact hw
  | cut xs x v s hcwd _ hs hfs ih =>
    rw [← hcwd] at ih hsite ⊢
    have hcalls := Yields.of_obeys (w := x.start) (otaFetchEnroll_enrolling x.env x.env.cjson
      x.fuel tokenFile x.force hsite.key hsite.cert) (exec_lawful x.env)
    rw [hfs]
    exact (ready_chain (run_chain _ _ x.start) (fun s hs => hsite.spares (hcalls.2 s hs)) ih).2 s hs

lemma enrollments_locate {cwd : Path} {cfg : OtaConfig} {tokenFile p : CStr} {q : Path}
    {w v : World} {xs : List Enrollment} (hl : locate w.fs cwd p = .ok q)
    (h : Enrollments cwd cfg tokenFile w xs v) : locate v.fs cwd p = .ok q := by
  induction h with
  | start v hfs =>
    rw [hfs]
    exact hl
  | cut xs x v s hcwd _ hs hfs ih =>
    obtain ⟨pre, post, ht⟩ := List.append_of_mem hs
    have hc := run_chain (exec x.env) (otaFetchEnroll x.env.cjson x.fuel cfg (some tokenFile)
      x.force) x.start
    rw [show (run (exec x.env) (otaFetchEnroll x.env.cjson x.fuel cfg (some tokenFile) x.force)
      x.start).trace = pre ++ s :: post from ht] at hc
    obtain ⟨hpre, hans, -⟩ := hc.split
    rw [← hcwd] at ih ⊢
    rw [hfs]
    have hbefore := chain_locate hpre ih
    exact chain_locate (t := [s]) ⟨rfl, hans, rfl⟩ hbefore

lemma fileExists_granted {e : Env} (hfault : ∀ n c, e.fault n c = none) (w : World) (p : CStr) :
    Yields (exec e) w (fileExists p) (fun b _ v =>
      (b = false ↔ sourceAt w.fs e.cwd p = .missing) ∧ v.fs = w.fs) := by
  refine Yields.call ?_
  intro r v hx
  have hanswer := stat_answers hfault hx
  have hfs : v.fs = w.fs := (congrArg (fun a => a.2.fs) hx.symm).trans (exec_stat_fs e w p)
  cases r with
  | ok _ => exact Yields.ret ⟨iff_of_false (by decide) (hanswer.mp rfl), hfs⟩
  | error _ =>
    refine Yields.ret ⟨iff_of_true rfl ?_, hfs⟩
    by_contra hthere
    exact absurd (hanswer.mpr hthere) (by simp [Except.isOk, Except.toBool])

/-- Without failures, `ota_fetch_enroll` refuses exactly when it is not forced and
one of the two files is there. -/
lemma refusesIdentity_granted {e : Env} (hfault : ∀ n c, e.fault n c = none) (w : World)
    (force : Bool) (keyPath certPath : CStr) :
    Yields (exec e) w (refusesIdentity force keyPath certPath) (fun b _ _ =>
      b = false ↔ force = true ∨ sourceAt w.fs e.cwd keyPath = .missing ∧
        sourceAt w.fs e.cwd certPath = .missing) := by
  cases force with
  | true => exact Yields.ret (by simp)
  | false =>
    refine Yields.bind _ (fileExists_granted hfault w keyPath) ?_
    rintro b t v ⟨hb, hfs⟩ -
    cases b with
    | true =>
      refine Yields.ret (iff_of_false (by decide) ?_)
      rintro (h | ⟨h, -⟩)
      · exact absurd h (by decide)
      · exact absurd (hb.mpr h) (by decide)
    | false =>
      refine (fileExists_granted hfault v certPath).mono ?_
      rintro c t' v' ⟨hc, -⟩
      rw [hfs] at hc
      rw [hc]
      simp [hb.mp rfl]

/-- An enrollment that returns 0 is done. -/
lemma finished_of_zero {e : Env} {w : World} (fuel : ℕ) {cfg : OtaConfig}
    {tokenFile keyPath certPath : CStr} (force : Bool) {q : Path}
    (hsite : Site e.cwd cfg keyPath certPath tokenFile) (hfault : ∀ n c, e.fault n c = none)
    (hl : locate w.fs e.cwd tokenFile = .ok q) :
    Yields (exec e) w (otaFetchEnroll e.cjson fuel cfg (some tokenFile) force) (fun r t v =>
      r = some 0 → Finished e keyPath certPath tokenFile t v) := by
  refine (otaFetchEnroll_phases e w fuel cfg tokenFile keyPath certPath force hsite.key
    hsite.cert).mono ?_
  intro r t v h hzero
  cases h with
  | early _ _ hr => exact absurd hzero hr
  | atKey _ _ _ _ _ _ _ hr => exact absurd hzero hr
  | atCert _ _ _ _ _ _ _ _ _ hr => exact absurd hzero hr
  | atToken t u x v₁ v₂ v₃ _ key cert reply hr hready hkey hcert htoken =>
    have hstored := (hready.writeKey tokenFile hsite.apart hkey).resolve_left fun h => h.1 rfl
    have hboth := (hstored.writeCert hsite.apart hcert.written.writeEnd hcert.chain).resolve_left
      fun h => h.1 rfl
    have hlast := hboth.unlinkToken hsite.apart htoken
    rw [List.append_assoc, List.append_assoc] at hlast
    have hl₃ := chain_locate hcert.chain (chain_locate hkey.chain (chain_locate hready.chain hl))
    have hgone := exec_unlink_gone (hfault _ _) hl₃
    rw [htoken] at hgone
    refine ⟨⟨key, cert, hlast.producedKey, hlast.producedCert, hlast.key, hlast.cert⟩, ?_⟩
    rw [contentAt, hgone, Option.map_none]

/-- The environment grants an enrollment from a state that earlier ones have left. -/
structure Restarted (e : Env) (cfg : OtaConfig) (keyPath certPath tokenFile : CStr) (tok : Bytes)
    (token : CStr) (fuel : ℕ) (w : World) : Prop where
  site : Site e.cwd cfg keyPath certPath tokenFile
  issues : Issues e cfg tok token fuel
  ready : ReadyFor e.cwd (identityPaths keyPath certPath) w.fs
  there : sourceAt w.fs e.cwd tokenFile = .file tok

/-- Both files are stored, and the token is still there. -/
lemma storeIdentity_granted {e : Env} {cfg : OtaConfig} {keyPath certPath tokenFile : CStr}
    {tok : Bytes} {token key cert : CStr} {fuel : ℕ} {w : World}
    (h : Restarted e cfg keyPath certPath tokenFile tok token fuel w)
    (hkeyLen : key.length ≤ fuel) (hcertLen : cert.length ≤ fuel) :
    Yields (exec e) w (writeFileAtomic fuel keyPath key 384) (fun r _ v => r = some 0 ∧
      Yields (exec e) v (writeFileAtomic fuel certPath cert 420) (fun r _ u => r = some 0 ∧
        u.fs.fileAt (place e.cwd tokenFile) = w.fs.fileAt (place e.cwd tokenFile))) := by
  have hplaces := h.site.apart
  simp only [PathsApart, List.nodup_cons, List.mem_cons, List.not_mem_nil, or_false, not_or]
    at hplaces
  obtain ⟨⟨-, hkt, -⟩, ⟨hct, -⟩, ⟨htk, htc, -⟩, -⟩ := hplaces
  have hkept : ∀ (u : World) {path : CStr} (data : Bytes) (mode : ℕ),
      place e.cwd tokenFile ≠ place e.cwd path → place e.cwd tokenFile ≠ place e.cwd (tmpOf path) →
      Yields (exec e) u (writeFileAtomic fuel path data mode) (fun _ _ v =>
        v.fs.fileAt (place e.cwd tokenFile) = u.fs.fileAt (place e.cwd tokenFile)) := by
    intro u path data mode hpath htmp
    have hcalls := Yields.of_obeys (w := u) (writeFileAtomic_replacing e fuel path data mode)
      (exec_lawful e)
    refine (chain_fileAt (run_chain _ _ u) (fun s hs hw => ?_)).1
    rcases (hcalls.2 s hs).files _ hw with hq | hq
    · exact hpath hq
    · exact htmp hq
  have hfirst := writeFileAtomic_granted h.issues.fault 384 h.ready (by simp [identityPaths])
    (by simp [identityPaths]) (fun c hc => h.site.spares hc.ofKey) h.site.keyNamed
    h.site.keyShort hkeyLen
  refine (hfirst.and (hkept w key 384 (Ne.symm hkt) htk)).mono ?_
  rintro r t v ⟨⟨hr, hready⟩, hsame⟩
  have hsecond := writeFileAtomic_granted h.issues.fault 420 hready (by simp [identityPaths])
    (by simp [identityPaths]) (fun c hc => h.site.spares hc.ofCert) h.site.certNamed
    h.site.certShort hcertLen
  refine ⟨hr, (hsecond.and (hkept v cert 420 (Ne.symm hct) htc)).mono ?_⟩
  rintro r' t' u ⟨⟨hr', -⟩, hsame'⟩
  exact ⟨hr', hsame'.trans hsame⟩

theorem otaFetchEnroll_granted {e : Env} {cfg : OtaConfig} {keyPath certPath tokenFile : CStr}
    {tok : Bytes} {token : CStr} {fuel : ℕ} {w : World} (force : Bool)
    (h : Restarted e cfg keyPath certPath tokenFile tok token fuel w) :
    Yields (exec e) w (otaFetchEnroll e.cjson fuel cfg (some tokenFile) force) (fun r _ v =>
      if force = true ∨ sourceAt w.fs e.cwd keyPath = .missing ∧
        sourceAt w.fs e.cwd certPath = .missing then r = some 0
      else r = some (-1) ∧ v.fs = w.fs) := by
  have hlocate := locate_of_source h.there
  have htoken := contentAt_of_source h.there
  obtain ⟨f, hf, -⟩ := Option.map_eq_some_iff.mp htoken
  unfold otaFetchEnroll
  rw [h.site.key, h.site.cert]
  dsimp only
  have hasking := Yields.of_obeys (w := w) (refusesIdentity_asking (Lawful e) force keyPath
    certPath) (exec_lawful e)
  refine Yields.bind _ ((refusesIdentity_granted h.issues.fault w force keyPath certPath).and
    hasking) ?_
  rintro b t₁ w₁ ⟨hb, -, hask₁⟩ hc₁
  have hfs₁ := (chain_readOnly hc₁ fun s hs => (hask₁ s hs).readOnly).1
  cases b with
  | true =>
    refine Yields.ret ?_
    rw [if_neg (mt hb.mpr (by decide))]
    exact ⟨rfl, hfs₁⟩
  | false =>
    refine Yields.mono (Q := fun r _ _ => r = some 0) ?_ (fun r _ _ hr => by
      rw [if_pos (hb.mp rfl)]
      exact hr)
    rw [if_neg (by decide)]
    have h₁ : sourceAt w₁.fs e.cwd tokenFile = .file tok := by
      rw [hfs₁]
      exact h.there
    have hasking₂ := Yields.of_obeys (w := w₁) (requestIdentity_asking (Lawful e) e.cjson cfg
      tokenFile) (exec_lawful e)
    refine Yields.bind _ ((requestIdentity_granted h.issues h₁).and hasking₂) ?_
    rintro _ t₂ w₂ ⟨⟨key, cert, rfl, hkeyLen, hcertLen⟩, -, hask₂⟩ hc₂
    have hfs₂ := (chain_readOnly hc₂ fun s hs => (hask₂ s hs).readOnly).1
    have hrestarted : Restarted e cfg keyPath certPath tokenFile tok token fuel w₂ := by
      obtain ⟨hsite, hissues, hready, hthere⟩ := h
      rw [← hfs₁, ← hfs₂] at hready hthere
      exact ⟨hsite, hissues, hready, hthere⟩
    refine Yields.bind _ (storeIdentity_granted hrestarted hkeyLen hcertLen) ?_
    rintro _ t₃ w₃ ⟨rfl, hsecond⟩ hc₃
    dsimp only
    rw [if_neg (by simp)]
    refine Yields.bind _ hsecond ?_
    rintro _ t₄ w₄ ⟨rfl, hsame⟩ hc₄
    dsimp only
    rw [if_neg (by simp)]
    refine Yields.call ?_
    intro r₅ w₅ hx₅
    rw [hfs₂, hfs₁] at hsame
    have hl₄ := chain_locate hc₄ (chain_locate hc₃ (chain_locate hc₂ (chain_locate hc₁ hlocate)))
    obtain rfl : r₅ = .ok () := unlink_succeeds h.issues.fault hx₅ hl₄ (hsame.trans hf)
    exact Yields.ret rfl

/-- Whatever enrollments were cut off before, wherever they were cut and whatever
failed in them: either one of them is done, or the token is there as at the start
and one that is forced, in an environment without failures, gets done. One that is
not forced gets done exactly when neither file was stored, and changes nothing
otherwise. -/
theorem enrollments_recover (e : Env) (cfg : OtaConfig) (keyPath certPath tokenFile : CStr)
    (tok : Bytes) (token : CStr) (fuel : ℕ) (force : Bool) (w v : World) (xs : List Enrollment)
    (h : Restarted e cfg keyPath certPath tokenFile tok token fuel w)
    (hv : Enrollments e.cwd cfg tokenFile w xs v) :
    let o := run (exec e) (otaFetchEnroll e.cjson fuel cfg (some tokenFile) force) v
    SomeFinished cfg keyPath certPath tokenFile xs v ∨
      sourceAt v.fs e.cwd tokenFile = .file tok ∧
      if force = true ∨ sourceAt v.fs e.cwd keyPath = .missing ∧
        sourceAt v.fs e.cwd certPath = .missing then
        o.value = some 0 ∧ Finished e keyPath certPath tokenFile o.trace o.final
      else o.value = some (-1) ∧ o.final.fs = v.fs := by
  intro o
  rcases enrollments_token h.site.key h.site.cert h.site.apart hv with hkept | hdone
  · right
    have hl := enrollments_locate (locate_of_source h.there) hv
    have hthere : sourceAt v.fs e.cwd tokenFile = .file tok :=
      (sourceAt_eq_file hl).mpr (hkept.trans (contentAt_of_source h.there))
    have hready := enrollments_ready h.site h.ready hv
    have hvalue := otaFetchEnroll_granted force ⟨h.site, h.issues, hready, hthere⟩
    have hzero := finished_of_zero fuel force h.site h.issues.fault hl
    refine ⟨hthere, ?_⟩
    by_cases hgo : force = true ∨ sourceAt v.fs e.cwd keyPath = .missing ∧
        sourceAt v.fs e.cwd certPath = .missing
    · rw [if_pos hgo]
      rw [Yields, if_pos hgo] at hvalue
      exact ⟨hvalue, hzero hvalue⟩
    · rw [if_neg hgo]
      rw [Yields, if_neg hgo] at hvalue
      exact hvalue
  · exact .inl hdone

lemma enroll_above {u : CStr} (h : Above u (text "id/key") ∨ Above u (text "id/crt")) :
    u = text "id" := by
  have hdir : ∀ {n : CStr}, slash ∉ n → Above u (text "id" ++ slash :: n) → u = text "id" := by
    intro n hn habove
    rcases above_join hn habove with hcut | ⟨r, hr⟩
    · exact hcut
    · exact absurd (show slash ∈ text "id" by rw [hr]; simp) (by decide)
  rcases h with h | h
  · exact hdir (n := text "key") (by decide) h
  · exact hdir (n := text "crt") (by decide) h

lemma enroll_site : Site [] enrollConfig (text "id/key") (text "id/crt") (text "tok") where
  key := rfl
  cert := rfl
  apart := enrollPaths_apart
  above := by
    intro u _ habove
    rw [enroll_above habove]
    decide
  keyNamed := by decide
  certNamed := by decide
  keyShort := by decide
  certShort := by decide

lemma enroll_issues : Issues enrollEnv enrollConfig (text "t") (text "t") 100 where
  fault _ _ := rfl
  readable _ := show readTokenFile (enrollEnv.token 0) (.file (text "t")) = some (text "t") by
    decide
  endpoint := ⟨text "u/enroll", .inr (by decide)⟩
  key _ := ⟨text "key", text "csr", show generateKeyAndCsr (enrollEnv.key 0)
    enrollConfig.deviceId = some (text "key", text "csr") by decide, by decide⟩
  request _ csr := ⟨_, rfl⟩
  server _ _ _ _ := by
    have hissued : Certifies enrollEnv.cjson 100 ⟨[(Json.obj issued).print], 0, 200⟩ :=
      ⟨rfl, by decide, by decide, by decide, text "crt", by decide, by decide⟩
    exact hissued

lemma enroll_restarted : Restarted enrollEnv enrollConfig (text "id/key") (text "id/crt")
    (text "tok") (text "t") (text "t") 100 (.at enrollTree) where
  site := enroll_site
  issues := enroll_issues
  ready := by
    refine ⟨by decide +kernel, ?_⟩
    intro p hp
    constructor
    · intro u _ habove
      rw [enroll_above (identityPaths_above hp habove)]
      decide +kernel
    · have hvacant : ∀ p ∈ identityPaths (text "id/key") (text "id/crt"),
          enrollTree.node (place [] p) ≠ some .dir := by decide +kernel
      exact hvacant p hp
  there := by decide +kernel

/-- The new key was stored and the certificate was not. Another enrollment is
refused, and one that is forced gets done. -/
theorem enrollments_recover_forced :
    ∃ s ∈ (run (exec fullEnv) (otaFetchEnroll fullEnv.cjson 100 enrollConfig (some (text "tok"))
        false) (.at enrollTree)).trace,
      sourceAt s.after.fs [] (text "id/key") = .file (text "key") ∧
      sourceAt s.after.fs [] (text "id/crt") = .missing ∧
      sourceAt s.after.fs [] (text "tok") = .file (text "t") ∧
      (run (exec enrollEnv) (otaFetchEnroll enrollEnv.cjson 100 enrollConfig (some (text "tok"))
        false) s.after).value = some (-1) ∧
      (run (exec enrollEnv) (otaFetchEnroll enrollEnv.cjson 100 enrollConfig (some (text "tok"))
        true) s.after).value = some 0 ∧
      Finished enrollEnv (text "id/key") (text "id/crt") (text "tok")
        (run (exec enrollEnv) (otaFetchEnroll enrollEnv.cjson 100 enrollConfig (some (text "tok"))
          true) s.after).trace
        (run (exec enrollEnv) (otaFetchEnroll enrollEnv.cjson 100 enrollConfig (some (text "tok"))
          true) s.after).final := by
  have hstep : ∃ s ∈ (run (exec fullEnv) (otaFetchEnroll fullEnv.cjson 100 enrollConfig
      (some (text "tok")) false) (.at enrollTree)).trace,
      sourceAt s.after.fs [] (text "id/key") = .file (text "key") ∧
      sourceAt s.after.fs [] (text "id/crt") = .missing ∧
      contentAt fullEnv s.after (text "tok") = some (text "t") := by
    decide +kernel
  obtain ⟨s, hs, hkey, hcert, htoken⟩ := hstep
  have hrecover := fun force => (enrollments_recover enrollEnv enrollConfig _ _ _ (text "t")
    (text "t") 100 force (.at enrollTree) s.after _ enroll_restarted
    (.cut [] ⟨fullEnv, 100, false, .at enrollTree⟩ s.after s rfl (.start _ rfl) hs
      rfl)).resolve_left (by
        rintro ⟨x, hx, hfin⟩
        rw [List.mem_singleton.mp hx] at hfin
        have hnone := hfin.token
        rw [htoken] at hnone
        cases hnone)
  obtain ⟨hthere, hrefused⟩ := hrecover false
  obtain ⟨-, hdone⟩ := hrecover true
  rw [if_neg] at hrefused
  · rw [if_pos (Or.inl rfl)] at hdone
    exact ⟨s, hs, hkey, hcert, hthere, hrefused.1, hdone.1, hdone.2⟩
  · rintro (h | ⟨h, -⟩)
    · cases h
    · have hmissing := hkey.symm.trans h
      cases hmissing

end OtaFetch.Reenroll
