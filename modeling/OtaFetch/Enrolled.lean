import OtaFetch.Enroll

/-!
# What a completed enrollment leaves

When `ota_fetch_enroll` returns 0, one request has been made, for the key it
generated, and the two files of the identity hold that key and the certificate
of the response, with their modes. That a file is there or not is read off
`stat` and off the error of `unlink`, so the two clauses that depend on it ask
that the environment does not make these calls lie.
-/
namespace OtaFetch.Enrolled
open CPath FileTree Stdio Interaction Machine Config Releases Identity Fetch AtomicWrite Enroll

lemma nonEmpty_eq_some {s : Option CStr} {a : CStr} :
    nonEmpty s = some a ↔ s = some a ∧ a ≠ [] := by
  simp [nonEmpty, Option.filter_eq_some_iff]

lemma nonEmpty_eq_none {s : Option CStr} : nonEmpty s = none ↔ ∀ a, s = some a → a = [] := by
  simp [nonEmpty, Option.filter_eq_none_iff]

/-- The members of the request object: the CSR, and the device when it has a name. -/
def requestMembers (csr : CStr) (deviceId : Option CStr) : List (CStr × CStr) :=
  (text "csr_pem", csr) :: ((nonEmpty deviceId).map (text "device_id", ·)).toList

lemma buildEnrollRequestJson_some {a : RequestAnswer} {csr json : CStr} {deviceId : Option CStr}
    (h : buildEnrollRequestJson a csr deviceId = some json) :
    a.print (requestMembers csr deviceId) = some json := by
  unfold buildEnrollRequestJson at h
  unfold requestMembers
  cases hd : nonEmpty deviceId with
  | none =>
    rw [hd] at h
    dsimp only at h
    split_ifs at h
    exact h
  | some d =>
    rw [hd] at h
    split_ifs at h
    exact h

/-- The text of the certificate file for a response: the certificate, and a chain
that is a string and not empty on a line of its own. -/
def BundleOf (root : Json) (out : CStr) : Prop :=
  ∃ cert, FirstMember root (text "client_cert_pem") (.str cert) ∧ cert ≠ [] ∧
    ((∃ chain, FirstMember root (text "client_chain_pem") (.str chain) ∧ chain ≠ [] ∧
        out = cert ++ (if cert.getLast? = some newline then [] else [newline]) ++ chain) ∨
      ((∀ chain, FirstMember root (text "client_chain_pem") (.str chain) → chain = []) ∧
        out = cert))

lemma parseEnrollResponse_some {cjson : CJson} {json out : CStr}
    (h : parseEnrollResponse cjson json = some out) :
    ∃ members, cjson.parse json = some (.obj members) ∧ BundleOf (.obj members) out := by
  unfold parseEnrollResponse at h
  split at h
  · rename_i members hparse
    refine ⟨members, hparse, ?_⟩
    dsimp only at h
    split at h
    · cases h
    rename_i cert hcert
    obtain ⟨hcert, hne⟩ := nonEmpty_eq_some.mp hcert
    refine ⟨cert, (dupJsonString_eq_some _ _ _).mp hcert, hne, ?_⟩
    split at h
    · rename_i hchain
      obtain rfl := Option.some.inj h
      refine .inr ⟨?_, rfl⟩
      intro chain hfirst
      exact nonEmpty_eq_none.mp hchain chain ((dupJsonString_eq_some _ _ _).mpr hfirst)
    · rename_i chain hchain
      obtain ⟨hchain, hnc⟩ := nonEmpty_eq_some.mp hchain
      refine .inl ⟨chain, (dupJsonString_eq_some _ _ _).mp hchain, hnc, ?_⟩
      split_ifs at h ⊢ with hnl
      · rw [List.append_nil]
        exact (Option.some.inj h).symm
      · rw [List.append_assoc]
        exact (Option.some.inj h).symm
  · cases h

/-- One request was made in the trace, and it carries the CSR that was generated
together with the key before it. -/
def OneRequest (e : Env) (cfg : OtaConfig) (key : CStr) (tr : Transfer) (t : Trace) : Prop :=
  ∃ pre ask post req csr json, t = pre ++ ask :: post ∧ ask.event = ⟨.perform req, tr⟩ ∧
    (∀ s ∈ pre ++ post, ∀ q, s.call ≠ .perform q) ∧ Endpoint cfg req.url ∧
    (∃ gen ∈ pre, gen.event = ⟨.keyAndCsr cfg.deviceId, some (key, csr)⟩) ∧
    req.postFields = some json ∧
    ∃ n, (e.request n).print (requestMembers csr cfg.deviceId) = some json

/-- The postcondition of an enrollment from `w` to `v`. -/
structure Completed (e : Env) (w : World) (cfg : OtaConfig) (tokenFile keyPath certPath : CStr)
    (force : Bool) (t : Trace) (v : World) : Prop where
  identity : ∃ key cert tr members, OneRequest e cfg key tr t ∧
    e.cjson.parse (cstring tr.chunks.flatten) = some (.obj members) ∧
    BundleOf (.obj members) cert ∧
    v.fs.fileAt (place e.cwd keyPath) = some ⟨key, 384⟩ ∧
    v.fs.fileAt (place e.cwd certPath) = some ⟨cert, 420⟩
  token : (∀ n, e.fault n (.unlink tokenFile) ≠ some .enoent) →
    sourceAt v.fs e.cwd tokenFile = .missing
  fresh : force = false → SureStat e →
    sourceAt w.fs e.cwd keyPath = .missing ∧ sourceAt w.fs e.cwd certPath = .missing

lemma staged_perform {e : Env} {path : CStr} {data : Bytes} {mode : ℕ} {t : Trace}
    (h : Staged e path data mode t) : ∀ s ∈ t, ∀ q, s.call ≠ .perform q := by
  cases h with
  | mk head body tail hhead hbody htail =>
    intro s hs q hcall
    rcases List.mem_append.mp hs with hs | hs
    · have h := hhead s hs
      rw [hcall] at h
      cases h
    · rcases List.mem_append.mp hs with hs | hs
      · obtain ⟨rest, -, hwrite⟩ := hbody s hs
        rw [hcall] at hwrite
        cases hwrite
      · have h := htail s hs
        rw [hcall] at h
        cases h

/-- The request of a run stays the only one when no other follows. -/
lemma oneRequest_of_requested {e : Env} {w v : World} {cfg : OtaConfig} {key cert : CStr}
    {t u : Trace} (hc : Chain (exec e) w t v) (h : Requested e cfg key cert t)
    (hu : ∀ s ∈ u, ∀ q, s.call ≠ .perform q) :
    ∃ tr, OneRequest e cfg key tr (t ++ u) ∧
      parseEnrollResponse e.cjson (cstring tr.chunks.flatten) = some cert := by
  cases h with
  | mk pre asked post gen build url csr json tr hpre hpost hgen hbuild hurl hasked hcert =>
    cases hasked with
    | mk pre' post' ask headers hpre' hpost' hask =>
      refine ⟨tr, ⟨pre ++ gen :: build :: pre', ask, post' ++ (post ++ u), _, csr, json, ?_, hask,
        ?_, hurl, ⟨gen, by simp, hgen⟩, rfl, ?_⟩, hcert⟩
      · simp only [List.append_assoc, List.cons_append]
      · have haside : ∀ {x : Trace}, (∀ s ∈ x, Aside e s.call) →
            ∀ s ∈ x, ∀ q, s.call ≠ .perform q := fun hx s hs => (hx s hs).2.2
        simp only [List.forall_mem_append, List.forall_mem_cons]
        refine ⟨⟨haside hpre, ?_, ?_, haside hpre'⟩, haside hpost', haside hpost, hu⟩
        · intro q hq
          have hcall : gen.call = .keyAndCsr cfg.deviceId := congrArg Sigma.fst hgen
          rw [hq] at hcall
          cases hcall
        · intro q hq
          have hcall : build.call = .requestJson csr cfg.deviceId := congrArg Sigma.fst hbuild
          rw [hq] at hcall
          cases hcall
      · have hbuilt := step_event (hc.answer (s := build) (by simp)) hbuild
        exact ⟨_, buildEnrollRequestJson_some (congrArg Prod.fst hbuilt)⟩

lemma sourceAt_missing {t : Tree CStr FileRec} {cwd : Path} {p : CStr}
    (h : t.node (place cwd p) = none) : sourceAt t cwd p = .missing := by
  unfold sourceAt
  split
  · rfl
  · rename_i q hq
    rw [(locate_ok hq).1, h]

/-- `unlink` leaves nothing at the path, or finds nothing there. -/
lemma exec_unlink_missing {e : Env} {w v : World} {p : CStr} {reply : Except Errno Unit}
    (h : exec e w (.unlink p) = (reply, v)) (hr : reply = .ok () ∨ reply = .error .enoent)
    (hf : e.fault w.clock (.unlink p) ≠ some .enoent) : sourceAt v.fs e.cwd p = .missing := by
  rcases hr with rfl | rfl
  · exact sourceAt_missing (exec_unlink_ok h).2
  · obtain ⟨hfs, hchange⟩ := commit_error h
    have hnone : e.fault w.clock (.unlink p) = none := by
      cases hfault : e.fault w.clock (.unlink p) with
      | none => rfl
      | some err =>
        simp only [exec, commit, hfault] at h
        cases h
        exact absurd hfault hf
    have herr := hchange hnone
    rw [hfs]
    cases hl : locate w.fs e.cwd p with
    | error err => rw [sourceAt, hl]
    | ok q =>
      rw [hl] at herr
      change w.fs.unlinkAt q = .error .enoent at herr
      obtain ⟨rfl, -⟩ := locate_ok hl
      unfold Tree.unlinkAt at herr
      split at herr
      · rename_i hgone
        exact sourceAt_missing hgone
      · cases herr
      · cases herr

/-- A return of 0 stands for the whole postcondition. -/
theorem otaFetchEnroll_completed (e : Env) (w : World) (fuel : ℕ) (cfg : OtaConfig)
    (tokenFile keyPath certPath : CStr) (force : Bool) (hkey : cfg.tlsClientKey = some keyPath)
    (hcert : cfg.tlsClientCert = some certPath)
    (hapart : PathsApart e.cwd keyPath certPath tokenFile) :
    let o := run (exec e) (otaFetchEnroll e.cjson fuel cfg (some tokenFile) force) w
    o.value = some 0 →
      Completed e w cfg tokenFile keyPath certPath force o.trace o.final := by
  intro o hzero
  have hend : Phases e w fuel cfg tokenFile keyPath certPath force o.value o.trace o.final :=
    otaFetchEnroll_phases e w fuel cfg tokenFile keyPath certPath force hkey hcert
  generalize o.value = r, o.trace = t, o.final = v at hend hzero
  simp only [PathsApart, List.nodup_cons, List.mem_cons, List.not_mem_nil, or_false, not_or]
    at hapart
  obtain ⟨⟨hkc, hkt, -, hkct, -⟩, ⟨hct, -⟩, -⟩ := hapart
  cases hend with
  | early _ _ hr => exact absurd hzero hr
  | atKey _ _ _ _ _ _ _ hr => exact absurd hzero hr
  | atCert _ _ _ _ _ _ _ _ _ hr => exact absurd hzero hr
  | atToken t u x v₁ v₂ v₃ _ key cert reply hr hready hkey hcert htoken =>
    have hlater : ∀ s ∈ u ++ (x ++ [⟨v₃, .unlink tokenFile, reply, v⟩]), ∀ q,
        s.call ≠ .perform q := by
      simp only [List.forall_mem_append, List.forall_mem_singleton]
      exact ⟨staged_perform hkey.staged, staged_perform hcert.staged, by simp⟩
    obtain ⟨tr, hone, hparse⟩ := oneRequest_of_requested hready.chain hready.requested hlater
    obtain ⟨members, hmembers, hbundle⟩ := parseEnrollResponse_some hparse
    have hunlink : ∀ {q : Path}, q ≠ place e.cwd tokenFile →
        v.fs.fileAt q = v₃.fs.fileAt q := by
      intro q hq
      have hsame := exec_fileAt (e := e) (w := v₃) (c := .unlink tokenFile) hq
      rwa [htoken] at hsame
    have hkeyFile : v.fs.fileAt (place e.cwd keyPath) = some ⟨key, 384⟩ := by
      rw [hunlink hkt, hcert.fileAt_of_ne hkct hkc]
      exact (hkey.written.fileAt hkey.chain).1.resolve_left fun h => h.1 rfl
    have hcertFile : v.fs.fileAt (place e.cwd certPath) = some ⟨cert, 420⟩ := by
      rw [hunlink hct]
      exact (hcert.written.fileAt hcert.chain).1.resolve_left fun h => h.1 rfl
    exact ⟨⟨key, cert, tr, members, hone, hmembers, hbundle, hkeyFile, hcertFile⟩,
      fun htruth => exec_unlink_missing htoken (hr hzero) (htruth _), hready.fresh⟩

/-- A certificate and its chain. -/
def issuedChain : List (CStr × Json) :=
  [(text "client_cert_pem", .str (text "crt")), (text "client_chain_pem", .str (text "ca"))]

/-- The server answers with a certificate and a chain, in two pieces. -/
def chainEnv : Env :=
  .calm (fun _ _ => ⟨[(Json.obj issuedChain).print.take 9, (Json.obj issuedChain).print.drop 9],
    0, 201⟩) (.ofObject issuedChain)

theorem otaFetchEnroll_completed_chain :
    (run (exec chainEnv) (otaFetchEnroll chainEnv.cjson 100 enrollConfig (some (text "tok"))
        false) (.at enrollTree)).value = some 0 ∧
      Completed chainEnv (.at enrollTree) enrollConfig (text "tok") (text "id/key") (text "id/crt")
        false
        (run (exec chainEnv) (otaFetchEnroll chainEnv.cjson 100 enrollConfig (some (text "tok"))
          false) (.at enrollTree)).trace
        (run (exec chainEnv) (otaFetchEnroll chainEnv.cjson 100 enrollConfig (some (text "tok"))
          false) (.at enrollTree)).final := by
  have hzero : (run (exec chainEnv) (otaFetchEnroll chainEnv.cjson 100 enrollConfig
      (some (text "tok")) false) (.at enrollTree)).value = some 0 := by decide +kernel
  exact ⟨hzero, otaFetchEnroll_completed chainEnv (.at enrollTree) 100 enrollConfig (text "tok")
    (text "id/key") (text "id/crt") false rfl rfl enrollPaths_apart hzero⟩

end OtaFetch.Enrolled
