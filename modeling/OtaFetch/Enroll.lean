import OtaFetch.AtomicWrite
import OtaFetch.Update

/-!
# Enrollment

`ota_fetch_enroll` makes a key, asks the server for a certificate, and replaces
the two files of the identity one after the other. Between the two renames any
operation can fail; the device is then left with a new key and no certificate
for it.
-/
namespace OtaFetch.Enroll
open CPath FileTree Stdio Interaction Machine Config Releases Identity Fetch Update AtomicWrite

/-- `curl_slist_append` returns `NULL` when it fails, and the list is lost. -/
def slistAppend (headers : List CStr) (s : CStr) : Proc (List CStr) := do
  if ← call .malloc then pure (headers ++ [s]) else pure []

/-- The callback grows the buffer by the chunk or takes nothing. -/
def writeCallback (contents mem : Bytes) : Proc (ℕ × Bytes) := do
  if ← call .malloc then pure (contents.length, mem ++ contents) else pure (0, mem)

/-- Hand the chunks to the callback until one is not taken whole. -/
def receive : List Bytes → Bytes → Proc (Bool × Bytes)
  | [], mem => pure (true, mem)
  | chunk :: rest, mem => do
    let (n, mem) ← writeCallback chunk mem
    if n = chunk.length then receive rest mem else pure (false, mem)

/-- The options `post_enroll_request` sets. -/
def enrollRequest (url : CStr) (cfg : OtaConfig) (headers : List CStr) (requestJson : CStr) :
    CurlRequest where
  url := url
  followLocation := true
  failOnError := false
  connectTimeout := if 0 < cfg.connectTimeout then some cfg.connectTimeout else none
  timeout := if 0 < cfg.transferTimeout then some cfg.transferTimeout else none
  lowSpeed :=
    if 0 < cfg.lowSpeedLimit ∧ 0 < cfg.lowSpeedTime then
      some (cfg.lowSpeedLimit, cfg.lowSpeedTime)
    else none
  sslCert := none
  sslKey := none
  caInfo := nonEmpty cfg.tlsCaCert
  showProgress := false
  headers := headers
  postFields := some requestJson

/-- The response as a C string, or `none` for a return code of -1. -/
def postEnrollRequest (url : CStr) (cfg : OtaConfig) (token requestJson : CStr) :
    Proc (Option CStr) := do
  if !(← call .malloc) then pure none
  else if !(← call .curlInit) then pure none
  else
    let headers ← slistAppend [] (text "Content-Type: application/json")
    let headers ← slistAppend headers (text "Accept: application/json")
    let headers ← slistAppend headers (text "Authorization: Bearer " ++ token)
    let tr ← call (.perform (enrollRequest url cfg headers requestJson))
    let (taken, body) ← receive tr.chunks []
    let res := if taken then tr.result else curleWriteError
    if res ≠ curleOk then pure none
    else if tr.status < 200 ∨ 300 ≤ tr.status then pure none
    else if body = [] then pure none
    else pure (some (cstring body))

/-- The configured endpoint, or the one derived from the server. -/
def enrollEndpoint (cfg : OtaConfig) : Proc (Option CStr) :=
  match nonEmpty cfg.enrollUrl with
  | some url => pure (some url)
  | none =>
    match deriveEnrollUrl cfg.serverUrl with
    | none => pure none
    | some url => do
      if ← call .malloc then pure (some url) else pure none

/-- `ota_fetch_enroll` up to the point where it has a key and a certificate. -/
def requestIdentity (cjson : CJson) (cfg : OtaConfig) (tokenFile : CStr) :
    Proc (Option (CStr × CStr)) := do
  match ← call (.readToken tokenFile) with
  | none => pure none
  | some token =>
    match ← enrollEndpoint cfg with
    | none => pure none
    | some url =>
      match ← call (.keyAndCsr cfg.deviceId) with
      | none => pure none
      | some (key, csr) =>
        match ← call (.requestJson csr cfg.deviceId) with
        | none => pure none
        | some request =>
          match ← postEnrollRequest url cfg token request with
          | none => pure none
          | some response =>
            match parseEnrollResponse cjson response with
            | none => pure none
            | some cert => do
              if ← call .malloc then pure (some (key, cert)) else pure none

/-- An identity that exists is not replaced without `force`. -/
def refusesIdentity (force : Bool) (keyPath certPath : CStr) : Proc Bool :=
  if force then pure false
  else do
    if ← fileExists keyPath then pure true else fileExists certPath

/-- `none` when a writing loop is still being interrupted after `fuel` calls. -/
def otaFetchEnroll (cjson : CJson) (fuel : ℕ) (cfg : OtaConfig) (tokenFile : Option CStr)
    (force : Bool) : Proc (Option ℤ) :=
  match tokenFile, cfg.tlsClientKey, cfg.tlsClientCert with
  | some tokenFile, some keyPath, some certPath => do
    if ← refusesIdentity force keyPath certPath then pure (some (-1))
    else
      match ← requestIdentity cjson cfg tokenFile with
      | none => pure (some (-1))
      | some (key, cert) =>
        match ← writeFileAtomic fuel keyPath key 384 with
        | none => pure none
        | some rc =>
          if rc ≠ 0 then pure (some (-1))
          else
            match ← writeFileAtomic fuel certPath cert 420 with
            | none => pure none
            | some rc =>
              if rc ≠ 0 then pure (some (-1))
              else
                match ← call (.unlink tokenFile) with
                | .ok () => pure (some 0)
                | .error .enoent => pure (some 0)
                | .error _ => pure (some (-1))
  | _, _, _ => pure (some (-1))

/-- The key that a step produces. -/
def keyOf (s : Step Call Resp World) : Option CStr :=
  match s.event with
  | ⟨.keyAndCsr _, some (key, _)⟩ => some key
  | _ => none

/-- The certificate that a step receives. -/
def certOf (cjson : CJson) (s : Step Call Resp World) : Option CStr :=
  match s.event with
  | ⟨.perform _, tr⟩ => parseEnrollResponse cjson (cstring tr.chunks.flatten)
  | _ => none

def producedKey (t : Trace) : Option CStr := t.findSome? keyOf

def producedCert (cjson : CJson) (t : Trace) : Option CStr := t.findSome? (certOf cjson)

/-- Calls that write no file and produce neither key nor certificate. -/
def Aside (e : Env) (c : Call) : Prop :=
  (∀ q, ¬ Writes e c q) ∧ (∀ d, c ≠ .keyAndCsr d) ∧ ∀ req, c ≠ .perform req

lemma keyOf_aside {e : Env} {s : Step Call Resp World} (h : Aside e s.call) : keyOf s = none := by
  obtain ⟨before, call, reply, after⟩ := s
  cases call with
  | keyAndCsr d => exact absurd rfl (h.2.1 d)
  | _ => rfl

lemma certOf_aside {e : Env} (cjson : CJson) {s : Step Call Resp World} (h : Aside e s.call) :
    certOf cjson s = none := by
  obtain ⟨before, call, reply, after⟩ := s
  cases call with
  | perform req => exact absurd rfl (h.2.2 req)
  | _ => rfl

/-- Steps aside do not hide what is produced later. -/
lemma producedKey_aside {e : Env} {t : Trace} (h : ∀ s ∈ t, Aside e s.call) (u : Trace) :
    producedKey (t ++ u) = producedKey u := by
  have hnone : t.findSome? keyOf = none :=
    List.findSome?_eq_none_iff.mpr fun s hs => keyOf_aside (h s hs)
  rw [producedKey, List.findSome?_append, hnone, Option.none_or, producedKey]

lemma producedCert_aside {e : Env} {t : Trace} (h : ∀ s ∈ t, Aside e s.call) (cjson : CJson)
    (u : Trace) : producedCert cjson (t ++ u) = producedCert cjson u := by
  have hnone : t.findSome? (certOf cjson) = none :=
    List.findSome?_eq_none_iff.mpr fun s hs => certOf_aside cjson (h s hs)
  rw [producedCert, List.findSome?_append, hnone, Option.none_or, producedCert]

lemma producedCert_skip {cjson : CJson} {s : Step Call Resp World} (h : certOf cjson s = none)
    (t : Trace) : producedCert cjson (s :: t) = producedCert cjson t := by
  rw [producedCert, List.findSome?_cons, h]
  rfl

/-- What was produced stays the first. -/
lemma producedKey_append {t : Trace} {key : CStr} (h : producedKey t = some key) (u : Trace) :
    producedKey (t ++ u) = some key := by
  rw [producedKey] at h
  rw [producedKey, List.findSome?_append, h]
  rfl

lemma producedCert_append {cjson : CJson} {t : Trace} {cert : CStr}
    (h : producedCert cjson t = some cert) (u : Trace) :
    producedCert cjson (t ++ u) = some cert := by
  rw [producedCert] at h
  rw [producedCert, List.findSome?_append, h]
  rfl

lemma aside_malloc (e : Env) : Aside e .malloc := ⟨fun _ => id, by simp, by simp⟩

lemma slistAppend_obeys {E : (c : Call) → Resp c → Prop} (e : Env) (headers : List CStr)
    (s : CStr) : Obeys E (Aside e) (fun _ => True) (slistAppend headers s) := by
  refine Obeys.call (aside_malloc e) (fun r _ => ?_)
  split
  · exact Obeys.ret trivial
  · exact Obeys.ret trivial

lemma writeCallback_obeys {E : (c : Call) → Resp c → Prop} (e : Env) (chunk mem : Bytes) :
    Obeys E (Aside e) (fun r => r.1 = chunk.length → r.2 = mem ++ chunk)
      (writeCallback chunk mem) := by
  unfold writeCallback
  refine Obeys.call (aside_malloc e) (fun r _ => ?_)
  split
  · exact Obeys.ret (fun _ => rfl)
  · refine Obeys.ret ?_
    intro hlen
    rw [List.length_eq_zero_iff.mp hlen.symm, List.append_nil]

/-- A body that is taken whole is the concatenation of its chunks. -/
lemma receive_obeys {E : (c : Call) → Resp c → Prop} (e : Env) (chunks : List Bytes)
    (mem : Bytes) :
    Obeys E (Aside e) (fun r => r.1 = true → r.2 = mem ++ chunks.flatten)
      (receive chunks mem) := by
  induction chunks generalizing mem with
  | nil => exact Obeys.ret (by simp)
  | cons chunk rest ih =>
    unfold receive
    refine (writeCallback_obeys e chunk mem).bind ?_
    intro r hr
    dsimp only
    split
    · rename_i hlen
      rw [List.flatten_cons, ← List.append_assoc, ← hr hlen]
      exact ih r.2
    · exact Obeys.ret (by simp)

/-- Where the request goes: to the configured endpoint, or to `enroll` below the
server, with one slash between them that may be there already. -/
def Endpoint (cfg : OtaConfig) (url : CStr) : Prop :=
  match nonEmpty cfg.enrollUrl with
  | some configured => url = configured
  | none =>
    ∃ server, cfg.serverUrl = some server ∧ server ≠ [] ∧
      url = server ++ (if server.getLast? = some slash then [] else [slash]) ++ text "enroll"

lemma deriveEnrollUrl_some {serverUrl : Option CStr} {url : CStr}
    (h : deriveEnrollUrl serverUrl = some url) :
    ∃ server, serverUrl = some server ∧ server ≠ [] ∧
      url = server ++ (if server.getLast? = some slash then [] else [slash]) ++ text "enroll" := by
  unfold deriveEnrollUrl at h
  split at h
  · cases h
  rename_i server
  split_ifs at h with hempty hslash
  · refine ⟨server, rfl, hempty, ?_⟩
    rw [if_pos hslash, List.append_nil]
    exact (Option.some.inj h).symm
  · refine ⟨server, rfl, hempty, ?_⟩
    rw [if_neg hslash, List.append_assoc]
    exact (Option.some.inj h).symm

lemma enrollEndpoint_obeys {E : (c : Call) → Resp c → Prop} (e : Env) (cfg : OtaConfig) :
    Obeys E (Aside e) (fun r => ∀ url, r = some url → Endpoint cfg url) (enrollEndpoint cfg) := by
  unfold enrollEndpoint Endpoint
  split
  · exact Obeys.ret (by simp)
  · split
    · exact Obeys.ret (by simp)
    · rename_i url hurl
      refine Obeys.call (aside_malloc e) (fun r _ => ?_)
      split
      · refine Obeys.ret ?_
        intro url' heq
        obtain rfl := Option.some.inj heq
        exact deriveEnrollUrl_some hurl
      · exact Obeys.ret (by simp)

lemma refusesIdentity_obeys {E : (c : Call) → Resp c → Prop} (e : Env) (force : Bool)
    (keyPath certPath : CStr) :
    Obeys E (Aside e) (fun _ => True) (refusesIdentity force keyPath certPath) := by
  have hexists : ∀ p, Obeys E (Aside e) (fun _ => True) (fileExists p) := by
    intro p
    refine Obeys.call ⟨fun _ => id, by simp, by simp⟩ (fun r _ => ?_)
    split
    · exact Obeys.ret trivial
    · exact Obeys.ret trivial
  unfold refusesIdentity
  split
  · exact Obeys.ret trivial
  · refine (hexists keyPath).bind (fun b _ => ?_)
    split
    · exact Obeys.ret trivial
    · exact hexists certPath

lemma postEnrollRequest_obeys {E : (c : Call) → Resp c → Prop} (e : Env) (url : CStr)
    (cfg : OtaConfig) (token requestJson : CStr) :
    Obeys E (Silent e) (fun _ => True) (postEnrollRequest url cfg token requestJson) := by
  have hslist : ∀ headers s, Obeys E (Silent e) (fun _ => True) (slistAppend headers s) :=
    fun headers s => (slistAppend_obeys e headers s).mono (fun _ _ => id) (fun _ h => h.1)
      (fun _ => id)
  unfold postEnrollRequest
  refine Obeys.call (fun _ => id) (fun r _ => ?_)
  split
  · exact Obeys.ret trivial
  refine Obeys.call (fun _ => id) (fun r _ => ?_)
  split
  · exact Obeys.ret trivial
  refine (hslist _ _).bind (fun _ _ => (hslist _ _).bind (fun _ _ => (hslist _ _).bind ?_))
  intro headers _
  refine Obeys.call (fun _ => id) (fun tr _ => ?_)
  refine Obeys.bind ((receive_obeys e tr.chunks []).mono (fun _ _ => id) (fun _ h => h.1)
    (fun _ => id)) ?_
  intro r _
  dsimp only
  split_ifs <;> exact Obeys.ret trivial

/-- One request stands alone among steps aside. -/
inductive Asked (e : Env) (cfg : OtaConfig) (url json : CStr) (tr : Transfer) : Trace → Prop where
  | mk (pre post : Trace) (ask : Step Call Resp World) (headers : List CStr)
      (hpre : ∀ s ∈ pre, Aside e s.call) (hpost : ∀ s ∈ post, Aside e s.call)
      (hask : ask.event = ⟨.perform (enrollRequest url cfg headers json), tr⟩) :
      Asked e cfg url json tr (pre ++ ask :: post)

/-- A response that is handed on was received in the one request of the function. -/
lemma postEnrollRequest_asked (e : Env) (w : World) (url : CStr) (cfg : OtaConfig)
    (token requestJson : CStr) :
    Yields (exec e) w (postEnrollRequest url cfg token requestJson) (fun r t _ =>
      ∀ response, r = some response →
        ∃ tr, Asked e cfg url requestJson tr t ∧ response = cstring tr.chunks.flatten) := by
  have hslist : ∀ (v : World) (headers : List CStr) (s : CStr),
      Yields (exec e) v (slistAppend headers s) (fun _ t _ => ∀ x ∈ t, Aside e x.call) := by
    intro v headers s
    have h := Yields.of_obeys (w := v) (slistAppend_obeys (E := Lawful e) e headers s)
      (exec_lawful e)
    exact h.2
  unfold postEnrollRequest
  refine Yields.call ?_
  intro r₁ w₁ _
  split
  · exact Yields.ret (by simp)
  refine Yields.call ?_
  intro r₂ w₂ _
  split
  · exact Yields.ret (by simp)
  refine Yields.bind _ (hslist w₂ _ _) ?_
  intro h₃ t₃ w₃ ht₃ _
  refine Yields.bind _ (hslist w₃ _ _) ?_
  intro h₄ t₄ w₄ ht₄ _
  refine Yields.bind _ (hslist w₄ _ _) ?_
  intro h₅ t₅ w₅ ht₅ _
  refine Yields.call ?_
  intro tr w₆ _
  refine Yields.bind _ (Yields.of_obeys (receive_obeys (E := Lawful e) e tr.chunks [])
    (exec_lawful e)) ?_
  intro r₇ t₇ w₇ ht₇ _
  obtain ⟨hbody, ht₇⟩ := ht₇
  dsimp only
  by_cases htaken : r₇.1 = true
  · rw [if_pos htaken]
    split
    · exact Yields.ret (by simp)
    split
    · exact Yields.ret (by simp)
    split
    · exact Yields.ret (by simp)
    refine Yields.ret ?_
    intro response hresponse
    obtain rfl := Option.some.inj hresponse
    refine ⟨tr, ?_, by rw [hbody htaken, List.nil_append]⟩
    have hpre : ∀ s ∈ (⟨w, .malloc, r₁, w₁⟩ :: ⟨w₁, .curlInit, r₂, w₂⟩ :: (t₃ ++ (t₄ ++ t₅)) :
        Trace), Aside e s.call := by
      simp only [List.forall_mem_cons, List.forall_mem_append]
      exact ⟨aside_malloc e, ⟨fun _ => id, by simp, by simp⟩, ht₃, ht₄, ht₅⟩
    have hasked : Asked e cfg url requestJson tr _ :=
      .mk _ t₇ ⟨w₅, .perform (enrollRequest url cfg h₅ requestJson), tr, w₆⟩ h₅ hpre ht₇ rfl
    simpa only [List.cons_append, List.append_assoc, List.append_nil] using hasked
  · rw [if_neg htaken, if_pos (by decide)]
    exact Yields.ret (by simp)

/-- The certificate of the response is the one produced. -/
lemma Asked.producedCert {e : Env} {cfg : OtaConfig} {url json : CStr} {tr : Transfer} {t : Trace}
    (h : Asked e cfg url json tr t) (cjson : CJson) :
    producedCert cjson t = parseEnrollResponse cjson (cstring tr.chunks.flatten) := by
  cases h with
  | mk pre post ask headers hpre hpost hask =>
    have hcert : certOf cjson ask = parseEnrollResponse cjson (cstring tr.chunks.flatten) := by
      rw [certOf, hask]
    rw [producedCert_aside hpre]
    cases hparse : parseEnrollResponse cjson (cstring tr.chunks.flatten) with
    | none =>
      have hrest := producedCert_aside hpost cjson []
      rw [List.append_nil] at hrest
      rw [producedCert_skip (hcert.trans hparse), hrest]
      rfl
    | some cert => rw [Enroll.producedCert, List.findSome?_cons, hcert.trans hparse]

lemma requestIdentity_obeys {E : (c : Call) → Resp c → Prop} (e : Env) (cjson : CJson)
    (cfg : OtaConfig) (tokenFile : CStr) :
    Obeys E (Silent e) (fun _ => True) (requestIdentity cjson cfg tokenFile) := by
  unfold requestIdentity
  refine Obeys.call (fun _ => id) (fun r₁ _ => ?_)
  split
  · exact Obeys.ret trivial
  refine Obeys.bind ((enrollEndpoint_obeys e cfg).mono (fun _ _ => id) (fun _ h => h.1)
    (fun _ => id)) (fun r₂ _ => ?_)
  split
  · exact Obeys.ret trivial
  refine Obeys.call (fun _ => id) (fun r₃ _ => ?_)
  split
  · exact Obeys.ret trivial
  refine Obeys.call (fun _ => id) (fun r₄ _ => ?_)
  split
  · exact Obeys.ret trivial
  refine (postEnrollRequest_obeys e _ cfg _ _).bind (fun r₅ _ => ?_)
  split
  · exact Obeys.ret trivial
  split
  · exact Obeys.ret trivial
  refine Obeys.call (fun _ => id) (fun r₆ _ => ?_)
  split
  · exact Obeys.ret trivial
  · exact Obeys.ret trivial

/-- A key was generated, and one request was made for it and answered with the
certificate. -/
inductive Requested (e : Env) (cfg : OtaConfig) (key cert : CStr) : Trace → Prop where
  | mk (pre asked post : Trace) (gen build : Step Call Resp World) (url csr json : CStr)
      (tr : Transfer) (hpre : ∀ s ∈ pre, Aside e s.call) (hpost : ∀ s ∈ post, Aside e s.call)
      (hgen : gen.event = ⟨.keyAndCsr cfg.deviceId, some (key, csr)⟩)
      (hbuild : build.event = ⟨.requestJson csr cfg.deviceId, some json⟩)
      (hurl : Endpoint cfg url) (hasked : Asked e cfg url json tr asked)
      (hcert : parseEnrollResponse e.cjson (cstring tr.chunks.flatten) = some cert) :
      Requested e cfg key cert (pre ++ gen :: build :: (asked ++ post))

lemma Requested.after {e : Env} {cfg : OtaConfig} {key cert : CStr} {t : Trace}
    (h : Requested e cfg key cert t) {before : Trace} (hb : ∀ s ∈ before, Aside e s.call) :
    Requested e cfg key cert (before ++ t) := by
  cases h with
  | mk pre asked post gen build url csr json tr hpre hpost hgen hbuild hurl hasked hcert =>
    rw [← List.append_assoc]
    refine .mk _ asked post gen build url csr json tr ?_ hpost hgen hbuild hurl hasked hcert
    rw [List.forall_mem_append]
    exact ⟨hb, hpre⟩

/-- The key and the certificate that are handed on are those the run has produced. -/
lemma Requested.produced {e : Env} {cfg : OtaConfig} {key cert : CStr} {t : Trace}
    (h : Requested e cfg key cert t) :
    producedKey t = some key ∧ producedCert e.cjson t = some cert := by
  cases h with
  | mk pre asked post gen build url csr json tr hpre hpost hgen hbuild hurl hasked hcert =>
    have hkey : keyOf gen = some key := by rw [keyOf, hgen]
    have hnone₁ : certOf e.cjson gen = none := by rw [certOf, hgen]
    have hnone₂ : certOf e.cjson build = none := by rw [certOf, hbuild]
    constructor
    · rw [producedKey_aside hpre, producedKey, List.findSome?_cons, hkey]
    · rw [producedCert_aside hpre, producedCert_skip hnone₁, producedCert_skip hnone₂]
      exact producedCert_append ((hasked.producedCert e.cjson).trans hcert) _

theorem requestIdentity_requested (e : Env) (w : World) (cfg : OtaConfig) (tokenFile : CStr) :
    Yields (exec e) w (requestIdentity e.cjson cfg tokenFile) (fun r t _ =>
      ∀ key cert, r = some (key, cert) → Requested e cfg key cert t) := by
  unfold requestIdentity
  refine Yields.call ?_
  intro r₁ w₁ _
  split
  · exact Yields.ret (by simp)
  rename_i token _
  refine Yields.bind _ (Yields.of_obeys (enrollEndpoint_obeys (E := Lawful e) e cfg)
    (exec_lawful e)) ?_
  intro r₂ t₂ w₂ ht₂ _
  split
  · exact Yields.ret (by simp)
  rename_i url
  refine Yields.call ?_
  intro r₃ w₃ _
  split
  · exact Yields.ret (by simp)
  rename_i key csr _
  refine Yields.call ?_
  intro r₄ w₄ _
  split
  · exact Yields.ret (by simp)
  rename_i json _
  refine Yields.bind _ (postEnrollRequest_asked e w₄ _ cfg _ _) ?_
  intro r₅ t₅ w₅ hanswer _
  split
  · exact Yields.ret (by simp)
  rename_i response
  obtain ⟨tr, hasked, rfl⟩ := hanswer _ rfl
  split
  · exact Yields.ret (by simp)
  rename_i cert hcert
  refine Yields.call ?_
  intro r₆ w₆ _
  split
  · refine Yields.ret ?_
    intro key' cert' heq
    obtain ⟨rfl, rfl⟩ := Prod.mk.inj (Option.some.inj heq)
    have hpre : ∀ s ∈ (⟨w, .readToken tokenFile, some token, w₁⟩ :: t₂ : Trace),
        Aside e s.call := by
      rw [List.forall_mem_cons]
      exact ⟨⟨fun _ => id, by simp, by simp⟩, ht₂.2⟩
    have hpost : ∀ s ∈ ([⟨w₅, .malloc, r₆, w₆⟩] : Trace), Aside e s.call := by
      rw [List.forall_mem_singleton]
      exact aside_malloc e
    exact .mk _ t₅ _ ⟨w₂, .keyAndCsr cfg.deviceId, some (key, csr), w₃⟩
      ⟨w₃, .requestJson csr cfg.deviceId, some json, w₄⟩ url csr json tr hpre hpost rfl rfl
      (ht₂.1 url rfl) hasked hcert
  · exact Yields.ret (by simp)

/-- The three paths and the temporary names beside them are different files. -/
def PathsApart (cwd : Path) (keyPath certPath tokenFile : CStr) : Prop :=
  [place cwd keyPath, place cwd certPath, place cwd tokenFile, place cwd (tmpOf keyPath),
    place cwd (tmpOf certPath), place cwd (tmpOf tokenFile)].Nodup

lemma moved_append (p : CStr) (t u : Trace) : Moved p (t ++ u) ↔ Moved p t ∨ Moved p u := by
  simp only [Moved, List.mem_append, or_and_right, exists_or]

lemma not_moved_of_silent {e : Env} {t : Trace} (h : ∀ s ∈ t, Silent e s.call) (p : CStr) :
    ¬ Moved p t := by
  intro hmoved
  obtain ⟨s, hs, hev⟩ := hmoved
  have hcall : s.call = .rename (tmpOf p) p := congrArg Sigma.fst hev
  have hsilent := h s hs
  rw [hcall] at hsilent
  exact hsilent _ (.inl rfl)

/-- Nothing was renamed, and the three files are as they were. -/
structure Untouched (e : Env) (w : World) (keyPath certPath tokenFile : CStr) (t : Trace)
    (v : World) : Prop where
  keyUnmoved : ¬ Moved keyPath t
  certUnmoved : ¬ Moved certPath t
  key : contentAt e v keyPath = contentAt e w keyPath
  cert : contentAt e v certPath = contentAt e w certPath
  token : contentAt e v tokenFile = contentAt e w tokenFile

/-- The key was replaced, and only the key. -/
structure KeyStored (e : Env) (w : World) (keyPath certPath tokenFile : CStr) (t : Trace)
    (v : World) (newKey newCert : CStr) : Prop where
  producedKey : producedKey t = some newKey
  producedCert : producedCert e.cjson t = some newCert
  keyMoved : Moved keyPath t
  certUnmoved : ¬ Moved certPath t
  key : contentAt e v keyPath = some newKey
  cert : contentAt e v certPath = contentAt e w certPath
  token : contentAt e v tokenFile = contentAt e w tokenFile

/-- Key and certificate were replaced. -/
structure BothStored (e : Env) (keyPath certPath : CStr) (t : Trace) (v : World)
    (newKey newCert : CStr) : Prop where
  producedKey : producedKey t = some newKey
  producedCert : producedCert e.cjson t = some newCert
  certMoved : Moved certPath t
  key : contentAt e v keyPath = some newKey
  cert : contentAt e v certPath = some newCert

lemma untouched_of_silent {e : Env} {w v : World} {t : Trace} (keyPath certPath tokenFile : CStr)
    (hc : Chain (exec e) w t v) (h : ∀ s ∈ t, Silent e s.call) :
    Untouched e w keyPath certPath tokenFile t v := by
  have hsame : ∀ p, contentAt e v p = contentAt e w p :=
    fun p => (chain_contentAt hc fun s hs => h s hs _).1
  exact ⟨not_moved_of_silent h _, not_moved_of_silent h _, hsame _, hsame _, hsame _⟩

/-- The first replacement. -/
lemma Untouched.writeKey {e : Env} {w v v' : World} {keyPath certPath tokenFile : CStr}
    {t u : Trace} {newKey newCert : CStr} {r : Option ℤ}
    (h : Untouched e w keyPath certPath tokenFile t v)
    (hapart : PathsApart e.cwd keyPath certPath tokenFile)
    (hkey : producedKey t = some newKey) (hcert : producedCert e.cjson t = some newCert)
    (hw : WriteEnd e keyPath newKey r u) (hc : Chain (exec e) v u v') :
    (r ≠ some 0 ∧ Untouched e w keyPath certPath tokenFile (t ++ u) v') ∨
      KeyStored e w keyPath certPath tokenFile (t ++ u) v' newKey newCert := by
  simp only [PathsApart, List.nodup_cons, List.mem_cons, List.not_mem_nil, or_false, not_or]
    at hapart
  obtain ⟨⟨hkc, hkt, -⟩, ⟨-, hck, -⟩, ⟨htk, -⟩, -⟩ := hapart
  have hcertSame := hw.contentAt_of_ne hc hck (Ne.symm hkc)
  have htokenSame := hw.contentAt_of_ne hc htk (Ne.symm hkt)
  have hcertUnmoved : ¬ Moved certPath (t ++ u) := by
    rw [moved_append]
    exact not_or.mpr ⟨h.certUnmoved, hw.not_moved_of_ne hck (Ne.symm hkc)⟩
  rcases hw.content hc with ⟨hun, hr, hsame⟩ | ⟨hmoved, hnew⟩
  · refine .inl ⟨hr, ?_, hcertUnmoved, hsame.trans h.key, hcertSame.trans h.cert,
      htokenSame.trans h.token⟩
    rw [moved_append]
    exact not_or.mpr ⟨h.keyUnmoved, hun⟩
  · refine .inr ⟨producedKey_append hkey u, producedCert_append hcert u, ?_, hcertUnmoved, hnew,
      hcertSame.trans h.cert, htokenSame.trans h.token⟩
    rw [moved_append]
    exact .inr hmoved

/-- The second replacement. -/
lemma KeyStored.writeCert {e : Env} {w v v' : World} {keyPath certPath tokenFile : CStr}
    {t u : Trace} {newKey newCert : CStr} {r : Option ℤ}
    (h : KeyStored e w keyPath certPath tokenFile t v newKey newCert)
    (hapart : PathsApart e.cwd keyPath certPath tokenFile)
    (hw : WriteEnd e certPath newCert r u) (hc : Chain (exec e) v u v') :
    (r ≠ some 0 ∧ KeyStored e w keyPath certPath tokenFile (t ++ u) v' newKey newCert) ∨
      BothStored e keyPath certPath (t ++ u) v' newKey newCert := by
  simp only [PathsApart, List.nodup_cons, List.mem_cons, List.not_mem_nil, or_false, not_or]
    at hapart
  obtain ⟨⟨hkc, -, -, hkt, -⟩, ⟨hct, -⟩, ⟨-, htt, -⟩, -⟩ := hapart
  have hkeySame := hw.contentAt_of_ne hc hkt hkc
  have htokenSame := hw.contentAt_of_ne hc htt (Ne.symm hct)
  rcases hw.content hc with ⟨hun, hr, hsame⟩ | ⟨hmoved, hnew⟩
  · refine .inl ⟨hr, producedKey_append h.producedKey u, producedCert_append h.producedCert u, ?_,
      ?_, hkeySame.trans h.key, hsame.trans h.cert, htokenSame.trans h.token⟩
    · rw [moved_append]
      exact .inl h.keyMoved
    · rw [moved_append]
      exact not_or.mpr ⟨h.certUnmoved, hun⟩
  · refine .inr ⟨producedKey_append h.producedKey u, producedCert_append h.producedCert u, ?_,
      hkeySame.trans h.key, hnew⟩
    rw [moved_append]
    exact .inr hmoved

/-- Removing the token leaves the identity alone. -/
lemma BothStored.unlinkToken {e : Env} {v v' : World} {keyPath certPath tokenFile : CStr}
    {t : Trace} {newKey newCert : CStr} {r : Except Errno Unit}
    (h : BothStored e keyPath certPath t v newKey newCert)
    (hapart : PathsApart e.cwd keyPath certPath tokenFile)
    (hx : exec e v (.unlink tokenFile) = (r, v')) :
    BothStored e keyPath certPath (t ++ [⟨v, .unlink tokenFile, r, v'⟩]) v' newKey newCert := by
  simp only [PathsApart, List.nodup_cons, List.mem_cons, List.not_mem_nil, or_false, not_or]
    at hapart
  obtain ⟨⟨-, hkt, -⟩, ⟨hct, -⟩, -⟩ := hapart
  have hsame : ∀ {p : CStr}, place e.cwd p ≠ place e.cwd tokenFile →
      contentAt e v' p = contentAt e v p := by
    intro p hne
    have hstill := exec_contentAt (e := e) (c := .unlink tokenFile) v hne
    rw [hx] at hstill
    exact hstill
  refine ⟨producedKey_append h.producedKey _, producedCert_append h.producedCert _, ?_,
    (hsame hkt).trans h.key, (hsame hct).trans h.cert⟩
  rw [moved_append]
  exact .inl h.certMoved

/-- The environment never refuses a `stat`. -/
def SureStat (e : Env) : Prop := ∀ n p, e.fault n (.stat p) = none

/-- Without `force` an enrollment goes on only when neither file is there. -/
lemma refusesIdentity_yields (e : Env) (w : World) (force : Bool) (keyPath certPath : CStr) :
    Yields (exec e) w (refusesIdentity force keyPath certPath) (fun b _ _ =>
      b = false → force = false → SureStat e →
        sourceAt w.fs e.cwd keyPath = .missing ∧ sourceAt w.fs e.cwd certPath = .missing) := by
  cases force with
  | true => exact Yields.ret (by simp)
  | false =>
    refine Yields.call ?_
    intro r v hx
    have hfs : v.fs = w.fs :=
      (congrArg (fun a => a.2.fs) hx.symm).trans (exec_stat_fs e w keyPath)
    cases r with
    | ok u => exact Yields.ret (by simp)
    | error err =>
      refine Yields.call ?_
      intro r' v' hx'
      cases r' with
      | ok u => exact Yields.ret (by simp)
      | error err' =>
        refine Yields.ret ?_
        intro _ _ hsure
        have hcert := exec_stat_error hx' (hsure _ _)
        rw [hfs] at hcert
        exact ⟨exec_stat_error hx (hsure _ _), hcert⟩

/-- What is known when the first file is about to be written. -/
structure Ready (e : Env) (w : World) (cfg : OtaConfig) (keyPath certPath : CStr) (force : Bool)
    (key cert : CStr) (t : Trace) (v : World) : Prop where
  chain : Chain (exec e) w t v
  silent : ∀ s ∈ t, Silent e s.call
  fresh : force = false → SureStat e →
    sourceAt w.fs e.cwd keyPath = .missing ∧ sourceAt w.fs e.cwd certPath = .missing
  requested : Requested e cfg key cert t

lemma Ready.writeKey {e : Env} {w v v' : World} {cfg : OtaConfig} {keyPath certPath : CStr}
    {force : Bool} {key cert : CStr} {t u : Trace} {fuel : ℕ} {r : Option ℤ}
    (h : Ready e w cfg keyPath certPath force key cert t v) (tokenFile : CStr)
    (hapart : PathsApart e.cwd keyPath certPath tokenFile)
    (hw : Rewritten e fuel keyPath key 384 r v u v') :
    (r ≠ some 0 ∧ Untouched e w keyPath certPath tokenFile (t ++ u) v') ∨
      KeyStored e w keyPath certPath tokenFile (t ++ u) v' key cert :=
  (untouched_of_silent keyPath certPath tokenFile h.chain h.silent).writeKey hapart
    h.requested.produced.1 h.requested.produced.2 hw.written.writeEnd hw.chain

/-- How far an enrollment gets. -/
inductive Phases (e : Env) (w : World) (fuel : ℕ) (cfg : OtaConfig)
    (tokenFile keyPath certPath : CStr) (force : Bool) (r : Option ℤ) : Trace → World → Prop where
  | early (t : Trace) (v : World) (hr : r ≠ some 0) (hc : Chain (exec e) w t v)
      (hsilent : ∀ s ∈ t, Silent e s.call) (hret : r ≠ none) :
      Phases e w fuel cfg tokenFile keyPath certPath force r t v
  | atKey (t u : Trace) (v₁ v : World) (key cert : CStr) (r₁ : Option ℤ) (hr : r ≠ some 0)
      (hr₁ : r₁ ≠ some 0) (hready : Ready e w cfg keyPath certPath force key cert t v₁)
      (hkey : Rewritten e fuel keyPath key 384 r₁ v₁ u v) (hret : r = none ↔ r₁ = none) :
      Phases e w fuel cfg tokenFile keyPath certPath force r (t ++ u) v
  | atCert (t u x : Trace) (v₁ v₂ v : World) (key cert : CStr) (r₂ : Option ℤ) (hr : r ≠ some 0)
      (hr₂ : r₂ ≠ some 0) (hready : Ready e w cfg keyPath certPath force key cert t v₁)
      (hkey : Rewritten e fuel keyPath key 384 (some 0) v₁ u v₂)
      (hcert : Rewritten e fuel certPath cert 420 r₂ v₂ x v) (hret : r = none ↔ r₂ = none) :
      Phases e w fuel cfg tokenFile keyPath certPath force r (t ++ (u ++ x)) v
  | atToken (t u x : Trace) (v₁ v₂ v₃ v : World) (key cert : CStr) (reply : Except Errno Unit)
      (hr : r = some 0 → reply = .ok () ∨ reply = .error .enoent)
      (hready : Ready e w cfg keyPath certPath force key cert t v₁)
      (hkey : Rewritten e fuel keyPath key 384 (some 0) v₁ u v₂)
      (hcert : Rewritten e fuel certPath cert 420 (some 0) v₂ x v₃)
      (htoken : exec e v₃ (.unlink tokenFile) = (reply, v)) (hret : r ≠ none) :
      Phases e w fuel cfg tokenFile keyPath certPath force r
        (t ++ (u ++ (x ++ [⟨v₃, .unlink tokenFile, reply, v⟩]))) v

theorem otaFetchEnroll_phases (e : Env) (w : World) (fuel : ℕ) (cfg : OtaConfig)
    (tokenFile keyPath certPath : CStr) (force : Bool) (hkey : cfg.tlsClientKey = some keyPath)
    (hcert : cfg.tlsClientCert = some certPath) :
    Yields (exec e) w (otaFetchEnroll e.cjson fuel cfg (some tokenFile) force)
      (Phases e w fuel cfg tokenFile keyPath certPath force) := by
  unfold otaFetchEnroll
  rw [hkey, hcert]
  dsimp only
  refine Yields.bind _ ((refusesIdentity_yields e w force keyPath certPath).and (Yields.of_obeys
    (refusesIdentity_obeys (E := Lawful e) e force keyPath certPath) (exec_lawful e))) ?_
  intro r₁ t₁ w₁ h₁ hc₁
  obtain ⟨hfresh, -, haside⟩ := h₁
  have hsilent₁ : ∀ s ∈ t₁, Silent e s.call := fun s hs => (haside s hs).1
  split
  · refine Yields.ret ?_
    rw [List.append_nil]
    exact .early _ _ (by simp) hc₁ hsilent₁ (by simp)
  rename_i hgo
  refine Yields.bind _ ((requestIdentity_requested e w₁ cfg tokenFile).and (Yields.of_obeys
    (requestIdentity_obeys (E := Lawful e) e e.cjson cfg tokenFile) (exec_lawful e))) ?_
  intro r₂ t₂ w₂ h₂ hc₂
  obtain ⟨hrequested, -, hsilent₂⟩ := h₂
  have hc : Chain (exec e) w (t₁ ++ t₂) w₂ := Chain.append_iff.mpr ⟨w₁, hc₁, hc₂⟩
  have hsilent : ∀ s ∈ t₁ ++ t₂, Silent e s.call := by
    rw [List.forall_mem_append]
    exact ⟨hsilent₁, hsilent₂⟩
  split
  · refine Yields.ret ?_
    rw [List.append_nil]
    exact .early _ _ (by simp) hc hsilent (by simp)
  rename_i key cert
  have hready : Ready e w cfg keyPath certPath force key cert (t₁ ++ t₂) w₂ :=
    ⟨hc, hsilent, hfresh (Bool.not_eq_true _ ▸ hgo), (hrequested key cert rfl).after haside⟩
  refine Yields.bind _ (writeFileAtomic_rewritten e w₂ fuel keyPath key 384) ?_
  intro r₃ t₃ w₃ h₃ _
  have hstop₃ : ∀ {r : Option ℤ}, r ≠ some 0 → r₃ ≠ some 0 → (r = none ↔ r₃ = none) →
      Phases e w fuel cfg tokenFile keyPath certPath force r (t₁ ++ (t₂ ++ (t₃ ++ []))) w₃ := by
    intro r hr hr₃ hret
    rw [List.append_nil, ← List.append_assoc]
    exact .atKey _ _ _ _ key cert r₃ hr hr₃ hready h₃ hret
  split
  · exact Yields.ret (hstop₃ (by simp) (by simp) (by simp))
  rename_i rc
  split
  · rename_i hrc
    exact Yields.ret (hstop₃ (by simp) (by simpa using hrc) (by simp))
  rename_i hrc
  obtain rfl : rc = 0 := not_not.mp hrc
  refine Yields.bind _ (writeFileAtomic_rewritten e w₃ fuel certPath cert 420) ?_
  intro r₄ t₄ w₄ h₄ _
  have hstop₄ : ∀ {r : Option ℤ}, r ≠ some 0 → r₄ ≠ some 0 → (r = none ↔ r₄ = none) →
      Phases e w fuel cfg tokenFile keyPath certPath force r
        (t₁ ++ (t₂ ++ (t₃ ++ (t₄ ++ [])))) w₄ := by
    intro r hr hr₄ hret
    rw [List.append_nil, ← List.append_assoc]
    exact .atCert _ _ _ _ _ _ key cert r₄ hr hr₄ hready h₃ h₄ hret
  split
  · exact Yields.ret (hstop₄ (by simp) (by simp) (by simp))
  rename_i rc
  split
  · rename_i hrc
    exact Yields.ret (hstop₄ (by simp) (by simpa using hrc) (by simp))
  rename_i hrc
  obtain rfl : rc = 0 := not_not.mp hrc
  refine Yields.call ?_
  intro r₅ w₅ hx₅
  have hend : ∀ {rc : ℤ}, (some rc = some 0 → r₅ = .ok () ∨ r₅ = .error .enoent) →
      Phases e w fuel cfg tokenFile keyPath certPath force (some rc)
        (t₁ ++ (t₂ ++ (t₃ ++ (t₄ ++ [⟨w₄, .unlink tokenFile, r₅, w₅⟩])))) w₅ := by
    intro rc hr
    rw [← List.append_assoc]
    exact .atToken _ _ _ _ _ _ _ key cert r₅ hr hready h₃ h₄ hx₅ (by simp)
  split
  · exact Yields.ret (hend fun _ => .inl rfl)
  · exact Yields.ret (hend fun _ => .inr rfl)
  · exact Yields.ret (hend (by simp))

/-- Both files of the identity are as they were. -/
def Kept (e : Env) (w v : World) (keyPath certPath : CStr) : Prop :=
  contentAt e v keyPath = contentAt e w keyPath ∧ contentAt e v certPath = contentAt e w certPath

/-- Both files are the ones that the run has produced. -/
def Renewed (e : Env) (t : Trace) (v : World) (keyPath certPath : CStr) : Prop :=
  ∃ newKey newCert, producedKey t = some newKey ∧ producedCert e.cjson t = some newCert ∧
    contentAt e v keyPath = some newKey ∧ contentAt e v certPath = some newCert

/-- The identity is the old one or the new one, and a token is gone only after
the new one is in place. -/
structure Unmixed (e : Env) (w : World) (keyPath certPath tokenFile : CStr) (t : Trace)
    (v : World) : Prop where
  identity : Kept e w v keyPath certPath ∨ Renewed e t v keyPath certPath
  token : contentAt e w tokenFile ≠ none → contentAt e v tokenFile = none →
    Renewed e t v keyPath certPath

/-- The new key is in place, and neither the certificate nor the token has changed. -/
structure KeyAlone (e : Env) (w : World) (keyPath certPath tokenFile : CStr) (t : Trace)
    (v : World) : Prop where
  key : ∃ newKey, producedKey t = some newKey ∧ contentAt e v keyPath = some newKey
  cert : contentAt e v certPath = contentAt e w certPath
  token : contentAt e v tokenFile = contentAt e w tokenFile

/-- What is called after the rename onto the key and before the rename onto the
certificate, or to the end. -/
def between (keyPath certPath : CStr) (t : Trace) : Trace :=
  ((t.dropWhile fun s => !moves keyPath s).drop 1).takeWhile fun s => !moves certPath s

/-- Once the new key is in place nothing stands in the way of the certificate: its
path fits, and no call on the way to its rename fails. -/
def Spared (keyPath certPath : CStr) (t : Trace) : Prop :=
  Moved keyPath t → FitsBuffer certPath ∧ AllWell (between keyPath certPath t)

instance (keyPath certPath : CStr) (t : Trace) : Decidable (Spared keyPath certPath t) :=
  inferInstanceAs (Decidable (_ → _))

/-- A run in which no call fails is one of these. -/
lemma spared_of_allWell {keyPath certPath : CStr} {t : Trace} (hfits : FitsBuffer certPath)
    (h : AllWell t) : Spared keyPath certPath t := by
  refine fun _ => ⟨hfits, fun s hs => h s ?_⟩
  exact (List.dropWhile_sublist _).mem (List.mem_of_mem_drop ((List.takeWhile_sublist _).mem hs))

lemma takeWhile_before {path : CStr} {t : Trace} {s : Step Call Resp World} (u : Trace)
    (ht : ∀ x ∈ t, moves path x = false) (hs : moves path s = true) :
    ((t ++ s :: u).takeWhile fun x => !moves path x) = t := by
  rw [List.takeWhile_append_of_pos (by simpa using ht), List.takeWhile_cons_of_neg (by simp [hs]),
    List.append_nil]

lemma takeWhile_all {path : CStr} {t : Trace} (ht : ∀ x ∈ t, moves path x = false) :
    (t.takeWhile fun x => !moves path x) = t :=
  List.takeWhile_eq_self_iff.mpr (by simpa using ht)

lemma not_moved_iff {path : CStr} {t : Trace} :
    ¬ Moved path t ↔ ∀ x ∈ t, moves path x = false := by
  rw [moved_iff]
  simp

/-- After the key's rename the rest of the trace decides. -/
lemma spared_iff {keyPath certPath : CStr} {t u : Trace} {s : Step Call Resp World}
    (ht : ∀ x ∈ t, moves keyPath x = false) (hs : moves keyPath s = true) :
    Spared keyPath certPath (t ++ s :: u) ↔
      FitsBuffer certPath ∧ AllWell (u.takeWhile fun x => !moves certPath x) := by
  have hmoved : Moved keyPath (t ++ s :: u) := (moved_iff _ _).mpr ⟨s, by simp, hs⟩
  have hdrop : ((t ++ s :: u).dropWhile fun x => !moves keyPath x) = s :: u := by
    rw [List.dropWhile_append_of_pos (by simpa using ht), List.dropWhile_cons_of_neg (by simp [hs])]
  rw [Spared, between, hdrop, List.drop_one, List.tail_cons]
  exact ⟨fun h => h hmoved, fun h _ => h⟩

/-- The key's replacement ended well, and `u` follows its rename. -/
lemma spared_after_key {keyPath : CStr} (certPath : CStr) {t u : Trace} (y : Trace)
    (ht : ¬ Moved keyPath t) (hu : Accounted keyPath (some 0) u) :
    ∃ z, AllWell z ∧ (∀ x ∈ z, x ∈ u) ∧ (Spared keyPath certPath (t ++ (u ++ y)) ↔
      FitsBuffer certPath ∧ AllWell ((z ++ y).takeWhile fun x => !moves certPath x)) := by
  cases hu with
  | unmoved _ hr => exact absurd rfl hr
  | moved a z s hfits ha hwell hs hfail =>
    refine ⟨z, hfail.mp rfl, fun x hx => by simp [hx], ?_⟩
    have hpre : ∀ x ∈ t ++ a, moves keyPath x = false :=
      List.forall_mem_append.mpr ⟨not_moved_iff.mp ht, ha⟩
    rw [← spared_iff hpre hs]
    simp only [List.append_assoc, List.cons_append]

/-- The three ways a run that returns can leave the identity, told by the calls that
failed. -/
inductive Verdict (e : Env) (w : World) (keyPath certPath tokenFile : CStr) (t : Trace)
    (v : World) : Prop where
  | untouched (hspared : Spared keyPath certPath t)
      (h : Untouched e w keyPath certPath tokenFile t v)
  | keyStored (newKey newCert : CStr) (hspared : ¬ Spared keyPath certPath t)
      (h : KeyStored e w keyPath certPath tokenFile t v newKey newCert)
  | bothStored (newKey newCert : CStr) (hspared : Spared keyPath certPath t)
      (h : BothStored e keyPath certPath t v newKey newCert)

lemma Untouched.verdict {e : Env} {w v : World} {keyPath certPath tokenFile : CStr} {t : Trace}
    (h : Untouched e w keyPath certPath tokenFile t v) :
    Verdict e w keyPath certPath tokenFile t v :=
  .untouched (fun hmoved => absurd hmoved h.keyUnmoved) h

/-- A replacement of the key that gives up behind its rename. -/
lemma KeyStored.verdict_key {e : Env} {w v : World} {keyPath certPath tokenFile : CStr}
    {t u : Trace} {newKey newCert : CStr} {r : Option ℤ}
    (h : KeyStored e w keyPath certPath tokenFile (t ++ u) v newKey newCert)
    (ht : ¬ Moved keyPath t) (hu : Accounted keyPath r u) (hr : r ≠ some 0) :
    Verdict e w keyPath certPath tokenFile (t ++ u) v := by
  refine .keyStored newKey newCert ?_ h
  cases hu with
  | unmoved _ _ hun =>
    have hmoved := h.keyMoved
    rw [moved_append] at hmoved
    exact absurd hmoved (not_or.mpr ⟨ht, not_moved_iff.mpr hun⟩)
  | moved a z s hfits ha hwell hs hfail =>
    have hpre : ∀ x ∈ t ++ a, moves keyPath x = false :=
      List.forall_mem_append.mpr ⟨not_moved_iff.mp ht, ha⟩
    have hcert : ∀ x ∈ z, moves certPath x = false := by
      intro x hx
      exact not_moved_iff.mp h.certUnmoved x (by simp [hx])
    rw [← List.append_assoc, spared_iff hpre hs, takeWhile_all hcert, ← hfail]
    exact fun hspared => hr hspared.2

/-- Which of the two ways the replacement of the certificate goes is decided by
the calls up to its rename. -/
lemma spared_after_cert {keyPath certPath : CStr} {t u x y : Trace} {r : Option ℤ}
    (ht : ¬ Moved keyPath t) (hu : Accounted keyPath (some 0) u)
    (hcert : ¬ Moved certPath u) (hx : Accounted certPath r x) (hy : ¬ Moved certPath y) :
    Spared keyPath certPath (t ++ (u ++ (x ++ y))) ↔ Moved certPath x := by
  obtain ⟨z, hwell, hsub, hspared⟩ := spared_after_key certPath (x ++ y) ht hu
  have hz : ∀ s ∈ z, moves certPath s = false :=
    fun s hs => not_moved_iff.mp hcert s (hsub s hs)
  rw [hspared]
  cases hx with
  | unmoved _ hr hun hfail =>
    have hall : ∀ s ∈ z ++ (x ++ y), moves certPath s = false := by
      simp only [List.forall_mem_append]
      exact ⟨hz, hun, not_moved_iff.mp hy⟩
    rw [takeWhile_all hall, allWell_append, allWell_append]
    exact iff_of_false (fun h => hfail h.1 h.2.2.1) (not_moved_iff.mpr hun)
  | moved a b s hfits ha hwellA hs hfail =>
    have hpre : ∀ s ∈ z ++ a, moves certPath s = false := List.forall_mem_append.mpr ⟨hz, ha⟩
    have htake := takeWhile_before (b ++ y) hpre hs
    simp only [List.append_assoc, List.cons_append] at htake ⊢
    rw [htake, allWell_append]
    exact iff_of_true ⟨hfits, hwell, hwellA⟩ ((moved_iff _ _).mpr ⟨s, by simp, hs⟩)

theorem otaFetchEnroll_verdict (e : Env) (w : World) (fuel : ℕ) (cfg : OtaConfig)
    (tokenFile keyPath certPath : CStr) (force : Bool) (hkey : cfg.tlsClientKey = some keyPath)
    (hcert : cfg.tlsClientCert = some certPath)
    (hapart : PathsApart e.cwd keyPath certPath tokenFile) :
    Yields (exec e) w (otaFetchEnroll e.cjson fuel cfg (some tokenFile) force)
      (fun r t v => r ≠ none → Verdict e w keyPath certPath tokenFile t v) := by
  refine (otaFetchEnroll_phases e w fuel cfg tokenFile keyPath certPath force hkey hcert).mono ?_
  intro r t v h hreturned
  have hplaces := hapart
  simp only [PathsApart, List.nodup_cons, List.mem_cons, List.not_mem_nil, or_false, not_or]
    at hplaces
  obtain ⟨⟨hkc, -⟩, ⟨-, hck, -⟩, -⟩ := hplaces
  cases h with
  | early _ _ hr hc hsilent => exact (untouched_of_silent _ _ _ hc hsilent).verdict
  | atKey t u v₁ _ key cert r₁ hr hr₁ hready hkey hret =>
    have hun := not_moved_of_silent hready.silent keyPath
    rcases hready.writeKey tokenFile hapart hkey with ⟨-, h⟩ | h
    · exact h.verdict
    · exact h.verdict_key hun (hkey.written.accounted fun h => hreturned (hret.mpr h)) hr₁
  | atCert t u x v₁ v₂ _ key cert r₂ hr hr₂ hready hkey hcert hret =>
    have hun := not_moved_of_silent hready.silent keyPath
    have hstored := (hready.writeKey tokenFile hapart hkey).resolve_left fun h => h.1 rfl
    have hsecond := hstored.writeCert hapart hcert.written.writeEnd hcert.chain
    have hspared := spared_after_cert (y := []) hun (hkey.written.accounted (by simp))
      (hkey.written.writeEnd.not_moved_of_ne hck (Ne.symm hkc))
      (hcert.written.accounted fun h => hreturned (hret.mpr h)) (by simp [Moved])
    rw [List.append_nil] at hspared
    rw [List.append_assoc] at hsecond
    rcases hsecond with ⟨-, h⟩ | h
    · refine .keyStored key cert ?_ h
      rw [hspared]
      exact fun hmoved => h.certUnmoved (by simp [moved_append, hmoved])
    · refine .bothStored key cert ?_ h
      have hmoved := h.certMoved
      rw [← List.append_assoc, moved_append] at hmoved
      exact hspared.mpr (hmoved.resolve_left hstored.certUnmoved)
  | atToken t u x v₁ v₂ v₃ _ key cert reply hr hready hkey hcert htoken hret =>
    have hun := not_moved_of_silent hready.silent keyPath
    have hstored := (hready.writeKey tokenFile hapart hkey).resolve_left fun h => h.1 rfl
    have hboth := (hstored.writeCert hapart hcert.written.writeEnd hcert.chain).resolve_left
      fun h => h.1 rfl
    have hlast := hboth.unlinkToken hapart htoken
    have hspared := spared_after_cert (y := [⟨v₃, .unlink tokenFile, reply, v⟩]) hun
      (hkey.written.accounted (by simp))
      (hkey.written.writeEnd.not_moved_of_ne hck (Ne.symm hkc))
      (hcert.written.accounted (by simp)) (not_moved_iff.mpr (by simp [moves, Step.event]))
    have hmoved := hboth.certMoved
    rw [moved_append] at hmoved
    rw [List.append_assoc, List.append_assoc] at hlast
    exact .bothStored key cert (hspared.mpr (hmoved.resolve_left hstored.certUnmoved)) hlast

/-- A run that does not return is being interrupted while it writes one of its files. -/
lemma otaFetchEnroll_unreturned (e : Env) (w : World) (fuel : ℕ) (cfg : OtaConfig)
    (tokenFile keyPath certPath : CStr) (force : Bool) (hkey : cfg.tlsClientKey = some keyPath)
    (hcert : cfg.tlsClientCert = some certPath) :
    Yields (exec e) w (otaFetchEnroll e.cjson fuel cfg (some tokenFile) force)
      (fun r t _ => r = none → ∃ data, (producedKey t = some data ∨
        producedCert e.cjson t = some data) ∧ fuel ≤ data.length + t.countP interrupted) := by
  refine (otaFetchEnroll_phases e w fuel cfg tokenFile keyPath certPath force hkey hcert).mono ?_
  intro r t v h hnone
  cases h with
  | early _ _ hr hc hsilent hret => exact absurd hnone hret
  | atKey t u v₁ _ key cert r₁ hr hr₁ hready hkey hret =>
    have hle := hkey.written.cut (hret.mp hnone)
    refine ⟨key, .inl (producedKey_append hready.requested.produced.1 u), ?_⟩
    rw [List.countP_append]
    omega
  | atCert t u x v₁ v₂ _ key cert r₂ hr hr₂ hready hkey hcert hret =>
    have hle := hcert.written.cut (hret.mp hnone)
    refine ⟨cert, .inr (producedCert_append hready.requested.produced.2 _), ?_⟩
    rw [List.countP_append, List.countP_append]
    omega
  | atToken t u x v₁ v₂ v₃ _ key cert reply hr hready hkey hcert htoken hret =>
    exact absurd hnone hret

/-- An enrollment that returns leaves no mixed identity if, once the new key is in
place, the certificate's path fits and no call up to the certificate's rename
fails. Otherwise the new key is left alone. Only interrupted writes can keep the
function from returning. -/
theorem otaFetchEnroll_unmixed_when_spared (e : Env) (w : World) (fuel : ℕ) (cfg : OtaConfig)
    (tokenFile keyPath certPath : CStr) (force : Bool) (hkey : cfg.tlsClientKey = some keyPath)
    (hcert : cfg.tlsClientCert = some certPath)
    (hapart : PathsApart e.cwd keyPath certPath tokenFile) :
    let o := run (exec e) (otaFetchEnroll e.cjson fuel cfg (some tokenFile) force) w
    (o.value ≠ none → Spared keyPath certPath o.trace →
      Unmixed e w keyPath certPath tokenFile o.trace o.final) ∧
    (o.value ≠ none → ¬ Spared keyPath certPath o.trace →
      KeyAlone e w keyPath certPath tokenFile o.trace o.final) ∧
    (o.value = none → ∃ data, (producedKey o.trace = some data ∨
      producedCert e.cjson o.trace = some data) ∧
      fuel ≤ data.length + o.trace.countP interrupted) := by
  intro o
  have hend : o.value ≠ none → Verdict e w keyPath certPath tokenFile o.trace o.final :=
    otaFetchEnroll_verdict e w fuel cfg tokenFile keyPath certPath force hkey hcert hapart
  refine ⟨?_, ?_,
    otaFetchEnroll_unreturned e w fuel cfg tokenFile keyPath certPath force hkey hcert⟩
  · intro hret hspared
    cases hend hret with
    | untouched _ h =>
      refine ⟨.inl ⟨h.key, h.cert⟩, ?_⟩
      intro hsome hnone
      rw [h.token] at hnone
      exact absurd hnone hsome
    | keyStored newKey newCert hfault h => exact absurd hspared hfault
    | bothStored newKey newCert _ h =>
      have hnew : Renewed e o.trace o.final keyPath certPath :=
        ⟨newKey, newCert, h.producedKey, h.producedCert, h.key, h.cert⟩
      exact ⟨.inr hnew, fun _ _ => hnew⟩
  · intro hret hfault
    cases hend hret with
    | untouched hspared h => exact absurd hspared hfault
    | keyStored newKey newCert _ h => exact ⟨⟨newKey, h.producedKey, h.key⟩, h.cert, h.token⟩
    | bothStored newKey newCert hspared h => exact absurd hspared hfault

/-- A device without an identity, with a token. -/
def enrollConfig : OtaConfig :=
  { blankConfig with
    serverUrl := some (text "u")
    tlsClientKey := some (text "id/key")
    tlsClientCert := some (text "id/crt")
    deviceId := some (text "cam") }

def enrollTree : Tree CStr FileRec := bareTree.put [text "tok"] ⟨text "t", 384⟩

/-- The answer of a server that issues a certificate. -/
def issued : List (CStr × Json) := [(text "client_cert_pem", .str (text "crt"))]

/-- The server issues a certificate, and every call succeeds. -/
def enrollEnv : Env :=
  .calm (fun _ _ => ⟨[(Json.obj issued).print], 0, 200⟩) (.ofObject issued)

lemma enrollPaths_apart : PathsApart [] (text "id/key") (text "id/crt") (text "tok") := by
  unfold PathsApart
  decide

theorem otaFetchEnroll_unmixed_calm :
    (run (exec enrollEnv) (otaFetchEnroll enrollEnv.cjson 100 enrollConfig (some (text "tok"))
        false) (.at enrollTree)).value = some 0 ∧
      Unmixed enrollEnv (.at enrollTree) (text "id/key") (text "id/crt") (text "tok")
        (run (exec enrollEnv) (otaFetchEnroll enrollEnv.cjson 100 enrollConfig (some (text "tok"))
          false) (.at enrollTree)).trace
        (run (exec enrollEnv) (otaFetchEnroll enrollEnv.cjson 100 enrollConfig (some (text "tok"))
          false) (.at enrollTree)).final := by
  have hvalue : (run (exec enrollEnv) (otaFetchEnroll enrollEnv.cjson 100 enrollConfig
      (some (text "tok")) false) (.at enrollTree)).value = some 0 := by decide +kernel
  have hwell : AllWell (run (exec enrollEnv) (otaFetchEnroll enrollEnv.cjson 100 enrollConfig
      (some (text "tok")) false) (.at enrollTree)).trace := by decide +kernel
  obtain ⟨hunmixed, -⟩ := otaFetchEnroll_unmixed_when_spared enrollEnv (.at enrollTree) 100
    enrollConfig (text "tok") (text "id/key") (text "id/crt") false rfl rfl enrollPaths_apart
  exact ⟨hvalue, hunmixed (by rw [hvalue]; simp) (spared_of_allWell (by decide) hwell)⟩

/-- The disk is full when the certificate is to be written. -/
def fullEnv : Env :=
  { enrollEnv with
    fault := fun _ c =>
      match c with
      | .openWrite p _ => if p = text "id/crt.tmp" then some .enospc else none
      | _ => none }

/-- A new key is left without a certificate. -/
theorem otaFetchEnroll_mixes :
    (run (exec fullEnv) (otaFetchEnroll fullEnv.cjson 100 enrollConfig (some (text "tok"))
        false) (.at enrollTree)).value = some (-1) ∧
      ¬ Unmixed fullEnv (.at enrollTree) (text "id/key") (text "id/crt") (text "tok")
        (run (exec fullEnv) (otaFetchEnroll fullEnv.cjson 100 enrollConfig (some (text "tok"))
          false) (.at enrollTree)).trace
        (run (exec fullEnv) (otaFetchEnroll fullEnv.cjson 100 enrollConfig (some (text "tok"))
          false) (.at enrollTree)).final := by
  have hold : contentAt fullEnv (.at enrollTree) (text "id/key") = none := by decide +kernel
  have hkey : contentAt fullEnv (run (exec fullEnv) (otaFetchEnroll fullEnv.cjson 100 enrollConfig
      (some (text "tok")) false) (.at enrollTree)).final (text "id/key") = some (text "key") := by
    decide +kernel
  have hcrt : contentAt fullEnv (run (exec fullEnv) (otaFetchEnroll fullEnv.cjson 100 enrollConfig
      (some (text "tok")) false) (.at enrollTree)).final (text "id/crt") = none := by
    decide +kernel
  refine ⟨by decide +kernel, ?_⟩
  intro hun
  rcases hun.identity with ⟨hk, -⟩ | ⟨k, c, -, -, -, hc⟩
  · rw [hkey, hold] at hk
    cases hk
  · rw [hcrt] at hc
    cases hc

end OtaFetch.Enroll
