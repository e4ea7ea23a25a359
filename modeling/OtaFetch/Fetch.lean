import OtaFetch.Machine
import OtaFetch.Config

/-!
# Downloading a file

`fetch_file` writes the body to `dest.tmp` through a buffered stream and renames
it into place. Everything the client trusts on disk arrives through it. A
transfer ends with `CURLE_WRITE_ERROR` when the write callback takes less than
the chunk it is given.
-/
namespace OtaFetch.Fetch
open CPath FileTree Interaction Machine Config

def buildPath (dir file : Option CStr) : Proc (Option CStr) :=
  match dir, file with
  | some d, some f => do
    if ← call .malloc then pure (some (join d f)) else pure none
  | _, _ => pure none

/-- `mkdir`, where an existing entry counts as done. -/
def mkdirOne (path : CStr) (mode : ℕ) : Proc Bool := do
  match ← call (.mkdir path mode) with
  | .ok () => pure true
  | .error .eexist => pure true
  | .error _ => pure false

/-- The loop over `temp`: `done` lies before the cursor and `rest` after it. -/
def mkdirLoop (mode : ℕ) : CStr → CStr → Proc ℤ
  | done, [] => do
    if ← mkdirOne done mode then pure 0 else pure (-1)
  | done, c :: rest =>
    if c = slash then do
      if ← mkdirOne done mode then mkdirLoop mode (done ++ [c]) rest else pure (-1)
    else mkdirLoop mode (done ++ [c]) rest

/-- One trailing slash goes, except from the root. -/
def dropSlash (path : CStr) : CStr :=
  if 1 < path.length ∧ path.getLast? = some slash then path.dropLast else path

def mkdirP (path : CStr) (mode : ℕ) : Proc ℤ :=
  if path = [] then pure (-1)
  else if pathMax ≤ path.length then pure (-1)
  else
    let temp := dropSlash path
    mkdirLoop mode (temp.take 1) (temp.drop 1)

/-- The copy into `dir[PATH_MAX]` cuts a path that is too long. -/
def ensureParentDirExists (destPath : CStr) : Proc ℤ :=
  match cutLast (destPath.take (pathMax - 1)) with
  | none => pure 0
  | some dir => if dir = [] then pure 0 else mkdirP dir 493

def fileWriteCallback (contents : Bytes) (fp : Stream) : Proc (ℕ × Stream) :=
  if contents = [] then pure (0, fp) else call (.fwrite fp contents)

def curleOk : ℕ := 0
def curleWriteError : ℕ := 23

/-- Hand the chunks to the callback until one is not taken whole. -/
def deliver : List Bytes → Stream → Proc (Bool × Stream)
  | [], fp => pure (true, fp)
  | chunk :: rest, fp => do
    let (n, fp) ← fileWriteCallback chunk fp
    if n = chunk.length then deliver rest fp else pure (false, fp)

/-- How a transfer ended, and the stream as it left it. -/
structure Performed where
  result : ℕ
  status : ℤ
  fp : Stream

def curlEasyPerform (req : CurlRequest) (fp : Stream) : Proc Performed := do
  let t ← call (.perform req)
  let (taken, fp) ← deliver t.chunks fp
  pure ⟨if taken then t.result else curleWriteError, t.status, fp⟩

/-- The options `fetch_file` sets. -/
def fetchRequest (url : CStr) (cfg : OtaConfig) (showProgress : Bool) : CurlRequest where
  url := url
  followLocation := true
  failOnError := true
  connectTimeout := some cfg.connectTimeout
  timeout := some cfg.transferTimeout
  lowSpeed :=
    if 0 < cfg.lowSpeedLimit ∧ 0 < cfg.lowSpeedTime then
      some (cfg.lowSpeedLimit, cfg.lowSpeedTime)
    else none
  sslCert := cfg.tlsClientCert
  sslKey := cfg.tlsClientKey
  caInfo := cfg.tlsCaCert
  showProgress := showProgress
  headers := []
  postFields := none

def closeIfOpen (fp : Option Stream) : Proc Unit :=
  match fp with
  | some fp => do
    let _ ← call (.fclose fp)
    pure ()
  | none => pure ()

/-- The label `cleanup`, reached with `rc != 0`. -/
def fetchCleanup (tmpPath : CStr) (fp : Option Stream) : Proc ℤ := do
  closeIfOpen fp
  let _ ← call (.unlink tmpPath)
  pure (-1)

/-- `fetch_file` from the point where the temporary file is open. -/
def fetchOpened (url destPath : CStr) (cfg : OtaConfig) (showProgress : Bool) (fp : Stream) :
    Proc ℤ := do
  let tmpPath := tmpOf destPath
  if !(← call .curlInit) then fetchCleanup tmpPath (some fp)
  else
    let res ← curlEasyPerform (fetchRequest url cfg showProgress) fp
    if res.result ≠ curleOk then fetchCleanup tmpPath (some res.fp)
    else if res.status < 200 ∨ 300 ≤ res.status then fetchCleanup tmpPath (some res.fp)
    else
      let (flushed, fp) ← call (.fflush res.fp)
      match flushed with
      | .error _ => fetchCleanup tmpPath (some fp)
      | .ok () =>
        match ← call (.fclose fp) with
        | .error _ => fetchCleanup tmpPath none
        | .ok () =>
          match ← call (.rename tmpPath destPath) with
          | .error _ => fetchCleanup tmpPath none
          | .ok () => pure 0

def fetchFile (url destPath : CStr) (cfg : OtaConfig) (showProgress : Bool) : Proc ℤ := do
  let rc ← ensureParentDirExists destPath
  if rc ≠ 0 then pure (-1)
  else if !(← call .malloc) then pure (-1)
  else
    match ← call (.fopen (tmpOf destPath)) with
    | .error _ => fetchCleanup (tmpOf destPath) none
    | .ok fp => fetchOpened url destPath cfg showProgress fp

/-- The calls of `mkdir_p`: `mkdir` of the path or of a part of it before a slash. -/
def MkdirCall (path : CStr) (c : Call) : Prop := ∃ u m, c = .mkdir u m ∧ u ≠ [] ∧ Cut u path

/-- Return codes are 0 or -1. -/
def ZeroOrNeg (rc : ℤ) : Prop := rc = 0 ∨ rc = -1

lemma mkdirOne_obeys {E : (c : Call) → Resp c → Prop} {A : Call → Prop} {V : ℤ → Prop}
    {p : CStr} {m : ℕ} {f : Bool → Proc ℤ} (h : A (.mkdir p m))
    (hf : ∀ b, Obeys E A V (f b)) : Obeys E A V (mkdirOne p m >>= f) := by
  refine Obeys.bind (U := fun _ => True) ?_ (fun b _ => hf b)
  unfold mkdirOne
  refine Obeys.call h (fun r _ => ?_)
  split <;> exact Obeys.ret trivial

lemma mkdirLoop_obeys (E : (c : Call) → Resp c → Prop) (m : ℕ) (done rest path : CStr)
    (hne : done ≠ []) (h : Cut (done ++ rest) path) :
    Obeys E (MkdirCall path) ZeroOrNeg (mkdirLoop m done rest) := by
  induction rest generalizing done with
  | nil =>
    rw [List.append_nil] at h
    unfold mkdirLoop
    refine mkdirOne_obeys ⟨done, m, rfl, hne, h⟩ (fun b => ?_)
    split
    · exact Obeys.ret (.inl rfl)
    · exact Obeys.ret (.inr rfl)
  | cons c rest ih =>
    have hnext : Cut (done ++ [c] ++ rest) path := by
      rwa [List.append_assoc, List.singleton_append]
    unfold mkdirLoop
    split_ifs with hc
    · have hdone : Cut done path := by
        subst hc
        exact Cut.trans (.inr ⟨rest, rfl⟩) h
      refine mkdirOne_obeys ⟨done, m, rfl, hne, hdone⟩ (fun b => ?_)
      split
      · exact ih _ (by simp) hnext
      · exact Obeys.ret (.inr rfl)
    · exact ih _ (by simp) hnext

lemma dropSlash_cases (path : CStr) :
    dropSlash path = path ∨ path = dropSlash path ++ [slash] := by
  unfold dropSlash
  split_ifs with h
  · exact .inr (List.dropLast_append_getLast? slash h.2).symm
  · exact .inl rfl

lemma dropSlash_cut (path : CStr) : Cut (dropSlash path) path := by
  rcases dropSlash_cases path with h | h
  · exact .inl h
  · exact .inr ⟨[], h⟩

lemma dropSlash_ne_nil {path : CStr} (h : path ≠ []) : dropSlash path ≠ [] := by
  unfold dropSlash
  split_ifs with hlong
  · apply List.ne_nil_of_length_pos
    rw [List.length_dropLast]
    omega
  · exact h

theorem mkdirP_obeys (E : (c : Call) → Resp c → Prop) (path : CStr) (m : ℕ) :
    Obeys E (MkdirCall path) ZeroOrNeg (mkdirP path m) := by
  unfold mkdirP
  split_ifs with hempty hlong
  · exact Obeys.ret (.inr rfl)
  · exact Obeys.ret (.inr rfl)
  · refine mkdirLoop_obeys E m _ _ path ?_ ?_
    · have hne := dropSlash_ne_nil hempty
      simpa using hne
    · rw [List.take_append_drop]
      exact dropSlash_cut path

/-- Cutting at the buffer's end before looking for the last slash finds a slash
of the path all the same. -/
lemma cutLast_take {dest dir : CStr} {n : ℕ} (h : cutLast (dest.take n) = some dir) :
    Above dir dest := by
  obtain ⟨c, -, hc⟩ := cutLast_some h
  refine ⟨c ++ dest.drop n, ?_⟩
  calc dest = dest.take n ++ dest.drop n := (List.take_append_drop n dest).symm
    _ = dir ++ slash :: (c ++ dest.drop n) := by rw [hc]; simp

theorem ensureParentDirExists_obeys (E : (c : Call) → Resp c → Prop) (dest : CStr) :
    Obeys E (fun c => ∃ u m, c = .mkdir u m ∧ u ≠ [] ∧ Above u dest) ZeroOrNeg
      (ensureParentDirExists dest) := by
  unfold ensureParentDirExists
  split
  · exact Obeys.ret (.inl rfl)
  · rename_i dir hd
    split_ifs
    · exact Obeys.ret (.inl rfl)
    · refine (mkdirP_obeys E dir 493).mono (fun _ _ => id) ?_ (fun _ => id)
      rintro c ⟨u, m, rfl, hne, hu⟩
      exact ⟨u, m, rfl, hne, hu.above (cutLast_take hd)⟩

/-- The calls of a download on the way to its rename. The stream calls go to
the temporary file. -/
inductive TmpCall (e : Env) (req : CurlRequest) (dest : CStr) : Call → Prop where
  | mkdir (u : CStr) (m : ℕ) (hne : u ≠ []) (h : Above u dest) : TmpCall e req dest (.mkdir u m)
  | malloc : TmpCall e req dest .malloc
  | fopen : TmpCall e req dest (.fopen (tmpOf dest))
  | curlInit : TmpCall e req dest .curlInit
  | perform : TmpCall e req dest (.perform req)
  | fwrite (fp : Stream) (b : Bytes) (h : fp.loc = place e.cwd (tmpOf dest)) :
      TmpCall e req dest (.fwrite fp b)
  | fflush (fp : Stream) (h : fp.loc = place e.cwd (tmpOf dest)) :
      TmpCall e req dest (.fflush fp)
  | fclose (fp : Stream) (h : fp.loc = place e.cwd (tmpOf dest)) :
      TmpCall e req dest (.fclose fp)
  | unlink : TmpCall e req dest (.unlink (tmpOf dest))

/-- The calls `fetch_file` can make. -/
def FetchCall (e : Env) (req : CurlRequest) (dest : CStr) (c : Call) : Prop :=
  TmpCall e req dest c ∨ c = .rename (tmpOf dest) dest

lemma fileWriteCallback_obeys {e : Env} {req : CurlRequest} {dest : CStr} (b : Bytes)
    (fp : Stream) (h : fp.loc = place e.cwd (tmpOf dest)) :
    Obeys (Lawful e) (TmpCall e req dest) (fun r => r.2.loc = place e.cwd (tmpOf dest))
      (fileWriteCallback b fp) := by
  unfold fileWriteCallback
  split_ifs
  · exact Obeys.ret h
  · exact Obeys.op (.fwrite fp b h) (fun r hr => hr.trans h)

lemma deliver_obeys {e : Env} {req : CurlRequest} {dest : CStr} (chunks : List Bytes)
    (fp : Stream) (h : fp.loc = place e.cwd (tmpOf dest)) :
    Obeys (Lawful e) (TmpCall e req dest) (fun r => r.2.loc = place e.cwd (tmpOf dest))
      (deliver chunks fp) := by
  induction chunks generalizing fp with
  | nil => exact Obeys.ret h
  | cons chunk rest ih =>
    unfold deliver
    refine (fileWriteCallback_obeys chunk fp h).bind ?_
    intro r hr
    dsimp only
    split_ifs
    · exact ih r.2 hr
    · exact Obeys.ret hr

lemma curlEasyPerform_obeys {e : Env} {req : CurlRequest} {dest : CStr} (fp : Stream)
    (h : fp.loc = place e.cwd (tmpOf dest)) :
    Obeys (Lawful e) (TmpCall e req dest) (fun r => r.fp.loc = place e.cwd (tmpOf dest))
      (curlEasyPerform req fp) := by
  unfold curlEasyPerform
  refine Obeys.call .perform (fun t _ => ?_)
  exact (deliver_obeys t.chunks fp h).bind (fun r hr => Obeys.ret hr)

lemma fetchCleanup_obeys {e : Env} {req : CurlRequest} {dest : CStr} (fp : Option Stream)
    (h : ∀ s, fp = some s → s.loc = place e.cwd (tmpOf dest)) :
    Obeys (Lawful e) (TmpCall e req dest) (· = -1) (fetchCleanup (tmpOf dest) fp) := by
  unfold fetchCleanup
  refine Obeys.bind (U := fun _ => True) ?_ ?_
  · cases fp with
    | none => exact Obeys.ret trivial
    | some s => exact Obeys.call (.fclose s (h s rfl)) (fun _ _ => Obeys.ret trivial)
  · intro _ _
    exact Obeys.call .unlink (fun _ _ => Obeys.ret rfl)

lemma fetchCleanup_obeys' {e : Env} {req : CurlRequest} {dest : CStr} (fp : Option Stream)
    (h : ∀ s, fp = some s → s.loc = place e.cwd (tmpOf dest)) :
    Obeys (Lawful e) (FetchCall e req dest) ZeroOrNeg (fetchCleanup (tmpOf dest) fp) :=
  (fetchCleanup_obeys fp h).mono (fun _ _ => id) (fun _ => .inl) (fun _ => .inr)

lemma fetchOpened_obeys (e : Env) (url dest : CStr) (cfg : OtaConfig) (showProgress : Bool)
    (fp : Stream) (hfp : fp.loc = place e.cwd (tmpOf dest)) :
    Obeys (Lawful e) (FetchCall e (fetchRequest url cfg showProgress) dest) ZeroOrNeg
      (fetchOpened url dest cfg showProgress fp) := by
  unfold fetchOpened
  refine Obeys.call (.inl .curlInit) (fun ok _ => ?_)
  split
  · exact fetchCleanup_obeys' (some fp) (by simpa using hfp)
  refine Obeys.bind ((curlEasyPerform_obeys fp hfp).mono (fun _ _ => id) (fun _ => .inl)
    (fun _ => id)) ?_
  intro res hres
  split
  · exact fetchCleanup_obeys' (some res.fp) (by simpa using hres)
  split
  · exact fetchCleanup_obeys' (some res.fp) (by simpa using hres)
  refine Obeys.call (.inl (.fflush res.fp hres)) ?_
  rintro ⟨flushed, fp'⟩ hfl
  have hfp' : fp'.loc = place e.cwd (tmpOf dest) := hfl.trans hres
  dsimp only
  split
  · exact fetchCleanup_obeys' (some fp') (by simpa using hfp')
  refine Obeys.call (.inl (.fclose fp' hfp')) (fun closed _ => ?_)
  split
  · exact fetchCleanup_obeys' none (by simp)
  refine Obeys.call (.inr rfl) (fun moved _ => ?_)
  split
  · exact fetchCleanup_obeys' none (by simp)
  · exact Obeys.ret (.inl rfl)

/-- Whatever happens, a download touches the temporary file, the destination by
one rename, and missing parent directories. -/
theorem fetchFile_obeys (e : Env) (url dest : CStr) (cfg : OtaConfig) (showProgress : Bool) :
    Obeys (Lawful e) (FetchCall e (fetchRequest url cfg showProgress) dest) ZeroOrNeg
      (fetchFile url dest cfg showProgress) := by
  unfold fetchFile
  refine Obeys.bind (U := fun _ => True) ?_ ?_
  · refine (ensureParentDirExists_obeys _ dest).mono (fun _ _ => id) ?_ (fun _ _ => trivial)
    rintro c ⟨u, m, rfl, hne, hu⟩
    exact .inl (.mkdir u m hne hu)
  intro rc _
  split
  · exact Obeys.ret (.inr rfl)
  refine Obeys.call (.inl .malloc) (fun ok _ => ?_)
  split
  · exact Obeys.ret (.inr rfl)
  refine Obeys.call (.inl .fopen) (fun r hr => ?_)
  split
  · exact fetchCleanup_obeys' none (by simp)
  · rename_i fp
    exact fetchOpened_obeys e url dest cfg showProgress fp (hr fp rfl)

/-- The file behind the stream and the stream's buffer together hold `body`. -/
def Buffered (w : World) (fp : Stream) (body : Bytes) : Prop :=
  ∃ f, w.fs.node fp.loc = some (.file f) ∧ f.data ++ fp.pending = body

lemma fileWriteCallback_yields {e : Env} {w : World} {fp : Stream} {body : Bytes} (b : Bytes)
    (h : Buffered w fp body) :
    Yields (exec e) w (fileWriteCallback b fp)
      (fun r _ v => r.1 = b.length → Buffered v r.2 (body ++ b)) := by
  obtain ⟨f, hf, rfl⟩ := h
  unfold fileWriteCallback
  split_ifs with hb
  · subst hb
    exact fun _ => ⟨f, hf, by simp⟩
  · refine Yields.op ?_
    intro r v hv hn
    cases hv
    have htake : b.take (min (e.accept w.clock) b.length) = b :=
      List.take_of_length_le (le_of_eq hn.symm)
    refine ⟨_, append_node _ hf, ?_⟩
    dsimp only
    rw [htake, List.append_assoc, List.take_append_drop, List.append_assoc]

lemma deliver_yields {e : Env} {w : World} {fp : Stream} {body : Bytes} (chunks : List Bytes)
    (h : Buffered w fp body) :
    Yields (exec e) w (deliver chunks fp)
      (fun r _ v => r.1 = true → Buffered v r.2 (body ++ chunks.flatten)) := by
  induction chunks generalizing w fp body with
  | nil =>
    refine Yields.ret ?_
    simpa using h
  | cons chunk rest ih =>
    unfold deliver
    refine Yields.bind _ (fileWriteCallback_yields chunk h) ?_
    intro r t v hr _
    dsimp only
    split_ifs with hn
    · rw [List.flatten_cons, ← List.append_assoc]
      exact ih (hr hn)
    · exact Yields.ret (by simp)

/-- A transfer that ends well has put every chunk into the stream, in order. -/
lemma curlEasyPerform_yields {e : Env} {w : World} {fp : Stream} (req : CurlRequest)
    (h : Buffered w fp []) :
    Yields (exec e) w (curlEasyPerform req fp)
      (fun res t v => res.result = curleOk → ∃ tr, (∃ s ∈ t, s.event = ⟨.perform req, tr⟩) ∧
        tr.result = curleOk ∧ tr.status = res.status ∧ Buffered v res.fp tr.chunks.flatten) := by
  unfold curlEasyPerform
  refine Yields.call ?_
  intro tr v hv
  have hfs : v.fs = w.fs := by
    cases hv
    rfl
  have hbuf : Buffered v fp [] := by rwa [Buffered, hfs]
  refine Yields.bind _ (deliver_yields tr.chunks hbuf) ?_
  intro r t v' hr _
  refine Yields.ret ?_
  dsimp only
  intro hres
  cases htaken : r.1 with
  | false =>
    rw [htaken, if_neg (by decide)] at hres
    exact absurd hres (by decide)
  | true =>
    rw [htaken] at hres
    exact ⟨tr, ⟨_, List.mem_cons_self .., rfl⟩, hres, rfl, by simpa using hr htaken⟩

/-- The environment never refuses an `unlink`. -/
def SureUnlink (e : Env) : Prop := ∀ n p, e.fault n (.unlink p) = none

/-- How a download ends once its temporary file is open: with everything undone,
or with the rename as its last step. -/
inductive OpenedEnd (e : Env) (req : CurlRequest) (dest : CStr) : ℤ → Trace → World → Prop where
  | failed (t : Trace) (v : World)
      (hcalls : ∀ s ∈ t, TmpCall e req dest s.call ∨
        ∃ err, s.event = ⟨.rename (tmpOf dest) dest, .error err⟩)
      (hclean : SureUnlink e → v.fs.fileAt (place e.cwd (tmpOf dest)) = none) :
      OpenedEnd e req dest (-1) t v
  | stored (t : Trace) (r : Step Call Resp World) (tr : Transfer)
      (hcalls : ∀ s ∈ t, TmpCall e req dest s.call)
      (hreq : ∃ s ∈ t, s.event = ⟨.perform req, tr⟩) (hresult : tr.result = curleOk)
      (hstatus : 200 ≤ tr.status ∧ tr.status < 300)
      (hmove : r.event = ⟨.rename (tmpOf dest) dest, .ok ()⟩)
      (hdest : ∃ f, r.after.fs.node (place e.cwd dest) = some (.file f) ∧
        f.data = tr.chunks.flatten)
      (htmp : r.after.fs.node (place e.cwd (tmpOf dest)) = none) :
      OpenedEnd e req dest 0 (t ++ [r]) r.after

/-- Steps that come before, all of them calls on the way to the rename. -/
lemma OpenedEnd.after {e : Env} {req : CurlRequest} {dest : CStr} {rc : ℤ} {t : Trace}
    {v : World} (h : OpenedEnd e req dest rc t v) {pre : Trace}
    (hpre : ∀ s ∈ pre, TmpCall e req dest s.call) : OpenedEnd e req dest rc (pre ++ t) v := by
  cases h with
  | failed _ _ hcalls hclean =>
    refine .failed _ _ ?_ hclean
    intro s hs
    exact (List.mem_append.mp hs).elim (fun hs => .inl (hpre s hs)) (hcalls s)
  | stored t r tr hcalls hreq hresult hstatus hmove hdest htmp =>
    rw [← List.append_assoc]
    refine .stored _ r tr ?_ ?_ hresult hstatus hmove hdest htmp
    · intro s hs
      exact (List.mem_append.mp hs).elim (hpre s) (hcalls s)
    · obtain ⟨s, hs, hev⟩ := hreq
      exact ⟨s, List.mem_append_right _ hs, hev⟩

lemma OpenedEnd.cons {e : Env} {req : CurlRequest} {dest : CStr} {rc : ℤ} {t : Trace}
    {v : World} (h : OpenedEnd e req dest rc t v) {s : Step Call Resp World}
    (hs : TmpCall e req dest s.call) : OpenedEnd e req dest rc (s :: t) v := by
  have hone : ∀ x ∈ [s], TmpCall e req dest x.call := by simpa using hs
  exact h.after hone

lemma fetchCleanup_yields {e : Env} {w : World} {dest : CStr} (req : CurlRequest)
    (fp : Option Stream) (h : ∀ s, fp = some s → s.loc = place e.cwd (tmpOf dest))
    {q : Path} (hl : locate w.fs e.cwd (tmpOf dest) = .ok q) :
    Yields (exec e) w (fetchCleanup (tmpOf dest) fp) (fun rc t v =>
      rc = -1 ∧ (∀ s ∈ t, TmpCall e req dest s.call) ∧
        (SureUnlink e → v.fs.fileAt (place e.cwd (tmpOf dest)) = none)) := by
  have hobeys : Yields (exec e) w (fetchCleanup (tmpOf dest) fp)
      (fun rc t _ => rc = -1 ∧ ∀ s ∈ t, TmpCall e req dest s.call) :=
    Yields.of_obeys (fetchCleanup_obeys fp h) (exec_lawful e)
  have hgone : Yields (exec e) w (fetchCleanup (tmpOf dest) fp)
      (fun _ _ v => SureUnlink e → v.fs.fileAt (place e.cwd (tmpOf dest)) = none) := by
    unfold fetchCleanup
    refine Yields.bind (fun _ _ _ => True) trivial ?_
    intro _ t v _ hc
    refine Yields.call ?_
    intro r u hu
    refine Yields.ret ?_
    intro hsure
    have hg := exec_unlink_gone (hsure v.clock (tmpOf dest)) (chain_locate hc hl)
    rwa [hu] at hg
  exact ⟨hobeys.1, hobeys.2, hgone⟩

lemma fetchCleanup_end {e : Env} {w : World} {dest : CStr} (req : CurlRequest)
    (fp : Option Stream) (h : ∀ s, fp = some s → s.loc = place e.cwd (tmpOf dest))
    {q : Path} (hl : locate w.fs e.cwd (tmpOf dest) = .ok q) :
    Yields (exec e) w (fetchCleanup (tmpOf dest) fp) (OpenedEnd e req dest) := by
  refine (fetchCleanup_yields req fp h hl).mono ?_
  rintro rc t v ⟨rfl, hcalls, hclean⟩
  exact .failed t v (fun s hs => .inl (hcalls s hs)) hclean

lemma fflush_ok {e : Env} {w v : World} {fp fp' : Stream} {body : Bytes}
    (h : Buffered w fp body) (hx : exec e w (.fflush fp) = ((.ok (), fp'), v)) :
    fp' = ⟨fp.loc, []⟩ ∧ Buffered v fp' body := by
  obtain ⟨f, hf, rfl⟩ := h
  simp only [exec] at hx
  split at hx
  · cases hx
  · cases hx
    refine ⟨rfl, _, append_node _ hf, ?_⟩
    simp

lemma fclose_ok {e : Env} {w v : World} {loc : Path} {body : Bytes}
    (h : Buffered w ⟨loc, []⟩ body) (hx : exec e w (.fclose ⟨loc, []⟩) = (.ok (), v)) :
    ∃ f, v.fs.node loc = some (.file f) ∧ f.data = body := by
  obtain ⟨f, hf, rfl⟩ := h
  simp only [exec] at hx
  split at hx
  · cases hx
  · cases hx
    refine ⟨_, append_node _ hf, ?_⟩
    simp

/-- The rename of a complete temporary file, after the steps `pre`. -/
lemma fetchRename_end {e : Env} {w : World} {req : CurlRequest} {dest : CStr} {tr : Transfer}
    {f : FileRec} {q : Path} {pre : Trace} {k : Except Errno Unit → Proc ℤ}
    (hpre : ∀ s ∈ pre, TmpCall e req dest s.call)
    (hreq : ∃ s ∈ pre, s.event = ⟨.perform req, tr⟩) (hresult : tr.result = curleOk)
    (hstatus : 200 ≤ tr.status ∧ tr.status < 300)
    (hl : locate w.fs e.cwd (tmpOf dest) = .ok q)
    (hf : w.fs.node (place e.cwd (tmpOf dest)) = some (.file f))
    (hdata : f.data = tr.chunks.flatten)
    (herror : ∀ err, k (.error err) = fetchCleanup (tmpOf dest) none)
    (hok : k (.ok ()) = pure 0) :
    Yields (exec e) w (call (.rename (tmpOf dest) dest) >>= k)
      (fun rc t v => OpenedEnd e req dest rc (pre ++ t) v) := by
  refine Yields.call ?_
  intro moved v hx
  cases moved with
  | error err =>
    rw [herror]
    refine (fetchCleanup_yields req none (by simp) (exec_locate hx hl)).mono ?_
    rintro rc t x ⟨rfl, hcalls, hclean⟩
    refine .after (.failed _ x ?_ hclean) hpre
    intro s hs
    rcases List.mem_cons.mp hs with rfl | hs
    · exact .inr ⟨err, rfl⟩
    · exact .inl (hcalls s hs)
  | ok x =>
    obtain ⟨g, hg, hdst, hsrc⟩ := exec_rename_ok hx (place_tmpOf_ne e.cwd dest)
    rw [hg] at hf
    obtain rfl : g = f := by simpa using hf
    rw [hok]
    exact Yields.ret (.stored pre _ tr hpre hreq hresult hstatus rfl ⟨g, hdst, hdata⟩ hsrc)

lemma fetchOpened_yields {e : Env} {w : World} (url dest : CStr) (cfg : OtaConfig)
    (showProgress : Bool) {fp : Stream} (hfp : fp.loc = place e.cwd (tmpOf dest))
    (hbuf : Buffered w fp []) {q : Path} (hl : locate w.fs e.cwd (tmpOf dest) = .ok q) :
    Yields (exec e) w (fetchOpened url dest cfg showProgress fp)
      (OpenedEnd e (fetchRequest url cfg showProgress) dest) := by
  have hfail : ∀ {v : World} {pre : Trace} (fp : Option Stream),
      (∀ s, fp = some s → s.loc = place e.cwd (tmpOf dest)) →
      locate v.fs e.cwd (tmpOf dest) = .ok q →
      (∀ s ∈ pre, TmpCall e (fetchRequest url cfg showProgress) dest s.call) →
      Yields (exec e) v (fetchCleanup (tmpOf dest) fp)
        (fun rc t v => OpenedEnd e (fetchRequest url cfg showProgress) dest rc (pre ++ t) v) := by
    intro v pre fp hfp hl hpre
    exact (fetchCleanup_end _ fp hfp hl).mono (fun _ _ _ h => h.after hpre)
  unfold fetchOpened
  refine Yields.seq_call (u := []) ?_
  intro ok w1 hx1
  have hl1 := exec_locate hx1 hl
  have hcalls1 : ∀ s ∈ ([] ++ [⟨w, .curlInit, ok, w1⟩] : Trace),
      TmpCall e (fetchRequest url cfg showProgress) dest s.call :=
    forall_mem_concat (by simp) .curlInit
  have hbuf1 : Buffered w1 fp [] := by
    cases hx1
    exact hbuf
  split
  · exact hfail (some fp) (by simpa using hfp) hl1 hcalls1
  have hperf := curlEasyPerform_yields (e := e) (fetchRequest url cfg showProgress) hbuf1
  have hobeys : Yields (exec e) w1 (curlEasyPerform (fetchRequest url cfg showProgress) fp)
      (fun res t _ => res.fp.loc = place e.cwd (tmpOf dest) ∧
        ∀ s ∈ t, TmpCall e (fetchRequest url cfg showProgress) dest s.call) :=
    Yields.of_obeys (curlEasyPerform_obeys fp hfp) (exec_lawful e)
  refine Yields.seq_bind _ (hperf.and hobeys) ?_
  rintro res t w2 ⟨hres, hloc, ht⟩ hc
  have hl2 := chain_locate hc hl1
  have hcalls2 := List.forall_mem_append.mpr ⟨hcalls1, ht⟩
  split
  · exact hfail (some res.fp) (by simpa using hloc) hl2 hcalls2
  rename_i hok
  obtain ⟨tr, ⟨s, hs, hreq⟩, htr, hstat, hbuf2⟩ := hres (not_not.mp hok)
  split
  · exact hfail (some res.fp) (by simpa using hloc) hl2 hcalls2
  rename_i hrange
  refine Yields.seq_call ?_
  rintro ⟨flushed, fp3⟩ w3 hx3
  have hl3 := exec_locate hx3 hl2
  have hcalls3 := forall_mem_concat (s := ⟨w2, .fflush res.fp, (flushed, fp3), w3⟩) hcalls2
    (.fflush _ hloc)
  have hfp3 : fp3.loc = place e.cwd (tmpOf dest) := by
    have hlaw : Lawful e (.fflush res.fp) (exec e w2 (.fflush res.fp)).1 := exec_lawful e w2 _
    rw [hx3] at hlaw
    exact hlaw.trans hloc
  dsimp only
  split
  · exact hfail (some fp3) (by simpa using hfp3) hl3 hcalls3
  obtain ⟨rfl, hbuf3⟩ := fflush_ok hbuf2 hx3
  refine Yields.seq_call ?_
  intro closed w4 hx4
  have hl4 := exec_locate hx4 hl3
  have hcalls4 := forall_mem_concat (s := ⟨w3, .fclose ⟨res.fp.loc, []⟩, closed, w4⟩) hcalls3
    (.fclose _ hfp3)
  split
  · exact hfail none (by simp) hl4 hcalls4
  obtain ⟨f, hf, hdata⟩ := fclose_ok hbuf3 hx4
  rw [hloc] at hf
  exact fetchRename_end hcalls4 ⟨s, by simp [hs], hreq⟩ htr (by omega) hl4 hf hdata
    (fun _ => rfl) rfl

/-- A step of a download whose temporary file is not open yet. -/
def EarlyStep (e : Env) (req : CurlRequest) (dest : CStr) (s : Step Call Resp World) : Prop :=
  TmpCall e req dest s.call ∧ ∀ fp, s.event ≠ ⟨.fopen (tmpOf dest), .ok fp⟩

/-- The three ways `fetch_file` can end. -/
inductive FetchEnd (e : Env) (req : CurlRequest) (dest : CStr) : ℤ → Trace → World → Prop where
  | unopened (t : Trace) (v : World) (hsteps : ∀ s ∈ t, EarlyStep e req dest s) :
      FetchEnd e req dest (-1) t v
  | opened (rc : ℤ) (t : Trace) (v : World) (h : OpenedEnd e req dest rc t v) :
      FetchEnd e req dest rc t v

theorem fetchFile_yields (e : Env) (w : World) (url dest : CStr) (cfg : OtaConfig)
    (showProgress : Bool) :
    Yields (exec e) w (fetchFile url dest cfg showProgress)
      (FetchEnd e (fetchRequest url cfg showProgress) dest) := by
  have hens : Yields (exec e) w (ensureParentDirExists dest)
      (fun rc t _ => ZeroOrNeg rc ∧ ∀ s ∈ t, ∃ u m, s.call = .mkdir u m ∧ u ≠ [] ∧ Above u dest) :=
    Yields.of_obeys (ensureParentDirExists_obeys _ dest) (exec_lawful e)
  unfold fetchFile
  refine Yields.bind _ hens ?_
  rintro rc t w1 ⟨-, ht⟩ -
  have hearly : ∀ s ∈ t, EarlyStep e (fetchRequest url cfg showProgress) dest s := by
    rintro ⟨_, c, _, _⟩ hs
    obtain ⟨u, m, rfl, hne, hcut⟩ := ht _ hs
    exact ⟨.mkdir u m hne hcut, fun fp hev => by cases congrArg Sigma.fst hev⟩
  split
  · exact Yields.ret (.unopened _ _ (by simpa using hearly))
  refine Yields.call ?_
  intro ok w2 _
  have hearly2 : ∀ s ∈ t ++ [⟨w1, .malloc, ok, w2⟩],
      EarlyStep e (fetchRequest url cfg showProgress) dest s := by
    intro s hs
    rcases List.mem_append.mp hs with hs | hs
    · exact hearly s hs
    · rw [List.mem_singleton.mp hs]
      exact ⟨.malloc, fun fp hev => by cases congrArg Sigma.fst hev⟩
  split
  · exact Yields.ret (.unopened _ _ hearly2)
  refine Yields.call ?_
  intro r w3 hx3
  split
  · rename_i err
    refine Yields.bind (fun _ t' _ => t' = []) rfl ?_
    rintro _ _ w4 rfl -
    refine Yields.call ?_
    intro r' w5 _
    refine Yields.ret (.unopened _ _ ?_)
    intro s hs
    simp only [List.nil_append, List.mem_append, List.mem_cons, List.not_mem_nil, or_false] at hs
    rcases hs with hs | rfl | rfl | rfl
    · exact hearly s hs
    · exact hearly2 _ (by simp)
    · exact ⟨.fopen, fun fp hev => by cases hev⟩
    · exact ⟨.unlink, fun fp hev => by cases congrArg Sigma.fst hev⟩
  · rename_i fp
    obtain ⟨rfl, hl, f, hf, hdata⟩ := exec_fopen_ok hx3
    have hl3 := exec_locate hx3 hl
    have hbuf : Buffered w3 ⟨place e.cwd (tmpOf dest), []⟩ [] := ⟨f, hf, by simp [hdata]⟩
    refine (fetchOpened_yields url dest cfg showProgress rfl hbuf hl3).mono ?_
    intro rc' t' v h
    have hmalloc : TmpCall e (fetchRequest url cfg showProgress) dest
        (Step.mk w1 Call.malloc ok w2 : Step Call Resp World).call := .malloc
    exact .opened _ _ _ (((h.cons .fopen).cons hmalloc).after fun s hs => (hearly s hs).1)

lemma tmpCall_writes {e : Env} {req : CurlRequest} {dest : CStr} {c : Call}
    (h : TmpCall e req dest c) {q : Path} (hw : Writes e c q) : q = place e.cwd (tmpOf dest) := by
  cases h with
  | mkdir u m hne h => exact hw.elim
  | malloc => exact hw.elim
  | fopen => exact hw
  | curlInit => exact hw.elim
  | perform => exact hw.elim
  | fwrite fp b h => exact hw.trans h
  | fflush fp h => exact hw.trans h
  | fclose fp h => exact hw.trans h
  | unlink => exact hw

/-- The content of the file a path names, by the names alone. -/
def contentAt (e : Env) (w : World) (p : CStr) : Option Bytes :=
  (w.fs.fileAt (place e.cwd p)).map FileRec.data

lemma contentAt_congr {e : Env} {w v : World} (h : v.fs = w.fs) (p : CStr) :
    contentAt e v p = contentAt e w p := by
  rw [contentAt, contentAt, h]

lemma contentAt_of_file {e : Env} {w : World} {p : CStr} {f : FileRec}
    (h : w.fs.node (place e.cwd p) = some (.file f)) : contentAt e w p = some f.data := by
  rw [contentAt, (Tree.fileAt_eq_some _ _ _).mpr h, Option.map_some]

lemma exec_contentAt {e : Env} {c : Call} {p : CStr} (w : World)
    (h : ¬ Writes e c (place e.cwd p)) : contentAt e (exec e w c).2 p = contentAt e w p := by
  rw [contentAt, contentAt, exec_fileAt h]

/-- A download that has not succeeded in its rename leaves every file but the
temporary one alone, at every step. -/
lemma quiet_fileAt {e : Env} {req : CurlRequest} {dest : CStr} {w w' : World} {t : Trace}
    (hc : Chain (exec e) w t w')
    (hcalls : ∀ s ∈ t, TmpCall e req dest s.call ∨
      ∃ err, s.event = ⟨.rename (tmpOf dest) dest, .error err⟩)
    {q : Path} (hq : q ≠ place e.cwd (tmpOf dest)) :
    w'.fs.fileAt q = w.fs.fileAt q ∧ ∀ s ∈ t, s.before.fs.fileAt q = w.fs.fileAt q ∧
      s.after.fs.fileAt q = w.fs.fileAt q := by
  refine hc.rel (fun a b => b.fs.fileAt q = a.fs.fileAt q) (fun _ => rfl)
    (fun _ _ _ h1 h2 => h2.trans h1) ?_
  intro s hs
  have ha := hc.answer hs
  rcases hcalls s hs with hcall | ⟨err, hev⟩
  · have hf := exec_fileAt (w := s.before) (fun hw => hq (tmpCall_writes hcall hw))
    rwa [← ha] at hf
  · have hx := step_event ha hev
    rw [(commit_error hx).1]

/-- The transfer's answer is in the trace and stands for a success. -/
def Transferred (req : CurlRequest) (tr : Transfer) (t : Trace) : Prop :=
  (∃ s ∈ t, s.event = ⟨.perform req, tr⟩) ∧ tr.result = curleOk ∧
    200 ≤ tr.status ∧ tr.status < 300

/-- Downloads are all or nothing, at the end and at every step on the way. -/
theorem fetchFile_all_or_nothing (e : Env) (w : World) (url dest : CStr) (cfg : OtaConfig)
    (showProgress : Bool) :
    let o := run (exec e) (fetchFile url dest cfg showProgress) w
    let req := fetchRequest url cfg showProgress
    ((o.value = 0 ∧ ∃ tr, Transferred req tr o.trace ∧
        contentAt e o.final dest = some tr.chunks.flatten) ∨
      (o.value = -1 ∧
        o.final.fs.fileAt (place e.cwd dest) = w.fs.fileAt (place e.cwd dest))) ∧
    (∀ s ∈ o.trace,
      s.after.fs.fileAt (place e.cwd dest) = w.fs.fileAt (place e.cwd dest) ∨
      ∃ tr, Transferred req tr o.trace ∧
        contentAt e s.after dest = some tr.chunks.flatten) ∧
    (SureUnlink e → (∃ s ∈ o.trace, ∃ fp, s.event = ⟨.fopen (tmpOf dest), .ok fp⟩) →
      o.final.fs.fileAt (place e.cwd (tmpOf dest)) = none) := by
  intro o req
  have hc : Chain (exec e) w o.trace o.final := run_chain _ _ w
  have hend : FetchEnd e req dest o.value o.trace o.final :=
    fetchFile_yields e w url dest cfg showProgress
  have hne : place e.cwd dest ≠ place e.cwd (tmpOf dest) := Ne.symm (place_tmpOf_ne e.cwd dest)
  generalize o.value = rc, o.trace = t, o.final = v at hend hc
  cases hend with
  | unopened _ _ hsteps =>
    obtain ⟨hfin, hall⟩ := quiet_fileAt hc (fun s hs => .inl (hsteps s hs).1) hne
    refine ⟨.inr ⟨rfl, hfin⟩, fun s hs => .inl (hall s hs).2, ?_⟩
    rintro - ⟨s, hs, fp, hev⟩
    exact absurd hev ((hsteps s hs).2 fp)
  | opened _ _ _ h =>
    cases h with
    | failed _ _ hcalls hclean =>
      obtain ⟨hfin, hall⟩ := quiet_fileAt hc hcalls hne
      exact ⟨.inr ⟨rfl, hfin⟩, fun s hs => .inl (hall s hs).2, fun hsure _ => hclean hsure⟩
    | stored t r tr hcalls hreq hresult hstatus hmove hdest htmp =>
      have htrans : Transferred req tr (t ++ [r]) := by
        obtain ⟨s, hs, hev⟩ := hreq
        exact ⟨⟨s, List.mem_append_left _ hs, hev⟩, hresult, hstatus⟩
      have hcont : contentAt e r.after dest = some tr.chunks.flatten := by
        obtain ⟨f, hf, hdata⟩ := hdest
        rw [contentAt_of_file hf, hdata]
      obtain ⟨-, hall⟩ := quiet_fileAt hc.split.1 (fun s hs => .inl (hcalls s hs)) hne
      refine ⟨.inl ⟨rfl, tr, htrans, hcont⟩, ?_, ?_⟩
      · intro s hs
        rcases List.mem_append.mp hs with hs | hs
        · exact .inl (hall s hs).2
        · rw [List.mem_singleton.mp hs]
          exact .inr ⟨tr, htrans, hcont⟩
      · intro _ _
        exact Tree.fileAt_eq_none.mpr (.inl htmp)

def blankConfig : OtaConfig :=
  ⟨none, none, none, none, none, 0, 0, 0, 0, 0, 0, none, none, none, none, none⟩

/-- A server that answers every request with the same three bytes in two chunks. -/
def threeBytes : Env := .calm (fun _ _ => ⟨[[1], [2, 3]], 0, 200⟩) .empty

theorem fetchFile_all_or_nothing_three :
    SureUnlink threeBytes ∧
      (run (exec threeBytes) (fetchFile (text "u") (text "in/x") blankConfig false)
        (.at bareTree)).value = 0 ∧
      (run (exec threeBytes) (fetchFile (text "u") (text "in/x") blankConfig false)
        (.at bareTree)).final.fs.fileAt (place [] (text "in/x.tmp")) = none := by
  have hsure : SureUnlink threeBytes := fun _ _ => rfl
  obtain ⟨-, -, hclean⟩ :=
    fetchFile_all_or_nothing threeBytes (.at bareTree) (text "u") (text "in/x") blankConfig false
  refine ⟨hsure, by decide +kernel, hclean hsure ?_⟩
  refine ⟨_, List.getElem_mem (n := 2) (by decide +kernel), ⟨place [] (text "in/x.tmp"), []⟩, ?_⟩
  rfl

/-- A download succeeded within the trace: the transfer, and the rename that put
its body at the destination. -/
def Stored (e : Env) (req : CurlRequest) (dest : CStr) (tr : Transfer) (t : Trace) : Prop :=
  Transferred req tr t ∧ ∃ r ∈ t, r.event = ⟨.rename (tmpOf dest) dest, .ok ()⟩ ∧
    contentAt e r.after dest = some tr.chunks.flatten

theorem Stored.mono {e : Env} {req : CurlRequest} {dest : CStr} {tr : Transfer} {t u : Trace}
    (h : Stored e req dest tr t) (hsub : ∀ s ∈ t, s ∈ u) : Stored e req dest tr u := by
  obtain ⟨⟨⟨s, hs, hev⟩, hres⟩, r, hr, hmove⟩ := h
  exact ⟨⟨⟨s, hsub s hs, hev⟩, hres⟩, r, hsub r hr, hmove⟩

/-- What a return code of 0 means. -/
theorem fetchFile_stored (e : Env) (w : World) (url dest : CStr) (cfg : OtaConfig)
    (showProgress : Bool) :
    Yields (exec e) w (fetchFile url dest cfg showProgress) (fun rc t v =>
      rc = 0 → ∃ tr, Stored e (fetchRequest url cfg showProgress) dest tr t ∧
        contentAt e v dest = some tr.chunks.flatten) := by
  refine (fetchFile_yields e w url dest cfg showProgress).mono ?_
  intro rc t v hend hrc
  cases hend with
  | unopened _ _ _ => cases hrc
  | opened _ _ _ h =>
    cases h with
    | failed _ _ _ _ => cases hrc
    | stored t r tr hcalls hreq hresult hstatus hmove hdest htmp =>
      obtain ⟨f, hf, hdata⟩ := hdest
      have hcont : contentAt e r.after dest = some tr.chunks.flatten := by
        rw [contentAt_of_file hf, hdata]
      obtain ⟨s, hs, hev⟩ := hreq
      exact ⟨tr, ⟨⟨⟨s, List.mem_append_left _ hs, hev⟩, hresult, hstatus⟩, r, by simp, hmove,
        hcont⟩, hcont⟩

/-- A download leaves every file alone but its destination and the temporary one. -/
theorem fetchFile_frame (e : Env) (w : World) (url dest : CStr) (cfg : OtaConfig)
    (showProgress : Bool) {q : Path} (hd : q ≠ place e.cwd dest)
    (ht : q ≠ place e.cwd (tmpOf dest)) :
    Yields (exec e) w (fetchFile url dest cfg showProgress) (fun _ _ v =>
      v.fs.fileAt q = w.fs.fileAt q) := by
  have hcalls : Yields (exec e) w (fetchFile url dest cfg showProgress) (fun rc t _ =>
      ZeroOrNeg rc ∧ ∀ s ∈ t, FetchCall e (fetchRequest url cfg showProgress) dest s.call) :=
    Yields.of_obeys (fetchFile_obeys e url dest cfg showProgress) (exec_lawful e)
  refine (chain_fileAt (run_chain (exec e) _ w) ?_).1
  intro s hs hw
  rcases hcalls.2 s hs with hc | hc
  · exact ht (tmpCall_writes hc hw)
  · rw [hc] at hw
    exact hw.elim ht hd

/-- Steps that do not write a file leave its content as it is. -/
lemma chain_contentAt {e : Env} {w v : World} {t : Trace} {p : CStr}
    (hc : Chain (exec e) w t v) (h : ∀ s ∈ t, ¬ Writes e s.call (place e.cwd p)) :
    contentAt e v p = contentAt e w p ∧ ∀ s ∈ t, contentAt e s.after p = contentAt e w p := by
  obtain ⟨hfin, hall⟩ := chain_fileAt hc h
  refine ⟨by rw [contentAt, contentAt, hfin], ?_⟩
  intro s hs
  rw [contentAt, contentAt, (hall s hs).2]

/-- A rename onto a path puts there what the source held, also when both are one. -/
lemma rename_content {e : Env} {w w' : World} {s d : CStr}
    (h : exec e w (.rename s d) = (.ok (), w')) :
    ∃ b, contentAt e w s = some b ∧ contentAt e w' d = some b := by
  by_cases hne : place e.cwd s = place e.cwd d
  · obtain ⟨q, hq, h⟩ := bind_ok (commit_ok h)
    obtain ⟨r, hr, hu⟩ := bind_ok h
    rw [(locate_ok hq).1, (locate_ok hr).1, hne] at hu
    obtain ⟨f, hf, -, ⟨-, hfs⟩ | ⟨hself, -⟩⟩ := Tree.renameAt_ok hu
    · refine ⟨f.data, ?_, ?_⟩
      · rw [contentAt, hne, (Tree.fileAt_eq_some _ _ _).mpr hf]
        rfl
      · rw [contentAt, hfs, (Tree.fileAt_eq_some _ _ _).mpr hf]
        rfl
    · exact absurd rfl hself
  · obtain ⟨f, hf, hd, -⟩ := exec_rename_ok h hne
    refine ⟨f.data, ?_, ?_⟩
    · exact contentAt_of_file hf
    · exact contentAt_of_file hd

/-- Calls that write no file at all. -/
def Idle (e : Env) (t : Trace) : Prop := ∀ s ∈ t, ∀ q, ¬ Writes e s.call q

end OtaFetch.Fetch
