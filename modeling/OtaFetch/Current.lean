import OtaFetch.Untrusted

/-!
# The current manifest

How the current manifest is replaced, and where its content comes from. The
replacement removes the old file before it renames the new one, so there is a
moment, and a failure, with no current manifest at all. The payload is stored
under a name the manifest chooses, beside the manifest that is renamed later.
-/
namespace OtaFetch.Current
open CPath FileTree Stdio Interaction Machine Config Releases Hash Verify Fetch Update
open Iteration Stages Gate Untrusted

lemma sourceAt_eq_file {e : Env} {w : World} {p : CStr} {q : Path} {b : Bytes}
    (hl : locate w.fs e.cwd p = .ok q) :
    sourceAt w.fs e.cwd p = .file b ↔ contentAt e w p = some b := by
  refine ⟨contentAt_of_source, ?_⟩
  intro h
  obtain ⟨f, hf, rfl⟩ := Option.map_eq_some_iff.mp h
  obtain ⟨rfl, -⟩ := locate_ok hl
  rw [Tree.fileAt_eq_some] at hf
  simp [sourceAt, hl, hf]

lemma locate_of_source {t : Tree CStr FileRec} {cwd : Path} {p : CStr} {b : Bytes}
    (h : sourceAt t cwd p = .file b) : locate t cwd p = .ok (place cwd p) := by
  unfold sourceAt at h
  split at h
  · cases h
  · rename_i q hq
    rw [hq, (locate_ok hq).1]

lemma mkdirCall_writes {e : Env} {dir : CStr} {c : Call} (h : MkdirCall dir c) (q : Path) :
    ¬ Writes e c q := by
  obtain ⟨u, m, rfl, -⟩ := h
  exact id

/-- The current manifest goes from `old` to the inbox manifest of `w` with
nothing in between, and the return code says which of the two is there. -/
structure AtomicSwap (e : Env) (ctx : OtaCtx) (w : World) (old : Bytes)
    (o : Outcome Call Resp World ℤ) : Prop where
  states : ∀ s ∈ o.trace, sourceAt s.after.fs e.cwd ctx.currentManifestPath = .file old ∨
    ∃ new, contentAt e w ctx.inboxManifestPath = some new ∧
      sourceAt s.after.fs e.cwd ctx.currentManifestPath = .file new
  done : o.value = 0 → ∃ new, contentAt e w ctx.inboxManifestPath = some new ∧
    sourceAt o.final.fs e.cwd ctx.currentManifestPath = .file new
  failed : o.value = -1 → sourceAt o.final.fs e.cwd ctx.currentManifestPath = .file old

/-- An `unlink` of an existing file that the environment allows leaves nothing. -/
lemma unlink_outcome {e : Env} {w w' : World} {p : CStr} {b : Bytes} {r : Except Errno Unit}
    (h : exec e w (.unlink p) = (r, w')) (hb : sourceAt w.fs e.cwd p = .file b) :
    (e.fault w.clock (.unlink p) = none ∧ contentAt e w' p = none) ∨
      (e.fault w.clock (.unlink p) ≠ none ∧ w'.fs = w.fs) := by
  by_cases hf : e.fault w.clock (.unlink p) = none
  · have hgone := exec_unlink_gone hf (locate_of_source hb)
    rw [h] at hgone
    exact .inl ⟨hf, by rw [contentAt, hgone]; rfl⟩
  · refine .inr ⟨hf, ?_⟩
    simp only [exec, commit] at h
    split at h
    · cases h
      rfl
    · rename_i hn
      exact absurd hn hf

/-- A file that is found at the start of a chain and not written is found with
the same bytes in every state. -/
lemma chain_sourceAt {e : Env} {w v : World} {t : Trace} {p : CStr} {b : Bytes}
    (hc : Chain (exec e) w t v) (h : ∀ s ∈ t, ¬ Writes e s.call (place e.cwd p))
    (hb : sourceAt w.fs e.cwd p = .file b) :
    sourceAt v.fs e.cwd p = .file b ∧ ∀ s ∈ t, sourceAt s.after.fs e.cwd p = .file b := by
  obtain ⟨hfin, hall⟩ := chain_contentAt hc h
  have hl := locate_of_source hb
  have hcont := contentAt_of_source hb
  refine ⟨by rw [sourceAt_eq_file (chain_locate hc hl), hfin, hcont], ?_⟩
  intro s hs
  obtain ⟨pre, post, rfl⟩ := List.append_of_mem hs
  obtain ⟨hpre, hans, -⟩ := hc.split
  have hthere : Chain (exec e) w (pre ++ [s]) s.after :=
    Chain.append_iff.mpr ⟨s.before, hpre, rfl, hans, rfl⟩
  rw [sourceAt_eq_file (chain_locate hthere hl), hall s hs, hcont]

/-- Once the old file is gone, the replacement is not atomic any more. -/
lemma refused_of_atomicSwap {e : Env} {w : World} {ctx : OtaCtx} {old : Bytes}
    {o : Outcome Call Resp World ℤ} (hc : Chain (exec e) w o.trace o.final)
    (hswap : AtomicSwap e ctx w old o) {s : Step Call Resp World} (hs : s ∈ o.trace)
    (hcall : s.call = .unlink ctx.currentManifestPath)
    (hthere : sourceAt s.before.fs e.cwd ctx.currentManifestPath = .file old) :
    e.fault s.before.clock (.unlink ctx.currentManifestPath) ≠ none := by
  have hans := hc.answer hs
  have hnew := hswap.states s hs
  obtain ⟨before, call, reply, after⟩ := s
  subst hcall
  rcases unlink_outcome hans.symm hthere with ⟨-, hgone⟩ | ⟨hrefused, -⟩
  · rcases hnew with h | ⟨new, -, h⟩
    · rw [contentAt_of_source h] at hgone
      cases hgone
    · rw [contentAt_of_source h] at hgone
      cases hgone
  · exact hrefused

/-- The rename replaces the whole file or, when it fails, nothing. -/
lemma rename_swaps {e : Env} {w v : World} {s d : CStr} {old : Bytes} {r : Except Errno Unit}
    (h : exec e w (.rename s d) = (r, v)) (hold : sourceAt w.fs e.cwd d = .file old) :
    (r = .ok () → ∃ new, contentAt e w s = some new ∧ sourceAt v.fs e.cwd d = .file new) ∧
      (r ≠ .ok () → sourceAt v.fs e.cwd d = .file old) := by
  constructor
  · rintro rfl
    obtain ⟨b, hsrc, hdst⟩ := rename_content h
    have hl := exec_locate h (locate_of_source hold)
    exact ⟨b, hsrc, (sourceAt_eq_file hl).mpr hdst⟩
  · intro hr
    cases r with
    | ok u => exact absurd rfl hr
    | error err => rw [(commit_error h).1, hold]

/-- The replacement is atomic exactly when the environment does not let the
`unlink` before the rename go through. -/
theorem makeNewManifestCurrent_atomic_iff (e : Env) (w : World) (ctx : OtaCtx) (old : Bytes)
    (hold : sourceAt w.fs e.cwd ctx.currentManifestPath = .file old) :
    AtomicSwap e ctx w old (run (exec e) (makeNewManifestCurrent ctx) w) ↔
      ∀ s ∈ (run (exec e) (makeNewManifestCurrent ctx) w).trace,
        s.call = .unlink ctx.currentManifestPath →
          e.fault s.before.clock (.unlink ctx.currentManifestPath) ≠ none := by
  have hrep : Replaced e ctx w _ _ _ := makeNewManifestCurrent_yields e w ctx
  have hc := run_chain (exec e) (makeNewManifestCurrent ctx) w
  generalize run (exec e) (makeNewManifestCurrent ctx) w = o at hrep hc ⊢
  obtain ⟨rc, t, v⟩ := o
  change Replaced e ctx w rc t v at hrep
  cases hrep with
  | mk mk w₁ w₂ v r₁ r₂ hmk hcalls h₁ h₂ =>
    have hquiet : ∀ s ∈ mk, ∀ q, ¬ Writes e s.call q := by
      intro s hs
      obtain ⟨dir, -, hcall⟩ := hcalls s hs
      exact mkdirCall_writes hcall
    obtain ⟨hold₁, hmks⟩ := chain_sourceAt hmk (fun s hs => hquiet s hs _) hold
    obtain ⟨hin₁, -⟩ := chain_contentAt (p := ctx.inboxManifestPath) hmk
      (fun s hs => hquiet s hs _)
    constructor
    · intro hswap s hs hcall
      refine refused_of_atomicSwap hc hswap hs hcall ?_
      rcases List.mem_append.mp hs with hs | hs
      · obtain ⟨dir, -, u, m, hmkdir, -⟩ := hcalls s hs
        rw [hcall] at hmkdir
        cases hmkdir
      · simp only [List.mem_cons, List.not_mem_nil, or_false] at hs
        rcases hs with rfl | rfl
        · exact hold₁
        · cases hcall
    · intro hrefuse
      have hfault := hrefuse ⟨w₁, .unlink ctx.currentManifestPath, r₁, w₂⟩ (by simp) rfl
      have hfs₂ : w₂.fs = w₁.fs :=
        (unlink_outcome h₁ hold₁).elim (fun h => absurd h.1 hfault) (fun h => h.2)
      have hold₂ : sourceAt w₂.fs e.cwd ctx.currentManifestPath = .file old := by rw [hfs₂, hold₁]
      have hin₂ : contentAt e w₂ ctx.inboxManifestPath = contentAt e w ctx.inboxManifestPath := by
        rw [← hin₁, contentAt_congr hfs₂]
      obtain ⟨hdone, hfail⟩ := rename_swaps h₂ hold₂
      rw [hin₂] at hdone
      refine ⟨?_, ?_, ?_⟩
      · intro s hs
        rcases List.mem_append.mp hs with hs | hs
        · exact .inl (hmks s hs)
        · simp only [List.mem_cons, List.not_mem_nil, or_false] at hs
          rcases hs with rfl | rfl
          · exact .inl hold₂
          · by_cases hr : r₂ = .ok ()
            · exact .inr (hdone hr)
            · exact .inl (hfail hr)
      · intro hrc
        refine hdone ?_
        by_contra hr
        simp [hr] at hrc
      · intro hrc
        refine hfail ?_
        intro hr
        simp [hr] at hrc

/-- A context whose inbox holds a new manifest, in a tree that has an old one. -/
def swapCtx : OtaCtx :=
  ⟨deviceConfig, text "cur/manifest.json", text "in/manifest.json", text "in/manifest.json.sig",
    text "in/signer.crt", none, none, none⟩

def swapTree : Tree CStr FileRec :=
  (updatedTree.makeDir [text "in"]).put [manifestName, text "in"] ⟨bundleBytes, 420⟩

/-- The directory does not allow entries to be removed. -/
def stickyEnv : Env :=
  { threeBytes with
    fault := fun _ c =>
      match c with
      | .unlink _ => some .eacces
      | _ => none }

theorem makeNewManifestCurrent_atomic_sticky :
    sourceAt swapTree [] (text "cur/manifest.json") = .file manifestBytes ∧
      (run (exec stickyEnv) (makeNewManifestCurrent swapCtx) (.at swapTree)).value = 0 ∧
      AtomicSwap stickyEnv swapCtx (.at swapTree) manifestBytes
        (run (exec stickyEnv) (makeNewManifestCurrent swapCtx) (.at swapTree)) := by
  have hold : sourceAt swapTree [] (text "cur/manifest.json") = .file manifestBytes := by
    decide +kernel
  refine ⟨hold, by decide +kernel, (makeNewManifestCurrent_atomic_iff stickyEnv (.at swapTree)
    swapCtx manifestBytes hold).mpr ?_⟩
  intro s _ _
  simp [stickyEnv]

/-- In an environment in which every call succeeds, there is a state without a
current manifest. -/
theorem makeNewManifestCurrent_loses :
    sourceAt swapTree [] (text "cur/manifest.json") = .file manifestBytes ∧
      ¬ AtomicSwap threeBytes swapCtx (.at swapTree) manifestBytes
        (run (exec threeBytes) (makeNewManifestCurrent swapCtx) (.at swapTree)) := by
  refine ⟨by decide +kernel, ?_⟩
  intro hswap
  have hgone : ∃ s ∈ (run (exec threeBytes) (makeNewManifestCurrent swapCtx)
      (.at swapTree)).trace, sourceAt s.after.fs [] (text "cur/manifest.json") = .missing := by
    decide +kernel
  obtain ⟨s, hs, hmissing⟩ := hgone
  rcases hswap.states s hs with h | ⟨new, -, h⟩
  · have hboth := hmissing.symm.trans h
    cases hboth
  · have hboth := hmissing.symm.trans h
    cases hboth

/-- The name under which the payload that `m` offers the device is stored. -/
def chosenName (cfg : OtaConfig) (m : Manifest) : Option CStr :=
  match manifestSelectRelease (some m) cfg.deviceId with
  | none => none
  | some release =>
    match release.files.head? with
    | none => none
    | some file => file.filename

/-- The payload's path is neither the inbox manifest nor the current one. -/
def PayloadElsewhere (cwd : Path) (cfg : OtaConfig) (m : Manifest) : Prop :=
  ∀ inbox current filename, cfg.inboxManifestDir = some inbox →
    cfg.currentManifestDir = some current → chosenName cfg m = some filename →
    place cwd (join inbox filename) ≠ place cwd (join inbox manifestName) ∧
      place cwd (join inbox filename) ≠ place cwd (join current manifestName)

lemma chosenName_of_chosen {cfg : OtaConfig} {ctx : OtaCtx} {m : Manifest}
    {release : ManifestRelease} {file : ManifestFile} {dir filename path : CStr}
    (h : Chosen ctx release file dir filename path) (hcfg : ctx.config = cfg)
    (hm : ctx.inboxManifest = some m) : chosenName cfg m = some filename := by
  have hsel := h.select
  rw [hcfg, hm] at hsel
  simp [chosenName, hsel, h.first, h.filename]

/-- No temporary file is a manifest. -/
lemma place_tmpOf_ne_manifest (cwd : Path) (s d : CStr) :
    place cwd (tmpOf s) ≠ place cwd (join d manifestName) := by
  obtain ⟨c, base, -, htmp, -⟩ := place_tmpOf cwd s
  rw [htmp, place_join_plain cwd d (by decide)]
  intro h
  have hends := endsTmp_tmpOf c
  rw [tmpOf, (List.cons_eq_cons.mp h).1] at hends
  revert hends
  decide

/-- What the download of the payload writes. -/
lemma releaseCall_writes {e : Env} {cfg : OtaConfig} {ctx : OtaCtx} {inbox current : CStr}
    {m : Manifest} {c : Call} (hb : ctx.Built cfg inbox current) (hm : ctx.inboxManifest = some m)
    (h : ReleaseCall e ctx c) {q : Path} (hw : Writes e c q) :
    ∃ filename, chosenName cfg m = some filename ∧
      (q = place e.cwd (join inbox filename) ∨ q = place e.cwd (tmpOf (join inbox filename))) := by
  cases h with
  | malloc => exact hw.elim
  | fetch release file dir filename path url c hchosen hurl hc =>
    have hdir := hchosen.inboxDir
    rw [hb.config, hb.inboxDir] at hdir
    obtain rfl := Option.some.inj hdir
    refine ⟨filename, chosenName_of_chosen hchosen hb.config hm, ?_⟩
    rcases hc with hc | rfl
    · exact .inr (tmpCall_writes hc hw)
    · exact hw.symm

/-- The stages before the last one leave the current manifest alone. -/
theorem stageCalls_current {e : Env} {cfg : OtaConfig} {inbox current : CStr}
    (hin : cfg.inboxManifestDir = some inbox) (hcur : cfg.currentManifestDir = some current)
    (hapart : DirsApart e.cwd cfg) :
    StageCalls e cfg (PayloadElsewhere e.cwd cfg)
      (fun c => ¬ Writes e c (place e.cwd (join current manifestName))) := by
  have hscratch := current_not_scratch hin hcur hapart
  have hsame : ∀ {ctx : OtaCtx} {inbox' current' : CStr}, ctx.Built cfg inbox' current' →
      inbox' = inbox := fun hb => Option.some.inj (hb.inboxDir.symm.trans hin)
  exact {
    malloc := id
    cleanup := fun hb h hw => by
      obtain rfl := hsame hb
      exact hscratch ((inertCall_of_cleanup hb h).writes _ hw)
    newManifest := fun hb h hw => by
      obtain rfl := hsame hb
      exact hscratch ((inertCall_of_newManifest hb h).writes _ hw)
    verify := fun _ => id
    compare := fun h => by cases h <;> exact id
    load := fun _ => id
    release := fun hb hm helse h hw => by
      obtain rfl := hsame hb
      obtain ⟨filename, hname, hq⟩ := releaseCall_writes hb hm h hw
      rcases hq with hq | hq
      · exact (helse _ current filename hin hcur hname).2 hq.symm
      · exact place_tmpOf_ne_manifest _ _ _ hq.symm
    hash := fun _ => id }

/-- A step that changes a file's content writes the file. -/
lemma writes_of_changed {e : Env} {s : Step Call Resp World} {p : CStr}
    (ha : (s.reply, s.after) = exec e s.before s.call)
    (h : contentAt e s.before p ≠ contentAt e s.after p) : Writes e s.call (place e.cwd p) := by
  by_contra hw
  have hsame := exec_contentAt s.before hw
  rw [← ha] at hsame
  exact h hsame.symm

/-- The step of a replacement that gives the current manifest its new content. -/
lemma replaced_put {e : Env} {ctx : OtaCtx} {w v : World} {rc : ℤ} {pre post : Trace}
    {s : Step Call Resp World} {x : Bytes} (h : Replaced e ctx w rc (pre ++ s :: post) v)
    (hne : place e.cwd ctx.inboxManifestPath ≠ place e.cwd ctx.currentManifestPath)
    (hans : (s.reply, s.after) = exec e s.before s.call)
    (hchange : contentAt e s.before ctx.currentManifestPath ≠
      contentAt e s.after ctx.currentManifestPath)
    (hx : contentAt e s.after ctx.currentManifestPath = some x) :
    s.event = ⟨.rename ctx.inboxManifestPath ctx.currentManifestPath, .ok ()⟩ ∧
      contentAt e w ctx.inboxManifestPath = some x := by
  have hmem : s ∈ pre ++ s :: post := by simp
  generalize pre ++ s :: post = t at h hmem
  cases h with
  | mk mk w₁ w₂ v r₁ r₂ hmk hcalls h₁ h₂ =>
    rcases List.mem_append.mp hmem with hs | hs
    · obtain ⟨dir, -, hcall⟩ := hcalls s hs
      exact absurd (writes_of_changed hans hchange) (mkdirCall_writes hcall _)
    · simp only [List.mem_cons, List.not_mem_nil, or_false] at hs
      rcases hs with rfl | rfl
      · cases r₁ with
        | ok u =>
          rw [contentAt, Tree.fileAt_eq_none.mpr (.inl (exec_unlink_ok h₁).2)] at hx
          cases hx
        | error err => exact absurd (contentAt_congr (commit_error h₁).1 _).symm hchange
      · cases r₂ with
        | error err => exact absurd (contentAt_congr (commit_error h₂).1 _).symm hchange
        | ok u =>
          obtain ⟨b, hsrc, hdst⟩ := rename_content h₂
          obtain rfl : b = x := Option.some.inj (hdst.symm.trans hx)
          refine ⟨rfl, ?_⟩
          obtain ⟨hin₁, -⟩ := chain_contentAt (p := ctx.inboxManifestPath) hmk (by
            intro y hy
            obtain ⟨dir, -, hcall⟩ := hcalls y hy
            exact mkdirCall_writes hcall _)
          have hunlink := exec_contentAt (e := e) (c := .unlink ctx.currentManifestPath) w₁ hne
          rw [h₁] at hunlink
          rw [← hin₁, ← hsrc, hunlink]

/-- The installer ran on `p` and ended with status 0. -/
def Installed (p : CStr) (t : Trace) : Prop :=
  (∃ s ∈ t, s.event = ⟨.spawn [text "rauc", text "install", p], .ok ()⟩) ∧
    ∃ s ∈ t, s.event = ⟨.waitpid, .ok (.exited 0)⟩

lemma spawn_fs {e : Env} {w w' : World} {argv : List CStr} {r : Except Errno Unit}
    (h : exec e w (.spawn argv) = (r, w')) : w'.fs = w.fs := by
  simp only [exec] at h
  split at h <;> cases h <;> rfl

lemma waitpid_fs {e : Env} {w w' : World} {r : Except Errno WaitStatus}
    (h : exec e w .waitpid = (r, w')) : w'.fs = w.fs := by
  simp only [exec] at h
  split at h <;> cases h <;> rfl

/-- The last stage writes nothing, or it is a replacement with idle steps around
it, which include the installer's success for a bundle. -/
lemma applied_view {e : Env} {ctx : OtaCtx} {w v : World} {rc : ℤ} {t : Trace} {p : CStr}
    (h : Applied e ctx w rc t v) (hpayload : ctx.payloadPath = some p) :
    Idle e t ∨ ∃ lead u tail rc' w' v', t = lead ++ (u ++ tail) ∧ w'.fs = w.fs ∧
      Replaced e ctx w' rc' u v' ∧ Idle e lead ∧ Idle e tail ∧
      ((firstFile ctx).bind ManifestFile.fileType = some raucBundle → Installed p lead) := by
  have hargv : raucArgv ctx.payloadPath = [text "rauc", text "install", p] := by
    rw [hpayload]
    rfl
  have hlead : ∀ (w w₁ w₂ : World) (r : Except Errno WaitStatus), Idle e
      [⟨w, .spawn (raucArgv ctx.payloadPath), .ok (), w₁⟩, ⟨w₁, .waitpid, r, w₂⟩] := by
    intro w w₁ w₂ r s hs q
    simp only [List.mem_cons, List.not_mem_nil, or_false] at hs
    rcases hs with rfl | rfl <;> exact id
  have hinst : ∀ w w₁ w₂ : World, Installed p
      [⟨w, .spawn (raucArgv ctx.payloadPath), .ok (), w₁⟩,
        ⟨w₁, .waitpid, .ok (.exited 0), w₂⟩] := by
    intro w w₁ w₂
    rw [hargv]
    exact ⟨⟨_, List.mem_cons_self .., rfl⟩,
      ⟨_, List.mem_cons_of_mem _ (List.mem_singleton_self _), rfl⟩⟩
  cases h with
  | unsupported rc hrc htest htype => exact .inl (by simp [Idle])
  | tested rc t v htype hrep =>
    refine .inr ⟨[], t, [], rc, w, v, by simp, rfl, hrep, by simp [Idle], by simp [Idle], ?_⟩
    intro hrauc
    rw [htype] at hrauc
    exact absurd (Option.some.inj hrauc) (by decide)
  | unspawned err v htype hx =>
    left
    intro s hs
    rw [List.mem_singleton.mp hs]
    exact fun _ => id
  | failed w₁ v r htype h₁ h₂ hr => exact .inl (hlead w w₁ v r)
  | kept w₁ w₂ v t rc htype h₁ h₂ hrep hrc =>
    exact .inr ⟨_, t, [], rc, w₂, v, by simp, (waitpid_fs h₂).trans (spawn_fs h₁), hrep,
      hlead w w₁ w₂ _, by simp [Idle], fun _ => hinst w w₁ w₂⟩
  | rebooted w₁ w₂ w₃ w₄ v t htype h₁ h₂ hrep h₃ h₄ =>
    refine .inr ⟨_, t, _, 0, w₂, w₃, rfl, (waitpid_fs h₂).trans (spawn_fs h₁), hrep,
      hlead w w₁ w₂ _, ?_, fun _ => hinst w w₁ w₂⟩
    intro s hs q
    simp only [List.mem_cons, List.not_mem_nil, or_false] at hs
    rcases hs with rfl | rfl <;> exact id

/-- In the last stage the current manifest gets new content by the rename only,
after the installer when there is one. -/
lemma applied_put {e : Env} {ctx : OtaCtx} {w v : World} {rc : ℤ} {pre post : Trace}
    {s : Step Call Resp World} {x : Bytes} {p : CStr}
    (h : Applied e ctx w rc (pre ++ s :: post) v) (hpayload : ctx.payloadPath = some p)
    (hne : place e.cwd ctx.inboxManifestPath ≠ place e.cwd ctx.currentManifestPath)
    (hans : (s.reply, s.after) = exec e s.before s.call)
    (hchange : contentAt e s.before ctx.currentManifestPath ≠
      contentAt e s.after ctx.currentManifestPath)
    (hx : contentAt e s.after ctx.currentManifestPath = some x) :
    s.event = ⟨.rename ctx.inboxManifestPath ctx.currentManifestPath, .ok ()⟩ ∧
      contentAt e w ctx.inboxManifestPath = some x ∧
      ((firstFile ctx).bind ManifestFile.fileType = some raucBundle → Installed p pre) := by
  have hw := writes_of_changed hans hchange
  rcases applied_view h hpayload with hidle | ⟨lead, u, tail, rc', w', v', ht, hfs, hrep, hlead,
    htail, hinst⟩
  · exact absurd hw (hidle s (by simp) _)
  rcases append_split ht.symm with ⟨post', hs, -⟩ | ⟨pre', rfl, hrest⟩
  · exact absurd hw (hlead s (by rw [hs]; simp) _)
  rcases append_split hrest with ⟨post', rfl, -⟩ | ⟨pre'', -, hs⟩
  · obtain ⟨hev, hin⟩ := replaced_put hrep hne hans hchange hx
    refine ⟨hev, ?_, ?_⟩
    · rw [← hin, contentAt_congr hfs]
    · intro htype
      obtain ⟨⟨s₁, hs₁, hev₁⟩, s₂, hs₂, hev₂⟩ := hinst htype
      exact ⟨⟨s₁, List.mem_append_left _ hs₁, hev₁⟩, s₂, List.mem_append_left _ hs₂, hev₂⟩
  · exact absurd hw (htail s (by rw [hs]; simp) _)

/-- When the payload is validated and lies elsewhere, the inbox manifest still
holds the bytes that were verified. -/
lemma validated_manifest {e : Env} {cfg : OtaConfig} {w v : World} {ctx : OtaCtx} {t : Trace}
    {inbox current : CStr} (h : Reach e cfg w .validated ctx t v)
    (hb : ctx.Built cfg inbox current) (hL : Loads (PayloadElsewhere e.cwd cfg) t) :
    ∃ b m sv release file filename bytes, Authentic e cfg inbox b m sv t ∧
      Validated e cfg inbox m release file filename bytes t ∧ firstFile ctx = some file ∧
      ctx.payloadPath = some (join inbox filename) ∧
      contentAt e v (join inbox manifestName) = some b := by
  obtain ⟨ctx₀, t₀, v₀, u, m, release, file, filename, bytes, hr₀, hb₀, hm, rfl, hc, hcalls, hval,
    hfirst, hpayload, -⟩ := h.validated hb
  obtain ⟨b, m', sv, -, -, -, hm', hauth, hfs, -⟩ := hr₀.loaded hb₀
  obtain rfl : m = m' := Option.some.inj (hm.symm.trans hm')
  obtain ⟨l, hl, hload⟩ := hauth.loaded
  have helse := hL l (List.mem_append_left _ hl) _ m hload
  refine ⟨b, m, sv, release, file, filename, bytes,
    hauth.mono fun s hs => List.mem_append_left _ hs,
    hval.mono fun s hs => List.mem_append_right _ hs, hfirst, hpayload, ?_⟩
  have hkeep : contentAt e v (join inbox manifestName) =
      contentAt e v₀ (join inbox manifestName) := by
    refine (chain_contentAt hc ?_).1
    intro s hs hw
    rcases hcalls s hs with hrel | ⟨p, hp⟩
    · obtain ⟨name, hname, hq | hq⟩ := releaseCall_writes hb₀ hm hrel hw
      · exact (helse inbox current name hb.inboxDir hb.currentDir hname).1 hq.symm
      · exact place_tmpOf_ne_manifest _ _ _ hq.symm
    · rw [hp] at hw
      exact hw
  have hbytes : contentAt e sv.before (join inbox manifestName) = some b :=
    contentAt_of_source hauth.bytes
  rw [hkeep, ← hbytes, contentAt_congr hfs]

/-- The step `s` put `x` in place as the current manifest, after its iteration
had verified exactly these bytes, validated the payload they name and, for a
bundle, installed it. -/
def PutBy (e : Env) (cfg : OtaConfig) (inbox current : CStr) (x : Bytes) (here : Trace)
    (s : Step Call Resp World) : Prop :=
  s.event = ⟨.rename (join inbox manifestName) (join current manifestName), .ok ()⟩ ∧
    contentAt e s.after (join current manifestName) = some x ∧
    ∃ m sv release file filename bytes, Authentic e cfg inbox x m sv here ∧
      Validated e cfg inbox m release file filename bytes here ∧
      (file.fileType = some raucBundle → Installed (join inbox filename) here)

/-- In every state of the run the current manifest is the one from `w` or was
put there. -/
def Provenance (e : Env) (cfg : OtaConfig) (inbox current : CStr) (w : World) (t : Trace) : Prop :=
  ∀ pre s post x, t = pre ++ s :: post →
    contentAt e s.after (join current manifestName) = some x →
    contentAt e w (join current manifestName) = some x ∨
      ∃ pre' s' post' here, pre ++ [s] = pre' ++ s' :: post' ∧ ThisIteration pre' here ∧
        PutBy e cfg inbox current x here s'

lemma applyRelease_ne_start (e : Env) (ctx : OtaCtx) (w : World) :
    ∀ s ∈ (run (exec e) (applyRelease ctx) w).trace, s.call ≠ .startCheck := by
  intro s hs hstart
  have hc := (calls_of_obeys (applyRelease_obeys (Lawful e) ctx) w).1 s hs
  rw [hstart] at hc
  cases hc

/-- The step of an iteration that gives the current manifest new content. -/
theorem attempt_put {e : Env} {daemonMode : Bool} {cfg : OtaConfig} {inbox current : CStr}
    {w : World} {here after : Trace} {s : Step Call Resp World} {x : Bytes}
    (hit : (run (exec e) (attempt daemonMode cfg) w).trace = here ++ s :: after)
    (hin : cfg.inboxManifestDir = some inbox) (hcur : cfg.currentManifestDir = some current)
    (hapart : DirsApart e.cwd cfg) (hL : Loads (PayloadElsewhere e.cwd cfg) (here ++ s :: after))
    (hchange : contentAt e s.before (join current manifestName) ≠
      contentAt e s.after (join current manifestName))
    (hx : contentAt e s.after (join current manifestName) = some x) :
    OpensWith (· ≠ .startCheck) here ∧ PutBy e cfg inbox current x here s := by
  have hans : (s.reply, s.after) = exec e s.before s.call :=
    (run_chain (exec e) (attempt daemonMode cfg) w).answer (by rw [hit]; simp)
  have hw := writes_of_changed hans hchange
  have hstart : s.call ≠ .startCheck := by
    intro hn
    rw [hn] at hw
    exact hw
  obtain ⟨ctx, t₀, v₀, pre, hr, rfl, happ⟩ :=
    attempt_late hit (stageCalls_current hin hcur hapart) hL hstart (not_not.mpr hw)
  obtain ⟨inbox', current', hb⟩ := hr.built
  obtain rfl : inbox = inbox' := Option.some.inj (hin.symm.trans hb.inboxDir)
  obtain rfl : current = current' := Option.some.inj (hcur.symm.trans hb.currentDir)
  obtain ⟨b, m, sv, release, file, filename, bytes, hauth, hval, hfirst, hpayload, hcont⟩ :=
    validated_manifest hr hb (hL.sub fun y hy => by simp [hy])
  have happlied : Applied e ctx v₀ _ _ _ := applyRelease_yields e v₀ ctx
  rw [happ] at happlied
  have hne : place e.cwd ctx.inboxManifestPath ≠ place e.cwd ctx.currentManifestPath := by
    rw [hb.inboxManifest, hb.currentManifest]
    intro heq
    exact current_not_scratch hin hcur hapart (heq ▸ scratch_name (.inl rfl))
  have hput := applied_put (x := x) happlied hpayload hne hans
  rw [hb.currentManifest, hb.inboxManifest, hfirst] at hput
  obtain ⟨hev, hnew, hinst⟩ := hput hchange hx
  obtain rfl : b = x := Option.some.inj (hcont.symm.trans hnew)
  constructor
  · have hopen := hr.calls (stageCalls_early e cfg) (fun _ _ _ _ _ => trivial)
    refine (hopen.mono fun c hc => hc.1).append ?_
    intro y hy
    exact applyRelease_ne_start e ctx v₀ y (by rw [happ]; simp [hy])
  · refine ⟨hev, hx, m, sv, release, file, filename, bytes, hauth.mono ?_, hval.mono ?_, ?_⟩
    · exact fun y hy => List.mem_append_left _ hy
    · exact fun y hy => List.mem_append_left _ hy
    · intro htype
      obtain ⟨⟨s₁, hs₁, hev₁⟩, s₂, hs₂, hev₂⟩ := hinst htype
      exact ⟨⟨s₁, List.mem_append_right _ hs₁, hev₁⟩, s₂, List.mem_append_right _ hs₂, hev₂⟩

/-- In every run whose manifests keep the payload away from the two manifest
paths, the current manifest has a provenance. -/
theorem otaFetchRun_provenance (e : Env) (w : World) (fuel : ℕ) (daemonMode : Bool)
    (cfg : OtaConfig) (inbox current : CStr) (hin : cfg.inboxManifestDir = some inbox)
    (hcur : cfg.currentManifestDir = some current) (hapart : DirsApart e.cwd cfg)
    (helse : Loads (PayloadElsewhere e.cwd cfg)
      (run (exec e) (otaFetchRun fuel daemonMode cfg) w).trace) :
    Provenance e cfg inbox current w
      (run (exec e) (otaFetchRun fuel daemonMode cfg) w).trace := by
  intro pre s post x ht hx
  have hc := run_chain (exec e) (otaFetchRun fuel daemonMode cfg) w
  rw [ht] at hc
  have hto : Chain (exec e) w (pre ++ [s]) s.after :=
    Chain.append_iff.mpr ⟨s.before, hc.split.1, rfl, hc.split.2.1, rfl⟩
  by_cases hinit : contentAt e w (join current manifestName) = some x
  · exact .inl hinit
  -- the last step that changed the current manifest left it as it is now
  obtain ⟨pre', s', post', hsplit, hchange, hlast⟩ := hto.changed
    (fun a => contentAt e a (join current manifestName)) (by rw [hx]; exact Ne.symm hinit)
  have hx' : contentAt e s'.after (join current manifestName) = some x := hlast.trans hx
  have ht' : (run (exec e) (otaFetchRun fuel daemonMode cfg) w).trace =
      pre' ++ s' :: (post' ++ post) := by
    rw [ht, List.append_cons, hsplit]
    simp
  have hw := writes_of_changed (hto.answer (by rw [hsplit]; simp)) hchange
  rcases otaFetchRun_step ht' with hp | ⟨before, here, after, w', rfl, hit, hsub⟩
  · rcases hp with ⟨n, hn⟩ | hn <;> rw [hn] at hw <;> exact hw.elim
  have hL := helse.sub hsub
  obtain ⟨hopen, hput⟩ := attempt_put hit hin hcur hapart hL hchange hx'
  exact .inr ⟨before ++ here, s', post', here, hsplit, ⟨before, rfl, hopen⟩, hput⟩

/-- The step loads a manifest that does not store the payload as `name`. -/
def loadsOther (cfg : OtaConfig) (name : CStr) (s : Step Call Resp World) : Bool :=
  match s.event with
  | ⟨.load _, some m⟩ => chosenName cfg m != some name
  | _ => false

lemma loads_of_name {cfg : OtaConfig} {name : CStr} {t : Trace}
    (h : ∀ s ∈ t, loadsOther cfg name s = false) :
    Loads (fun m => ∀ filename, chosenName cfg m = some filename → filename = name) t := by
  intro s hs p m hev filename hchosen
  have hother := h s hs
  simp only [loadsOther, hev, hchosen, bne_eq_false_iff_eq, Option.some.injEq] at hother
  exact hother

theorem otaFetchRun_provenance_device :
    contentAt (deviceEnv (text "fw") raucBundle)
        (run (exec (deviceEnv (text "fw") raucBundle)) (otaFetchRun 1 false deviceConfig)
          (.at deviceTree)).final (text "cur/manifest.json") = some manifestBytes ∧
      Provenance (deviceEnv (text "fw") raucBundle) deviceConfig (text "in") (text "cur")
        (.at deviceTree) (run (exec (deviceEnv (text "fw") raucBundle))
          (otaFetchRun 1 false deviceConfig) (.at deviceTree)).trace := by
  refine ⟨by decide +kernel, otaFetchRun_provenance _ _ _ _ _ _ _ rfl rfl deviceConfig_apart ?_⟩
  have hloads : Loads _ (run (exec (deviceEnv (text "fw") raucBundle))
      (otaFetchRun 1 false deviceConfig) (.at deviceTree)).trace :=
    loads_of_name (show ∀ s ∈ _, loadsOther deviceConfig (text "fw") s = false by decide +kernel)
  refine hloads.mono ?_
  intro m hm inbox current filename hin hcur hchosen
  obtain rfl : text "in" = inbox := Option.some.inj hin
  obtain rfl : text "cur" = current := Option.some.inj hcur
  rw [hm filename hchosen]
  decide

/-- A signed manifest that stores its payload as `manifest.json`. -/
def shadowEnv : Env := deviceEnv manifestName raucBundleTest

/-- The payload overwrites the verified manifest in the inbox and becomes the
current manifest. -/
theorem otaFetchRun_installs_payload_as_manifest :
    ¬ Provenance shadowEnv deviceConfig (text "in") (text "cur") (.at deviceTree)
      (run (exec shadowEnv) (otaFetchRun 1 false deviceConfig) (.at deviceTree)).trace := by
  intro hprov
  have hput : ∃ s ∈ (run (exec shadowEnv) (otaFetchRun 1 false deviceConfig)
      (.at deviceTree)).trace,
      contentAt shadowEnv s.after (text "cur/manifest.json") = some bundleBytes := by
    decide +kernel
  have hverify : ∀ s ∈ (run (exec shadowEnv) (otaFetchRun 1 false deviceConfig)
      (.at deviceTree)).trace, isVerify s.call = true →
      sourceAt s.before.fs [] (text "in/manifest.json") =
        .file (manifestFor manifestName raucBundleTest) := by
    decide +kernel
  obtain ⟨s, hs, hx⟩ := hput
  obtain ⟨pre, post, ht⟩ := List.append_of_mem hs
  rcases hprov pre s post bundleBytes ht hx with hinit | ⟨pre', s', post', here, hsplit,
    ⟨before, rfl, -⟩, -, -, m, sv, release, file, filename, bytes, hauth, -⟩
  · revert hinit
    decide +kernel
  · obtain ⟨msg, hev⟩ := hauth.verified
    have hmem : sv ∈ (run (exec shadowEnv) (otaFetchRun 1 false deviceConfig)
        (.at deviceTree)).trace := by
      rw [ht, List.append_cons, hsplit]
      simp [hauth.mem]
    have hcall : isVerify sv.call = true := by
      rw [show sv.call = _ from congrArg Sigma.fst hev]
      rfl
    have hbytes := hverify sv hmem hcall
    have hsame : Source.file bundleBytes = .file (manifestFor manifestName raucBundleTest) :=
      hauth.bytes.symm.trans hbytes
    revert hsame
    decide

end OtaFetch.Current
