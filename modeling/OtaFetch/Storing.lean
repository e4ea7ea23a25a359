import OtaFetch.MakeDirs

/-!
# What it takes to store a file

A file is stored by making the directories above it, opening the temporary name
beside it and renaming that. In the absence of failures this works when the parts
of the path before a slash are directories or missing, and neither the path nor
its temporary name is a directory. Calls that spare the paths keep it so.
-/
namespace OtaFetch.Storing
open CPath FileTree Interaction Machine Fetch MakeDirs

/-- A file can be stored under the path once the directories above it are made. -/
structure Free (t : Tree CStr FileRec) (cwd : Path) (path : CStr) : Prop where
  clear : Clear t cwd path
  vacant : t.node (place cwd path) ≠ some .dir

/-- The working directory is there and each of the paths is free. -/
structure ReadyFor (cwd : Path) (paths : List CStr) (t : Tree CStr FileRec) : Prop where
  here : t.node cwd = some .dir
  free : ∀ p ∈ paths, Free t cwd p

/-- The call makes no directory at one of the paths and writes no file above one. -/
structure Spares (e : Env) (paths : List CStr) (c : Call) : Prop where
  dirs : ∀ u m, c = .mkdir u m → ∀ p ∈ paths, place e.cwd u ≠ place e.cwd p
  files : ∀ q, Writes e c q → ∀ p ∈ paths, ∀ u, u ≠ [] → Above u p → q ≠ place e.cwd u

lemma ReadyFor.edits {cwd : Path} {paths : List CStr} {t t' : Tree CStr FileRec} {S : Path → Prop}
    (h : ReadyFor cwd paths t) (hedits : t.Edits t' S)
    (hS : ∀ q, S q → ∀ p ∈ paths, ∀ u, u ≠ [] → Above u p → q ≠ place cwd u) :
    ReadyFor cwd paths t' := by
  refine ⟨hedits.dir.mpr h.here, ?_⟩
  intro p hp
  constructor
  · intro u hu habove
    have hsame := hedits.frame fun hq => hS _ hq p hp u hu habove rfl
    rw [Tree.fileAt_congr hsame]
    exact (h.free p hp).clear u hu habove
  · intro hdir
    exact (h.free p hp).vacant (hedits.dir.mp hdir)

lemma ReadyFor.makeDir {cwd : Path} {paths : List CStr} {t : Tree CStr FileRec} {q : Path}
    (h : ReadyFor cwd paths t) (hq : ∀ p ∈ paths, q ≠ place cwd p) :
    ReadyFor cwd paths (t.makeDir q) := by
  have hgrows := Tree.makeDir_grows t q
  refine ⟨hgrows.node h.here, ?_⟩
  intro p hp
  constructor
  · exact (clear_grows hgrows).mpr (h.free p hp).clear
  · intro hdir
    rcases Tree.makeDir_node t q (place cwd p) with hsame | ⟨heq, -, -⟩
    · rw [hsame] at hdir
      exact (h.free p hp).vacant hdir
    · exact hq p hp heq.symm

lemma ReadyFor.exec {e : Env} {paths : List CStr} {w : World} {c : Call}
    (h : ReadyFor e.cwd paths w.fs) (hc : Spares e paths c) :
    ReadyFor e.cwd paths (exec e w c).2.fs := by
  rcases exec_edits e w c with ⟨u, m, hmkdir, hsame | hmade⟩ | hedits
  · rw [hsame]
    exact h
  · rw [hmade]
    exact h.makeDir (hc.dirs u m hmkdir)
  · exact h.edits hedits hc.files

/-- Along calls that spare the paths, they stay free in every state. -/
theorem ready_chain {e : Env} {paths : List CStr} {w v : World} {t : Trace}
    (hc : Chain (exec e) w t v) (hspares : ∀ s ∈ t, Spares e paths s.call)
    (h : ReadyFor e.cwd paths w.fs) :
    ReadyFor e.cwd paths v.fs ∧ ∀ s ∈ t, ReadyFor e.cwd paths s.after.fs := by
  have hrel := hc.rel (fun a b => ReadyFor e.cwd paths a.fs → ReadyFor e.cwd paths b.fs)
    (fun _ => id) (fun _ _ _ hab hbc => hbc ∘ hab) ?_
  · exact ⟨hrel.1 h, fun s hs => (hrel.2 s hs).2 h⟩
  · intro s hs hready
    have hans := congrArg Prod.snd (hc.answer hs)
    dsimp only at hans
    rw [hans]
    exact hready.exec (hspares s hs)

/-- Directories stay, before and after every step. -/
lemma chain_dirs {e : Env} {w v : World} {t : Trace} {q : Path} (hc : Chain (exec e) w t v)
    (h : w.fs.node q = some .dir) :
    ∀ s ∈ t, s.before.fs.node q = some .dir ∧ s.after.fs.node q = some .dir := by
  have hrel := hc.rel (fun a b => a.fs.node q = some .dir → b.fs.node q = some .dir) (fun _ => id)
    (fun _ _ _ hab hbc => hbc ∘ hab) ?_
  · intro s hs
    exact ⟨(hrel.2 s hs).1 h, (hrel.2 s hs).2 h⟩
  · intro s hs hdir
    have hstays := exec_dir (e := e) (c := s.call) hdir
    rwa [← hc.answer hs] at hstays

/-- The parts of a path before a slash are directories. -/
def Dirs (t : Tree CStr FileRec) (cwd : Path) (path : CStr) : Prop :=
  ∀ u, u ≠ [] → Above u path → t.node (place cwd u) = some .dir

lemma above_tmpOf {u path : CStr} (h : Above u (tmpOf path)) : Above u path := by
  obtain ⟨r, hr⟩ := h
  rw [tmpOf, List.append_eq_append_iff] at hr
  rcases hr with ⟨a, rfl, ha⟩ | ⟨a, rfl, ha⟩
  · have hmem : slash ∈ text ".tmp" := by
      rw [ha]
      simp
    exact absurd hmem (by decide)
  · cases a with
    | nil =>
      have hmem : slash ∈ text ".tmp" := by
        rw [List.nil_append] at ha
        rw [← ha]
        simp
      exact absurd hmem (by decide)
    | cons c cs =>
      obtain ⟨rfl, -⟩ := List.cons_eq_cons.mp ha
      exact ⟨cs, rfl⟩

lemma Dirs.tmpOf {t : Tree CStr FileRec} {cwd : Path} {path : CStr} (h : Dirs t cwd path) :
    Dirs t cwd (CPath.tmpOf path) := fun u hu habove => h u hu (above_tmpOf habove)

/-- `mkdir_p` of a path that is not blocked makes all of it. -/
lemma mkdirP_dirs {e : Env} (hfault : ∀ n u m, e.fault n (.mkdir u m) = none) {w : World}
    {dir : CStr} (m : ℕ) (hcwd : w.fs.node e.cwd = some .dir) (hne : dir ≠ [])
    (hlen : dir.length < pathMax)
    (hfree : ∀ u, u ≠ [] → Cut u dir → w.fs.fileAt (place e.cwd u) = none) :
    Yields (exec e) w (mkdirP dir m) (fun rc _ v => rc = 0 ∧ v.fs.node e.cwd = some .dir ∧
      ∀ u, u ≠ [] → Cut u dir → v.fs.node (place e.cwd u) = some .dir) := by
  have hclear : Clear w.fs e.cwd (trimSlashes dir) := by
    intro u hu habove
    exact hfree u hu (Or.inr (habove.of_prefix (trimSlashes_isPrefix dir)))
  have hgrows := mkdirP_grows e w dir m
  have hzero := (mkdirP_made m hfault hcwd hne hlen).1.mpr hclear
  have hnames := (mkdirP_namesDir m hfault hcwd hne hlen).mpr
    ⟨hclear, hfree dir hne (Cut.refl dir)⟩
  exact ⟨hzero, hgrows.node hcwd, (namesDir_iff hne hlen (hgrows.node hcwd)).mp hnames⟩

/-- The temporary file is there and can be renamed. -/
structure Opened (e : Env) (dest : CStr) (w : World) : Prop where
  here : w.fs.node e.cwd = some .dir
  dirs : Dirs w.fs e.cwd dest
  tmp : ∃ f, w.fs.node (place e.cwd (tmpOf dest)) = some (.file f)
  vacant : w.fs.node (place e.cwd dest) ≠ some .dir

lemma Opened.modify {e : Env} {dest : CStr} {w v : World} {g : FileRec → FileRec}
    (h : Opened e dest w) (hfs : v.fs = w.fs.modifyAt (place e.cwd (CPath.tmpOf dest)) g) :
    Opened e dest v := by
  have hedits : w.fs.Edits v.fs (· = place e.cwd (CPath.tmpOf dest)) := by
    rw [hfs]
    exact Tree.modifyAt_edits _ _ _
  obtain ⟨f, hf⟩ := h.tmp
  have htmp := Tree.modifyAt_fileAt w.fs (place e.cwd (CPath.tmpOf dest)) g
  rw [(Tree.fileAt_eq_some _ _ _).mpr hf, ← hfs, Option.map_some, Tree.fileAt_eq_some] at htmp
  refine ⟨hedits.dir.mpr h.here, ?_, ⟨_, htmp⟩, ?_⟩
  · intro u hu habove
    exact hedits.dir.mpr (h.dirs u hu habove)
  · intro hdir
    exact h.vacant (hedits.dir.mp hdir)

lemma Opened.of_fs {e : Env} {dest : CStr} {w v : World} (h : Opened e dest w)
    (hfs : v.fs = w.fs) : Opened e dest v := by
  obtain ⟨hhere, hdirs, htmp, hvacant⟩ := h
  rw [← hfs] at hhere hdirs htmp hvacant
  exact ⟨hhere, hdirs, htmp, hvacant⟩

/-- A rename between two paths that lead somewhere. -/
lemma rename_succeeds {e : Env} (hfault : ∀ n c, e.fault n c = none) {w v : World}
    {s d : CStr} {r : Except Errno Unit} (hx : exec e w (.rename s d) = (r, v)) {f : FileRec}
    (hs : locate w.fs e.cwd s = .ok (place e.cwd s))
    (hf : w.fs.node (place e.cwd s) = some (.file f))
    (hd : locate w.fs e.cwd d = .ok (place e.cwd d))
    (hvacant : w.fs.node (place e.cwd d) ≠ some .dir) : r = .ok () := by
  have hrename : ∃ t, w.fs.renameAt (place e.cwd s) (place e.cwd d) = .ok t := by
    unfold Tree.renameAt
    rw [hf]
    dsimp only
    split
    · rename_i hdir
      exact absurd hdir hvacant
    · split_ifs
      · exact ⟨_, rfl⟩
      · exact ⟨_, rfl⟩
  obtain ⟨t, ht⟩ := hrename
  simp only [exec, commit, hfault, hs, hd, Bind.bind, Except.bind, ht] at hx
  exact (congrArg Prod.fst hx).symm

lemma unlink_succeeds {e : Env} (hfault : ∀ n c, e.fault n c = none) {w v : World} {p : CStr}
    {r : Except Errno Unit} (hx : exec e w (.unlink p) = (r, v)) {f : FileRec}
    (hl : locate w.fs e.cwd p = .ok (place e.cwd p))
    (hf : w.fs.fileAt (place e.cwd p) = some f) : r = .ok () := by
  have hunlink : ∃ t, w.fs.unlinkAt (place e.cwd p) = .ok t := by
    unfold Tree.unlinkAt
    rw [(Tree.fileAt_eq_some _ _ _).mp hf]
    exact ⟨_, rfl⟩
  obtain ⟨t, ht⟩ := hunlink
  simp only [exec, commit, hfault, hl, Bind.bind, Except.bind, ht] at hx
  exact (congrArg Prod.fst hx).symm

/-- A file that can be there can be opened. -/
lemma openAs_succeeds {α : Type} {e : Env} {w v : World} {c : Call} {p : CStr} {m : ℕ}
    {handle : Path → α} {r : Except Errno α} (hfault : e.fault w.clock c = none)
    (hx : openAs e w c p m handle = (r, v)) (hl : locate w.fs e.cwd p = .ok (place e.cwd p))
    (hvacant : w.fs.node (place e.cwd p) ≠ some .dir) : r = .ok (handle (place e.cwd p)) := by
  have hcreate : ∃ t, create e w.fs (place e.cwd p) m = .ok t := by
    unfold create Tree.openAt
    split
    · exact ⟨_, rfl⟩
    · rename_i hdir
      exact absurd hdir hvacant
    · exact ⟨_, rfl⟩
  obtain ⟨t, ht⟩ := hcreate
  simp only [openAs, hfault, hl, ht] at hx
  exact (congrArg Prod.fst hx).symm

/-- The state after the temporary file was opened. -/
lemma Opened.of_openAs {α : Type} {e : Env} {w v : World} {c : Call} {path : CStr} {m : ℕ}
    {handle : Path → α} {a : α} (hx : openAs e w c (CPath.tmpOf path) m handle = (.ok a, v))
    (hcwd : w.fs.node e.cwd = some .dir) (hdirs : Dirs w.fs e.cwd path)
    (hvacant : w.fs.node (place e.cwd path) ≠ some .dir) : Opened e path v := by
  have hedits := openAs_edits e w c (CPath.tmpOf path) m handle
  rw [hx] at hedits
  obtain ⟨-, -, -, f, hf, -⟩ := openAs_ok hx
  refine ⟨hedits.dir.mpr hcwd, ?_, ⟨f, hf⟩, ?_⟩
  · intro u hu habove
    exact hedits.dir.mpr (hdirs u hu habove)
  · intro hdir
    exact hvacant (hedits.dir.mp hdir)

lemma tmpOf_ne_nil (s : CStr) : tmpOf s ≠ [] := by
  unfold tmpOf
  exact List.append_ne_nil_of_right_ne_nil s (by decide)

lemma join_ne_nil (d f : CStr) : join d f ≠ [] := by
  unfold join
  exact List.append_ne_nil_of_right_ne_nil d (List.cons_ne_nil slash f)

/-- Without failures `stat` tells whether something is there. -/
lemma stat_answers {e : Env} (hfault : ∀ n c, e.fault n c = none) {w v : World} {p : CStr}
    {r : Except Errno Unit} (hx : exec e w (.stat p) = (r, v)) :
    r.isOk = true ↔ sourceAt w.fs e.cwd p ≠ .missing := by
  simp only [exec, refuse, hfault] at hx
  have hr := congrArg Prod.fst hx
  dsimp only at hr
  rw [← hr]
  cases sourceAt w.fs e.cwd p with
  | missing => simp [Except.isOk, Except.toBool]
  | directory => simp [Except.isOk, Except.toBool]
  | file b => simp [Except.isOk, Except.toBool]

end OtaFetch.Storing
