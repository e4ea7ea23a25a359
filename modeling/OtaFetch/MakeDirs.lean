import OtaFetch.Fetch

/-!
# Making directories

`mkdir_p` makes every part of a path that ends before a slash, then the path
itself, and takes `EEXIST` for success each time. A part that is a regular file
stops it at the next component; a regular file at the end of the path goes
unnoticed.
-/
namespace OtaFetch.MakeDirs
open CPath FileTree Interaction Machine Fetch

/-- `mkdir(temp, mode) != 0 && errno != EEXIST` in `enroll.c`. -/
def mkdirFails (path : CStr) (mode : ℕ) : Proc Bool := do
  match ← call (.mkdir path mode) with
  | .ok () => pure false
  | .error err => pure (decide (err ≠ .eexist))

/-- The loop of the copy in `enroll.c`. -/
def enrollMkdirLoop (mode : ℕ) : CStr → CStr → Proc ℤ
  | done, [] => do
    if ← mkdirFails done mode then pure (-1) else pure 0
  | done, c :: rest =>
    if c = slash then do
      if ← mkdirFails done mode then pure (-1) else enrollMkdirLoop mode (done ++ [c]) rest
    else enrollMkdirLoop mode (done ++ [c]) rest

/-- `mkdir_p` of `enroll.c`. -/
def enrollMkdirP (path : CStr) (mode : ℕ) : Proc ℤ :=
  if path = [] then pure (-1)
  else if pathMax ≤ path.length then pure (-1)
  else
    let temp :=
      if 1 < path.length ∧ path.getLast? = some slash then path.dropLast else path
    enrollMkdirLoop mode (temp.take 1) (temp.drop 1)

lemma mkdirFails_bind {α : Type} (path : CStr) (mode : ℕ) (f : Bool → Proc α) :
    (mkdirFails path mode >>= f) = (mkdirOne path mode >>= fun b => f (!b)) := by
  unfold mkdirFails mkdirOne
  refine congrArg (Prog.call _) (funext ?_)
  intro r
  cases r with
  | ok x => rfl
  | error err => cases err <;> rfl

lemma enrollMkdirLoop_eq (mode : ℕ) (done rest : CStr) :
    enrollMkdirLoop mode done rest = mkdirLoop mode done rest := by
  induction rest generalizing done with
  | nil =>
    rw [enrollMkdirLoop, mkdirLoop, mkdirFails_bind]
    congr 1
    funext b
    cases b <;> rfl
  | cons c rest ih =>
    rw [enrollMkdirLoop, mkdirLoop, mkdirFails_bind, ih]
    split
    · congr 1
      funext b
      cases b <;> rfl
    · rfl

/-- The two copies are one program. -/
theorem enrollMkdirP_eq (path : CStr) (mode : ℕ) : enrollMkdirP path mode = mkdirP path mode := by
  rw [enrollMkdirP, mkdirP]
  simp only [enrollMkdirLoop_eq, dropSlash]

/-- The path leads to a directory. -/
def NamesDir (t : Tree CStr FileRec) (cwd : Path) (path : CStr) : Prop :=
  ∃ q, locate t cwd path = .ok q ∧ t.node q = some .dir

instance (t : Tree CStr FileRec) (cwd : Path) (path : CStr) :
    Decidable (NamesDir t cwd path) :=
  match h : locate t cwd path with
  | .error _ => isFalse (by rintro ⟨q, hq, -⟩; rw [h] at hq; cases hq)
  | .ok q =>
    decidable_of_iff (t.node q = some .dir)
      ⟨fun hd => ⟨q, h, hd⟩, fun ⟨_, hq, hd⟩ => by rw [h] at hq; cases hq; exact hd⟩

/-- Every part of `s` before a slash exists. -/
def Laid (t : Tree CStr FileRec) (cwd : Path) (s : CStr) : Prop :=
  ∀ u, u ≠ [] → Above u s → t.node (place cwd u) ≠ none

/-- No part of `s` before a slash is a regular file. -/
def Clear (t : Tree CStr FileRec) (cwd : Path) (s : CStr) : Prop :=
  ∀ u, u ≠ [] → Above u s → t.fileAt (place cwd u) = none

lemma dir_iff {t : Tree CStr FileRec} {q : Path} :
    t.node q = some .dir ↔ t.node q ≠ none ∧ t.fileAt q = none := by
  rw [Tree.fileAt_eq_none]
  constructor
  · intro h
    exact ⟨by simp [h], .inr h⟩
  · rintro ⟨hn, h⟩
    exact h.resolve_left hn

lemma locate_of_parts {t : Tree CStr FileRec} {cwd : Path} {path : CStr} (hne : path ≠ [])
    (hlen : path.length < pathMax) (hcwd : t.node cwd = some .dir)
    (h : ∀ u, u ≠ [] → Above u path → t.node (place cwd u) = some .dir) :
    locate t cwd path = .ok (place cwd path) := by
  obtain ⟨q, hq⟩ := (walk_origin_iff hcwd (List.prefix_refl path)).mpr h
  rw [locate, if_neg hne, if_neg (by omega), hq, Tree.walk_ok hq, place]

lemma namesDir_iff {t : Tree CStr FileRec} {cwd : Path} {path : CStr} (hne : path ≠ [])
    (hlen : path.length < pathMax) (hcwd : t.node cwd = some .dir) :
    NamesDir t cwd path ↔ ∀ u, u ≠ [] → Cut u path → t.node (place cwd u) = some .dir := by
  constructor
  · rintro ⟨q, hq, hdir⟩ u hu hcut
    rw [locate, if_neg hne, if_neg (by omega)] at hq
    rcases hcut with rfl | habove
    · rwa [Tree.walk_ok hq] at hdir
    · exact (walk_origin_iff hcwd (List.prefix_refl path)).mp ⟨q, hq⟩ u hu habove
  · intro h
    have hlocate := locate_of_parts hne hlen hcwd (fun u hu habove => h u hu (.inr habove))
    exact ⟨_, hlocate, h path hne (Cut.refl path)⟩

/-- Whatever is refused, `mkdir_p` does nothing but make directories at the parts
of its path. -/
lemma mkdirP_grows (e : Env) (w : World) (path : CStr) (mode : ℕ) :
    w.fs.Grows (run (exec e) (mkdirP path mode) w).final.fs
      (fun q => ∃ u, u ≠ [] ∧ Cut u path ∧ q = place e.cwd u) := by
  have hchain := run_chain (exec e) (mkdirP path mode) w
  obtain ⟨-, hcalls⟩ := Yields.of_obeys (w := w) (mkdirP_obeys (Lawful e) path mode) (exec_lawful e)
  refine (hchain.rel (fun a b => a.fs.Grows b.fs
    (fun q => ∃ u, u ≠ [] ∧ Cut u path ∧ q = place e.cwd u)) (fun _ => Tree.Grows.refl _ _)
    (fun _ _ _ => Tree.Grows.trans) ?_).1
  intro s hs
  obtain ⟨u, m, hcall, hu, hcut⟩ := hcalls s hs
  have hans := congrArg Prod.snd (hchain.answer hs)
  dsimp only at hans
  rw [hcall] at hans
  rw [hans]
  rcases mkdir_fs e s.before u m with hsame | hmade
  · rw [hsame]
    exact Tree.Grows.refl _ _
  · rw [hmade]
    exact (Tree.makeDir_grows _ _).mono (fun q hq => ⟨u, hu, hcut, hq⟩)

/-- Without `..`, a part whose place holds a file has a shortest part with that
place, and a lookup finds it. -/
lemma free_of_lookup {t : Tree CStr FileRec} {cwd : Path} {path : CStr}
    (hcwd : t.node cwd = some .dir) (hlen : path.length < pathMax) (hup : NoUp path)
    (h : ∀ u, u ≠ [] → Cut u path → ∀ d, sourceAt t cwd u ≠ .file d) :
    ∀ u, u ≠ [] → Cut u path → t.fileAt (place cwd u) = none := by
  intro u
  induction hn : u.length using Nat.strong_induction_on generalizing u with
  | _ n ih =>
    intro hu hcut
    by_contra hfile
    obtain ⟨f, hf⟩ := Option.ne_none_iff_exists'.mp hfile
    rw [Tree.fileAt_eq_some] at hf
    have hupu : NoUp u := by
      rcases hcut with rfl | habove
      · exact hup
      · exact hup.of_above habove
    have hshort : u.length < pathMax := by
      rcases hcut with rfl | ⟨r, rfl⟩
      · exact hlen
      · rw [List.length_append] at hlen
        omega
    have hparts : ∀ v, v ≠ [] → Above v u → t.node (place cwd v) = some .dir := by
      intro v hv habove
      have hlt : v.length < n := by
        obtain ⟨r, rfl⟩ := habove
        rw [← hn, List.length_append, List.length_cons]
        omega
      have hsuffix : place cwd v <:+ place cwd u := by
        rw [← dirPlace_of_ne_nil hu]
        exact place_cut_suffix hv hupu (.inr habove)
      rw [dir_iff]
      refine ⟨Tree.node_suffix hsuffix (by simp [hf]), ?_⟩
      exact ih _ hlt v rfl hv (Cut.trans (.inr habove) hcut)
    have hsource : sourceAt t cwd u = .file f.data := by
      rw [sourceAt, locate_of_parts hu hshort hcwd hparts]
      simp [hf]
    exact h u hu hcut _ hsource

/-- `mkdir` where nothing is refused: it makes what is missing. -/
lemma exec_mkdir {e : Env} (hfault : ∀ n u m, e.fault n (.mkdir u m) = none) (w : World)
    (u : CStr) (m : ℕ) :
    exec e w (.mkdir u m) =
      match locateDir w.fs e.cwd u with
      | .error err => (.error err, w.tick e w.fs)
      | .ok q =>
        match w.fs.node q with
        | some _ => (.error .eexist, w.tick e w.fs)
        | none => (.ok (), w.tick e (w.fs.makeDir q)) := by
  simp only [exec, commit, hfault]
  cases locateDir w.fs e.cwd u with
  | error err => rfl
  | ok q =>
    cases hq : w.fs.node q with
    | none => simp [Bind.bind, Except.bind, Tree.mkdirAt, hq]
    | some x => simp [Bind.bind, Except.bind, Tree.mkdirAt, hq]

lemma locateDir_walk (t : Tree CStr FileRec) (cwd : Path) {u : CStr} (hne : u ≠ [])
    (hlen : u.length < pathMax) :
    locateDir t cwd u = t.walk (origin cwd u) (comps (trimSlashes u)) := by
  rw [locateDir, if_neg hne, if_neg (by omega)]
  rfl

lemma locateDir_ok_iff {t : Tree CStr FileRec} {cwd : Path} {u : CStr}
    (hcwd : t.node cwd = some .dir) (hne : u ≠ []) (hlen : u.length < pathMax)
    (hlaid : Laid t cwd u) :
    (∃ q, locateDir t cwd u = .ok q) ↔ Clear t cwd (trimSlashes u) := by
  rw [locateDir_walk t cwd hne hlen, walk_origin_iff hcwd (trimSlashes_isPrefix u)]
  constructor
  · intro h v hv habove
    exact (dir_iff.mp (h v hv habove)).2
  · intro h v hv habove
    exact dir_iff.mpr ⟨hlaid v hv (habove.of_prefix (trimSlashes_isPrefix u)), h v hv habove⟩

/-- When the parts before the slashes are there, one `mkdir` counts as done just
if none of them is a file on the way. -/
lemma mkdirOne_made {e : Env} {w : World} {u : CStr} {m : ℕ}
    (hfault : ∀ n u m, e.fault n (.mkdir u m) = none) (hcwd : w.fs.node e.cwd = some .dir)
    (hne : u ≠ []) (hlen : u.length < pathMax) (hlaid : Laid w.fs e.cwd u) :
    Yields (exec e) w (mkdirOne u m) (fun b _ v =>
      w.fs.Grows v.fs (· = place e.cwd u) ∧
      (b = true ↔ Clear w.fs e.cwd (trimSlashes u)) ∧
      (b = true → v.fs.node (place e.cwd u) ≠ none)) := by
  have hlocate := locateDir_walk w.fs e.cwd hne hlen
  have hclear := locateDir_ok_iff hcwd hne hlen hlaid
  unfold mkdirOne
  refine Yields.call ?_
  intro r v hx
  rw [exec_mkdir hfault] at hx
  cases hloc : locateDir w.fs e.cwd u with
  | error err =>
    have hblocked : ¬ Clear w.fs e.cwd (trimSlashes u) := by
      rw [← hclear, hloc]
      simp
    have herr : err ≠ .eexist := by
      rw [hlocate] at hloc
      rcases Tree.walk_error hloc with rfl | rfl <;> simp
    rw [hloc] at hx
    cases hx
    split
    · rename_i hr
      cases hr
    · rename_i hr
      exact absurd (Except.error.inj hr) herr
    · exact Yields.ret ⟨Tree.Grows.refl _ _, by simpa using hblocked, by simp⟩
  | ok q =>
    have hdone : Clear w.fs e.cwd (trimSlashes u) := hclear.mp ⟨q, hloc⟩
    obtain rfl := locateDir_ok hloc
    rw [hloc] at hx
    dsimp only at hx
    split at hx
    · rename_i x hnode
      cases hx
      have hthere : w.fs.node (place e.cwd u) ≠ none := by
        rw [hnode]
        simp
      exact Yields.ret ⟨Tree.Grows.refl _ _, by simpa using hdone, fun _ => hthere⟩
    · rename_i hnode
      cases hx
      rw [hlocate] at hloc
      have hholds : w.fs.Holds (place e.cwd u) :=
        Tree.walk_holds (comps_ne_nil _) hloc (by simp [hnode])
      have hthere : (w.fs.makeDir (place e.cwd u)).node (place e.cwd u) ≠ none := by
        rw [Tree.makeDir_node_self hholds hnode]
        simp
      exact Yields.ret ⟨Tree.makeDir_grows _ _, by simpa using hdone, fun _ => hthere⟩

lemma Laid.grows {t t' : Tree CStr FileRec} {cwd : Path} {s : CStr} {S : Path → Prop}
    (h : Laid t cwd s) (hg : t.Grows t' S) : Laid t' cwd s := by
  intro u hu habove
  obtain ⟨x, hx⟩ := Option.ne_none_iff_exists'.mp (h u hu habove)
  rw [hg.node hx]
  simp

lemma clear_grows {t t' : Tree CStr FileRec} {cwd : Path} {s : CStr} {S : Path → Prop}
    (hg : t.Grows t' S) : Clear t' cwd s ↔ Clear t cwd s := by
  unfold Clear
  simp only [hg.fileAt]

lemma Clear.of_prefix {t : Tree CStr FileRec} {cwd : Path} {s s' : CStr}
    (h : Clear t cwd s') (hpre : s <+: s') : Clear t cwd s :=
  fun u hu habove => h u hu (habove.of_prefix hpre)

lemma above_concat {u s : CStr} {c : UInt8} (h : Above u (s ++ [c])) :
    Above u s ∨ c = slash ∧ u = s := by
  obtain ⟨r, hr⟩ := h
  induction r using List.reverseRecOn with
  | nil =>
    obtain ⟨hs, hc⟩ := List.append_inj' hr rfl
    exact .inr ⟨(List.cons_eq_cons.mp hc).1, hs.symm⟩
  | append_singleton r d =>
    rw [← List.cons_append, ← List.append_assoc] at hr
    exact .inl ⟨r, (List.append_inj' hr rfl).1⟩

/-- The loop makes the parts in order; it gets through just if no file is in its
way, and then everything is there. -/
lemma mkdirLoop_made {e : Env} {w : World} {m : ℕ}
    (hfault : ∀ n u m, e.fault n (.mkdir u m) = none) (hcwd : w.fs.node e.cwd = some .dir)
    {done : CStr} (rest : CStr) (hne : done ≠ []) (hlen : (done ++ rest).length < pathMax)
    (hlaid : Laid w.fs e.cwd done) :
    Yields (exec e) w (mkdirLoop m done rest) (fun rc _ v =>
      (rc = 0 ↔ Clear w.fs e.cwd (trimSlashes (done ++ rest))) ∧
      (rc = 0 → Laid v.fs e.cwd (done ++ rest) ∧
        v.fs.node (place e.cwd (done ++ rest)) ≠ none)) := by
  induction rest generalizing done w with
  | nil =>
    rw [List.append_nil] at hlen ⊢
    unfold mkdirLoop
    refine Yields.bind _ (mkdirOne_made hfault hcwd hne hlen hlaid) ?_
    rintro b t v ⟨hgrows, hclear, hthere⟩ -
    cases b with
    | true =>
      exact Yields.ret ⟨by simpa using hclear, fun _ => ⟨hlaid.grows hgrows, hthere rfl⟩⟩
    | false => exact Yields.ret ⟨by simpa using hclear, by simp⟩
  | cons c rest ih =>
    have hassoc : done ++ c :: rest = (done ++ [c]) ++ rest := by simp
    have hshort : done.length < pathMax := by
      rw [List.length_append] at hlen
      omega
    rw [hassoc] at hlen ⊢
    unfold mkdirLoop
    split
    · refine Yields.bind _ (mkdirOne_made hfault hcwd hne hshort hlaid) ?_
      rintro b t v ⟨hgrows, hclear, hthere⟩ -
      cases b with
      | true =>
        have hnext : Laid v.fs e.cwd (done ++ [c]) := by
          intro u hu habove
          rcases above_concat habove with hbefore | ⟨-, rfl⟩
          · exact hlaid.grows hgrows u hu hbefore
          · exact hthere rfl
        have hrest := ih (hgrows.node hcwd) (by simp) hlen hnext
        rw [← clear_grows hgrows]
        exact hrest
      | false =>
        have hblocked : ¬ Clear w.fs e.cwd (trimSlashes ((done ++ [c]) ++ rest)) := by
          intro h
          rw [List.append_assoc] at h
          have hpart := h.of_prefix (trimSlashes_append_isPrefix done _)
          exact Bool.false_ne_true (hclear.mpr hpart)
        exact Yields.ret ⟨by simpa using hblocked, by simp⟩
    · rename_i hc
      refine ih hcwd (by simp) hlen ?_
      intro u hu habove
      rcases above_concat habove with hbefore | ⟨heq, -⟩
      · exact hlaid u hu hbefore
      · exact absurd heq hc

lemma trimSlashes_dropSlash (path : CStr) : trimSlashes (dropSlash path) = trimSlashes path := by
  rcases dropSlash_cases path with h | h
  · rw [h]
  · nth_rewrite 2 [h]
    rw [trimSlashes_concat]

lemma place_dropSlash (cwd : Path) {path : CStr} (hne : path ≠ []) :
    place cwd (dropSlash path) = place cwd path := by
  have hpre : dropSlash path <+: path := by
    rcases dropSlash_cases path with h | h
    · rw [h]
    · exact ⟨[slash], h.symm⟩
  exact place_of_trimSlashes (dropSlash_ne_nil hne) hpre (trimSlashes_dropSlash path)

/-- Where nothing is refused, `mkdir_p` gets through just if no proper part of
the path is a regular file, and then every part exists. -/
lemma mkdirP_made {e : Env} {w : World} {path : CStr} (mode : ℕ)
    (hfault : ∀ n u m, e.fault n (.mkdir u m) = none) (hcwd : w.fs.node e.cwd = some .dir)
    (hne : path ≠ []) (hlen : path.length < pathMax) :
    Yields (exec e) w (mkdirP path mode) (fun rc _ v =>
      (rc = 0 ↔ Clear w.fs e.cwd (trimSlashes path)) ∧
      (rc = 0 → Laid v.fs e.cwd (dropSlash path) ∧ v.fs.node (place e.cwd path) ≠ none)) := by
  have htemp : (dropSlash path).take 1 ++ (dropSlash path).drop 1 = dropSlash path :=
    List.take_append_drop 1 _
  have hfirst : (dropSlash path).take 1 ≠ [] := by
    simpa using dropSlash_ne_nil hne
  have hshort : (dropSlash path).length < pathMax := by
    unfold dropSlash
    split_ifs
    · rw [List.length_dropLast]
      omega
    · exact hlen
  have hlaid : Laid w.fs e.cwd ((dropSlash path).take 1) := by
    rintro u hu ⟨r, hr⟩
    have hone := congrArg List.length hr
    have hpos := List.length_pos_iff.mpr hu
    rw [List.length_take, List.length_append, List.length_cons] at hone
    omega
  have hloop := mkdirLoop_made (m := mode) hfault hcwd ((dropSlash path).drop 1) hfirst
    (by rw [htemp]; exact hshort) hlaid
  rw [htemp, trimSlashes_dropSlash, place_dropSlash e.cwd hne] at hloop
  rw [mkdirP, if_neg hne, if_neg (by omega)]
  exact hloop

/-- Afterwards the path names a directory just if no part of it is a file, the
path itself among them. -/
lemma mkdirP_namesDir {e : Env} {w : World} {path : CStr} (mode : ℕ)
    (hfault : ∀ n u m, e.fault n (.mkdir u m) = none) (hcwd : w.fs.node e.cwd = some .dir)
    (hne : path ≠ []) (hlen : path.length < pathMax) :
    Yields (exec e) w (mkdirP path mode) (fun _ _ v =>
      NamesDir v.fs e.cwd path ↔
        Clear w.fs e.cwd (trimSlashes path) ∧ w.fs.fileAt (place e.cwd path) = none) := by
  obtain ⟨hzero, hmade⟩ := mkdirP_made mode hfault hcwd hne hlen
  have hgrows := mkdirP_grows e w path mode
  rw [Yields, namesDir_iff hne hlen (hgrows.node hcwd), ← clear_grows hgrows, ← hgrows.fileAt]
  rw [← clear_grows hgrows] at hzero
  constructor
  · intro hdirs
    refine ⟨?_, (dir_iff.mp (hdirs path hne (Cut.refl path))).2⟩
    intro u hu habove
    exact (dir_iff.mp (hdirs u hu (.inr (habove.of_prefix (trimSlashes_isPrefix path))))).2
  · rintro ⟨hclear, hfile⟩ u hu hcut
    obtain ⟨hlaid, hthere⟩ := hmade (hzero.mpr hclear)
    rw [dir_iff]
    rcases hcut with rfl | habove
    · exact ⟨hthere, hfile⟩
    · rcases above_trimSlashes habove with hinner | hsame
      · have hbefore : Above u (dropSlash path) := by
          rw [← trimSlashes_dropSlash] at hinner
          exact hinner.of_prefix (trimSlashes_isPrefix _)
        exact ⟨hlaid u hu hbefore, hclear u hu hinner⟩
      · obtain ⟨r, hr⟩ := habove
        rw [place_of_trimSlashes hu ⟨_, hr.symm⟩ hsame]
        exact ⟨hthere, hfile⟩

/-- Whatever fails, only directories at parts of the path are made, and the two
copies do the same. Where no call is refused, the result is 0 just if the path
names a directory afterwards, except where it ends at a regular file that nothing
keeps `mkdir_p` from reaching. Where no part of the path has a file in its place,
the path becomes a directory; without `..` it is enough that a lookup of the
parts finds no file. -/
theorem mkdirP_names_dir_iff (e : Env) (w : World) (path : CStr) (mode : ℕ) :
    w.fs.Grows (run (exec e) (mkdirP path mode) w).final.fs
      (fun q => ∃ u, u ≠ [] ∧ Cut u path ∧ q = place e.cwd u) ∧
    run (exec e) (enrollMkdirP path mode) w = run (exec e) (mkdirP path mode) w ∧
    ((∀ n u m, e.fault n (.mkdir u m) = none) → w.fs.node e.cwd = some .dir →
      path ≠ [] → path.length < pathMax →
      (((run (exec e) (mkdirP path mode) w).value = 0 ↔
          NamesDir (run (exec e) (mkdirP path mode) w).final.fs e.cwd path) ↔
        (w.fs.fileAt (place e.cwd path) = none ∨ ¬ Clear w.fs e.cwd (trimSlashes path))) ∧
      ((∀ u, u ≠ [] → Cut u path → w.fs.fileAt (place e.cwd u) = none) →
        (run (exec e) (mkdirP path mode) w).value = 0 ∧
          NamesDir (run (exec e) (mkdirP path mode) w).final.fs e.cwd path) ∧
      (NoUp path → (∀ u, u ≠ [] → Cut u path → ∀ d, sourceAt w.fs e.cwd u ≠ .file d) →
        (run (exec e) (mkdirP path mode) w).value = 0 ∧
          NamesDir (run (exec e) (mkdirP path mode) w).final.fs e.cwd path)) := by
  refine ⟨mkdirP_grows e w path mode, by rw [enrollMkdirP_eq], ?_⟩
  intro hfault hcwd hne hlen
  have hzero := (mkdirP_made mode hfault hcwd hne hlen).1
  have hnames := mkdirP_namesDir mode hfault hcwd hne hlen
  rw [Yields] at hnames
  rw [hzero, hnames]
  have hmade : (∀ u, u ≠ [] → Cut u path → w.fs.fileAt (place e.cwd u) = none) →
      Clear w.fs e.cwd (trimSlashes path) ∧ Clear w.fs e.cwd (trimSlashes path) ∧
        w.fs.fileAt (place e.cwd path) = none := by
    intro hfree
    have hclear : Clear w.fs e.cwd (trimSlashes path) := by
      intro u hu habove
      exact hfree u hu (.inr (habove.of_prefix (trimSlashes_isPrefix path)))
    exact ⟨hclear, hclear, hfree path hne (Cut.refl path)⟩
  refine ⟨by tauto, hmade, ?_⟩
  intro hup hlookup
  exact hmade (free_of_lookup hcwd hlen hup hlookup)

/-- A regular file `f` and nothing else. -/
def fileTree : Tree CStr FileRec := bareTree.put [text "f"] ⟨text "x", 420⟩

def calmEnv : Env := .calm (fun _ _ => ⟨[], 0, 200⟩) .empty

theorem mkdirP_names_dir_slashes :
    (run (exec calmEnv) (mkdirP (text "a//b/") 493) (.at fileTree)).value = 0 ∧
    NamesDir (run (exec calmEnv) (mkdirP (text "a//b/") 493) (.at fileTree)).final.fs []
      (text "a//b/") := by
  have hzero : (run (exec calmEnv) (mkdirP (text "a//b/") 493) (.at fileTree)).value = 0 := by
    decide +kernel
  have hiff := ((mkdirP_names_dir_iff calmEnv (.at fileTree) (text "a//b/") 493).2.2
    (fun _ _ _ => rfl) (by decide +kernel) (by decide) (by decide)).1
  exact ⟨hzero, (hiff.mpr (.inl (by decide +kernel))).mp hzero⟩

/-- A regular file in the place of the directory is reported as success. -/
theorem mkdirP_accepts_file :
    (run (exec calmEnv) (mkdirP (text "f") 493) (.at fileTree)).value = 0 ∧
    ¬ NamesDir (run (exec calmEnv) (mkdirP (text "f") 493) (.at fileTree)).final.fs []
      (text "f") := by
  decide +kernel

end OtaFetch.MakeDirs
