import OtaFetch.Fetch

/-!
# Replacing a file through a temporary one

`write_file_atomic` of the enrollment: write, `fchmod`, `fsync`, close, rename,
and `fsync` of the directory. Until the rename the file is as it was, and after
it the file is new, whatever the function returns: a failing directory `fsync`
makes it return -1 with the new file in place. The writing loop starts over on
`EINTR`, so it is given a number of calls to make.
-/
namespace OtaFetch.AtomicWrite
open CPath FileTree Interaction Machine Config Fetch

/-- The length is checked before the path is copied and cut. -/
def ensureParentDir (path : CStr) (mode : ℕ) : Proc ℤ :=
  if path = [] ∨ pathMax ≤ path.length then pure (-1)
  else
    match cutLast path with
    | none => pure 0
    | some dir => if dir = [] then pure 0 else mkdirP dir mode

def fsyncParentDir (path : CStr) : Proc ℤ :=
  if path = [] ∨ pathMax ≤ path.length then pure (-1)
  else
    match cutLast path with
    | none => pure 0
    | some dir =>
      if dir = [] then pure 0
      else do
        match ← call (.openDir dir) with
        | .error _ => pure (-1)
        | .ok fd => do
          let synced ← call (.fsync fd)
          let _ ← call (.close fd)
          pure (if synced = .ok () then 0 else -1)

/-- A call that is interrupted is made again. -/
def writeAll : ℕ → Path → Bytes → Proc (Option ℤ)
  | _, _, [] => pure (some 0)
  | 0, _, _ :: _ => pure none
  | fuel + 1, fd, b :: rest => do
    match ← call (.write fd (b :: rest)) with
    | .error .eintr => writeAll fuel fd (b :: rest)
    | .error _ => pure (some (-1))
    | .ok n => writeAll fuel fd ((b :: rest).drop n)

/-- The label `cleanup`, reached with `rc != 0`. -/
def writeCleanup (tmpPath : CStr) (fd : Option Path) : Proc (Option ℤ) := do
  match fd with
  | some fd => do
    let _ ← call (.close fd)
    let _ ← call (.unlink tmpPath)
    pure (some (-1))
  | none => do
    let _ ← call (.unlink tmpPath)
    pure (some (-1))

/-- `write_file_atomic` from the point where the temporary file is open. -/
def writeOpened (fuel : ℕ) (path : CStr) (data : Bytes) (mode : ℕ) (fd : Path) :
    Proc (Option ℤ) := do
  let tmpPath := tmpOf path
  match ← writeAll fuel fd data with
  | none => pure none
  | some rc =>
    if rc ≠ 0 then writeCleanup tmpPath (some fd)
    else
      match ← call (.fchmod fd mode) with
      | .error _ => writeCleanup tmpPath (some fd)
      | .ok () =>
        match ← call (.fsync fd) with
        | .error _ => writeCleanup tmpPath (some fd)
        | .ok () =>
          match ← call (.close fd) with
          | .error _ => writeCleanup tmpPath none
          | .ok () =>
            match ← call (.rename tmpPath path) with
            | .error _ => writeCleanup tmpPath none
            | .ok () =>
              if (← fsyncParentDir path) ≠ 0 then writeCleanup tmpPath none
              else pure (some 0)

def writeFileAtomic (fuel : ℕ) (path : CStr) (data : Bytes) (mode : ℕ) : Proc (Option ℤ) := do
  if (← ensureParentDir path 448) ≠ 0 then pure (some (-1))
  else if !(← call .malloc) then pure (some (-1))
  else
    match ← call (.openWrite (tmpOf path) mode) with
    | .error _ => writeCleanup (tmpOf path) none
    | .ok fd => writeOpened fuel path data mode fd

/-- A call that writes no file. -/
def Silent (e : Env) (c : Call) : Prop := ∀ q, ¬ Writes e c q

/-- Calls that write the temporary file of `path` and nothing else. -/
def TmpOnly (e : Env) (path : CStr) (c : Call) : Prop :=
  (∀ q, Writes e c q → q = place e.cwd (tmpOf path)) ∧ ∀ s d, c ≠ .rename s d

lemma Silent.tmpOnly {e : Env} {c : Call} (h : Silent e c) (path : CStr) : TmpOnly e path c := by
  refine ⟨fun q hq => absurd hq (h q), ?_⟩
  intro s d hc
  rw [hc] at h
  exact h _ (.inl rfl)

lemma tmpOnly_unlink (e : Env) (path : CStr) : TmpOnly e path (.unlink (tmpOf path)) :=
  ⟨fun _ hq => hq, by simp⟩

lemma ensureParentDir_obeys {E : (c : Call) → Resp c → Prop} {A : Call → Prop}
    (hmkdir : ∀ u m, A (.mkdir u m)) (path : CStr) (mode : ℕ) :
    Obeys E A (fun _ => True) (ensureParentDir path mode) := by
  unfold ensureParentDir
  split
  · exact Obeys.ret trivial
  · split
    · exact Obeys.ret trivial
    · rename_i dir _
      split
      · exact Obeys.ret trivial
      · refine (mkdirP_obeys E dir mode).mono (fun _ _ => id) ?_ (fun _ _ => trivial)
        intro c hc
        obtain ⟨u, m, rfl, -⟩ := hc
        exact hmkdir u m

lemma fsyncParentDir_obeys {E : (c : Call) → Resp c → Prop} {A : Call → Prop}
    (hopen : ∀ d, A (.openDir d)) (hsync : ∀ fd, A (.fsync fd)) (hclose : ∀ fd, A (.close fd))
    (path : CStr) : Obeys E A (fun _ => True) (fsyncParentDir path) := by
  unfold fsyncParentDir
  split
  · exact Obeys.ret trivial
  · split
    · exact Obeys.ret trivial
    · split
      · exact Obeys.ret trivial
      · refine Obeys.call (hopen _) (fun r _ => ?_)
        split
        · exact Obeys.ret trivial
        · refine Obeys.call (hsync _) (fun _ _ => ?_)
          refine Obeys.call (hclose _) (fun _ _ => ?_)
          exact Obeys.ret trivial

lemma writeCleanup_obeys {E : (c : Call) → Resp c → Prop} {A : Call → Prop} {path : CStr}
    (hclose : ∀ fd, A (.close fd)) (hunlink : A (.unlink (tmpOf path))) (fd : Option Path) :
    Obeys E A (· = some (-1)) (writeCleanup (tmpOf path) fd) := by
  cases fd with
  | none => exact Obeys.call hunlink (fun _ _ => Obeys.ret rfl)
  | some fd =>
    refine Obeys.call (hclose fd) (fun _ _ => ?_)
    exact Obeys.call hunlink (fun _ _ => Obeys.ret rfl)

/-- The loop writes what is left of the data, again and again. -/
lemma writeAll_obeys {E : (c : Call) → Resp c → Prop} {A : Call → Prop} {fd : Path}
    (fuel : ℕ) (data : Bytes) (hwrite : ∀ rest, rest <:+ data → A (.write fd rest)) :
    Obeys E A (fun _ => True) (writeAll fuel fd data) := by
  induction fuel generalizing data with
  | zero =>
    cases data with
    | nil => exact Obeys.ret trivial
    | cons b rest => exact Obeys.ret trivial
  | succ fuel ih =>
    cases data with
    | nil => exact Obeys.ret trivial
    | cons b rest =>
      unfold writeAll
      refine Obeys.call (hwrite _ (List.suffix_refl _)) (fun r _ => ?_)
      split
      · exact ih _ hwrite
      · exact Obeys.ret trivial
      · exact ih _ fun left hleft => hwrite left (hleft.trans (List.drop_suffix _ _))

lemma exec_write_fileAt {e : Env} {w v : World} {fd : Path} {data : Bytes} {n : ℕ}
    (h : exec e w (.write fd data) = (.ok n, v)) :
    v.fs.fileAt fd = (w.fs.fileAt fd).map fun f => { f with data := f.data ++ data.take n } := by
  simp only [exec] at h
  split at h
  · cases h
  · cases h
    exact Tree.modifyAt_fileAt _ _ _

lemma exec_write_ok {e : Env} {w v : World} {fd : Path} {data : Bytes} {n : ℕ} {f : FileRec}
    (h : exec e w (.write fd data) = (.ok n, v)) (hf : w.fs.node fd = some (.file f)) :
    v.fs.node fd = some (.file { f with data := f.data ++ data.take n }) := by
  rw [← Tree.fileAt_eq_some] at hf ⊢
  rw [exec_write_fileAt h, hf]
  rfl

/-- A write that succeeds takes at least one byte. -/
lemma exec_write_pos {e : Env} {w v : World} {fd : Path} {b : UInt8} {rest : Bytes} {n : ℕ}
    (h : exec e w (.write fd (b :: rest)) = (.ok n, v)) : 1 ≤ n := by
  simp only [exec] at h
  split at h
  · cases h
  · have hn := Except.ok.inj (congrArg Prod.fst h)
    rw [List.length_cons] at hn
    omega

lemma exec_write_error {e : Env} {w v : World} {fd : Path} {data : Bytes} {err : Errno}
    (h : exec e w (.write fd data) = (.error err, v)) : v.fs = w.fs := by
  simp only [exec] at h
  split at h
  · cases h
    rfl
  · cases h

/-- When the loop ends with 0, all the data has been appended. -/
lemma writeAll_yields {e : Env} {w : World} {fd : Path} {body : Bytes} (fuel : ℕ) (data : Bytes)
    (h : ∃ f, w.fs.node fd = some (.file f) ∧ f.data ++ data = body) :
    Yields (exec e) w (writeAll fuel fd data) (fun r _ v =>
      r = some 0 → ∃ f, v.fs.node fd = some (.file f) ∧ f.data = body) := by
  induction fuel generalizing w data with
  | zero =>
    cases data with
    | nil =>
      unfold writeAll
      exact Yields.ret (fun _ => by simpa using h)
    | cons b rest => exact Yields.ret (by simp)
  | succ fuel ih =>
    cases data with
    | nil =>
      unfold writeAll
      exact Yields.ret (fun _ => by simpa using h)
    | cons b rest =>
      obtain ⟨f, hf, hbody⟩ := h
      unfold writeAll
      refine Yields.call ?_
      intro r v hx
      cases r with
      | error err =>
        have hfs := exec_write_error hx
        cases err with
        | eintr => exact ih _ ⟨f, by rw [hfs, hf], hbody⟩
        | _ => exact Yields.ret (by simp)
      | ok n =>
        refine ih _ ⟨_, exec_write_ok hx hf, ?_⟩
        rw [List.append_assoc, List.take_append_drop, hbody]

/-- A write that a signal interrupted. -/
def interrupted (s : Step Call Resp World) : Bool :=
  match s.event with
  | ⟨.write _ _, .error .eintr⟩ => true
  | _ => false

/-- A loop that is not done has been interrupted for every call beyond one for
each byte. -/
theorem writeAll_unfinished (e : Env) (w : World) (fd : Path) (fuel : ℕ) (data : Bytes) :
    Yields (exec e) w (writeAll fuel fd data) (fun r t _ => r = none →
      fuel ≤ data.length + t.countP interrupted) := by
  induction fuel generalizing w data with
  | zero => exact fun _ => Nat.zero_le _
  | succ fuel ih =>
    cases data with
    | nil => exact Yields.ret (by simp)
    | cons b rest =>
      unfold writeAll
      refine Yields.call ?_
      intro r v hx
      cases r with
      | error err =>
        cases err with
        | eintr =>
          refine (ih v (b :: rest)).mono ?_
          intro r t u h hr
          have hle := h hr
          rw [List.countP_cons_of_pos rfl]
          omega
        | _ => exact Yields.ret (by simp)
      | ok n =>
        refine (ih v ((b :: rest).drop n)).mono ?_
        intro r t u h hr
        have hle := h hr
        have hn := exec_write_pos hx
        rw [List.countP_cons_of_neg (by simp [interrupted, Step.event])]
        rw [List.length_drop] at hle
        rw [List.length_cons] at hle ⊢
        omega

/-- The rename onto `path` succeeded within the trace. -/
def Moved (path : CStr) (t : Trace) : Prop :=
  ∃ s ∈ t, s.event = ⟨.rename (tmpOf path) path, .ok ()⟩

/-- The step is a rename onto `path` that succeeded. -/
def moves (path : CStr) (s : Step Call Resp World) : Bool :=
  match s.event with
  | ⟨.rename src dst, .ok ()⟩ => decide (src = tmpOf path ∧ dst = path)
  | _ => false

lemma moves_iff (path : CStr) (s : Step Call Resp World) :
    moves path s = true ↔ s.event = ⟨.rename (tmpOf path) path, .ok ()⟩ := by
  obtain ⟨before, call, reply, after⟩ := s
  constructor
  · intro h
    cases call with
    | rename src dst =>
      cases reply with
      | error err => cases h
      | ok u =>
        obtain ⟨rfl, rfl⟩ := of_decide_eq_true h
        rfl
    | _ => cases h
  · intro h
    cases h
    exact decide_eq_true ⟨rfl, rfl⟩

lemma moved_iff (path : CStr) (t : Trace) : Moved path t ↔ ∃ s ∈ t, moves path s = true := by
  simp only [moves_iff, Moved]

instance (path : CStr) (t : Trace) : Decidable (Moved path t) :=
  decidable_of_iff _ (moved_iff path t).symm

/-- The path fits the buffers it is copied to. -/
def FitsBuffer (path : CStr) : Prop := path ≠ [] ∧ path.length < pathMax

instance (path : CStr) : Decidable (FitsBuffer path) := inferInstanceAs (Decidable (_ ∧ _))

lemma not_fitsBuffer {path : CStr} : ¬ FitsBuffer path ↔ path = [] ∨ pathMax ≤ path.length := by
  rw [FitsBuffer, not_and_or, not_not, not_lt]

/-- A failure that makes `write_file_atomic` give up. It goes on with a directory
that is there already, after an interrupted write, and when the descriptor of a
directory cannot be closed. -/
def fails (s : Step Call Resp World) : Bool :=
  match s.event with
  | ⟨.malloc, granted⟩ => !granted
  | ⟨.mkdir _ _, .error err⟩ => decide (err ≠ .eexist)
  | ⟨.openWrite _ _, .error _⟩ => true
  | ⟨.write _ _, .error err⟩ => decide (err ≠ .eintr)
  | ⟨.fchmod _ _, .error _⟩ => true
  | ⟨.fsync _, .error _⟩ => true
  | ⟨.close fd, .error _⟩ => (s.before.fs.fileAt fd).isSome
  | ⟨.rename _ _, .error _⟩ => true
  | ⟨.openDir _, .error _⟩ => true
  | _ => false

/-- None of the calls failed. -/
def AllWell (t : Trace) : Prop := ∀ s ∈ t, fails s = false

instance (t : Trace) : Decidable (AllWell t) := inferInstanceAs (Decidable (∀ s ∈ t, _))

lemma allWell_append (t u : Trace) : AllWell (t ++ u) ↔ AllWell t ∧ AllWell u :=
  List.forall_mem_append

lemma allWell_cons (s : Step Call Resp World) (t : Trace) :
    AllWell (s :: t) ↔ fails s = false ∧ AllWell t := List.forall_mem_cons

lemma allWell_cons_of_well {s : Step Call Resp World} (h : fails s = false) (t : Trace) :
    AllWell (s :: t) ↔ AllWell t := by
  rw [allWell_cons, and_iff_right h]

lemma allWell_nil : AllWell [] := List.forall_mem_nil _

lemma not_allWell_of_mem {s : Step Call Resp World} {t : Trace} (hs : s ∈ t)
    (h : fails s = true) : ¬ AllWell t := by
  intro hwell
  rw [hwell s hs] at h
  cases h

lemma mkdirOne_fails (e : Env) (w : World) (path : CStr) (mode : ℕ) :
    Yields (exec e) w (mkdirOne path mode) (fun b t _ => b = true ↔ AllWell t) := by
  refine Yields.call ?_
  intro r v _
  have hone : ∀ {b : Bool}, fails ⟨w, .mkdir path mode, r, v⟩ = !b →
      (b = true ↔ AllWell [⟨w, .mkdir path mode, r, v⟩]) := by
    intro b hb
    rw [allWell_cons, hb, Bool.not_eq_false']
    exact ⟨fun h => ⟨h, allWell_nil⟩, And.left⟩
  cases r with
  | ok u => exact Yields.ret (hone rfl)
  | error err => cases err <;> exact Yields.ret (hone rfl)

/-- The loop stops at the first directory it cannot make. -/
lemma mkdirLoop_fails (e : Env) (w : World) (mode : ℕ) (done rest : CStr) :
    Yields (exec e) w (mkdirLoop mode done rest) (fun rc t _ => rc = 0 ↔ AllWell t) := by
  induction rest generalizing done w with
  | nil =>
    unfold mkdirLoop
    refine Yields.bind _ (mkdirOne_fails e w done mode) ?_
    intro b t v hb _
    cases b with
    | true => exact Yields.ret (by rw [List.append_nil, ← hb]; simp)
    | false => exact Yields.ret (by rw [List.append_nil, ← hb]; simp)
  | cons c rest ih =>
    unfold mkdirLoop
    split
    · refine Yields.bind _ (mkdirOne_fails e w done mode) ?_
      intro b t v hb _
      cases b with
      | true =>
        refine (ih v (done ++ [c])).mono ?_
        intro rc t' v' hrc
        rw [allWell_append, hrc, and_iff_right (hb.mp rfl)]
      | false => exact Yields.ret (by rw [List.append_nil, ← hb]; simp)
    · exact ih w (done ++ [c])

lemma mkdirP_fails (e : Env) (w : World) {path : CStr} (mode : ℕ) (h : FitsBuffer path) :
    Yields (exec e) w (mkdirP path mode) (fun rc t _ => rc = 0 ↔ AllWell t) := by
  unfold mkdirP
  rw [if_neg h.1, if_neg (not_le.mpr h.2)]
  exact mkdirLoop_fails e w mode _ _

lemma cutLast_fitsBuffer {path dir : CStr} (h : FitsBuffer path) (hcut : cutLast path = some dir)
    (hdir : dir ≠ []) : FitsBuffer dir := by
  obtain ⟨c, -, rfl⟩ := cutLast_some hcut
  have hlen := h.2
  rw [List.length_append] at hlen
  exact ⟨hdir, by omega⟩

lemma ensureParentDir_fails (e : Env) (w : World) (path : CStr) (mode : ℕ) :
    Yields (exec e) w (ensureParentDir path mode)
      (fun rc t _ => rc = 0 ↔ FitsBuffer path ∧ AllWell t) := by
  unfold ensureParentDir
  by_cases hfits : FitsBuffer path
  · rw [if_neg fun h => not_fitsBuffer.mpr h hfits]
    have hzero : Yields (exec e) w (pure 0 : Proc ℤ) (fun rc t _ =>
        rc = 0 ↔ FitsBuffer path ∧ AllWell t) := Yields.ret (by simp [hfits, allWell_nil])
    split
    · exact hzero
    · rename_i dir hcut
      split
      · exact hzero
      · rename_i hdir
        refine (mkdirP_fails e w mode (cutLast_fitsBuffer hfits hcut hdir)).mono ?_
        intro rc t v hrc
        rw [hrc, and_iff_right hfits]
  · rw [if_pos (not_fitsBuffer.mp hfits)]
    exact Yields.ret (by simp [hfits])

lemma exec_openDir_ok {e : Env} {w v : World} {d : CStr} {fd : Path}
    (h : exec e w (.openDir d) = (.ok fd, v)) : v.fs.fileAt fd = none := by
  simp only [exec, refuse] at h
  split at h
  · cases h
  · obtain ⟨hfd, rfl⟩ := Prod.mk.inj h
    split at hfd
    · cases hfd
    · split at hfd
      · rename_i hdir
        cases hfd
        exact Tree.fileAt_eq_none.mpr (.inr ((Tree.isDir_iff _ _).mp hdir))
      · cases hfd

/-- The last call, which closes the directory, is not looked at. -/
lemma fsyncParentDir_fails (e : Env) (w : World) {path : CStr} (h : FitsBuffer path) :
    Yields (exec e) w (fsyncParentDir path) (fun rc t _ => rc = 0 ↔ AllWell t) := by
  unfold fsyncParentDir
  rw [if_neg fun hno => not_fitsBuffer.mpr hno h]
  have hzero : Yields (exec e) w (pure 0 : Proc ℤ) (fun rc t _ => rc = 0 ↔ AllWell t) :=
    Yields.ret (by simp [allWell_nil])
  split
  · exact hzero
  rename_i dir _
  split
  · exact hzero
  refine Yields.call ?_
  intro r₁ w₁ hx₁
  cases r₁ with
  | error err => exact Yields.ret (by simp [allWell_cons, fails, Step.event])
  | ok fd =>
    have hdir := exec_openDir_ok hx₁
    refine Yields.call ?_
    intro r₂ w₂ hx₂
    have hsame := exec_fileAt (e := e) (w := w₁) (c := .fsync fd) (q := fd) id
    rw [hx₂, hdir] at hsame
    refine Yields.call ?_
    intro r₃ w₃ _
    refine Yields.ret ?_
    have hclose : fails ⟨w₂, .close fd, r₃, w₃⟩ = false := by
      cases r₃ with
      | ok u => rfl
      | error err => exact congrArg Option.isSome hsame
    rw [allWell_cons, allWell_cons, allWell_cons, hclose]
    cases r₂ with
    | ok u => simp [fails, Step.event, allWell_nil]
    | error err => simp [fails, Step.event]

/-- A loop that ends with -1 was refused a write. -/
lemma writeAll_fails (e : Env) (w : World) (fd : Path) (fuel : ℕ) (data : Bytes) :
    Yields (exec e) w (writeAll fuel fd data) (fun r t _ =>
      ∀ rc, r = some rc → (rc = 0 ↔ AllWell t)) := by
  induction fuel generalizing w data with
  | zero =>
    cases data with
    | nil => exact Yields.ret (by simp [allWell_nil])
    | cons b rest => exact Yields.ret (by simp)
  | succ fuel ih =>
    cases data with
    | nil => exact Yields.ret (by simp [allWell_nil])
    | cons b rest =>
      unfold writeAll
      refine Yields.call ?_
      intro r v _
      cases r with
      | ok n =>
        refine (ih v _).mono ?_
        intro r t v' h rc hrc
        exact (h rc hrc).trans (allWell_cons_of_well rfl t).symm
      | error err =>
        cases err with
        | eintr =>
          refine (ih v _).mono ?_
          intro r t v' h rc hrc
          exact (h rc hrc).trans (allWell_cons_of_well rfl t).symm
        | _ => exact Yields.ret (by simp [allWell_cons, fails, Step.event])

/-- How a replacement ends: without a rename that succeeded, or with one after
which only the temporary file is touched. -/
inductive WriteEnd (e : Env) (path : CStr) (data : Bytes) (r : Option ℤ) : Trace → Prop where
  | unmoved (t : Trace) (hr : r ≠ some 0)
      (hcalls : ∀ s ∈ t, TmpOnly e path s.call ∨
        ∃ err, s.event = ⟨.rename (tmpOf path) path, .error err⟩) :
      WriteEnd e path data r t
  | moved (t u : Trace) (s : Step Call Resp World)
      (ht : ∀ x ∈ t, TmpOnly e path x.call) (hu : ∀ x ∈ u, TmpOnly e path x.call)
      (hmove : s.event = ⟨.rename (tmpOf path) path, .ok ()⟩)
      (hdata : contentAt e s.after path = some data) :
      WriteEnd e path data r (t ++ s :: u)

lemma exec_fchmod_fileAt {e : Env} {w v : World} {fd : Path} {m : ℕ}
    (h : exec e w (.fchmod fd m) = (.ok (), v)) :
    v.fs.fileAt fd = (w.fs.fileAt fd).map fun f => { f with mode := m } := by
  rw [← Except.ok.inj (commit_ok h)]
  exact Tree.modifyAt_fileAt _ _ _

lemma exec_fchmod_error {e : Env} {w v : World} {fd : Path} {m : ℕ} {err : Errno}
    (h : exec e w (.fchmod fd m) = (.error err, v)) : v.fs = w.fs := by
  simp only [exec] at h
  exact (commit_error h).1

lemma exec_fchmod_ok {e : Env} {w v : World} {fd : Path} {m : ℕ} {f : FileRec}
    (h : exec e w (.fchmod fd m) = (.ok (), v)) (hf : w.fs.node fd = some (.file f)) :
    v.fs.node fd = some (.file { f with mode := m }) := by
  rw [← Tree.fileAt_eq_some] at hf ⊢
  rw [exec_fchmod_fileAt h, hf]
  rfl

/-- A step on the way to the rename: it leaves other files alone, and it goes well. -/
def OnWay (e : Env) (path : CStr) (s : Step Call Resp World) : Prop :=
  TmpOnly e path s.call ∧ fails s = false

/-- How a replacement ends once its temporary file is open. It is cut short only
when interrupted writes have used up the calls it was given. It gives up only when
a call has failed; a failure behind the rename is reported all the same. -/
inductive Sealed (e : Env) (fuel : ℕ) (path : CStr) (data : Bytes) (mode : ℕ) (r : Option ℤ) :
    Trace → World → Prop where
  | unmoved (t : Trace) (v : World) (hr : r ≠ some 0)
      (hcut : r = none → fuel ≤ data.length + t.countP interrupted)
      (hcalls : ∀ s ∈ t, TmpOnly e path s.call ∨
        ∃ err, s.event = ⟨.rename (tmpOf path) path, .error err⟩)
      (hfail : r ≠ none → ¬ AllWell t)
      (hclean : r ≠ none → SureUnlink e → v.fs.fileAt (place e.cwd (tmpOf path)) = none) :
      Sealed e fuel path data mode r t v
  | moved (t u : Trace) (s : Step Call Resp World) (v : World) (hr : r ≠ none)
      (ht : ∀ x ∈ t, OnWay e path x) (hu : ∀ x ∈ u, TmpOnly e path x.call)
      (hmove : s.event = ⟨.rename (tmpOf path) path, .ok ()⟩)
      (hfile : s.after.fs.fileAt (place e.cwd path) = some ⟨data, mode⟩)
      (hfail : r = some 0 ↔ AllWell u)
      (hclean : SureUnlink e → v.fs.fileAt (place e.cwd (tmpOf path)) = none) :
      Sealed e fuel path data mode r (t ++ s :: u) v

/-- The cleanup removes the temporary file, if its path can be followed. -/
lemma writeCleanup_yields {e : Env} {w : World} {path : CStr} {q : Path}
    (hl : locate w.fs e.cwd (tmpOf path) = .ok q) (fd : Option Path) :
    Yields (exec e) w (writeCleanup (tmpOf path) fd) (fun r t v =>
      (r = some (-1) ∧ ∀ s ∈ t, TmpOnly e path s.call) ∧
        (SureUnlink e → v.fs.fileAt (place e.cwd (tmpOf path)) = none)) := by
  have hclose : ∀ fd, Silent e (.close fd) := fun _ _ => id
  refine Yields.and (Yields.of_obeys (writeCleanup_obeys (E := Lawful e)
    (fun fd => (hclose fd).tmpOnly path) (tmpOnly_unlink e path) fd) (exec_lawful e)) ?_
  have hunlink : ∀ v, locate v.fs e.cwd (tmpOf path) = .ok q →
      Yields (exec e) v (do let _ ← call (.unlink (tmpOf path)); pure (some (-1 : ℤ)))
        (fun _ _ u => SureUnlink e → u.fs.fileAt (place e.cwd (tmpOf path)) = none) := by
    intro v hv
    refine Yields.call ?_
    intro r u hx
    refine Yields.ret ?_
    intro hsure
    have hgone := exec_unlink_gone (hsure v.clock (tmpOf path)) hv
    rwa [hx] at hgone
  cases fd with
  | none => exact hunlink w hl
  | some fd =>
    refine Yields.call ?_
    intro r v hx
    have hc : Chain (exec e) w [⟨w, .close fd, r, v⟩] v := ⟨rfl, hx.symm, rfl⟩
    exact hunlink v (chain_locate hc hl)

lemma writeCleanup_sealed {e : Env} {w : World} {path : CStr} {q : Path} (fuel : ℕ)
    (data : Bytes) (mode : ℕ) {pre : Trace} (hl : locate w.fs e.cwd (tmpOf path) = .ok q)
    (hpre : ∀ s ∈ pre, TmpOnly e path s.call ∨
      ∃ err, s.event = ⟨.rename (tmpOf path) path, .error err⟩)
    (hfail : ¬ AllWell pre) (fd : Option Path) :
    Yields (exec e) w (writeCleanup (tmpOf path) fd)
      (fun r t v => Sealed e fuel path data mode r (pre ++ t) v) := by
  refine (writeCleanup_yields hl fd).mono ?_
  intro r t v h
  obtain ⟨⟨rfl, ht⟩, hclean⟩ := h
  refine .unmoved _ _ (by simp) (by simp) ?_ ?_ fun _ => hclean
  · rw [List.forall_mem_append]
    exact ⟨hpre, fun s hs => .inl (ht s hs)⟩
  · intro _ hwell
    exact hfail ((allWell_append _ _).mp hwell).1

/-- The call that the function gives up on. -/
lemma giveUp_sealed {e : Env} {w : World} {path : CStr} {q : Path} (fuel : ℕ) (data : Bytes)
    (mode : ℕ) {pre : Trace} {s : Step Call Resp World}
    (hl : locate w.fs e.cwd (tmpOf path) = .ok q) (hpre : ∀ x ∈ pre, OnWay e path x)
    (hs : TmpOnly e path s.call ∨ ∃ err, s.event = ⟨.rename (tmpOf path) path, .error err⟩)
    (hfail : fails s = true) (fd : Option Path) :
    Yields (exec e) w (writeCleanup (tmpOf path) fd)
      (fun r t v => Sealed e fuel path data mode r (pre ++ [s] ++ t) v) :=
  writeCleanup_sealed fuel data mode hl (forall_mem_concat (fun x hx => .inl (hpre x hx).1) hs)
    (not_allWell_of_mem (List.mem_append_right _ (List.mem_singleton_self s)) hfail) fd

/-- From the rename on: the temporary file is complete. -/
lemma rename_sealed {e : Env} {w : World} {path : CStr} {data : Bytes} {mode : ℕ} {q : Path}
    (fuel : ℕ) {k : Except Errno Unit → Proc (Option ℤ)} {pre : Trace} (hfits : FitsBuffer path)
    (hpre : ∀ x ∈ pre, OnWay e path x)
    (hl : locate w.fs e.cwd (tmpOf path) = .ok q)
    (hf : w.fs.node (place e.cwd (tmpOf path)) = some (.file ⟨data, mode⟩))
    (herror : ∀ err, k (.error err) = writeCleanup (tmpOf path) none)
    (hok : k (.ok ()) = do
      if (← fsyncParentDir path) ≠ 0 then writeCleanup (tmpOf path) none else pure (some 0)) :
    Yields (exec e) w (call (.rename (tmpOf path) path) >>= k)
      (fun r t v => Sealed e fuel path data mode r (pre ++ t) v) := by
  refine Yields.seq_call (Q := Sealed e fuel path data mode) ?_
  intro r v hx
  have hlv := exec_locate hx hl
  cases r with
  | error err =>
    rw [herror]
    exact giveUp_sealed fuel data mode hlv hpre (.inr ⟨err, rfl⟩) rfl none
  | ok a =>
    rw [hok]
    obtain ⟨f, hsrc, hdst, hgone⟩ := exec_rename_ok hx (place_tmpOf_ne e.cwd path)
    rw [hf] at hsrc
    obtain rfl := Node.file.inj (Option.some.inj hsrc)
    have hfile := (Tree.fileAt_eq_some _ _ _).mpr hdst
    refine Yields.bind _ ((fsyncParentDir_fails e v hfits).and (Yields.of_obeys
      (fsyncParentDir_obeys (E := Lawful e) (A := Silent e) (fun _ _ => id) (fun _ _ => id)
      (fun _ _ => id) path) (exec_lawful e))) ?_
    intro rc t₁ v₁ ht₁ hc₁
    obtain ⟨hrc, -, hsilent⟩ := ht₁
    have htmp₁ : ∀ s ∈ t₁, TmpOnly e path s.call := fun s hs => (hsilent s hs).tmpOnly path
    simp only [List.append_assoc, List.singleton_append]
    split
    · rename_i hne
      refine (writeCleanup_yields (chain_locate hc₁ hlv) none).mono ?_
      intro r t u h
      obtain ⟨⟨rfl, ht⟩, hclean⟩ := h
      refine .moved pre _ _ _ (by simp) hpre ?_ rfl hfile ?_ hclean
      · rw [List.forall_mem_append]
        exact ⟨htmp₁, ht⟩
      · rw [allWell_append, ← hrc]
        simp [hne]
    · rename_i hzero
      refine Yields.ret ?_
      rw [List.append_nil]
      refine .moved pre _ _ _ (by simp) hpre htmp₁ rfl hfile ?_ ?_
      · exact iff_of_true rfl (hrc.mp (not_not.mp hzero))
      · intro _
        rw [(chain_fileAt hc₁ fun s hs => hsilent s hs _).1]
        exact Tree.fileAt_eq_none.mpr (.inl hgone)

lemma writeOpened_sealed {e : Env} {w : World} (fuel : ℕ) {path : CStr} (data : Bytes) (mode : ℕ)
    {q : Path} {pre : Trace} (hfits : FitsBuffer path) (hpre : ∀ x ∈ pre, OnWay e path x)
    (hl : locate w.fs e.cwd (tmpOf path) = .ok q)
    (hopen : ∃ f, w.fs.node (place e.cwd (tmpOf path)) = some (.file f) ∧ f.data = []) :
    Yields (exec e) w (writeOpened fuel path data mode (place e.cwd (tmpOf path)))
      (fun r t v => Sealed e fuel path data mode r (pre ++ t) v) := by
  have hstart : ∃ f, w.fs.node (place e.cwd (tmpOf path)) = some (.file f) ∧
      f.data ++ data = data := by
    obtain ⟨f, hf, hempty⟩ := hopen
    exact ⟨f, hf, by rw [hempty, List.nil_append]⟩
  unfold writeOpened
  have hwrite : ∀ rest, TmpOnly e path (.write (place e.cwd (tmpOf path)) rest) :=
    fun _ => ⟨fun _ hq => hq, by simp⟩
  refine Yields.seq_bind (Q := Sealed e fuel path data mode) _
    (((writeAll_yields fuel data hstart).and ((writeAll_unfinished e w _ fuel data).and
      (writeAll_fails e w _ fuel data))).and (Yields.of_obeys (writeAll_obeys (E := Lawful e)
      fuel data fun rest _ => hwrite rest) (exec_lawful e))) ?_
  intro r₁ t₁ w₁ h₁ hc₁
  obtain ⟨⟨hdone, hcut, hwell⟩, -, ht₁⟩ := h₁
  have hl₁ := chain_locate hc₁ hl
  have htmp₁ : ∀ s ∈ pre ++ t₁, TmpOnly e path s.call := by
    rw [List.forall_mem_append]
    exact ⟨fun s hs => (hpre s hs).1, ht₁⟩
  split
  · refine Yields.ret ?_
    rw [List.append_nil]
    refine .unmoved _ _ (by simp) ?_ (fun s hs => .inl (htmp₁ s hs)) (fun hr => absurd rfl hr)
      (fun hr => absurd rfl hr)
    intro hnone
    rw [List.countP_append]
    have hle := hcut hnone
    omega
  rename_i rc
  have hrcWell := hwell rc rfl
  split
  · rename_i hrc
    refine writeCleanup_sealed fuel data mode hl₁ (fun s hs => .inl (htmp₁ s hs)) ?_ _
    rw [allWell_append, ← hrcWell]
    exact fun h => hrc h.2
  rename_i hrc
  obtain rfl : rc = 0 := not_not.mp hrc
  obtain ⟨f, hf, hdata⟩ := hdone rfl
  have hpre₁ : ∀ x ∈ pre ++ t₁, OnWay e path x := by
    rw [List.forall_mem_append]
    exact ⟨hpre, fun s hs => ⟨ht₁ s hs, hrcWell.mp rfl s hs⟩⟩
  have hchmod : TmpOnly e path (.fchmod (place e.cwd (tmpOf path)) mode) :=
    ⟨fun _ hq => hq, by simp⟩
  have hsync : Silent e (.fsync (place e.cwd (tmpOf path))) := fun _ => id
  have hclose : Silent e (.close (place e.cwd (tmpOf path))) := fun _ => id
  refine Yields.seq_call (Q := Sealed e fuel path data mode) ?_
  intro r₂ w₂ hx₂
  have hl₂ := exec_locate hx₂ hl₁
  cases r₂ with
  | error err => exact giveUp_sealed fuel data mode hl₂ hpre₁ (.inl hchmod) rfl _
  | ok a₂ =>
    have hf₂ := (Tree.fileAt_eq_some _ _ _).mpr (exec_fchmod_ok hx₂ hf)
    have hpre₂ := forall_mem_concat (s := ⟨w₁, .fchmod _ mode, .ok a₂, w₂⟩) hpre₁ ⟨hchmod, rfl⟩
    refine Yields.seq_call (Q := Sealed e fuel path data mode) ?_
    intro r₃ w₃ hx₃
    have hl₃ := exec_locate hx₃ hl₂
    cases r₃ with
    | error err =>
      exact giveUp_sealed fuel data mode hl₃ hpre₂ (.inl (hsync.tmpOnly path)) rfl _
    | ok a₃ =>
      have hf₃ := exec_fileAt (w := w₂) (hsync (place e.cwd (tmpOf path)))
      rw [hx₃, hf₂] at hf₃
      have hpre₃ := forall_mem_concat (s := ⟨w₂, .fsync _, .ok a₃, w₃⟩) hpre₂
        ⟨hsync.tmpOnly path, rfl⟩
      refine Yields.seq_call (Q := Sealed e fuel path data mode) ?_
      intro r₄ w₄ hx₄
      have hl₄ := exec_locate hx₄ hl₃
      cases r₄ with
      | error err =>
        -- The temporary file is still there, so it is a file that could not be closed.
        have hfail : fails ⟨w₃, .close (place e.cwd (tmpOf path)), .error err, w₄⟩ = true :=
          congrArg Option.isSome hf₃
        exact giveUp_sealed fuel data mode hl₄ hpre₃ (.inl (hclose.tmpOnly path)) hfail _
      | ok a₄ =>
        have hf₄ := exec_fileAt (w := w₃) (hclose (place e.cwd (tmpOf path)))
        rw [hx₄, hf₃, hdata] at hf₄
        exact rename_sealed fuel hfits (forall_mem_concat
          (s := ⟨w₃, .close _, .ok a₄, w₄⟩) hpre₃ ⟨hclose.tmpOnly path, rfl⟩) hl₄
          ((Tree.fileAt_eq_some _ _ _).mp hf₄) (fun _ => rfl) rfl

/-- A step of a replacement whose temporary file is not open yet. -/
def Preparing (e : Env) (path : CStr) (s : Step Call Resp World) : Prop :=
  TmpOnly e path s.call ∧ ∀ mode fd, s.event ≠ ⟨.openWrite (tmpOf path) mode, .ok fd⟩

lemma preparing_of_silent {e : Env} (path : CStr) {s : Step Call Resp World}
    (h : Silent e s.call) : Preparing e path s := by
  refine ⟨h.tmpOnly path, ?_⟩
  intro mode fd hev
  have hcall : s.call = .openWrite (tmpOf path) mode := congrArg Sigma.fst hev
  rw [hcall] at h
  exact h _ rfl

/-- The two ways `write_file_atomic` can end. -/
inductive Written (e : Env) (fuel : ℕ) (path : CStr) (data : Bytes) (mode : ℕ) (r : Option ℤ)
    (t : Trace) (v : World) : Prop where
  | unopened (hr : r = some (-1)) (hfail : FitsBuffer path → ¬ AllWell t)
      (hsteps : ∀ s ∈ t, Preparing e path s)
  | opened (hfits : FitsBuffer path) (h : Sealed e fuel path data mode r t v)

theorem writeFileAtomic_written (e : Env) (w : World) (fuel : ℕ) (path : CStr) (data : Bytes)
    (mode : ℕ) :
    Yields (exec e) w (writeFileAtomic fuel path data mode) (Written e fuel path data mode) := by
  unfold writeFileAtomic
  refine Yields.bind _ ((ensureParentDir_fails e w path 448).and (Yields.of_obeys
    (ensureParentDir_obeys (E := Lawful e) (A := Silent e) (fun _ _ _ => id) path 448)
    (exec_lawful e))) ?_
  intro rc t₁ w₁ ht₁ _
  obtain ⟨hrc, -, hsilent₁⟩ := ht₁
  have hprep₁ : ∀ s ∈ t₁, Preparing e path s :=
    fun s hs => preparing_of_silent path (hsilent₁ s hs)
  split
  · rename_i hne
    refine Yields.ret ?_
    rw [List.append_nil]
    exact .unopened rfl (fun hfits hwell => hne (hrc.mpr ⟨hfits, hwell⟩)) hprep₁
  rename_i hzero
  obtain ⟨hfits, hwell₁⟩ := hrc.mp (not_not.mp hzero)
  have hway₁ : ∀ s ∈ t₁, OnWay e path s := fun s hs => ⟨(hprep₁ s hs).1, hwell₁ s hs⟩
  refine Yields.seq_call (Q := Written e fuel path data mode) ?_
  intro ok w₂ _
  have hsilent : Silent e .malloc := fun _ => id
  have hmalloc : Preparing e path ⟨w₁, .malloc, ok, w₂⟩ := preparing_of_silent path hsilent
  have hprep₂ := forall_mem_concat hprep₁ hmalloc
  cases ok with
  | false =>
    refine Yields.seq_ret (.unopened rfl (fun _ => ?_) hprep₂)
    exact not_allWell_of_mem (List.mem_append_right _ (List.mem_singleton_self _)) rfl
  | true =>
  have hway₂ := forall_mem_concat (s := ⟨w₁, .malloc, true, w₂⟩) hway₁ ⟨hmalloc.1, rfl⟩
  refine Yields.seq_call (Q := Written e fuel path data mode) ?_
  intro r w₃ hx₃
  have hopen : TmpOnly e path (.openWrite (tmpOf path) mode) := ⟨fun _ hq => hq, by simp⟩
  cases r with
  | error err =>
    have hprep₃ := forall_mem_concat (s := ⟨w₂, .openWrite (tmpOf path) mode, .error err, w₃⟩)
      hprep₂ ⟨hopen, fun _ _ hev => by cases hev⟩
    refine (Yields.of_obeys (writeCleanup_obeys (E := Lawful e) (A := fun c =>
      TmpOnly e path c ∧ ∀ m, c ≠ .openWrite (tmpOf path) m) (fun fd => ⟨?_, by simp⟩)
      ⟨tmpOnly_unlink e path, by simp⟩ none) (exec_lawful e)).mono ?_
    · have hclose : Silent e (.close fd) := fun _ => id
      exact hclose.tmpOnly path
    intro r t v h
    obtain ⟨rfl, ht⟩ := h
    refine .unopened rfl (fun _ => ?_) ?_
    · rw [allWell_append]
      intro h
      have hopened := h.1 ⟨w₂, .openWrite (tmpOf path) mode, .error err, w₃⟩ (by simp)
      cases hopened
    · rw [List.forall_mem_append]
      refine ⟨hprep₃, fun s hs => ⟨(ht s hs).1, ?_⟩⟩
      exact fun m fd hev => (ht s hs).2 m (congrArg Sigma.fst hev)
  | ok fd =>
    obtain ⟨rfl, hl, -, hf⟩ := openAs_ok hx₃
    have hway₃ := forall_mem_concat (s := ⟨w₂, .openWrite (tmpOf path) mode,
      .ok (place e.cwd (tmpOf path)), w₃⟩) hway₂ ⟨hopen, rfl⟩
    refine (writeOpened_sealed fuel data mode hfits hway₃ (exec_locate hx₃ hl) hf).mono ?_
    intro r t v h
    exact .opened hfits h

/-- The calls before the first write. -/
inductive HeadCall (path : CStr) (mode : ℕ) : Call → Prop where
  | mkdir (u : CStr) (m : ℕ) : HeadCall path mode (.mkdir u m)
  | malloc : HeadCall path mode .malloc
  | openWrite : HeadCall path mode (.openWrite (tmpOf path) mode)

/-- The calls after the last write. -/
inductive TailCall (e : Env) (path : CStr) (mode : ℕ) : Call → Prop where
  | fchmod : TailCall e path mode (.fchmod (place e.cwd (tmpOf path)) mode)
  | fsync (fd : Path) : TailCall e path mode (.fsync fd)
  | close (fd : Path) : TailCall e path mode (.close fd)
  | rename : TailCall e path mode (.rename (tmpOf path) path)
  | openDir (d : CStr) : TailCall e path mode (.openDir d)
  | unlink : TailCall e path mode (.unlink (tmpOf path))

/-- The data is written between the two. -/
inductive Staged (e : Env) (path : CStr) (data : Bytes) (mode : ℕ) : Trace → Prop where
  | mk (head body tail : Trace) (hhead : ∀ s ∈ head, HeadCall path mode s.call)
      (hbody : ∀ s ∈ body, ∃ rest, rest <:+ data ∧
        s.call = .write (place e.cwd (tmpOf path)) rest)
      (htail : ∀ s ∈ tail, TailCall e path mode s.call) :
      Staged e path data mode (head ++ (body ++ tail))

lemma writeOpened_staged (e : Env) (w : World) (fuel : ℕ) (path : CStr) (data : Bytes)
    (mode : ℕ) {head : Trace} (hhead : ∀ s ∈ head, HeadCall path mode s.call) :
    Yields (exec e) w (writeOpened fuel path data mode (place e.cwd (tmpOf path)))
      (fun _ t _ => Staged e path data mode (head ++ t)) := by
  unfold writeOpened
  refine Yields.bind _ (Yields.of_obeys (writeAll_obeys (E := Lawful e)
    (A := fun c => ∃ rest, rest <:+ data ∧ c = .write (place e.cwd (tmpOf path)) rest) fuel data
    fun rest hrest => ⟨rest, hrest, rfl⟩) (exec_lawful e)) ?_
  intro r body w₁ hbody _
  have hclean : ∀ fd, Obeys (Lawful e) (TailCall e path mode) (fun _ => True)
      (writeCleanup (tmpOf path) fd) :=
    fun fd => (writeCleanup_obeys .close .unlink fd).mono (fun _ _ => id) (fun _ => id)
      (fun _ _ => trivial)
  refine Yields.mono (Q := fun _ t _ => True ∧ ∀ s ∈ t, TailCall e path mode s.call) ?_
    (fun _ t _ h => .mk head body t hhead hbody.2 h.2)
  refine Yields.of_obeys ?_ (exec_lawful e)
  split
  · exact Obeys.ret trivial
  split
  · exact hclean _
  refine Obeys.call .fchmod (fun r _ => ?_)
  split
  · exact hclean _
  refine Obeys.call (.fsync _) (fun r _ => ?_)
  split
  · exact hclean _
  refine Obeys.call (.close _) (fun r _ => ?_)
  split
  · exact hclean _
  refine Obeys.call .rename (fun r _ => ?_)
  split
  · exact hclean _
  refine (fsyncParentDir_obeys .openDir .fsync .close path).bind (fun rc _ => ?_)
  split
  · exact hclean _
  · exact Obeys.ret trivial

theorem writeFileAtomic_staged (e : Env) (w : World) (fuel : ℕ) (path : CStr) (data : Bytes)
    (mode : ℕ) :
    Yields (exec e) w (writeFileAtomic fuel path data mode)
      (fun _ t _ => Staged e path data mode t) := by
  unfold writeFileAtomic
  refine Yields.bind _ (Yields.of_obeys (ensureParentDir_obeys (E := Lawful e)
    (A := HeadCall path mode) .mkdir path 448) (exec_lawful e)) ?_
  intro rc t₁ w₁ ht₁ _
  split
  · exact Yields.ret (.mk t₁ [] [] ht₁.2 (by simp) (by simp))
  refine Yields.seq_call (Q := fun _ t _ => Staged e path data mode t) ?_
  intro ok w₂ _
  have hhead₂ : ∀ s ∈ t₁ ++ [⟨w₁, .malloc, ok, w₂⟩], HeadCall path mode s.call := by
    rw [List.forall_mem_append, List.forall_mem_singleton]
    exact ⟨ht₁.2, .malloc⟩
  split
  · exact Yields.ret (.mk _ [] [] hhead₂ (by simp) (by simp))
  refine Yields.seq_call (Q := fun _ t _ => Staged e path data mode t) ?_
  intro r w₃ hx₃
  have hhead₃ : ∀ s ∈ t₁ ++ [⟨w₁, .malloc, ok, w₂⟩] ++
      [⟨w₂, .openWrite (tmpOf path) mode, r, w₃⟩], HeadCall path mode s.call := by
    rw [List.forall_mem_append, List.forall_mem_singleton]
    exact ⟨hhead₂, .openWrite⟩
  cases r with
  | error err =>
    refine (Yields.of_obeys (writeCleanup_obeys (E := Lawful e) (A := TailCall e path mode)
      .close .unlink none) (exec_lawful e)).mono ?_
    intro _ t _ ht
    exact .mk _ [] t hhead₃ (by simp) ht.2
  | ok fd =>
    obtain ⟨rfl, -⟩ := openAs_ok hx₃
    exact writeOpened_staged e w₃ fuel path data mode hhead₃

/-- What a run of `write_file_atomic` from `w` to `v` leaves behind. -/
structure Rewritten (e : Env) (fuel : ℕ) (path : CStr) (data : Bytes) (mode : ℕ) (r : Option ℤ)
    (w : World) (t : Trace) (v : World) : Prop where
  chain : Chain (exec e) w t v
  written : Written e fuel path data mode r t v
  staged : Staged e path data mode t

theorem writeFileAtomic_rewritten (e : Env) (w : World) (fuel : ℕ) (path : CStr) (data : Bytes)
    (mode : ℕ) :
    Yields (exec e) w (writeFileAtomic fuel path data mode)
      (fun r t v => Rewritten e fuel path data mode r w t v) :=
  ⟨run_chain _ _ w, writeFileAtomic_written e w fuel path data mode,
    writeFileAtomic_staged e w fuel path data mode⟩

/-- A replacement whose rename has not succeeded leaves every file but the
temporary one alone, at every step. -/
lemma unmoved_fileAt {e : Env} {path : CStr} {w v : World} {t : Trace}
    (hc : Chain (exec e) w t v)
    (hcalls : ∀ s ∈ t, TmpOnly e path s.call ∨
      ∃ err, s.event = ⟨.rename (tmpOf path) path, .error err⟩)
    {q : Path} (hq : q ≠ place e.cwd (tmpOf path)) :
    v.fs.fileAt q = w.fs.fileAt q ∧ ∀ s ∈ t, s.before.fs.fileAt q = w.fs.fileAt q ∧
      s.after.fs.fileAt q = w.fs.fileAt q := by
  refine hc.rel (fun a b => b.fs.fileAt q = a.fs.fileAt q) (fun _ => rfl)
    (fun _ _ _ h1 h2 => h2.trans h1) ?_
  intro s hs
  have ha := hc.answer hs
  rcases hcalls s hs with htmp | ⟨err, hev⟩
  · have hsame := exec_fileAt (w := s.before) (fun hw => hq (htmp.1 _ hw))
    rwa [← ha] at hsame
  · rw [(commit_error (step_event ha hev)).1]

lemma Written.writeEnd {e : Env} {fuel : ℕ} {path : CStr} {data : Bytes} {mode : ℕ}
    {r : Option ℤ} {t : Trace} {v : World} (h : Written e fuel path data mode r t v) :
    WriteEnd e path data r t := by
  cases h with
  | unopened hr hfail hsteps => exact .unmoved _ (by rw [hr]; simp) fun s hs => .inl (hsteps s hs).1
  | opened hfits h =>
    cases h with
    | unmoved _ _ hr hcut hcalls hfail hclean => exact .unmoved _ hr hcalls
    | moved t u s _ hr ht hu hmove hfile hfail hclean =>
      refine .moved t u s (fun x hx => (ht x hx).1) hu hmove ?_
      rw [contentAt, hfile, Option.map_some]

/-- The calls of a replacement write the temporary file, and the path by a rename. -/
lemma WriteEnd.writes {e : Env} {path : CStr} {data : Bytes} {r : Option ℤ} {t : Trace}
    (h : WriteEnd e path data r t) {s : Step Call Resp World} (hs : s ∈ t) {q : Path}
    (hw : Writes e s.call q) : q = place e.cwd (tmpOf path) ∨ q = place e.cwd path := by
  have hrename : s.call = .rename (tmpOf path) path →
      q = place e.cwd (tmpOf path) ∨ q = place e.cwd path := by
    intro hc
    rw [hc] at hw
    exact hw
  cases h with
  | unmoved _ hr hcalls =>
    rcases hcalls s hs with htmp | ⟨err, hev⟩
    · exact .inl (htmp.1 q hw)
    · exact hrename (congrArg Sigma.fst hev)
  | moved t u s' ht hu hmove hdata =>
    rcases List.mem_append.mp hs with hs | hs
    · exact .inl ((ht s hs).1 q hw)
    · rcases List.mem_cons.mp hs with rfl | hs
      · exact hrename (congrArg Sigma.fst hmove)
      · exact .inl ((hu s hs).1 q hw)

/-- Other files are left alone. -/
lemma WriteEnd.contentAt_of_ne {e : Env} {path p : CStr} {data : Bytes} {r : Option ℤ} {t : Trace}
    {w v : World} (h : WriteEnd e path data r t) (hc : Chain (exec e) w t v)
    (htmp : place e.cwd p ≠ place e.cwd (tmpOf path)) (hp : place e.cwd p ≠ place e.cwd path) :
    contentAt e v p = contentAt e w p := by
  refine (chain_contentAt hc ?_).1
  intro s hs hw
  exact (h.writes hs hw).elim htmp hp

lemma Rewritten.fileAt_of_ne {e : Env} {fuel : ℕ} {path : CStr} {data : Bytes} {mode : ℕ}
    {r : Option ℤ} {w v : World} {t : Trace} (h : Rewritten e fuel path data mode r w t v)
    {q : Path} (htmp : q ≠ place e.cwd (tmpOf path)) (hq : q ≠ place e.cwd path) :
    v.fs.fileAt q = w.fs.fileAt q := by
  refine (chain_fileAt h.chain ?_).1
  intro s hs hw
  exact (h.written.writeEnd.writes hs hw).elim htmp hq

/-- Only the rename onto `path` itself counts as a move. -/
lemma WriteEnd.not_moved_of_ne {e : Env} {path p : CStr} {data : Bytes} {r : Option ℤ}
    {t : Trace} (h : WriteEnd e path data r t) (htmp : place e.cwd p ≠ place e.cwd (tmpOf path))
    (hp : place e.cwd p ≠ place e.cwd path) : ¬ Moved p t := by
  intro hmoved
  obtain ⟨s, hs, hev⟩ := hmoved
  have hcall : s.call = .rename (tmpOf p) p := congrArg Sigma.fst hev
  have hw : Writes e s.call (place e.cwd p) := by
    rw [hcall]
    exact .inr rfl
  exact (h.writes hs hw).elim htmp hp

lemma tmpOnly_not_moved {e : Env} {path : CStr} {s : Step Call Resp World}
    (h : TmpOnly e path s.call) (r : Except Errno Unit) :
    s.event ≠ ⟨.rename (tmpOf path) path, r⟩ :=
  fun hev => h.2 _ _ (congrArg Sigma.fst hev)

/-- The file is as before unless the rename succeeded, and then it is the new one. -/
theorem WriteEnd.content {e : Env} {path : CStr} {data : Bytes} {r : Option ℤ} {t : Trace}
    {w v : World} (h : WriteEnd e path data r t) (hc : Chain (exec e) w t v) :
    (¬ Moved path t ∧ r ≠ some 0 ∧ contentAt e v path = contentAt e w path) ∨
      (Moved path t ∧ contentAt e v path = some data) := by
  have hne : place e.cwd path ≠ place e.cwd (tmpOf path) := Ne.symm (place_tmpOf_ne e.cwd path)
  cases h with
  | unmoved _ hr hcalls =>
    left
    refine ⟨?_, hr, ?_⟩
    · intro hmoved
      obtain ⟨s, hs, hev⟩ := hmoved
      rcases hcalls s hs with htmp | ⟨err, herr⟩
      · exact tmpOnly_not_moved htmp _ hev
      · rw [hev] at herr
        cases herr
    · rw [contentAt, contentAt, (unmoved_fileAt hc hcalls hne).1]
  | moved t u s ht hu hmove hdata =>
    refine .inr ⟨⟨s, by simp, hmove⟩, ?_⟩
    rw [← hdata]
    refine (chain_contentAt hc.split.2.2 ?_).1
    intro x hx hw
    exact hne ((hu x hx).1 _ hw)

/-- The file is as it was at every step, unless the rename succeeded. -/
lemma Written.fileAt {e : Env} {fuel : ℕ} {path : CStr} {data : Bytes} {mode : ℕ} {r : Option ℤ}
    {t : Trace} {w v : World} (h : Written e fuel path data mode r t v)
    (hc : Chain (exec e) w t v) :
    ((r ≠ some 0 ∧ v.fs.fileAt (place e.cwd path) = w.fs.fileAt (place e.cwd path)) ∨
      v.fs.fileAt (place e.cwd path) = some ⟨data, mode⟩) ∧
    ∀ s ∈ t, s.after.fs.fileAt (place e.cwd path) = w.fs.fileAt (place e.cwd path) ∨
      s.after.fs.fileAt (place e.cwd path) = some ⟨data, mode⟩ := by
  have hne : place e.cwd path ≠ place e.cwd (tmpOf path) := Ne.symm (place_tmpOf_ne e.cwd path)
  cases h with
  | unopened hr hfail hsteps =>
    obtain ⟨hfin, hall⟩ := unmoved_fileAt hc (fun s hs => .inl (hsteps s hs).1) hne
    exact ⟨.inl ⟨by rw [hr]; simp, hfin⟩, fun s hs => .inl (hall s hs).2⟩
  | opened hfits h =>
    cases h with
    | unmoved _ _ hr hcut hcalls hfail hclean =>
      obtain ⟨hfin, hall⟩ := unmoved_fileAt hc hcalls hne
      exact ⟨.inl ⟨hr, hfin⟩, fun s hs => .inl (hall s hs).2⟩
    | moved t u s _ hr ht hu hmove hfile hfail hclean =>
      obtain ⟨hpre, -, hpost⟩ := hc.split
      obtain ⟨-, hbefore⟩ := unmoved_fileAt hpre (fun s hs => .inl (ht s hs).1) hne
      obtain ⟨hfin, hafter⟩ := unmoved_fileAt hpost (fun s hs => .inl (hu s hs)) hne
      refine ⟨.inr (hfin.trans hfile), ?_⟩
      intro x hx
      rcases List.mem_append.mp hx with hx | hx
      · exact .inl (hbefore x hx).2
      · rcases List.mem_cons.mp hx with rfl | hx
        · exact .inr hfile
        · exact .inr ((hafter x hx).2.trans hfile)

/-- The temporary file of `path` was opened within the trace. -/
def Opened (path : CStr) (t : Trace) : Prop :=
  ∃ s ∈ t, ∃ mode fd, s.event = ⟨.openWrite (tmpOf path) mode, .ok fd⟩

lemma Written.clean {e : Env} {fuel : ℕ} {path : CStr} {data : Bytes} {mode : ℕ} {r : Option ℤ}
    {t : Trace} {v : World} (h : Written e fuel path data mode r t v) (hsure : SureUnlink e)
    (hret : r ≠ none) (hopen : Opened path t) :
    v.fs.fileAt (place e.cwd (tmpOf path)) = none := by
  cases h with
  | unopened hr hfail hsteps =>
    obtain ⟨s, hs, m, fd, hev⟩ := hopen
    exact absurd hev ((hsteps s hs).2 m fd)
  | opened hfits h =>
    cases h with
    | unmoved _ _ hr hcut hcalls hfail hclean => exact hclean hret hsure
    | moved t u s _ hr ht hu hmove hfile hfail hclean => exact hclean hsure

lemma Written.cut {e : Env} {fuel : ℕ} {path : CStr} {data : Bytes} {mode : ℕ} {r : Option ℤ}
    {t : Trace} {v : World} (h : Written e fuel path data mode r t v) (hnone : r = none) :
    fuel ≤ data.length + t.countP interrupted := by
  cases h with
  | unopened hr hfail hsteps =>
    rw [hr] at hnone
    cases hnone
  | opened hfits h =>
    cases h with
    | unmoved _ _ hr hcut hcalls hfail hclean => exact hcut hnone
    | moved t u s _ hr ht hu hmove hfile hfail hclean => exact absurd hnone hr

lemma not_moves {path : CStr} {s : Step Call Resp World}
    (h : s.event ≠ ⟨.rename (tmpOf path) path, .ok ()⟩) : moves path s = false := by
  rw [Bool.eq_false_iff, Ne, moves_iff]
  exact h

/-- Why a replacement returned what it did. It stops before the rename when its
path does not fit or a call fails; behind the rename it returns 0 exactly when no
call has failed. -/
inductive Accounted (path : CStr) (r : Option ℤ) : Trace → Prop where
  | unmoved (t : Trace) (hr : r ≠ some 0) (ht : ∀ x ∈ t, moves path x = false)
      (hfail : FitsBuffer path → ¬ AllWell t) : Accounted path r t
  | moved (t u : Trace) (s : Step Call Resp World) (hfits : FitsBuffer path)
      (ht : ∀ x ∈ t, moves path x = false) (hwell : AllWell t) (hs : moves path s = true)
      (hfail : r = some 0 ↔ AllWell u) : Accounted path r (t ++ s :: u)

theorem Written.accounted {e : Env} {fuel : ℕ} {path : CStr} {data : Bytes} {mode : ℕ}
    {r : Option ℤ} {t : Trace} {v : World} (h : Written e fuel path data mode r t v)
    (hret : r ≠ none) : Accounted path r t := by
  cases h with
  | unopened hr hfail hsteps =>
    refine .unmoved t (by rw [hr]; simp) ?_ hfail
    exact fun x hx => not_moves (tmpOnly_not_moved (hsteps x hx).1 _)
  | opened hfits h =>
    cases h with
    | unmoved _ _ hr hcut hcalls hfail hclean =>
      refine .unmoved t hr ?_ fun _ => hfail hret
      intro x hx
      rcases hcalls x hx with htmp | ⟨err, hev⟩
      · exact not_moves (tmpOnly_not_moved htmp _)
      · refine not_moves ?_
        rw [hev]
        simp
    | moved t u s _ hr ht hu hmove hfile hfail hclean =>
      refine .moved t u s hfits ?_ (fun x hx => (ht x hx).2) ((moves_iff _ _).mpr hmove) hfail
      exact fun x hx => not_moves (tmpOnly_not_moved (ht x hx).1 _)

/-- At every step the file is the old one or the new one with all its bytes and
its mode, a return of 0 stands for the new one, and a return leaves no temporary
file. Only interrupted writes can keep the function from returning. -/
theorem writeFileAtomic_atomic (e : Env) (w : World) (fuel : ℕ) (path : CStr) (data : Bytes)
    (mode : ℕ) :
    let o := run (exec e) (writeFileAtomic fuel path data mode) w
    let old := w.fs.fileAt (place e.cwd path)
    (∀ s ∈ o.trace, s.after.fs.fileAt (place e.cwd path) = old ∨
      s.after.fs.fileAt (place e.cwd path) = some ⟨data, mode⟩) ∧
    (o.final.fs.fileAt (place e.cwd path) = old ∨
      o.final.fs.fileAt (place e.cwd path) = some ⟨data, mode⟩) ∧
    (o.value = some 0 → o.final.fs.fileAt (place e.cwd path) = some ⟨data, mode⟩) ∧
    (SureUnlink e → o.value ≠ none → Opened path o.trace →
      o.final.fs.fileAt (place e.cwd (tmpOf path)) = none) ∧
    (o.value = none → fuel ≤ data.length + o.trace.countP interrupted) := by
  intro o old
  have hw : Written e fuel path data mode o.value o.trace o.final :=
    writeFileAtomic_written e w fuel path data mode
  obtain ⟨hfin, hall⟩ := hw.fileAt (run_chain _ _ w)
  refine ⟨hall, hfin.imp_left And.right, ?_, hw.clean, hw.cut⟩
  intro hzero
  exact hfin.resolve_left fun h => h.1 hzero

/-- An old file, a leftover temporary one, and writes that take one byte each or
are interrupted. -/
def slowEnv : Env :=
  { Env.calm (fun _ _ => ⟨[], 0, 200⟩) .empty with
    accept := fun _ => 1
    fault := fun n c =>
      match c with
      | .write _ _ => if n % 2 = 0 then some .eintr else none
      | _ => none }

def slowTree : Tree CStr FileRec :=
  (bareTree.put [text "f"] ⟨text "old", 420⟩).put [text "f.tmp"] ⟨text "left", 438⟩

theorem writeFileAtomic_atomic_slow :
    SureUnlink slowEnv ∧
      (run (exec slowEnv) (writeFileAtomic 9 (text "f") (text "new") 384)
        (.at slowTree)).value = some 0 ∧
      (run (exec slowEnv) (writeFileAtomic 9 (text "f") (text "new") 384)
        (.at slowTree)).final.fs.fileAt [text "f"] = some ⟨text "new", 384⟩ ∧
      (run (exec slowEnv) (writeFileAtomic 9 (text "f") (text "new") 384)
        (.at slowTree)).final.fs.fileAt [text "f.tmp"] = none := by
  have hsure : SureUnlink slowEnv := fun _ _ => rfl
  have hvalue : (run (exec slowEnv) (writeFileAtomic 9 (text "f") (text "new") 384)
      (.at slowTree)).value = some 0 := by decide +kernel
  obtain ⟨-, -, hnew, hclean, -⟩ :=
    writeFileAtomic_atomic slowEnv (.at slowTree) 9 (text "f") (text "new") 384
  refine ⟨hsure, hvalue, hnew hvalue, hclean hsure ?_ ?_⟩
  · rw [hvalue]
    simp
  · exact ⟨_, .tail _ (.head _), 384, _, rfl⟩

end OtaFetch.AtomicWrite
