import OtaFetch.Enroll

/-!
# Who can read the new private key

The bytes of the key are written to the temporary file before its mode is set.
A file that is created gets the mode with which it was opened, but a file that
was there keeps its own, and then the key can be read by whoever could read that
file until the `fchmod`. The statement follows the bytes through the trace: a
write that carries anything but a rest of the certificate puts them into a file,
a rename takes them along.
-/
namespace OtaFetch.KeyFile
open CPath FileTree Interaction Machine Config Fetch AtomicWrite Enroll

/-- The file there, if any, has no permission bit for the group or for others. -/
def Private (v : World) (q : Path) : Prop := ∀ f ∈ v.fs.fileAt q, f.mode &&& 63 = 0

instance (v : World) (q : Path) : Decidable (Private v q) :=
  inferInstanceAs (Decidable (∀ f ∈ v.fs.fileAt q, f.mode &&& 63 = 0))

/-- The files with bytes of the key after a step, given those before it. The key and
the certificate are all that an enrollment has to write, so whatever is written and
is not a rest of the certificate counts as bytes of the key, on any descriptor. At
`tmp`, the temporary file of the key, everything counts. -/
def spread (e : Env) (tmp : Path) (cert : Bytes) (held : List Path)
    (s : Step Call Resp World) : List Path :=
  match s.event with
  | ⟨.write fd data, .ok _⟩ => if fd = tmp ∨ ¬ data <:+ cert then fd :: held else held
  | ⟨.fwrite fp _, _⟩ => fp.loc :: held
  | ⟨.openWrite p _, .ok _⟩ => held.filter (· ≠ place e.cwd p)
  | ⟨.unlink p, .ok _⟩ => held.filter (· ≠ place e.cwd p)
  | ⟨.rename src dst, .ok _⟩ =>
    if place e.cwd src ∈ held then
      place e.cwd dst :: held.filter (fun q => q ≠ place e.cwd src ∧ q ≠ place e.cwd dst)
    else held.filter (· ≠ place e.cwd dst)
  | _ => held

/-- After every step, no file with bytes of the key can be read by others. -/
def Hidden (e : Env) (tmp : Path) (cert : Bytes) : List Path → Trace → Prop
  | _, [] => True
  | held, s :: t =>
    (∀ q ∈ spread e tmp cert held s, Private s.after q) ∧
      Hidden e tmp cert (spread e tmp cert held s) t

instance decidableHidden (e : Env) (tmp : Path) (cert : Bytes) :
    (held : List Path) → (t : Trace) → Decidable (Hidden e tmp cert held t)
  | _, [] => isTrue trivial
  | held, s :: t =>
    have := decidableHidden e tmp cert (spread e tmp cert held s) t
    inferInstanceAs (Decidable (_ ∧ _))

/-- Of all there is to write the call carries at most a rest of the certificate. -/
def CertAtMost (cert : Bytes) : Call → Prop
  | .write _ data => data <:+ cert
  | .fwrite _ _ => False
  | _ => True

/-- The step puts bytes of the key into its temporary file. -/
def KeyWrite (tmp : Path) (s : Step Call Resp World) : Prop :=
  ∃ data n, s.event = ⟨.write tmp data, .ok n⟩

/-- The calls of an enrollment, by what they do to the key and its temporary file. -/
inductive KeyCall (e : Env) (keyPath : CStr) (cert : Bytes) : Call → Prop where
  | elsewhere (c : Call) (hdata : CertAtMost cert c) (h : ∀ q, Writes e c q →
      q ≠ place e.cwd keyPath ∧ q ≠ place e.cwd (tmpOf keyPath)) : KeyCall e keyPath cert c
  | unlink (p : CStr) : KeyCall e keyPath cert (.unlink p)
  | openWrite : KeyCall e keyPath cert (.openWrite (tmpOf keyPath) 384)
  | write (data : Bytes) : KeyCall e keyPath cert (.write (place e.cwd (tmpOf keyPath)) data)
  | fchmod : KeyCall e keyPath cert (.fchmod (place e.cwd (tmpOf keyPath)) 384)
  | rename : KeyCall e keyPath cert (.rename (tmpOf keyPath) keyPath)

/-- Before anything is written no file holds bytes of the key. -/
lemma spread_nil {e : Env} {keyPath : CStr} {cert : Bytes} {s : Step Call Resp World}
    (hc : KeyCall e keyPath cert s.call) (h : ¬ KeyWrite (place e.cwd (tmpOf keyPath)) s) :
    spread e (place e.cwd (tmpOf keyPath)) cert [] s = [] := by
  unfold spread
  split
  · rename_i fd data n hev
    rw [if_neg]
    intro hmarks
    rw [show s.call = .write fd data from congrArg Sigma.fst hev] at hc
    cases hc with
    | elsewhere _ hdata hw => exact hmarks.elim (hw fd rfl).2 (not_not.mpr hdata)
    | write _ => exact h ⟨data, n, hev⟩
  · rename_i fp data n hev
    rw [show s.call = .fwrite fp data from congrArg Sigma.fst hev] at hc
    cases hc with
    | elsewhere _ hdata hw => exact hdata.elim
  all_goals simp

lemma hidden_of_unwritten {e : Env} {keyPath : CStr} {cert : Bytes} {t : Trace}
    (hcalls : ∀ s ∈ t, KeyCall e keyPath cert s.call)
    (h : ∀ s ∈ t, ¬ KeyWrite (place e.cwd (tmpOf keyPath)) s) :
    Hidden e (place e.cwd (tmpOf keyPath)) cert [] t := by
  induction t with
  | nil => trivial
  | cons s t ih =>
    rw [List.forall_mem_cons] at hcalls h
    rw [Hidden, spread_nil hcalls.1 h.1]
    exact ⟨by simp, ih hcalls.2 h.2⟩

lemma not_hidden_of_write {e : Env} {tmp : Path} {t : Trace} {s : Step Call Resp World}
    (hs : s ∈ t) (hw : KeyWrite tmp s) (hopen : ¬ Private s.after tmp) (cert : Bytes)
    (held : List Path) : ¬ Hidden e tmp cert held t := by
  induction t generalizing held with
  | nil => cases hs
  | cons x t ih =>
    intro h
    rcases List.mem_cons.mp hs with rfl | hs
    · obtain ⟨data, n, hev⟩ := hw
      have hmem : tmp ∈ spread e tmp cert held s := by
        rw [spread, hev]
        simp
      exact hopen (h.1 tmp hmem)
    · exact ih hs _ h.2

/-- Only the key and its temporary file hold bytes of the key, and they and a
temporary file that was there are private. -/
structure Guarded (e : Env) (keyPath : CStr) (held : List Path) (v : World) : Prop where
  within : ∀ q ∈ held, q = place e.cwd keyPath ∨ q = place e.cwd (tmpOf keyPath)
  hidden : ∀ q ∈ held, Private v q
  tmp : Private v (place e.cwd (tmpOf keyPath))

lemma private_congr {v w : World} {q : Path} (h : v.fs.fileAt q = w.fs.fileAt q) :
    Private v q ↔ Private w q := by
  rw [Private, Private, h]

lemma private_of_none {v : World} {q : Path} (h : v.fs.fileAt q = none) : Private v q := by
  rw [Private, h]
  simp

lemma private_of_map {v w : World} {q : Path} {g : FileRec → FileRec}
    (h : v.fs.fileAt q = (w.fs.fileAt q).map g)
    (hg : ∀ f, f.mode &&& 63 = 0 → (g f).mode &&& 63 = 0) (hw : Private w q) : Private v q := by
  intro f hf
  rw [h, Option.mem_def, Option.map_eq_some_iff] at hf
  obtain ⟨f', hf', rfl⟩ := hf
  exact hg f' (hw f' hf')

/-- A mode of 0600 has no bit for others, under any umask. -/
lemma owner_only (x : ℕ) : 384 &&& x &&& 63 = 0 := by
  rw [Nat.and_assoc, Nat.and_comm x 63, ← Nat.and_assoc]
  simp

lemma Guarded.mono {e : Env} {keyPath : CStr} {held held' : List Path} {w v : World}
    (h : Guarded e keyPath held w) (hsub : ∀ q ∈ held', q ∈ held)
    (hsame : ∀ q ∈ held', v.fs.fileAt q = w.fs.fileAt q)
    (htmp : v.fs.fileAt (place e.cwd (tmpOf keyPath)) =
      w.fs.fileAt (place e.cwd (tmpOf keyPath))) : Guarded e keyPath held' v := by
  refine ⟨fun q hq => h.within q (hsub q hq), ?_, (private_congr htmp).mpr h.tmp⟩
  intro q hq
  exact (private_congr (hsame q hq)).mpr (h.hidden q (hsub q hq))

/-- A call that changes the temporary file and keeps it private. -/
lemma Guarded.touch {e : Env} {keyPath : CStr} {held held' : List Path} {w v : World}
    (h : Guarded e keyPath held w)
    (hsub : ∀ q ∈ held', q = place e.cwd (tmpOf keyPath) ∨ q ∈ held)
    (hframe : ∀ q, ¬ q = place e.cwd (tmpOf keyPath) → v.fs.fileAt q = w.fs.fileAt q)
    (htmp : Private v (place e.cwd (tmpOf keyPath))) : Guarded e keyPath held' v := by
  refine ⟨?_, ?_, htmp⟩
  · intro q hq
    rcases hsub q hq with rfl | hq
    · exact .inr rfl
    · exact h.within q hq
  · intro q hq
    by_cases hne : q = place e.cwd (tmpOf keyPath)
    · rw [hne]
      exact htmp
    · have hold := (hsub q hq).resolve_left hne
      exact (private_congr (hframe q hne)).mpr (h.hidden q hold)

/-- A call that leaves both files alone moves no bytes of the key. -/
lemma spread_elsewhere {e : Env} {keyPath : CStr} {cert : Bytes} {held : List Path}
    {s : Step Call Resp World} (hdata : CertAtMost cert s.call)
    (hin : ∀ q ∈ held, q = place e.cwd keyPath ∨ q = place e.cwd (tmpOf keyPath))
    (h : ∀ q, Writes e s.call q → q ≠ place e.cwd keyPath ∧ q ≠ place e.cwd (tmpOf keyPath)) :
    ∀ q ∈ spread e (place e.cwd (tmpOf keyPath)) cert held s, q ∈ held := by
  intro q hq
  unfold spread at hq
  split at hq
  · rename_i fd data n hev
    rw [show s.call = .write fd data from congrArg Sigma.fst hev] at h hdata
    have hrest : data <:+ cert := hdata
    rwa [if_neg (not_or.mpr ⟨(h fd rfl).2, not_not.mpr hrest⟩)] at hq
  · rename_i fp data n hev
    rw [show s.call = .fwrite fp data from congrArg Sigma.fst hev] at hdata
    exact hdata.elim
  · exact List.mem_of_mem_filter hq
  · exact List.mem_of_mem_filter hq
  · rename_i src dst n hev
    rw [show s.call = .rename src dst from congrArg Sigma.fst hev] at h
    have hsrc := h (place e.cwd src) (.inl rfl)
    rw [if_neg (fun hmem => (hin _ hmem).elim hsrc.1 hsrc.2)] at hq
    exact List.mem_of_mem_filter hq
  · exact hq

/-- A file opened with mode 0600 is private if it was private or is new. -/
lemma private_of_open {e : Env} {w v : World} {p : CStr} {fd : Path}
    (hx : exec e w (.openWrite p 384) = (.ok fd, v)) (h : Private w (place e.cwd p)) :
    Private v (place e.cwd p) := by
  obtain ⟨-, hl, hcreate, -⟩ := openAs_ok hx
  obtain ⟨f, hput, hdir, hf⟩ := Tree.openAt_ok hcreate
  have hnode := Tree.put_node_self f ((locate_ok hl).2 hdir)
  intro g hg
  rw [hput, Option.mem_def, Tree.fileAt_eq_some, hnode] at hg
  obtain rfl := Node.file.inj (Option.some.inj hg)
  rcases hf with ⟨rfl, -⟩ | ⟨g, hold, rfl⟩
  · exact owner_only _
  · exact h g ((Tree.fileAt_eq_some _ _ _).mpr hold)

/-- The rename takes the bytes of the key along, and the mode with them. -/
lemma Guarded.rename {e : Env} {keyPath : CStr} {held : List Path} {w v : World}
    (h : Guarded e keyPath held w)
    (hx : exec e w (.rename (tmpOf keyPath) keyPath) = (.ok (), v)) (cert : Bytes) :
    Guarded e keyPath (spread e (place e.cwd (tmpOf keyPath)) cert held
      ⟨w, .rename (tmpOf keyPath) keyPath, .ok (), v⟩) v := by
  obtain ⟨f, hf, hdst, hsrc⟩ := exec_rename_ok hx (place_tmpOf_ne e.cwd keyPath)
  have hkey : Private v (place e.cwd keyPath) := by
    intro g hg
    rw [Option.mem_def, Tree.fileAt_eq_some, hdst] at hg
    obtain rfl := Node.file.inj (Option.some.inj hg)
    exact h.tmp f ((Tree.fileAt_eq_some _ _ _).mpr hf)
  have honly : ∀ q ∈ spread e (place e.cwd (tmpOf keyPath)) cert held
      ⟨w, .rename (tmpOf keyPath) keyPath, .ok (), v⟩, q = place e.cwd keyPath := by
    intro q hq
    change q ∈ (if place e.cwd (tmpOf keyPath) ∈ held then _ else _) at hq
    split_ifs at hq with hheld
    · rcases List.mem_cons.mp hq with rfl | hq
      · rfl
      · have hne : q ≠ place e.cwd (tmpOf keyPath) ∧ q ≠ place e.cwd keyPath := by
          simpa using List.of_mem_filter hq
        exact (h.within q (List.mem_of_mem_filter hq)).resolve_right hne.1
    · have hmem := List.mem_of_mem_filter hq
      refine (h.within q hmem).resolve_right ?_
      intro hq'
      exact hheld (hq' ▸ hmem)
  refine ⟨fun q hq => .inl (honly q hq), ?_, ?_⟩
  · intro q hq
    rw [honly q hq]
    exact hkey
  · exact private_of_none (Tree.fileAt_eq_none.mpr (.inl hsrc))

/-- What one call of an enrollment preserves. -/
theorem guarded_step {e : Env} {keyPath : CStr} {cert : Bytes} {held : List Path}
    {s : Step Call Resp World} (ha : (s.reply, s.after) = exec e s.before s.call)
    (hc : KeyCall e keyPath cert s.call) (h : Guarded e keyPath held s.before) :
    Guarded e keyPath (spread e (place e.cwd (tmpOf keyPath)) cert held s) s.after := by
  have hfs : s.after.fs = s.before.fs →
      (∀ q ∈ spread e (place e.cwd (tmpOf keyPath)) cert held s, q ∈ held) →
      Guarded e keyPath (spread e (place e.cwd (tmpOf keyPath)) cert held s) s.after :=
    fun hfs hsub => h.mono hsub (fun q _ => by rw [hfs]) (by rw [hfs])
  have hframe : ∀ q, ¬ Writes e s.call q → s.after.fs.fileAt q = s.before.fs.fileAt q := by
    intro q hq
    have hsame := exec_fileAt (w := s.before) hq
    rwa [← ha] at hsame
  obtain ⟨before, call, reply, after⟩ := s
  dsimp only at ha hc h hfs hframe ⊢
  cases hc with
  | elsewhere _ hdata hw =>
    have hsub := spread_elsewhere (s := ⟨before, call, reply, after⟩) hdata h.within hw
    refine h.mono hsub ?_ (hframe _ fun hq => (hw _ hq).2 rfl)
    intro q hq
    refine hframe q fun hwrites => ?_
    exact (h.within q (hsub q hq)).elim (hw q hwrites).1 (hw q hwrites).2
  | unlink p =>
    cases reply with
    | error err => exact hfs (commit_error ha.symm).1 fun _ => id
    | ok u =>
      have hgone := Tree.fileAt_eq_none.mpr (.inl (exec_unlink_ok ha.symm).2)
      have hmem : ∀ {q}, q ∈ held.filter (· ≠ place e.cwd p) → q ∈ held ∧ q ≠ place e.cwd p := by
        intro q hq
        simpa using hq
      refine ⟨fun q hq => h.within q (hmem hq).1, ?_, ?_⟩
      · intro q hq
        exact (private_congr (hframe q (hmem hq).2)).mpr (h.hidden q (hmem hq).1)
      · by_cases hp : place e.cwd (tmpOf keyPath) = place e.cwd p
        · rw [hp]
          exact private_of_none hgone
        · exact (private_congr (hframe _ hp)).mpr h.tmp
  | openWrite =>
    cases reply with
    | error err => exact hfs (openAs_error ha.symm) fun _ => id
    | ok fd =>
      refine h.touch ?_ hframe (private_of_open ha.symm h.tmp)
      intro q hq
      exact .inr (List.mem_of_mem_filter hq)
  | write data =>
    cases reply with
    | error err => exact hfs (exec_write_error ha.symm) fun _ => id
    | ok n =>
      refine h.touch ?_ hframe (private_of_map (exec_write_fileAt ha.symm) (fun _ => id) h.tmp)
      intro q hq
      change q ∈ (if place e.cwd (tmpOf keyPath) = place e.cwd (tmpOf keyPath) ∨ _ then _ else _)
        at hq
      rw [if_pos (.inl rfl)] at hq
      exact List.mem_cons.mp hq
  | fchmod =>
    cases reply with
    | error err => exact hfs (exec_fchmod_error ha.symm) fun _ => id
    | ok u =>
      have hmode : 384 &&& 63 = 0 := by decide
      exact h.touch (fun _ => .inr) hframe
        (private_of_map (exec_fchmod_fileAt ha.symm) (fun _ _ => hmode) h.tmp)
  | rename =>
    cases reply with
    | error err => exact hfs (commit_error ha.symm).1 fun _ => id
    | ok u => exact h.rename ha.symm cert

/-- What a whole run of such calls preserves. -/
theorem hidden_of_calls {e : Env} {keyPath : CStr} {cert : Bytes} {t : Trace} {w v : World}
    {held : List Path} (hc : Chain (exec e) w t v)
    (hcalls : ∀ s ∈ t, KeyCall e keyPath cert s.call) (h : Guarded e keyPath held w) :
    Hidden e (place e.cwd (tmpOf keyPath)) cert held t := by
  induction t generalizing w held with
  | nil => trivial
  | cons s t ih =>
    rw [List.forall_mem_cons] at hcalls
    obtain ⟨rfl, ha, hrest⟩ := hc
    have hnext := guarded_step ha hcalls.1 h
    exact ⟨hnext.hidden, ih hrest hcalls.2 hnext⟩

/-- The two files of the identity and their temporary files are four files. -/
def IdentityApart (cwd : Path) (keyPath certPath : CStr) : Prop :=
  [place cwd keyPath, place cwd certPath, place cwd (tmpOf keyPath),
    place cwd (tmpOf certPath)].Nodup

lemma certAtMost_of_silent {e : Env} {c : Call} (cert : Bytes) (h : Silent e c) :
    CertAtMost cert c := by
  cases c with
  | write fd data => exact absurd rfl (h fd)
  | fwrite fp data => exact absurd rfl (h fp.loc)
  | _ => trivial

lemma keyCall_of_silent {e : Env} {c : Call} (keyPath : CStr) (cert : Bytes) (h : Silent e c) :
    KeyCall e keyPath cert c :=
  .elsewhere c (certAtMost_of_silent cert h) fun q hq => absurd hq (h q)

lemma keyCall_of_head {e : Env} {keyPath : CStr} {c : Call} (cert : Bytes)
    (h : HeadCall keyPath 384 c) : KeyCall e keyPath cert c := by
  cases h with
  | openWrite => exact .openWrite
  | _ => exact keyCall_of_silent keyPath cert fun _ => id

lemma keyCall_of_tail {e : Env} {keyPath : CStr} {c : Call} (cert : Bytes)
    (h : TailCall e keyPath 384 c) : KeyCall e keyPath cert c := by
  cases h with
  | fchmod => exact .fchmod
  | rename => exact .rename
  | unlink => exact .unlink _
  | _ => exact keyCall_of_silent keyPath cert fun _ => id

lemma keyCall_of_staged {e : Env} {keyPath : CStr} {data : Bytes} {t : Trace} (cert : Bytes)
    (h : Staged e keyPath data 384 t) : ∀ s ∈ t, KeyCall e keyPath cert s.call := by
  cases h with
  | mk head body tail hhead hbody htail =>
    simp only [List.forall_mem_append]
    refine ⟨fun s hs => keyCall_of_head cert (hhead s hs), ?_,
      fun s hs => keyCall_of_tail cert (htail s hs)⟩
    intro s hs
    obtain ⟨rest, -, hcall⟩ := hbody s hs
    rw [hcall]
    exact .write rest

/-- What a replacement writes goes to its temporary file and comes from its data. -/
lemma staged_write {e : Env} {path : CStr} {data : Bytes} {mode : ℕ} {t : Trace}
    (h : Staged e path data mode t) {s : Step Call Resp World} (hs : s ∈ t) {fd : Path}
    {piece : Bytes} (hcall : s.call = .write fd piece) :
    fd = place e.cwd (tmpOf path) ∧ piece <:+ data := by
  cases h with
  | mk head body tail hhead hbody htail =>
    simp only [List.mem_append] at hs
    rcases hs with hs | hs | hs
    · have hc := hhead s hs
      rw [hcall] at hc
      cases hc
    · obtain ⟨rest, hrest, hc⟩ := hbody s hs
      rw [hcall] at hc
      cases hc
      exact ⟨rfl, hrest⟩
    · have hc := htail s hs
      rw [hcall] at hc
      cases hc

lemma staged_certAtMost {e : Env} {path : CStr} {cert : Bytes} {mode : ℕ} {t : Trace}
    (h : Staged e path cert mode t) : ∀ s ∈ t, CertAtMost cert s.call := by
  cases h with
  | mk head body tail hhead hbody htail =>
    simp only [List.forall_mem_append]
    refine ⟨fun s hs => ?_, fun s hs => ?_, fun s hs => ?_⟩
    · have hc := hhead s hs
      generalize s.call = c at hc ⊢
      cases hc <;> trivial
    · obtain ⟨rest, hrest, hcall⟩ := hbody s hs
      rw [hcall]
      exact hrest
    · have hc := htail s hs
      generalize s.call = c at hc ⊢
      cases hc <;> trivial

lemma KeyWrite.writes {tmp : Path} {s : Step Call Resp World} (h : KeyWrite tmp s) (e : Env) :
    Writes e s.call tmp := by
  obtain ⟨data, n, hev⟩ := h
  rw [show s.call = .write tmp data from congrArg Sigma.fst hev]
  rfl

/-- The file at `q` is still there, and with its old mode. -/
def ModeKept (q : Path) (w v : World) : Prop :=
  ∀ f, w.fs.fileAt q = some f → ∃ g, v.fs.fileAt q = some g ∧ g.mode = f.mode

lemma modeKept_of_same {q : Path} {w v : World} (h : v.fs.fileAt q = w.fs.fileAt q) :
    ModeKept q w v := fun f hf => ⟨f, h.trans hf, rfl⟩

lemma ModeKept.trans {q : Path} {u v w : World} (huv : ModeKept q u v) (hvw : ModeKept q v w) :
    ModeKept q u w := by
  intro f hf
  obtain ⟨g, hg, hmode⟩ := huv f hf
  obtain ⟨k, hk, hmode'⟩ := hvw g hg
  exact ⟨k, hk, hmode'.trans hmode⟩

lemma ModeKept.not_private {q : Path} {w v : World} (h : ModeKept q w v) (hw : ¬ Private w q) :
    ¬ Private v q := by
  intro hv
  apply hw
  intro f hf
  obtain ⟨g, hg, hmode⟩ := h f hf
  rw [← hmode]
  exact hv g hg

/-- Opening a file that is there truncates it and keeps its mode. -/
lemma modeKept_open {e : Env} {w v : World} {p : CStr} {m : ℕ} {fd : Path}
    (hx : exec e w (.openWrite p m) = (.ok fd, v)) : ModeKept (place e.cwd p) w v := by
  obtain ⟨-, hl, hcreate, -⟩ := openAs_ok hx
  obtain ⟨f, hput, hdir, hf⟩ := Tree.openAt_ok hcreate
  have hnode := Tree.put_node_self f ((locate_ok hl).2 hdir)
  intro g hg
  rw [Tree.fileAt_eq_some] at hg
  refine ⟨f, ?_, ?_⟩
  · rw [hput, Tree.fileAt_eq_some, hnode]
  · rcases hf with ⟨-, hnone⟩ | ⟨g', hold, rfl⟩
    · rw [hg] at hnone
      cases hnone
    · rw [hg] at hold
      obtain rfl := Node.file.inj (Option.some.inj hold)
      rfl

lemma modeKept_head {e : Env} {keyPath : CStr} {m : ℕ} {c : Call} (h : HeadCall keyPath m c)
    (w : World) : ModeKept (place e.cwd (tmpOf keyPath)) w (exec e w c).2 := by
  cases h with
  | mkdir u n => exact modeKept_of_same (exec_fileAt id)
  | malloc => exact modeKept_of_same (exec_fileAt id)
  | openWrite =>
    rcases hx : exec e w (.openWrite (tmpOf keyPath) m) with ⟨r, v⟩
    cases r with
    | error err => exact modeKept_of_same (by rw [openAs_error hx])
    | ok fd => exact modeKept_open hx

lemma modeKept_write (e : Env) (w : World) (fd : Path) (data : Bytes) :
    ModeKept fd w (exec e w (.write fd data)).2 := by
  rcases hx : exec e w (.write fd data) with ⟨r, v⟩
  cases r with
  | error err => exact modeKept_of_same (by rw [exec_write_error hx])
  | ok n =>
    intro f hf
    refine ⟨{ f with data := f.data ++ data.take n }, ?_, rfl⟩
    rw [exec_write_fileAt hx, hf]
    rfl

/-- The key is written while the temporary file has the mode it came with. -/
lemma modeKept_of_staged {e : Env} {keyPath : CStr} {data : Bytes} {m : ℕ} {w v : World}
    {t : Trace} (h : Staged e keyPath data m t) (hc : Chain (exec e) w t v)
    {s : Step Call Resp World} (hs : s ∈ t) (hw : KeyWrite (place e.cwd (tmpOf keyPath)) s) :
    ModeKept (place e.cwd (tmpOf keyPath)) w s.after := by
  cases h with
  | mk head body tail hhead hbody htail =>
    rw [← List.append_assoc] at hc hs
    have hearly : s ∈ head ++ body := by
      refine (List.mem_append.mp hs).resolve_right fun hs => ?_
      obtain ⟨rest, n, hev⟩ := hw
      have hcall : s.call = .write (place e.cwd (tmpOf keyPath)) rest := congrArg Sigma.fst hev
      have htailCall := htail s hs
      rw [hcall] at htailCall
      cases htailCall
    obtain ⟨v₁, hc₁, -⟩ := Chain.append_iff.mp hc
    refine ((hc₁.rel (ModeKept (place e.cwd (tmpOf keyPath))) (fun _ => modeKept_of_same rfl)
      (fun _ _ _ => ModeKept.trans) ?_).2 s hearly).2
    intro x hx
    have ha := hc₁.answer hx
    have hkept : ModeKept (place e.cwd (tmpOf keyPath)) x.before (exec e x.before x.call).2 := by
      rcases List.mem_append.mp hx with hx | hx
      · exact modeKept_head (hhead x hx) x.before
      · obtain ⟨rest, -, hcall⟩ := hbody x hx
        rw [hcall]
        exact modeKept_write e x.before _ rest
    rwa [← ha] at hkept

/-- An enrollment in three parts: nothing is written, the key is written, and
what comes after it stays away from the key. -/
lemma phases_split {e : Env} {w v : World} {fuel : ℕ} {cfg : OtaConfig}
    {tokenFile keyPath certPath : CStr} {force : Bool} {r : Option ℤ} {t : Trace}
    (hapart : IdentityApart e.cwd keyPath certPath)
    (h : Phases e w fuel cfg tokenFile keyPath certPath force r t v) :
    ∃ pre u rest v₁ v₂ key, t = pre ++ (u ++ rest) ∧ Chain (exec e) w pre v₁ ∧
      (∀ s ∈ pre, Silent e s.call) ∧ Chain (exec e) v₁ u v₂ ∧ Staged e keyPath key 384 u ∧
      ∀ s ∈ rest, KeyCall e keyPath ((producedCert e.cjson t).getD []) s.call ∧
        ¬ KeyWrite (place e.cwd (tmpOf keyPath)) s := by
  simp only [IdentityApart, List.nodup_cons, List.mem_cons, List.not_mem_nil, or_false, not_or]
    at hapart
  obtain ⟨⟨hkc, -, hkct⟩, ⟨hck, -⟩, htt, -⟩ := hapart
  have hcertCalls : ∀ {cert : CStr} {r : Option ℤ} {v w : World} {x : Trace},
      Rewritten e fuel certPath cert 420 r v x w → ∀ s ∈ x, KeyCall e keyPath cert s.call ∧
        ¬ KeyWrite (place e.cwd (tmpOf keyPath)) s := by
    intro cert r v w x hw s hs
    constructor
    · refine .elsewhere _ (staged_certAtMost hw.staged s hs) ?_
      intro q hq
      rcases hw.written.writeEnd.writes hs hq with rfl | rfl
      · exact ⟨Ne.symm hkct, Ne.symm htt⟩
      · exact ⟨Ne.symm hkc, hck⟩
    · intro hkw
      rcases hw.written.writeEnd.writes hs (hkw.writes e) with heq | heq
      · exact htt heq
      · exact hck heq.symm
  cases h with
  | early _ _ hr hc hsilent =>
    exact ⟨t, [], [], v, v, [], by simp, hc, hsilent, rfl,
      .mk [] [] [] (by simp) (by simp) (by simp), by simp⟩
  | atKey t u v₁ _ key cert r₁ hr hr₁ hready hkey =>
    exact ⟨t, u, [], v₁, v, key, by simp, hready.chain, hready.silent, hkey.chain, hkey.staged,
      by simp⟩
  | atCert t u x v₁ v₂ _ key cert r₂ hr hr₂ hready hkey hcert =>
    refine ⟨t, u, x, v₁, v₂, key, rfl, hready.chain, hready.silent, hkey.chain, hkey.staged, ?_⟩
    rw [producedCert_append hready.requested.produced.2, Option.getD_some]
    exact hcertCalls hcert
  | atToken t u x v₁ v₂ v₃ _ key cert reply hr hready hkey hcert htoken =>
    refine ⟨t, u, _, v₁, v₂, key, rfl, hready.chain, hready.silent, hkey.chain, hkey.staged, ?_⟩
    rw [producedCert_append hready.requested.produced.2, Option.getD_some, List.forall_mem_append,
      List.forall_mem_singleton]
    refine ⟨hcertCalls hcert, .unlink tokenFile, ?_⟩
    intro hkw
    obtain ⟨data, n, hev⟩ := hkw
    cases congrArg Sigma.fst hev

/-- The two things an enrollment writes, and where. -/
def Expected (e : Env) (keyPath certPath : CStr) (t : Trace) (fd : Path) (data : Bytes) : Prop :=
  (fd = place e.cwd (tmpOf keyPath) ∧ ∃ key, producedKey t = some key ∧ data <:+ key) ∨
    (fd = place e.cwd (tmpOf certPath) ∧
      ∃ cert, producedCert e.cjson t = some cert ∧ data <:+ cert)

/-- Every write carries a rest of the new key to the one temporary file or a rest of
the new certificate to the other. -/
lemma phases_writes {e : Env} {w v : World} {fuel : ℕ} {cfg : OtaConfig}
    {tokenFile keyPath certPath : CStr} {force : Bool} {r : Option ℤ} {t : Trace}
    (h : Phases e w fuel cfg tokenFile keyPath certPath force r t v)
    {s : Step Call Resp World} (hs : s ∈ t) {fd : Path} {data : Bytes}
    (hcall : s.call = .write fd data) : Expected e keyPath certPath t fd data := by
  have hsilent : ∀ {x : Trace}, (∀ y ∈ x, Silent e y.call) → s ∉ x := by
    intro x hx hmem
    have hquiet := hx s hmem
    rw [hcall] at hquiet
    exact hquiet fd rfl
  have hkeyWrite : ∀ {t u y : Trace} {v₁ v₂ : World} {key cert : CStr} {r : Option ℤ},
      Ready e w cfg keyPath certPath force key cert t v₁ →
      Rewritten e fuel keyPath key 384 r v₁ u v₂ → s ∈ u →
      Expected e keyPath certPath (t ++ (u ++ y)) fd data := by
    intro t u y v₁ v₂ key cert r hready hkey hmem
    obtain ⟨hfd, hrest⟩ := staged_write hkey.staged hmem hcall
    exact .inl ⟨hfd, key, producedKey_append hready.requested.produced.1 _, hrest⟩
  have hcertWrite : ∀ {t u x : Trace} {v₁ v₂ v₃ : World} {key cert : CStr} {r : Option ℤ},
      Ready e w cfg keyPath certPath force key cert t v₁ →
      Rewritten e fuel certPath cert 420 r v₂ x v₃ → s ∈ x →
      Expected e keyPath certPath (t ++ u) fd data := by
    intro t u x v₁ v₂ v₃ key cert r hready hcert hmem
    obtain ⟨hfd, hrest⟩ := staged_write hcert.staged hmem hcall
    exact .inr ⟨hfd, cert, producedCert_append hready.requested.produced.2 _, hrest⟩
  cases h with
  | early _ _ hr hc hquiet => exact absurd hs (hsilent hquiet)
  | atKey t u v₁ _ key cert r₁ hr hr₁ hready hkey =>
    have hmem := (List.mem_append.mp hs).resolve_left (hsilent hready.silent)
    have hexpected := hkeyWrite (y := []) hready hkey hmem
    rwa [List.append_nil] at hexpected
  | atCert t u x v₁ v₂ _ key cert r₂ hr hr₂ hready hkey hcert =>
    have hmem := (List.mem_append.mp hs).resolve_left (hsilent hready.silent)
    rcases List.mem_append.mp hmem with hmem | hmem
    · exact hkeyWrite hready hkey hmem
    · exact hcertWrite hready hcert hmem
  | atToken t u x v₁ v₂ v₃ _ key cert reply hr hready hkey hcert htoken =>
    have hmem := (List.mem_append.mp hs).resolve_left (hsilent hready.silent)
    rcases List.mem_append.mp hmem with hmem | hmem
    · exact hkeyWrite hready hkey hmem
    · rcases List.mem_append.mp hmem with hmem | hmem
      · exact hcertWrite hready hcert hmem
      · rw [List.mem_singleton.mp hmem] at hcall
        cases hcall

/-- What an enrollment writes is the new key, to its temporary file, and the new
certificate, to its own. The files that hold bytes of the key are private at every
step exactly when no file that others can reach was left at the temporary name of the
key, or nothing is written there. -/
theorem otaFetchEnroll_hides_key_iff (e : Env) (w : World) (fuel : ℕ) (cfg : OtaConfig)
    (tokenFile keyPath certPath : CStr) (force : Bool) (hkey : cfg.tlsClientKey = some keyPath)
    (hcert : cfg.tlsClientCert = some certPath) (hapart : IdentityApart e.cwd keyPath certPath) :
    let o := run (exec e) (otaFetchEnroll e.cjson fuel cfg (some tokenFile) force) w
    (∀ s ∈ o.trace, ∀ fd data, s.call = .write fd data →
      Expected e keyPath certPath o.trace fd data) ∧
    (Hidden e (place e.cwd (tmpOf keyPath)) ((producedCert e.cjson o.trace).getD []) [] o.trace ↔
      Private w (place e.cwd (tmpOf keyPath)) ∨
        ∀ s ∈ o.trace, ¬ KeyWrite (place e.cwd (tmpOf keyPath)) s) := by
  intro o
  have hend : Phases e w fuel cfg tokenFile keyPath certPath force o.value o.trace o.final :=
    otaFetchEnroll_phases e w fuel cfg tokenFile keyPath certPath force hkey hcert
  refine ⟨fun s hs fd data hcall => phases_writes hend hs hcall, ?_⟩
  have hc : Chain (exec e) w o.trace o.final := run_chain _ _ w
  obtain ⟨pre, u, rest, v₁, v₂, key, ht, hpre, hsilent, hu, hstaged, hrest⟩ :=
    phases_split hapart hend
  generalize (producedCert e.cjson o.trace).getD [] = cert at hrest ⊢
  rw [ht] at hc ⊢
  have hcalls : ∀ s ∈ pre ++ (u ++ rest), KeyCall e keyPath cert s.call := by
    simp only [List.forall_mem_append]
    exact ⟨fun s hs => keyCall_of_silent keyPath cert (hsilent s hs),
      keyCall_of_staged cert hstaged, fun s hs => (hrest s hs).1⟩
  constructor
  · intro hhidden
    by_contra hcond
    rw [not_or] at hcond
    obtain ⟨hopen, hwritten⟩ := hcond
    refine hwritten fun s hs hw => ?_
    have hsu : s ∈ u := by
      rcases List.mem_append.mp hs with hs | hs
      · exact absurd (hw.writes e) (hsilent s hs _)
      · rcases List.mem_append.mp hs with hs | hs
        · exact hs
        · exact absurd hw (hrest s hs).2
    have hstart : v₁.fs.fileAt (place e.cwd (tmpOf keyPath)) = w.fs.fileAt _ :=
      (chain_fileAt hpre fun x hx => hsilent x hx _).1
    have hkept := (modeKept_of_same hstart).trans (modeKept_of_staged hstaged hu hsu hw)
    exact not_hidden_of_write hs hw (hkept.not_private hopen) cert [] hhidden
  · intro hcond
    rcases hcond with hpriv | hnone
    · exact hidden_of_calls hc hcalls ⟨by simp, by simp, hpriv⟩
    · exact hidden_of_unwritten hcalls hnone

lemma enrollIdentity_apart : IdentityApart [] (text "id/key") (text "id/crt") := by
  unfold IdentityApart
  decide

theorem otaFetchEnroll_hides_key_fresh :
    (run (exec enrollEnv) (otaFetchEnroll enrollEnv.cjson 100 enrollConfig (some (text "tok"))
        false) (.at enrollTree)).value = some 0 ∧
      (∀ s ∈ (run (exec enrollEnv) (otaFetchEnroll enrollEnv.cjson 100 enrollConfig
        (some (text "tok")) false) (.at enrollTree)).trace, ∀ fd data, s.call = .write fd data →
        Expected enrollEnv (text "id/key") (text "id/crt") (run (exec enrollEnv) (otaFetchEnroll
          enrollEnv.cjson 100 enrollConfig (some (text "tok")) false) (.at enrollTree)).trace
          fd data) ∧
      Hidden enrollEnv (place [] (tmpOf (text "id/key"))) (text "crt") []
        (run (exec enrollEnv) (otaFetchEnroll enrollEnv.cjson 100 enrollConfig (some (text "tok"))
          false) (.at enrollTree)).trace := by
  have hnew : Private (.at enrollTree) (place [] (tmpOf (text "id/key"))) := by decide +kernel
  have hcert : (producedCert enrollEnv.cjson (run (exec enrollEnv) (otaFetchEnroll enrollEnv.cjson
      100 enrollConfig (some (text "tok")) false) (.at enrollTree)).trace).getD [] =
        text "crt" := by
    decide +kernel
  obtain ⟨hwrites, hiff⟩ := otaFetchEnroll_hides_key_iff enrollEnv (.at enrollTree) 100
    enrollConfig (text "tok") (text "id/key") (text "id/crt") false rfl rfl enrollIdentity_apart
  have hhidden := hiff.mpr (.inl hnew)
  rw [hcert] at hhidden
  exact ⟨by decide +kernel, hwrites, hhidden⟩

/-- A temporary file that everybody may read and write is left from before. -/
def leftoverTree : Tree CStr FileRec :=
  (enrollTree.makeDir [text "id"]).put [text "key.tmp", text "id"] ⟨[], 438⟩

/-- The enrollment succeeds, and on the way its key stood in a file that everybody
may read. -/
theorem otaFetchEnroll_exposes_key :
    (run (exec enrollEnv) (otaFetchEnroll enrollEnv.cjson 100 enrollConfig (some (text "tok"))
        false) (.at leftoverTree)).value = some 0 ∧
      producedKey (run (exec enrollEnv) (otaFetchEnroll enrollEnv.cjson 100 enrollConfig
        (some (text "tok")) false) (.at leftoverTree)).trace = some (text "key") ∧
      (∃ s ∈ (run (exec enrollEnv) (otaFetchEnroll enrollEnv.cjson 100 enrollConfig
        (some (text "tok")) false) (.at leftoverTree)).trace,
        s.after.fs.fileAt (place [] (tmpOf (text "id/key"))) = some ⟨text "key", 438⟩) ∧
      ¬ Hidden enrollEnv (place [] (tmpOf (text "id/key"))) (text "crt") []
        (run (exec enrollEnv) (otaFetchEnroll enrollEnv.cjson 100 enrollConfig (some (text "tok"))
          false) (.at leftoverTree)).trace := by
  refine ⟨?_, ?_, ?_, ?_⟩
  · decide +kernel
  · decide +kernel
  · decide +kernel
  · decide +kernel

end OtaFetch.KeyFile
