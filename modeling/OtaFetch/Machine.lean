import OtaFetch.Interaction
import OtaFetch.Hash
import OtaFetch.Identity
import OtaFetch.Verify

/-!
# The machine the programs run on

The calls of the two programs, their replies, and an environment that answers
them. The environment chooses every failure, short write, signal, exit status
and served byte, as a function of the time of the call; the file tree decides
the rest. Composite functions of the source that only read (verification,
hashing, loading, the token reader) are one call each, answered by their models
on the tree of that moment. Log output is left out, apart from the line that
opens an update check, which marks the iterations of a run.
-/
namespace OtaFetch.Machine
open CPath FileTree Stdio Hash Releases Verify Identity Interaction

structure FileRec where
  data : Bytes
  mode : ℕ
  deriving Repr, DecidableEq

structure World where
  fs : Tree CStr FileRec
  clock : ℕ
  terminate : Bool
  unreaped : ℕ

/-- The options of a transfer; an option that is not set is `none`. -/
structure CurlRequest where
  url : CStr
  followLocation : Bool
  failOnError : Bool
  connectTimeout : Option ℤ
  timeout : Option ℤ
  lowSpeed : Option (ℤ × ℤ)
  sslCert : Option CStr
  sslKey : Option CStr
  caInfo : Option CStr
  showProgress : Bool
  headers : List CStr
  postFields : Option CStr
  deriving Repr, DecidableEq

/-- What the peer does with a request: the chunks it hands to the write
callback, the `CURLcode`, and the response code. -/
structure Transfer where
  chunks : List Bytes
  result : ℕ
  status : ℤ
  deriving Repr, DecidableEq

/-- A `FILE` open for writing: where it writes and what it still buffers. -/
structure Stream where
  loc : Path
  pending : Bytes
  deriving Repr, DecidableEq

inductive WaitStatus where
  | exited (code : ℕ)
  | signaled (sig : ℕ)
  | other
  deriving Repr, DecidableEq

inductive Call where
  | startCheck
  | malloc
  | mkdir (path : CStr) (mode : ℕ)
  | unlink (path : CStr)
  | rename (src dst : CStr)
  | stat (path : CStr)
  | opendir (path : CStr)
  | fopen (path : CStr)
  | fwrite (fp : Stream) (chunk : Bytes)
  | fflush (fp : Stream)
  | fclose (fp : Stream)
  | curlInit
  | perform (req : CurlRequest)
  | verify (data sig cert ca : Option CStr) (errbufLen : ℕ)
  | sha256sum (path : Option CStr)
  | load (path : CStr)
  | spawn (argv : List CStr)
  | waitpid
  | sleep (seconds : ℤ)
  | sync
  | reboot
  | terminated
  | readToken (path : CStr)
  | keyAndCsr (deviceId : Option CStr)
  | requestJson (csr : CStr) (deviceId : Option CStr)
  | openWrite (path : CStr) (mode : ℕ)
  | openDir (path : CStr)
  | write (fd : Path) (data : Bytes)
  | fchmod (fd : Path) (mode : ℕ)
  | fsync (fd : Path)
  | close (fd : Path)

@[reducible] def Resp : Call → Type
  | .startCheck | .sleep _ | .sync | .reboot => Unit
  | .malloc | .curlInit | .terminated => Bool
  | .mkdir _ _ | .unlink _ | .rename _ _ | .stat _ | .fclose _ | .spawn _ => Except Errno Unit
  | .fchmod _ _ | .fsync _ | .close _ => Except Errno Unit
  | .opendir _ => Except Errno (List CStr)
  | .fopen _ => Except Errno Stream
  | .fwrite _ _ => ℕ × Stream
  | .fflush _ => Except Errno Unit × Stream
  | .perform _ => Transfer
  | .verify _ _ _ _ _ => VerifyResult × CStr
  | .sha256sum _ => Except Sha256sumErr Digest
  | .load _ => Option Manifest
  | .waitpid => Except Errno WaitStatus
  | .readToken _ => Option CStr
  | .keyAndCsr _ => Option (CStr × CStr)
  | .requestJson _ _ => Option CStr
  | .openWrite _ _ | .openDir _ => Except Errno Path
  | .write _ _ => Except Errno ℕ

/-- Programs of this machine. -/
abbrev Proc (α : Type) := Prog Call Resp α

/-- Everything a run does not decide itself. Answers are indexed by the time of
the call. `sha256` and `cjson` are fixed functions. -/
structure Env where
  Cert : Type
  Key : Type
  cwd : Path
  umask : ℕ
  fault : ℕ → Call → Option Errno
  accept : ℕ → ℕ
  spill : ℕ → ℕ
  entries : ℕ → List CStr
  server : ℕ → CurlRequest → Transfer
  verify : ℕ → VerifyAnswer Cert Key
  hash : ℕ → HashAnswer
  loadRead : ℕ → WholeAnswer
  sha256 : Bytes → Digest
  cjson : CJson
  child : ℕ → WaitStatus
  signal : ℕ → Bool
  token : ℕ → TokenAnswer
  key : ℕ → KeyAnswer
  request : ℕ → RequestAnswer

/-- What a path names for a reader. -/
def sourceAt (t : Tree CStr FileRec) (cwd : Path) (p : CStr) : Source :=
  match locate t cwd p with
  | .error _ => .missing
  | .ok q =>
    match t.node q with
    | none => .missing
    | some .dir => .directory
    | some (.file f) => .file f.data

/-- The clock moves and a signal may come in. -/
def World.tick (e : Env) (w : World) (fs : Tree CStr FileRec) : World where
  fs := fs
  clock := w.clock + 1
  terminate := w.terminate || e.signal w.clock
  unreaped := w.unreaped

/-- A call that changes the tree: refused by the environment, refused by the
tree, or done. -/
def commit (e : Env) (w : World) (c : Call) (change : Except Errno (Tree CStr FileRec)) :
    Except Errno Unit × World :=
  match e.fault w.clock c with
  | some err => (.error err, w.tick e w.fs)
  | none =>
    match change with
    | .error err => (.error err, w.tick e w.fs)
    | .ok t => (.ok (), w.tick e t)

/-- A call that fails only when the environment says so. -/
def refuse {α : Type} (e : Env) (w : World) (c : Call) (reply : Except Errno α) :
    Except Errno α × World :=
  match e.fault w.clock c with
  | some err => (.error err, w.tick e w.fs)
  | none => (reply, w.tick e w.fs)

def append (t : Tree CStr FileRec) (p : Path) (b : Bytes) : Tree CStr FileRec :=
  t.modifyAt p (fun f => { f with data := f.data ++ b })

/-- `O_WRONLY | O_CREAT | O_TRUNC`: a new file takes the mode under the umask,
an old one keeps its own. -/
def create (e : Env) (t : Tree CStr FileRec) (q : Path) (mode : ℕ) :
    Except Errno (Tree CStr FileRec) :=
  t.openAt q ⟨[], mode &&& (511 ^^^ (e.umask &&& 511))⟩ (fun f => { f with data := [] })

/-- Open for writing and hand back a handle made from the location. -/
def openAs {α : Type} (e : Env) (w : World) (c : Call) (path : CStr) (mode : ℕ)
    (handle : Path → α) : Except Errno α × World :=
  match e.fault w.clock c with
  | some err => (.error err, w.tick e w.fs)
  | none =>
    match locate w.fs e.cwd path with
    | .error err => (.error err, w.tick e w.fs)
    | .ok q =>
      match create e w.fs q mode with
      | .error err => (.error err, w.tick e w.fs)
      | .ok t => (.ok (handle q), w.tick e t)

/-- The names a directory scan hands out: entries that are there, without the
names no entry can have. -/
def scan (e : Env) (w : World) (q : Path) : List CStr :=
  (e.entries w.clock).filter fun n =>
    decide (n ≠ [] ∧ slash ∉ n) && (w.fs.node (n :: q)).isSome

/-- The handler of the machine. -/
def exec (e : Env) (w : World) : (c : Call) → Resp c × World
  | .startCheck => ((), w.tick e w.fs)
  | .malloc => ((e.fault w.clock .malloc).isNone, w.tick e w.fs)
  | .mkdir p m =>
    commit e w (.mkdir p m) (do w.fs.mkdirAt (← locateDir w.fs e.cwd p))
  | .unlink p => commit e w (.unlink p) (do w.fs.unlinkAt (← locate w.fs e.cwd p))
  | .rename s d =>
    commit e w (.rename s d)
      (do w.fs.renameAt (← locate w.fs e.cwd s) (← locate w.fs e.cwd d))
  | .stat p =>
    refuse e w (.stat p)
      (match sourceAt w.fs e.cwd p with
      | .missing => .error .enoent
      | _ => .ok ())
  | .opendir p =>
    refuse e w (.opendir p)
      (match locate w.fs e.cwd p with
      | .error err => .error err
      | .ok q =>
        match w.fs.node q with
        | none => .error .enoent
        | some .dir => .ok (scan e w q)
        | some (.file _) => .error .enotdir)
  | .fopen p => openAs e w (.fopen p) p 438 (fun q => ⟨q, []⟩)
  | .fwrite fp chunk =>
    let n := min (e.accept w.clock) chunk.length
    let buf := fp.pending ++ chunk.take n
    let k := e.spill w.clock
    ((n, ⟨fp.loc, buf.drop k⟩), w.tick e (append w.fs fp.loc (buf.take k)))
  | .fflush fp =>
    match e.fault w.clock (.fflush fp) with
    | some err =>
      let k := e.spill w.clock
      ((.error err, ⟨fp.loc, fp.pending.drop k⟩),
        w.tick e (append w.fs fp.loc (fp.pending.take k)))
    | none => ((.ok (), ⟨fp.loc, []⟩), w.tick e (append w.fs fp.loc fp.pending))
  | .fclose fp =>
    match e.fault w.clock (.fclose fp) with
    | some err => (.error err, w.tick e (append w.fs fp.loc (fp.pending.take (e.spill w.clock))))
    | none => (.ok (), w.tick e (append w.fs fp.loc fp.pending))
  | .curlInit => ((e.fault w.clock .curlInit).isNone, w.tick e w.fs)
  | .perform req => (e.server w.clock req, w.tick e w.fs)
  | .verify d s c ca n =>
    (verifySignatureWithCert (e.verify w.clock) (sourceAt w.fs e.cwd) d s c ca n, w.tick e w.fs)
  | .sha256sum p =>
    (sha256sumFile e.sha256 (e.hash w.clock) (sourceAt w.fs e.cwd) p, w.tick e w.fs)
  | .load p =>
    (manifestLoad e.cjson (e.loadRead w.clock) (sourceAt w.fs e.cwd p), w.tick e w.fs)
  | .spawn argv =>
    match e.fault w.clock (.spawn argv) with
    | some err => (.error err, w.tick e w.fs)
    | none => (.ok (), { w.tick e w.fs with unreaped := w.unreaped + 1 })
  | .waitpid =>
    match e.fault w.clock .waitpid with
    | some err => (.error err, w.tick e w.fs)
    | none => (.ok (e.child w.clock), { w.tick e w.fs with unreaped := w.unreaped - 1 })
  | .sleep _ => ((), w.tick e w.fs)
  | .sync => ((), w.tick e w.fs)
  | .reboot => ((), w.tick e w.fs)
  | .terminated => (w.terminate, w.tick e w.fs)
  | .readToken p => (readTokenFile (e.token w.clock) (sourceAt w.fs e.cwd p), w.tick e w.fs)
  | .keyAndCsr d => (generateKeyAndCsr (e.key w.clock) d, w.tick e w.fs)
  | .requestJson csr d => (buildEnrollRequestJson (e.request w.clock) csr d, w.tick e w.fs)
  | .openWrite p m => openAs e w (.openWrite p m) p m id
  | .openDir p =>
    refuse e w (.openDir p)
      (match locate w.fs e.cwd p with
      | .error err => .error err
      | .ok q => if w.fs.isDir q then .ok q else .error .enotdir)
  | .write fd data =>
    match e.fault w.clock (.write fd data) with
    | some err => (.error err, w.tick e w.fs)
    | none =>
      let n := min (max 1 (e.accept w.clock)) data.length
      (.ok n, w.tick e (append w.fs fd (data.take n)))
  | .fchmod fd m =>
    commit e w (.fchmod fd m) (.ok (w.fs.modifyAt fd (fun f => { f with mode := m })))
  | .fsync fd => refuse e w (.fsync fd) (.ok ())
  | .close fd => refuse e w (.close fd) (.ok ())

/-- One call as a program. -/
abbrev call (c : Call) : Proc (Resp c) := Prog.op c

/-- The files a call may change, given what its paths name. -/
def Writes (e : Env) : Call → Path → Prop
  | .unlink p, q => q = place e.cwd p
  | .rename s d, q => q = place e.cwd s ∨ q = place e.cwd d
  | .fopen p, q => q = place e.cwd p
  | .openWrite p _, q => q = place e.cwd p
  | .fwrite fp _, q => q = fp.loc
  | .fflush fp, q => q = fp.loc
  | .fclose fp, q => q = fp.loc
  | .write fd _, q => q = fd
  | .fchmod fd _, q => q = fd
  | _, _ => False

/-- What every reply of the machine keeps to. -/
def Lawful (e : Env) : (c : Call) → Resp c → Prop
  | .fopen p, r => ∀ fp, r = .ok fp → fp.loc = place e.cwd p
  | .openWrite p _, r => ∀ q, r = .ok q → q = place e.cwd p
  | .fwrite fp _, r => r.2.loc = fp.loc
  | .fflush fp, r => r.2.loc = fp.loc
  | .opendir _, r => ∀ names, r = .ok names → ∀ n ∈ names, n ≠ [] ∧ slash ∉ n
  | _, _ => True

lemma commit_edits {e : Env} {w : World} {c : Call} {change : Except Errno (Tree CStr FileRec)}
    {S : Path → Prop} (h : ∀ t, change = .ok t → w.fs.Edits t S) :
    w.fs.Edits (commit e w c change).2.fs S := by
  unfold commit
  split
  · exact Tree.Edits.refl _ _
  · split
    · exact Tree.Edits.refl _ _
    · exact h _ rfl

lemma refuse_fs {α : Type} (e : Env) (w : World) (c : Call) (reply : Except Errno α) :
    (refuse e w c reply).2.fs = w.fs := by
  unfold refuse
  split <;> rfl

lemma openAs_edits {α : Type} (e : Env) (w : World) (c : Call) (p : CStr) (m : ℕ)
    (handle : Path → α) :
    w.fs.Edits (openAs e w c p m handle).2.fs (· = place e.cwd p) := by
  unfold openAs
  split
  · exact Tree.Edits.refl _ _
  · split
    · exact Tree.Edits.refl _ _
    · rename_i q hq
      obtain ⟨rfl, -⟩ := locate_ok hq
      split
      · exact Tree.Edits.refl _ _
      · rename_i t ht
        exact Tree.openAt_edits ht

lemma bind_ok {α β : Type} {x : Except Errno α} {f : α → Except Errno β} {r : β}
    (h : (x >>= f) = .ok r) : ∃ a, x = .ok a ∧ f a = .ok r := by
  cases x with
  | error err => cases h
  | ok a => exact ⟨a, rfl, h⟩

lemma mkdir_fs (e : Env) (w : World) (p : CStr) (m : ℕ) :
    (exec e w (.mkdir p m)).2.fs = w.fs ∨
      (exec e w (.mkdir p m)).2.fs = w.fs.makeDir (place e.cwd p) := by
  simp only [exec, commit]
  split
  · exact .inl rfl
  · split
    · exact .inl rfl
    · rename_i t ht
      obtain ⟨q, hq, hmk⟩ := bind_ok ht
      rw [locateDir_ok hq] at hmk
      exact .inr (Tree.mkdirAt_ok hmk).2

/-- What one call can do to the tree: make a directory where its path says, or
change the files it names and no directory. -/
theorem exec_edits (e : Env) (w : World) (c : Call) :
    (∃ p m, c = .mkdir p m ∧ ((exec e w c).2.fs = w.fs ∨
      (exec e w c).2.fs = w.fs.makeDir (place e.cwd p))) ∨
    w.fs.Edits (exec e w c).2.fs (Writes e c) := by
  cases c with
  | mkdir p m => exact .inl ⟨p, m, rfl, mkdir_fs e w p m⟩
  | unlink p =>
    refine .inr (commit_edits fun t ht => ?_)
    obtain ⟨q, hq, hu⟩ := bind_ok ht
    rw [(locate_ok hq).1] at hu
    exact Tree.unlinkAt_edits hu
  | rename s d =>
    refine .inr (commit_edits fun t ht => ?_)
    obtain ⟨q, hq, ht⟩ := bind_ok ht
    obtain ⟨r, hr, hu⟩ := bind_ok ht
    rw [(locate_ok hq).1, (locate_ok hr).1] at hu
    exact Tree.renameAt_edits hu
  | fopen p => exact .inr (openAs_edits e w _ p _ _)
  | openWrite p m => exact .inr (openAs_edits e w _ p m _)
  | fwrite fp chunk => exact .inr (Tree.modifyAt_edits _ _ _)
  | fflush fp =>
    right
    simp only [exec]
    split <;> exact Tree.modifyAt_edits _ _ _
  | fclose fp =>
    right
    simp only [exec]
    split <;> exact Tree.modifyAt_edits _ _ _
  | write fd data =>
    right
    simp only [exec]
    split
    · exact Tree.Edits.refl _ _
    · exact Tree.modifyAt_edits _ _ _
  | fchmod fd m =>
    refine .inr (commit_edits fun t ht => ?_)
    obtain rfl := Except.ok.inj ht
    exact Tree.modifyAt_edits _ _ _
  | stat p =>
    right
    rw [exec, refuse_fs]
    exact Tree.Edits.refl _ _
  | opendir p =>
    right
    rw [exec, refuse_fs]
    exact Tree.Edits.refl _ _
  | openDir p =>
    right
    rw [exec, refuse_fs]
    exact Tree.Edits.refl _ _
  | fsync fd =>
    right
    rw [exec, refuse_fs]
    exact Tree.Edits.refl _ _
  | close fd =>
    right
    rw [exec, refuse_fs]
    exact Tree.Edits.refl _ _
  | spawn argv =>
    right
    simp only [exec]
    split <;> exact Tree.Edits.refl _ _
  | waitpid =>
    right
    simp only [exec]
    split <;> exact Tree.Edits.refl _ _
  | _ => exact .inr (Tree.Edits.refl _ _)

theorem exec_lawful (e : Env) (w : World) (c : Call) : Lawful e c (exec e w c).1 := by
  have hopen : ∀ {α : Type} (c : Call) (p : CStr) (m : ℕ) (handle : Path → α) (a : α),
      (openAs e w c p m handle).1 = .ok a → a = handle (place e.cwd p) := by
    intro α c p m handle a h
    unfold openAs at h
    split at h
    · cases h
    · split at h
      · cases h
      · rename_i q hq
        rw [(locate_ok hq).1] at h
        split at h
        · cases h
        · exact (Except.ok.inj h).symm
  cases c with
  | fopen p =>
    intro fp h
    rw [hopen _ _ _ _ _ h]
  | openWrite p m => exact fun q h => hopen _ _ _ _ _ h
  | fwrite fp chunk => rfl
  | fflush fp =>
    simp only [exec]
    split <;> rfl
  | opendir p =>
    intro names h n hn
    simp only [exec, refuse] at h
    split at h
    · cases h
    · split at h
      · cases h
      · split at h
        · cases h
        · obtain rfl := Except.ok.inj h
          have hf := (List.mem_filter.mp hn).2
          rw [Bool.and_eq_true] at hf
          exact of_decide_eq_true hf.1
        · cases h
  | _ => trivial

/-- A call leaves alone what it neither writes nor makes. -/
theorem exec_node {e : Env} {w : World} {c : Call} {q : Path} (h : ¬ Writes e c q) :
    (exec e w c).2.fs.node q = w.fs.node q ∨
      ∃ p m, c = .mkdir p m ∧ q = place e.cwd p ∧ w.fs.node q = none ∧
        (exec e w c).2.fs.node q = some .dir := by
  rcases exec_edits e w c with ⟨p, m, rfl, hfs | hfs⟩ | he
  · exact .inl (by rw [hfs])
  · rw [hfs]
    rcases Tree.makeDir_node w.fs (place e.cwd p) q with hn | ⟨hq, hn⟩
    · exact .inl hn
    · exact .inr ⟨p, m, rfl, hq, hn⟩
  · exact .inl (he.frame h)

theorem exec_fileAt {e : Env} {w : World} {c : Call} {q : Path} (h : ¬ Writes e c q) :
    (exec e w c).2.fs.fileAt q = w.fs.fileAt q := by
  rcases exec_node h with hn | ⟨p, m, -, -, hn, hd⟩
  · exact Tree.fileAt_congr hn
  · rw [Tree.fileAt_eq_none.mpr (.inl hn), Tree.fileAt_eq_none.mpr (.inr hd)]

/-- Directories stay. -/
theorem exec_dir {e : Env} {w : World} {c : Call} {q : Path} (h : w.fs.node q = some .dir) :
    (exec e w c).2.fs.node q = some .dir := by
  rcases exec_edits e w c with ⟨p, m, rfl, hfs | hfs⟩ | he
  · rw [hfs, h]
  · rw [hfs]
    rcases Tree.makeDir_node w.fs (place e.cwd p) q with hn | ⟨-, hn, -⟩
    · rw [hn, h]
    · rw [h] at hn
      cases hn
  · exact he.dir.mpr h

lemma commit_terminate (e : Env) (w : World) (c : Call)
    (change : Except Errno (Tree CStr FileRec)) :
    (commit e w c change).2.terminate = (w.terminate || e.signal w.clock) := by
  unfold commit
  split
  · rfl
  · split <;> rfl

lemma refuse_terminate {α : Type} (e : Env) (w : World) (c : Call)
    (reply : Except Errno α) :
    (refuse e w c reply).2.terminate = (w.terminate || e.signal w.clock) := by
  unfold refuse
  split <;> rfl

lemma openAs_terminate {α : Type} (e : Env) (w : World) (c : Call) (p : CStr) (m : ℕ)
    (handle : Path → α) :
    (openAs e w c p m handle).2.terminate = (w.terminate || e.signal w.clock) := by
  unfold openAs
  split
  · rfl
  · split
    · rfl
    · split <;> rfl

/-- A call sets the flag when a signal comes in during it, and never clears it. -/
theorem exec_terminate (e : Env) (w : World) (c : Call) :
    (exec e w c).2.terminate = (w.terminate || e.signal w.clock) := by
  cases c with
  | fflush fp =>
    simp only [exec]
    split <;> rfl
  | fclose fp =>
    simp only [exec]
    split <;> rfl
  | spawn argv =>
    simp only [exec]
    split <;> rfl
  | waitpid =>
    simp only [exec]
    split <;> rfl
  | write fd data =>
    simp only [exec]
    split <;> rfl
  | mkdir p m => exact commit_terminate e w _ _
  | unlink p => exact commit_terminate e w _ _
  | rename s d => exact commit_terminate e w _ _
  | fchmod fd m => exact commit_terminate e w _ _
  | stat p => exact refuse_terminate e w _ _
  | opendir p => exact refuse_terminate e w _ _
  | openDir p => exact refuse_terminate e w _ _
  | fsync fd => exact refuse_terminate e w _ _
  | close fd => exact refuse_terminate e w _ _
  | fopen p => exact openAs_terminate e w _ p _ _
  | openWrite p m => exact openAs_terminate e w _ p m _
  | _ => rfl

lemma commit_unreaped (e : Env) (w : World) (c : Call)
    (change : Except Errno (Tree CStr FileRec)) :
    (commit e w c change).2.unreaped = w.unreaped := by
  unfold commit
  split
  · rfl
  · split <;> rfl

lemma refuse_unreaped {α : Type} (e : Env) (w : World) (c : Call) (reply : Except Errno α) :
    (refuse e w c reply).2.unreaped = w.unreaped := by
  unfold refuse
  split <;> rfl

lemma openAs_unreaped {α : Type} (e : Env) (w : World) (c : Call) (p : CStr) (m : ℕ)
    (handle : Path → α) : (openAs e w c p m handle).2.unreaped = w.unreaped := by
  unfold openAs
  split
  · rfl
  · split
    · rfl
    · split <;> rfl

/-- Only `fork` and `waitpid` change the number of children. -/
theorem exec_unreaped {e : Env} {w : World} {c : Call} (hs : ∀ argv, c ≠ .spawn argv)
    (hw : c ≠ .waitpid) : (exec e w c).2.unreaped = w.unreaped := by
  cases c with
  | spawn argv => exact absurd rfl (hs argv)
  | waitpid => exact absurd rfl hw
  | fflush fp =>
    simp only [exec]
    split <;> rfl
  | fclose fp =>
    simp only [exec]
    split <;> rfl
  | write fd data =>
    simp only [exec]
    split <;> rfl
  | mkdir p m => exact commit_unreaped e w _ _
  | unlink p => exact commit_unreaped e w _ _
  | rename s d => exact commit_unreaped e w _ _
  | fchmod fd m => exact commit_unreaped e w _ _
  | stat p => exact refuse_unreaped e w _ _
  | opendir p => exact refuse_unreaped e w _ _
  | openDir p => exact refuse_unreaped e w _ _
  | fsync fd => exact refuse_unreaped e w _ _
  | close fd => exact refuse_unreaped e w _ _
  | fopen p => exact openAs_unreaped e w _ p _ _
  | openWrite p m => exact openAs_unreaped e w _ p m _
  | _ => rfl

/-- The trace of a run on this machine. -/
abbrev Trace := List (Step Call Resp World)

theorem step_event {e : Env} {s : Step Call Resp World} {c : Call} {r : Resp c}
    (ha : (s.reply, s.after) = exec e s.before s.call) (he : s.event = ⟨c, r⟩) :
    exec e s.before c = (r, s.after) := by
  obtain ⟨before, call, reply, after⟩ := s
  cases he
  exact ha.symm

theorem chain_lawful {e : Env} {w w' : World} {t : Trace} (hc : Chain (exec e) w t w') :
    ∀ s ∈ t, Lawful e s.call s.reply := by
  intro s hs
  have h := exec_lawful e s.before s.call
  rwa [← hc.answer hs] at h

/-- A file that no call of the trace writes is the same in every state. -/
theorem chain_fileAt {e : Env} {w w' : World} {t : Trace} {q : Path}
    (hc : Chain (exec e) w t w') (h : ∀ s ∈ t, ¬ Writes e s.call q) :
    w'.fs.fileAt q = w.fs.fileAt q ∧ ∀ s ∈ t, s.before.fs.fileAt q = w.fs.fileAt q ∧
      s.after.fs.fileAt q = w.fs.fileAt q := by
  refine hc.rel (fun a b => b.fs.fileAt q = a.fs.fileAt q) (fun _ => rfl)
    (fun _ _ _ h1 h2 => h2.trans h1) ?_
  intro s hs
  have hf := exec_fileAt (w := s.before) (h s hs)
  rwa [← hc.answer hs] at hf

theorem chain_dir {e : Env} {w w' : World} {t : Trace} {q : Path}
    (hc : Chain (exec e) w t w') (h : w.fs.node q = some .dir) :
    w'.fs.node q = some .dir := by
  refine (hc.rel (fun a b => a.fs.node q = some .dir → b.fs.node q = some .dir) (fun _ => id)
    (fun _ _ _ h1 h2 => h2 ∘ h1) ?_).1 h
  intro s hs hd
  have hf := exec_dir (e := e) (c := s.call) hd
  rwa [← hc.answer hs] at hf

/-- A signal that has come in stays known. -/
theorem chain_terminate {e : Env} {w w' : World} {t : Trace} (hc : Chain (exec e) w t w') :
    (w.terminate = true → w'.terminate = true) ∧
      ∀ s ∈ t, (s.before.terminate = true → w'.terminate = true) ∧
        (s.after.terminate = true → w'.terminate = true) := by
  have hstep : ∀ s ∈ t, s.before.terminate = true → s.after.terminate = true := by
    intro s hs hb
    have ha := exec_terminate e s.before s.call
    rw [← hc.answer hs, hb, Bool.true_or] at ha
    exact ha
  induction t generalizing w with
  | nil =>
    obtain rfl : w = w' := hc
    exact ⟨id, by simp⟩
  | cons s t ih =>
    rw [List.forall_mem_cons] at hstep ⊢
    obtain ⟨rfl, -, hrest⟩ := hc
    obtain ⟨hfin, hall⟩ := ih hrest hstep.2
    exact ⟨hfin ∘ hstep.1, ⟨hfin ∘ hstep.1, hfin⟩, hall⟩

/-- A path that was found once is found again. -/
theorem chain_locate {e : Env} {w w' : World} {t : Trace} {p : CStr} {q : Path}
    (hc : Chain (exec e) w t w') (h : locate w.fs e.cwd p = .ok q) :
    locate w'.fs e.cwd p = .ok q := by
  unfold locate at h ⊢
  split_ifs at h ⊢
  exact Tree.walk_mono (fun r hr => chain_dir hc hr) h

lemma exec_locate {e : Env} {w v : World} {c : Call} {r : Resp c} {p : CStr} {q : Path}
    (hx : exec e w c = (r, v)) (h : locate w.fs e.cwd p = .ok q) :
    locate v.fs e.cwd p = .ok q :=
  chain_locate (t := [⟨w, c, r, v⟩]) ⟨rfl, hx.symm, rfl⟩ h

/-- Calls that never change the tree. -/
def ReadOnly (c : Call) : Prop := ∀ e w, (exec e w c).2.fs = w.fs

theorem chain_readOnly {e : Env} {w w' : World} {t : Trace} (hc : Chain (exec e) w t w')
    (h : ∀ s ∈ t, ReadOnly s.call) :
    w'.fs = w.fs ∧ ∀ s ∈ t, s.before.fs = w.fs ∧ s.after.fs = w.fs := by
  refine hc.rel (fun a b => b.fs = a.fs) (fun _ => rfl) (fun _ _ _ h1 h2 => h2.trans h1) ?_
  intro s hs
  have hf := h s hs e s.before
  rwa [← hc.answer hs] at hf

lemma commit_ok {e : Env} {w w' : World} {c : Call} {change : Except Errno (Tree CStr FileRec)}
    (h : commit e w c change = (.ok (), w')) : change = .ok w'.fs := by
  unfold commit at h
  split at h
  · cases h
  · split at h
    · cases h
    · cases h
      rfl

lemma commit_error {e : Env} {w w' : World} {c : Call} {err : Errno}
    {change : Except Errno (Tree CStr FileRec)} (h : commit e w c change = (.error err, w')) :
    w'.fs = w.fs ∧ (e.fault w.clock c = none → change = .error err) := by
  unfold commit at h
  split at h
  · rename_i hf
    cases h
    exact ⟨rfl, fun hn => by rw [hf] at hn; cases hn⟩
  · split at h
    · cases h
      exact ⟨rfl, fun _ => rfl⟩
    · cases h

theorem exec_unlink_ok {e : Env} {w w' : World} {p : CStr}
    (h : exec e w (.unlink p) = (.ok (), w')) :
    (∃ f, w.fs.node (place e.cwd p) = some (.file f)) ∧ w'.fs.node (place e.cwd p) = none := by
  obtain ⟨q, hq, hu⟩ := bind_ok (commit_ok h)
  obtain ⟨hf, hn, -⟩ := Tree.unlinkAt_ok hu
  rw [(locate_ok hq).1] at hf hn
  exact ⟨hf, hn⟩

/-- After an `unlink` that the environment does not refuse, no file is left. -/
theorem exec_unlink_gone {e : Env} {w : World} {p : CStr} {q : Path}
    (hfault : e.fault w.clock (.unlink p) = none) (hl : locate w.fs e.cwd p = .ok q) :
    (exec e w (.unlink p)).2.fs.fileAt (place e.cwd p) = none := by
  rcases hx : exec e w (.unlink p) with ⟨r, v⟩
  cases r with
  | ok u => exact Tree.fileAt_eq_none.mpr (.inl (exec_unlink_ok hx).2)
  | error err =>
    obtain ⟨hfs, hchange⟩ := commit_error hx
    have herr := hchange hfault
    rw [hl] at herr
    obtain ⟨rfl, -⟩ := locate_ok hl
    rw [hfs, Tree.fileAt_eq_none]
    change w.fs.unlinkAt (place e.cwd p) = .error err at herr
    unfold Tree.unlinkAt at herr
    split at herr
    · rename_i hn
      exact .inl hn
    · rename_i hd
      exact .inr hd
    · cases herr

/-- A rename that succeeds moves the file and its content as a whole. -/
theorem exec_rename_ok {e : Env} {w w' : World} {s d : CStr}
    (h : exec e w (.rename s d) = (.ok (), w')) (hne : place e.cwd s ≠ place e.cwd d) :
    ∃ f, w.fs.node (place e.cwd s) = some (.file f) ∧
      w'.fs.node (place e.cwd d) = some (.file f) ∧ w'.fs.node (place e.cwd s) = none := by
  obtain ⟨q, hq, h⟩ := bind_ok (commit_ok h)
  obtain ⟨r, hr, hu⟩ := bind_ok h
  obtain ⟨rfl, -⟩ := locate_ok hq
  obtain ⟨rfl, hholds⟩ := locate_ok hr
  obtain ⟨f, -, hd, -⟩ := Tree.renameAt_ok hu
  obtain ⟨⟨f, hf, hdst⟩, hsrc, -⟩ := Tree.renameAt_node hu hne (hholds hd)
  exact ⟨f, hf, hdst, hsrc⟩

lemma openAs_ok {α : Type} {e : Env} {w w' : World} {c : Call} {p : CStr} {m : ℕ}
    {handle : Path → α} {a : α} (h : openAs e w c p m handle = (.ok a, w')) :
    a = handle (place e.cwd p) ∧ locate w.fs e.cwd p = .ok (place e.cwd p) ∧
      create e w.fs (place e.cwd p) m = .ok w'.fs ∧
      ∃ f, w'.fs.node (place e.cwd p) = some (.file f) ∧ f.data = [] := by
  unfold openAs at h
  split at h
  · cases h
  · split at h
    · cases h
    · rename_i q hq
      obtain ⟨rfl, hholds⟩ := locate_ok hq
      split at h
      · cases h
      · rename_i t ht
        cases h
        refine ⟨rfl, hq, ht, ?_⟩
        obtain ⟨f, rfl, hd, hf⟩ := Tree.openAt_ok ht
        refine ⟨f, Tree.put_node_self f (hholds hd), ?_⟩
        rcases hf with ⟨rfl, -⟩ | ⟨g, -, rfl⟩ <;> rfl

lemma openAs_error {α : Type} {e : Env} {w v : World} {c : Call} {p : CStr} {m : ℕ}
    {handle : Path → α} {err : Errno} (h : openAs e w c p m handle = (.error err, v)) :
    v.fs = w.fs := by
  unfold openAs at h
  split at h
  · cases h
    rfl
  · split at h
    · cases h
      rfl
    · split at h
      · cases h
        rfl
      · cases h

theorem exec_fopen_ok {e : Env} {w w' : World} {p : CStr} {fp : Stream}
    (h : exec e w (.fopen p) = (.ok fp, w')) :
    fp = ⟨place e.cwd p, []⟩ ∧ locate w.fs e.cwd p = .ok (place e.cwd p) ∧
      ∃ f, w'.fs.node (place e.cwd p) = some (.file f) ∧ f.data = [] := by
  obtain ⟨ha, hl, -, hf⟩ := openAs_ok h
  exact ⟨ha, hl, hf⟩

lemma exec_stat_fs (e : Env) (w : World) (p : CStr) : (exec e w (.stat p)).2.fs = w.fs :=
  refuse_fs e w (.stat p) _

/-- Only a path that names nothing makes `stat` fail on its own account. -/
theorem exec_stat_error {e : Env} {w w' : World} {p : CStr} {err : Errno}
    (h : exec e w (.stat p) = (.error err, w')) (hf : e.fault w.clock (.stat p) = none) :
    sourceAt w.fs e.cwd p = .missing := by
  simp only [exec, refuse, hf] at h
  split at h
  · assumption
  · cases h

theorem exec_sha256sum_ok {e : Env} {w w' : World} {path : Option CStr} {d : Digest}
    (h : exec e w (.sha256sum path) = (.ok d, w')) :
    ∃ p data, path = some p ∧ sourceAt w.fs e.cwd p = .file data ∧ d = e.sha256 data := by
  have hd : sha256sumFile e.sha256 (e.hash w.clock) (sourceAt w.fs e.cwd) path = .ok d :=
    congrArg Prod.fst h
  obtain ⟨p, data, hp, hsrc, -, rfl⟩ := (sha256sumFile_ok_iff _ _ _ _ _).mp hd
  exact ⟨p, data, hp, hsrc, rfl⟩

theorem exec_load_some {e : Env} {w w' : World} {p : CStr} {m : Manifest}
    (h : exec e w (.load p) = (some m, w')) :
    ∃ data, sourceAt w.fs e.cwd p = .file data ∧ manifestParse e.cjson data = some m :=
  manifestLoad_some (congrArg Prod.fst h)

theorem exec_verify_ok {e : Env} {w w' : World} {d : CStr} {s c ca : Option CStr} {n : ℕ}
    {msg : CStr} (h : exec e w (.verify (some d) s c ca n) = ((.ok, msg), w')) :
    ∃ data, sourceAt w.fs e.cwd d = .file data := by
  have hv : (verifySignatureWithCert (e.verify w.clock) (sourceAt w.fs e.cwd) (some d) s c ca n).1
      = .ok := congrArg (fun r => r.1.1) h
  exact verifySignatureWithCert_data hv

lemma append_node {t : Tree CStr FileRec} {p : Path} {f : FileRec} (b : Bytes)
    (h : t.node p = some (.file f)) :
    (append t p b).node p = some (.file { f with data := f.data ++ b }) := by
  rw [← Tree.fileAt_eq_some, append, Tree.modifyAt_fileAt, (Tree.fileAt_eq_some _ _ _).mpr h]
  rfl

/-- The bytes themselves, cut or padded to the length of a digest. -/
def padDigest (b : Bytes) : Digest where
  bytes := (b ++ List.replicate sha256DigestLen 0).take sha256DigestLen
  length_eq := by
    rw [List.length_take, List.length_append, List.length_replicate]
    omega

/-- Every call of a verification succeeds, with an RSA key. -/
def calmVerify : VerifyAnswer Unit Unit where
  certFopen := true
  pemReadX509 := fun _ => some ()
  storeNew := true
  statCa := true
  loadLocations := fun _ => 1
  storeCtxNew := true
  storeCtxInit := fun _ _ => 1
  verifyCert := fun _ _ => 1
  verifyCertError := text "ok"
  getPubkey := fun _ => some ()
  baseId := fun _ => evpPkeyRsa
  groupName := fun _ => none
  sigRead := ⟨true, true, true, true, true, sigMaxLen, ⟨1, Nat.one_pos⟩⟩
  dataRead := ⟨true, true, true, true, true, manifestMaxLen, ⟨1, Nat.one_pos⟩⟩
  bioNewFile := true
  mdCtxNew := true
  digestVerifyInit := fun _ _ => 1
  digestVerify := fun _ _ _ => 1
  bioRead := fun _ => ⟨4096, false⟩
  digestVerifyUpdate := fun _ => 1
  digestVerifyFinal := fun _ _ _ => 1
  errors := []

/-- An environment at the root directory in which no call fails. -/
def Env.calm (server : ℕ → CurlRequest → Transfer) (cjson : CJson) : Env where
  Cert := Unit
  Key := Unit
  cwd := []
  umask := 18
  fault := fun _ _ => none
  accept := fun _ => 4096
  spill := fun _ => 0
  entries := fun _ => []
  server := server
  verify := fun _ => calmVerify
  hash := fun _ => HashAnswer.clean
  loadRead := fun _ => ⟨true, true, true, true, true, manifestMaxLen, ⟨1, Nat.one_pos⟩⟩
  sha256 := padDigest
  cjson := cjson
  child := fun _ => .exited 0
  signal := fun _ => false
  token := fun _ => ⟨true, true, fun _ => true, none⟩
  key := fun _ => {
    ctxNew := true, keygenInit := 1, setBits := fun _ => 1, keygen := 1, reqNew := true
    setVersion := 1, nameNew := true, addEntry := fun _ => 1, setSubject := 1, setPubkey := 1
    sign := 1, keyBio := true, csrBio := true, writeKey := 1, writeReq := 1
    keyMem := some (text "key"), csrMem := fun _ => some (text "csr")
    keyMalloc := true, csrMalloc := true }
  request := fun _ => ⟨true, fun _ => true, fun _ => some (text "request")⟩

/-- The empty tree. -/
def bareTree : Tree CStr FileRec where
  node p := if p = [] then some .dir else none
  root := rfl
  nested := by simp

def World.at (fs : Tree CStr FileRec) : World := ⟨fs, 0, false, 0⟩

end OtaFetch.Machine
