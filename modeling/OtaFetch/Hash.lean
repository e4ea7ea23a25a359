import OtaFetch.Stdio

/-!
# SHA-256 of a file and its hexadecimal text

The digest itself is a parameter: a function from the bytes fed to it, since
`EVP_DigestUpdate` concatenates. Everything around it is modelled, with an
answer of the environment for every call that can fail.
-/
namespace OtaFetch.Hash
open CPath Stdio

/-- Length of a SHA-256 digest in bytes. -/
def sha256DigestLen : ℕ := 32

structure Digest where
  bytes : Bytes
  length_eq : bytes.length = sha256DigestLen
  deriving DecidableEq

/-- The failures of `sha256sum_file`. -/
inductive Sha256sumErr where
  | eopen | eread | einval | einit | eupdate | efinal
  deriving Repr, DecidableEq

/-- Answers to the calls of one `sha256sum_file`. -/
structure HashAnswer where
  fopen : Bool
  ctxNew : Bool
  digestInit : ℤ
  fread : ℕ → ReadAnswer
  digestUpdate : ℕ → ℤ
  digestFinal : ℤ
  digestLen : ℕ

/-- Every call succeeds and every read fills the buffer. -/
def HashAnswer.clean : HashAnswer where
  fopen := true
  ctxNew := true
  digestInit := 1
  fread := fun _ => ⟨4096, false⟩
  digestUpdate := fun _ => 1
  digestFinal := 1
  digestLen := sha256DigestLen

/-- The hashing loop over an opened stream. Reads on a directory fail at once. -/
def digestStream (a : HashAnswer) : Source → Drained
  | .file data =>
    drain 4096 a.fread (fun i => a.digestUpdate i == 1) (data.length + 1) 0 data [] false
  | _ => .ended [] true

def sha256sumFile (sha256 : Bytes → Digest) (a : HashAnswer) (src : CStr → Source)
    (path : Option CStr) : Except Sha256sumErr Digest :=
  match path with
  | none => .error .einval
  | some p =>
    if src p = .missing ∨ a.fopen = false then .error .eopen
    else if a.ctxNew = false then .error .einit
    else if a.digestInit ≠ 1 then .error .einit
    else
      match digestStream a (src p) with
      | .updateFailed => .error .eupdate
      | .ended fed err =>
        if err then .error .eread
        else if a.digestFinal ≠ 1 then .error .efinal
        else if a.digestLen ≠ sha256DigestLen then .error .efinal
        else .ok (sha256 fed)

/-- All the bytes of the file reach the digest and no call fails. -/
def HashedAll (a : HashAnswer) (data : Bytes) : Prop :=
  a.fopen = true ∧ a.ctxNew = true ∧ a.digestInit = 1 ∧
    FedAll 4096 a.fread (fun i => a.digestUpdate i == 1) 0 data ∧
    a.digestFinal = 1 ∧ a.digestLen = sha256DigestLen

lemma digestStream_iff (a : HashAnswer) (s : Source) (fed : Bytes) :
    digestStream a s = .ended fed false ↔
      s = .file fed ∧ FedAll 4096 a.fread (fun i => a.digestUpdate i == 1) 0 fed := by
  cases s with
  | missing => simp [digestStream]
  | directory => simp [digestStream]
  | file data =>
    rw [digestStream, drain_ended_iff _ _ _ _ _ _ _ _ (Nat.lt_succ_self _)]
    constructor
    · rintro ⟨rfl, h⟩
      exact ⟨rfl, h⟩
    · rintro ⟨h, hfed⟩
      injection h with h
      subst h
      exact ⟨rfl, hfed⟩

/-- The exact condition for a digest, and which digest it is. -/
theorem sha256sumFile_ok_iff (sha256 : Bytes → Digest) (a : HashAnswer) (src : CStr → Source)
    (path : Option CStr) (d : Digest) :
    sha256sumFile sha256 a src path = .ok d ↔
      ∃ p data, path = some p ∧ src p = .file data ∧ HashedAll a data ∧ d = sha256 data := by
  cases path with
  | none => simp [sha256sumFile]
  | some p =>
    simp only [sha256sumFile]
    constructor
    · intro h
      split at h
      · cases h
      · rename_i ho
        split at h
        · cases h
        · rename_i hc
          split at h
          · cases h
          · rename_i hi
            split at h
            · cases h
            · rename_i fed err hd
              split_ifs at h with he hf hl
              have hend : digestStream a (src p) = .ended fed false := by
                rw [hd]
                simpa using he
              obtain ⟨hsrc, hfed⟩ := (digestStream_iff a _ fed).mp hend
              have hopen : a.fopen = true := by
                by_contra hn
                exact ho (.inr (by simpa using hn))
              exact ⟨p, fed, rfl, hsrc, ⟨hopen, by simpa using hc, not_not.mp hi, hfed,
                not_not.mp hf, not_not.mp hl⟩, (Except.ok.inj h).symm⟩
    · rintro ⟨q, data, hq, hsrc, ⟨ho, hc, hi, hfed, hf, hl⟩, rfl⟩
      obtain rfl := Option.some.inj hq
      have hend := (digestStream_iff a _ data).mpr ⟨hsrc, hfed⟩
      rw [if_neg (by simp [hsrc, ho]), if_neg (by simp [hc]), if_neg (by simp [hi]), hend]
      simp [hf, hl]

/-- `hexd[n]` of the encoder. -/
def hexd (n : UInt8) : UInt8 := (text "0123456789abcdef").getD n.toNat 0

/-- The writes of the encoding loop, two for each input byte from index `i` on. -/
def hexLoop : Bytes → ℕ → Bytes → Bytes
  | [], _, out => out
  | b :: bs, i, out =>
    hexLoop bs (i + 1)
      ((out.set (i * 2) (hexd ((b >>> 4) &&& 0xF))).set (i * 2 + 1) (hexd (b &&& 0xF)))

/-- The size check is done in `size_t`, so `len * 2 + 1` wraps at 64 bits. -/
def hexEncode (out : Option Bytes) (outSz : ℕ) (inp : Option Bytes) : ℤ × Option Bytes :=
  match out, inp with
  | some o, some b =>
    if outSz < (b.length * 2 + 1) % 2 ^ 64 then (-2, some o)
    else (0, some ((hexLoop b 0 o).set (b.length * 2) 0))
  | _, _ => (-1, out)

/-- The lowercase hexadecimal text of a byte string. -/
def hexText (b : Bytes) : CStr :=
  b.flatMap (fun x : UInt8 => [hexd ((x >>> 4) &&& 0xF), hexd (x &&& 0xF)])

@[simp] theorem hexText_nil : hexText [] = [] := rfl

@[simp] theorem hexText_cons (x : UInt8) (xs : Bytes) :
    hexText (x :: xs) = hexd ((x >>> 4) &&& 0xF) :: hexd (x &&& 0xF) :: hexText xs := rfl

@[simp] theorem hexText_length (b : Bytes) : (hexText b).length = b.length * 2 := by
  induction b with
  | nil => rfl
  | cons x xs ih =>
    simp only [hexText_cons, List.length_cons, ih]
    omega

lemma hexd_ne_zero (n : UInt8) : hexd (n &&& 0xF) ≠ 0 := by
  have hlt : (n &&& 0xF).toNat < 16 := by
    rw [UInt8.toNat_and]
    exact Nat.lt_of_le_of_lt Nat.and_le_right (by decide)
  have hdigits : ∀ k < 16, (text "0123456789abcdef").getD k 0 ≠ 0 := by decide
  exact hdigits _ hlt

theorem hexText_ne_zero (b : Bytes) : ∀ c ∈ hexText b, c ≠ 0 := by
  intro c hc
  obtain ⟨x, -, hx⟩ := List.mem_flatMap.mp hc
  rcases List.mem_pair.mp hx with rfl | rfl
  · exact hexd_ne_zero _
  · exact hexd_ne_zero _

/-- The loop overwrites exactly the cells of the remaining digits. -/
theorem hexLoop_eq (b front cells back : Bytes) (i : ℕ) (hf : front.length = i * 2)
    (hc : cells.length = b.length * 2) :
    hexLoop b i (front ++ cells ++ back) = front ++ hexText b ++ back := by
  induction b generalizing i front cells with
  | nil =>
    obtain rfl : cells = [] := List.length_eq_zero_iff.mp (by simpa using hc)
    simp [hexLoop]
  | cons x xs ih =>
    obtain ⟨c, d, cells, rfl⟩ : ∃ c d r, cells = c :: d :: r := by
      match cells, hc with
      | c :: d :: r, _ => exact ⟨c, d, r, rfl⟩
      | [_], h =>
        simp only [List.length_cons, List.length_nil] at h
        omega
      | [], h =>
        simp only [List.length_cons, List.length_nil] at h
        omega
    have hlen : cells.length = xs.length * 2 := by
      simp only [List.length_cons] at hc
      omega
    have hset : ∀ u v : UInt8, ((front ++ (c :: d :: cells) ++ back).set (i * 2) u).set
        (i * 2 + 1) v = (front ++ [u, v]) ++ cells ++ back := by
      intro u v
      rw [← hf]
      simp [List.set_append_right, List.append_assoc]
    rw [hexLoop, hset, ih _ _ _ (by simp [hf]; omega) hlen]
    simp

/-- Into a buffer of at least `2 * len + 1` bytes the encoder writes the text
and its terminator, and nothing after them. -/
theorem hexEncode_fits (out b : Bytes) (outSz : ℕ) (hsz : b.length * 2 + 1 ≤ outSz)
    (hout : outSz ≤ out.length) :
    hexEncode (some out) outSz (some b) =
      (0, some (hexText b ++ 0 :: out.drop (b.length * 2 + 1))) := by
  have hmod : (b.length * 2 + 1) % 2 ^ 64 ≤ b.length * 2 + 1 := Nat.mod_le _ _
  have hsplit : out = [] ++ out.take (b.length * 2) ++ out.drop (b.length * 2) := by simp
  have hloop : hexLoop b 0 out = hexText b ++ out.drop (b.length * 2) := by
    have h := hexLoop_eq b [] (out.take (b.length * 2)) (out.drop (b.length * 2)) 0 rfl
      (by rw [List.length_take]; omega)
    rw [← hsplit] at h
    simpa using h
  obtain ⟨x, rest, hdrop⟩ : ∃ x rest, out.drop (b.length * 2) = x :: rest := by
    apply List.exists_cons_of_length_pos
    rw [List.length_drop]
    omega
  have hnext : out.drop (b.length * 2 + 1) = rest := by
    rw [← List.drop_drop, hdrop]
    rfl
  simp only [hexEncode, if_neg (show ¬ outSz < (b.length * 2 + 1) % 2 ^ 64 by omega)]
  rw [hloop, hdrop, hnext, ← hexText_length b]
  simp

/-- The C string left in the buffer is the text itself. -/
theorem cstring_hexText (b rest : Bytes) : cstring (hexText b ++ 0 :: rest) = hexText b := by
  rw [cstring_terminated, cstring_eq_self_iff]
  intro hzero
  exact hexText_ne_zero b 0 hzero rfl

end OtaFetch.Hash
