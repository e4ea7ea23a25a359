import OtaFetch.Stdio

/-!
# Verification of a detached signature

The library calls are parameters: each has an answer for every way it can end,
and the two primitives that decide, `X509_verify_cert` and the signature check,
are functions of what they are given. The stages leave through a failure that
carries the code and the message of their exit; nothing in its type keeps that
code from being the success code, so that no exit has it is proved.
-/
namespace OtaFetch.Verify
open CPath Stdio

inductive VerifyResult where
  | ok | errOpenFile | errLoadCert | errLoadCa | errCertVerify | errLoadPubkey | errReadSig
  | errMem | errSigVerify | errHash | errReadData | errUnknown
  deriving Repr, DecidableEq

/-- What `X509_STORE_load_locations` was given: a bundle or a hashed directory. -/
inductive Location where
  | file (path : CStr)
  | directory (path : CStr)
  deriving Repr, DecidableEq

/-- A store is known by what has been loaded into it. -/
abbrev Store := List Location

/-- The digest passed to `EVP_DigestVerifyInit`. -/
inductive Md where
  | null | sha256
  deriving Repr, DecidableEq

def sigMaxLen : ℕ := 16384
def sigEd25519Len : ℕ := 64
def manifestMaxLen : ℕ := 1048576
def verifyErrbufLen : ℕ := 256
def evpPkeyRsa : ℤ := 6
def evpPkeyEc : ℤ := 408
def evpPkeyEd25519 : ℤ := 1087

/-- Answers to the calls of one verification. -/
structure VerifyAnswer (Cert Key : Type) where
  certFopen : Bool
  pemReadX509 : Bytes → Option Cert
  storeNew : Bool
  statCa : Bool
  loadLocations : Location → ℤ
  storeCtxNew : Bool
  storeCtxInit : Store → Cert → ℤ
  verifyCert : Store → Cert → ℤ
  verifyCertError : CStr
  getPubkey : Cert → Option Key
  baseId : Key → ℤ
  groupName : Key → Option CStr
  sigRead : WholeAnswer
  dataRead : WholeAnswer
  bioNewFile : Bool
  mdCtxNew : Bool
  digestVerifyInit : Md → Key → ℤ
  digestVerify : Key → Bytes → Bytes → ℤ
  bioRead : ℕ → ReadAnswer
  digestVerifyUpdate : ℕ → ℤ
  digestVerifyFinal : Key → Bytes → Bytes → ℤ
  errors : List CStr

/-- An exit: its code, its message, and whether OpenSSL's errors are appended. -/
structure Failure where
  code : VerifyResult
  message : CStr
  openssl : Bool
  deriving Repr, DecidableEq

def decimal (n : ℕ) : CStr := text (toString n)

abbrev fail {α : Type} (code : VerifyResult) (message : CStr) : Except Failure α :=
  .error ⟨code, message, false⟩

abbrev failOpenssl {α : Type} (code : VerifyResult) (message : CStr) : Except Failure α :=
  .error ⟨code, message, true⟩

/-- Join the queued errors by `; ` until the buffer of `len` bytes is full. -/
def formatOpensslErrors (len : ℕ) : CStr → List CStr → CStr
  | used, [] => used
  | used, msg :: rest =>
    let piece := (if used = [] then [] else text "; ") ++ msg.take 255
    if len - used.length ≤ piece.length then (used ++ piece).take (len - 1)
    else formatOpensslErrors len (used ++ piece) rest

/-- What the exit leaves in a caller's buffer of `len` bytes, NUL aside. -/
def setErrbuf (len : ℕ) (errors : List CStr) (f : Failure) : CStr :=
  if f.openssl then
    let opensslErr := formatOpensslErrors verifyErrbufLen [] errors
    if opensslErr = [] then (f.message.take 127).take (len - 1)
    else (f.message.take 127 ++ text ": " ++ opensslErr).take (len - 1)
  else f.message.take (len - 1)

def friendlyKeyTypeName {Cert Key : Type} (a : VerifyAnswer Cert Key) (key : Key) : CStr :=
  if a.baseId key = evpPkeyEd25519 then text "Ed25519"
  else if a.baseId key = evpPkeyEc then
    match a.groupName key with
    | none => text "ECDSA"
    | some group =>
      let group := group.take 79
      let curve :=
        if group = text "prime256v1" ∨ group = text "secp256r1" then text "P-256" else group
      if 64 ≤ (text "ECDSA " ++ curve).length then text "ECDSA" else text "ECDSA " ++ curve
  else if a.baseId key = evpPkeyRsa then text "RSA"
  else text "unknown"

def loadSignerCert {Cert Key : Type} (a : VerifyAnswer Cert Key) (src : CStr → Source)
    (certPath : CStr) : Except Failure Cert :=
  if src certPath = .missing ∨ a.certFopen = false then
    fail .errOpenFile (text "Failed to open signer certificate: " ++ certPath)
  else
    let cert :=
      match src certPath with
      | .file pem => a.pemReadX509 pem
      | _ => none
    match cert with
    | none => failOpenssl .errLoadCert (text "Failed to load signer certificate: " ++ certPath)
    | some c => .ok c

def loadCaStore {Cert Key : Type} (a : VerifyAnswer Cert Key) (src : CStr → Source)
    (caPath : CStr) : Except Failure Store :=
  if a.storeNew = false then fail .errMem (text "Out of memory creating CA store")
  else if src caPath = .missing ∨ a.statCa = false then
    fail .errLoadCa (text "Failed to stat CA path: " ++ caPath)
  else if src caPath = .directory then
    if a.loadLocations (.directory caPath) ≠ 1 then
      failOpenssl .errLoadCa (text "Failed to load CA directory: " ++ caPath)
    else .ok [.directory caPath]
  else if a.loadLocations (.file caPath) ≠ 1 then
    failOpenssl .errLoadCa (text "Failed to load CA bundle: " ++ caPath)
  else .ok [.file caPath]

def verifySignerCert {Cert Key : Type} (a : VerifyAnswer Cert Key) (store : Store)
    (cert : Cert) : Except Failure Unit :=
  if a.storeCtxNew = false then fail .errMem (text "Out of memory creating cert verify context")
  else if a.storeCtxInit store cert ≠ 1 then
    failOpenssl .errCertVerify (text "Certificate verification init failed")
  else if a.verifyCert store cert ≠ 1 then
    fail .errCertVerify (text "Certificate verification failed: " ++ a.verifyCertError)
  else .ok ()

def loadPublicKey {Cert Key : Type} (a : VerifyAnswer Cert Key) (cert : Cert) :
    Except Failure Key :=
  match a.getPubkey cert with
  | none => failOpenssl .errLoadPubkey (text "Failed to load public key from signer cert")
  | some key => .ok key

/-- The checks of `read_signature_file` on what was opened: its length, and what is
read of it. -/
def readSignatureData (r : WholeAnswer) (sigPath : CStr) (len : ℕ) (sig : Bytes) :
    Except Failure Bytes :=
  if r.seekEnd = false then
    fail .errReadSig (text "Signature read failed: seek error for " ++ sigPath)
  else if r.tell = false then
    fail .errReadSig (text "Signature read failed: invalid length -1 for " ++ sigPath)
  else if len = 0 then
    fail .errReadSig (text "Signature read failed: invalid length 0 for " ++ sigPath)
  else if sigMaxLen < len then
    fail .errReadSig (text "Signature read failed: length " ++ decimal len ++
      text " exceeds max 16384 for " ++ sigPath)
  else if r.seekSet = false then
    fail .errReadSig (text "Signature read failed: rewind error for " ++ sigPath)
  else if r.malloc = false then
    fail .errMem (text "Out of memory reading signature (" ++ decimal len ++ text " bytes)")
  else if sig.length ≠ len then
    fail .errReadSig (text "Signature read failed: short read " ++ decimal sig.length ++
      text "/" ++ decimal len ++ text " for " ++ sigPath)
  else .ok sig

def readSignatureFile (r : WholeAnswer) (src : CStr → Source) (sigPath : CStr) :
    Except Failure Bytes :=
  if src sigPath = .missing ∨ r.fopen = false then
    fail .errOpenFile (text "Signature read failed: open " ++ sigPath)
  else
    match src sigPath with
    | .file sig => readSignatureData r sigPath sig.length (sig.take r.nread)
    | _ => readSignatureData r sigPath r.dirLen []

/-- `enum read_file_status`, with the bytes or the length that go with it. -/
inductive ReadFile where
  | ok (data : Bytes)
  | open
  | read
  | mem
  | tooLarge (len : ℕ)
  deriving Repr, DecidableEq

/-- `read_file_all` on what was opened: its length, and what is read of it. -/
def readOpenedFile (r : WholeAnswer) (len : ℕ) (data : Bytes) : ReadFile :=
  if r.seekEnd = false ∨ r.tell = false then .read
  else if manifestMaxLen < len then .tooLarge len
  else if r.seekSet = false then .read
  else if len = 0 then .ok []
  else if r.malloc = false then .mem
  else if data.length ≠ len then .read
  else .ok data

def readFileAll (r : WholeAnswer) (src : CStr → Source) (path : CStr) : ReadFile :=
  if src path = .missing ∨ r.fopen = false then .open
  else
    match src path with
    | .file data => readOpenedFile r data.length (data.take r.nread)
    | _ => readOpenedFile r r.dirLen []

/-- The common end of both checks: only the value 1 is a success. -/
def judge (rc : ℤ) (keyName : CStr) (siglen : ℕ) : Except Failure Unit :=
  if rc = 1 then .ok ()
  else if rc = 0 then
    fail .errSigVerify (text "Signature invalid (key type " ++ keyName ++ text ", sig len " ++
      decimal siglen ++ text ")")
  else
    failOpenssl .errSigVerify (text "Signature verification error (key type " ++ keyName ++
      text ")")

def verifyEd25519Signature {Cert Key : Type} (a : VerifyAnswer Cert Key) (src : CStr → Source)
    (dataPath : CStr) (key : Key) (sig : Bytes) (keyName : CStr) : Except Failure Unit :=
  if sig.length ≠ sigEd25519Len then
    fail .errSigVerify (text "Invalid Ed25519 signature length (key type " ++ keyName ++
      text ", sig len " ++ decimal sig.length ++ text ")")
  else
    match readFileAll a.dataRead src dataPath with
    | .open => fail .errOpenFile (text "Failed to open data file: " ++ dataPath)
    | .mem => fail .errMem (text "Out of memory reading data file")
    | .tooLarge len =>
      fail .errReadData (text "Data file too large: " ++ dataPath ++ text " (" ++ decimal len ++
        text " bytes)")
    | .read => fail .errReadData (text "Failed to read data for signature verification")
    | .ok data =>
      if a.mdCtxNew = false then
        fail .errMem (text "Out of memory creating signature verify context")
      else if a.digestVerifyInit .null key ≠ 1 then
        failOpenssl .errSigVerify (text "Signature verify init failed (key type " ++ keyName ++
          text ")")
      else judge (a.digestVerify key sig data) keyName sig.length

/-- The `BIO_read` loop. Reads on a directory fail at once. -/
def digestBio {Cert Key : Type} (a : VerifyAnswer Cert Key) : Source → Drained
  | .file data =>
    drain 4096 a.bioRead (fun i => a.digestVerifyUpdate i == 1) (data.length + 1) 0 data [] false
  | _ => .ended [] true

def verifyRsaEcdsaSignature {Cert Key : Type} (a : VerifyAnswer Cert Key) (src : CStr → Source)
    (dataPath : CStr) (key : Key) (sig : Bytes) (keyName : CStr) : Except Failure Unit :=
  if src dataPath = .missing ∨ a.bioNewFile = false then
    fail .errOpenFile (text "Failed to open data file: " ++ dataPath)
  else if a.mdCtxNew = false then
    fail .errMem (text "Out of memory creating signature verify context")
  else if a.digestVerifyInit .sha256 key ≠ 1 then
    failOpenssl .errSigVerify (text "Signature verify init failed (key type " ++ keyName ++
      text ")")
  else
    match digestBio a (src dataPath) with
    | .updateFailed =>
      failOpenssl .errHash (text "Signature hash update failed (key type " ++ keyName ++ text ")")
    | .ended fed err =>
      if err then
        fail .errHash (text "Failed to read data for signature verification (key type " ++
          keyName ++ text ")")
      else judge (a.digestVerifyFinal key sig fed) keyName sig.length

def verifyWithKey {Cert Key : Type} (a : VerifyAnswer Cert Key) (src : CStr → Source)
    (dataPath : CStr) (key : Key) (sig : Bytes) : Except Failure Unit :=
  let keyName := friendlyKeyTypeName a key
  if a.baseId key = evpPkeyEd25519 then verifyEd25519Signature a src dataPath key sig keyName
  else if a.baseId key ≠ evpPkeyEc ∧ a.baseId key ≠ evpPkeyRsa then
    fail .errSigVerify (text "Unsupported key type " ++ keyName ++ text " (sig len " ++
      decimal sig.length ++ text ")")
  else verifyRsaEcdsaSignature a src dataPath key sig keyName

/-- The stages between the parameter check and `cleanup`. -/
def verifyStages {Cert Key : Type} (a : VerifyAnswer Cert Key) (src : CStr → Source)
    (dataPath sigPath certPath caPath : CStr) : Except Failure Unit := do
  let cert ← loadSignerCert a src certPath
  let store ← loadCaStore a src caPath
  verifySignerCert a store cert
  let key ← loadPublicKey a cert
  let sig ← readSignatureFile a.sigRead src sigPath
  verifyWithKey a src dataPath key sig

def verifyPaths {Cert Key : Type} (a : VerifyAnswer Cert Key) (src : CStr → Source)
    (dataPath sigPath certPath caPath : Option CStr) : Except Failure Unit :=
  match dataPath, sigPath, certPath, caPath with
  | some d, some s, some c, some ca => verifyStages a src d s c ca
  | _, _, _, _ =>
    fail .errUnknown
      (text "Invalid parameter: data, signature, cert, and CA paths must be non-NULL")

/-- The result and what is left in the caller's buffer of `errbufLen` bytes. An
exit without a message gets OpenSSL's errors instead. -/
def verifySignatureWithCert {Cert Key : Type} (a : VerifyAnswer Cert Key) (src : CStr → Source)
    (dataPath sigPath certPath caPath : Option CStr) (errbufLen : ℕ) : VerifyResult × CStr :=
  match verifyPaths a src dataPath sigPath certPath caPath with
  | .ok () => (.ok, [])
  | .error f =>
    let errbuf := setErrbuf errbufLen a.errors f
    (f.code, if f.code ≠ .ok ∧ 0 < errbufLen ∧ errbuf = [] then
        formatOpensslErrors errbufLen [] a.errors else errbuf)

@[simp] theorem guard_eq_ok {α : Type} {p : Prop} [Decidable p] (f : Failure)
    (x : Except Failure α) (r : α) :
    (if p then .error f else x) = .ok r ↔ ¬ p ∧ x = .ok r := by
  split_ifs with h <;> simp [h]

@[simp] theorem bind_eq_ok {α β : Type} (x : Except Failure α) (f : α → Except Failure β)
    (r : β) : (x >>= f) = .ok r ↔ ∃ a, x = .ok a ∧ f a = .ok r := by
  cases x <;> simp [Bind.bind, Except.bind]

/-- An exit never leaves the success code behind. -/
def Honest {α : Type} (x : Except Failure α) : Prop := ∀ f, x = .error f → f.code ≠ .ok

@[simp] theorem honest_ok {α : Type} (r : α) : Honest (.ok r : Except Failure α) := by
  simp [Honest]

@[simp] theorem honest_error {α : Type} (f : Failure) :
    Honest (.error f : Except Failure α) ↔ f.code ≠ .ok := by
  simp [Honest]

theorem Honest.bind {α β : Type} {x : Except Failure α} {f : α → Except Failure β}
    (hx : Honest x) (hf : ∀ a, Honest (f a)) : Honest (x >>= f) := by
  cases x with
  | error e => simpa [Bind.bind, Except.bind] using hx
  | ok a => exact hf a

theorem loadSignerCert_honest {Cert Key : Type} (a : VerifyAnswer Cert Key)
    (src : CStr → Source) (p : CStr) : Honest (loadSignerCert a src p) := by
  unfold loadSignerCert
  split_ifs
  · simp
  · dsimp only
    split <;> simp

theorem loadCaStore_honest {Cert Key : Type} (a : VerifyAnswer Cert Key)
    (src : CStr → Source) (p : CStr) : Honest (loadCaStore a src p) := by
  unfold loadCaStore
  split_ifs <;> simp

theorem verifySignerCert_honest {Cert Key : Type} (a : VerifyAnswer Cert Key) (store : Store)
    (cert : Cert) : Honest (verifySignerCert a store cert) := by
  unfold verifySignerCert
  split_ifs <;> simp

theorem loadPublicKey_honest {Cert Key : Type} (a : VerifyAnswer Cert Key) (cert : Cert) :
    Honest (loadPublicKey a cert) := by
  unfold loadPublicKey
  split <;> simp

theorem readSignatureFile_honest (r : WholeAnswer) (src : CStr → Source) (p : CStr) :
    Honest (readSignatureFile r src p) := by
  have hopened : ∀ len sig, Honest (readSignatureData r p len sig) := by
    intro len sig
    unfold readSignatureData
    split_ifs <;> simp
  unfold readSignatureFile
  split_ifs
  · simp
  · split
    · exact hopened _ _
    · exact hopened _ _

theorem judge_honest (rc : ℤ) (keyName : CStr) (n : ℕ) : Honest (judge rc keyName n) := by
  unfold judge
  split_ifs <;> simp

theorem verifyEd25519Signature_honest {Cert Key : Type} (a : VerifyAnswer Cert Key)
    (src : CStr → Source) (p : CStr) (key : Key) (sig keyName : CStr) :
    Honest (verifyEd25519Signature a src p key sig keyName) := by
  unfold verifyEd25519Signature
  split
  · simp
  · cases readFileAll a.dataRead src p with
    | ok data =>
      dsimp only
      split_ifs
      · simp
      · simp
      · exact judge_honest _ _ _
    | «open» | read | mem | tooLarge len => simp

theorem verifyRsaEcdsaSignature_honest {Cert Key : Type} (a : VerifyAnswer Cert Key)
    (src : CStr → Source) (p : CStr) (key : Key) (sig keyName : CStr) :
    Honest (verifyRsaEcdsaSignature a src p key sig keyName) := by
  unfold verifyRsaEcdsaSignature
  split_ifs
  · simp
  · simp
  · simp
  · split
    · simp
    · split_ifs
      · simp
      · exact judge_honest _ _ _

theorem verifyWithKey_honest {Cert Key : Type} (a : VerifyAnswer Cert Key) (src : CStr → Source)
    (p : CStr) (key : Key) (sig : Bytes) : Honest (verifyWithKey a src p key sig) := by
  unfold verifyWithKey
  dsimp only
  split_ifs
  · exact verifyEd25519Signature_honest a src p key sig _
  · simp
  · exact verifyRsaEcdsaSignature_honest a src p key sig _

/-- About twenty exits, and none of them claims success. -/
theorem verifyPaths_honest {Cert Key : Type} (a : VerifyAnswer Cert Key) (src : CStr → Source)
    (d s c ca : Option CStr) : Honest (verifyPaths a src d s c ca) := by
  unfold verifyPaths
  split
  · exact (loadSignerCert_honest a src _).bind fun cert =>
      (loadCaStore_honest a src _).bind fun store =>
        (verifySignerCert_honest a store cert).bind fun _ =>
          (loadPublicKey_honest a cert).bind fun key =>
            (readSignatureFile_honest _ src _).bind fun sig =>
              verifyWithKey_honest a src _ key sig
  · simp

/-- The signer certificate opens and parses. -/
def SignerLoads {Cert Key : Type} (a : VerifyAnswer Cert Key) (src : CStr → Source) (p : CStr)
    (cert : Cert) : Prop :=
  a.certFopen = true ∧ ∃ pem, src p = .file pem ∧ a.pemReadX509 pem = some cert

/-- The CA path loads, as a directory exactly when it is one, and nothing else
is in the store. -/
def CaLoads {Cert Key : Type} (a : VerifyAnswer Cert Key) (src : CStr → Source) (p : CStr)
    (store : Store) : Prop :=
  a.storeNew = true ∧ a.statCa = true ∧ src p ≠ .missing ∧
    ∃ l, l = (if src p = .directory then .directory p else .file p) ∧
      a.loadLocations l = 1 ∧ store = [l]

def Trusts {Cert Key : Type} (a : VerifyAnswer Cert Key) (store : Store) (cert : Cert) : Prop :=
  a.storeCtxNew = true ∧ a.storeCtxInit store cert = 1 ∧ a.verifyCert store cert = 1

def SignatureReads (r : WholeAnswer) (src : CStr → Source) (p : CStr) (sig : Bytes) : Prop :=
  src p = .file sig ∧ r.Complete sig ∧ 1 ≤ sig.length ∧ sig.length ≤ sigMaxLen

/-- The one-shot check over the whole data. -/
def Ed25519Accepts {Cert Key : Type} (a : VerifyAnswer Cert Key) (src : CStr → Source)
    (p : CStr) (key : Key) (sig : Bytes) : Prop :=
  sig.length = sigEd25519Len ∧
    ∃ data, src p = .file data ∧ a.dataRead.Complete data ∧ data.length ≤ manifestMaxLen ∧
      a.mdCtxNew = true ∧ a.digestVerifyInit .null key = 1 ∧ a.digestVerify key sig data = 1

/-- The streaming check, fed with all the data in order whatever the pieces. -/
def StreamAccepts {Cert Key : Type} (a : VerifyAnswer Cert Key) (src : CStr → Source)
    (p : CStr) (key : Key) (sig : Bytes) : Prop :=
  ∃ data, src p = .file data ∧ a.bioNewFile = true ∧ a.mdCtxNew = true ∧
    a.digestVerifyInit .sha256 key = 1 ∧
    FedAll 4096 a.bioRead (fun i => a.digestVerifyUpdate i == 1) 0 data ∧
    a.digestVerifyFinal key sig data = 1

theorem loadSignerCert_ok_iff {Cert Key : Type} (a : VerifyAnswer Cert Key)
    (src : CStr → Source) (p : CStr) (cert : Cert) :
    loadSignerCert a src p = .ok cert ↔ SignerLoads a src p cert := by
  unfold loadSignerCert SignerLoads
  rw [guard_eq_ok]
  cases src p with
  | missing => simp
  | directory => simp
  | file pem => cases h : a.pemReadX509 pem <;> simp [h]

theorem loadCaStore_ok_iff {Cert Key : Type} (a : VerifyAnswer Cert Key)
    (src : CStr → Source) (p : CStr) (store : Store) :
    loadCaStore a src p = .ok store ↔ CaLoads a src p store := by
  unfold loadCaStore CaLoads
  cases src p with
  | missing => simp
  | directory =>
    simp only [guard_eq_ok, reduceCtorEq, false_or, Bool.not_eq_false, ↓reduceIte, not_not,
      Except.ok.injEq, ne_eq, not_false_eq_true, true_and, exists_eq_left]
    rw [eq_comm (a := store)]
  | file d =>
    simp only [guard_eq_ok, reduceCtorEq, false_or, Bool.not_eq_false, ↓reduceIte, not_not,
      Except.ok.injEq, ne_eq, not_false_eq_true, true_and, exists_eq_left]
    rw [eq_comm (a := store)]

theorem verifySignerCert_ok_iff {Cert Key : Type} (a : VerifyAnswer Cert Key) (store : Store)
    (cert : Cert) (u : Unit) : verifySignerCert a store cert = .ok u ↔ Trusts a store cert := by
  simp only [verifySignerCert, guard_eq_ok, Bool.not_eq_false, ne_eq, not_not, and_true]
  rfl

theorem loadPublicKey_ok_iff {Cert Key : Type} (a : VerifyAnswer Cert Key) (cert : Cert)
    (key : Key) : loadPublicKey a cert = .ok key ↔ a.getPubkey cert = some key := by
  unfold loadPublicKey
  cases a.getPubkey cert <;> simp

lemma readSignatureData_ok_iff (r : WholeAnswer) (p : CStr) (len : ℕ) (got sig : Bytes) :
    readSignatureData r p len got = .ok sig ↔
      (r.seekEnd = true ∧ r.tell = true ∧ r.seekSet = true ∧ r.malloc = true) ∧
        0 < len ∧ len ≤ sigMaxLen ∧ got.length = len ∧ got = sig := by
  simp only [readSignatureData, guard_eq_ok, Except.ok.injEq, Bool.not_eq_false, not_not,
    not_lt, Nat.pos_iff_ne_zero, ne_eq]
  tauto

theorem readSignatureFile_ok_iff (r : WholeAnswer) (src : CStr → Source) (p : CStr)
    (sig : Bytes) : readSignatureFile r src p = .ok sig ↔ SignatureReads r src p sig := by
  unfold readSignatureFile SignatureReads
  rw [guard_eq_ok]
  cases src p with
  | missing => simp
  | directory =>
    simp only [readSignatureData_ok_iff, reduceCtorEq, false_and, iff_false, not_and]
    intro _ _ hpos _ hlen
    exact absurd hlen (Nat.ne_of_lt hpos)
  | file d =>
    simp only [readSignatureData_ok_iff, WholeAnswer.Complete, Source.file.injEq, reduceCtorEq,
      false_or, Bool.not_eq_false, List.length_take, min_eq_right_iff]
    constructor
    · rintro ⟨ho, ⟨hse, ht, hss, hm⟩, hpos, hmax, hn, rfl⟩
      rw [List.take_of_length_le hn]
      exact ⟨rfl, ⟨ho, hse, ht, hss, fun _ => ⟨hm, hn⟩⟩, hpos, hmax⟩
    · rintro ⟨rfl, ⟨ho, hse, ht, hss, hrest⟩, hpos, hmax⟩
      obtain ⟨hm, hn⟩ := hrest (List.ne_nil_of_length_pos hpos)
      exact ⟨ho, ⟨hse, ht, hss, hm⟩, hpos, hmax, hn, List.take_of_length_le hn⟩

lemma readOpenedFile_ok_iff (r : WholeAnswer) (len : ℕ) (got data : Bytes) :
    readOpenedFile r len got = .ok data ↔
      (r.seekEnd = true ∧ r.tell = true ∧ r.seekSet = true) ∧ len ≤ manifestMaxLen ∧
        if len = 0 then data = [] else r.malloc = true ∧ got.length = len ∧ got = data := by
  by_cases hseek : r.seekEnd = true ∧ r.tell = true ∧ r.seekSet = true
  · by_cases hmax : len ≤ manifestMaxLen
    · simp only [readOpenedFile, hseek, hmax, reduceCtorEq, or_self, if_false, not_lt.mpr hmax,
        true_and]
      split_ifs with hz hm hn
      · rw [ReadFile.ok.injEq]
        exact eq_comm
      · simp [hm]
      · simp [hn]
      · simp [hm, not_not.mp hn]
    · simp [readOpenedFile, hseek, hmax, not_le.mp hmax]
  · simp only [hseek, false_and, iff_false]
    unfold readOpenedFile
    split_ifs with hs hl hss hz hm hn
    all_goals simp_all

theorem readFileAll_ok_iff (r : WholeAnswer) (src : CStr → Source) (p : CStr) (data : Bytes) :
    readFileAll r src p = .ok data ↔
      src p = .file data ∧ r.Complete data ∧ data.length ≤ manifestMaxLen := by
  unfold readFileAll
  by_cases hopen : src p = .missing ∨ r.fopen = false
  · rw [if_pos hopen]
    rcases hopen with h | h <;> simp [h, WholeAnswer.Complete]
  rw [if_neg hopen]
  rw [not_or, Bool.not_eq_false] at hopen
  cases hp : src p with
  | missing => exact absurd hp hopen.1
  | directory =>
    simp only [readOpenedFile_ok_iff, PNat.ne_zero, if_false, reduceCtorEq, false_and,
      iff_false, not_and]
    intro _ _ _ hlen
    exact absurd hlen r.dirLen.ne_zero.symm
  | file d =>
    simp only [readOpenedFile_ok_iff, WholeAnswer.Complete, Source.file.injEq, hopen.2, true_and,
      List.length_eq_zero_iff, List.length_take, min_eq_right_iff]
    constructor
    · rintro ⟨⟨hse, ht, hss⟩, hmax, h⟩
      by_cases hd : d = []
      · rw [if_pos hd] at h
        subst h
        exact ⟨hd, ⟨hse, ht, hss, fun hne => absurd rfl hne⟩, Nat.zero_le _⟩
      · rw [if_neg hd] at h
        obtain ⟨hm, hn, rfl⟩ := h
        rw [List.take_of_length_le hn]
        exact ⟨rfl, ⟨hse, ht, hss, fun _ => ⟨hm, hn⟩⟩, hmax⟩
    · rintro ⟨rfl, ⟨hse, ht, hss, hrest⟩, hmax⟩
      refine ⟨⟨hse, ht, hss⟩, hmax, ?_⟩
      split_ifs with hd
      · exact hd
      · obtain ⟨hm, hn⟩ := hrest hd
        exact ⟨hm, hn, List.take_of_length_le hn⟩

@[simp] theorem judge_eq_ok (rc : ℤ) (keyName : CStr) (n : ℕ) :
    judge rc keyName n = .ok () ↔ rc = 1 := by
  unfold judge
  split_ifs with h1 h0 <;> simp [*]

theorem verifyEd25519Signature_ok_iff {Cert Key : Type} (a : VerifyAnswer Cert Key)
    (src : CStr → Source) (p : CStr) (key : Key) (sig : Bytes) (keyName : CStr) :
    verifyEd25519Signature a src p key sig keyName = .ok () ↔
      Ed25519Accepts a src p key sig := by
  have hread := readFileAll_ok_iff a.dataRead src p
  unfold verifyEd25519Signature Ed25519Accepts
  rw [guard_eq_ok, not_not]
  refine and_congr_right fun _ => ?_
  cases h : readFileAll a.dataRead src p with
  | ok data =>
    obtain ⟨hd, hc, hl⟩ := (hread data).mp h
    simp only [guard_eq_ok, judge_eq_ok, hd, Source.file.injEq]
    constructor
    · rintro ⟨hm, hi, hv⟩
      exact ⟨data, rfl, hc, hl, by simpa using hm, by simpa using hi, hv⟩
    · rintro ⟨d, rfl, -, -, hm, hi, hv⟩
      exact ⟨by simp [hm], by simp [hi], hv⟩
  | «open» | read | mem | tooLarge len =>
    simp only [reduceCtorEq, false_iff, not_exists, not_and]
    intro d hd hc hl
    have := (hread d).mpr ⟨hd, hc, hl⟩
    rw [h] at this
    cases this

lemma digestBio_iff {Cert Key : Type} (a : VerifyAnswer Cert Key) (s : Source) (fed : Bytes) :
    digestBio a s = .ended fed false ↔
      s = .file fed ∧ FedAll 4096 a.bioRead (fun i => a.digestVerifyUpdate i == 1) 0 fed := by
  cases s with
  | missing => simp [digestBio]
  | directory => simp [digestBio]
  | file data =>
    rw [digestBio, drain_ended_iff _ _ _ _ _ _ _ _ (Nat.lt_succ_self _), List.nil_append,
      Source.file.injEq]
    constructor
    · rintro ⟨rfl, h⟩
      exact ⟨rfl, h⟩
    · rintro ⟨rfl, h⟩
      exact ⟨rfl, h⟩

theorem verifyRsaEcdsaSignature_ok_iff {Cert Key : Type} (a : VerifyAnswer Cert Key)
    (src : CStr → Source) (p : CStr) (key : Key) (sig : Bytes) (keyName : CStr) :
    verifyRsaEcdsaSignature a src p key sig keyName = .ok () ↔
      StreamAccepts a src p key sig := by
  have hbio := digestBio_iff a (src p)
  unfold verifyRsaEcdsaSignature StreamAccepts
  simp only [guard_eq_ok, not_or, Bool.not_eq_false, not_not]
  constructor
  · rintro ⟨⟨-, ho⟩, hm, hi, h⟩
    split at h
    · cases h
    · rename_i fed err hd
      rw [guard_eq_ok, judge_eq_ok] at h
      have herr : err = false := by simpa using h.1
      rw [herr] at hd
      obtain ⟨hsrc, hfed⟩ := (hbio fed).mp hd
      exact ⟨fed, hsrc, ho, hm, hi, hfed, h.2⟩
  · rintro ⟨data, hsrc, ho, hm, hi, hfed, hv⟩
    have hd := (hbio data).mpr ⟨hsrc, hfed⟩
    refine ⟨⟨by simp [hsrc], ho⟩, hm, hi, ?_⟩
    rw [hd]
    simp [hv]

theorem verifyWithKey_ok_iff {Cert Key : Type} (a : VerifyAnswer Cert Key) (src : CStr → Source)
    (p : CStr) (key : Key) (sig : Bytes) :
    verifyWithKey a src p key sig = .ok () ↔
      (a.baseId key = evpPkeyEd25519 ∧ Ed25519Accepts a src p key sig) ∨
      ((a.baseId key = evpPkeyEc ∨ a.baseId key = evpPkeyRsa) ∧
        StreamAccepts a src p key sig) := by
  have hec : evpPkeyEd25519 ≠ evpPkeyEc := by decide
  have hrsa : evpPkeyEd25519 ≠ evpPkeyRsa := by decide
  unfold verifyWithKey
  dsimp only
  split_ifs with h1 h2
  · rw [verifyEd25519Signature_ok_iff]
    simp [h1, hec, hrsa]
  · simp [h1, h2.1, h2.2]
  · rw [verifyRsaEcdsaSignature_ok_iff]
    have h3 : a.baseId key = evpPkeyEc ∨ a.baseId key = evpPkeyRsa := by
      by_contra hn
      exact h2 (not_or.mp hn)
    simp [h1, h3]

lemma verifySignatureWithCert_fst {Cert Key : Type} (a : VerifyAnswer Cert Key)
    (src : CStr → Source) (d s c ca : Option CStr) (len : ℕ) :
    (verifySignatureWithCert a src d s c ca len).1 = .ok ↔
      verifyPaths a src d s c ca = .ok () := by
  unfold verifySignatureWithCert
  cases h : verifyPaths a src d s c ca with
  | ok u => simp
  | error f => simpa using verifyPaths_honest a src d s c ca f h

lemma verifyStages_ok_iff {Cert Key : Type} (a : VerifyAnswer Cert Key) (src : CStr → Source)
    (d s c ca : CStr) :
    verifyStages a src d s c ca = .ok () ↔
      ∃ cert store key sig, SignerLoads a src c cert ∧ CaLoads a src ca store ∧
        Trusts a store cert ∧ a.getPubkey cert = some key ∧ SignatureReads a.sigRead src s sig ∧
        ((a.baseId key = evpPkeyEd25519 ∧ Ed25519Accepts a src d key sig) ∨
          ((a.baseId key = evpPkeyEc ∨ a.baseId key = evpPkeyRsa) ∧
            StreamAccepts a src d key sig)) := by
  simp only [verifyStages, bind_eq_ok, loadSignerCert_ok_iff, loadCaStore_ok_iff,
    verifySignerCert_ok_iff, loadPublicKey_ok_iff, readSignatureFile_ok_iff, verifyWithKey_ok_iff]
  constructor
  · rintro ⟨cert, hcert, store, hstore, -, htrust, key, hkey, sig, hsig, hv⟩
    exact ⟨cert, store, key, sig, hcert, hstore, htrust, hkey, hsig, hv⟩
  · rintro ⟨cert, store, key, sig, hcert, hstore, htrust, hkey, hsig, hv⟩
    exact ⟨cert, hcert, store, hstore, (), htrust, key, hkey, sig, hsig, hv⟩

/-- Only a file can be verified. -/
lemma verifySignatureWithCert_data {Cert Key : Type} {a : VerifyAnswer Cert Key}
    {src : CStr → Source} {d : CStr} {s c ca : Option CStr} {len : ℕ}
    (h : (verifySignatureWithCert a src (some d) s c ca len).1 = .ok) :
    ∃ data, src d = .file data := by
  rw [verifySignatureWithCert_fst] at h
  unfold verifyPaths at h
  split at h
  · rename_i d' _ _ _ hd
    obtain rfl : d = d' := Option.some.inj hd
    obtain ⟨cert, store, key, sig, -, -, -, -, -, hv⟩ := (verifyStages_ok_iff a src _ _ _ _).mp h
    rcases hv with ⟨-, -, data, hdata, -⟩ | ⟨-, data, hdata, -⟩
    · exact ⟨data, hdata⟩
    · exact ⟨data, hdata⟩
  · cases h

lemma formatOpensslErrors_length (len : ℕ) (used : CStr) (errors : List CStr)
    (h : used.length < len) : (formatOpensslErrors len used errors).length < len := by
  induction errors generalizing used with
  | nil => exact h
  | cons msg rest ih =>
    unfold formatOpensslErrors
    dsimp only
    generalize (if used = [] then [] else text "; ") ++ msg.take 255 = piece
    split_ifs with hfull
    · rw [List.length_take]
      omega
    · refine ih _ ?_
      rw [List.length_append]
      omega

/-- Whatever the paths and the library's own texts are, the message and its
terminating NUL fit in the caller's buffer. -/
theorem verifySignatureWithCert_errbuf {Cert Key : Type} (a : VerifyAnswer Cert Key)
    (src : CStr → Source) (dataPath sigPath certPath caPath : Option CStr) (errbufLen : ℕ)
    (hlen : 0 < errbufLen) :
    (verifySignatureWithCert a src dataPath sigPath certPath caPath errbufLen).2.length <
      errbufLen := by
  unfold verifySignatureWithCert
  split
  · simpa using hlen
  · rename_i f hf
    dsimp only
    split_ifs
    · exact formatOpensslErrors_length _ _ _ (by simpa using hlen)
    · unfold setErrbuf
      dsimp only
      split_ifs <;> rw [List.length_take] <;> omega

end OtaFetch.Verify
