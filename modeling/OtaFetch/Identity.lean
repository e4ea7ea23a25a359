import OtaFetch.Manifest

/-!
# The parts of enrollment that touch no file but the token

Reading the token into a growing buffer, choosing the endpoint, making the key
and the request, and reading the response. Key generation, signing and JSON
printing are parameters; each library call has an answer for every way it ends.
-/
namespace OtaFetch.Identity
open CPath Stdio Releases

/-- `isspace` in the C locale. -/
def isspace (b : UInt8) : Bool := b == 32 || (9 ≤ b && b ≤ 13)

/-- Answers to the calls of `read_token_file`. A read error hides everything
from the given position on. -/
structure TokenAnswer where
  fopen : Bool
  malloc : Bool
  realloc : ℕ → Bool
  readError : Option ℕ

/-- The buffer and its capacity. -/
structure TokenBuf where
  data : Bytes
  cap : ℕ
  deriving Repr, DecidableEq

/-- `while ((c = fgetc(fp)) != EOF)`, doubling the buffer when the byte and a
terminating NUL do not fit. -/
def tokenLoop (realloc : ℕ → Bool) : Bytes → TokenBuf → Option TokenBuf
  | [], b => some b
  | c :: cs, b =>
    if b.cap ≤ b.data.length + 1 then
      if realloc (b.cap * 2) then tokenLoop realloc cs ⟨b.data ++ [c], b.cap * 2⟩
      else none
    else tokenLoop realloc cs ⟨b.data ++ [c], b.cap⟩

/-- White space goes from the end, then from the start. -/
def trimToken (b : Bytes) : Bytes := (b.rdropWhile isspace).dropWhile isspace

def readTokenFile (a : TokenAnswer) : Source → Option CStr
  | .file data =>
    if a.fopen = false ∨ a.malloc = false then none
    else
      match tokenLoop a.realloc (data.take (a.readError.getD data.length)) ⟨[], 256⟩ with
      | none => none
      | some b =>
        if a.readError.isSome then none
        else
          let token := trimToken b.data
          if token = [] then none else some (cstring token)
  | _ => none

def newline : UInt8 := 10

def deriveEnrollUrl (serverUrl : Option CStr) : Option CStr :=
  match serverUrl with
  | none => none
  | some url =>
    if url = [] then none
    else if url.getLast? = some slash then some (url ++ text "enroll")
    else some (url ++ text "/enroll")

/-- Answers to the calls of `generate_key_and_csr`. The PEM texts are those of
the generated key and of a request for the given common name. -/
structure KeyAnswer where
  ctxNew : Bool
  keygenInit : ℤ
  setBits : ℕ → ℤ
  keygen : ℤ
  reqNew : Bool
  setVersion : ℤ
  nameNew : Bool
  addEntry : CStr → ℤ
  setSubject : ℤ
  setPubkey : ℤ
  sign : ℤ
  keyBio : Bool
  csrBio : Bool
  writeKey : ℤ
  writeReq : ℤ
  keyMem : Option Bytes
  csrMem : CStr → Option Bytes
  keyMalloc : Bool
  csrMalloc : Bool

/-- A C string that is set and not empty. -/
def nonEmpty (s : Option CStr) : Option CStr := s.filter (fun s => !s.isEmpty)

def generateKeyAndCsr (a : KeyAnswer) (deviceId : Option CStr) : Option (CStr × CStr) :=
  let cn := (nonEmpty deviceId).getD (text "ota-fetch")
  if a.ctxNew = false then none
  else if a.keygenInit ≤ 0 then none
  else if a.setBits 2048 ≤ 0 then none
  else if a.keygen ≤ 0 then none
  else if a.reqNew = false then none
  else if a.setVersion ≠ 1 then none
  else if a.nameNew = false then none
  else if a.addEntry cn ≠ 1 then none
  else if a.setSubject ≠ 1 then none
  else if a.setPubkey ≠ 1 then none
  else if a.sign ≤ 0 then none
  else if a.keyBio = false ∨ a.csrBio = false then none
  else if a.writeKey ≠ 1 then none
  else if a.writeReq ≠ 1 then none
  else
    match a.keyMem, a.csrMem cn with
    | some key, some csr =>
      if key = [] ∨ csr = [] then none
      else if a.keyMalloc = false ∨ a.csrMalloc = false then none
      else some (cstring key, cstring csr)
    | _, _ => none

/-- Answers to the calls that build and print the request object. -/
structure RequestAnswer where
  createObject : Bool
  addString : CStr → Bool
  print : List (CStr × CStr) → Option CStr

def buildEnrollRequestJson (a : RequestAnswer) (csrPem : CStr) (deviceId : Option CStr) :
    Option CStr :=
  if a.createObject = false then none
  else if a.addString (text "csr_pem") = false then none
  else
    match nonEmpty deviceId with
    | none => a.print [(text "csr_pem", csrPem)]
    | some d =>
      if a.addString (text "device_id") = false then none
      else a.print [(text "csr_pem", csrPem), (text "device_id", d)]

/-- The certificate text of a response, before it is copied out. Its two parts are C
strings, so nothing of them after a NUL is kept. -/
def parseEnrollResponse (cjson : CJson) (json : CStr) : Option CStr :=
  match cjson.parse json with
  | some (.obj members) =>
    let root := Json.obj members
    match nonEmpty (dupJsonString root (text "client_cert_pem")) with
    | none => none
    | some cert =>
      match nonEmpty (dupJsonString root (text "client_chain_pem")) with
      | none => some cert
      | some chain =>
        if cert.getLast? = some newline then some (cert ++ chain)
        else some (cert ++ newline :: chain)
  | _ => none

end OtaFetch.Identity
