import OtaFetch.Stages

/-!
# Accepting a payload

`validate_release` compares the text of the digest with the string of the
manifest. The text is made by `hex_encode`, whose size check is done in `size_t`.
The decoder here is a specification: the program never reads hexadecimal text.
-/
namespace OtaFetch.Payload
open CPath FileTree Stdio Hash Interaction Machine Releases Fetch Update Stages

/-- The value of a lowercase hexadecimal digit. -/
def unhexDigit (c : UInt8) : Option UInt8 :=
  if 48 ≤ c ∧ c ≤ 57 then some (c - 48)
  else if 97 ≤ c ∧ c ≤ 102 then some (c - 87)
  else none

/-- The bytes that a text of lowercase hexadecimal digits stands for. -/
def unhex : CStr → Option Bytes
  | [] => some []
  | [_] => none
  | c :: d :: rest => do
    let hi ← unhexDigit c
    let lo ← unhexDigit d
    let b ← unhex rest
    some ((hi <<< 4 ||| lo) :: b)

/-- Every byte is read back from its two digits. -/
lemma unhexDigit_hexd (x : UInt8) :
    unhexDigit (hexd ((x >>> 4) &&& 0xF)) = some ((x >>> 4) &&& 0xF) ∧
      unhexDigit (hexd (x &&& 0xF)) = some (x &&& 0xF) ∧
      ((x >>> 4) &&& 0xF) <<< 4 ||| (x &&& 0xF) = x := by
  have hall : ∀ n : Fin 256, ∀ x, x = UInt8.ofNat n →
      unhexDigit (hexd ((x >>> 4) &&& 0xF)) = some ((x >>> 4) &&& 0xF) ∧
        unhexDigit (hexd (x &&& 0xF)) = some (x &&& 0xF) ∧
        ((x >>> 4) &&& 0xF) <<< 4 ||| (x &&& 0xF) = x := by
    simp only [forall_eq]
    decide +kernel
  exact hall ⟨x.toNat, x.toNat_lt⟩ x (UInt8.ofNat_toNat).symm

/-- Two digits are the text of the byte they stand for. -/
lemma hexd_unhexDigit {c d hi lo : UInt8} (hc : unhexDigit c = some hi)
    (hd : unhexDigit d = some lo) :
    hexd (((hi <<< 4 ||| lo) >>> 4) &&& 0xF) = c ∧ hexd ((hi <<< 4 ||| lo) &&& 0xF) = d := by
  have hdigit : ∀ n : Fin 256, ∀ v ∈ unhexDigit (UInt8.ofNat n), v < 16 ∧
      hexd v = UInt8.ofNat n := by decide +kernel
  have hpair : ∀ a b : Fin 16,
      ((UInt8.ofNat a <<< 4 ||| UInt8.ofNat b) >>> 4) &&& 0xF = UInt8.ofNat a ∧
        (UInt8.ofNat a <<< 4 ||| UInt8.ofNat b) &&& 0xF = UInt8.ofNat b := by decide +kernel
  have hc' := hdigit ⟨c.toNat, c.toNat_lt⟩ hi (by rwa [UInt8.ofNat_toNat])
  have hd' := hdigit ⟨d.toNat, d.toNat_lt⟩ lo (by rwa [UInt8.ofNat_toNat])
  rw [UInt8.ofNat_toNat] at hc' hd'
  have hsplit := hpair ⟨hi.toNat, hc'.1⟩ ⟨lo.toNat, hd'.1⟩
  rw [UInt8.ofNat_toNat, UInt8.ofNat_toNat] at hsplit
  rw [hsplit.1, hsplit.2]
  exact ⟨hc'.2, hd'.2⟩

theorem unhex_hexText (b : Bytes) : unhex (hexText b) = some b := by
  induction b with
  | nil => rfl
  | cons x xs ih =>
    obtain ⟨hhi, hlo, hx⟩ := unhexDigit_hexd x
    rw [hexText_cons, unhex, hhi, hlo, ih]
    exact congrArg (fun y => some (y :: xs)) hx

theorem hexText_unhex {s : CStr} {b : Bytes} (h : unhex s = some b) : s = hexText b := by
  induction s using unhex.induct generalizing b with
  | case1 =>
    obtain rfl := Option.some.inj h
    rfl
  | case2 c => cases h
  | case3 c d rest ih =>
    rw [unhex] at h
    obtain ⟨hi, hc, h⟩ := Option.bind_eq_some_iff.mp h
    obtain ⟨lo, hd, h⟩ := Option.bind_eq_some_iff.mp h
    obtain ⟨b', hrest, h⟩ := Option.bind_eq_some_iff.mp h
    obtain rfl := Option.some.inj h
    obtain ⟨hc', hd'⟩ := hexd_unhexDigit hc hd
    rw [hexText_cons, hc', hd', ← ih hrest]

/-- A text stands for bytes exactly when it is the text the encoder makes of them. -/
theorem unhex_eq_some_iff (s : CStr) (b : Bytes) : unhex s = some b ↔ s = hexText b :=
  ⟨hexText_unhex, fun h => h ▸ unhex_hexText b⟩

/-- The stores of the loop, from input index `i` on. -/
def digitStores : Bytes → ℕ → List (ℕ × UInt8)
  | [], _ => []
  | x :: xs, i =>
    (i * 2, hexd ((x >>> 4) &&& 0xF)) :: (i * 2 + 1, hexd (x &&& 0xF)) :: digitStores xs (i + 1)

/-- All stores of the encoder in order: index and byte. -/
def hexStores (b : Bytes) : List (ℕ × UInt8) := digitStores b 0 ++ [(b.length * 2, 0)]

def store (out : Bytes) (st : ℕ × UInt8) : Bytes := out.set st.1 st.2

lemma hexLoop_stores (b : Bytes) (i : ℕ) (out : Bytes) :
    hexLoop b i out = (digitStores b i).foldl store out := by
  induction b generalizing i out with
  | nil => rfl
  | cons x xs ih =>
    rw [hexLoop, ih]
    rfl

lemma digitStores_lt (b : Bytes) (i : ℕ) : ∀ st ∈ digitStores b i, st.1 < (i + b.length) * 2 := by
  induction b generalizing i with
  | nil => simp [digitStores]
  | cons x xs ih =>
    simp only [digitStores, List.forall_mem_cons, List.length_cons]
    refine ⟨by omega, by omega, ?_⟩
    intro st hst
    have hlt := ih (i + 1) st hst
    omega

/-- No store goes beyond the terminating NUL. -/
lemma hexStores_le (b : Bytes) : ∀ st ∈ hexStores b, st.1 ≤ 2 * b.length := by
  intro st hst
  rcases List.mem_append.mp hst with hst | hst
  · have hlt := digitStores_lt b 0 st hst
    omega
  · rw [List.mem_singleton.mp hst]
    omega

/-- What `hex_encode` promises for a buffer of `outSz` bytes. -/
structure EncodeContract (out : Bytes) (outSz : ℕ) (inp : Bytes) : Prop where
  small : outSz < 2 * inp.length + 1 → hexEncode (some out) outSz (some inp) = (-2, some out)
  fits : 2 * inp.length + 1 ≤ outSz →
    hexEncode (some out) outSz (some inp) = (0, some ((hexStores inp).foldl store out)) ∧
    (∀ st ∈ hexStores inp, st.1 < outSz) ∧
    (outSz ≤ out.length → ∃ digits,
      (hexStores inp).foldl store out = digits ++ 0 :: out.drop (2 * inp.length + 1) ∧
      digits.length = 2 * inp.length ∧ unhex digits = some inp)

/-- The check does not wrap for an input that can exist. -/
lemma hexEncode_contract (out inp : Bytes) (outSz : ℕ) (hlen : inp.length ≤ ptrdiffMax) :
    EncodeContract out outSz inp := by
  have hwrap : (inp.length * 2 + 1) % 2 ^ 64 = 2 * inp.length + 1 := by
    rw [ptrdiffMax] at hlen
    omega
  constructor
  · intro hsmall
    rw [hexEncode, hwrap, if_pos hsmall]
  · intro hfit
    have hstores : hexEncode (some out) outSz (some inp) =
        (0, some ((hexStores inp).foldl store out)) := by
      rw [hexEncode, hwrap, if_neg (by omega), hexLoop_stores, hexStores, List.foldl_append]
      rfl
    refine ⟨hstores, ?_, ?_⟩
    · intro st hst
      have hle := hexStores_le inp st hst
      omega
    intro hout
    have htext := hexEncode_fits out inp outSz (by omega) hout
    rw [hstores] at htext
    have hcells := Option.some.inj (congrArg Prod.snd htext)
    refine ⟨hexText inp, ?_, ?_, unhex_hexText inp⟩
    · rw [hcells, Nat.mul_comm]
    · rw [hexText_length, Nat.mul_comm]

/-- A payload is accepted exactly when all of it was read and hashed and the
string of the manifest is the text of its digest; the text has one decoding, and
the encoder keeps to its buffer. -/
theorem validateRelease_exact (e : Env) (w : World) (ctx : OtaCtx) :
    ((run (exec e) (validateRelease ctx) w).value = 0 ↔
      ∃ p data s, ctx.payloadPath = some p ∧ sourceAt w.fs e.cwd p = .file data ∧
        HashedAll (e.hash w.clock) data ∧ (firstFile ctx).bind ManifestFile.sha256 = some s ∧
        s.length = 64 ∧ unhex s = some (e.sha256 data).bytes) ∧
    (∀ s b, unhex s = some b ↔ s = hexText b) ∧
    ∀ (out inp : Bytes) (outSz : ℕ), inp.length ≤ ptrdiffMax →
      EncodeContract out outSz inp := by
  refine ⟨?_, unhex_eq_some_iff, hexEncode_contract⟩
  have hvalue := validateRelease_yields e w ctx
  rw [Yields] at hvalue
  rw [hvalue]
  constructor
  · intro h
    obtain ⟨d, hsha, hx, -⟩ := h
    have hd := (sha256sumFile_ok_iff _ _ _ _ _).mp (congrArg Prod.fst hx)
    obtain ⟨p, data, hp, hsrc, hall, rfl⟩ := hd
    refine ⟨p, data, _, hp, hsrc, hall, hsha, ?_, unhex_hexText _⟩
    rw [hexText_length, (e.sha256 data).length_eq, sha256DigestLen]
  · intro h
    obtain ⟨p, data, s, hp, hsrc, hall, hsha, -, hs⟩ := h
    obtain rfl := hexText_unhex hs
    have hd := (sha256sumFile_ok_iff e.sha256 (e.hash w.clock) (sourceAt w.fs e.cwd)
      ctx.payloadPath (e.sha256 data)).mpr ⟨p, data, hp, hsrc, hall, rfl⟩
    obtain ⟨r, hx, ht⟩ := validateRelease_step w hsha
    obtain rfl : r = .ok (e.sha256 data) := (congrArg Prod.fst hx).symm.trans hd
    exact ⟨e.sha256 data, hsha, hx, ht⟩

/-- The payload of three bytes, with the hash of the manifest. -/
def payloadTree : Tree CStr FileRec := bareTree.put [text "fw"] ⟨[1, 2, 3], 420⟩

def payloadCheck : OtaCtx where
  config := blankConfig
  currentManifestPath := text "cur/manifest.json"
  inboxManifestPath := text "in/manifest.json"
  inboxSigPath := text "in/manifest.json.sig"
  inboxCertPath := text "in/signer.crt"
  inboxManifest := none
  payloadPath := some (text "fw")
  release := some ⟨none, none, none, none,
    [⟨none, some (text "fw"), some (hexText (padDigest [1, 2, 3]).bytes), none⟩]⟩

theorem validateRelease_exact_three :
    (run (exec threeBytes) (validateRelease payloadCheck) (.at payloadTree)).value = 0 ∧
      EncodeContract [7, 7, 7, 7] 3 [171] := by
  obtain ⟨haccept, -, hencode⟩ := validateRelease_exact threeBytes (.at payloadTree) payloadCheck
  have hread : HashedAll (threeBytes.hash 0) [1, 2, 3] := by
    refine ⟨rfl, rfl, rfl, ?_, rfl, rfl⟩
    exact .piece 0 _ (by simp) rfl rfl (.eof 1 rfl)
  refine ⟨haccept.mpr ⟨text "fw", [1, 2, 3], _, rfl, by decide +kernel, hread, rfl, ?_, ?_⟩,
    hencode _ _ _ (by decide)⟩
  · rw [hexText_length]
    rfl
  · exact unhex_hexText _

end OtaFetch.Payload
