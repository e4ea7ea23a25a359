import Mathlib.Data.Int.Log
import Mathlib.Data.Rat.Floor
import OtaFetch.Terminal
import OtaFetch.Verify

/-!
# The text of the progress line

Sizes, times and the progress line as `log.c` formats them. A double is the
rational number it stands for, and every operation on doubles rounds its exact
result. The numbers here are positive and within the normal range.
-/
namespace OtaFetch.LogFormat
open CPath (CStr text)
open Terminal
open Verify (decimal)

def roundHalfEven (x : ℚ) : ℤ :=
  if x - ⌊x⌋ < 1 / 2 then ⌊x⌋
  else if 1 / 2 < x - ⌊x⌋ then ⌊x⌋ + 1
  else if ⌊x⌋ % 2 = 0 then ⌊x⌋
  else ⌊x⌋ + 1

/-- The nearest double: 53 significant bits, ties to even. -/
def double (x : ℚ) : ℚ :=
  if x ≤ 0 then 0
  else
    let ulp : ℚ := 2 ^ (Int.log 2 x - 52)
    roundHalfEven (x / ulp) * ulp

/-- `(uint64_t)` of a double. Beyond the range the cast is undefined in C; here
the result is reduced. -/
def toUint64 (x : ℚ) : ℕ := ⌊x⌋₊ % 2 ^ 64

/-- The length of the whole text, and what the buffer holds of it. -/
def snprintf (bufSz : ℕ) (s : CStr) : ℤ × CStr := (s.length, s.take (bufSz - 1))

def units : List CStr := [text "B", text "KiB", text "MiB", text "GiB", text "TiB"]

/-- The loop of `log_format_bytes`; `left` counts the larger units. -/
def unitLoop : ℕ → ℚ → ℕ → ℚ × ℕ
  | 0, value, unitIndex => (value, unitIndex)
  | left + 1, value, unitIndex =>
    if 1024 ≤ value then unitLoop left (double (value / 1024)) (unitIndex + 1)
    else (value, unitIndex)

/-- `%.1f`. -/
def fixed1 (value : ℚ) : CStr :=
  let tenths := (roundHalfEven (value * 10)).toNat
  decimal (tenths / 10) ++ text "." ++ decimal (tenths % 10)

def logFormatBytes (bufSz bytes : ℕ) : ℤ × CStr :=
  if bufSz = 0 then (-1, [])
  else
    let (value, unitIndex) := unitLoop (units.length - 1) (double bytes) 0
    let unit := units.getD unitIndex []
    if unitIndex = 0 then snprintf bufSz (decimal bytes ++ text " " ++ unit)
    else snprintf bufSz (fixed1 value ++ text " " ++ unit)

/-- `%02`. -/
def pad2 (n : ℕ) : CStr := if n < 10 then text "0" ++ decimal n else decimal n

def logFormatEta (bufSz seconds : ℕ) : ℤ × CStr :=
  if bufSz = 0 then (-1, [])
  else
    let hours := seconds / 3600
    let minutes := seconds % 3600 / 60
    let secs := seconds % 60
    if hours > 0 then
      snprintf bufSz (pad2 hours ++ text ":" ++ pad2 minutes ++ text ":" ++ pad2 secs)
    else snprintf bufSz (pad2 minutes ++ text ":" ++ pad2 secs)

/-- The percentage in `log_format_progress_line`: the product is a `uint64_t`,
the quotient is cast to `int`. -/
def linePercent (transferred total : ℕ) : ℤ :=
  let percent := Int.bmod ((transferred * 100 % 2 ^ 64 / total : ℕ) : ℤ) (2 ^ 32)
  if percent > 100 then 100 else percent

/-- What a buffer holds, unless the formatter reported an error. -/
def checked (r : ℤ × CStr) : Option CStr := if r.1 < 0 then none else some r.2

/-- What `speed_buf` holds. -/
def speedText (bytesPerSec : ℚ) : Option CStr :=
  if bytesPerSec > 0 then checked (logFormatBytes 32 (toUint64 (double (bytesPerSec + 1 / 2))))
  else some []

/-- The branches of `log_format_progress_line`. -/
def lineText (transferred total : ℕ) (bytesPerSec : ℚ) (transferredBuf speedBuf : CStr) :
    Option CStr :=
  if total > 0 then do
    let percent := text (toString (linePercent transferred total))
    let totalBuf ← checked (logFormatBytes 32 total)
    if bytesPerSec > 0 ∧ transferred < total then do
      let remaining := double (total - transferred : ℕ)
      let etaBuf ← checked (logFormatEta 16 (toUint64 (double (remaining / bytesPerSec))))
      some (percent ++ text "%  " ++ transferredBuf ++ text " / " ++ totalBuf ++ text "  " ++
        speedBuf ++ text "/s  ETA " ++ etaBuf)
    else if bytesPerSec > 0 then
      some (percent ++ text "%  " ++ transferredBuf ++ text " / " ++ totalBuf ++ text "  " ++
        speedBuf ++ text "/s")
    else some (percent ++ text "%  " ++ transferredBuf ++ text " / " ++ totalBuf)
  else if bytesPerSec > 0 then
    some (transferredBuf ++ text " downloaded  " ++ speedBuf ++ text "/s")
  else some (transferredBuf ++ text " downloaded")

/-- The line in the caller's buffer; `none` is the return value -1. -/
def logFormatProgressLine (bufSz transferred total : ℕ) (bytesPerSec : ℚ) : Option CStr :=
  if bufSz = 0 then none
  else do
    let transferred := if total > 0 ∧ transferred > total then total else transferred
    let transferredBuf ← checked (logFormatBytes 32 transferred)
    let speedBuf ← speedText bytesPerSec
    let written ← lineText transferred total bytesPerSec transferredBuf speedBuf
    let (length, line) := snprintf bufSz written
    if length < 0 ∨ length ≥ bufSz then none else some line

/-- Printable ASCII, and at most `n` bytes. -/
structure Fits (n : ℕ) (s : CStr) : Prop where
  plain : Plain s
  length : s.length ≤ n

lemma Fits.append {m n : ℕ} {a b : CStr} (ha : Fits m a) (hb : Fits n b) :
    Fits (m + n) (a ++ b) := by
  refine ⟨ha.plain.append hb.plain, ?_⟩
  rw [List.length_append]
  exact Nat.add_le_add ha.length hb.length

lemma Fits.mono {m n : ℕ} {s : CStr} (h : Fits m s) (hmn : m ≤ n) : Fits n s :=
  ⟨h.plain, h.length.trans hmn⟩

lemma plain_decimal (n : ℕ) : Plain (decimal n) := by
  intro b hb
  rw [decimal, text, Nat.toString_eq_repr, Nat.toList_repr] at hb
  obtain ⟨c, hc, rfl⟩ := List.mem_map.mp hb
  have hdigit := Nat.isDigit_of_mem_toDigits (by decide) le_rfl hc
  simp only [Char.isDigit, Bool.and_eq_true, decide_eq_true_eq] at hdigit
  have hrange : 48 ≤ c.toNat ∧ c.toNat ≤ 57 :=
    ⟨UInt32.le_iff_toNat_le.mp hdigit.1, UInt32.le_iff_toNat_le.mp hdigit.2⟩
  have hbyte : c.toNat.toUInt8.toNat = c.toNat := by
    rw [Nat.toUInt8, UInt8.toNat_ofNat']
    omega
  constructor
  · rw [UInt8.le_iff_toNat_le, hbyte]
    exact le_trans (by decide) hrange.1
  · rw [UInt8.le_iff_toNat_le, hbyte]
    exact le_trans hrange.2 (by decide)

lemma fits_decimal {n k : ℕ} (hk : 0 < k) (hn : n < 10 ^ k) : Fits k (decimal n) := by
  refine ⟨plain_decimal n, ?_⟩
  rw [decimal, text, Nat.toString_eq_repr, Nat.toList_repr, List.length_map]
  exact (Nat.length_toDigits_le_iff (by decide) hk).mpr hn

lemma plain_pad2 (n : ℕ) : Plain (pad2 n) := by
  have hzero : Plain (text "0") := by decide
  unfold pad2
  split_ifs
  · exact hzero.append (plain_decimal n)
  · exact plain_decimal n

lemma plain_fixed1 (value : ℚ) : Plain (fixed1 value) := by
  have hpoint : Plain (text ".") := by decide
  exact ((plain_decimal _).append hpoint).append (plain_decimal _)

lemma plain_unit (i : ℕ) : Plain (units.getD i []) := by
  have hunits : ∀ u ∈ units, Plain u := by decide
  rw [List.getD_eq_getElem?_getD]
  cases hunit : units[i]? with
  | none => exact List.forall_mem_nil _
  | some u => exact hunits u (List.mem_of_getElem? hunit)

/-- What `snprintf` leaves in a buffer. -/
lemma checked_snprintf (bufSz : ℕ) {s : CStr} (h : Plain s) :
    ∃ t, checked (snprintf bufSz s) = some t ∧ Fits (bufSz - 1) t := by
  refine ⟨s.take (bufSz - 1), ?_, h.take _, List.length_take_le _ _⟩
  rw [checked, if_neg (by simp [snprintf])]
  rfl

lemma logFormatBytes_fits (bufSz : ℕ) (hsz : bufSz ≠ 0) (bytes : ℕ) :
    ∃ t, checked (logFormatBytes bufSz bytes) = some t ∧ Fits (bufSz - 1) t := by
  have hblank : Plain (text " ") := by decide
  simp only [logFormatBytes, if_neg hsz]
  split_ifs
  · exact checked_snprintf bufSz (((plain_decimal _).append hblank).append (plain_unit _))
  · exact checked_snprintf bufSz (((plain_fixed1 _).append hblank).append (plain_unit _))

lemma logFormatEta_fits (bufSz : ℕ) (hsz : bufSz ≠ 0) (seconds : ℕ) :
    ∃ t, checked (logFormatEta bufSz seconds) = some t ∧ Fits (bufSz - 1) t := by
  have hcolon : Plain (text ":") := by decide
  have htail := ((plain_pad2 (seconds % 3600 / 60)).append hcolon).append
    (plain_pad2 (seconds % 60))
  simp only [logFormatEta, if_neg hsz]
  split_ifs
  · refine checked_snprintf bufSz ?_
    simpa only [List.append_assoc] using
      ((plain_pad2 (seconds / 3600)).append hcolon).append htail
  · exact checked_snprintf bufSz htail

lemma quotient_le {transferred total : ℕ} (h : transferred ≤ total) :
    transferred * 100 % 2 ^ 64 / total ≤ 100 := by
  have hmod : transferred * 100 % 2 ^ 64 ≤ total * 100 :=
    (Nat.mod_le _ _).trans (Nat.mul_le_mul_right 100 h)
  exact Nat.div_le_of_le_mul hmod

/-- The quotient is at most 100, so the cast and the bound change nothing. -/
lemma linePercent_eq {transferred total : ℕ} (h : transferred ≤ total) :
    linePercent transferred total = ((transferred * 100 % 2 ^ 64 / total : ℕ) : ℤ) := by
  have hle := quotient_le h
  unfold linePercent
  generalize transferred * 100 % 2 ^ 64 / total = q at hle ⊢
  have hcast : Int.bmod (q : ℤ) (2 ^ 32) = q := Int.bmod_eq_of_le (by omega) (by omega)
  rw [hcast]
  exact if_neg (by omega)

lemma fits_percent {transferred total : ℕ} (h : transferred ≤ total) :
    Fits 3 (text (toString (linePercent transferred total))) := by
  have hle := quotient_le h
  rw [linePercent_eq h]
  exact fits_decimal (by decide) (by omega)

lemma speedText_fits (bytesPerSec : ℚ) :
    ∃ t, speedText bytesPerSec = some t ∧ Fits 31 t := by
  unfold speedText
  split_ifs
  · exact logFormatBytes_fits 32 (by decide) _
  · exact ⟨[], rfl, by decide, by decide⟩

lemma lineText_fits {transferred total : ℕ} (h : total > 0 → transferred ≤ total)
    (bytesPerSec : ℚ) {transferredBuf speedBuf : CStr} (htransferred : Fits 31 transferredBuf)
    (hspeed : Fits 31 speedBuf) :
    ∃ t, lineText transferred total bytesPerSec transferredBuf speedBuf = some t ∧
      Fits 127 t := by
  unfold lineText
  by_cases htotal : total > 0
  · rw [if_pos htotal]
    obtain ⟨totalBuf, htotalBuf, hfits⟩ := logFormatBytes_fits 32 (by decide) total
    obtain ⟨etaBuf, hetaBuf, heta⟩ := logFormatEta_fits 16 (by decide)
      (toUint64 (double (double (total - transferred : ℕ) / bytesPerSec)))
    have hpercent : Fits 3 (text "%  ") := ⟨by decide, by decide⟩
    have hslash : Fits 3 (text " / ") := ⟨by decide, by decide⟩
    have hblanks : Fits 2 (text "  ") := ⟨by decide, by decide⟩
    have hper : Fits 2 (text "/s") := ⟨by decide, by decide⟩
    have hetaText : Fits 8 (text "/s  ETA ") := ⟨by decide, by decide⟩
    have hsizes := ((((fits_percent (h htotal)).append hpercent).append htransferred).append
      hslash).append hfits
    have hspeeds := (hsizes.append hblanks).append hspeed
    simp only [htotalBuf, hetaBuf, Option.bind_eq_bind, Option.bind_some]
    split_ifs
    · exact ⟨_, rfl, (hspeeds.append hetaText).append heta⟩
    · exact ⟨_, rfl, (hspeeds.append hper).mono (by decide)⟩
    · exact ⟨_, rfl, hsizes.mono (by decide)⟩
  · rw [if_neg htotal]
    have hdone : Fits 13 (text " downloaded  ") := ⟨by decide, by decide⟩
    have hdone' : Fits 11 (text " downloaded") := ⟨by decide, by decide⟩
    have hper : Fits 2 (text "/s") := ⟨by decide, by decide⟩
    split_ifs
    · exact ⟨_, rfl, (((htransferred.append hdone).append hspeed).append hper).mono (by decide)⟩
    · exact ⟨_, rfl, (htransferred.append hdone').mono (by decide)⟩

/-- The buffer of 128 bytes is long enough for every line. -/
theorem logFormatProgressLine_fits (transferred total : ℕ) (bytesPerSec : ℚ) :
    ∃ line, logFormatProgressLine 128 transferred total bytesPerSec = some line ∧
      Fits 127 line := by
  set shown := if total > 0 ∧ transferred > total then total else transferred with hshown
  have hle : total > 0 → shown ≤ total := by
    intro htotal
    rw [hshown]
    split_ifs <;> omega
  obtain ⟨transferredBuf, htransferredBuf, htransferred⟩ :=
    logFormatBytes_fits 32 (by decide) shown
  obtain ⟨speedBuf, hspeedBuf, hspeed⟩ := speedText_fits bytesPerSec
  obtain ⟨written, hwritten, hfits⟩ := lineText_fits hle bytesPerSec htransferred hspeed
  refine ⟨written, ?_, hfits⟩
  have hlength := hfits.length
  have hroom : ¬ ((snprintf 128 written).1 < 0 ∨ (snprintf 128 written).1 ≥ (128 : ℕ)) := by
    simp only [snprintf]
    omega
  simp only [logFormatProgressLine, ← hshown, htransferredBuf, hspeedBuf, hwritten,
    Option.bind_eq_bind, Option.bind_some]
  rw [if_neg (by decide), if_neg hroom, snprintf, List.take_of_length_le hlength]

/-- The line of a transfer of which 42 of 100 MiB have arrived at 2 MiB per second. -/
example : logFormatProgressLine 128 (42 * 2 ^ 20) (100 * 2 ^ 20) (2 * 2 ^ 20) =
    some (text "42%  42.0 MiB / 100.0 MiB  2.0 MiB/s  ETA 00:29") := by
  decide +kernel

end OtaFetch.LogFormat
