import OtaFetch.CPath
import Mathlib.Tactic

/-!
# Reading files through stdio

A stream delivers its bytes in pieces whose sizes the environment chooses, and
any read may fail. A failed read may still deliver a short piece, and the error
flag stays set. Reading in a loop stops at the first empty piece, so the end of
the file and a failure look alike until the flag is tested.
-/
namespace OtaFetch.Stdio
open CPath

/-- What a path names when it is opened for reading. A directory opens, but every
read on it fails. -/
inductive Source where
  | missing
  | directory
  | file (data : Bytes)
  deriving Repr, DecidableEq

/-- How the environment answers one read. -/
structure ReadAnswer where
  count : ℕ
  fail : Bool
  deriving Repr, DecidableEq

/-- The number of bytes a read into a buffer of `cap` bytes delivers. Without
an error it is positive until the end of the file. -/
def readCount (cap : ℕ) (a : ReadAnswer) (rest : Bytes) : ℕ :=
  if a.fail then min a.count (min cap rest.length)
  else min (max 1 (min a.count cap)) rest.length

theorem readCount_eq_zero {cap : ℕ} {a : ReadAnswer} {rest : Bytes} (ha : a.fail = false) :
    readCount cap a rest = 0 ↔ rest = [] := by
  rw [readCount, if_neg (by simp [ha]), ← List.length_eq_zero_iff]
  omega

/-- How a reading loop that hands every piece on comes to its end. -/
inductive Drained where
  | updateFailed
  | ended (fed : Bytes) (err : Bool)
  deriving Repr, DecidableEq

/-- `while ((n = read(buf, cap)) > 0) if (!update(buf, n)) fail;`. Each piece
shortens the rest, so `rest.length + 1` rounds are enough. -/
def drain (cap : ℕ) (read : ℕ → ReadAnswer) (update : ℕ → Bool) :
    ℕ → ℕ → Bytes → Bytes → Bool → Drained
  | 0, _, _, fed, err => .ended fed err
  | fuel + 1, i, rest, fed, err =>
    let n := readCount cap (read i) rest
    if n = 0 then .ended fed (err || (read i).fail)
    else if update i then
      drain cap read update fuel (i + 1) (rest.drop n) (fed ++ rest.take n)
        (err || (read i).fail)
    else .updateFailed

/-- Every read from the `i`-th on succeeds, up to the one that sees the end of
the file, and every piece is taken. -/
inductive FedAll (cap : ℕ) (read : ℕ → ReadAnswer) (update : ℕ → Bool) : ℕ → Bytes → Prop where
  | eof (i : ℕ) (hr : (read i).fail = false) : FedAll cap read update i []
  | piece (i : ℕ) (rest : Bytes) (hne : rest ≠ []) (hr : (read i).fail = false)
      (hu : update i = true)
      (hrest : FedAll cap read update (i + 1) (rest.drop (readCount cap (read i) rest))) :
      FedAll cap read update i rest

lemma drain_sticky (cap : ℕ) (read : ℕ → ReadAnswer) (update : ℕ → Bool) (fuel i : ℕ)
    (rest fed fed' : Bytes) : drain cap read update fuel i rest fed true ≠ .ended fed' false := by
  induction fuel generalizing i rest fed with
  | zero => simp [drain]
  | succ fuel ih =>
    simp only [drain, Bool.true_or]
    split_ifs
    · simp
    · exact ih _ _ _
    · simp

/-- The loop ends without an error exactly when everything was read and taken;
then it has handed on all the bytes in order, whatever the pieces were. -/
theorem drain_ended_iff (cap : ℕ) (read : ℕ → ReadAnswer) (update : ℕ → Bool)
    (fuel i : ℕ) (rest fed fed' : Bytes) (hfuel : rest.length < fuel) :
    drain cap read update fuel i rest fed false = .ended fed' false ↔
      fed' = fed ++ rest ∧ FedAll cap read update i rest := by
  induction fuel generalizing i rest fed with
  | zero => omega
  | succ fuel ih =>
    simp only [drain, Bool.false_or]
    by_cases hr : (read i).fail = true
    · have hnot : ¬ FedAll cap read update i rest := by
        intro hf
        cases hf <;> simp_all
      split_ifs
      · simp [hr, hnot]
      · rw [hr]
        simp [drain_sticky, hnot]
      · simp [hnot]
    · have hr : (read i).fail = false := by simpa using hr
      rw [hr]
      split_ifs with hn hu
      · obtain rfl := (readCount_eq_zero hr).mp hn
        constructor
        · intro h
          injection h with h
          exact ⟨by simp [← h], .eof i hr⟩
        · rintro ⟨rfl, -⟩
          simp
      · have hne : rest ≠ [] := fun h => hn ((readCount_eq_zero hr).mpr h)
        have hshort : (rest.drop (readCount cap (read i) rest)).length < fuel := by
          have hpos := List.length_pos_of_ne_nil hne
          rw [List.length_drop]
          omega
        rw [ih _ _ _ hshort, List.append_assoc, List.take_append_drop]
        constructor
        · rintro ⟨rfl, h⟩
          exact ⟨rfl, .piece i rest hne hr hu h⟩
        · rintro ⟨rfl, h⟩
          refine ⟨rfl, ?_⟩
          cases h with
          | eof => exact absurd rfl hne
          | piece _ _ _ _ _ h => exact h
      · have hnot : ¬ FedAll cap read update i rest := by
          intro hf
          cases hf with
          | eof => exact hn ((readCount_eq_zero hr).mpr rfl)
          | piece _ _ _ _ h => exact hu h
        simp [hnot]

/-- Reads that never fail feed everything. -/
lemma fedAll_of_reads {cap : ℕ} {read : ℕ → ReadAnswer} {update : ℕ → Bool}
    (hread : ∀ i, (read i).fail = false) (hupdate : ∀ i, update i = true) (i : ℕ) (rest : Bytes) :
    FedAll cap read update i rest := by
  induction hn : rest.length using Nat.strong_induction_on generalizing i rest with
  | _ n ih =>
    by_cases hne : rest = []
    · rw [hne]
      exact .eof i (hread i)
    · have hcount : readCount cap (read i) rest ≠ 0 :=
        fun h => hne ((readCount_eq_zero (hread i)).mp h)
      have hlen := List.length_pos_iff.mpr hne
      refine .piece i rest hne (hread i) (hupdate i) (ih _ ?_ _ _ rfl)
      rw [List.length_drop]
      omega

/-- What there is to read in what was opened. -/
def Source.bytes : Source → Bytes
  | .file data => data
  | _ => []

/-- How the environment answers the calls that read a whole file into memory:
open, seek to the end, tell, seek back, allocate, read. A file system that lets one seek
in a directory says that its length is `dirLen`, which is not zero. -/
structure WholeAnswer where
  fopen : Bool
  seekEnd : Bool
  tell : Bool
  seekSet : Bool
  malloc : Bool
  nread : ℕ
  dirLen : ℕ+
  deriving Repr, DecidableEq

/-- Nothing fails and every byte asked for arrives. -/
def WholeAnswer.Complete (a : WholeAnswer) (data : Bytes) : Prop :=
  a.fopen = true ∧ a.seekEnd = true ∧ a.tell = true ∧ a.seekSet = true ∧
    (data ≠ [] → a.malloc = true ∧ data.length ≤ a.nread)

instance (a : WholeAnswer) (data : Bytes) : Decidable (a.Complete data) :=
  inferInstanceAs (Decidable (_ ∧ _))

end OtaFetch.Stdio
