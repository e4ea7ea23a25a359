import OtaFetch.CPath

/-!
# A terminal of unbounded width

Characters overwrite the cells of the last line from the cursor on. A carriage
return puts the cursor back to the first cell and a newline completes the line. A
byte that continues a UTF-8 character joins the cell of that character; every other
byte takes a cell. A line shows a text when it is the text, one byte in each cell,
followed by blanks.
-/
namespace OtaFetch.Terminal
open CPath

def newline : UInt8 := 10
def carriageReturn : UInt8 := 13
def blank : UInt8 := 32

/-- The bytes of the character that stands in a cell. -/
abbrev Cell := Bytes

/-- The completed lines, the cells of the last line, and the cursor, which never
stands beyond the cells that were written. -/
structure Screen where
  done : List (List Cell)
  line : List Cell
  col : ℕ
  inside : col ≤ line.length

def Screen.empty : Screen := ⟨[], [], 0, le_rfl⟩

/-- A byte of a UTF-8 character after its first. -/
def continues (b : UInt8) : Bool := decide (128 ≤ b) && decide (b < 192)

def Screen.put (s : Screen) (b : UInt8) : Screen :=
  if b = newline then ⟨s.done ++ [s.line], [], 0, le_rfl⟩
  else if b = carriageReturn then { s with col := 0, inside := Nat.zero_le _ }
  else if continues b = true ∧ 0 < s.col then
    { done := s.done
      line := s.line.modify (s.col - 1) (· ++ [b])
      col := s.col
      inside := by
        rw [List.length_modify]
        exact s.inside }
  else
    { done := s.done
      line := s.line.take s.col ++ [b] :: s.line.drop (s.col + 1)
      col := s.col + 1
      inside := by
        have h := s.inside
        simp only [List.length_append, List.length_take, List.length_cons, List.length_drop]
        omega }

def Screen.print (s : Screen) (bytes : Bytes) : Screen := bytes.foldl Screen.put s

@[simp] theorem print_nil (s : Screen) : s.print [] = s := rfl

@[simp] theorem print_cons (s : Screen) (b : UInt8) (bytes : Bytes) :
    s.print (b :: bytes) = (s.put b).print bytes := rfl

theorem print_append (s : Screen) (a b : Bytes) : s.print (a ++ b) = (s.print a).print b := by
  simp [Screen.print]

/-- Printable ASCII. -/
def Plain (text : Bytes) : Prop := ∀ b ∈ text, 32 ≤ b ∧ b ≤ 126

instance (text : Bytes) : Decidable (Plain text) :=
  List.decidableBAll (fun b => 32 ≤ b ∧ b ≤ 126) text

lemma Plain.append {a b : Bytes} (ha : Plain a) (hb : Plain b) : Plain (a ++ b) :=
  List.forall_mem_append.mpr ⟨ha, hb⟩

lemma Plain.take {text : Bytes} (h : Plain text) (n : ℕ) : Plain (text.take n) :=
  fun b hb => h b (List.mem_of_mem_take hb)

lemma plain_blanks (n : ℕ) : Plain (List.replicate n blank) := by
  intro b hb
  rw [List.eq_of_mem_replicate hb]
  decide

/-- Each byte of the text in a cell of its own. -/
def cells (text : Bytes) : List Cell := text.map fun b => [b]

@[simp] lemma length_cells (text : Bytes) : (cells text).length = text.length :=
  List.length_map _

lemma cells_append (a b : Bytes) : cells (a ++ b) = cells a ++ cells b := List.map_append

lemma cells_replicate (n : ℕ) (b : UInt8) :
    cells (List.replicate n b) = List.replicate n [b] := List.map_replicate

lemma put_plain {s : Screen} {b : UInt8} (hb : 32 ≤ b ∧ b ≤ 126) :
    (s.put b).done = s.done ∧
      (s.put b).line = s.line.take s.col ++ [b] :: s.line.drop (s.col + 1) ∧
      (s.put b).col = s.col + 1 := by
  have hnewline : b ≠ newline := by
    rintro rfl
    exact absurd hb (by decide)
  have hreturn : b ≠ carriageReturn := by
    rintro rfl
    exact absurd hb (by decide)
  have hfirst : continues b = false := by
    have hlow : ¬ 128 ≤ b := fun h => absurd (UInt8.le_trans h hb.2) (by decide)
    rw [continues, decide_eq_false hlow, Bool.false_and]
  rw [Screen.put, if_neg hnewline, if_neg hreturn, if_neg (by simp [hfirst])]
  exact ⟨rfl, rfl, rfl⟩

/-- Printed text replaces as many cells as it is long. -/
theorem print_plain {text : Bytes} (h : Plain text) (s : Screen) :
    (s.print text).done = s.done ∧
      (s.print text).line = s.line.take s.col ++ cells text ++ s.line.drop (s.col + text.length) ∧
      (s.print text).col = s.col + text.length := by
  induction text generalizing s with
  | nil => simp [cells]
  | cons b text ih =>
    obtain ⟨hb, htext⟩ := List.forall_mem_cons.mp h
    obtain ⟨hdone, hline, hcol⟩ := put_plain (s := s) hb
    obtain ⟨ihdone, ihline, ihcol⟩ := ih htext (s.put b)
    have hlen : (s.line.take s.col ++ [[b]]).length = s.col + 1 := by
      rw [List.length_append, List.length_take, min_eq_left s.inside, List.length_singleton]
    have hsplit : s.line.take s.col ++ [b] :: s.line.drop (s.col + 1) =
        (s.line.take s.col ++ [[b]]) ++ s.line.drop (s.col + 1) := by simp
    rw [print_cons, ihdone, ihline, ihcol, hdone, hline, hcol, hsplit, List.take_left' hlen,
      ← List.drop_drop, List.drop_left' hlen, List.drop_drop, List.length_cons]
    refine ⟨rfl, ?_, by omega⟩
    rw [List.append_assoc (s.line.take s.col), List.singleton_append, Nat.add_assoc,
      Nat.add_comm 1]
    rfl

/-- The line is the text followed by blanks. -/
def Shows (line : List Cell) (text : Bytes) : Prop :=
  ∃ n, line = cells (text ++ List.replicate n blank)

instance (line : List Cell) (text : Bytes) : Decidable (Shows line text) :=
  decidable_of_iff (line = cells (text ++ List.replicate (line.length - text.length) blank)) (by
    constructor
    · intro h
      exact ⟨_, h⟩
    · rintro ⟨n, rfl⟩
      simp)

lemma shows_nil : Shows [] [] := ⟨0, rfl⟩

/-- What lies beyond the text is blank. -/
lemma Shows.drop {line : List Cell} {text : Bytes} (h : Shows line text) {n : ℕ}
    (hn : text.length ≤ n) : ∃ k, line.drop n = cells (List.replicate k blank) := by
  obtain ⟨m, rfl⟩ := h
  refine ⟨m - (n - text.length), ?_⟩
  rw [cells, ← List.map_drop, List.drop_append, List.drop_eq_nil_of_le hn, List.nil_append,
    List.drop_replicate, cells]

/-- Two texts that one line shows differ by trailing blanks only. -/
lemma Shows.trim {line : List Cell} {a b : Bytes} (ha : Shows line a) (hb : Shows line b)
    (hlen : a.length ≤ b.length) : ∃ n, b = a ++ List.replicate n blank := by
  obtain ⟨n, rfl⟩ := ha
  obtain ⟨m, h⟩ := hb
  have htexts : a ++ List.replicate n blank = b ++ List.replicate m blank :=
    List.map_injective_iff.mpr (fun _ _ => List.singleton_inj.mp) h
  refine ⟨min (b.length - a.length) n, ?_⟩
  calc b = (b ++ List.replicate m blank).take b.length := (List.take_left).symm
    _ = (a ++ List.replicate n blank).take b.length := by rw [htexts]
    _ = a ++ List.replicate (min (b.length - a.length) n) blank := by
      rw [List.take_append, List.take_of_length_le hlen, List.take_replicate]

/-- Text and padding from the first cell on hide everything the line showed, when
they are as long. -/
theorem print_over {s : Screen} {old text : Bytes} (hs : Shows s.line old) (hcol : s.col = 0)
    (htext : Plain text) {k : ℕ} (hk : old.length ≤ text.length + k) :
    (s.print (text ++ List.replicate k blank)).done = s.done ∧
      Shows (s.print (text ++ List.replicate k blank)).line text := by
  obtain ⟨hdone, hline, -⟩ := print_plain (htext.append (plain_blanks k)) s
  rw [hcol, Nat.zero_add, List.take_zero, List.nil_append, List.length_append,
    List.length_replicate] at hline
  obtain ⟨m, hm⟩ := hs.drop hk
  refine ⟨hdone, k + m, ?_⟩
  rw [hline, hm, ← cells_append, List.append_assoc, List.replicate_append_replicate]

@[simp] lemma put_return (s : Screen) :
    s.put carriageReturn = { s with col := 0, inside := Nat.zero_le _ } := by
  rw [Screen.put, if_neg (by decide), if_pos rfl]

@[simp] lemma put_newline (s : Screen) :
    s.put newline = ⟨s.done ++ [s.line], [], 0, le_rfl⟩ := by
  rw [Screen.put, if_pos rfl]

end OtaFetch.Terminal
