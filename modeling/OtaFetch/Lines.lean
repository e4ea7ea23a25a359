import Mathlib.Data.List.TakeWhile
import Mathlib.Tactic

/-!
# Lines

A text is cut after every end-of-line symbol; the last line may lack it. A line
reader with a buffer hands out at most so many symbols of the line at a time.
-/
namespace OtaFetch.Lines

/-- The first line, with its end, and what follows it. -/
def cutLine {α : Type} [DecidableEq α] (eol : α) : List α → List α × List α
  | [] => ([], [])
  | b :: s => if b = eol then ([b], s) else (b :: (cutLine eol s).1, (cutLine eol s).2)

/-- At most `n` symbols of the first line, and the rest. -/
def takeLine {α : Type} [DecidableEq α] (eol : α) : ℕ → List α → List α × List α
  | 0, s => ([], s)
  | _ + 1, [] => ([], [])
  | n + 1, b :: s =>
    if b = eol then ([b], s) else (b :: (takeLine eol n s).1, (takeLine eol n s).2)

/-- All lines of a text. -/
def lines {α : Type} [DecidableEq α] (eol : α) : List α → List (List α)
  | [] => []
  | b :: s =>
    if b = eol then [b] :: lines eol s
    else
      match lines eol s with
      | [] => [[b]]
      | l :: ls => (b :: l) :: ls

lemma lines_cons_cutLine {α : Type} [DecidableEq α] {eol : α} {s : List α} (hs : s ≠ []) :
    lines eol s = (cutLine eol s).1 :: lines eol (cutLine eol s).2 := by
  induction s with
  | nil => exact absurd rfl hs
  | cons b s ih =>
    by_cases hb : b = eol
    · rw [lines, cutLine, if_pos hb, if_pos hb]
    · rw [lines, cutLine, if_neg hb, if_neg hb]
      cases s with
      | nil => rfl
      | cons c s => rw [ih (by simp)]

lemma cutLine_append {α : Type} [DecidableEq α] (eol : α) (s : List α) :
    (cutLine eol s).1 ++ (cutLine eol s).2 = s := by
  induction s with
  | nil => rfl
  | cons b s ih =>
    rw [cutLine]
    split_ifs
    · rfl
    · rw [List.cons_append, ih]

/-- A line that ends is followed by anything, and one that does not is the last. -/
inductive IsLine {α : Type} (eol : α) : List α → List α → Prop where
  | ended (body rest : List α) (h : eol ∉ body) : IsLine eol (body ++ [eol]) rest
  | last (body : List α) (hne : body ≠ []) (h : eol ∉ body) : IsLine eol body []

lemma cutLine_isLine {α : Type} [DecidableEq α] {eol : α} {s : List α} (hs : s ≠ []) :
    IsLine eol (cutLine eol s).1 (cutLine eol s).2 := by
  induction s with
  | nil => exact absurd rfl hs
  | cons b s ih =>
    rw [cutLine]
    split_ifs with hb
    · subst hb
      exact .ended [] s (by simp)
    · cases s with
      | nil => exact .last [b] (by simp) (by simpa using Ne.symm hb)
      | cons c s =>
        have hrest := ih (by simp)
        generalize (cutLine eol (c :: s)).1 = l at hrest ⊢
        generalize (cutLine eol (c :: s)).2 = r at hrest ⊢
        cases hrest with
        | ended body _ h => exact .ended (b :: body) r (by simp [Ne.symm hb, h])
        | last _ _ h => exact .last (b :: l) (by simp) (by simp [Ne.symm hb, h])

lemma IsLine.cutLine {α : Type} [DecidableEq α] {eol : α} {l r : List α} (h : IsLine eol l r) :
    cutLine eol (l ++ r) = (l, r) := by
  cases h with
  | ended body _ hbody =>
    induction body with
    | nil => simp [Lines.cutLine]
    | cons b body ih =>
      rw [List.mem_cons, not_or] at hbody
      rw [List.cons_append, List.cons_append, Lines.cutLine, if_neg (Ne.symm hbody.1),
        ih hbody.2]
  | last _ hne hbody =>
    rw [List.append_nil]
    induction l with
    | nil => exact absurd rfl hne
    | cons b body ih =>
      rw [List.mem_cons, not_or] at hbody
      rw [Lines.cutLine, if_neg (Ne.symm hbody.1)]
      cases body with
      | nil => rfl
      | cons c body => rw [ih (by simp) hbody.2]

lemma IsLine.ne_nil {α : Type} {eol : α} {l r : List α} (h : IsLine eol l r) : l ≠ [] := by
  cases h with
  | ended body _ _ => simp
  | last _ hne _ => exact hne

/-- What is left of a line is a line. -/
lemma IsLine.drop {α : Type} {eol : α} {l r : List α} (h : IsLine eol l r) {n : ℕ}
    (hn : n < l.length) : IsLine eol (l.drop n) r := by
  cases h with
  | ended body _ hbody =>
    rw [List.length_append, List.length_singleton] at hn
    rw [List.drop_append_of_le_length (by omega)]
    exact .ended _ r fun hmem => hbody (List.mem_of_mem_drop hmem)
  | last _ hne hbody =>
    exact .last _ (by simpa using hn) fun hmem => hbody (List.mem_of_mem_drop hmem)

/-- A part of a line that stops short of its end does not end a line. -/
lemma IsLine.take_getLast {α : Type} {eol : α} {l r : List α} (h : IsLine eol l r) {n : ℕ}
    (hn : n < l.length) : (l.take n).getLast? ≠ some eol := by
  intro hlast
  have hmem := List.mem_of_getLast? hlast
  cases h with
  | ended body _ hbody =>
    rw [List.length_append, List.length_singleton] at hn
    rw [List.take_append_of_le_length (by omega)] at hmem
    exact hbody (List.mem_of_mem_take hmem)
  | last _ hne hbody => exact hbody (List.mem_of_mem_take hmem)

/-- Only the last line lacks its end. -/
lemma IsLine.rest_nil {α : Type} {eol : α} {l r : List α} (h : IsLine eol l r)
    (hlast : l.getLast? ≠ some eol) : r = [] := by
  cases h with
  | ended body _ _ => simp at hlast
  | last _ _ _ => rfl

lemma IsLine.lines {α : Type} [DecidableEq α] {eol : α} {l r : List α} (h : IsLine eol l r) :
    lines eol (l ++ r) = l :: lines eol r := by
  rw [lines_cons_cutLine (by simp [h.ne_nil]), h.cutLine]

/-- A reader with a buffer takes a part of the first line. -/
lemma takeLine_eq {α : Type} [DecidableEq α] (eol : α) (n : ℕ) (s : List α) :
    takeLine eol n s =
      ((cutLine eol s).1.take n, (cutLine eol s).1.drop n ++ (cutLine eol s).2) := by
  induction n generalizing s with
  | zero => rw [takeLine, List.take_zero, List.drop_zero, cutLine_append]
  | succ n ih =>
    cases s with
    | nil => rfl
    | cons b s =>
      rw [takeLine, cutLine]
      split_ifs
      · simp
      · rw [ih, List.take_succ_cons, List.drop_succ_cons]

lemma IsLine.takeLine {α : Type} [DecidableEq α] {eol : α} {l r : List α} (h : IsLine eol l r)
    (n : ℕ) : takeLine eol n (l ++ r) = (l.take n, l.drop n ++ r) := by
  rw [takeLine_eq, h.cutLine]

lemma cutLine_shorter {α : Type} [DecidableEq α] {eol : α} {s : List α} (hs : s ≠ []) :
    (cutLine eol s).2.length < s.length := by
  have hline : IsLine eol (cutLine eol s).1 (cutLine eol s).2 := cutLine_isLine hs
  have hpos := List.length_pos_of_ne_nil hline.ne_nil
  have hlen := congrArg List.length (cutLine_append eol s)
  rw [List.length_append] at hlen
  omega

/-- Every line of a text is a line, made of symbols of the text. -/
lemma mem_lines {α : Type} [DecidableEq α] {eol : α} {s l : List α} (hl : l ∈ lines eol s) :
    ∃ r, IsLine eol l r ∧ ∀ b ∈ l, b ∈ s := by
  induction hlen : s.length using Nat.strong_induction_on generalizing s with
  | _ n ih =>
    by_cases hs : s = []
    · simp [hs, lines] at hl
    have hmem : ∀ b, b ∈ (cutLine eol s).1 ∨ b ∈ (cutLine eol s).2 → b ∈ s := by
      intro b hb
      rw [← cutLine_append eol s, List.mem_append]
      exact hb
    rw [lines_cons_cutLine hs, List.mem_cons] at hl
    rcases hl with rfl | hl
    · exact ⟨_, cutLine_isLine hs, fun b hb => hmem b (.inl hb)⟩
    · obtain ⟨r, hr, hsub⟩ := ih _ (hlen ▸ cutLine_shorter hs) hl rfl
      exact ⟨r, hr, fun b hb => hmem b (.inr (hsub b hb))⟩

end OtaFetch.Lines
