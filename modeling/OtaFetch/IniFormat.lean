import OtaFetch.Ini

/-!
# The lines of a configuration file

A line is blank, a comment, a section header, a pair, or more of the value of the
pair before it; anything else is an error. The parser goes on after an error and
returns the number of the first line that had one.
-/
namespace OtaFetch.Ini
open CPath Identity Lines ConfigLoad

/-- What a line says. -/
inductive Shape where
  | blank
  | more (value : CStr)
  | header (name : CStr)
  | pair (name value : CStr)
  | malformed
  deriving Repr, DecidableEq

def headerShape (s : CStr) : Shape :=
  match iniFindCharsOrComment isClose false s with
  | (name, c :: _) => if c = closeBracket then .header name else .malformed
  | (_, []) => .malformed

def pairShape (s : CStr) : Shape :=
  match iniFindCharsOrComment isAssign false s with
  | (name, c :: value) =>
    if c = equalsSign ∨ c = colon then
      .pair (iniRstrip name) (iniRstrip (iniLskip (cutComment value)))
    else .malformed
  | (_, []) => .malformed

/-- The line without the byte order mark that the first line may have. -/
def unmark (first : Bool) (line : CStr) : CStr :=
  if first = true ∧ bom <+: line then line.drop 3 else line

/-- `pending` tells whether there is a pair that the line can continue. -/
def shapeOf (first pending : Bool) (line : CStr) : Shape :=
  match iniRstrip (iniLskip (unmark first line)) with
  | [] => .blank
  | c :: cs =>
    if c = semicolon ∨ c = hashSign then .blank
    else if pending = true ∧ (iniLskip (unmark first line)).length < line.length then
      .more (iniRstrip (cutComment (c :: cs)))
    else if c = openBracket then headerShape cs
    else pairShape (c :: cs)

/-- What the parser does about it. -/
def Shape.apply {υ : Type} (handler : IniHandler υ) (p : Parser υ) : Shape → Parser υ
  | .blank => p
  | .more value => p.handle handler p.prevName value
  | .header name => { p with sect := iniStrncpy0 name maxSection, prevName := [] }
  | .pair name value =>
    ({ p with prevName := iniStrncpy0 name maxName }).handle handler name value
  | .malformed => p.fail

/-- The shape of the next line in the state of the parser before it. -/
def Parser.shape {υ : Type} (p : Parser υ) (line : Bytes) : Shape :=
  shapeOf (decide (p.lineno = 0)) (decide (p.prevName ≠ [])) (line.take (iniMaxLine - 1))

lemma Parser.section_eq_shape {υ : Type} (handler : IniHandler υ) (p : Parser υ) (s : CStr) :
    p.section s = (headerShape s).apply handler p := by
  unfold Parser.section headerShape
  obtain ⟨name, found⟩ := iniFindCharsOrComment isClose false s
  cases found with
  | nil => rfl
  | cons c rest =>
    dsimp only
    split_ifs <;> rfl

lemma Parser.pair_eq_shape {υ : Type} (handler : IniHandler υ) (p : Parser υ) (s : CStr) :
    p.pair handler s = (pairShape s).apply handler p := by
  unfold Parser.pair pairShape
  obtain ⟨name, found⟩ := iniFindCharsOrComment isAssign false s
  cases found with
  | nil => rfl
  | cons c rest =>
    dsimp only
    split_ifs <;> rfl

lemma iniLine_eq_shape {υ : Type} (handler : IniHandler υ) (p : Parser υ) (line : CStr) :
    iniLine handler p line =
      (shapeOf (decide (p.lineno = 1)) (decide (p.prevName ≠ [])) line).apply handler p := by
  have hunmark : (if p.lineno = 1 ∧ bom <+: line then line.drop 3 else line) =
      unmark (decide (p.lineno = 1)) line := by
    unfold unmark
    simp only [decide_eq_true_eq]
  unfold iniLine shapeOf
  rw [hunmark]
  dsimp only
  generalize iniLskip (unmark (decide (p.lineno = 1)) line) = start
  cases iniRstrip start with
  | nil => rfl
  | cons c cs =>
    simp only [decide_eq_true_eq]
    split_ifs
    · rfl
    · rfl
    · exact p.section_eq_shape handler cs
    · exact p.pair_eq_shape handler (c :: cs)

/-- The number goes up, a line that is too long is an error, and the shape of what
fits the buffer decides. -/
lemma lineStep_eq_shape {υ : Type} (handler : IniHandler υ) (p : Parser υ) (line : Bytes) :
    lineStep handler p line = (p.shape line).apply handler
      (if iniMaxLine - 1 < line.length then ({ p with lineno := p.lineno + 1 }).fail
        else { p with lineno := p.lineno + 1 }) := by
  unfold lineStep
  dsimp only
  rw [iniLine_eq_shape]
  unfold Parser.shape
  split_ifs with hlong
  · unfold Parser.fail
    split_ifs <;> simp
  · simp

/-- The event that a line hands to the handler. -/
def Shape.event {υ : Type} (p : Parser υ) : Shape → Option Event
  | .more value => some ⟨p.sect, p.prevName, value⟩
  | .pair name value => some ⟨p.sect, name, value⟩
  | _ => none

/-- A line in error: too long, of no known shape, or refused by the handler. -/
def Offends {υ : Type} (handler : IniHandler υ) (p : Parser υ) (line : Bytes) : Prop :=
  iniMaxLine - 1 < line.length ∨ p.shape line = .malformed ∨
    ∃ ev, (p.shape line).event p = some ev ∧ (handler p.user ev.sect ev.name ev.value).1 = 0

/-- The parser after the first `n` lines. -/
def after {υ : Type} (handler : IniHandler υ) (user : υ) (data : Bytes) (n : ℕ) : Parser υ :=
  ((lines newline data).take n).foldl (lineStep handler) (.init user)

/-- The line with the index `n` is in error. -/
def OffendsAt {υ : Type} (handler : IniHandler υ) (user : υ) (data : Bytes) (n : ℕ) : Prop :=
  ∃ line, (lines newline data)[n]? = some line ∧ Offends handler (after handler user data n) line

lemma Parser.fail_error {υ : Type} (p : Parser υ) :
    p.fail.error = if p.error = 0 then p.lineno else p.error := by
  unfold Parser.fail
  split_ifs <;> rfl

lemma Parser.handle_error {υ : Type} (handler : IniHandler υ) (p : Parser υ) (name value : CStr) :
    (p.handle handler name value).error =
      if p.error = 0 ∧ (handler p.user p.sect name value).1 = 0 then p.lineno else p.error := by
  unfold Parser.handle
  dsimp only
  by_cases hrefused : (handler p.user p.sect name value).1 = 0
  · rw [if_pos hrefused, Parser.fail_error]
    simp [hrefused]
  · rw [if_neg hrefused]
    simp [hrefused]

lemma Shape.apply_error {υ : Type} (handler : IniHandler υ) (p : Parser υ) (shape : Shape) :
    (shape.apply handler p).error =
      if p.error = 0 ∧ (shape = .malformed ∨
        ∃ ev, shape.event p = some ev ∧ (handler p.user ev.sect ev.name ev.value).1 = 0)
      then p.lineno else p.error := by
  cases shape with
  | blank => simp [Shape.apply, Shape.event]
  | more value => simp [Shape.apply, Shape.event, Parser.handle_error]
  | header name => simp [Shape.apply, Shape.event]
  | pair name value => simp [Shape.apply, Shape.event, Parser.handle_error]
  | malformed => simp [Shape.apply, Parser.fail_error]

@[simp] lemma Parser.fail_lineno {υ : Type} (p : Parser υ) : p.fail.lineno = p.lineno := by
  unfold Parser.fail
  split_ifs <;> rfl

@[simp] lemma Parser.handle_lineno {υ : Type} (handler : IniHandler υ) (p : Parser υ)
    (name value : CStr) : (p.handle handler name value).lineno = p.lineno := by
  unfold Parser.handle
  dsimp only
  split_ifs
  · rw [Parser.fail_lineno]
  · rfl

lemma lineStep_lineno {υ : Type} (handler : IniHandler υ) (p : Parser υ) (line : Bytes) :
    (lineStep handler p line).lineno = p.lineno + 1 := by
  have hshape : ∀ (shape : Shape) (q : Parser υ), (shape.apply handler q).lineno = q.lineno := by
    intro shape q
    cases shape <;> simp [Shape.apply]
  rw [lineStep_eq_shape, hshape]
  split_ifs
  · rw [Parser.fail_lineno]
  · rfl

/-- An error is noted with the number of its line, unless there was one before. -/
lemma lineStep_error {υ : Type} (handler : IniHandler υ) (p : Parser υ) (line : Bytes) :
    (p.error = 0 → Offends handler p line →
      (lineStep handler p line).error = p.lineno + 1) ∧
    (p.error ≠ 0 ∨ ¬ Offends handler p line → (lineStep handler p line).error = p.error) := by
  have hevent : ∀ (shape : Shape) (q : Parser υ), q.sect = p.sect → q.prevName = p.prevName →
      shape.event q = shape.event p := by
    intro shape q hsect hprev
    cases shape <;> simp [Shape.event, hsect, hprev]
  rw [lineStep_eq_shape, Shape.apply_error]
  unfold Offends
  by_cases hlong : iniMaxLine - 1 < line.length
  · rw [if_pos hlong, Parser.fail_error, Parser.fail_lineno]
    by_cases herror : p.error = 0
    · simp [herror, hlong]
    · simp [herror]
  · rw [if_neg hlong, hevent (p.shape line) { p with lineno := p.lineno + 1 } rfl rfl]
    by_cases herror : p.error = 0
    · refine ⟨fun _ hoff => if_pos ⟨herror, hoff.resolve_left hlong⟩, fun hfine => if_neg ?_⟩
      rintro ⟨-, hbad⟩
      exact hfine.resolve_left (not_not.mpr herror) (.inr hbad)
    · simp [herror]

/-- After an error the number stays. -/
lemma foldl_error_ne {υ : Type} (handler : IniHandler υ) (ls : List Bytes) {p : Parser υ}
    (h : p.error ≠ 0) : (ls.foldl (lineStep handler) p).error = p.error := by
  induction ls generalizing p with
  | nil => rfl
  | cons line ls ih =>
    have hstep := (lineStep_error handler p line).2 (.inl h)
    rw [List.foldl_cons, ih (hstep ▸ h), hstep]

/-- An error that is noted later has a later number. -/
lemma foldl_error_gt {υ : Type} (handler : IniHandler υ) (ls : List Bytes) {p : Parser υ}
    (h : p.error = 0) (hend : (ls.foldl (lineStep handler) p).error ≠ 0) :
    p.lineno < (ls.foldl (lineStep handler) p).error := by
  induction ls generalizing p with
  | nil => exact absurd h hend
  | cons line ls ih =>
    rw [List.foldl_cons] at hend ⊢
    by_cases hoff : Offends handler p line
    · have hstep := (lineStep_error handler p line).1 h hoff
      rw [foldl_error_ne handler ls (by omega), hstep]
      omega
    · have hstep := (lineStep_error handler p line).2 (.inr hoff)
      have hrest := ih (hstep.trans h) hend
      rw [lineStep_lineno] at hrest
      omega

/-- The number at the end is that of the first line in error. -/
lemma foldl_error_iff {υ : Type} (handler : IniHandler υ) (ls : List Bytes) {p : Parser υ}
    (h : p.error = 0) (n : ℕ) :
    (ls.foldl (lineStep handler) p).error = p.lineno + n + 1 ↔
      (∃ line, ls[n]? = some line ∧
        Offends handler ((ls.take n).foldl (lineStep handler) p) line) ∧
      ∀ k < n, ¬ ∃ line, ls[k]? = some line ∧
        Offends handler ((ls.take k).foldl (lineStep handler) p) line := by
  induction ls generalizing p n with
  | nil => simp [h]
  | cons line ls ih =>
    rw [List.foldl_cons]
    by_cases hoff : Offends handler p line
    · have hstep := (lineStep_error handler p line).1 h hoff
      rw [foldl_error_ne handler ls (by omega), hstep]
      cases n with
      | zero => simp [hoff]
      | succ n =>
        constructor
        · omega
        · intro hfirst
          exact absurd ⟨line, by simp, hoff⟩ (hfirst.2 0 (by omega))
    · have hstep := ((lineStep_error handler p line).2 (.inr hoff)).trans h
      cases n with
      | zero =>
        constructor
        · intro herror
          have hlater := foldl_error_gt handler ls hstep (by omega)
          rw [lineStep_lineno] at hlater
          omega
        · rintro ⟨⟨l, hl, hbad⟩, -⟩
          obtain rfl : line = l := by simpa using hl
          exact absurd hbad hoff
      | succ n =>
        have hrest := ih hstep n
        rw [lineStep_lineno, show p.lineno + 1 + n + 1 = p.lineno + (n + 1) + 1 by omega] at hrest
        rw [hrest]
        simp only [List.getElem?_cons_succ, List.take_succ_cons, List.foldl_cons]
        refine and_congr_right fun _ => ?_
        constructor
        · intro hnone k hk
          cases k with
          | zero =>
            rintro ⟨l, hl, hbad⟩
            obtain rfl : line = l := by simpa using hl
            exact hoff hbad
          | succ k => exact hnone k (by omega)
        · intro hnone k hk
          exact hnone (k + 1) (by omega)

/-- The return code is zero or the number of a line, so it is an `int` when the number
of lines is one. -/
theorem iniParse_code {υ : Type} (handler : IniHandler υ) (user : υ) {data : Bytes}
    (hzero : 0 ∉ data) (hint : (lines newline data).length < 2 ^ 31) :
    ∃ rc final, iniParse (some ⟨data, false⟩) handler user = .ok (rc, final) ∧
      0 ≤ rc ∧ rc < 2 ^ 31 := by
  refine ⟨_, _, iniParse_eq_lines handler user hzero, Int.natCast_nonneg _, ?_⟩
  have hlines : (parseLines handler (.init user) data).error ≤ (lines newline data).length := by
    cases herror : (parseLines handler (.init user) data).error with
    | zero => exact Nat.zero_le _
    | succ n =>
      have hfirst := foldl_error_iff handler (lines newline data) (p := .init user) rfl n
      obtain ⟨⟨line, hline, -⟩, -⟩ := hfirst.mp (herror.trans (by simp [Parser.init]))
      exact (List.getElem?_eq_some_iff.mp hline).1
  exact_mod_cast hlines.trans_lt hint

/-- `ini_parse` returns the number of the first line in error, counting from 1, and
so 0 just if no line is in error. -/
theorem iniParse_first_error {υ : Type} (handler : IniHandler υ) (user : υ) (data : Bytes)
    (hzero : 0 ∉ data) :
    ∃ rc final, iniParse (some ⟨data, false⟩) handler user = .ok (rc, final) ∧
      (rc = 0 ↔ ∀ n, ¬ OffendsAt handler user data n) ∧
      ∀ n : ℕ, rc = n + 1 ↔
        OffendsAt handler user data n ∧ ∀ k < n, ¬ OffendsAt handler user data k := by
  have hfirst : ∀ n : ℕ, (parseLines handler (.init user) data).error = n + 1 ↔
      OffendsAt handler user data n ∧ ∀ k < n, ¬ OffendsAt handler user data k := by
    intro n
    have h := foldl_error_iff handler (lines newline data) (p := .init user) rfl n
    rw [show (Parser.init user).lineno + n + 1 = n + 1 by simp [Parser.init]] at h
    exact h
  have hnumber : ∀ n : ℕ, ((parseLines handler (.init user) data).error : ℤ) = n + 1 ↔
      (parseLines handler (.init user) data).error = n + 1 := by omega
  refine ⟨(parseLines handler (.init user) data).error, (parseLines handler (.init user) data).user,
    iniParse_eq_lines handler user hzero, ?_, fun n => (hnumber n).trans (hfirst n)⟩
  · rw [Int.natCast_eq_zero]
    constructor
    · intro hnone n hoff
      -- among the lines in error there is a first one
      classical
      have hleast := (hfirst (Nat.find ⟨n, hoff⟩)).mpr
        ⟨Nat.find_spec ⟨n, hoff⟩, fun k hk => Nat.find_min ⟨n, hoff⟩ hk⟩
      omega
    · intro hnone
      by_contra herror
      obtain ⟨n, hn⟩ := Nat.exists_eq_succ_of_ne_zero herror
      exact hnone n ((hfirst n).mp hn).1

/-- The second line has no closing bracket, the third is no pair. -/
theorem iniParse_first_error_bracket :
    0 ∉ text "a=1\n[b\nc\n" ∧
    ∃ rc final, iniParse (some ⟨text "a=1\n[b\nc\n", false⟩) countEvents 0 = .ok (rc, final) ∧
      (rc = 0 ↔ ∀ n, ¬ OffendsAt countEvents 0 (text "a=1\n[b\nc\n") n) ∧
      ∀ n : ℕ, rc = n + 1 ↔
        OffendsAt countEvents 0 (text "a=1\n[b\nc\n") n ∧
          ∀ k < n, ¬ OffendsAt countEvents 0 (text "a=1\n[b\nc\n") k :=
  ⟨by decide, iniParse_first_error countEvents 0 (text "a=1\n[b\nc\n") (by decide)⟩

end OtaFetch.Ini
