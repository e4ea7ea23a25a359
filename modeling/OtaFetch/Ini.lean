import OtaFetch.Lines
import OtaFetch.ConfigLoad

/-!
# The INI parser

`ini_parse_stream` reads a line into `line[200]`, throws away what did not fit
through `abyss[16]`, and looks at the line in place. The readers are `fgets` and
`ini_reader_string`. On a text without NUL bytes the two buffers do not show: the
parser takes the lines one after the other, each with its own number, and a line
that is too long is cut and counted as an error.
-/
namespace OtaFetch.Ini
open CPath Identity Lines ConfigLoad

def iniMaxLine : ℕ := 200
def maxSection : ℕ := 50
def maxName : ℕ := 50
def abyssSize : ℕ := 16

def semicolon : UInt8 := 59
def hashSign : UInt8 := 35
def openBracket : UInt8 := 91
def closeBracket : UInt8 := 93
def equalsSign : UInt8 := 61
def colon : UInt8 := 58

/-- The byte order mark of UTF-8. -/
def bom : Bytes := [239, 187, 191]

def iniRstrip (s : CStr) : CStr := s.rdropWhile isspace

def iniLskip (s : CStr) : CStr := s.dropWhile isspace

/-- The string before the place that is found, and from it on. `wasSpace` tells
whether the byte before was white space, which makes a semicolon a comment. -/
def iniFindCharsOrComment (chars : UInt8 → Bool) : Bool → CStr → CStr × CStr
  | _, [] => ([], [])
  | wasSpace, c :: cs =>
    if chars c || (wasSpace && c == semicolon) then ([], c :: cs)
    else
      (c :: (iniFindCharsOrComment chars (isspace c) cs).1,
        (iniFindCharsOrComment chars (isspace c) cs).2)

def iniStrncpy0 (src : CStr) (size : ℕ) : CStr := src.take (size - 1)

/-- The characters that end a section name, and those that end a key. -/
def isClose (c : UInt8) : Bool := c == closeBracket
def isAssign (c : UInt8) : Bool := c == equalsSign || c == colon

/-- An inline comment is cut off. -/
def cutComment (s : CStr) : CStr := (iniFindCharsOrComment (fun _ => false) false s).1

/-- A handler returns nonzero on success. -/
abbrev IniHandler (υ : Type) := υ → CStr → CStr → CStr → ℤ × υ

/-- The locals of `ini_parse_stream` that outlive a line. The line number and the
error are of type `int`, so a text has to have fewer than `2 ^ 31` lines. -/
structure Parser (υ : Type) where
  sect : CStr
  prevName : CStr
  lineno : ℕ
  error : ℕ
  user : υ
  deriving Repr, DecidableEq

/-- `if (!error) error = lineno;` -/
def Parser.fail {υ : Type} (p : Parser υ) : Parser υ :=
  if p.error = 0 then { p with error := p.lineno } else p

def Parser.handle {υ : Type} (handler : IniHandler υ) (p : Parser υ) (name value : CStr) :
    Parser υ :=
  let answer := handler p.user p.sect name value
  if answer.1 = 0 then ({ p with user := answer.2 }).fail else { p with user := answer.2 }

/-- A line that starts with `[`; `s` is what follows the bracket. -/
def Parser.section {υ : Type} (p : Parser υ) (s : CStr) : Parser υ :=
  match iniFindCharsOrComment isClose false s with
  | (name, c :: _) =>
    if c = closeBracket then { p with sect := iniStrncpy0 name maxSection, prevName := [] }
    else p.fail
  | (_, []) => p.fail

/-- A line that must be `name = value` or `name : value`. -/
def Parser.pair {υ : Type} (handler : IniHandler υ) (p : Parser υ) (s : CStr) : Parser υ :=
  match iniFindCharsOrComment isAssign false s with
  | (name, c :: value) =>
    if c = equalsSign ∨ c = colon then
      let name := iniRstrip name
      let value := iniRstrip (iniLskip (cutComment value))
      ({ p with prevName := iniStrncpy0 name maxName }).handle handler name value
    else p.fail
  | (_, []) => p.fail

/-- The body of the loop for a line that was read. White space before the text,
or a byte order mark, puts `start` behind the beginning of the line. -/
def iniLine {υ : Type} (handler : IniHandler υ) (p : Parser υ) (line : CStr) : Parser υ :=
  let unmarked := if p.lineno = 1 ∧ bom <+: line then line.drop 3 else line
  let start := iniLskip unmarked
  match iniRstrip start with
  | [] => p
  | c :: cs =>
    if c = semicolon ∨ c = hashSign then p
    else if p.prevName ≠ [] ∧ start.length < line.length then
      p.handle handler p.prevName (iniRstrip (cutComment (c :: cs)))
    else if c = openBracket then p.section cs
    else p.pair handler (c :: cs)

/-- A reader of lines. Given the size of the buffer and the bytes that are left
of the stream, it fills the buffer up to a terminating NUL, or returns `NULL`. -/
abbrev Reader := ℕ → Bytes → Option (Bytes × Bytes)

inductive Fault where
  | outOfBounds
  | outOfFuel
  deriving Repr, DecidableEq

/-- The loop over `abyss`. It looks at the byte before the terminating NUL, which
an empty string does not have. -/
def iniDiscard {υ : Type} (reader : Reader) :
    ℕ → Parser υ → Bytes → Except Fault (Parser υ × Bytes)
  | 0, _, _ => .error .outOfFuel
  | fuel + 1, p, s =>
    match reader abyssSize s with
    | none => .ok (p, s)
    | some (b, s) =>
      match (cstring b).getLast? with
      | none => .error .outOfBounds
      | some c => if c = newline then .ok (p.fail, s) else iniDiscard reader fuel p.fail s

/-- The loop over the lines. -/
def iniParseStream {υ : Type} (reader : Reader) (handler : IniHandler υ) :
    ℕ → Parser υ → Bytes → Except Fault (Parser υ)
  | 0, _, _ => .error .outOfFuel
  | fuel + 1, p, s =>
    match reader iniMaxLine s with
    | none => .ok p
    | some (b, s) =>
      let line := cstring b
      let p := { p with lineno := p.lineno + 1 }
      if line.length = iniMaxLine - 1 ∧ line.getLast? ≠ some newline then do
        let (p, s) ← iniDiscard reader fuel p s
        iniParseStream reader handler fuel (iniLine handler p line) s
      else iniParseStream reader handler fuel (iniLine handler p line) s

def Parser.init {υ : Type} (user : υ) : Parser υ := ⟨[], [], 0, 0, user⟩

/-- An open file: the bytes that can be read, and whether reading on past them
fails instead of reporting the end of the file. -/
structure FileIn where
  data : Bytes
  broken : Bool
  deriving Repr, DecidableEq

/-- A read error makes `fgets` return `NULL`, whatever it has read before. -/
def fgets (broken : Bool) : Reader := fun size rest =>
  let got := takeLine newline (size - 1) rest
  if got.1 = [] then none
  else if broken ∧ got.2 = [] ∧ got.1.length < size - 1 ∧ got.1.getLast? ≠ some newline then none
  else some got

def iniReaderString : Reader := fun num rest =>
  if rest = [] ∨ num < 2 then none else some (takeLine newline (num - 1) rest)

/-- The return code and what the handler has made. -/
def Parser.result {υ : Type} (p : Parser υ) : ℤ × υ := (p.error, p.user)

def iniParseFile {υ : Type} (f : FileIn) (handler : IniHandler υ) (user : υ) :
    Except Fault (ℤ × υ) :=
  (iniParseStream (fgets f.broken) handler (f.data.length + 1) (.init user) f.data).map
    Parser.result

/-- `none` is a file that does not open. -/
def iniParse {υ : Type} (file : Option FileIn) (handler : IniHandler υ) (user : υ) :
    Except Fault (ℤ × υ) :=
  match file with
  | none => .ok (-1, user)
  | some f => iniParseFile f handler user

def iniParseStringLength {υ : Type} (string : Bytes) (length : ℕ) (handler : IniHandler υ)
    (user : υ) : Except Fault (ℤ × υ) :=
  (iniParseStream iniReaderString handler (length + 1) (.init user)
    (string.take length)).map Parser.result

def iniParseString {υ : Type} (string : Bytes) (handler : IniHandler υ) (user : υ) :
    Except Fault (ℤ × υ) :=
  iniParseStringLength string (cstring string).length handler user

/-- What the parser does with one line of the text: it has a number, and the part
that fits the buffer is looked at. -/
def lineStep {υ : Type} (handler : IniHandler υ) (p : Parser υ) (line : Bytes) : Parser υ :=
  let p := { p with lineno := p.lineno + 1 }
  let p := if iniMaxLine - 1 < line.length then p.fail else p
  iniLine handler p (line.take (iniMaxLine - 1))

/-- The text line by line, without any buffer. -/
def parseLines {υ : Type} (handler : IniHandler υ) (p : Parser υ) (s : Bytes) : Parser υ :=
  (lines newline s).foldl (lineStep handler) p

/-- The reader hands out the line `l`, a part at a time, and leaves the rest alone. -/
structure Reads (reader : Reader) (l rest : Bytes) : Prop where
  part : ∀ size n, 2 ≤ size → n < l.length →
    reader size (l.drop n ++ rest) =
      some ((l.drop n).take (size - 1), (l.drop n).drop (size - 1) ++ rest)
  atEnd : l.getLast? ≠ some newline → reader abyssSize rest = none

/-- The reader hands out the lines of `s` and stops in front of `tail`. -/
inductive Delivers (reader : Reader) (tail : Bytes) : Bytes → Prop where
  | stop (h : reader iniMaxLine tail = none) : Delivers reader tail []
  | line (l rest : Bytes) (hl : IsLine newline l rest) (hreads : Reads reader l (rest ++ tail))
      (hrest : Delivers reader tail rest) : Delivers reader tail (l ++ rest)

@[simp] lemma Parser.fail_fail {υ : Type} (p : Parser υ) : p.fail.fail = p.fail := by
  unfold Parser.fail
  split_ifs with h <;> simp_all

/-- The rest of a line that is too long is read away and counts as one error. -/
lemma iniDiscard_line {υ : Type} {reader : Reader} {l r rest : Bytes} (hl : IsLine newline l r)
    (hreads : Reads reader l rest) (hzero : 0 ∉ l) (p : Parser υ) {n fuel : ℕ}
    (hn : n < l.length) (hfuel : l.length - n < fuel) :
    iniDiscard reader fuel p (l.drop n ++ rest) = .ok (p.fail, rest) := by
  induction fuel generalizing n p with
  | zero => omega
  | succ fuel ih =>
    have hdrop := hl.drop hn
    have hne : (l.drop n).take (abyssSize - 1) ≠ [] := by
      rw [ne_eq, List.take_eq_nil_iff, not_or]
      exact ⟨by decide, hdrop.ne_nil⟩
    have hcstring : cstring ((l.drop n).take (abyssSize - 1)) =
        (l.drop n).take (abyssSize - 1) := by
      rw [cstring_eq_self_iff]
      exact fun h => hzero (List.mem_of_mem_drop (List.mem_of_mem_take h))
    obtain ⟨c, hc⟩ := Option.ne_none_iff_exists'.mp (mt List.getLast?_eq_none_iff.mp hne)
    rw [iniDiscard, hreads.part abyssSize n (by decide) hn]
    dsimp only
    rw [hcstring, hc]
    dsimp only
    have habyss : abyssSize - 1 = 15 := rfl
    by_cases hlong : abyssSize - 1 < (l.drop n).length
    · -- a full piece that stops short of the end of the line
      have hgoes : c ≠ newline := fun h => hdrop.take_getLast hlong (h ▸ hc)
      rw [List.length_drop] at hlong
      rw [if_neg hgoes, List.drop_drop, ih p.fail (by omega) (by omega), Parser.fail_fail]
    · rw [List.take_of_length_le (by omega)] at hc
      rw [List.drop_eq_nil_of_le (by omega), List.nil_append]
      by_cases hend : c = newline
      · rw [if_pos hend]
      · -- the text ends without a newline, which the next read tells
        have hlast : l.getLast? ≠ some newline := by
          rw [List.getLast?_drop, if_neg (by omega)] at hc
          rw [hc]
          exact fun h => hend (Option.some.inj h)
        rw [if_neg hend]
        cases fuel with
        | zero => omega
        | succ fuel => rw [iniDiscard, hreads.atEnd hlast]

lemma lineStep_short {υ : Type} (handler : IniHandler υ) (p : Parser υ) {l : Bytes}
    (h : l.length ≤ iniMaxLine - 1) :
    lineStep handler p l = iniLine handler { p with lineno := p.lineno + 1 } l := by
  unfold lineStep
  dsimp only
  rw [if_neg (by omega), List.take_of_length_le h]

/-- One round of the loop takes one line. -/
lemma iniParseStream_line {υ : Type} {reader : Reader} (handler : IniHandler υ) {l r rest : Bytes}
    (hl : IsLine newline l r) (hreads : Reads reader l rest) (hzero : 0 ∉ l) (p : Parser υ)
    {fuel : ℕ} (hfuel : l.length ≤ fuel) :
    iniParseStream reader handler (fuel + 1) p (l ++ rest) =
      iniParseStream reader handler fuel (lineStep handler p l) rest := by
  have hmax : iniMaxLine - 1 = 199 := rfl
  have hpos := List.length_pos_of_ne_nil hl.ne_nil
  have hfirst := hreads.part iniMaxLine 0 (by decide) hpos
  have hcstring : cstring (l.take (iniMaxLine - 1)) = l.take (iniMaxLine - 1) := by
    rw [cstring_eq_self_iff]
    exact fun h => hzero (List.mem_of_mem_take h)
  rw [List.drop_zero] at hfirst
  rw [iniParseStream, hfirst]
  dsimp only
  rw [hcstring]
  by_cases hlong : iniMaxLine - 1 < l.length
  · have hfull : (l.take (iniMaxLine - 1)).length = iniMaxLine - 1 :=
      List.length_take_of_le (by omega)
    rw [if_pos ⟨hfull, hl.take_getLast hlong⟩,
      iniDiscard_line hl hreads hzero _ hlong (by omega)]
    unfold lineStep
    dsimp only
    rw [if_pos hlong]
    rfl
  · rw [lineStep_short handler p (by omega), List.take_of_length_le (by omega),
      List.drop_eq_nil_of_le (by omega), List.nil_append]
    split_ifs with hlast
    · -- the last line fills the buffer, and there is nothing to throw away
      cases fuel with
      | zero => omega
      | succ fuel =>
        rw [iniDiscard, hreads.atEnd hlast.2]
        rfl
    · rfl

/-- Without NUL bytes the buffers do not show. -/
theorem iniParseStream_lines {υ : Type} {reader : Reader} {tail s : Bytes}
    (h : Delivers reader tail s) (handler : IniHandler υ) (hzero : 0 ∉ s) (p : Parser υ)
    {fuel : ℕ} (hfuel : s.length < fuel) :
    iniParseStream reader handler fuel p (s ++ tail) = .ok (parseLines handler p s) := by
  induction h generalizing p fuel with
  | stop h =>
    cases fuel with
    | zero => omega
    | succ fuel =>
      rw [List.nil_append, iniParseStream, h]
      rfl
  | line l rest hl hreads hrest ih =>
    have hpos := List.length_pos_of_ne_nil hl.ne_nil
    rw [List.length_append] at hfuel
    rw [List.mem_append, not_or] at hzero
    cases fuel with
    | zero => omega
    | succ fuel =>
      rw [List.append_assoc, iniParseStream_line handler hl hreads hzero.1 p (by omega),
        ih hzero.2 _ (by omega), parseLines, parseLines, hl.lines, List.foldl_cons]

/-- Both readers hand out a line that ends, whatever follows it, and a line that
does not when the stream is not broken. -/
lemma iniReaderString_reads {l r : Bytes} (hl : IsLine newline l r) :
    Reads iniReaderString l r where
  part := by
    intro size n hsize hn
    have hdrop := hl.drop hn
    have hgo : ¬ (l.drop n ++ r = [] ∨ size < 2) := by
      rw [not_or, List.append_eq_nil_iff, not_and]
      exact ⟨fun h => absurd h hdrop.ne_nil, by omega⟩
    rw [iniReaderString, if_neg hgo, hdrop.takeLine]
  atEnd := by
    intro hlast
    rw [hl.rest_nil hlast]
    rfl

lemma fgets_reads {l r : Bytes} {broken : Bool} (hl : IsLine newline l r)
    (hok : broken = true → l.getLast? = some newline) : Reads (fgets broken) l r where
  part := by
    intro size n hsize hn
    have hdrop := hl.drop hn
    have htake : (l.drop n).take (size - 1) ≠ [] := by
      rw [ne_eq, List.take_eq_nil_iff, not_or]
      exact ⟨by omega, hdrop.ne_nil⟩
    have hfine : ¬ (broken = true ∧ (l.drop n).drop (size - 1) ++ r = [] ∧
        ((l.drop n).take (size - 1)).length < size - 1 ∧
        ((l.drop n).take (size - 1)).getLast? ≠ some newline) := by
      rintro ⟨hbroken, -, hshort, hlast⟩
      rw [List.length_take] at hshort
      rw [List.take_of_length_le (by omega), List.getLast?_drop, if_neg (by omega)] at hlast
      exact hlast (hok hbroken)
    unfold fgets
    rw [hdrop.takeLine]
    dsimp only
    rw [if_neg htake, if_neg hfine]
  atEnd := by
    intro hlast
    rw [hl.rest_nil hlast]
    rfl

/-- Lines that the reader hands out one by one make a text that it delivers. -/
lemma delivers_of_reads {reader : Reader} {tail : Bytes} (hstop : reader iniMaxLine tail = none)
    (s : Bytes) (hreads : ∀ l r, l ++ r <:+ s → IsLine newline l r → Reads reader l (r ++ tail)) :
    Delivers reader tail s := by
  induction hlen : s.length using Nat.strong_induction_on generalizing s with
  | _ n ih =>
    by_cases hs : s = []
    · subst hs
      exact .stop hstop
    have happ := cutLine_append newline s
    have hline : IsLine newline (cutLine newline s).1 (cutLine newline s).2 := cutLine_isLine hs
    rw [← happ]
    refine .line _ _ hline (hreads _ _ (by rw [happ]) hline) ?_
    refine ih _ (hlen ▸ cutLine_shorter hs) _ ?_ rfl
    intro l r hsuffix
    refine hreads l r (hsuffix.trans ?_)
    nth_rewrite 2 [← happ]
    exact List.suffix_append _ _

lemma iniReaderString_delivers (s : Bytes) : Delivers iniReaderString [] s := by
  refine delivers_of_reads rfl s ?_
  intro l r _ hl
  rw [List.append_nil]
  exact iniReaderString_reads hl

lemma fgets_delivers (s : Bytes) : Delivers (fgets false) [] s := by
  refine delivers_of_reads rfl s ?_
  intro l r _ hl
  rw [List.append_nil]
  exact fgets_reads hl (by simp)

/-- In front of a line that breaks off in a read error, all complete lines are
handed out. -/
lemma fgets_broken_delivers {s part : Bytes} (hs : s = [] ∨ s.getLast? = some newline)
    (hpart : newline ∉ part) (hshort : part.length < iniMaxLine - 1) :
    Delivers (fgets true) part s := by
  have hstop : fgets true iniMaxLine part = none := by
    by_cases hempty : part = []
    · rw [hempty]
      rfl
    have hline : IsLine newline part [] := .last part hempty hpart
    have htake := hline.takeLine (iniMaxLine - 1)
    rw [List.append_nil, List.take_of_length_le hshort.le, List.drop_eq_nil_of_le hshort.le,
      List.append_nil] at htake
    have hlast : part.getLast? ≠ some newline := fun h => hpart (List.mem_of_getLast? h)
    unfold fgets
    rw [htake]
    dsimp only
    rw [if_neg hempty, if_pos ⟨rfl, rfl, hshort, hlast⟩]
  refine delivers_of_reads hstop s ?_
  intro l r hsuffix hl
  have hended : l.getLast? = some newline := by
    by_contra hlast
    obtain ⟨pre, hpre⟩ := hsuffix
    rw [hl.rest_nil hlast, List.append_nil] at hpre
    rcases hs with rfl | hs
    · exact hl.ne_nil (List.append_eq_nil_iff.mp hpre).2
    · rw [← hpre, List.getLast?_append_of_ne_nil _ hl.ne_nil] at hs
      exact hlast hs
  cases hl with
  | ended body _ hbody => exact fgets_reads (.ended body _ hbody) fun _ => hended
  | last _ _ hbody => exact absurd (List.mem_of_getLast? hended) hbody

/-- The text as a file that reads to its end. -/
lemma iniParse_eq_lines {υ : Type} (handler : IniHandler υ) (user : υ) {data : Bytes}
    (hzero : 0 ∉ data) :
    iniParse (some ⟨data, false⟩) handler user =
      .ok (parseLines handler (.init user) data).result := by
  have hparse := iniParseStream_lines (fgets_delivers data) handler hzero (.init user)
    (Nat.lt_succ_self _)
  rw [List.append_nil] at hparse
  rw [iniParse, iniParseFile, hparse]
  rfl

/-- On a text without NUL bytes the file parser and the string parser both take the
lines one after the other: they stay inside their buffers, come to an end, and
number the lines of the text. -/
theorem iniParse_reads_lines {υ : Type} (handler : IniHandler υ) (user : υ) (data junk : Bytes)
    (hzero : 0 ∉ data) :
    iniParse (some ⟨data, false⟩) handler user =
        .ok (parseLines handler (.init user) data).result ∧
      iniParseString (data ++ 0 :: junk) handler user =
        .ok (parseLines handler (.init user) data).result := by
  refine ⟨iniParse_eq_lines handler user hzero, ?_⟩
  have hstring : cstring (data ++ 0 :: junk) = data := by
    rw [cstring_terminated, (cstring_eq_self_iff data).mpr hzero]
  have hparse := iniParseStream_lines (iniReaderString_delivers data) handler hzero (.init user)
    (Nat.lt_succ_self _)
  rw [List.append_nil] at hparse
  rw [iniParseString, hstring, iniParseStringLength, List.take_left, hparse]
  rfl

/-- A handler that counts what it is given. -/
def countEvents : IniHandler ℕ := fun n _ _ _ => (1, n + 1)

theorem iniParse_reads_lines_long :
    iniParse (some ⟨text "a=1\nb=" ++ List.replicate 300 120 ++ text "\nc=2", false⟩)
      countEvents 0 =
        .ok (2, 3) ∧
      iniParseString (text "a=1\nb=" ++ List.replicate 300 120 ++ text "\nc=2" ++ 0 :: [])
        countEvents 0 = .ok (2, 3) := by
  have hlines := iniParse_reads_lines countEvents 0
    (text "a=1\nb=" ++ List.replicate 300 120 ++ text "\nc=2") [] (by decide +kernel)
  have hresult : (parseLines countEvents (.init 0)
      (text "a=1\nb=" ++ List.replicate 300 120 ++ text "\nc=2")).result = (2, 3) := by
    decide +kernel
  rw [hresult] at hlines
  exact hlines

-- A NUL byte where the buffer of a long line ends makes the parser look in front
-- of `abyss`.
example : iniParse (some ⟨List.replicate 199 120 ++ [0, newline], false⟩) countEvents 0 =
    .error .outOfBounds := by decide +kernel

end OtaFetch.Ini
