import OtaFetch.IniFormat
import Mathlib.Data.List.DropRight

/-!
# Writing and reading configuration files

What the parser delivers is trimmed and free of comments, and a text that is
written from such events is read back as those events.
-/
namespace OtaFetch.Ini
open CPath Identity Lines ConfigLoad

/-- No semicolon after white space; `wasSpace` tells about the byte before. -/
def commentFree : Bool → CStr → Bool
  | _, [] => true
  | wasSpace, c :: cs => !(wasSpace && c == semicolon) && commentFree (isspace c) cs

lemma commentFree_append {wasSpace : Bool} {a b : CStr} (h : commentFree wasSpace (a ++ b) = true) :
    commentFree wasSpace a = true ∧ commentFree false b = true := by
  induction a generalizing wasSpace with
  | nil =>
    refine ⟨rfl, ?_⟩
    cases b with
    | nil => rfl
    | cons c cs =>
      simp only [List.nil_append, commentFree, Bool.and_eq_true] at h
      simp [commentFree, h.2]
  | cons c a ih =>
    simp only [List.cons_append, commentFree, Bool.and_eq_true] at h ⊢
    exact ⟨⟨h.1, (ih h.2).1⟩, (ih h.2).2⟩

/-- The search splits the string before the first character it looks for, or the
first comment. -/
lemma find_spec (chars : UInt8 → Bool) (wasSpace : Bool) (s : CStr) :
    (iniFindCharsOrComment chars wasSpace s).1 ++ (iniFindCharsOrComment chars wasSpace s).2 = s ∧
      (∀ c ∈ (iniFindCharsOrComment chars wasSpace s).1, chars c = false) ∧
      commentFree wasSpace (iniFindCharsOrComment chars wasSpace s).1 = true := by
  induction s generalizing wasSpace with
  | nil => simp [iniFindCharsOrComment, commentFree]
  | cons c cs ih =>
    rw [iniFindCharsOrComment]
    split_ifs with hstop
    · simp [commentFree]
    · rw [Bool.or_eq_true, not_or] at hstop
      obtain ⟨happ, hchars, hfree⟩ := ih (isspace c)
      refine ⟨by rw [List.cons_append, happ], ?_, ?_⟩
      · exact List.forall_mem_cons.mpr ⟨by simpa using hstop.1, hchars⟩
      · rw [commentFree, hfree, Bool.and_true, Bool.not_eq_true']
        simpa using hstop.2

/-- The search stops at a character that it looks for and not before. -/
lemma find_append {chars : UInt8 → Bool} {wasSpace : Bool} {a : CStr} {c : UInt8} (rest : CStr)
    (ha : ∀ b ∈ a, chars b = false) (hfree : commentFree wasSpace a = true) (hc : chars c = true) :
    iniFindCharsOrComment chars wasSpace (a ++ c :: rest) = (a, c :: rest) := by
  induction a generalizing wasSpace with
  | nil => rw [List.nil_append, iniFindCharsOrComment, hc, Bool.true_or, if_pos rfl]
  | cons b a ih =>
    rw [List.forall_mem_cons] at ha
    rw [commentFree, Bool.and_eq_true, Bool.not_eq_true'] at hfree
    rw [List.cons_append, iniFindCharsOrComment, ha.1, hfree.1, Bool.or_self, if_neg (by simp),
      ih ha.2 hfree.2]

lemma find_nothing {wasSpace : Bool} {s : CStr} (hfree : commentFree wasSpace s = true) :
    iniFindCharsOrComment (fun _ => false) wasSpace s = (s, []) := by
  induction s generalizing wasSpace with
  | nil => rfl
  | cons c s ih =>
    rw [commentFree, Bool.and_eq_true, Bool.not_eq_true'] at hfree
    rw [iniFindCharsOrComment, hfree.1, Bool.or_self, if_neg Bool.false_ne_true, ih hfree.2]

/-- The first byte, if there is one, is no white space. -/
def StartsClean (s : CStr) : Prop := ∀ c, s.head? = some c → isspace c = false

/-- The last byte, if there is one, is no white space. -/
def EndsClean (s : CStr) : Prop := ∀ c, s.getLast? = some c → isspace c = false

lemma startsClean_lskip (s : CStr) : StartsClean (iniLskip s) := by
  intro c hc
  have h := List.head?_dropWhile_not isspace s
  unfold iniLskip at hc
  rw [hc] at h
  simpa using h

lemma StartsClean.lskip {s : CStr} (h : StartsClean s) : iniLskip s = s := by
  cases s with
  | nil => rfl
  | cons c cs => exact List.dropWhile_cons_of_neg (by simp [h c rfl])

lemma endsClean_rstrip (s : CStr) : EndsClean (iniRstrip s) := by
  intro c hc
  have hne : iniRstrip s ≠ [] := by
    rintro h
    simp [h] at hc
  have h := List.rdropWhile_last_not isspace s hne
  rw [List.getLast?_eq_getLast_of_ne_nil hne] at hc
  rw [← Option.some.inj hc]
  exact Bool.eq_false_iff.mpr h

lemma EndsClean.rstrip {s : CStr} (h : EndsClean s) : iniRstrip s = s := by
  unfold iniRstrip
  rw [List.rdropWhile_eq_self_iff]
  intro hne
  simp [h _ (List.getLast?_eq_getLast_of_ne_nil hne)]

lemma rstrip_isPrefix (s : CStr) : iniRstrip s <+: s := List.rdropWhile_prefix isspace s

lemma lskip_isSuffix (s : CStr) : iniLskip s <:+ s := List.dropWhile_suffix isspace

/-- Bytes that a line can hold in front of its end. -/
def Inline (s : CStr) : Prop := 0 ∉ s ∧ newline ∉ s

lemma Inline.mono {s t : CStr} (h : Inline t) (hsub : s ⊆ t) : Inline s :=
  ⟨fun hs => h.1 (hsub hs), fun hs => h.2 (hsub hs)⟩

/-- The name of a section, as the line has it. -/
structure SectOk (s : CStr) : Prop where
  inline : Inline s
  free : commentFree false s = true
  unclosed : ∀ c ∈ s, isClose c = false

/-- The name of a pair. It may be cut, so nothing is said about its end. -/
structure NameOk (s : CStr) : Prop where
  inline : Inline s
  free : commentFree false s = true
  unassigned : ∀ c ∈ s, isAssign c = false
  start : ∀ c, s.head? = some c →
    isspace c = false ∧ c ≠ semicolon ∧ c ≠ hashSign ∧ c ≠ openBracket

structure ValueOk (s : CStr) : Prop where
  inline : Inline s
  free : commentFree false s = true
  startsClean : StartsClean s
  endsClean : EndsClean s

lemma commentFree_of_isPrefix {wasSpace : Bool} {s t : CStr} (h : commentFree wasSpace t = true)
    (hpre : s <+: t) : commentFree wasSpace s = true := by
  obtain ⟨r, rfl⟩ := hpre
  exact (commentFree_append h).1

lemma commentFree_of_isSuffix {wasSpace : Bool} {s t : CStr} (h : commentFree wasSpace t = true)
    (hsuf : s <:+ t) : commentFree false s = true := by
  obtain ⟨r, rfl⟩ := hsuf
  exact (commentFree_append h).2

lemma head?_of_isPrefix {s t : CStr} (hpre : s <+: t) {c : UInt8} (hc : s.head? = some c) :
    t.head? = some c := by
  obtain ⟨r, rfl⟩ := hpre
  rw [List.head?_append, hc]
  rfl

lemma SectOk.of_isPrefix {s t : CStr} (h : SectOk t) (hpre : s <+: t) : SectOk s where
  inline := h.inline.mono hpre.subset
  free := commentFree_of_isPrefix h.free hpre
  unclosed := fun c hc => h.unclosed c (hpre.subset hc)

lemma NameOk.of_isPrefix {s t : CStr} (h : NameOk t) (hpre : s <+: t) : NameOk s where
  inline := h.inline.mono hpre.subset
  free := commentFree_of_isPrefix h.free hpre
  unassigned := fun c hc => h.unassigned c (hpre.subset hc)
  start := fun c hc => h.start c (head?_of_isPrefix hpre hc)

lemma StartsClean.of_isPrefix {s t : CStr} (h : StartsClean t) (hpre : s <+: t) : StartsClean s :=
  fun c hc => h c (head?_of_isPrefix hpre hc)

/-- A value is what is left of a part of the line after cutting and trimming. -/
lemma valueOk_trimmed {s : CStr} (h : Inline s) :
    ValueOk (iniRstrip (iniLskip (cutComment s))) := by
  obtain ⟨happ, -, hfree⟩ := find_spec (fun _ => false) false s
  have hcut : cutComment s <+: s := ⟨_, happ⟩
  have hskip := lskip_isSuffix (cutComment s)
  have hstrip := rstrip_isPrefix (iniLskip (cutComment s))
  exact
    { inline := h.mono
        (List.Subset.trans hstrip.subset (List.Subset.trans hskip.subset hcut.subset))
      free := commentFree_of_isPrefix (commentFree_of_isSuffix hfree hskip) hstrip
      startsClean := (startsClean_lskip _).of_isPrefix hstrip
      endsClean := endsClean_rstrip _ }

lemma valueOk_more {s : CStr} (h : Inline s) (hstart : StartsClean s) :
    ValueOk (iniRstrip (cutComment s)) := by
  have hcut : cutComment s <+: s := ⟨_, (find_spec (fun _ => false) false s).1⟩
  have hclean : StartsClean (cutComment s) := hstart.of_isPrefix hcut
  have hvalue := valueOk_trimmed h
  rwa [hclean.lskip] at hvalue

/-- What the shapes of a line carry. -/
def Shape.Ok : Shape → Prop
  | .more value => ValueOk value
  | .header name => SectOk name
  | .pair name value => NameOk name ∧ EndsClean name ∧ ValueOk value
  | _ => True

lemma headerShape_ok {s : CStr} (h : Inline s) : (headerShape s).Ok := by
  obtain ⟨happ, hchars, hfree⟩ := find_spec isClose false s
  unfold headerShape
  generalize hfound : iniFindCharsOrComment isClose false s = found at happ hchars hfree
  obtain ⟨name, rest⟩ := found
  cases rest with
  | nil => trivial
  | cons c rest =>
    dsimp only
    split_ifs
    · have hpre : name <+: s := ⟨_, happ⟩
      exact ⟨h.mono hpre.subset, hfree, hchars⟩
    · trivial

lemma pairShape_ok {s : CStr} (h : Inline s)
    (hstart : ∀ c, s.head? = some c →
      isspace c = false ∧ c ≠ semicolon ∧ c ≠ hashSign ∧ c ≠ openBracket) :
    (pairShape s).Ok := by
  obtain ⟨happ, hchars, hfree⟩ := find_spec isAssign false s
  unfold pairShape
  generalize hfound : iniFindCharsOrComment isAssign false s = found at happ hchars hfree
  obtain ⟨name, rest⟩ := found
  cases rest with
  | nil => trivial
  | cons c value =>
    dsimp only at happ hchars hfree ⊢
    split_ifs
    · have hpre : name <+: s := ⟨_, happ⟩
      have hname : NameOk name :=
        ⟨h.mono hpre.subset, hfree, hchars, fun c hc => hstart c (head?_of_isPrefix hpre hc)⟩
      have hsub : value ⊆ s := by
        rw [← happ]
        exact fun b hb => List.mem_append_right _ (List.mem_cons_of_mem _ hb)
      exact ⟨hname.of_isPrefix (rstrip_isPrefix name), endsClean_rstrip name,
        valueOk_trimmed (h.mono hsub)⟩
    · trivial

/-- A line feed can only be the last byte. -/
def OneLine (s : Bytes) : Prop := newline ∉ s.dropLast

lemma OneLine.of_isSuffix {s t : Bytes} (h : OneLine t) (hsuf : s <:+ t) : OneLine s := by
  obtain ⟨r, rfl⟩ := hsuf
  intro hmem
  have hne : s ≠ [] := by
    rintro rfl
    simp at hmem
  apply h
  rw [List.dropLast_append_of_ne_nil hne]
  exact List.mem_append_right _ hmem

lemma OneLine.take {s : Bytes} (h : OneLine s) (n : ℕ) : OneLine (s.take n) := by
  intro hmem
  apply h
  rw [List.dropLast_eq_take] at hmem ⊢
  rw [List.take_take] at hmem
  exact List.take_subset_take_left s (by rw [List.length_take]; omega) hmem

/-- Stripping takes the line feed away. -/
lemma OneLine.rstrip {s : Bytes} (h : OneLine s) : newline ∉ iniRstrip s := by
  intro hmem
  obtain ⟨r, hr⟩ := rstrip_isPrefix s
  rw [← hr] at h
  by_cases hempty : r = []
  · subst hempty
    have hne : iniRstrip s ≠ [] := List.ne_nil_of_mem hmem
    rw [List.append_nil] at h
    have hlast := endsClean_rstrip s _ (List.getLast?_eq_getLast_of_ne_nil hne)
    rw [← List.dropLast_append_getLast hne, List.mem_append] at hmem
    rcases hmem with hmem | hmem
    · exact h hmem
    · rw [← List.mem_singleton.mp hmem] at hlast
      exact absurd hlast (by decide)
  · apply h
    rw [List.dropLast_append_of_ne_nil hempty]
    exact List.mem_append_left _ hmem

lemma unmark_isSuffix (first : Bool) (line : CStr) : unmark first line <:+ line := by
  unfold unmark
  split_ifs
  · exact List.drop_suffix 3 line
  · exact List.suffix_refl line

lemma shapeOf_ok (first pending : Bool) {line : CStr} (hline : OneLine line) (hzero : 0 ∉ line) :
    (shapeOf first pending line).Ok := by
  have hskip : iniLskip (unmark first line) <:+ line :=
    (lskip_isSuffix _).trans (unmark_isSuffix first line)
  have hinline : Inline (iniRstrip (iniLskip (unmark first line))) := by
    refine ⟨fun h => hzero (hskip.subset ((rstrip_isPrefix _).subset h)), ?_⟩
    exact (hline.of_isSuffix hskip).rstrip
  have hclean : StartsClean (iniRstrip (iniLskip (unmark first line))) :=
    (startsClean_lskip _).of_isPrefix (rstrip_isPrefix _)
  unfold shapeOf
  generalize iniRstrip (iniLskip (unmark first line)) = body at hinline hclean
  cases body with
  | nil => trivial
  | cons c cs =>
    dsimp only
    split_ifs with hcomment hmore hopen
    · trivial
    · exact valueOk_more hinline hclean
    · exact headerShape_ok (hinline.mono (List.subset_cons_self c cs))
    · apply pairShape_ok hinline
      intro b hb
      obtain rfl : c = b := by simpa using hb
      rw [not_or] at hcomment
      exact ⟨hclean c rfl, hcomment.1, hcomment.2, hopen⟩

/-- A handler that keeps what it is given. -/
def record : IniHandler (List Event) := fun events sect name value =>
  (1, events ++ [⟨sect, name, value⟩])

@[simp] lemma handle_record (p : Parser (List Event)) (name value : CStr) :
    p.handle record name value = { p with user := p.user ++ [⟨p.sect, name, value⟩] } := rfl

/-- What every delivered event looks like. Only a name that fills the buffer for
the name of the last pair may be cut in front of white space. -/
structure WellFormed (ev : Event) : Prop where
  sect : SectOk ev.sect
  sectShort : ev.sect.length < maxSection
  name : NameOk ev.name
  nameEnd : ev.name.length < maxName - 1 → EndsClean ev.name
  value : ValueOk ev.value

/-- The parser holds well-formed names and has delivered well-formed events. -/
structure Parser.Sound (p : Parser (List Event)) : Prop where
  sect : SectOk p.sect
  sectShort : p.sect.length < maxSection
  prevName : NameOk p.prevName
  prevEnd : p.prevName.length < maxName - 1 → EndsClean p.prevName
  events : ∀ ev ∈ p.user, WellFormed ev

lemma nameOk_nil : NameOk [] := ⟨⟨by simp, by simp⟩, rfl, by simp, by simp⟩

lemma Parser.sound_init : (Parser.init ([] : List Event)).Sound where
  sect := ⟨⟨by simp [Parser.init], by simp [Parser.init]⟩, rfl, by simp [Parser.init]⟩
  sectShort := by decide
  prevName := nameOk_nil
  prevEnd := fun _ c hc => by simp [Parser.init] at hc
  events := by simp [Parser.init]

/-- Line number and error do not matter. -/
lemma Parser.Sound.congr {p q : Parser (List Event)} (h : p.Sound) (hsect : q.sect = p.sect)
    (hprev : q.prevName = p.prevName) (huser : q.user = p.user) : q.Sound where
  sect := hsect ▸ h.sect
  sectShort := hsect ▸ h.sectShort
  prevName := hprev ▸ h.prevName
  prevEnd := hprev ▸ h.prevEnd
  events := huser ▸ h.events

lemma Parser.Sound.fail {p : Parser (List Event)} (h : p.Sound) : p.fail.Sound := by
  unfold Parser.fail
  split_ifs
  · exact h.congr rfl rfl rfl
  · exact h

lemma Parser.Sound.handle {p : Parser (List Event)} (h : p.Sound) {name value : CStr}
    (hname : NameOk name) (hend : name.length < maxName - 1 → EndsClean name)
    (hvalue : ValueOk value) : (p.handle record name value).Sound where
  sect := h.sect
  sectShort := h.sectShort
  prevName := h.prevName
  prevEnd := h.prevEnd
  events := by
    rw [handle_record]
    exact List.forall_mem_append.mpr
      ⟨h.events, List.forall_mem_singleton.mpr ⟨h.sect, h.sectShort, hname, hend, hvalue⟩⟩

lemma Parser.Sound.apply {p : Parser (List Event)} (h : p.Sound) {shape : Shape}
    (hshape : shape.Ok) : (shape.apply record p).Sound := by
  cases shape with
  | blank => exact h
  | malformed => exact h.fail
  | more value => exact h.handle h.prevName h.prevEnd hshape
  | header name =>
    exact
      { sect := hshape.of_isPrefix (List.take_prefix _ _)
        sectShort := by
          have hlen := List.length_take_le (maxSection - 1) name
          have hmax : maxSection - 1 < maxSection := by decide
          exact lt_of_le_of_lt hlen hmax
        prevName := nameOk_nil
        prevEnd := fun _ c hc => by simp [Shape.apply] at hc
        events := h.events }
  | pair name value =>
    obtain ⟨hname, hend, hvalue⟩ := hshape
    have hcut : Parser.Sound { p with prevName := iniStrncpy0 name maxName } :=
      { sect := h.sect
        sectShort := h.sectShort
        prevName := hname.of_isPrefix (List.take_prefix _ _)
        prevEnd := by
          -- a name that stays below the limit was not cut
          intro hshort
          have hwhole : iniStrncpy0 name maxName = name := by
            unfold iniStrncpy0 at hshort ⊢
            dsimp only at hshort
            rw [List.length_take] at hshort
            exact List.take_of_length_le (by omega)
          rw [hwhole]
          exact hend
        events := h.events }
    exact hcut.handle hname (fun _ => hend) hvalue

lemma Parser.Sound.lineStep {p : Parser (List Event)} (h : p.Sound) {line : Bytes}
    (hline : OneLine line) (hzero : 0 ∉ line) : (lineStep record p line).Sound := by
  have hshape : (p.shape line).Ok :=
    shapeOf_ok _ _ (hline.take _) fun hmem => hzero (List.mem_of_mem_take hmem)
  rw [lineStep_eq_shape]
  refine Parser.Sound.apply ?_ hshape
  split_ifs
  · exact Parser.Sound.fail (h.congr rfl rfl rfl)
  · exact h.congr rfl rfl rfl

lemma oneLine_of_isLine {l r : Bytes} (h : IsLine newline l r) : OneLine l := by
  unfold OneLine
  cases h with
  | ended body _ hbody =>
    rw [List.dropLast_concat]
    exact hbody
  | last _ _ hbody => exact fun hmem => hbody (List.mem_of_mem_dropLast hmem)

lemma parseLines_sound {data : Bytes} (hzero : 0 ∉ data) :
    (parseLines record (.init []) data).Sound := by
  have hlines : ∀ l ∈ lines newline data, OneLine l ∧ 0 ∉ l := by
    intro l hl
    obtain ⟨r, hline, hsub⟩ := mem_lines hl
    exact ⟨oneLine_of_isLine hline, fun hmem => hzero (hsub 0 hmem)⟩
  unfold parseLines
  generalize lines newline data = ls at hlines
  generalize hp : Parser.init ([] : List Event) = p
  have hsound : p.Sound := hp ▸ Parser.sound_init
  clear hp
  induction ls generalizing p with
  | nil => exact hsound
  | cons l ls ih =>
    rw [List.forall_mem_cons] at hlines
    rw [List.foldl_cons]
    exact ih hlines.2 _ (hsound.lineStep hlines.1.1 hlines.1.2)

def headerLine (sect : CStr) : Bytes := openBracket :: sect ++ [closeBracket, newline]

def pairLine (name value : CStr) : Bytes := name ++ equalsSign :: value ++ [newline]

/-- Every event in a section of its own. -/
def render (events : List Event) : Bytes :=
  events.flatMap fun ev => headerLine ev.sect ++ pairLine ev.name ev.value

/-- An event that a line can hold. -/
structure Writable (ev : Event) : Prop where
  wellFormed : WellFormed ev
  nameEnd : EndsClean ev.name
  fits : ev.name.length + ev.value.length + 3 ≤ iniMaxLine

lemma rstrip_newline {s : CStr} (h : EndsClean s) : iniRstrip (s ++ [newline]) = s := by
  unfold iniRstrip
  rw [List.rdropWhile_concat_pos isspace s newline (by decide)]
  exact h.rstrip

lemma endsClean_concat (s : CStr) {c : UInt8} (hc : isspace c = false) : EndsClean (s ++ [c]) := by
  intro b hb
  rw [List.getLast?_concat] at hb
  rw [← Option.some.inj hb]
  exact hc

/-- A line that neither starts with a byte order mark nor with white space. -/
lemma shapeOf_eq {first pending : Bool} {body : CStr} {c : UInt8} (hbom : first = true → c ≠ 239)
    (hspace : isspace c = false) (hcomment : c ≠ semicolon ∧ c ≠ hashSign)
    (hend : EndsClean (c :: body)) :
    shapeOf first pending (c :: body ++ [newline]) =
      if c = openBracket then headerShape body else pairShape (c :: body) := by
  have hunmark : unmark first (c :: body ++ [newline]) = c :: body ++ [newline] := by
    refine if_neg ?_
    rintro ⟨hfirst, hpre⟩
    rw [bom, List.cons_append, List.cons_prefix_cons] at hpre
    exact hbom hfirst hpre.1.symm
  have hskip : iniLskip (c :: body ++ [newline]) = c :: body ++ [newline] :=
    StartsClean.lskip fun b hb => by
      obtain rfl : c = b := by simpa using hb
      exact hspace
  have hcomment' : ¬ (c = semicolon ∨ c = hashSign) := by
    rw [not_or]
    exact hcomment
  unfold shapeOf
  rw [hunmark, hskip, rstrip_newline hend]
  dsimp only
  rw [if_neg hcomment', if_neg (by simp)]

lemma shapeOf_headerLine (first pending : Bool) {sect : CStr} (h : SectOk sect) :
    shapeOf first pending (headerLine sect) = .header sect := by
  have hline : headerLine sect = openBracket :: (sect ++ [closeBracket]) ++ [newline] := by
    simp [headerLine]
  have hend : EndsClean (openBracket :: (sect ++ [closeBracket])) := by
    rw [← List.cons_append]
    exact endsClean_concat _ (by decide)
  rw [hline, shapeOf_eq (fun _ => by decide) (by decide) (by decide) hend, if_pos rfl, headerShape,
    find_append [] h.unclosed h.free (by decide)]
  rfl

lemma endsClean_pair (name : CStr) {value : CStr} (h : EndsClean value) :
    EndsClean (name ++ equalsSign :: value) := by
  intro c hc
  rw [List.getLast?_append, List.getLast?_cons] at hc
  cases hvalue : value.getLast? with
  | none =>
    rw [hvalue] at hc
    obtain rfl : equalsSign = c := by simpa using hc
    decide
  | some b =>
    rw [hvalue] at hc
    obtain rfl : b = c := by simpa using hc
    exact h b hvalue

lemma pairShape_pair {name value : CStr} (hname : NameOk name) (hend : EndsClean name)
    (hvalue : ValueOk value) : pairShape (name ++ equalsSign :: value) = .pair name value := by
  have hcut : cutComment value = value := congrArg Prod.fst (find_nothing hvalue.free)
  unfold pairShape
  rw [find_append value hname.unassigned hname.free (by decide)]
  dsimp only
  rw [if_pos (.inl rfl), hend.rstrip, hcut, hvalue.startsClean.lskip, hvalue.endsClean.rstrip]

lemma shapeOf_pairLine (pending : Bool) {name value : CStr} (hname : NameOk name)
    (hend : EndsClean name) (hvalue : ValueOk value) :
    shapeOf false pending (pairLine name value) = .pair name value := by
  have hclean := endsClean_pair name hvalue.endsClean
  have hpair := pairShape_pair hname hend hvalue
  unfold pairLine
  cases name with
  | nil =>
    rw [List.nil_append] at hclean hpair ⊢
    rw [shapeOf_eq (by simp) (by decide) (by decide) hclean, if_neg (by decide), hpair]
  | cons c cs =>
    obtain ⟨hspace, hsemi, hhash, hopen⟩ := hname.start c rfl
    rw [List.cons_append] at hclean hpair ⊢
    rw [shapeOf_eq (by simp) hspace ⟨hsemi, hhash⟩ hclean, if_neg hopen, hpair]

lemma lineStep_headerLine (p : Parser (List Event)) {ev : Event} (h : WellFormed ev) :
    lineStep record p (headerLine ev.sect) =
      { p with lineno := p.lineno + 1, sect := ev.sect, prevName := [] } := by
  have hmax : maxSection = 50 := rfl
  have hmaxLine : iniMaxLine = 200 := rfl
  have hshort := h.sectShort
  have hlen : (headerLine ev.sect).length = ev.sect.length + 3 := by simp [headerLine]
  have hcut : iniStrncpy0 ev.sect maxSection = ev.sect := List.take_of_length_le (by omega)
  rw [lineStep_eq_shape, if_neg (by omega), Parser.shape, List.take_of_length_le (by omega),
    shapeOf_headerLine _ _ h.sect, Shape.apply, hcut]

lemma lineStep_pairLine {p : Parser (List Event)} {ev : Event} (h : Writable ev)
    (hsect : p.sect = ev.sect) (hlineno : p.lineno ≠ 0) :
    lineStep record p (pairLine ev.name ev.value) =
      { p with lineno := p.lineno + 1, prevName := iniStrncpy0 ev.name maxName,
               user := p.user ++ [ev] } := by
  have hfits := h.fits
  have hlen : (pairLine ev.name ev.value).length = ev.name.length + ev.value.length + 2 := by
    simp [pairLine]
    omega
  rw [lineStep_eq_shape, if_neg (by omega), Parser.shape, List.take_of_length_le (by omega),
    decide_eq_false hlineno, shapeOf_pairLine _ h.wellFormed.name h.nameEnd h.wellFormed.value,
    Shape.apply, handle_record]
  dsimp only
  rw [hsect]

lemma lines_event {ev : Event} (h : WellFormed ev) (rest : Bytes) :
    lines newline (headerLine ev.sect ++ pairLine ev.name ev.value ++ rest) =
      headerLine ev.sect :: pairLine ev.name ev.value :: lines newline rest := by
  have hheader : ∀ r, IsLine newline (headerLine ev.sect) r := by
    intro r
    have hline : headerLine ev.sect = (openBracket :: ev.sect ++ [closeBracket]) ++ [newline] := by
      simp [headerLine]
    rw [hline]
    refine .ended _ r ?_
    have hsect := h.sect.inline.2
    simp only [List.cons_append, List.mem_cons, List.mem_append, List.not_mem_nil, or_false,
      not_or]
    exact ⟨by decide, hsect, by decide⟩
  have hpair : ∀ r, IsLine newline (pairLine ev.name ev.value) r := by
    intro r
    refine .ended _ r ?_
    simp only [List.mem_append, List.mem_cons, not_or]
    exact ⟨h.name.inline.2, by decide, h.value.inline.2⟩
  rw [List.append_assoc, (hheader _).lines, (hpair _).lines]

/-- Reading a written text delivers the events and finds no error. -/
lemma parseLines_render (events : List Event) (h : ∀ ev ∈ events, Writable ev)
    (p : Parser (List Event)) :
    (parseLines record p (render events)).user = p.user ++ events ∧
      (parseLines record p (render events)).error = p.error := by
  induction events generalizing p with
  | nil => simp [render, parseLines, lines]
  | cons ev events ih =>
    rw [List.forall_mem_cons] at h
    have hlines : parseLines record p (render (ev :: events)) =
        parseLines record (lineStep record (lineStep record p (headerLine ev.sect))
          (pairLine ev.name ev.value)) (render events) := by
      unfold parseLines render
      rw [List.flatMap_cons, lines_event h.1.wellFormed, List.foldl_cons, List.foldl_cons]
    rw [hlines, lineStep_headerLine p h.1.wellFormed, lineStep_pairLine h.1 rfl (by simp)]
    obtain ⟨huser, herror⟩ := ih h.2
      { p with lineno := p.lineno + 1 + 1, sect := ev.sect,
               prevName := iniStrncpy0 ev.name maxName, user := p.user ++ [ev] }
    refine ⟨?_, herror⟩
    rw [huser, List.append_assoc, List.singleton_append]

lemma render_zero {events : List Event} (h : ∀ ev ∈ events, WellFormed ev) : 0 ∉ render events := by
  intro hmem
  obtain ⟨ev, hev, hmem⟩ := List.mem_flatMap.mp hmem
  have hwell := h ev hev
  have hheader : 0 ∉ headerLine ev.sect := by
    simp [headerLine, hwell.sect.inline.1, openBracket, closeBracket, newline]
  have hpair : 0 ∉ pairLine ev.name ev.value := by
    simp [pairLine, hwell.name.inline.1, hwell.value.inline.1, equalsSign, newline]
  rcases List.mem_append.mp hmem with h0 | h0
  · exact hheader h0
  · exact hpair h0

lemma iniParse_render {events : List Event} (h : ∀ ev ∈ events, Writable ev) :
    iniParse (some ⟨render events, false⟩) record [] = .ok (0, events) := by
  obtain ⟨huser, herror⟩ := parseLines_render events h (.init [])
  rw [iniParse_eq_lines record [] (render_zero fun ev hev => (h ev hev).wellFormed),
    Parser.result, huser, herror]
  rfl

/-- What is written from events that a line can hold is read back exactly. What is
read from any text can be written again, provided it fits the lines, and gives the
same events without an error. -/
theorem iniParse_render_roundtrip :
    (∀ events : List Event, (∀ ev ∈ events, Writable ev) →
      iniParse (some ⟨render events, false⟩) record [] = .ok (0, events)) ∧
    ∀ (data : Bytes) (rc : ℤ) (events : List Event), 0 ∉ data →
      iniParse (some ⟨data, false⟩) record [] = .ok (rc, events) →
      (∀ ev ∈ events, WellFormed ev) ∧
        ((∀ ev ∈ events, ev.name.length < maxName - 1 ∧
          ev.name.length + ev.value.length + 3 ≤ iniMaxLine) →
          iniParse (some ⟨render events, false⟩) record [] = .ok (0, events)) := by
  refine ⟨fun events h => iniParse_render h, ?_⟩
  intro data rc events hzero hparse
  have hwell : ∀ ev ∈ events, WellFormed ev := by
    rw [iniParse_eq_lines record [] hzero] at hparse
    have huser : (parseLines record (.init []) data).user = events :=
      congrArg Prod.snd (Except.ok.inj hparse)
    rw [← huser]
    exact (parseLines_sound hzero).events
  refine ⟨hwell, fun hfits => iniParse_render ?_⟩
  intro ev hev
  exact ⟨hwell ev hev, (hwell ev hev).nameEnd (hfits ev hev).1, (hfits ev hev).2⟩

/-- A header with a comment, a continued pair, a semicolon that starts no comment,
and white space in many places. -/
def untidyText : Bytes :=
  text "; top\n [net ] ; x\n\n url :  a b ;c\n\t more ;d\n#\nkey=;v \n"

def untidyEvents : List Event :=
  [⟨text "net ", text "url", text "a b"⟩, ⟨text "net ", text "url", text "more"⟩,
    ⟨text "net ", text "key", text ";v"⟩]

theorem iniParse_render_untidy :
    iniParse (some ⟨untidyText, false⟩) record [] = .ok (0, untidyEvents) ∧
      iniParse (some ⟨render untidyEvents, false⟩) record [] = .ok (0, untidyEvents) := by
  have hread : iniParse (some ⟨untidyText, false⟩) record [] = .ok (0, untidyEvents) := by
    decide +kernel
  exact ⟨hread, (iniParse_render_roundtrip.2 untidyText 0 untidyEvents (by decide +kernel)
    hread).2 (by decide +kernel)⟩

end OtaFetch.Ini
