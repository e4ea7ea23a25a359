import OtaFetch.CPath

/-!
# Reading a command line with `getopt_long`

The scanner keeps what is left of a cluster of letters and the words behind it.
A word that is no option is passed over, or ends the scan when the environment
asks for the POSIX order. The grammar below says what a command line is made of
without a scanner; every command line is written in it, and the scanner finds the
options of the writing in their order.
-/
namespace OtaFetch.GetOpt
open CPath

def dash : UInt8 := 45
def equals : UInt8 := 61
def colon : UInt8 := 58
def semicolon : UInt8 := 59

/-- An entry of the table of long options that has no flag to set. -/
structure LongOption where
  name : CStr
  hasArg : Bool
  val : UInt8
  deriving Repr, DecidableEq

/-- The letters and the table. No letter has an optional argument. -/
structure Spec where
  optstring : CStr
  longopts : List LongOption

/-- Whether a letter is known, and then whether it has an argument. -/
def shortArg (optstring : CStr) (c : UInt8) : Option Bool :=
  if c = colon ∨ c = semicolon then none
  else
    match optstring.dropWhile (· != c) with
    | [] => none
    | _ :: rest => some (rest.head? == some colon)

/-- What `getopt_long` returns, with `optarg`; `bad` is a question mark. -/
inductive Found where
  | option (val : UInt8) (optarg : Option CStr)
  | bad
  deriving Repr, DecidableEq

/-- The letters of a cluster that are still to be read, and the words behind it. -/
structure Scan where
  nextchar : CStr
  args : List CStr

/-- A word that is no option. A single dash is none. -/
def IsOperand (word : CStr) : Prop := word.head? ≠ some dash ∨ word = [dash]

instance (word : CStr) : Decidable (IsOperand word) := inferInstanceAs (Decidable (_ ∨ _))

def terminator : CStr := [dash, dash]

/-- The next word that holds options, and what is behind it. -/
def advance (posix : Bool) : List CStr → Option (CStr × List CStr)
  | [] => none
  | word :: rest =>
    if word = terminator then none
    else if IsOperand word then
      if posix then none else advance posix rest
    else some (word, rest)

def shortOption (optstring : CStr) (c : UInt8) (nextchar : CStr) (args : List CStr) :
    Found × Scan :=
  match shortArg optstring c with
  | none => (.bad, ⟨nextchar, args⟩)
  | some false => (.option c none, ⟨nextchar, args⟩)
  | some true =>
    if nextchar ≠ [] then (.option c (some nextchar), ⟨[], args⟩)
    else
      match args with
      | [] => (.bad, ⟨[], []⟩)
      | value :: rest => (.option c (some value), ⟨[], rest⟩)

/-- An exact name, or else an abbreviation whose candidates all mean the same. -/
def findLong (longopts : List LongOption) (name : CStr) : Option LongOption :=
  match longopts.find? (fun o => o.name == name) with
  | some o => some o
  | none =>
    match longopts.filter (fun o => name.isPrefixOf o.name) with
    | [] => none
    | o :: rest => if ∀ p ∈ rest, p.hasArg = o.hasArg ∧ p.val = o.val then some o else none

/-- The option that was found by its name takes its argument. -/
def takeLong (o : Option LongOption) (value : CStr) (args : List CStr) : Found × Scan :=
  match o with
  | none => (.bad, ⟨[], args⟩)
  | some o =>
    match value with
    | _ :: value =>
      if o.hasArg then (.option o.val (some value), ⟨[], args⟩) else (.bad, ⟨[], args⟩)
    | [] =>
      if o.hasArg then
        match args with
        | [] => (.bad, ⟨[], []⟩)
        | value :: rest => (.option o.val (some value), ⟨[], rest⟩)
      else (.option o.val none, ⟨[], args⟩)

/-- `process_long_option`, with the part of the word behind the two dashes. -/
def longOption (longopts : List LongOption) (word : CStr) (args : List CStr) : Found × Scan :=
  takeLong (findLong longopts (word.takeWhile (· != equals))) (word.dropWhile (· != equals)) args

/-- One call; `none` is the result -1. -/
def getoptLong (posix : Bool) (spec : Spec) (s : Scan) : Option (Found × Scan) :=
  match s.nextchar with
  | c :: rest => some (shortOption spec.optstring c rest s.args)
  | [] =>
    match advance posix s.args with
    | none => none
    | some (word, args) =>
      match word.tail with
      | [] => none
      | c :: rest =>
        if c = dash then some (longOption spec.longopts rest args)
        else some (shortOption spec.optstring c rest args)

def wordsSize : List CStr → ℕ
  | [] => 0
  | word :: rest => word.length + 1 + wordsSize rest

/-- Every call reads a letter or a word. -/
def Scan.size (s : Scan) : ℕ := s.nextchar.length + wordsSize s.args

lemma advance_size {posix : Bool} {args rest : List CStr} {word : CStr}
    (h : advance posix args = some (word, rest)) :
    wordsSize rest + word.length + 1 ≤ wordsSize args := by
  induction args with
  | nil => cases h
  | cons w args ih =>
    rw [wordsSize]
    unfold advance at h
    split_ifs at h with hend hoperand hposix
    · have := ih h
      omega
    · cases h
      omega

lemma shortOption_size (optstring : CStr) (c : UInt8) (nextchar : CStr) (args : List CStr) :
    (shortOption optstring c nextchar args).2.size ≤ (Scan.mk nextchar args).size := by
  unfold shortOption
  split
  · exact le_rfl
  · exact le_rfl
  · split_ifs with hnext
    · simp [Scan.size]
    · cases args with
      | nil => simp [Scan.size]
      | cons value rest =>
        simp only [Scan.size, List.length_nil, wordsSize]
        omega

lemma longOption_size (longopts : List LongOption) (word : CStr) (args : List CStr) :
    (longOption longopts word args).2.size ≤ (Scan.mk [] args).size := by
  unfold longOption takeLong
  split
  · exact le_rfl
  · split
    · split_ifs <;> exact le_rfl
    · split_ifs
      · cases args with
        | nil => exact le_rfl
        | cons value rest =>
          simp only [Scan.size, List.length_nil, wordsSize]
          omega
      · exact le_rfl

lemma getoptLong_size {posix : Bool} {spec : Spec} {s s' : Scan} {found : Found}
    (h : getoptLong posix spec s = some (found, s')) : s'.size < s.size := by
  obtain ⟨nextchar, args⟩ := s
  unfold getoptLong at h
  cases nextchar with
  | cons c rest =>
    have hs := congrArg Prod.snd (Option.some.inj h)
    have hle := shortOption_size spec.optstring c rest args
    dsimp only at hs
    rw [hs] at hle
    simp only [Scan.size, List.length_cons] at hle ⊢
    omega
  | nil =>
    dsimp only at h
    cases hadvance : advance posix args with
    | none =>
      rw [hadvance] at h
      cases h
    | some found =>
      obtain ⟨word, behind⟩ := found
      have hbehind := advance_size hadvance
      rw [hadvance] at h
      dsimp only at h
      cases htail : word.tail with
      | nil =>
        rw [htail] at h
        cases h
      | cons c rest =>
        have hlen := congrArg List.length htail
        rw [List.length_tail, List.length_cons] at hlen
        rw [htail] at h
        dsimp only at h
        split_ifs at h with hdash
        · have hs := congrArg Prod.snd (Option.some.inj h)
          have hle := longOption_size spec.longopts rest behind
          dsimp only at hs
          rw [hs] at hle
          simp only [Scan.size, List.length_nil] at hle ⊢
          omega
        · have hs := congrArg Prod.snd (Option.some.inj h)
          have hle := shortOption_size spec.optstring c rest behind
          dsimp only at hs
          rw [hs] at hle
          simp only [Scan.size, List.length_nil] at hle ⊢
          omega

/-- A `while` loop over the calls whose body may return. -/
def getoptLoop {σ : Type} (posix : Bool) (spec : Spec) (body : σ → Found → Option ℤ × σ)
    (s : Scan) (st : σ) : ℤ × σ :=
  match h : getoptLong posix spec s with
  | none => (0, st)
  | some (found, s') =>
    have _ : s'.size < s.size := getoptLong_size h
    match body st found with
    | (some rc, st) => (rc, st)
    | (none, st) => getoptLoop posix spec body s' st
termination_by s.size

/-- The part of a command line that stands for one thing. -/
inductive Item where
  | option (val : UInt8) (arg : Option CStr)
  | operand (word : CStr)
  | bad
  deriving Repr, DecidableEq

def Item.found : Item → Option Found
  | .option val arg => some (.option val arg)
  | .operand _ => none
  | .bad => some .bad

/-- A letter without an argument. -/
def letterItem (optstring : CStr) (c : UInt8) : Item :=
  if shortArg optstring c = none then .bad else .option c none

/-- The name stands for the entry: it is the entry's own, or no entry's own and
a beginning of names that all stand for the same option, the first being this one. -/
def Denotes (longopts : List LongOption) (name : CStr) (o : LongOption) : Prop :=
  (longopts.find? fun p => p.name == name) = some o ∨
    (∀ p ∈ longopts, p.name ≠ name) ∧
      ∃ rest, longopts.filter (fun p => name.isPrefixOf p.name) = o :: rest ∧
        ∀ p ∈ rest, p.hasArg = o.hasArg ∧ p.val = o.val

/-- A word with the words it takes along: what it stands for, and what is left. -/
inductive Element (spec : Spec) : CStr → List CStr → List Item → List CStr → Prop where
  | operand (word : CStr) (rest : List CStr) (hoperand : IsOperand word) :
      Element spec word rest [.operand word] rest
  | letters (front : CStr) (rest : List CStr) (hne : front ≠ [])
      (hhead : front.head? ≠ some dash)
      (hfront : ∀ c ∈ front, shortArg spec.optstring c ≠ some true) :
      Element spec (dash :: front) rest (front.map (letterItem spec.optstring)) rest
  | attached (front : CStr) (c : UInt8) (value : CStr) (rest : List CStr)
      (hhead : (front ++ [c]).head? ≠ some dash)
      (hfront : ∀ c ∈ front, shortArg spec.optstring c ≠ some true)
      (harg : shortArg spec.optstring c = some true) (hvalue : value ≠ []) :
      Element spec (dash :: (front ++ c :: value)) rest
        (front.map (letterItem spec.optstring) ++ [.option c (some value)]) rest
  | separate (front : CStr) (c : UInt8) (value : CStr) (rest : List CStr)
      (hhead : (front ++ [c]).head? ≠ some dash)
      (hfront : ∀ c ∈ front, shortArg spec.optstring c ≠ some true)
      (harg : shortArg spec.optstring c = some true) :
      Element spec (dash :: (front ++ [c])) (value :: rest)
        (front.map (letterItem spec.optstring) ++ [.option c (some value)]) rest
  | missing (front : CStr) (c : UInt8) (hhead : (front ++ [c]).head? ≠ some dash)
      (hfront : ∀ c ∈ front, shortArg spec.optstring c ≠ some true)
      (harg : shortArg spec.optstring c = some true) :
      Element spec (dash :: (front ++ [c])) []
        (front.map (letterItem spec.optstring) ++ [.bad]) []
  | longFlag (name : CStr) (o : LongOption) (rest : List CStr) (hne : name ≠ [])
      (hname : equals ∉ name) (ho : Denotes spec.longopts name o) (hflag : o.hasArg = false) :
      Element spec (dash :: dash :: name) rest [.option o.val none] rest
  | longExcess (name value : CStr) (o : LongOption) (rest : List CStr)
      (hname : equals ∉ name) (ho : Denotes spec.longopts name o) (hflag : o.hasArg = false) :
      Element spec (dash :: dash :: (name ++ equals :: value)) rest [.bad] rest
  | longAttached (name value : CStr) (o : LongOption) (rest : List CStr)
      (hname : equals ∉ name) (ho : Denotes spec.longopts name o) (harg : o.hasArg = true) :
      Element spec (dash :: dash :: (name ++ equals :: value)) rest
        [.option o.val (some value)] rest
  | longSeparate (name value : CStr) (o : LongOption) (rest : List CStr) (hne : name ≠ [])
      (hname : equals ∉ name) (ho : Denotes spec.longopts name o) (harg : o.hasArg = true) :
      Element spec (dash :: dash :: name) (value :: rest) [.option o.val (some value)] rest
  | longMissing (name : CStr) (o : LongOption) (hne : name ≠ [])
      (hname : equals ∉ name) (ho : Denotes spec.longopts name o) (harg : o.hasArg = true) :
      Element spec (dash :: dash :: name) [] [.bad] []
  | longUnknown (name value : CStr) (rest : List CStr) (hne : name ++ value ≠ [])
      (hname : equals ∉ name) (hvalue : value = [] ∨ value.head? = some equals)
      (hnone : ∀ o, ¬ Denotes spec.longopts name o) :
      Element spec (dash :: dash :: (name ++ value)) rest [.bad] rest

/-- What a command line is made of. -/
inductive Written (posix : Bool) (spec : Spec) : List CStr → List Item → Prop where
  | nil : Written posix spec [] []
  | terminated (rest : List CStr) :
      Written posix spec (terminator :: rest) (rest.map .operand)
  | ended (word : CStr) (rest : List CStr) (hposix : posix = true) (hoperand : IsOperand word) :
      Written posix spec (word :: rest) ((word :: rest).map .operand)
  | more (word : CStr) (args rest : List CStr) (items behind : List Item)
      (helement : Element spec word args items rest)
      (horder : posix = true → ¬ IsOperand word) (hrest : Written posix spec rest behind) :
      Written posix spec (word :: args) (items ++ behind)

/-- Hand the finds to the body until it returns, and go on with `k` if it does not. -/
def handleThen {σ : Type} (body : σ → Found → Option ℤ × σ) (k : σ → ℤ × σ) :
    List Found → σ → ℤ × σ
  | [], st => k st
  | found :: rest, st =>
    match body st found with
    | (some rc, st) => (rc, st)
    | (none, st) => handleThen body k rest st

def handleFinds {σ : Type} (body : σ → Found → Option ℤ × σ) : List Found → σ → ℤ × σ :=
  handleThen body fun st => (0, st)

lemma handleThen_append {σ : Type} (body : σ → Found → Option ℤ × σ) (k : σ → ℤ × σ)
    (xs ys : List Found) (st : σ) :
    handleThen body k (xs ++ ys) st = handleThen body (handleThen body k ys) xs st := by
  induction xs generalizing st with
  | nil => rfl
  | cons x xs ih =>
    rw [List.cons_append, handleThen, handleThen]
    split
    · rfl
    · exact ih _

lemma getoptLoop_none {σ : Type} {posix : Bool} {spec : Spec} {s : Scan}
    (h : getoptLong posix spec s = none) (body : σ → Found → Option ℤ × σ) (st : σ) :
    getoptLoop posix spec body s st = (0, st) := by
  rw [getoptLoop]
  split
  · rfl
  · rename_i heq
    rw [h] at heq
    cases heq

lemma getoptLoop_some {σ : Type} {posix : Bool} {spec : Spec} {s s' : Scan} {found : Found}
    (h : getoptLong posix spec s = some (found, s')) (body : σ → Found → Option ℤ × σ) (st : σ) :
    getoptLoop posix spec body s st =
      handleThen body (getoptLoop posix spec body s') [found] st := by
  rw [getoptLoop]
  split
  · rename_i heq
    rw [h] at heq
    cases heq
  · rename_i heq
    rw [h] at heq
    cases heq
    rfl

/-- The loop sees only what the next call returns. -/
lemma getoptLoop_congr {σ : Type} {posix : Bool} {spec : Spec} {s t : Scan}
    (h : getoptLong posix spec s = getoptLong posix spec t) (body : σ → Found → Option ℤ × σ)
    (st : σ) : getoptLoop posix spec body s st = getoptLoop posix spec body t st := by
  cases ht : getoptLong posix spec t with
  | none => rw [getoptLoop_none (h.trans ht), getoptLoop_none ht]
  | some next =>
    obtain ⟨found, s'⟩ := next
    rw [getoptLoop_some (h.trans ht), getoptLoop_some ht]

lemma IsOperand.ne_terminator {word : CStr} (h : IsOperand word) : word ≠ terminator := by
  intro heq
  rw [heq] at h
  exact absurd h (by decide)

lemma not_isOperand (letters : CStr) (hne : letters ≠ []) : ¬ IsOperand (dash :: letters) := by
  intro h
  cases h with
  | inl h => exact h rfl
  | inr h => exact hne (List.cons.inj h).2

lemma getoptLong_word (posix : Bool) (spec : Spec) (c : UInt8) (letters : CStr)
    (args : List CStr) (hc : c ≠ dash) :
    getoptLong posix spec ⟨[], (dash :: c :: letters) :: args⟩ =
      getoptLong posix spec ⟨c :: letters, args⟩ := by
  have hend : (dash :: c :: letters) ≠ terminator := by
    intro h
    exact hc (List.cons.inj (List.cons.inj h).2).1
  have hword : ¬ IsOperand (dash :: c :: letters) := not_isOperand _ (List.cons_ne_nil _ _)
  simp [getoptLong, advance, hend, hword, hc]

lemma getoptLong_long (posix : Bool) (spec : Spec) (word : CStr) (args : List CStr)
    (hne : word ≠ []) :
    getoptLong posix spec ⟨[], (dash :: dash :: word) :: args⟩ =
      some (longOption spec.longopts word args) := by
  have hend : (dash :: dash :: word) ≠ terminator := by
    intro h
    exact hne (List.cons.inj (List.cons.inj h).2).2
  have hword : ¬ IsOperand (dash :: dash :: word) := not_isOperand _ (List.cons_ne_nil _ _)
  simp [getoptLong, advance, hend, hword]

lemma getoptLoop_letter {σ : Type} (posix : Bool) (spec : Spec)
    (body : σ → Found → Option ℤ × σ) {c : UInt8} (tail : CStr) (args : List CStr)
    (hc : shortArg spec.optstring c ≠ some true) (st : σ) :
    getoptLoop posix spec body ⟨c :: tail, args⟩ st =
      handleThen body (getoptLoop posix spec body ⟨tail, args⟩)
        ([letterItem spec.optstring c].filterMap Item.found) st := by
  cases harg : shortArg spec.optstring c with
  | none =>
    have hcall : getoptLong posix spec ⟨c :: tail, args⟩ = some (.bad, ⟨tail, args⟩) := by
      simp [getoptLong, shortOption, harg]
    rw [getoptLoop_some hcall]
    simp [letterItem, harg, Item.found]
  | some b =>
    obtain rfl : b = false := by
      rw [harg] at hc
      simpa using hc
    have hcall : getoptLong posix spec ⟨c :: tail, args⟩ =
        some (.option c none, ⟨tail, args⟩) := by
      simp [getoptLong, shortOption, harg]
    rw [getoptLoop_some hcall]
    simp [letterItem, harg, Item.found]

lemma getoptLoop_letters {σ : Type} (posix : Bool) (spec : Spec)
    (body : σ → Found → Option ℤ × σ) (front tail : CStr) (args : List CStr)
    (hfront : ∀ c ∈ front, shortArg spec.optstring c ≠ some true) (st : σ) :
    getoptLoop posix spec body ⟨front ++ tail, args⟩ st =
      handleThen body (getoptLoop posix spec body ⟨tail, args⟩)
        ((front.map (letterItem spec.optstring)).filterMap Item.found) st := by
  induction front generalizing st with
  | nil => rfl
  | cons c front ih =>
    have hih : getoptLoop posix spec body ⟨front ++ tail, args⟩ = _ :=
      funext (ih fun d hd => hfront d (List.mem_cons_of_mem _ hd))
    rw [List.cons_append, getoptLoop_letter posix spec body _ _ (hfront c List.mem_cons_self),
      hih, ← handleThen_append, ← List.filterMap_append, List.map_cons, List.singleton_append]

/-- A cluster that starts a word is read from its first letter on. -/
lemma getoptLoop_cluster {σ : Type} (posix : Bool) (spec : Spec)
    (body : σ → Found → Option ℤ × σ) {front tail : CStr} (args : List CStr)
    (hne : front ++ tail ≠ []) (hhead : (front ++ tail).head? ≠ some dash)
    (hfront : ∀ c ∈ front, shortArg spec.optstring c ≠ some true) (st : σ) :
    getoptLoop posix spec body ⟨[], (dash :: (front ++ tail)) :: args⟩ st =
      handleThen body (getoptLoop posix spec body ⟨tail, args⟩)
        ((front.map (letterItem spec.optstring)).filterMap Item.found) st := by
  rw [← getoptLoop_letters posix spec body front tail args hfront]
  cases hletters : front ++ tail with
  | nil => exact absurd hletters hne
  | cons c letters =>
    rw [hletters] at hhead
    have hc : c ≠ dash := fun h => hhead (congrArg some h)
    exact getoptLoop_congr (getoptLong_word posix spec c letters args hc) body st

lemma findLong_eq_some_iff (longopts : List LongOption) (name : CStr) (o : LongOption) :
    findLong longopts name = some o ↔ Denotes longopts name o := by
  unfold findLong Denotes
  cases hexact : longopts.find? (fun p => p.name == name) with
  | some p =>
    have hp : p ∈ longopts ∧ p.name = name :=
      ⟨List.mem_of_find?_eq_some hexact, by simpa using List.find?_some hexact⟩
    constructor
    · intro h
      exact .inl h
    · intro h
      cases h with
      | inl h => exact h
      | inr h => exact absurd hp.2 (h.1 p hp.1)
  | none =>
    have hnone : ∀ p ∈ longopts, p.name ≠ name := by simpa using hexact
    dsimp only
    cases hfilter : longopts.filter (fun p => name.isPrefixOf p.name) with
    | nil => simp
    | cons p rest =>
      dsimp only
      constructor
      · intro h
        split_ifs at h with hsame
        obtain rfl := Option.some.inj h
        exact .inr ⟨hnone, rest, rfl, hsame⟩
      · rintro (h | ⟨-, rest', heq, hsame⟩)
        · cases h
        · obtain ⟨rfl, rfl⟩ := List.cons.inj heq
          rw [if_pos hsame]

lemma takeWhile_name {name : CStr} (h : equals ∉ name) {value : CStr}
    (hvalue : value = [] ∨ value.head? = some equals) :
    (name ++ value).takeWhile (· != equals) = name := by
  have hname : ∀ b ∈ name, (b != equals) = true := by
    intro b hb
    rw [bne_iff_ne]
    exact fun heq => h (heq ▸ hb)
  rw [List.takeWhile_append_of_pos hname]
  cases value with
  | nil => simp
  | cons b value =>
    obtain rfl : b = equals := by simpa using hvalue
    simp

lemma dropWhile_name {name : CStr} (h : equals ∉ name) {value : CStr}
    (hvalue : value = [] ∨ value.head? = some equals) :
    (name ++ value).dropWhile (· != equals) = value := by
  have hname : ∀ b ∈ name, (b != equals) = true := by
    intro b hb
    rw [bne_iff_ne]
    exact fun heq => h (heq ▸ hb)
  rw [List.dropWhile_append_of_pos hname]
  cases value with
  | nil => rfl
  | cons b value =>
    obtain rfl : b = equals := by simpa using hvalue
    simp

/-- A long option is taken by its name and what stands behind it. -/
lemma getoptLoop_long {σ : Type} (posix : Bool) (spec : Spec)
    (body : σ → Found → Option ℤ × σ) {name value : CStr} {args rest : List CStr} {found : Found}
    (hne : name ++ value ≠ []) (hname : equals ∉ name)
    (hvalue : value = [] ∨ value.head? = some equals)
    (h : takeLong (findLong spec.longopts name) value args = (found, ⟨[], rest⟩)) (st : σ) :
    getoptLoop posix spec body ⟨[], (dash :: dash :: (name ++ value)) :: args⟩ st =
      handleThen body (getoptLoop posix spec body ⟨[], rest⟩) [found] st := by
  refine getoptLoop_some ?_ body st
  rw [getoptLong_long posix spec (name ++ value) args hne, longOption,
    takeWhile_name hname hvalue, dropWhile_name hname hvalue, h]

lemma getoptLoop_name {σ : Type} (posix : Bool) (spec : Spec)
    (body : σ → Found → Option ℤ × σ) {name : CStr} {args rest : List CStr} {found : Found}
    (hne : name ≠ []) (hname : equals ∉ name)
    (h : takeLong (findLong spec.longopts name) [] args = (found, ⟨[], rest⟩)) (st : σ) :
    getoptLoop posix spec body ⟨[], (dash :: dash :: name) :: args⟩ st =
      handleThen body (getoptLoop posix spec body ⟨[], rest⟩) [found] st := by
  have hlong := getoptLoop_long posix spec body (by simpa using hne) hname (.inl rfl) h st
  rwa [List.append_nil] at hlong

/-- An element is read as what it stands for. -/
lemma Element.getoptLoop {σ : Type} {posix : Bool} {spec : Spec} {word : CStr}
    {args rest : List CStr} {items : List Item} (h : Element spec word args items rest)
    (horder : posix = true → ¬ IsOperand word) (body : σ → Found → Option ℤ × σ) (st : σ) :
    GetOpt.getoptLoop posix spec body ⟨[], word :: args⟩ st =
      handleThen body (GetOpt.getoptLoop posix spec body ⟨[], rest⟩)
        (items.filterMap Item.found) st := by
  cases h with
  | operand _ _ hoperand =>
    have hposix : posix = false := by
      cases posix with
      | false => rfl
      | true => exact absurd hoperand (horder rfl)
    refine getoptLoop_congr ?_ body st
    simp [getoptLong, advance, hoperand.ne_terminator, hoperand, hposix]
  | letters front _ hne hhead hfront =>
    have hne' : front ++ [] ≠ [] := by rwa [List.append_nil]
    have hhead' : (front ++ []).head? ≠ some dash := by rwa [List.append_nil]
    have hall := getoptLoop_cluster posix spec body args hne' hhead' hfront st
    rwa [List.append_nil] at hall
  | attached front c value _ hhead hfront harg hvalue =>
    have hcall : getoptLong posix spec ⟨c :: value, args⟩ =
        some (.option c (some value), ⟨[], args⟩) := by
      simp [getoptLong, shortOption, harg, hvalue]
    have htail := funext (getoptLoop_some hcall body)
    rw [getoptLoop_cluster posix spec body args (by simp)
      (by cases front <;> simpa using hhead) hfront, htail, ← handleThen_append,
      List.filterMap_append]
    rfl
  | separate front c value _ hhead hfront harg =>
    have hcall : getoptLong posix spec ⟨[c], value :: rest⟩ =
        some (.option c (some value), ⟨[], rest⟩) := by
      simp [getoptLong, shortOption, harg]
    have htail := funext (getoptLoop_some hcall body)
    rw [getoptLoop_cluster posix spec body (value :: rest) (by simp) hhead hfront, htail,
      ← handleThen_append, List.filterMap_append]
    rfl
  | missing front c hhead hfront harg =>
    have hcall : getoptLong posix spec ⟨[c], []⟩ = some (.bad, ⟨[], []⟩) := by
      simp [getoptLong, shortOption, harg]
    have htail := funext (getoptLoop_some hcall body)
    rw [getoptLoop_cluster posix spec body [] (by simp) hhead hfront, htail,
      ← handleThen_append, List.filterMap_append]
    rfl
  | longFlag name o _ hne hname ho hflag =>
    have hfound := (findLong_eq_some_iff _ _ _).mpr ho
    exact getoptLoop_name posix spec body hne hname (by simp [takeLong, hfound, hflag]) st
  | longExcess name value o _ hname ho hflag =>
    have hfound := (findLong_eq_some_iff _ _ _).mpr ho
    exact getoptLoop_long posix spec body (by simp) hname (.inr rfl)
      (by simp [takeLong, hfound, hflag]) st
  | longAttached name value o _ hname ho harg =>
    have hfound := (findLong_eq_some_iff _ _ _).mpr ho
    exact getoptLoop_long posix spec body (by simp) hname (.inr rfl)
      (by simp [takeLong, hfound, harg]) st
  | longSeparate name value o _ hne hname ho harg =>
    have hfound := (findLong_eq_some_iff _ _ _).mpr ho
    exact getoptLoop_name posix spec body hne hname (by simp [takeLong, hfound, harg]) st
  | longMissing name o hne hname ho harg =>
    have hfound := (findLong_eq_some_iff _ _ _).mpr ho
    exact getoptLoop_name posix spec body hne hname (by simp [takeLong, hfound, harg]) st
  | longUnknown name value _ hne hname hvalue hnone =>
    have hfound : findLong spec.longopts name = none := by
      rw [Option.eq_none_iff_forall_ne_some]
      intro o ho
      exact hnone o ((findLong_eq_some_iff _ _ _).mp ho)
    exact getoptLoop_long posix spec body hne hname hvalue (by simp [takeLong, hfound]) st

/-- The loop handles the options of a command line in their order. -/
theorem Written.getoptLoop {σ : Type} {posix : Bool} {spec : Spec} {args : List CStr}
    {items : List Item} (h : Written posix spec args items) (body : σ → Found → Option ℤ × σ)
    (st : σ) :
    GetOpt.getoptLoop posix spec body ⟨[], args⟩ st =
      handleFinds body (items.filterMap Item.found) st := by
  have hoperands : ∀ words : List CStr, (words.map Item.operand).filterMap Item.found = [] := by
    intro words
    rw [List.filterMap_map]
    exact List.filterMap_eq_nil_iff.mpr fun _ _ => rfl
  induction h generalizing st with
  | nil => exact getoptLoop_none rfl body st
  | terminated rest =>
    rw [hoperands]
    exact getoptLoop_none (by simp [getoptLong, advance]) body st
  | ended word rest hposix hoperand =>
    rw [hoperands]
    refine getoptLoop_none ?_ body st
    simp [getoptLong, advance, hoperand.ne_terminator, hoperand, hposix]
  | more word args rest items behind helement horder hrest ih =>
    rw [helement.getoptLoop horder, List.filterMap_append, handleFinds, handleThen_append,
      funext ih]
    rfl

/-- The letters in front of the first that has an argument. -/
lemma exists_element_letters (spec : Spec) {letters : CStr} (args : List CStr)
    (hne : letters ≠ []) (hhead : letters.head? ≠ some dash) :
    ∃ items rest, Element spec (dash :: letters) args items rest ∧ rest <:+ args := by
  obtain ⟨front, hfront⟩ :
      ∃ front, front = letters.takeWhile fun c => shortArg spec.optstring c != some true := ⟨_, rfl⟩
  have hplain : ∀ c ∈ front, shortArg spec.optstring c ≠ some true := by
    intro c hc
    rw [hfront] at hc
    simpa using List.mem_takeWhile_imp hc
  have hsplit := List.takeWhile_append_dropWhile
    (p := fun c => shortArg spec.optstring c != some true) (l := letters)
  rw [← hfront] at hsplit
  cases hdrop : letters.dropWhile (fun c => shortArg spec.optstring c != some true) with
  | nil =>
    rw [hdrop, List.append_nil] at hsplit
    subst hsplit
    exact ⟨_, args, .letters front args hne hhead hplain, List.suffix_rfl⟩
  | cons c value =>
    have harg : shortArg spec.optstring c = some true := by
      have := List.head?_dropWhile_not
        (fun c => shortArg spec.optstring c != some true) letters
      rw [hdrop] at this
      simpa using this
    rw [hdrop] at hsplit
    subst hsplit
    have hhead' : (front ++ [c]).head? ≠ some dash := by
      cases front <;> simpa using hhead
    by_cases hvalue : value = []
    · subst hvalue
      cases args with
      | nil => exact ⟨_, [], .missing front c hhead' hplain harg, List.suffix_rfl⟩
      | cons word rest =>
        exact ⟨_, rest, .separate front c word rest hhead' hplain harg, List.suffix_cons _ _⟩
    · exact ⟨_, args, .attached front c value args hhead' hplain harg hvalue, List.suffix_rfl⟩

lemma exists_element_long (spec : Spec) {word : CStr} (args : List CStr) (hne : word ≠ []) :
    ∃ items rest, Element spec (dash :: dash :: word) args items rest ∧ rest <:+ args := by
  obtain ⟨name, hname⟩ : ∃ name, name = word.takeWhile (· != equals) := ⟨_, rfl⟩
  have hsplit := List.takeWhile_append_dropWhile (p := (· != equals)) (l := word)
  have hfree : equals ∉ name := by
    intro hmem
    rw [hname] at hmem
    exact absurd (List.mem_takeWhile_imp hmem) (by simp)
  rw [← hname] at hsplit
  by_cases hdenotes : ∃ o, Denotes spec.longopts name o
  · obtain ⟨o, ho⟩ := hdenotes
    cases hdrop : word.dropWhile (· != equals) with
    | nil =>
      rw [hdrop, List.append_nil] at hsplit
      subst hsplit
      cases harg : o.hasArg with
      | false => exact ⟨_, args, .longFlag name o args hne hfree ho harg, List.suffix_rfl⟩
      | true =>
        cases args with
        | nil => exact ⟨_, [], .longMissing name o hne hfree ho harg, List.suffix_rfl⟩
        | cons value rest =>
          exact ⟨_, rest, .longSeparate name value o rest hne hfree ho harg, List.suffix_cons _ _⟩
    | cons b value =>
      have hb : b = equals := by
        have := List.head?_dropWhile_not (· != equals) word
        rw [hdrop] at this
        simpa using this
      rw [hdrop, hb] at hsplit
      subst hsplit
      cases harg : o.hasArg with
      | false => exact ⟨_, args, .longExcess name value o args hfree ho harg, List.suffix_rfl⟩
      | true => exact ⟨_, args, .longAttached name value o args hfree ho harg, List.suffix_rfl⟩
  · have hvalue : word.dropWhile (· != equals) = [] ∨
        (word.dropWhile (· != equals)).head? = some equals := by
      cases hdrop : word.dropWhile (· != equals) with
      | nil => exact .inl rfl
      | cons b value =>
        have := List.head?_dropWhile_not (· != equals) word
        rw [hdrop] at this
        exact .inr (by simpa using this)
    have hnone : ∀ o, ¬ Denotes spec.longopts name o := fun o ho => hdenotes ⟨o, ho⟩
    rw [← hsplit] at hne ⊢
    exact ⟨_, args, .longUnknown name _ args hne hfree hvalue hnone, List.suffix_rfl⟩

/-- Every command line is written in the grammar. -/
theorem exists_written (posix : Bool) (spec : Spec) (args : List CStr) :
    ∃ items, Written posix spec args items := by
  induction hn : args.length using Nat.strong_induction_on generalizing args with
  | _ n ih =>
    cases args with
    | nil => exact ⟨[], .nil⟩
    | cons word args =>
      by_cases hend : word = terminator
      · subst hend
        exact ⟨_, .terminated args⟩
      -- one element is read, and what it leaves is shorter
      have hmore : (∃ items rest, Element spec word args items rest ∧ rest <:+ args) →
          (posix = true → ¬ IsOperand word) →
          ∃ items, Written posix spec (word :: args) items := by
        rintro ⟨items, rest, helement, hsuffix⟩ horder
        have hlen := hsuffix.length_le
        rw [List.length_cons] at hn
        obtain ⟨behind, hbehind⟩ := ih rest.length (by omega) rest rfl
        exact ⟨_, .more word args rest items behind helement horder hbehind⟩
      by_cases hoperand : IsOperand word
      · cases posix with
        | true => exact ⟨_, .ended word args rfl hoperand⟩
        | false =>
          exact hmore ⟨_, args, .operand word args hoperand, List.suffix_rfl⟩ (by simp)
      · obtain ⟨letters, rfl, hne⟩ : ∃ letters, word = dash :: letters ∧ letters ≠ [] := by
          unfold IsOperand at hoperand
          cases word with
          | nil => simp at hoperand
          | cons b letters =>
            simp only [List.head?_cons, ne_eq, Option.some.injEq, not_or, not_not] at hoperand
            obtain ⟨rfl, hne⟩ := hoperand
            exact ⟨letters, rfl, fun h => hne (by rw [h])⟩
        refine hmore ?_ fun _ => hoperand
        by_cases hhead : letters.head? = some dash
        · cases letters with
          | nil => exact absurd rfl hne
          | cons b rest =>
            obtain rfl : b = dash := by simpa using hhead
            refine exists_element_long spec args ?_
            rintro rfl
            exact hend rfl
        · exact exists_element_letters spec args hne hhead

/-- The option is in the letters or in the table, with an argument or without. -/
def Spec.Has (spec : Spec) (val : UInt8) (hasArg : Bool) : Prop :=
  shortArg spec.optstring val = some hasArg ∨
    ∃ o ∈ spec.longopts, o.val = val ∧ o.hasArg = hasArg

lemma Denotes.mem {longopts : List LongOption} {name : CStr} {o : LongOption}
    (h : Denotes longopts name o) : o ∈ longopts := by
  cases h with
  | inl h => exact List.mem_of_find?_eq_some h
  | inr h =>
    obtain ⟨-, rest, hfilter, -⟩ := h
    have hmem : o ∈ longopts.filter fun p => name.isPrefixOf p.name := by
      rw [hfilter]
      exact List.mem_cons_self
    exact List.mem_of_mem_filter hmem

lemma letters_has {spec : Spec} {front : CStr}
    (hfront : ∀ c ∈ front, shortArg spec.optstring c ≠ some true) {val : UInt8}
    {arg : Option CStr} (hmem : .option val arg ∈ front.map (letterItem spec.optstring)) :
    spec.Has val arg.isSome := by
  obtain ⟨c, hc, hitem⟩ := List.mem_map.mp hmem
  unfold letterItem at hitem
  split_ifs at hitem with hnone
  obtain ⟨rfl, rfl⟩ := Item.option.inj hitem
  have harg := hfront c hc
  left
  cases hshort : shortArg spec.optstring c with
  | none => exact absurd hshort hnone
  | some b =>
    cases b with
    | false => rfl
    | true => exact absurd hshort harg

lemma Element.has {spec : Spec} {word : CStr} {args rest : List CStr} {items : List Item}
    (h : Element spec word args items rest) {val : UInt8} {arg : Option CStr}
    (hmem : .option val arg ∈ items) : spec.Has val arg.isSome := by
  cases h with
  | operand => simp at hmem
  | letters front _ hne hhead hfront => exact letters_has hfront hmem
  | attached front c value _ hhead hfront harg hvalue =>
    cases List.mem_append.mp hmem with
    | inl hmem => exact letters_has hfront hmem
    | inr hmem =>
      obtain ⟨rfl, rfl⟩ := Item.option.inj (List.mem_singleton.mp hmem)
      exact .inl harg
  | separate front c value _ hhead hfront harg =>
    cases List.mem_append.mp hmem with
    | inl hmem => exact letters_has hfront hmem
    | inr hmem =>
      obtain ⟨rfl, rfl⟩ := Item.option.inj (List.mem_singleton.mp hmem)
      exact .inl harg
  | missing front c hhead hfront harg =>
    cases List.mem_append.mp hmem with
    | inl hmem => exact letters_has hfront hmem
    | inr hmem => simp at hmem
  | longFlag name o _ hne hname ho hflag =>
    obtain ⟨rfl, rfl⟩ := Item.option.inj (List.mem_singleton.mp hmem)
    exact .inr ⟨o, ho.mem, rfl, hflag⟩
  | longExcess => simp at hmem
  | longAttached name value o _ hname ho harg =>
    obtain ⟨rfl, rfl⟩ := Item.option.inj (List.mem_singleton.mp hmem)
    exact .inr ⟨o, ho.mem, rfl, harg⟩
  | longSeparate name value o _ hne hname ho harg =>
    obtain ⟨rfl, rfl⟩ := Item.option.inj (List.mem_singleton.mp hmem)
    exact .inr ⟨o, ho.mem, rfl, harg⟩
  | longMissing => simp at hmem
  | longUnknown => simp at hmem

/-- An option of a command line is known and has an argument when it should. -/
lemma Written.has {posix : Bool} {spec : Spec} {args : List CStr} {items : List Item}
    (h : Written posix spec args items) {val : UInt8} {arg : Option CStr}
    (hmem : .option val arg ∈ items) : spec.Has val arg.isSome := by
  induction h with
  | nil => cases hmem
  | terminated rest => simp at hmem
  | ended word rest => simp at hmem
  | more word args rest items behind helement horder hrest ih =>
    cases List.mem_append.mp hmem with
    | inl hmem => exact helement.has hmem
    | inr hmem => exact ih hmem

/-- A known letter is one of the letters. -/
lemma shortArg_mem {optstring : CStr} {c : UInt8} {b : Bool}
    (h : shortArg optstring c = some b) : c ∈ optstring := by
  unfold shortArg at h
  split_ifs at h with hpunct
  cases hdrop : optstring.dropWhile (· != c) with
  | nil =>
    rw [hdrop] at h
    cases h
  | cons d rest =>
    have hd := List.head?_dropWhile_not (· != c) optstring
    rw [hdrop] at hd
    have heq : d = c := by simpa using hd
    have hmem : d ∈ optstring.dropWhile (· != c) := by
      rw [hdrop]
      exact List.mem_cons_self
    exact heq ▸ (List.dropWhile_suffix _).subset hmem

/-- The options of a specification, listed. -/
lemma Spec.Has.mem {spec : Spec} {val : UInt8} {hasArg : Bool} (h : spec.Has val hasArg)
    {known : List (UInt8 × Bool)}
    (hletters : ∀ c ∈ spec.optstring, ∀ b, shortArg spec.optstring c = some b → (c, b) ∈ known)
    (htable : ∀ o ∈ spec.longopts, (o.val, o.hasArg) ∈ known) : (val, hasArg) ∈ known := by
  cases h with
  | inl h => exact hletters val (shortArg_mem h) hasArg h
  | inr h =>
    obtain ⟨o, ho, rfl, rfl⟩ := h
    exact htable o ho

/-- A body that returns at some of the items and goes on at the others, changing
its state, returns at the first of the former or goes through to the end. -/
theorem handleFinds_items {σ : Type} {body : σ → Found → Option ℤ × σ} (items : List Item)
    (ends : Item → Bool) (next : σ → Item → σ) (rc : Item → ℤ) (Done : σ → Prop)
    (hend : ∀ item ∈ items, ends item = true → ∃ found, item.found = some found ∧
      ∀ st, (body st found).1 = some (rc item) ∧ Done (body st found).2)
    (hgo : ∀ item ∈ items, ends item = false → ∀ st,
      (item.found = none ∧ next st item = st) ∨
        ∃ found, item.found = some found ∧ body st found = (none, next st item))
    (st : σ) :
    (∀ item, items.find? ends = some item →
      (handleFinds body (items.filterMap Item.found) st).1 = rc item ∧
        Done (handleFinds body (items.filterMap Item.found) st).2) ∧
    (items.find? ends = none →
      handleFinds body (items.filterMap Item.found) st = (0, items.foldl next st)) := by
  induction items generalizing st with
  | nil => exact ⟨fun _ h => absurd h (by simp), fun _ => rfl⟩
  | cons item items ih =>
    have hend' := fun i hi => hend i (List.mem_cons_of_mem _ hi)
    have hgo' := fun i hi => hgo i (List.mem_cons_of_mem _ hi)
    cases hitem : ends item with
    | true =>
      obtain ⟨found, hfound, hbody⟩ := hend item List.mem_cons_self hitem
      obtain ⟨hrc, hdone⟩ := hbody st
      have hall : handleFinds body (found :: items.filterMap Item.found) st =
          (rc item, (body st found).2) := by
        rw [handleFinds, handleThen, ← Prod.eta (body st found), hrc]
      rw [List.find?_cons_of_pos hitem, List.filterMap_cons_some hfound, hall]
      constructor
      · intro first hfirst
        obtain rfl := Option.some.inj hfirst
        exact ⟨rfl, hdone⟩
      · intro h
        cases h
    | false =>
      rw [List.find?_cons_of_neg (by simp [hitem]), List.foldl_cons]
      rcases hgo item List.mem_cons_self hitem st with ⟨hnone, hnext⟩ | ⟨found, hfound, hbody⟩
      · rw [List.filterMap_cons_none hnone, hnext]
        exact ih hend' hgo' st
      · have hall : handleFinds body (found :: items.filterMap Item.found) st =
            handleFinds body (items.filterMap Item.found) (next st item) := by
          rw [handleFinds, handleThen, hbody]
        rw [List.filterMap_cons_some hfound, hall]
        exact ih hend' hgo' (next st item)

end OtaFetch.GetOpt
