import OtaFetch.FileTree
import Mathlib.Algebra.Group.Nat.Defs
import Mathlib.Data.List.DropRight

/-!
# C strings as paths

A C string is the list of its bytes before the terminating NUL. A path string
is cut at every slash; empty components and `.` stay in place and `..` goes up.
A path that starts with a slash is read from the root, any other from the
working directory.
-/
namespace OtaFetch.CPath
open FileTree

abbrev Bytes := List UInt8
abbrev CStr := List UInt8
abbrev Path := List CStr

/-- The bytes of an ASCII literal. -/
def text (s : String) : CStr := s.toList.map (fun c => c.toNat.toUInt8)

/-- The C string at the start of a buffer: everything before the first NUL. -/
def cstring (b : Bytes) : CStr := b.takeWhile (· != 0)

lemma cstring_append_prefix (a b : Bytes) : cstring a <+: cstring (a ++ b) := by
  unfold cstring
  induction a with
  | nil => exact List.nil_prefix
  | cons c cs ih =>
    rw [List.cons_append, List.takeWhile_cons, List.takeWhile_cons]
    split
    · exact List.cons_prefix_cons.mpr ⟨rfl, ih⟩
    · exact List.nil_prefix

lemma cstring_terminated (s rest : Bytes) : cstring (s ++ 0 :: rest) = cstring s := by
  unfold cstring
  induction s with
  | nil => rfl
  | cons c s ih =>
    rw [List.cons_append, List.takeWhile_cons, List.takeWhile_cons, ih]

lemma cstring_eq_self_iff (s : Bytes) : cstring s = s ↔ 0 ∉ s := by
  rw [cstring, List.takeWhile_eq_self_iff]
  simp only [bne_iff_ne, ne_eq]
  exact ⟨fun h h0 => h 0 h0 rfl, fun h b hb h0 => h (h0 ▸ hb)⟩

def slash : UInt8 := 47

def pathMax : ℕ := 4096

/-- No object of a C program on a 64-bit machine has more bytes. -/
def ptrdiffMax : ℕ := 2 ^ 63 - 1

def compOf (c : CStr) : Comp CStr :=
  if c = [] ∨ c = text "." then .here
  else if c = text ".." then .up
  else .name c

def comps (s : CStr) : List (Comp CStr) := (s.splitOn slash).map compOf

def origin (cwd : Path) (s : CStr) : Path := if s.head? = some slash then [] else cwd

/-- The location a path string names, once `.` and `..` are resolved. -/
def place (cwd : Path) (s : CStr) : Path := resolve (origin cwd s) (comps s)

/-- The location of a directory string, as the paths built below it see it:
`dir/file` with an empty `dir` starts at the root. -/
def dirPlace (cwd : Path) (d : CStr) : Path := place cwd (d ++ [slash])

/-- A directory and a file name joined by a slash. -/
def join (d f : CStr) : CStr := d ++ slash :: f

/-- Path lookup: every component but the last must be a directory. -/
def locate {β : Type} (t : Tree CStr β) (cwd : Path) (s : CStr) : Except Errno Path :=
  if s = [] then .error .enoent
  else if pathMax ≤ s.length then .error .enametoolong
  else t.walk (origin cwd s) (comps s)

/-- Lookup of a path to be made a directory, where trailing slashes are dropped. -/
def locateDir {β : Type} (t : Tree CStr β) (cwd : Path) (s : CStr) : Except Errno Path :=
  if s = [] then .error .enoent
  else if pathMax ≤ s.length then .error .enametoolong
  else t.walk (origin cwd s) (comps (s.rdropWhile (· == slash)))

theorem comps_ne_nil (s : CStr) : comps s ≠ [] := by
  simp [comps, List.splitOn_ne_nil]

theorem comps_join (d f : CStr) : comps (d ++ slash :: f) = comps d ++ comps f := by
  simp [comps, List.splitOn_append_cons_self]

theorem comps_of_not_mem {s : CStr} (h : slash ∉ s) : comps s = [compOf s] := by
  simp [comps, List.splitOn_eq_singleton h]

@[simp] theorem comps_nil : comps [] = [.here] := by
  rw [comps_of_not_mem (by simp)]
  rfl

theorem origin_append {cwd : Path} {d : CStr} (x : CStr) (hd : d ≠ []) :
    origin cwd (d ++ x) = origin cwd d := by
  cases d with
  | nil => exact absurd rfl hd
  | cons c cs => rfl

theorem origin_join (cwd : Path) (d f g : CStr) :
    origin cwd (d ++ slash :: f) = origin cwd (d ++ slash :: g) := by
  cases d <;> rfl

theorem dirPlace_eq (cwd : Path) (d : CStr) :
    dirPlace cwd d = resolve (origin cwd (d ++ [slash])) (comps d) := by
  rw [dirPlace, place, comps_join, resolve_append]
  simp [enter]

theorem place_join (cwd : Path) (d f : CStr) :
    place cwd (join d f) = resolve (dirPlace cwd d) (comps f) := by
  rw [join, place, comps_join, resolve_append, dirPlace_eq, origin_join cwd d f []]

theorem dirPlace_of_ne_nil {cwd : Path} {d : CStr} (hd : d ≠ []) :
    dirPlace cwd d = place cwd d := by
  rw [dirPlace_eq, origin_append _ hd]
  rfl

/-- A name that is one ordinary component. -/
def Plain (n : CStr) : Prop := slash ∉ n ∧ compOf n = .name n

instance (n : CStr) : Decidable (Plain n) := inferInstanceAs (Decidable (_ ∧ _))

theorem place_join_plain (cwd : Path) (d : CStr) {n : CStr} (hn : Plain n) :
    place cwd (join d n) = n :: dirPlace cwd d := by
  rw [place_join, comps_of_not_mem hn.1, hn.2]
  rfl

theorem place_join_ne (cwd : Path) (d : CStr) {n m : CStr} (hn : Plain n) (hm : Plain m)
    (h : n ≠ m) : place cwd (join d n) ≠ place cwd (join d m) := by
  rw [place_join_plain cwd d hn, place_join_plain cwd d hm]
  exact fun he => h (List.cons_eq_cons.mp he).1

theorem compOf_of_length {c : CStr} (h : 3 ≤ c.length) : compOf c = .name c := by
  have h1 : c ≠ [] := by
    rintro rfl
    simp at h
  have h2 : c ≠ text "." := by
    rintro rfl
    revert h
    decide
  have h3 : c ≠ text ".." := by
    rintro rfl
    revert h
    decide
  simp [compOf, h1, h2, h3]

/-- Everything before the last slash, when there is one. -/
def cutLast : CStr → Option CStr
  | [] => none
  | c :: cs =>
    match cutLast cs with
    | some d => some (c :: d)
    | none => if c = slash then some [] else none

theorem cutLast_none {s : CStr} (h : cutLast s = none) : slash ∉ s := by
  induction s with
  | nil => simp
  | cons c cs ih =>
    unfold cutLast at h
    split at h
    · cases h
    · rename_i hcs
      split_ifs at h with hc
      simp only [List.mem_cons, not_or]
      exact ⟨fun he => hc he.symm, ih hcs⟩

theorem cutLast_some {s d : CStr} (h : cutLast s = some d) :
    ∃ c, slash ∉ c ∧ s = d ++ slash :: c := by
  induction s generalizing d with
  | nil => cases h
  | cons c cs ih =>
    unfold cutLast at h
    split at h
    · rename_i e he
      obtain ⟨r, hr, hcs⟩ := ih he
      obtain rfl := Option.some.inj h
      exact ⟨r, hr, by rw [hcs]; rfl⟩
    · rename_i hcs
      split_ifs at h with hc
      obtain rfl := Option.some.inj h
      exact ⟨cs, cutLast_none hcs, by rw [hc]; rfl⟩

/-- The temporary name a download or an atomic write uses for `s`. -/
def tmpOf (s : CStr) : CStr := s ++ text ".tmp"

theorem tmpOf_join (d n : CStr) : tmpOf (join d n) = join d (tmpOf n) := by
  simp [tmpOf, join]

lemma tmp_plain {c : CStr} (hc : slash ∉ c) : Plain (tmpOf c) := by
  refine ⟨?_, compOf_of_length ?_⟩
  · rw [tmpOf, List.mem_append, not_or]
    exact ⟨hc, by decide⟩
  · rw [tmpOf, List.length_append]
    have h : (text ".tmp").length = 4 := by decide
    omega

/-- The temporary file lies beside its target under a name ending in `.tmp`. -/
theorem place_tmpOf (cwd : Path) (s : CStr) :
    ∃ c base, slash ∉ c ∧ place cwd (tmpOf s) = (c ++ text ".tmp") :: base ∧
      place cwd s = enter base (compOf c) := by
  cases h : cutLast s with
  | none =>
    have hs := cutLast_none h
    refine ⟨s, origin cwd s, hs, ?_, ?_⟩
    · have hp := tmp_plain hs
      rw [place, comps_of_not_mem hp.1, hp.2]
      have ho : origin cwd (tmpOf s) = origin cwd s := by
        cases s with
        | nil => rw [origin, if_neg (by decide), origin, if_neg (by decide)]
        | cons c cs => rfl
      rw [ho]
      rfl
    · rw [place, comps_of_not_mem hs]
      simp
  | some d =>
    obtain ⟨c, hc, rfl⟩ := cutLast_some h
    refine ⟨c, dirPlace cwd d, hc, ?_, ?_⟩
    · have he : tmpOf (d ++ slash :: c) = join d (tmpOf c) := tmpOf_join d c
      rw [he, place_join_plain cwd d (tmp_plain hc)]
      rfl
    · have he : d ++ slash :: c = join d c := rfl
      rw [he, place_join, comps_of_not_mem hc]
      rfl

theorem place_tmpOf_ne (cwd : Path) (s : CStr) : place cwd (tmpOf s) ≠ place cwd s := by
  obtain ⟨c, base, -, ht, hs⟩ := place_tmpOf cwd s
  rw [ht, hs]
  intro he
  have hlen := congrArg List.length he
  cases hc : compOf c with
  | here => simp [hc, enter] at hlen
  | up =>
    simp only [hc, enter, List.length_cons, List.length_tail] at hlen
    omega
  | name n =>
    have hn : n = c := by
      unfold compOf at hc
      split_ifs at hc
      exact (Comp.name.inj hc).symm
    subst hn
    rw [hc] at he
    have hself := congrArg List.length (List.cons_eq_cons.mp he).1
    rw [List.length_append] at hself
    have h4 : (text ".tmp").length = 4 := by decide
    omega

theorem locate_ok {β : Type} {t : Tree CStr β} {cwd : Path} {s : CStr} {q : Path}
    (h : locate t cwd s = .ok q) :
    q = place cwd s ∧ (t.node q ≠ some .dir → t.Holds q) := by
  unfold locate at h
  split_ifs at h
  exact ⟨Tree.walk_ok h, Tree.walk_holds (comps_ne_nil s) h⟩

lemma resolve_trim (p : Path) (s : CStr) :
    resolve p (comps (s.rdropWhile (· == slash))) = resolve p (comps s) := by
  induction s using List.reverseRecOn with
  | nil => rfl
  | append_singleton u c ih =>
    rw [List.rdropWhile_concat]
    split_ifs with hc
    · have he : c = slash := by simpa using hc
      subst he
      rw [ih, comps_join, resolve_append]
      simp [enter]
    · rfl

theorem locateDir_ok {β : Type} {t : Tree CStr β} {cwd : Path} {s : CStr} {q : Path}
    (h : locateDir t cwd s = .ok q) : q = place cwd s := by
  unfold locateDir at h
  split_ifs at h
  rw [Tree.walk_ok h, resolve_trim]
  rfl

/-- `u` is the part of `s` before one of its slashes. -/
def Above (u s : CStr) : Prop := ∃ r, s = u ++ slash :: r

/-- `u` is `s` or the part of `s` before one of its slashes. -/
def Cut (u s : CStr) : Prop := u = s ∨ Above u s

theorem Cut.refl (s : CStr) : Cut s s := .inl rfl

theorem Cut.above {u v s : CStr} (huv : Cut u v) (hvs : Above v s) : Above u s := by
  obtain ⟨r, rfl⟩ := hvs
  rcases huv with rfl | ⟨q, rfl⟩
  · exact ⟨r, rfl⟩
  · exact ⟨q ++ slash :: r, by simp⟩

theorem Cut.trans {u v s : CStr} (huv : Cut u v) (hvs : Cut v s) : Cut u s := by
  rcases hvs with rfl | hvs
  · exact huv
  · exact .inr (huv.above hvs)

/-- The parts of `d/f` before a slash are those of `d`, and `d` joined to those of `f`. -/
theorem above_join_cases {u d f : CStr} (h : Above u (join d f)) :
    Cut u d ∨ ∃ a, u = join d a ∧ Above a f := by
  obtain ⟨r, hr⟩ := h
  rw [join, List.append_eq_append_iff] at hr
  rcases hr with ⟨a, rfl, ha⟩ | ⟨a, rfl, ha⟩
  · cases a with
    | nil => exact .inl (.inl (by simp))
    | cons c cs =>
      obtain ⟨rfl, hcs⟩ := List.cons_eq_cons.mp ha
      exact .inr ⟨cs, rfl, r, hcs⟩
  · cases a with
    | nil => exact .inl (.inl (by simp))
    | cons c cs =>
      obtain ⟨rfl, -⟩ := List.cons_eq_cons.mp ha
      exact .inl (.inr ⟨cs, rfl⟩)

theorem above_join {u d n : CStr} (hn : slash ∉ n) (h : Above u (join d n)) : Cut u d := by
  rcases above_join_cases h with hcut | ⟨a, -, r, hr⟩
  · exact hcut
  · exact absurd (by rw [hr]; simp) hn

/-- What a walk passes through are the parts of the string before its slashes. -/
theorem walk_comps_iff {β : Type} {t : Tree CStr β} {p : Path} {s : CStr} :
    (∃ q, t.walk p (comps s) = .ok q) ↔
      t.node p = some .dir ∧ ∀ u, Above u s → t.node (resolve p (comps u)) = some .dir := by
  induction hn : s.length using Nat.strong_induction_on generalizing s with
  | _ n ih =>
    cases hcut : cutLast s with
    | none =>
      have hs := cutLast_none hcut
      have hnone : ∀ u, ¬ Above u s := by
        rintro u ⟨r, rfl⟩
        exact hs (by simp)
      have hwalk : (∃ q, t.walk p ([] ++ [compOf s]) = .ok q) ↔ t.node p = some .dir := by
        simp only [Tree.walk_concat, Tree.walk, Except.ok.injEq]
        constructor
        · rintro ⟨_, r, hr, hp, _⟩
          exact hr ▸ hp
        · intro hp
          exact ⟨_, p, rfl, hp, rfl⟩
      rw [comps_of_not_mem hs]
      exact hwalk.trans ⟨fun hp => ⟨hp, fun u hu => absurd hu (hnone u)⟩, And.left⟩
    | some d =>
      obtain ⟨c, hc, rfl⟩ := cutLast_some hcut
      have hlt : d.length < n := by
        rw [← hn, List.length_append, List.length_cons]
        omega
      have hd := ih _ hlt rfl
      rw [comps_join, comps_of_not_mem hc]
      simp only [Tree.walk_concat]
      constructor
      · rintro ⟨q, r, hr, hdir, -⟩
        obtain ⟨hp, hparts⟩ := hd.mp ⟨r, hr⟩
        refine ⟨hp, ?_⟩
        intro u hu
        rcases above_join hc hu with rfl | hu
        · rwa [← Tree.walk_ok hr]
        · exact hparts u hu
      · rintro ⟨hp, hparts⟩
        obtain ⟨r, hr⟩ := hd.mpr ⟨hp, fun u hu => hparts u (Cut.above (.inr hu) ⟨c, rfl⟩)⟩
        have hdir := hparts d ⟨c, rfl⟩
        rw [← Tree.walk_ok hr] at hdir
        exact ⟨_, r, hr, hdir, rfl⟩

/-- A path read from a directory leads somewhere just if its parts before a
slash are directories. -/
theorem walk_origin_iff {β : Type} {t : Tree CStr β} {cwd : Path} {s path : CStr}
    (hcwd : t.node cwd = some .dir) (hpre : s <+: path) :
    (∃ q, t.walk (origin cwd path) (comps s) = .ok q) ↔
      ∀ u, u ≠ [] → Above u s → t.node (place cwd u) = some .dir := by
  obtain ⟨x, rfl⟩ := hpre
  have hstart : t.node (origin cwd (s ++ x)) = some .dir := by
    unfold origin
    split_ifs
    · exact t.root
    · exact hcwd
  have hplace : ∀ {u}, u ≠ [] → Above u s →
      resolve (origin cwd (s ++ x)) (comps u) = place cwd u := by
    rintro u hu ⟨r, rfl⟩
    rw [List.append_assoc, origin_append _ hu, place]
  rw [walk_comps_iff]
  constructor
  · rintro ⟨-, hparts⟩ u hu habove
    rw [← hplace hu habove]
    exact hparts u habove
  · intro hparts
    refine ⟨hstart, ?_⟩
    intro u habove
    by_cases hu : u = []
    · obtain ⟨r, rfl⟩ := habove
      subst hu
      rw [comps_nil]
      exact hstart
    · rw [hplace hu habove]
      exact hparts u hu habove

/-- A path without the slashes at its end. -/
def trimSlashes (s : CStr) : CStr := s.rdropWhile (· == slash)

lemma trimSlashes_concat (s : CStr) : trimSlashes (s ++ [slash]) = trimSlashes s := by
  rw [trimSlashes, List.rdropWhile_concat_pos _ _ _ (by simp)]
  rfl

lemma trimSlashes_concat_ne {c : UInt8} (s : CStr) (hc : c ≠ slash) :
    trimSlashes (s ++ [c]) = s ++ [c] := by
  rw [trimSlashes, List.rdropWhile_concat_neg _ _ _ (by simpa using hc)]

lemma trimSlashes_isPrefix (s : CStr) : trimSlashes s <+: s := List.rdropWhile_prefix _ _

lemma trimSlashes_append_isPrefix (s r : CStr) : trimSlashes s <+: trimSlashes (s ++ r) := by
  induction r using List.reverseRecOn with
  | nil => rw [List.append_nil]
  | append_singleton r c ih =>
    rw [← List.append_assoc]
    by_cases hc : c = slash
    · rw [hc, trimSlashes_concat]
      exact ih
    · rw [trimSlashes_concat_ne _ hc, List.append_assoc]
      exact (trimSlashes_isPrefix s).trans (List.prefix_append s _)

lemma place_trimSlashes (cwd : Path) (s : CStr) :
    place cwd s = resolve (origin cwd s) (comps (trimSlashes s)) := (resolve_trim _ s).symm

lemma place_of_trimSlashes {cwd : Path} {u s : CStr} (hu : u ≠ []) (hpre : u <+: s)
    (h : trimSlashes u = trimSlashes s) : place cwd u = place cwd s := by
  obtain ⟨x, rfl⟩ := hpre
  rw [place_trimSlashes, place_trimSlashes, h, origin_append _ hu]

/-- After a part before a slash comes something else, or nothing but slashes. -/
lemma above_trimSlashes {u s : CStr} (h : Above u s) :
    Above u (trimSlashes s) ∨ trimSlashes u = trimSlashes s := by
  obtain ⟨r, rfl⟩ := h
  induction r using List.reverseRecOn with
  | nil => exact .inr (trimSlashes_concat u).symm
  | append_singleton r c ih =>
    have hassoc : u ++ slash :: (r ++ [c]) = (u ++ slash :: r) ++ [c] := by simp
    rw [hassoc]
    by_cases hc : c = slash
    · rw [hc, trimSlashes_concat]
      exact ih
    · rw [trimSlashes_concat_ne _ hc]
      exact .inl ⟨r ++ [c], hassoc.symm⟩

theorem Above.of_prefix {u s v : CStr} (h : Above u s) (hpre : s <+: v) : Above u v := by
  obtain ⟨r, rfl⟩ := h
  obtain ⟨x, rfl⟩ := hpre
  exact ⟨r ++ x, by simp⟩

/-- No component is `..`. -/
def NoUp (s : CStr) : Prop := Comp.up ∉ comps s

instance (s : CStr) : Decidable (NoUp s) := inferInstanceAs (Decidable (¬ _))

lemma noUp_append_iff (u r : CStr) : NoUp (u ++ slash :: r) ↔ NoUp u ∧ NoUp r := by
  rw [NoUp, comps_join, List.mem_append, not_or]
  rfl

lemma NoUp.of_above {u s : CStr} (h : NoUp s) (ha : Above u s) : NoUp u := by
  obtain ⟨r, rfl⟩ := ha
  exact ((noUp_append_iff u r).mp h).1

lemma NoUp.tmpOf {s : CStr} (h : NoUp s) : NoUp (tmpOf s) := by
  have hlast : ∀ {c : CStr}, slash ∉ c → NoUp (CPath.tmpOf c) := by
    intro c hc
    obtain ⟨hslash, hcomp⟩ := tmp_plain hc
    rw [NoUp, comps_of_not_mem hslash, hcomp]
    simp
  cases hcut : cutLast s with
  | none => exact hlast (cutLast_none hcut)
  | some d =>
    obtain ⟨c, hc, rfl⟩ := cutLast_some hcut
    have htmp : CPath.tmpOf (d ++ slash :: c) = d ++ slash :: CPath.tmpOf c := tmpOf_join d c
    rw [htmp, noUp_append_iff]
    exact ⟨((noUp_append_iff d c).mp h).1, hlast hc⟩

/-- A path built below a directory without `..` lies inside it. -/
theorem dirPlace_suffix_place_join (cwd : Path) (d : CStr) {f : CStr} (h : NoUp f) :
    dirPlace cwd d <:+ place cwd (join d f) := by
  rw [place_join]
  exact suffix_resolve _ h

/-- The parts of a directory string without `..` are its ancestors. -/
theorem place_cut_suffix {cwd : Path} {u d : CStr} (hne : u ≠ []) (hd : NoUp d) (h : Cut u d) :
    place cwd u <:+ dirPlace cwd d := by
  rcases h with rfl | ⟨r, rfl⟩
  · rw [dirPlace_of_ne_nil hne]
  · rw [dirPlace_of_ne_nil (by simp), place, place, comps_join, resolve_append,
      origin_append _ hne]
    exact suffix_resolve _ ((noUp_append_iff u r).mp hd).2

end OtaFetch.CPath
