import Mathlib.Logic.Function.Basic
import Mathlib.Data.List.Infix

/-!
# A tree of directories and regular files

A location is the list of names on the way to it, innermost name first, so that
entering a directory is `cons`, `..` is `tail`, and lying below a directory is
having it as a suffix. The tree carries the proof that whatever exists lies in
a directory; every operation below rebuilds it. There are no links: two
different locations never share a file.
-/
namespace OtaFetch.FileTree

/-- The error numbers that a caller of the operations can tell apart. -/
inductive Errno where
  | enoent | eexist | eisdir | enotdir | einval | enametoolong
  | eintr | eio | eacces | enospc | exdev
  deriving Repr, DecidableEq

inductive Node (β : Type) where
  | dir
  | file (f : β)
  deriving Repr, DecidableEq

structure Tree (ν β : Type) where
  node : List ν → Option (Node β)
  root : node [] = some .dir
  nested : ∀ n p, node (n :: p) ≠ none → node p = some .dir

/-- A component of a path: stay, go up, or enter an entry. -/
inductive Comp (ν : Type) where
  | here
  | up
  | name (n : ν)
  deriving Repr, DecidableEq

def enter {ν : Type} (p : List ν) : Comp ν → List ν
  | .here => p
  | .up => p.tail
  | .name n => n :: p

/-- The location named by components read from `p`, by the names alone. -/
def resolve {ν : Type} (p : List ν) (cs : List (Comp ν)) : List ν := cs.foldl enter p

@[simp] theorem resolve_nil {ν : Type} (p : List ν) : resolve p [] = p := rfl

@[simp] theorem resolve_cons {ν : Type} (p : List ν) (c : Comp ν) (cs : List (Comp ν)) :
    resolve p (c :: cs) = resolve (enter p c) cs := rfl

theorem resolve_append {ν : Type} (p : List ν) (cs ds : List (Comp ν)) :
    resolve p (cs ++ ds) = resolve (resolve p cs) ds := by
  simp [resolve, List.foldl_append]

/-- Without `..`, resolving goes down only. -/
theorem suffix_resolve {ν : Type} (p : List ν) {cs : List (Comp ν)} (h : Comp.up ∉ cs) :
    p <:+ resolve p cs := by
  induction cs generalizing p with
  | nil => exact List.suffix_rfl
  | cons c cs ih =>
    rw [List.mem_cons, not_or] at h
    have hstep : p <:+ enter p c := by
      cases c with
      | here => exact List.suffix_rfl
      | up => exact absurd rfl h.1
      | name n => exact List.suffix_cons n p
    exact hstep.trans (ih (enter p c) h.2)

namespace Tree

def isDir {ν β : Type} (t : Tree ν β) (p : List ν) : Bool :=
  match t.node p with
  | some .dir => true
  | _ => false

@[simp] theorem isDir_iff {ν β : Type} (t : Tree ν β) (p : List ν) :
    t.isDir p = true ↔ t.node p = some .dir := by
  unfold isDir
  split <;> simp_all

def fileAt {ν β : Type} (t : Tree ν β) (p : List ν) : Option β :=
  match t.node p with
  | some (.file f) => some f
  | _ => none

@[simp] theorem fileAt_eq_some {ν β : Type} (t : Tree ν β) (p : List ν) (f : β) :
    t.fileAt p = some f ↔ t.node p = some (.file f) := by
  unfold fileAt
  split <;> simp_all

theorem fileAt_eq_none {ν β : Type} {t : Tree ν β} {p : List ν} :
    t.fileAt p = none ↔ t.node p = none ∨ t.node p = some .dir := by
  unfold fileAt
  split
  · simp_all
  · rename_i h
    cases hn : t.node p with
    | none => simp
    | some x =>
      cases x with
      | dir => simp
      | file f => exact absurd hn (h f)

theorem fileAt_congr {ν β : Type} {t u : Tree ν β} {p : List ν} (h : t.node p = u.node p) :
    t.fileAt p = u.fileAt p := by
  unfold fileAt
  rw [h]

/-- Follow the components, each of which needs the location reached so far to
be a directory. -/
def walk {ν β : Type} (t : Tree ν β) : List ν → List (Comp ν) → Except Errno (List ν)
  | p, [] => .ok p
  | p, c :: cs =>
    match t.node p with
    | some .dir => walk t (enter p c) cs
    | some (.file _) => .error .enotdir
    | none => .error .enoent

/-- Without links, a walk that succeeds ends where the names say. -/
theorem walk_ok {ν β : Type} {t : Tree ν β} {p q : List ν} {cs : List (Comp ν)}
    (h : t.walk p cs = .ok q) : q = resolve p cs := by
  induction cs generalizing p with
  | nil => exact (Except.ok.inj h).symm
  | cons c cs ih =>
    unfold walk at h
    split at h
    · exact ih h
    · cases h
    · cases h

theorem node_tail {ν β : Type} {t : Tree ν β} {p : List ν} (h : t.node p = some .dir) :
    t.node p.tail = some .dir := by
  cases p with
  | nil => exact h
  | cons n q => exact t.nested n q (by simp [h])

/-- Whatever exists lies in locations that exist. -/
theorem node_suffix {ν β : Type} {t : Tree ν β} {p q : List ν} (h : q <:+ p)
    (hp : t.node p ≠ none) : t.node q ≠ none := by
  induction p with
  | nil =>
    rw [List.suffix_nil.mp h]
    exact hp
  | cons n p ih =>
    rcases List.suffix_cons_iff.mp h with rfl | h
    · exact hp
    · refine ih h ?_
      rw [t.nested n p hp]
      simp

/-- A location can take a file when its directory exists and it is not itself
a directory; both hold wherever a file already is. -/
def Holds {ν β : Type} (t : Tree ν β) : List ν → Prop
  | [] => False
  | n :: q => t.node q = some .dir ∧ t.node (n :: q) ≠ some .dir

theorem holds_of_file {ν β : Type} {t : Tree ν β} {p : List ν} {f : β}
    (h : t.node p = some (.file f)) : t.Holds p := by
  cases p with
  | nil =>
    rw [t.root] at h
    cases h
  | cons n q =>
    refine ⟨t.nested n q ?_, ?_⟩ <;> rw [h] <;> simp

/-- A walk over at least one component ends in a directory or where a file can be. -/
theorem walk_holds {ν β : Type} {t : Tree ν β} {p q : List ν} {cs : List (Comp ν)}
    (hcs : cs ≠ []) (h : t.walk p cs = .ok q) (hq : t.node q ≠ some .dir) : t.Holds q := by
  induction cs generalizing p with
  | nil => exact absurd rfl hcs
  | cons c cs ih =>
    unfold walk at h
    split at h
    · rename_i hp
      cases cs with
      | nil =>
        obtain rfl : enter p c = q := Except.ok.inj h
        cases c with
        | here => exact absurd hp hq
        | up => exact absurd (node_tail hp) hq
        | name n => exact ⟨hp, hq⟩
      | cons d ds => exact ih (by simp) h
    · cases h
    · cases h

/-- The last component needs what the others lead to to be a directory. -/
theorem walk_concat {ν β : Type} {t : Tree ν β} {p q : List ν} {cs : List (Comp ν)}
    {c : Comp ν} :
    t.walk p (cs ++ [c]) = .ok q ↔
      ∃ r, t.walk p cs = .ok r ∧ t.node r = some .dir ∧ q = enter r c := by
  induction cs generalizing p with
  | nil =>
    simp only [List.nil_append, walk]
    split
    · rename_i hp
      simp [hp, eq_comm]
    · rename_i hp
      simp [hp]
    · rename_i hp
      simp [hp]
  | cons d cs ih =>
    simp only [List.cons_append, walk]
    split
    · exact ih
    · simp
    · simp

theorem walk_error {ν β : Type} {t : Tree ν β} {p : List ν} {cs : List (Comp ν)} {err : Errno}
    (h : t.walk p cs = .error err) : err = .enotdir ∨ err = .enoent := by
  induction cs generalizing p with
  | nil => cases h
  | cons c cs ih =>
    unfold walk at h
    split at h
    · exact ih h
    · exact .inl (Except.error.inj h).symm
    · exact .inr (Except.error.inj h).symm

/-- Store a file where a file can be; elsewhere the tree stays as it is. -/
def put {ν β : Type} [DecidableEq ν] (t : Tree ν β) (p : List ν) (f : β) : Tree ν β :=
  match p with
  | [] => t
  | n :: q =>
    if h : t.isDir q = true ∧ t.isDir (n :: q) = false then
      { node := Function.update t.node (n :: q) (some (.file f))
        root := by simp [Function.update, t.root]
        nested := by
          intro m r hm
          by_cases hr : r = n :: q
          · subst hr
            have hne : m :: n :: q ≠ n :: q := by simp
            rw [Function.update_of_ne hne] at hm
            have hd := t.nested m (n :: q) hm
            rw [← isDir_iff, h.2] at hd
            cases hd
          · rw [Function.update_of_ne hr]
            by_cases hmr : m :: r = n :: q
            · obtain ⟨-, rfl⟩ := List.cons_eq_cons.mp hmr
              exact (isDir_iff t r).mp h.1
            · rw [Function.update_of_ne hmr] at hm
              exact t.nested m r hm }
    else t

/-- Drop the file at a location; directories and absent entries stay. -/
def remove {ν β : Type} [DecidableEq ν] (t : Tree ν β) (p : List ν) : Tree ν β :=
  if h : t.isDir p = false then
    { node := Function.update t.node p none
      root := by
        have hp : [] ≠ p := by
          rintro rfl
          rw [(isDir_iff t []).mpr t.root] at h
          cases h
        rw [Function.update_of_ne hp, t.root]
      nested := by
        intro m r hm
        have hmr : m :: r ≠ p := by
          rintro rfl
          simp at hm
        rw [Function.update_of_ne hmr] at hm
        have hd := t.nested m r hm
        have hr : r ≠ p := by
          rintro rfl
          rw [← isDir_iff, h] at hd
          cases hd
        rw [Function.update_of_ne hr, hd] }
  else t

/-- Make a directory where nothing is; elsewhere the tree stays as it is. -/
def makeDir {ν β : Type} [DecidableEq ν] (t : Tree ν β) (p : List ν) : Tree ν β :=
  match p with
  | [] => t
  | n :: q =>
    if h : t.isDir q = true ∧ (t.node (n :: q)).isNone = true then
      { node := Function.update t.node (n :: q) (some .dir)
        root := by simp [Function.update, t.root]
        nested := by
          intro m r hm
          by_cases hr : r = n :: q
          · subst hr
            simp
          · rw [Function.update_of_ne hr]
            by_cases hmr : m :: r = n :: q
            · obtain ⟨-, rfl⟩ := List.cons_eq_cons.mp hmr
              exact (isDir_iff t r).mp h.1
            · rw [Function.update_of_ne hmr] at hm
              exact t.nested m r hm }
    else t

theorem put_node_of_ne {ν β : Type} [DecidableEq ν] (t : Tree ν β) {p q : List ν} (f : β)
    (h : q ≠ p) : (t.put p f).node q = t.node q := by
  cases p with
  | nil => rfl
  | cons n r =>
    simp only [put]
    split_ifs
    · exact Function.update_of_ne h _ _
    · rfl

theorem put_node_self {ν β : Type} [DecidableEq ν] {t : Tree ν β} {p : List ν} (f : β)
    (h : t.Holds p) : (t.put p f).node p = some (.file f) := by
  cases p with
  | nil => exact h.elim
  | cons n q =>
    have hd : t.isDir q = true := (isDir_iff t q).mpr h.1
    have hf : t.isDir (n :: q) = false := by
      rw [← Bool.not_eq_true, isDir_iff]
      exact h.2
    simp only [put, dif_pos (And.intro hd hf)]
    exact Function.update_self ..

theorem remove_node_of_ne {ν β : Type} [DecidableEq ν] (t : Tree ν β) {p q : List ν}
    (h : q ≠ p) : (t.remove p).node q = t.node q := by
  unfold remove
  split
  · exact Function.update_of_ne h _ _
  · rfl

theorem remove_node_self {ν β : Type} [DecidableEq ν] {t : Tree ν β} {p : List ν}
    (h : t.node p ≠ some .dir) : (t.remove p).node p = none := by
  have hf : t.isDir p = false := by
    rw [← Bool.not_eq_true, isDir_iff]
    exact h
  unfold remove
  rw [dif_pos hf]
  exact Function.update_self ..

/-- Making a directory changes nothing but an entry that was missing. -/
theorem makeDir_node {ν β : Type} [DecidableEq ν] (t : Tree ν β) (p q : List ν) :
    (t.makeDir p).node q = t.node q ∨
      q = p ∧ t.node q = none ∧ (t.makeDir p).node q = some .dir := by
  cases p with
  | nil => exact .inl rfl
  | cons n r =>
    simp only [makeDir]
    split_ifs with h
    · by_cases hq : q = n :: r
      · subst hq
        exact .inr ⟨rfl, Option.isNone_iff_eq_none.mp h.2, Function.update_self ..⟩
      · exact .inl (Function.update_of_ne hq _ _)
    · exact .inl rfl

theorem makeDir_node_self {ν β : Type} [DecidableEq ν] {t : Tree ν β} {p : List ν}
    (h : t.Holds p) (hn : t.node p = none) : (t.makeDir p).node p = some .dir := by
  cases p with
  | nil => exact h.elim
  | cons n q =>
    have hd : t.isDir q = true := (isDir_iff t q).mpr h.1
    have hfree : (t.node (n :: q)).isNone = true := Option.isNone_iff_eq_none.mpr hn
    simp only [makeDir, dif_pos (And.intro hd hfree)]
    exact Function.update_self ..

/-- `unlink` at a location: only a file can go. -/
def unlinkAt {ν β : Type} [DecidableEq ν] (t : Tree ν β) (p : List ν) :
    Except Errno (Tree ν β) :=
  match t.node p with
  | none => .error .enoent
  | some .dir => .error .eisdir
  | some (.file _) => .ok (t.remove p)

/-- `mkdir` at a location: anything that exists there is `EEXIST`. -/
def mkdirAt {ν β : Type} [DecidableEq ν] (t : Tree ν β) (p : List ν) :
    Except Errno (Tree ν β) :=
  match t.node p with
  | some _ => .error .eexist
  | none => .ok (t.makeDir p)

/-- `open` for writing with creation and truncation. -/
def openAt {ν β : Type} [DecidableEq ν] (t : Tree ν β) (p : List ν) (fresh : β)
    (truncate : β → β) : Except Errno (Tree ν β) :=
  match t.node p with
  | none => .ok (t.put p fresh)
  | some .dir => .error .eisdir
  | some (.file f) => .ok (t.put p (truncate f))

/-- `rename` of a file onto a location that is free or holds a file. The
programs here rename only regular files; a directory is refused as source. -/
def renameAt {ν β : Type} [DecidableEq ν] (t : Tree ν β) (src dst : List ν) :
    Except Errno (Tree ν β) :=
  match t.node src with
  | none => .error .enoent
  | some .dir => .error .eisdir
  | some (.file f) =>
    match t.node dst with
    | some .dir => .error .eisdir
    | _ => if src = dst then .ok t else .ok ((t.put dst f).remove src)

/-- Change the file at a location, when there is one. -/
def modifyAt {ν β : Type} [DecidableEq ν] (t : Tree ν β) (p : List ν) (g : β → β) :
    Tree ν β :=
  match t.node p with
  | some (.file f) => t.put p (g f)
  | _ => t

theorem unlinkAt_ok {ν β : Type} [DecidableEq ν] {t u : Tree ν β} {p : List ν}
    (h : t.unlinkAt p = .ok u) :
    (∃ f, t.node p = some (.file f)) ∧ u.node p = none ∧ ∀ q, q ≠ p → u.node q = t.node q := by
  unfold unlinkAt at h
  split at h
  · cases h
  · cases h
  · rename_i f hf
    cases h
    exact ⟨⟨f, hf⟩, remove_node_self (by simp [hf]), fun q hq => remove_node_of_ne t hq⟩

theorem mkdirAt_ok {ν β : Type} [DecidableEq ν] {t u : Tree ν β} {p : List ν}
    (h : t.mkdirAt p = .ok u) : t.node p = none ∧ u = t.makeDir p := by
  unfold mkdirAt at h
  split at h
  · cases h
  · rename_i hn
    exact ⟨hn, (Except.ok.inj h).symm⟩

theorem openAt_ok {ν β : Type} [DecidableEq ν] {t u : Tree ν β} {p : List ν} {fresh : β}
    {truncate : β → β} (h : t.openAt p fresh truncate = .ok u) :
    ∃ f, u = t.put p f ∧ t.node p ≠ some .dir ∧
      (f = fresh ∧ t.node p = none ∨ ∃ g, t.node p = some (.file g) ∧ f = truncate g) := by
  unfold openAt at h
  split at h
  · rename_i hn
    exact ⟨fresh, (Except.ok.inj h).symm, by simp [hn], .inl ⟨rfl, hn⟩⟩
  · cases h
  · rename_i g hg
    exact ⟨truncate g, (Except.ok.inj h).symm, by simp [hg], .inr ⟨g, hg, rfl⟩⟩

theorem renameAt_ok {ν β : Type} [DecidableEq ν] {t u : Tree ν β} {src dst : List ν}
    (h : t.renameAt src dst = .ok u) :
    ∃ f, t.node src = some (.file f) ∧ t.node dst ≠ some .dir ∧
      (src = dst ∧ u = t ∨ src ≠ dst ∧ u = (t.put dst f).remove src) := by
  unfold renameAt at h
  split at h
  · cases h
  · cases h
  · rename_i f hf
    refine ⟨f, hf, ?_⟩
    split at h
    · cases h
    · rename_i hd
      refine ⟨hd, ?_⟩
      split_ifs at h with he
      · exact .inl ⟨he, (Except.ok.inj h).symm⟩
      · exact .inr ⟨he, (Except.ok.inj h).symm⟩

/-- A rename moves the whole file in one step and touches nothing else. -/
theorem renameAt_node {ν β : Type} [DecidableEq ν] {t u : Tree ν β} {src dst : List ν}
    (h : t.renameAt src dst = .ok u) (hne : src ≠ dst) (hd : t.Holds dst) :
    (∃ f, t.node src = some (.file f) ∧ u.node dst = some (.file f)) ∧ u.node src = none ∧
      ∀ q, q ≠ src → q ≠ dst → u.node q = t.node q := by
  obtain ⟨f, hf, -, ⟨rfl, -⟩ | ⟨-, rfl⟩⟩ := renameAt_ok h
  · exact absurd rfl hne
  · have hsrc : (t.put dst f).node src = t.node src := put_node_of_ne t f hne
    refine ⟨⟨f, hf, ?_⟩, ?_, ?_⟩
    · rw [remove_node_of_ne _ (Ne.symm hne), put_node_self f hd]
    · exact remove_node_self (by simp [hsrc, hf])
    · intro q hq hqd
      rw [remove_node_of_ne _ hq, put_node_of_ne t f hqd]

theorem modifyAt_fileAt {ν β : Type} [DecidableEq ν] (t : Tree ν β) (p : List ν) (g : β → β) :
    (t.modifyAt p g).fileAt p = (t.fileAt p).map g := by
  unfold modifyAt
  split
  · rename_i f hf
    rw [(fileAt_eq_some t p f).mpr hf]
    exact (fileAt_eq_some _ _ _).mpr (put_node_self _ (holds_of_file hf))
  · rename_i h
    have hn : t.fileAt p = none := by
      cases hf : t.fileAt p with
      | none => rfl
      | some f => exact absurd ((fileAt_eq_some t p f).mp hf) (h f)
    simp [hn]

/-- `u` differs from `t` only at files whose location satisfies `S`; directories
are the same in both. -/
def Edits {ν β : Type} (t u : Tree ν β) (S : List ν → Prop) : Prop :=
  ∀ q, u.node q = t.node q ∨ S q ∧ t.node q ≠ some .dir ∧ u.node q ≠ some .dir

namespace Edits

theorem refl {ν β : Type} (t : Tree ν β) (S : List ν → Prop) : Edits t t S :=
  fun _ => .inl rfl

theorem trans {ν β : Type} {t u v : Tree ν β} {S : List ν → Prop} (htu : Edits t u S)
    (huv : Edits u v S) : Edits t v S := by
  intro q
  rcases htu q with h1 | ⟨hs, ht, hu⟩
  · rcases huv q with h2 | ⟨hs, hu, hv⟩
    · exact .inl (h2.trans h1)
    · exact .inr ⟨hs, by rwa [← h1], hv⟩
  · rcases huv q with h2 | ⟨-, -, hv⟩
    · exact .inr ⟨hs, ht, by rwa [h2]⟩
    · exact .inr ⟨hs, ht, hv⟩

theorem mono {ν β : Type} {t u : Tree ν β} {S S' : List ν → Prop} (h : Edits t u S)
    (hs : ∀ q, S q → S' q) : Edits t u S' :=
  fun q => (h q).imp id (fun hq => ⟨hs q hq.1, hq.2⟩)

theorem frame {ν β : Type} {t u : Tree ν β} {S : List ν → Prop} (h : Edits t u S) {q : List ν}
    (hq : ¬ S q) : u.node q = t.node q :=
  (h q).resolve_right (fun hs => hq hs.1)

theorem dir {ν β : Type} {t u : Tree ν β} {S : List ν → Prop} (h : Edits t u S) {q : List ν} :
    u.node q = some .dir ↔ t.node q = some .dir := by
  rcases h q with he | ⟨-, ht, hu⟩
  · rw [he]
  · exact ⟨fun hd => absurd hd hu, fun hd => absurd hd ht⟩

end Edits

theorem put_edits {ν β : Type} [DecidableEq ν] (t : Tree ν β) (p : List ν) (f : β) :
    Edits t (t.put p f) (· = p) := by
  intro q
  by_cases hq : q = p
  · subst hq
    cases q with
    | nil => exact .inl rfl
    | cons n r =>
      simp only [put]
      split_ifs with h
      · right
        have hf := h.2
        rw [← Bool.not_eq_true, isDir_iff] at hf
        exact ⟨trivial, hf, by simp⟩
      · exact .inl rfl
  · exact .inl (put_node_of_ne t f hq)

theorem remove_edits {ν β : Type} [DecidableEq ν] (t : Tree ν β) (p : List ν) :
    Edits t (t.remove p) (· = p) := by
  intro q
  by_cases hq : q = p
  · subst hq
    unfold remove
    split
    · rename_i h
      right
      rw [← Bool.not_eq_true, isDir_iff] at h
      exact ⟨rfl, h, by simp⟩
    · exact .inl rfl
  · exact .inl (remove_node_of_ne t hq)

theorem unlinkAt_edits {ν β : Type} [DecidableEq ν] {t u : Tree ν β} {p : List ν}
    (h : t.unlinkAt p = .ok u) : Edits t u (· = p) := by
  unfold unlinkAt at h
  split at h
  · cases h
  · cases h
  · obtain rfl := Except.ok.inj h
    exact remove_edits t p

theorem openAt_edits {ν β : Type} [DecidableEq ν] {t u : Tree ν β} {p : List ν} {fresh : β}
    {truncate : β → β} (h : t.openAt p fresh truncate = .ok u) : Edits t u (· = p) := by
  obtain ⟨f, rfl, -⟩ := openAt_ok h
  exact put_edits t p f

theorem renameAt_edits {ν β : Type} [DecidableEq ν] {t u : Tree ν β} {src dst : List ν}
    (h : t.renameAt src dst = .ok u) : Edits t u (fun q => q = src ∨ q = dst) := by
  obtain ⟨f, -, -, ⟨-, rfl⟩ | ⟨-, rfl⟩⟩ := renameAt_ok h
  · exact Edits.refl _ _
  · have hput : Edits t (t.put dst f) (fun q => q = src ∨ q = dst) :=
      (put_edits t dst f).mono (fun q hq => .inr hq)
    exact hput.trans ((remove_edits _ src).mono (fun q hq => .inl hq))

theorem modifyAt_edits {ν β : Type} [DecidableEq ν] (t : Tree ν β) (p : List ν) (g : β → β) :
    Edits t (t.modifyAt p g) (· = p) := by
  unfold modifyAt
  split
  · exact put_edits t p _
  · exact Edits.refl _ _

/-- `u` is `t` with some more directories, each at a location that satisfies `S`. -/
def Grows {ν β : Type} (t u : Tree ν β) (S : List ν → Prop) : Prop :=
  ∀ q, u.node q = t.node q ∨ S q ∧ t.node q = none ∧ u.node q = some .dir

namespace Grows

theorem refl {ν β : Type} (t : Tree ν β) (S : List ν → Prop) : Grows t t S :=
  fun _ => .inl rfl

theorem trans {ν β : Type} {t u v : Tree ν β} {S : List ν → Prop} (htu : Grows t u S)
    (huv : Grows u v S) : Grows t v S := by
  intro q
  rcases htu q with h1 | ⟨hs, ht, hu⟩
  · rcases huv q with h2 | ⟨hs, hu, hv⟩
    · exact .inl (h2.trans h1)
    · exact .inr ⟨hs, h1 ▸ hu, hv⟩
  · rcases huv q with h2 | ⟨-, hn, -⟩
    · exact .inr ⟨hs, ht, h2.trans hu⟩
    · rw [hu] at hn
      cases hn

theorem mono {ν β : Type} {t u : Tree ν β} {S S' : List ν → Prop} (h : Grows t u S)
    (hs : ∀ q, S q → S' q) : Grows t u S' :=
  fun q => (h q).imp id (fun hq => ⟨hs q hq.1, hq.2⟩)

theorem node {ν β : Type} {t u : Tree ν β} {S : List ν → Prop} (h : Grows t u S) {q : List ν}
    {x : Node β} (hq : t.node q = some x) : u.node q = some x := by
  rcases h q with he | ⟨-, hn, -⟩
  · exact he.trans hq
  · rw [hn] at hq
    cases hq

theorem fileAt {ν β : Type} {t u : Tree ν β} {S : List ν → Prop} (h : Grows t u S)
    (q : List ν) : u.fileAt q = t.fileAt q := by
  rcases h q with he | ⟨-, hn, hd⟩
  · exact fileAt_congr he
  · simp [Tree.fileAt, hn, hd]

end Grows

theorem makeDir_grows {ν β : Type} [DecidableEq ν] (t : Tree ν β) (p : List ν) :
    Grows t (t.makeDir p) (· = p) := makeDir_node t p

/-- A walk needs directories only, so it survives as long as they do. -/
theorem walk_mono {ν β : Type} {t u : Tree ν β} {p q : List ν} {cs : List (Comp ν)}
    (hdir : ∀ r, t.node r = some .dir → u.node r = some .dir) (h : t.walk p cs = .ok q) :
    u.walk p cs = .ok q := by
  induction cs generalizing p with
  | nil => exact h
  | cons c cs ih =>
    unfold walk at h ⊢
    split at h
    · rename_i hp
      rw [hdir p hp]
      exact ih h
    · cases h
    · cases h

end Tree

end OtaFetch.FileTree
