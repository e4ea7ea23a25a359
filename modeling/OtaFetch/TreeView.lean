import OtaFetch.FileTree

/-!
# Trees seen at some locations only

Two trees that have the same at the locations of a view stay so under every
operation at its locations, and the operation answers the same. A view contains
the directories of its locations.
-/
namespace OtaFetch.FileTree

/-- A set of locations that contains the directory of each of them. -/
structure View (ν : Type) where
  sees : List ν → Prop
  up : ∀ n p, sees (n :: p) → sees p

namespace View

lemma suffix {ν : Type} (V : View ν) {p q : List ν} (h : q <:+ p) (hp : V.sees p) : V.sees q := by
  induction p with
  | nil =>
    rw [List.suffix_nil.mp h]
    exact hp
  | cons n p ih =>
    rcases List.suffix_cons_iff.mp h with rfl | h
    · exact hp
    · exact ih h (V.up n p hp)

/-- The locations from which the components are read. -/
def Follows {ν : Type} (V : View ν) : List ν → List (Comp ν) → Prop
  | p, [] => V.sees p
  | p, c :: cs => V.sees p ∧ Follows V (enter p c) cs

lemma Follows.resolve {ν : Type} {V : View ν} {p : List ν} {cs : List (Comp ν)}
    (h : V.Follows p cs) : V.sees (resolve p cs) := by
  induction cs generalizing p with
  | nil => exact h
  | cons c cs ih => exact ih h.2

/-- Without `..` the end of the way is enough. -/
lemma follows_of_down {ν : Type} {V : View ν} {p : List ν} {cs : List (Comp ν)}
    (hdown : Comp.up ∉ cs) (h : V.sees (FileTree.resolve p cs)) : V.Follows p cs := by
  induction cs generalizing p with
  | nil => exact h
  | cons c cs ih =>
    rw [List.mem_cons, not_or] at hdown
    refine ⟨V.suffix ?_ h, ih hdown.2 h⟩
    apply suffix_resolve p
    rw [List.mem_cons, not_or]
    exact hdown

end View

/-- The trees have the same at every location of the view. -/
def SameOn {ν β : Type} (V : View ν) (t u : Tree ν β) : Prop := ∀ p, V.sees p → t.node p = u.node p

/-- Two answers of an operation: the same error, or trees that look the same. -/
def Alike {ν β : Type} (V : View ν) : Except Errno (Tree ν β) → Except Errno (Tree ν β) → Prop
  | .ok t, .ok u => SameOn V t u
  | .error a, .error b => a = b
  | _, _ => False

namespace SameOn

lemma refl {ν β : Type} (V : View ν) (t : Tree ν β) : SameOn V t t := fun _ _ => rfl

lemma trans {ν β : Type} {V : View ν} {t u v : Tree ν β} (h : SameOn V t u) (h' : SameOn V u v) :
    SameOn V t v := fun p hp => (h p hp).trans (h' p hp)

lemma isDir {ν β : Type} {V : View ν} {t u : Tree ν β} (h : SameOn V t u) {p : List ν}
    (hp : V.sees p) : t.isDir p = u.isDir p := by
  unfold Tree.isDir
  rw [h p hp]

lemma walk {ν β : Type} {V : View ν} {t u : Tree ν β} (h : SameOn V t u) {p : List ν}
    {cs : List (Comp ν)} (hcs : V.Follows p cs) : t.walk p cs = u.walk p cs := by
  induction cs generalizing p with
  | nil => rfl
  | cons c cs ih =>
    unfold Tree.walk
    rw [h p hcs.1, ih hcs.2]

/-- Both trees take the file, or neither does. -/
lemma put {ν β : Type} [DecidableEq ν] {V : View ν} {t u : Tree ν β} (h : SameOn V t u)
    {p : List ν} (hp : V.sees p) (f : β) : SameOn V (t.put p f) (u.put p f) := by
  intro q hq
  cases p with
  | nil => exact h q hq
  | cons n r =>
    have hr := h.isDir (V.up n r hp)
    have hn := h.isDir hp
    unfold Tree.put
    dsimp only
    by_cases hc : t.isDir r = true ∧ t.isDir (n :: r) = false
    · rw [dif_pos hc, dif_pos (by rw [← hr, ← hn]; exact hc)]
      by_cases heq : q = n :: r
      · rw [heq]
        simp only [Function.update_self]
      · simp only [Function.update_of_ne heq]
        exact h q hq
    · rw [dif_neg hc, dif_neg (by rw [← hr, ← hn]; exact hc)]
      exact h q hq

lemma remove {ν β : Type} [DecidableEq ν] {V : View ν} {t u : Tree ν β} (h : SameOn V t u)
    {p : List ν} (hp : V.sees p) : SameOn V (t.remove p) (u.remove p) := by
  intro q hq
  have hd := h.isDir hp
  unfold Tree.remove
  by_cases hc : t.isDir p = false
  · rw [dif_pos hc, dif_pos (by rw [← hd]; exact hc)]
    by_cases heq : q = p
    · rw [heq]
      simp only [Function.update_self]
    · simp only [Function.update_of_ne heq]
      exact h q hq
  · rw [dif_neg hc, dif_neg (by rw [← hd]; exact hc)]
    exact h q hq

lemma makeDir {ν β : Type} [DecidableEq ν] {V : View ν} {t u : Tree ν β} (h : SameOn V t u)
    {p : List ν} (hp : V.sees p) : SameOn V (t.makeDir p) (u.makeDir p) := by
  intro q hq
  cases p with
  | nil => exact h q hq
  | cons n r =>
    have hr := h.isDir (V.up n r hp)
    have hn := h (n :: r) hp
    unfold Tree.makeDir
    dsimp only
    by_cases hc : t.isDir r = true ∧ (t.node (n :: r)).isNone = true
    · rw [dif_pos hc, dif_pos (by rw [← hr, ← hn]; exact hc)]
      by_cases heq : q = n :: r
      · rw [heq]
        simp only [Function.update_self]
      · simp only [Function.update_of_ne heq]
        exact h q hq
    · rw [dif_neg hc, dif_neg (by rw [← hr, ← hn]; exact hc)]
      exact h q hq

lemma modifyAt {ν β : Type} [DecidableEq ν] {V : View ν} {t u : Tree ν β} (h : SameOn V t u)
    {p : List ν} (hp : V.sees p) (g : β → β) : SameOn V (t.modifyAt p g) (u.modifyAt p g) := by
  unfold Tree.modifyAt
  rw [h p hp]
  split
  · exact h.put hp _
  · exact h

lemma unlinkAt {ν β : Type} [DecidableEq ν] {V : View ν} {t u : Tree ν β} (h : SameOn V t u)
    {p : List ν} (hp : V.sees p) : Alike V (t.unlinkAt p) (u.unlinkAt p) := by
  unfold Tree.unlinkAt
  rw [h p hp]
  split
  · exact rfl
  · exact rfl
  · exact h.remove hp

lemma mkdirAt {ν β : Type} [DecidableEq ν] {V : View ν} {t u : Tree ν β} (h : SameOn V t u)
    {p : List ν} (hp : V.sees p) : Alike V (t.mkdirAt p) (u.mkdirAt p) := by
  unfold Tree.mkdirAt
  rw [h p hp]
  split
  · exact rfl
  · exact h.makeDir hp

lemma openAt {ν β : Type} [DecidableEq ν] {V : View ν} {t u : Tree ν β} (h : SameOn V t u)
    {p : List ν} (hp : V.sees p) (fresh : β) (truncate : β → β) :
    Alike V (t.openAt p fresh truncate) (u.openAt p fresh truncate) := by
  unfold Tree.openAt
  rw [h p hp]
  split
  · exact h.put hp _
  · exact rfl
  · exact h.put hp _

lemma renameAt {ν β : Type} [DecidableEq ν] {V : View ν} {t u : Tree ν β} (h : SameOn V t u)
    {p q : List ν} (hp : V.sees p) (hq : V.sees q) :
    Alike V (t.renameAt p q) (u.renameAt p q) := by
  unfold Tree.renameAt
  rw [h p hp, h q hq]
  split
  · exact rfl
  · exact rfl
  · split
    · exact rfl
    · split_ifs
      · exact h
      · exact (h.put hq _).remove hp

end SameOn

end OtaFetch.FileTree
