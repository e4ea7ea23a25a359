import Mathlib.Algebra.Order.Group.Multiset
import Mathlib.Tactic

/-!
# Blocks of memory

A heap hands out numbered blocks when its allocator grants them and takes them
back. Freeing a block that is not live is remembered as an error. The blocks that
a program owns are a multiset: a specification says which blocks it must be given
and which it leaves to its caller, and leaves all others alone.
-/
namespace OtaFetch.Memory

/-- `grant` decides whether an allocation succeeds, `next` counts them. -/
structure Heap where
  grant : ℕ → Bool
  next : ℕ
  live : Multiset ℕ
  bad : Bool

abbrev HeapM := StateM Heap

/-- `none` is the null pointer. -/
abbrev Block := Option ℕ

/-- What a pointer owns. -/
def owned : Block → Multiset ℕ
  | none => 0
  | some b => {b}

@[simp] lemma owned_none : owned none = 0 := rfl

@[simp] lemma owned_some (b : ℕ) : owned (some b) = {b} := rfl

def alloc : HeapM Block := fun h =>
  if h.grant h.next then (some h.next, { h with next := h.next + 1, live := h.next ::ₘ h.live })
  else (none, { h with next := h.next + 1 })

/-- Freeing the null pointer does nothing. -/
def free (p : Block) : HeapM Unit := fun h =>
  match p with
  | none => ((), h)
  | some b =>
    if b ∈ h.live then ((), { h with live := h.live.erase b }) else ((), { h with bad := true })

/-- Given the blocks `need`, the program ends with the blocks `give`. -/
def Owns {α : Type} (p : HeapM α) (need : Multiset ℕ) (give : α → Multiset ℕ) : Prop :=
  ∀ h rest, h.live = rest + need →
    (p h).2.live = rest + give (p h).1 ∧ (p h).2.bad = h.bad

namespace Owns

theorem pure {α : Type} {a : α} {need : Multiset ℕ} {give : α → Multiset ℕ} (h : need = give a) :
    Owns (Pure.pure a : HeapM α) need give := by
  intro s rest hs
  exact ⟨h ▸ hs, rfl⟩

theorem alloc : Owns Memory.alloc 0 owned := by
  intro h rest hs
  rw [add_zero] at hs
  unfold Memory.alloc
  split_ifs
  · refine ⟨?_, rfl⟩
    show h.next ::ₘ h.live = rest + {h.next}
    rw [hs, add_comm, Multiset.singleton_add]
  · exact ⟨by rw [owned_none, add_zero, hs], rfl⟩

theorem free (p : Block) : Owns (Memory.free p) (owned p) (fun _ => 0) := by
  intro h rest hs
  cases p with
  | none => exact ⟨hs, rfl⟩
  | some b =>
    have hlive : h.live = b ::ₘ rest := by
      rw [hs, owned_some, add_comm, Multiset.singleton_add]
    have hmem : b ∈ h.live := hlive ▸ Multiset.mem_cons_self b rest
    unfold Memory.free
    dsimp only
    rw [if_pos hmem]
    refine ⟨?_, rfl⟩
    rw [hlive, Multiset.erase_cons_head, add_zero]

/-- A program leaves other blocks alone. -/
theorem frame {α : Type} {p : HeapM α} {need : Multiset ℕ} {give : α → Multiset ℕ}
    (hp : Owns p need give) (other : Multiset ℕ) :
    Owns p (need + other) (fun a => give a + other) := by
  intro h rest hs
  obtain ⟨hlive, hbad⟩ := hp h (rest + other) (by rw [hs, add_comm need, add_assoc])
  exact ⟨by rw [hlive, add_assoc, add_comm other], hbad⟩

theorem mono {α : Type} {p : HeapM α} {need need' : Multiset ℕ} {give give' : α → Multiset ℕ}
    (hp : Owns p need give) (hneed : need' = need) (hgive : ∀ a, give a = give' a) :
    Owns p need' give' := by
  intro h rest hs
  obtain ⟨hlive, hbad⟩ := hp h rest (hneed ▸ hs)
  exact ⟨by rw [hlive, hgive], hbad⟩

theorem bind {α β : Type} {p : HeapM α} {f : α → HeapM β} {need : Multiset ℕ}
    {give : α → Multiset ℕ} {give' : β → Multiset ℕ} (hp : Owns p need give)
    (hf : ∀ a, Owns (f a) (give a) give') : Owns (p >>= f) need give' := by
  intro h rest hs
  obtain ⟨hlive, hbad⟩ := hp h rest hs
  obtain ⟨hlive', hbad'⟩ := hf (p h).1 (p h).2 rest hlive
  exact ⟨hlive', hbad'.trans hbad⟩

/-- A part of the blocks is used first. -/
theorem bindFrame {α β : Type} {p : HeapM α} {f : α → HeapM β} {need other all : Multiset ℕ}
    {give : α → Multiset ℕ} {give' : β → Multiset ℕ} (hp : Owns p need give)
    (hall : all = need + other) (hf : ∀ a, Owns (f a) (give a + other) give') :
    Owns (p >>= f) all give' := by
  subst hall
  exact (hp.frame other).bind hf

end Owns

/-- Every allocation is granted. -/
def Ample (h : Heap) : Prop := ∀ n, h.grant n = true

/-- What the program returns. With `full` the heap is known to grant everything. -/
def Returns {α : Type} (full : Prop) (p : HeapM α) (V : α → Prop) : Prop :=
  ∀ h, (full → Ample h) → V (p h).1 ∧ (full → Ample (p h).2)

namespace Returns

theorem pure {α : Type} {full : Prop} {a : α} {V : α → Prop} (h : V a) :
    Returns full (Pure.pure a : HeapM α) V := fun _ hs => ⟨h, hs⟩

theorem alloc (full : Prop) : Returns full Memory.alloc (fun r => r = none → ¬ full) := by
  intro h hs
  unfold Memory.alloc
  split_ifs with hgrant
  · exact ⟨by simp, hs⟩
  · exact ⟨fun _ hfull => hgrant (hs hfull h.next), hs⟩

theorem free (full : Prop) (p : Block) : Returns full (Memory.free p) (fun _ => True) := by
  intro h hs
  refine ⟨trivial, ?_⟩
  unfold Memory.free
  split
  · exact hs
  · split_ifs <;> exact hs

/-- Without that knowledge nothing is asked of the heap. -/
theorem short {α : Type} {full : Prop} (h : ¬ full) (p : HeapM α) :
    Returns full p (fun _ => True) := fun _ _ => ⟨trivial, fun hfull => absurd hfull h⟩

theorem mono {α : Type} {full : Prop} {p : HeapM α} {V W : α → Prop} (hp : Returns full p V)
    (h : ∀ a, V a → W a) : Returns full p W := fun s hs => ⟨h _ (hp s hs).1, (hp s hs).2⟩

theorem bind {α β : Type} {full : Prop} {p : HeapM α} {f : α → HeapM β} {V : α → Prop}
    {W : β → Prop} (hp : Returns full p V) (hf : ∀ a, V a → Returns full (f a) W) :
    Returns full (p >>= f) W := by
  intro h hs
  obtain ⟨hv, hample⟩ := hp h hs
  exact hf (p h).1 hv (p h).2 hample

end Returns

/-- Do the same for every element. -/
def each {β : Type} (f : β → HeapM Unit) : List β → HeapM Unit
  | [] => pure ()
  | b :: rest => do
    f b
    each f rest

theorem Owns.each {β : Type} {f : β → HeapM Unit} {own : β → Multiset ℕ}
    (hf : ∀ b, Owns (f b) (own b) (fun _ => 0)) (bs : List β) :
    Owns (Memory.each f bs) (bs.map own).sum (fun _ => 0) := by
  induction bs with
  | nil => exact Owns.pure rfl
  | cons b bs ih =>
    refine Owns.bindFrame (hf b) (by rw [List.map_cons, List.sum_cons]) (fun _ => ?_)
    exact ih.mono (zero_add _) (fun _ => rfl)

end OtaFetch.Memory
