import OtaFetch.Interaction

/-!
# Programs among other processes

A program shares its state with others, which take steps between its calls and
while one of its calls blocks. A call that no answer fits yet blocks. An outline
of a program says what holds at each of its calls and at its end, for every
interleaving with the others; a deterministic handler whose answers are among
those of the shared state inherits it.
-/
namespace OtaFetch.Interleave
open Interaction Relation

/-- The steps of the others, and the answers a call can get. -/
structure Shared (C : Type) (R : C → Type) (σ : Type) where
  other : σ → σ → Prop
  answer : σ → (c : C) → R c → σ → Prop

namespace Shared

/-- What the others can do meanwhile. -/
def Meanwhile {C : Type} {R : C → Type} {σ : Type} (S : Shared C R σ) : σ → σ → Prop :=
  ReflTransGen S.other

/-- A step of the whole: of the others, or of the program. -/
inductive Move {C : Type} {R : C → Type} {σ α : Type} (S : Shared C R σ) :
    Prog C R α × σ → Prog C R α × σ → Prop where
  | other (m : Prog C R α) (s s' : σ) (h : S.other s s') : Move S (m, s) (m, s')
  | call (c : C) (k : R c → Prog C R α) (r : R c) (s s' : σ) (h : S.answer s c r s') :
      Move S (.call c k, s) (k r, s')

/-- Some interleaving leads from the first configuration to the second. -/
def Reaches {C : Type} {R : C → Type} {σ α : Type} (S : Shared C R σ) :
    Prog C R α × σ → Prog C R α × σ → Prop :=
  ReflTransGen S.Move

/-- The others keep `I`. -/
def Stable {C : Type} {R : C → Type} {σ : Type} (S : Shared C R σ) (I : σ → Prop) : Prop :=
  ∀ s s', S.other s s' → I s → I s'

lemma Stable.meanwhile {C : Type} {R : C → Type} {σ : Type} {S : Shared C R σ} {I : σ → Prop}
    (h : S.Stable I) {s s' : σ} (hm : S.Meanwhile s s') (hs : I s) : I s' := by
  induction hm with
  | refl => exact hs
  | tail _ hstep ih => exact h _ _ hstep ih

end Shared

/-- However the others interleave, `A` holds whenever a call is made, and `Q`
once the program has returned. -/
def Outline {C : Type} {R : C → Type} {σ α : Type} (S : Shared C R σ) (A : σ → C → Prop)
    (Q : α → σ → Prop) : Prog C R α → σ → Prop
  | .ret a, s => ∀ s', S.Meanwhile s s' → Q a s'
  | .call c k, s => ∀ s', S.Meanwhile s s' →
      A s' c ∧ ∀ r s'', S.answer s' c r s'' → Outline S A Q (k r) s''

namespace Outline

theorem meanwhile {C : Type} {R : C → Type} {σ α : Type} {S : Shared C R σ} {A : σ → C → Prop}
    {Q : α → σ → Prop} {m : Prog C R α} {s s' : σ} (h : Outline S A Q m s)
    (hm : S.Meanwhile s s') : Outline S A Q m s' := by
  cases m with
  | ret a => exact fun s'' hm' => h s'' (hm.trans hm')
  | call c k => exact fun s'' hm' => h s'' (hm.trans hm')

theorem move {C : Type} {R : C → Type} {σ α : Type} {S : Shared C R σ} {A : σ → C → Prop}
    {Q : α → σ → Prop} {x y : Prog C R α × σ} (h : Outline S A Q x.1 x.2) (hm : S.Move x y) :
    Outline S A Q y.1 y.2 := by
  cases hm with
  | other m s s' hstep => exact h.meanwhile (.single hstep)
  | call c k r s s' hans => exact (h s .refl).2 r s' hans

/-- An outline holds of every configuration on the way. -/
theorem reaches {C : Type} {R : C → Type} {σ α : Type} {S : Shared C R σ} {A : σ → C → Prop}
    {Q : α → σ → Prop} {x y : Prog C R α × σ} (h : Outline S A Q x.1 x.2) (hr : S.Reaches x y) :
    Outline S A Q y.1 y.2 := by
  induction hr with
  | refl => exact h
  | tail _ hm ih => exact ih.move hm

theorem ret {C : Type} {R : C → Type} {σ α : Type} {S : Shared C R σ} {A : σ → C → Prop}
    {Q : α → σ → Prop} {a : α} {s : σ} (hQ : S.Stable (Q a)) (h : Q a s) :
    Outline S A Q (.ret a) s := fun _ hm => hQ.meanwhile hm h

theorem mono {C : Type} {R : C → Type} {σ α : Type} {S : Shared C R σ} {A : σ → C → Prop}
    {Q Q' : α → σ → Prop} {m : Prog C R α} {s : σ} (h : Outline S A Q m s)
    (hQ : ∀ a s, Q a s → Q' a s) : Outline S A Q' m s := by
  induction m generalizing s with
  | ret a => exact fun s' hm => hQ a s' (h s' hm)
  | call c k ih =>
    intro s' hm
    obtain ⟨hA, hk⟩ := h s' hm
    exact ⟨hA, fun r s'' hans => ih r (hk r s'' hans)⟩

/-- One call, made from any state that satisfies a stable `I`. -/
theorem call {C : Type} {R : C → Type} {σ α : Type} {S : Shared C R σ} {A : σ → C → Prop}
    {Q : α → σ → Prop} {I : σ → Prop} {c : C} {f : R c → Prog C R α} {s : σ} (hI : S.Stable I)
    (hs : I s) (hA : ∀ s', I s' → A s' c)
    (hf : ∀ s' r s'', I s' → S.answer s' c r s'' → Outline S A Q (f r) s'') :
    Outline S A Q (Prog.op c >>= f) s := by
  intro s' hm
  have hs' := hI.meanwhile hm hs
  refine ⟨hA s' hs', ?_⟩
  intro r s'' hans
  exact hf s' r s'' hs' hans

theorem bind {C : Type} {R : C → Type} {σ α β : Type} {S : Shared C R σ} {A : σ → C → Prop}
    {U : α → σ → Prop} {Q : β → σ → Prop} {m : Prog C R α} {f : α → Prog C R β} {s : σ}
    (hm : Outline S A U m s) (hf : ∀ a s', U a s' → Outline S A Q (f a) s') :
    Outline S A Q (m >>= f) s := by
  induction m generalizing s with
  | ret a => exact hf a s (hm s .refl)
  | call c k ih =>
    intro s' hother
    obtain ⟨hA, hk⟩ := hm s' hother
    exact ⟨hA, fun r s'' hans => ih r (hk r s'' hans)⟩

/-- A program whose calls all keep a stable `I` keeps it as a whole. -/
theorem of_obeys {C : Type} {R : C → Type} {σ α : Type} {S : Shared C R σ} {A : σ → C → Prop}
    {E : (c : C) → R c → Prop} {B : C → Prop} {V : α → Prop} {I : σ → Prop} {m : Prog C R α}
    {s : σ} (hm : Obeys E B V m) (hI : S.Stable I) (hs : I s) (hA : ∀ s c, I s → B c → A s c)
    (hans : ∀ s c r s', I s → B c → S.answer s c r s' → E c r ∧ I s') :
    Outline S A (fun a s => V a ∧ I s) m s := by
  induction m generalizing s with
  | ret a => exact fun s' hother => ⟨hm, hI.meanwhile hother hs⟩
  | call c k ih =>
    intro s' hother
    have hs' := hI.meanwhile hother hs
    refine ⟨hA s' c hs' hm.1, ?_⟩
    intro r s'' hanswer
    obtain ⟨hr, hs''⟩ := hans s' c r s'' hs' hm.1 hanswer
    exact ih r (hm.2 r hr) hs''

end Outline

/-- Each answer of the handler is one that the shared state can give, between
some steps of the others. -/
def Simulates {C : Type} {R : C → Type} {σ τ : Type} (h : Handler C R τ) (S : Shared C R σ)
    (rel : τ → σ → Prop) : Prop :=
  ∀ w s c, rel w s → ∃ s₁ s₂ s₃, S.Meanwhile s s₁ ∧ S.answer s₁ c (h w c).1 s₂ ∧
    S.Meanwhile s₂ s₃ ∧ rel (h w c).2 s₃

lemma Shared.reaches_of_meanwhile {C : Type} {R : C → Type} {σ α : Type} {S : Shared C R σ}
    {s s' : σ} (m : Prog C R α) (h : S.Meanwhile s s') : S.Reaches (m, s) (m, s') := by
  induction h with
  | refl => exact .refl
  | tail _ hstep ih => exact ih.tail (.other m _ _ hstep)

/-- A run of the handler is one of the interleavings. -/
theorem Simulates.reaches {C : Type} {R : C → Type} {σ τ α : Type} {h : Handler C R τ}
    {S : Shared C R σ} {rel : τ → σ → Prop} (hsim : Simulates h S rel) {m : Prog C R α} {s : σ}
    {w : τ} (hrel : rel w s) :
    Yields h w m (fun a t v =>
      (∀ x ∈ t, ∃ k s', rel x.before s' ∧ S.Reaches (m, s) (.call x.call k, s')) ∧
      ∃ s', rel v s' ∧ S.Reaches (m, s) (.ret a, s')) := by
  induction m generalizing s w with
  | ret a => exact Yields.ret ⟨by simp, s, hrel, .refl⟩
  | call c k ih =>
    obtain ⟨s₁, s₂, s₃, hbefore, hans, hafter, hrel'⟩ := hsim w s c hrel
    have hfirst : S.Reaches (.call c k, s) (k (h w c).1, s₃) :=
      ((S.reaches_of_meanwhile _ hbefore).tail (.call c k _ s₁ s₂ hans)).trans
        (S.reaches_of_meanwhile _ hafter)
    obtain ⟨hcalls, s', hfin, hend⟩ := ih (h w c).1 hrel'
    refine ⟨?_, s', hfin, hfirst.trans hend⟩
    intro x hx
    rcases List.mem_cons.mp hx with rfl | hx
    · exact ⟨k, s, hrel, .refl⟩
    · obtain ⟨k', s'', hx', hreach⟩ := hcalls x hx
      exact ⟨k', s'', hx', hfirst.trans hreach⟩

end OtaFetch.Interleave
