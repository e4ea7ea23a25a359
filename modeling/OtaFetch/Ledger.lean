import OtaFetch.Interaction
import OtaFetch.Memory

/-!
# Programs that own resources

A program is run together with a book of the resources it has acquired and not yet
released. Next to it stands a program without the book. That the two match says
that the book changes nothing of what is called and returned; how the book
changes is said in the same statement, by the resources a program must be given and
those it leaves.
-/
namespace OtaFetch.Ledger
open Interaction Memory

/-- The resources that are held. Using or releasing one that is not is remembered. -/
structure Book where
  next : ℕ
  live : Multiset ℕ
  bad : Bool

/-- A program that also writes the book. -/
abbrev Owner (C : Type) (R : C → Type) := StateT Book (Prog C R)

def acquire {C : Type} {R : C → Type} : Owner C R ℕ := fun l =>
  .ret (l.next, { l with next := l.next + 1, live := l.next ::ₘ l.live })

/-- Releasing the null pointer does nothing. -/
def release {C : Type} {R : C → Type} (p : Block) : Owner C R Unit := fun l =>
  match p with
  | none => .ret ((), l)
  | some b =>
    if b ∈ l.live then .ret ((), { l with live := l.live.erase b })
    else .ret ((), { l with bad := true })

/-- The null pointer cannot be used. -/
def use {C : Type} {R : C → Type} (p : Block) : Owner C R Unit := fun l =>
  match p with
  | none => .ret ((), { l with bad := true })
  | some b => if b ∈ l.live then .ret ((), l) else .ret ((), { l with bad := true })

def plain {C : Type} {R : C → Type} {α : Type} (m : Prog C R α) : Owner C R α := fun l => do
  let a ← m
  pure (a, l)

/-- The same calls, whatever the replies, and related results. -/
inductive Matches {C : Type} {R : C → Type} {α β : Type} (rel : α → β → Prop) :
    Prog C R α → Prog C R β → Prop where
  | ret {a : α} {b : β} (h : rel a b) : Matches rel (.ret a) (.ret b)
  | call (c : C) {k : R c → Prog C R α} {k' : R c → Prog C R β}
      (h : ∀ r, Matches rel (k r) (k' r)) : Matches rel (.call c k) (.call c k')

namespace Matches

theorem mono {C : Type} {R : C → Type} {α β : Type} {rel rel' : α → β → Prop} {p : Prog C R α}
    {q : Prog C R β} (h : Matches rel p q) (hrel : ∀ a b, rel a b → rel' a b) :
    Matches rel' p q := by
  induction h with
  | ret h => exact .ret (hrel _ _ h)
  | call c _ ih => exact .call c ih

theorem bind {C : Type} {R : C → Type} {α β α' β' : Type} {rel : α → β → Prop}
    {rel' : α' → β' → Prop} {p : Prog C R α} {q : Prog C R β} {f : α → Prog C R α'}
    {g : β → Prog C R β'} (h : Matches rel p q)
    (hfg : ∀ a b, rel a b → Matches rel' (f a) (g b)) : Matches rel' (p >>= f) (q >>= g) := by
  induction h with
  | ret h => exact hfg _ _ h
  | call c _ ih => exact .call c ih

/-- What makes no call can follow on one side alone. -/
theorem after {C : Type} {R : C → Type} {α β α' : Type} {rel : α → β → Prop}
    {rel' : α' → β → Prop} {p : Prog C R α} {q : Prog C R β} {f : α → Prog C R α'}
    (h : Matches rel p q) (hf : ∀ a b, rel a b → Matches rel' (f a) (.ret b)) :
    Matches rel' (p >>= f) q := by
  induction h with
  | ret h => exact hf _ _ h
  | call c _ ih => exact .call c ih

/-- Programs that match are told apart by nothing but their results. -/
theorem run {C : Type} {R : C → Type} {σ α β : Type} {rel : α → β → Prop} {p : Prog C R α}
    {q : Prog C R β} (h : Matches rel p q) (hd : Handler C R σ) (s : σ) :
    (run hd p s).trace = (run hd q s).trace ∧ (run hd p s).final = (run hd q s).final ∧
      rel (run hd p s).value (run hd q s).value := by
  induction h generalizing s with
  | ret h => exact ⟨rfl, rfl, h⟩
  | call c _ ih =>
    obtain ⟨htrace, hfinal, hvalue⟩ := ih (hd s c).1 (hd s c).2
    rw [run_call, run_call]
    exact ⟨by rw [htrace], hfinal, hvalue⟩

end Matches

/-- Given the resources `need`, the program does what `q` does and ends with the
resources `give`. -/
def Keeps {C : Type} {R : C → Type} {α β : Type} (p : Owner C R α) (q : Prog C R β)
    (need : Multiset ℕ) (rel : α → β → Prop) (give : α → Multiset ℕ) : Prop :=
  ∀ l rest, l.live = rest + need →
    Matches (fun x b => rel x.1 b ∧ x.2.live = rest + give x.1 ∧ x.2.bad = l.bad) (p l) q

namespace Keeps

theorem ret {C : Type} {R : C → Type} {α β : Type} {a : α} {b : β} {need : Multiset ℕ}
    {rel : α → β → Prop} {give : α → Multiset ℕ} (h : rel a b) (hgive : need = give a) :
    Keeps (pure a : Owner C R α) (.ret b) need rel give := by
  intro l rest hl
  exact .ret ⟨h, hgive ▸ hl, rfl⟩

theorem mono {C : Type} {R : C → Type} {α β : Type} {p : Owner C R α} {q : Prog C R β}
    {need : Multiset ℕ} {rel rel' : α → β → Prop} {give give' : α → Multiset ℕ}
    (h : Keeps p q need rel give) (hrel : ∀ a b, rel a b → rel' a b ∧ give a = give' a) :
    Keeps p q need rel' give' := by
  intro l rest hl
  refine (h l rest hl).mono ?_
  rintro x b ⟨hx, hlive, hbad⟩
  obtain ⟨hx', hgive⟩ := hrel x.1 b hx
  exact ⟨hx', hgive ▸ hlive, hbad⟩

theorem bind {C : Type} {R : C → Type} {α β α' β' : Type} {p : Owner C R α} {q : Prog C R β}
    {f : α → Owner C R α'} {g : β → Prog C R β'} {need : Multiset ℕ} {rel : α → β → Prop}
    {rel' : α' → β' → Prop} {give : α → Multiset ℕ} {give' : α' → Multiset ℕ}
    (hp : Keeps p q need rel give)
    (hf : ∀ a b, rel a b → Keeps (f a) (g b) (give a) rel' give') :
    Keeps (p >>= f) (q >>= g) need rel' give' := by
  intro l rest hl
  refine Matches.bind (hp l rest hl) ?_
  rintro ⟨a, l'⟩ b ⟨hrel, hlive, hbad⟩
  dsimp only at hlive hbad
  have hnext := hf a b hrel l' rest hlive
  rw [hbad] at hnext
  exact hnext

theorem after {C : Type} {R : C → Type} {α β α' : Type} {p : Owner C R α} {q : Prog C R β}
    {f : α → Owner C R α'} {need : Multiset ℕ} {rel : α → β → Prop} {rel' : α' → β → Prop}
    {give : α → Multiset ℕ} {give' : α' → Multiset ℕ} (hp : Keeps p q need rel give)
    (hf : ∀ a b, rel a b → Keeps (f a) (.ret b) (give a) rel' give') :
    Keeps (p >>= f) q need rel' give' := by
  intro l rest hl
  refine Matches.after (hp l rest hl) ?_
  rintro ⟨a, l'⟩ b ⟨hrel, hlive, hbad⟩
  dsimp only at hlive hbad
  have hnext := hf a b hrel l' rest hlive
  rw [hbad] at hnext
  exact hnext

/-- Other resources are left alone. -/
theorem frame {C : Type} {R : C → Type} {α β : Type} {p : Owner C R α} {q : Prog C R β}
    {need : Multiset ℕ} {rel : α → β → Prop} {give : α → Multiset ℕ}
    (hp : Keeps p q need rel give) (other : Multiset ℕ) :
    Keeps p q (need + other) rel (fun a => give a + other) := by
  intro l rest hl
  refine (hp l (rest + other) (by rw [hl, add_comm need, add_assoc])).mono ?_
  rintro x b ⟨hrel, hlive, hbad⟩
  exact ⟨hrel, by rw [hlive, add_assoc, add_comm other], hbad⟩

/-- Part of the resources is used first; the rest is kept for later. -/
theorem bindFrame {C : Type} {R : C → Type} {α β α' β' : Type} {p : Owner C R α}
    {q : Prog C R β} {f : α → Owner C R α'} {g : β → Prog C R β'} {need other all : Multiset ℕ}
    {rel : α → β → Prop} {rel' : α' → β' → Prop} {give : α → Multiset ℕ}
    {give' : α' → Multiset ℕ} (hp : Keeps p q need rel give) (hall : all = need + other)
    (hf : ∀ a b, rel a b → Keeps (f a) (g b) (give a + other) rel' give') :
    Keeps (p >>= f) (q >>= g) all rel' give' := by
  subst hall
  exact (hp.frame other).bind hf

/-- A program that does not write the book. -/
theorem plain {C : Type} {R : C → Type} {α : Type} (m : Prog C R α) (held : Multiset ℕ) :
    Keeps (Ledger.plain m) m held (· = ·) (fun _ => held) := by
  intro l rest hl
  unfold Ledger.plain
  induction m with
  | ret a => exact .ret ⟨rfl, hl, rfl⟩
  | call c k ih => exact .call c ih

theorem step {C : Type} {R : C → Type} {α α' β : Type} (m : Prog C R α) {f : α → Owner C R α'}
    {g : α → Prog C R β} {held : Multiset ℕ} {rel : α' → β → Prop} {give : α' → Multiset ℕ}
    (hf : ∀ a, Keeps (f a) (g a) held rel give) :
    Keeps (Ledger.plain m >>= f) (m >>= g) held rel give := by
  refine bind (plain m held) ?_
  rintro a b rfl
  exact hf a

/-- What only writes the book stands next to nothing. -/
theorem quiet {C : Type} {R : C → Type} {α α' β : Type} {p : Owner C R α} {f : α → Owner C R α'}
    {q : Prog C R β} {need other all : Multiset ℕ} {rel : α' → β → Prop} {give : α → Multiset ℕ}
    {give' : α' → Multiset ℕ} (hp : Keeps p (.ret ()) need (fun _ _ => True) give)
    (hall : all = need + other) (hf : ∀ a, Keeps (f a) q (give a + other) rel give') :
    Keeps (p >>= f) q all rel give' :=
  bindFrame (g := fun _ => q) hp hall (fun a _ _ => hf a)

theorem acquire {C : Type} {R : C → Type} {α β : Type} {f : ℕ → Owner C R α} {q : Prog C R β}
    {held : Multiset ℕ} {rel : α → β → Prop} {give : α → Multiset ℕ}
    (hf : ∀ b, Keeps (f b) q ({b} + held) rel give) :
    Keeps (Ledger.acquire >>= f) q held rel give := by
  have hone : Keeps (Ledger.acquire : Owner C R ℕ) (.ret ()) 0 (fun _ _ => True)
      (fun b => {b}) := by
    intro l rest hl
    refine .ret ⟨trivial, ?_, rfl⟩
    show l.next ::ₘ l.live = rest + {l.next}
    rw [hl, add_zero, add_comm, Multiset.singleton_add]
  exact quiet hone (zero_add held).symm hf

theorem releaseOnly {C : Type} {R : C → Type} (p : Block) :
    Keeps (Ledger.release p : Owner C R Unit) (.ret ()) (owned p) (fun _ _ => True)
      (fun _ => 0) := by
  intro l rest hl
  cases p with
  | none => exact .ret ⟨trivial, hl, rfl⟩
  | some b =>
    have hlive : l.live = b ::ₘ rest := by
      rw [hl, owned_some, add_comm, Multiset.singleton_add]
    have hmem : b ∈ l.live := hlive ▸ Multiset.mem_cons_self b rest
    unfold Ledger.release
    dsimp only
    rw [if_pos hmem]
    refine .ret ⟨trivial, ?_, rfl⟩
    show l.live.erase b = rest + 0
    rw [hlive, Multiset.erase_cons_head, add_zero]

theorem release {C : Type} {R : C → Type} {α β : Type} (p : Block) {f : Unit → Owner C R α}
    {q : Prog C R β} {all other : Multiset ℕ} {rel : α → β → Prop} {give : α → Multiset ℕ}
    (hall : all = owned p + other) (hf : Keeps (f ()) q other rel give) :
    Keeps (Ledger.release p >>= f) q all rel give := by
  refine quiet (releaseOnly p) hall (fun _ => ?_)
  rw [zero_add]
  exact hf

theorem use {C : Type} {R : C → Type} {α β : Type} {b : ℕ} {f : Unit → Owner C R α}
    {q : Prog C R β} {held : Multiset ℕ} {rel : α → β → Prop} {give : α → Multiset ℕ}
    (hb : b ∈ held) (hf : Keeps (f ()) q held rel give) :
    Keeps (Ledger.use (some b) >>= f) q held rel give := by
  intro l rest hl
  have hmem : b ∈ l.live := by
    rw [hl]
    exact Multiset.mem_add.mpr (.inr hb)
  have huse : (Ledger.use (some b) : Owner C R Unit) l = .ret ((), l) := by
    unfold Ledger.use
    dsimp only
    rw [if_pos hmem]
  show Matches _ ((Ledger.use (some b) : Owner C R Unit) l >>= fun x => f x.1 x.2) q
  rw [huse]
  exact hf l rest hl

end Keeps

end OtaFetch.Ledger
