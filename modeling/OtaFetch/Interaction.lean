import Mathlib.Logic.Relation

/-!
# Programs that call out to an environment

A program is a finite tree of calls: each node names a call and continues with
any reply. A handler answers calls from a state, and a run records every call
with the state before and after it, so that a statement about a trace is a
statement about every intermediate state and not only about the last one.
-/
namespace OtaFetch.Interaction

/-- A program over calls `C` whose call `c` is answered in `R c`. -/
inductive Prog (C : Type) (R : C → Type) (α : Type) where
  | ret (a : α)
  | call (c : C) (k : R c → Prog C R α)

namespace Prog

def bind {C : Type} {R : C → Type} {α β : Type} :
    Prog C R α → (α → Prog C R β) → Prog C R β
  | .ret a, f => f a
  | .call c k, f => .call c (fun r => (k r).bind f)

instance {C : Type} {R : C → Type} : Monad (Prog C R) where
  pure := .ret
  bind := bind

/-- The program that makes one call and returns its reply. -/
def op {C : Type} {R : C → Type} (c : C) : Prog C R (R c) := .call c .ret

@[simp] theorem pure_eq_ret {C : Type} {R : C → Type} {α : Type} (a : α) :
    (pure a : Prog C R α) = .ret a := rfl

@[simp] theorem ret_bind {C : Type} {R : C → Type} {α β : Type} (a : α)
    (f : α → Prog C R β) : (Prog.ret a >>= f) = f a := rfl

@[simp] theorem call_bind {C : Type} {R : C → Type} {α β : Type} (c : C)
    (k : R c → Prog C R α) (f : α → Prog C R β) :
    (Prog.call c k >>= f) = .call c (fun r => k r >>= f) := rfl

theorem bind_assoc {C : Type} {R : C → Type} {α β γ : Type} (m : Prog C R α)
    (f : α → Prog C R β) (g : β → Prog C R γ) :
    ((m >>= f) >>= g) = (m >>= fun a => f a >>= g) := by
  induction m with
  | ret a => rfl
  | call c k ih =>
    rw [call_bind, call_bind, call_bind]
    exact congrArg (Prog.call c) (funext ih)

end Prog

/-- One call of a run, with the states around it. -/
structure Step (C : Type) (R : C → Type) (σ : Type) where
  before : σ
  call : C
  reply : R call
  after : σ

/-- A call together with its reply. -/
def Step.event {C : Type} {R : C → Type} {σ : Type} (s : Step C R σ) : Σ c, R c :=
  ⟨s.call, s.reply⟩

/-- How an environment answers a call and moves on. -/
abbrev Handler (C : Type) (R : C → Type) (σ : Type) := σ → (c : C) → R c × σ

/-- What a run leaves behind. -/
structure Outcome (C : Type) (R : C → Type) (σ α : Type) where
  value : α
  trace : List (Step C R σ)
  final : σ

def run {C : Type} {R : C → Type} {σ α : Type} (h : Handler C R σ) :
    Prog C R α → σ → Outcome C R σ α
  | .ret a, w => ⟨a, [], w⟩
  | .call c k, w =>
    let a := h w c
    let rest := run h (k a.1) a.2
    ⟨rest.value, ⟨w, c, a.1, a.2⟩ :: rest.trace, rest.final⟩

@[simp] theorem run_ret {C : Type} {R : C → Type} {σ α : Type} (h : Handler C R σ)
    (a : α) (w : σ) : run h (.ret a : Prog C R α) w = ⟨a, [], w⟩ := rfl

theorem run_call {C : Type} {R : C → Type} {σ α : Type} (h : Handler C R σ) (c : C)
    (k : R c → Prog C R α) (w : σ) :
    run h (.call c k) w =
      ⟨(run h (k (h w c).1) (h w c).2).value,
        ⟨w, c, (h w c).1, (h w c).2⟩ :: (run h (k (h w c).1) (h w c).2).trace,
        (run h (k (h w c).1) (h w c).2).final⟩ := rfl

theorem run_bind {C : Type} {R : C → Type} {σ α β : Type} (h : Handler C R σ)
    (m : Prog C R α) (f : α → Prog C R β) (w : σ) :
    run h (m >>= f) w =
      ⟨(run h (f (run h m w).value) (run h m w).final).value,
        (run h m w).trace ++ (run h (f (run h m w).value) (run h m w).final).trace,
        (run h (f (run h m w).value) (run h m w).final).final⟩ := by
  induction m generalizing w with
  | ret a => rfl
  | call c k ih =>
    rw [Prog.call_bind, run_call, run_call]
    simp only [ih, List.cons_append]

/-- As long as the replies keep to `E`, every call keeps to `A`, and so does the
value to `V`. This speaks about the program alone, not about a state. -/
def Obeys {C : Type} {R : C → Type} {α : Type} (E : (c : C) → R c → Prop) (A : C → Prop)
    (V : α → Prop) : Prog C R α → Prop
  | .ret a => V a
  | .call c k => A c ∧ ∀ r, E c r → Obeys E A V (k r)

namespace Obeys

theorem ret {C : Type} {R : C → Type} {α : Type} {E : (c : C) → R c → Prop} {A : C → Prop}
    {V : α → Prop} {a : α} (h : V a) : Obeys E A V (.ret a : Prog C R α) := h

theorem op {C : Type} {R : C → Type} {E : (c : C) → R c → Prop} {A : C → Prop} {c : C}
    {V : R c → Prop} (h : A c) (hv : ∀ r, E c r → V r) :
    Obeys E A V (Prog.op c : Prog C R (R c)) := ⟨h, hv⟩

theorem call {C : Type} {R : C → Type} {α : Type} {E : (c : C) → R c → Prop} {A : C → Prop}
    {V : α → Prop} {c : C} {f : R c → Prog C R α} (h : A c)
    (hf : ∀ r, E c r → Obeys E A V (f r)) : Obeys E A V (Prog.op c >>= f) := ⟨h, hf⟩

theorem bind {C : Type} {R : C → Type} {α β : Type} {E : (c : C) → R c → Prop} {A : C → Prop}
    {U : α → Prop} {V : β → Prop} {m : Prog C R α} {f : α → Prog C R β}
    (hm : Obeys E A U m) (hf : ∀ a, U a → Obeys E A V (f a)) : Obeys E A V (m >>= f) := by
  induction m with
  | ret a => exact hf a hm
  | call c k ih => exact ⟨hm.1, fun r hr => ih r (hm.2 r hr)⟩

theorem mono {C : Type} {R : C → Type} {α : Type} {E E' : (c : C) → R c → Prop}
    {A A' : C → Prop} {V V' : α → Prop} {m : Prog C R α} (hm : Obeys E A V m)
    (he : ∀ c r, E' c r → E c r) (ha : ∀ c, A c → A' c) (hv : ∀ a, V a → V' a) :
    Obeys E' A' V' m := by
  induction m with
  | ret a => exact hv a hm
  | call c k ih => exact ⟨ha c hm.1, fun r hr => ih r (hm.2 r (he c r hr))⟩

/-- What a run makes of it: assumptions on the replies of the trace give the
guarantee on its calls and on the value. -/
theorem trace {C : Type} {R : C → Type} {σ α : Type} {E : (c : C) → R c → Prop}
    {A : C → Prop} {V : α → Prop} {m : Prog C R α} (h : Handler C R σ) (hm : Obeys E A V m)
    (w : σ) (he : ∀ s ∈ (run h m w).trace, E s.call s.reply) :
    (∀ s ∈ (run h m w).trace, A s.call) ∧ V (run h m w).value := by
  induction m generalizing w with
  | ret a => exact ⟨by simp, hm⟩
  | call c k ih =>
    have hfirst := he ⟨w, c, (h w c).1, (h w c).2⟩ (List.mem_cons_self ..)
    obtain ⟨hcalls, hvalue⟩ := ih _ (hm.2 _ hfirst) (h w c).2
      (fun s hs => he s (List.mem_cons_of_mem _ hs))
    refine ⟨?_, hvalue⟩
    intro s hs
    rcases List.mem_cons.mp hs with rfl | hs
    · exact hm.1
    · exact hcalls s hs

end Obeys

/-- `t` is a sequence of answers of the handler that leads from `w` to `w'`. -/
def Chain {C : Type} {R : C → Type} {σ : Type} (h : Handler C R σ) :
    σ → List (Step C R σ) → σ → Prop
  | w, [], w' => w = w'
  | w, s :: t, w' => s.before = w ∧ (s.reply, s.after) = h w s.call ∧ Chain h s.after t w'

theorem run_chain {C : Type} {R : C → Type} {σ α : Type} (h : Handler C R σ)
    (m : Prog C R α) (w : σ) : Chain h w (run h m w).trace (run h m w).final := by
  induction m generalizing w with
  | ret a => rfl
  | call c k ih => exact ⟨rfl, rfl, ih _ _⟩

namespace Chain

theorem append_iff {C : Type} {R : C → Type} {σ : Type} {h : Handler C R σ}
    {w w' : σ} {t u : List (Step C R σ)} :
    Chain h w (t ++ u) w' ↔ ∃ v, Chain h w t v ∧ Chain h v u w' := by
  induction t generalizing w with
  | nil => simp [Chain]
  | cons s t ih =>
    simp only [List.cons_append, Chain, ih]
    constructor
    · rintro ⟨hb, ha, v, ht, hu⟩
      exact ⟨v, ⟨hb, ha, ht⟩, hu⟩
    · rintro ⟨v, ⟨hb, ha, ht⟩, hu⟩
      exact ⟨hb, ha, v, ht, hu⟩

/-- Around a step of the trace: what leads to it, its answer, and what follows. -/
theorem split {C : Type} {R : C → Type} {σ : Type} {h : Handler C R σ} {w w' : σ}
    {t u : List (Step C R σ)} {s : Step C R σ} (hc : Chain h w (t ++ s :: u) w') :
    Chain h w t s.before ∧ (s.reply, s.after) = h s.before s.call ∧ Chain h s.after u w' := by
  obtain ⟨v, ht, hb, ha, hu⟩ := append_iff.mp hc
  subst hb
  exact ⟨ht, ha, hu⟩

theorem answer {C : Type} {R : C → Type} {σ : Type} {h : Handler C R σ} {w w' : σ}
    {t : List (Step C R σ)} (hc : Chain h w t w') {s : Step C R σ} (hs : s ∈ t) :
    (s.reply, s.after) = h s.before s.call := by
  obtain ⟨pre, post, rfl⟩ := List.append_of_mem hs
  exact hc.split.2.1

/-- A preorder kept by every step relates the start to every state on the way. -/
theorem rel {C : Type} {R : C → Type} {σ : Type} {h : Handler C R σ} {w w' : σ}
    {t : List (Step C R σ)} (hc : Chain h w t w') (r : σ → σ → Prop) (hrefl : ∀ a, r a a)
    (htrans : ∀ a b c, r a b → r b c → r a c) (hs : ∀ s ∈ t, r s.before s.after) :
    r w w' ∧ ∀ s ∈ t, r w s.before ∧ r w s.after := by
  induction t generalizing w with
  | nil =>
    obtain rfl : w = w' := hc
    exact ⟨hrefl w, by simp⟩
  | cons s t ih =>
    obtain ⟨rfl, -, ht⟩ := hc
    have hfirst := hs s (List.mem_cons_self ..)
    obtain ⟨hfin, hrest⟩ := ih ht (fun s' hmem => hs s' (List.mem_cons_of_mem _ hmem))
    refine ⟨htrans _ _ _ hfirst hfin, ?_⟩
    intro s' hmem
    rcases List.mem_cons.mp hmem with rfl | hmem
    · exact ⟨hrefl _, hfirst⟩
    · exact ⟨htrans _ _ _ hfirst (hrest s' hmem).1, htrans _ _ _ hfirst (hrest s' hmem).2⟩

/-- An observation that ends up different was changed by some step, and the
last such step left it as it ended. -/
theorem changed {C : Type} {R : C → Type} {σ β : Type} {h : Handler C R σ} {w w' : σ}
    {t : List (Step C R σ)} (hc : Chain h w t w') (f : σ → β) (hne : f w' ≠ f w) :
    ∃ pre s post, t = pre ++ s :: post ∧ f s.before ≠ f s.after ∧ f s.after = f w' := by
  induction t generalizing w with
  | nil => exact absurd (congrArg f (id hc : w = w').symm) hne
  | cons s t ih =>
    obtain ⟨rfl, -, ht⟩ := hc
    by_cases hlater : f w' = f s.after
    · exact ⟨[], s, t, rfl, fun he => hne (hlater.trans he.symm), hlater.symm⟩
    · obtain ⟨pre, s', post, rfl, hs'⟩ := ih ht hlater
      exact ⟨s :: pre, s', post, rfl, hs'⟩

end Chain

/-- An element of a concatenation lies in its first part or in its second. -/
theorem append_split {α : Type} {t u pre post : List α} {s : α}
    (h : t ++ u = pre ++ s :: post) :
    (∃ post', t = pre ++ s :: post' ∧ post = post' ++ u) ∨
      ∃ pre', pre = t ++ pre' ∧ u = pre' ++ s :: post := by
  rcases List.append_eq_append_iff.mp h with ⟨a, ha, hrest⟩ | ⟨a, ha, hrest⟩
  · exact .inr ⟨a, ha, hrest⟩
  · cases a with
    | nil => exact .inr ⟨[], by simpa using ha.symm, by simpa using hrest.symm⟩
    | cons x xs =>
      obtain ⟨rfl, hpost⟩ := List.cons_eq_cons.mp hrest
      exact .inl ⟨xs, ha, hpost⟩

theorem forall_mem_concat {α : Type} {p : α → Prop} {t : List α} {s : α}
    (ht : ∀ x ∈ t, p x) (hs : p s) : ∀ x ∈ t ++ [s], p x :=
  List.forall_mem_append.mpr ⟨ht, List.forall_mem_singleton.mpr hs⟩

/-- A step of a sequence lies in its first part or in its second. -/
theorem run_bind_split {C : Type} {R : C → Type} {σ α β : Type} {h : Handler C R σ}
    {m : Prog C R α} {f : α → Prog C R β} {w : σ} {pre post : List (Step C R σ)}
    {s : Step C R σ} (ht : (run h (m >>= f) w).trace = pre ++ s :: post) :
    (∃ post', (run h m w).trace = pre ++ s :: post' ∧
      post = post' ++ (run h (f (run h m w).value) (run h m w).final).trace) ∨
    ∃ pre', pre = (run h m w).trace ++ pre' ∧
      (run h (f (run h m w).value) (run h m w).final).trace = pre' ++ s :: post := by
  rw [run_bind] at ht
  exact append_split ht

/-- The run of `m` from `w` ends with a value, a trace and a state related by
`Q`. Programs are finite trees, so a run always ends. -/
def Yields {C : Type} {R : C → Type} {σ α : Type} (h : Handler C R σ) (w : σ)
    (m : Prog C R α) (Q : α → List (Step C R σ) → σ → Prop) : Prop :=
  Q (run h m w).value (run h m w).trace (run h m w).final

namespace Yields

theorem ret {C : Type} {R : C → Type} {σ α : Type} {h : Handler C R σ} {w : σ} {a : α}
    {Q : α → List (Step C R σ) → σ → Prop} (hq : Q a [] w) : Yields h w (.ret a) Q := hq

theorem mono {C : Type} {R : C → Type} {σ α : Type} {h : Handler C R σ} {w : σ}
    {m : Prog C R α} {Q Q' : α → List (Step C R σ) → σ → Prop} (hm : Yields h w m Q)
    (hq : ∀ a t v, Q a t v → Q' a t v) : Yields h w m Q' := hq _ _ _ hm

theorem and {C : Type} {R : C → Type} {σ α : Type} {h : Handler C R σ} {w : σ}
    {m : Prog C R α} {Q Q' : α → List (Step C R σ) → σ → Prop} (hq : Yields h w m Q)
    (hq' : Yields h w m Q') : Yields h w m (fun a t v => Q a t v ∧ Q' a t v) := ⟨hq, hq'⟩

theorem op {C : Type} {R : C → Type} {σ : Type} {h : Handler C R σ} {w : σ} {c : C}
    {Q : R c → List (Step C R σ) → σ → Prop}
    (hq : ∀ r v, h w c = (r, v) → Q r [⟨w, c, r, v⟩] v) : Yields h w (Prog.op c) Q := hq _ _ rfl

/-- One call is answered by the handler and recorded with the states around it. -/
theorem call {C : Type} {R : C → Type} {σ α : Type} {h : Handler C R σ} {w : σ} {c : C}
    {f : R c → Prog C R α} {Q : α → List (Step C R σ) → σ → Prop}
    (hf : ∀ r v, h w c = (r, v) →
      Yields h v (f r) (fun a t u => Q a (⟨w, c, r, v⟩ :: t) u)) :
    Yields h w (Prog.op c >>= f) Q := hf _ _ rfl

/-- The trace of a sequence is the concatenation of the traces of its parts. -/
theorem bind {C : Type} {R : C → Type} {σ α β : Type} {h : Handler C R σ} {w : σ}
    {m : Prog C R α} {f : α → Prog C R β} {Q : β → List (Step C R σ) → σ → Prop}
    (M : α → List (Step C R σ) → σ → Prop) (hm : Yields h w m M)
    (hf : ∀ a t v, M a t v → Chain h w t v →
      Yields h v (f a) (fun b t' u => Q b (t ++ t') u)) :
    Yields h w (m >>= f) Q := by
  rw [Yields, run_bind]
  exact hf _ _ _ hm (run_chain h m w)

/-- A sequence whose first part is known to return `a`. -/
theorem bind_value {C : Type} {R : C → Type} {σ α β : Type} {h : Handler C R σ} {w : σ}
    {m : Prog C R α} {f : α → Prog C R β} {Q : β → List (Step C R σ) → σ → Prop} {a : α}
    (hv : (run h m w).value = a)
    (hf : Yields h (run h m w).final (f a) (fun b t v => Q b ((run h m w).trace ++ t) v)) :
    Yields h w (m >>= f) Q := by
  subst hv
  rw [Yields, run_bind]
  exact hf

/-- A sequence after the trace `u`: the run of the first part joins `u`. -/
theorem seq {C : Type} {R : C → Type} {σ α β : Type} {h : Handler C R σ} {w : σ}
    {m : Prog C R α} {f : α → Prog C R β} {Q : β → List (Step C R σ) → σ → Prop}
    {u : List (Step C R σ)}
    (hf : Yields h (run h m w).final (f (run h m w).value)
      (fun b t v => Q b (u ++ (run h m w).trace ++ t) v)) :
    Yields h w (m >>= f) (fun b t v => Q b (u ++ t) v) := by
  rw [Yields, run_bind, ← List.append_assoc]
  exact hf

/-- A sequence after the trace `u`, with a specification of the first part. -/
theorem seq_bind {C : Type} {R : C → Type} {σ α β : Type} {h : Handler C R σ} {w : σ}
    {m : Prog C R α} {f : α → Prog C R β} {Q : β → List (Step C R σ) → σ → Prop}
    {u : List (Step C R σ)} (M : α → List (Step C R σ) → σ → Prop) (hm : Yields h w m M)
    (hf : ∀ a t v, M a t v → Chain h w t v →
      Yields h v (f a) (fun b t' x => Q b (u ++ t ++ t') x)) :
    Yields h w (m >>= f) (fun b t v => Q b (u ++ t) v) :=
  seq (hf _ _ _ hm (run_chain h m w))

theorem seq_call {C : Type} {R : C → Type} {σ α : Type} {h : Handler C R σ} {w : σ} {c : C}
    {f : R c → Prog C R α} {Q : α → List (Step C R σ) → σ → Prop} {u : List (Step C R σ)}
    (hf : ∀ r v, h w c = (r, v) →
      Yields h v (f r) (fun a t x => Q a (u ++ [⟨w, c, r, v⟩] ++ t) x)) :
    Yields h w (Prog.op c >>= f) (fun a t x => Q a (u ++ t) x) := by
  refine call ?_
  intro r v hx
  have hy := hf r v hx
  simpa only [List.append_assoc, List.singleton_append] using hy

theorem seq_ret {C : Type} {R : C → Type} {σ α : Type} {h : Handler C R σ} {w : σ} {a : α}
    {Q : α → List (Step C R σ) → σ → Prop} {u : List (Step C R σ)} (hq : Q a u w) :
    Yields h w (.ret a) (fun b t v => Q b (u ++ t) v) := by
  rw [Yields, run_ret, List.append_nil]
  exact hq

/-- What the program obeys, and what every reply of the handler keeps to. -/
theorem of_obeys {C : Type} {R : C → Type} {σ α : Type} {h : Handler C R σ} {w : σ}
    {m : Prog C R α} {E : (c : C) → R c → Prop} {A : C → Prop} {V : α → Prop}
    (hm : Obeys E A V m) (he : ∀ u c, E c (h u c).1) :
    Yields h w m (fun a t _ => V a ∧ ∀ s ∈ t, A s.call) := by
  have hall : ∀ s ∈ (run h m w).trace, E s.call s.reply := by
    intro s hs
    have ha := he s.before s.call
    rwa [← (run_chain h m w).answer hs] at ha
  exact (hm.trace h w hall).symm

end Yields

/-- The same, provided that every step of the run satisfies `G`. -/
def Granted {C : Type} {R : C → Type} {σ α : Type} (h : Handler C R σ)
    (G : Step C R σ → Prop) (w : σ) (m : Prog C R α)
    (Q : α → List (Step C R σ) → σ → Prop) : Prop :=
  Yields h w m (fun a t v => (∀ s ∈ t, G s) → Q a t v)

namespace Granted

theorem ret {C : Type} {R : C → Type} {σ α : Type} {h : Handler C R σ} {G : Step C R σ → Prop}
    {w : σ} {a : α} {Q : α → List (Step C R σ) → σ → Prop} (hq : Q a [] w) :
    Granted h G w (.ret a) Q := fun _ => hq

theorem mono {C : Type} {R : C → Type} {σ α : Type} {h : Handler C R σ} {G : Step C R σ → Prop}
    {w : σ} {m : Prog C R α} {Q Q' : α → List (Step C R σ) → σ → Prop} (hm : Granted h G w m Q)
    (hq : ∀ a t v, (∀ s ∈ t, G s) → Q a t v → Q' a t v) : Granted h G w m Q' :=
  fun hall => hq _ _ _ hall (hm hall)

theorem and {C : Type} {R : C → Type} {σ α : Type} {h : Handler C R σ} {G : Step C R σ → Prop}
    {w : σ} {m : Prog C R α} {Q Q' : α → List (Step C R σ) → σ → Prop} (hm : Granted h G w m Q)
    (hy : Yields h w m Q') : Granted h G w m (fun a t v => Q a t v ∧ Q' a t v) :=
  fun hall => ⟨hm hall, hy⟩

theorem of_yields {C : Type} {R : C → Type} {σ α : Type} {h : Handler C R σ}
    {G : Step C R σ → Prop} {w : σ} {m : Prog C R α}
    {Q : α → List (Step C R σ) → σ → Prop} (hy : Yields h w m Q) : Granted h G w m Q :=
  fun _ => hy

theorem call {C : Type} {R : C → Type} {σ α : Type} {h : Handler C R σ} {G : Step C R σ → Prop}
    {w : σ} {c : C} {f : R c → Prog C R α} {Q : α → List (Step C R σ) → σ → Prop}
    (hf : ∀ r v, h w c = (r, v) → G ⟨w, c, r, v⟩ →
      Granted h G v (f r) (fun a t u => Q a (⟨w, c, r, v⟩ :: t) u)) :
    Granted h G w (Prog.op c >>= f) Q := by
  refine Yields.call ?_
  intro r v hx hall
  rw [List.forall_mem_cons] at hall
  exact hf r v hx hall.1 hall.2

theorem bind {C : Type} {R : C → Type} {σ α β : Type} {h : Handler C R σ}
    {G : Step C R σ → Prop} {w : σ} {m : Prog C R α} {f : α → Prog C R β}
    {Q : β → List (Step C R σ) → σ → Prop} (M : α → List (Step C R σ) → σ → Prop)
    (hm : Granted h G w m M)
    (hf : ∀ a t v, M a t v → Chain h w t v →
      Granted h G v (f a) (fun b t' u => Q b (t ++ t') u)) :
    Granted h G w (m >>= f) Q := by
  refine Yields.bind _ hm ?_
  intro a t v hM hc hall
  rw [List.forall_mem_append] at hall
  exact hf a t v (hM hall.1) hc hall.2

end Granted

/-- Every step of the run satisfies `G`, and the run ends as `Q` says. -/
def Assured {C : Type} {R : C → Type} {σ α : Type} (h : Handler C R σ)
    (G : Step C R σ → Prop) (w : σ) (m : Prog C R α)
    (Q : α → List (Step C R σ) → σ → Prop) : Prop :=
  Yields h w m (fun a t v => (∀ s ∈ t, G s) ∧ Q a t v)

namespace Assured

theorem ret {C : Type} {R : C → Type} {σ α : Type} {h : Handler C R σ} {G : Step C R σ → Prop}
    {w : σ} {a : α} {Q : α → List (Step C R σ) → σ → Prop} (hq : Q a [] w) :
    Assured h G w (.ret a) Q := ⟨List.forall_mem_nil _, hq⟩

theorem mono {C : Type} {R : C → Type} {σ α : Type} {h : Handler C R σ} {G : Step C R σ → Prop}
    {w : σ} {m : Prog C R α} {Q Q' : α → List (Step C R σ) → σ → Prop} (hm : Assured h G w m Q)
    (hq : ∀ a t v, Q a t v → Q' a t v) : Assured h G w m Q' :=
  ⟨hm.1, hq _ _ _ hm.2⟩

theorem and {C : Type} {R : C → Type} {σ α : Type} {h : Handler C R σ} {G : Step C R σ → Prop}
    {w : σ} {m : Prog C R α} {Q Q' : α → List (Step C R σ) → σ → Prop} (hm : Assured h G w m Q)
    (hy : Yields h w m Q') : Assured h G w m (fun a t v => Q a t v ∧ Q' a t v) :=
  ⟨hm.1, hm.2, hy⟩

/-- What holds provided that every step satisfies `G` does hold. -/
theorem grant {C : Type} {R : C → Type} {σ α : Type} {h : Handler C R σ}
    {G : Step C R σ → Prop} {w : σ} {m : Prog C R α} {Q Q' : α → List (Step C R σ) → σ → Prop}
    (hm : Assured h G w m Q) (hy : Granted h G w m Q') :
    Assured h G w m (fun a t v => Q a t v ∧ Q' a t v) :=
  ⟨hm.1, hm.2, hy hm.1⟩

theorem op {C : Type} {R : C → Type} {σ : Type} {h : Handler C R σ} {G : Step C R σ → Prop}
    {w : σ} {c : C} {Q : R c → List (Step C R σ) → σ → Prop}
    (hq : ∀ r v, h w c = (r, v) → G ⟨w, c, r, v⟩ ∧ Q r [⟨w, c, r, v⟩] v) :
    Assured h G w (Prog.op c) Q := by
  refine Yields.op ?_
  intro r v hx
  rw [List.forall_mem_singleton]
  exact hq r v hx

theorem call {C : Type} {R : C → Type} {σ α : Type} {h : Handler C R σ} {G : Step C R σ → Prop}
    {w : σ} {c : C} {f : R c → Prog C R α} {Q : α → List (Step C R σ) → σ → Prop}
    (hf : ∀ r v, h w c = (r, v) → G ⟨w, c, r, v⟩ ∧
      Assured h G v (f r) (fun a t u => Q a (⟨w, c, r, v⟩ :: t) u)) :
    Assured h G w (Prog.op c >>= f) Q := by
  refine Yields.call ?_
  intro r v hx
  obtain ⟨hg, hall, hq⟩ := hf r v hx
  exact ⟨List.forall_mem_cons.mpr ⟨hg, hall⟩, hq⟩

theorem bind {C : Type} {R : C → Type} {σ α β : Type} {h : Handler C R σ}
    {G : Step C R σ → Prop} {w : σ} {m : Prog C R α} {f : α → Prog C R β}
    {Q : β → List (Step C R σ) → σ → Prop} (M : α → List (Step C R σ) → σ → Prop)
    (hm : Assured h G w m M)
    (hf : ∀ a t v, M a t v → Chain h w t v →
      Assured h G v (f a) (fun b t' u => Q b (t ++ t') u)) :
    Assured h G w (m >>= f) Q := by
  refine Yields.bind _ hm ?_
  intro a t v hM hc
  obtain ⟨hall, hq⟩ := hf a t v hM.2 hc
  exact ⟨List.forall_mem_append.mpr ⟨hM.1, hall⟩, hq⟩

end Assured

end OtaFetch.Interaction
