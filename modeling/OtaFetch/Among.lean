import OtaFetch.Interaction

/-!
# A program that others cannot disturb

Others change the state between the calls of a program. When what they do cannot
be told apart by the answers to its calls, the program does what it would do alone,
at every moment and to its end.
-/
namespace OtaFetch.Among
open Interaction

/-- The program `m` started in `s` makes the calls of `t`, with others in between,
and is left with `m'` in `s'`. -/
inductive Goes {C : Type} {R : C → Type} {σ α : Type} (h : Handler C R σ) (other : σ → σ → Prop) :
    Prog C R α → σ → List (Σ c, R c) → Prog C R α → σ → Prop where
  | rest (m : Prog C R α) (s : σ) : Goes h other m s [] m s
  | other {m m' : Prog C R α} {s u s' : σ} {t : List (Σ c, R c)} (hstep : other s u)
      (hrest : Goes h other m u t m' s') : Goes h other m s t m' s'
  | call {c : C} {k : R c → Prog C R α} {m' : Prog C R α} {s s' : σ} {t : List (Σ c, R c)}
      (hrest : Goes h other (k (h s c).1) (h s c).2 t m' s') :
      Goes h other (.call c k) s (⟨c, (h s c).1⟩ :: t) m' s'

/-- What a run alone, from a state that looks the same, still has to do. -/
structure Alone {C : Type} {R : C → Type} {σ α : Type} (h : Handler C R σ) (m : Prog C R α)
    (a : σ) (t : List (Σ c, R c)) (m' : Prog C R α) (a' : σ) : Prop where
  events : (run h m a).trace.map Step.event = t ++ (run h m' a').trace.map Step.event
  value : (run h m a).value = (run h m' a').value
  final : (run h m a).final = (run h m' a').final

/-- Others that keep what the answers depend on do not disturb a program. -/
theorem Goes.alone {C : Type} {R : C → Type} {σ α : Type} {h : Handler C R σ}
    {other : σ → σ → Prop} {same : σ → σ → Prop} {A : C → Prop}
    (hother : ∀ a s u, same a s → other s u → same a u)
    (hcall : ∀ a s c, same a s → A c → (h a c).1 = (h s c).1 ∧ same (h a c).2 (h s c).2)
    {m m' : Prog C R α} {s s' : σ} {t : List (Σ c, R c)} (hgoes : Goes h other m s t m' s')
    {a : σ} (ha : same a s) (hA : ∀ x ∈ (run h m a).trace, A x.call) :
    ∃ a', same a' s' ∧ Alone h m a t m' a' := by
  induction hgoes generalizing a with
  | rest m s => exact ⟨a, ha, ⟨rfl, rfl, rfl⟩⟩
  | other hstep _ ih => exact ih (hother _ _ _ ha hstep) hA
  | @call c k m' s s' t _ ih =>
    obtain ⟨hreply, hafter⟩ := hcall a s c ha (hA _ List.mem_cons_self)
    rw [← hreply] at ih
    obtain ⟨a', ha', hevents, hvalue, hfinal⟩ :=
      ih hafter (fun x hx => hA x (List.mem_cons_of_mem _ hx))
    refine ⟨a', ha', ⟨?_, hvalue, hfinal⟩⟩
    rw [run_call, ← hreply]
    simp only [List.map_cons, List.cons_append, hevents]
    rfl

/-- A program that has returned has made all its calls. -/
lemma Alone.returned {C : Type} {R : C → Type} {σ α : Type} {h : Handler C R σ} {m : Prog C R α}
    {a a' : σ} {t : List (Σ c, R c)} {r : α} (hal : Alone h m a t (.ret r) a') :
    (run h m a).trace.map Step.event = t ∧ (run h m a).value = r ∧ (run h m a).final = a' := by
  refine ⟨?_, hal.value, hal.final⟩
  rw [hal.events]
  exact List.append_nil t

/-- Others may also do nothing. -/
theorem Goes.of_run {C : Type} {R : C → Type} {σ α : Type} (h : Handler C R σ)
    (other : σ → σ → Prop) (m : Prog C R α) (s : σ) :
    Goes h other m s ((run h m s).trace.map Step.event) (.ret (run h m s).value)
      (run h m s).final := by
  induction m generalizing s with
  | ret a => exact .rest _ s
  | call c k ih => exact .call (ih (h s c).1 (h s c).2)

/-- What is left of a program after its first `n` calls, and where it is left. -/
def resume {C : Type} {R : C → Type} {σ α : Type} (h : Handler C R σ) :
    Nat → Prog C R α → σ → Prog C R α × σ
  | n + 1, .call c k, s => resume h n (k (h s c).1) (h s c).2
  | _, m, s => (m, s)

theorem Goes.resume {C : Type} {R : C → Type} {σ α : Type} (h : Handler C R σ)
    (other : σ → σ → Prop) (n : Nat) (m : Prog C R α) (s : σ) :
    Goes h other m s (((run h m s).trace.take n).map Step.event) (resume h n m s).1
      (resume h n m s).2 := by
  induction n generalizing m s with
  | zero => exact .rest _ s
  | succ n ih =>
    cases m with
    | ret a => exact .rest _ s
    | call c k => exact .call (ih (k (h s c).1) (h s c).2)

/-- Up to any of its calls, too. -/
theorem Goes.upTo {C : Type} {R : C → Type} {σ α : Type} {h : Handler C R σ}
    {other : σ → σ → Prop} {m : Prog C R α} {s : σ} {pre post : List (Step C R σ)}
    {x : Step C R σ} (ht : (run h m s).trace = pre ++ x :: post) :
    ∃ k : R x.call → Prog C R α,
      Goes h other m s (pre.map Step.event) (.call x.call k) x.before := by
  induction m generalizing s pre with
  | ret a => simp at ht
  | call c k ih =>
    rw [run_call] at ht
    cases pre with
    | nil =>
      obtain ⟨rfl, -⟩ := List.cons_eq_cons.mp ht
      exact ⟨k, .rest _ s⟩
    | cons y pre =>
      obtain ⟨rfl, hrest⟩ := List.cons_eq_cons.mp ht
      obtain ⟨k', hgoes⟩ := ih _ hrest
      exact ⟨k', .call hgoes⟩

theorem Goes.trans {C : Type} {R : C → Type} {σ α : Type} {h : Handler C R σ}
    {other : σ → σ → Prop} {m m' m'' : Prog C R α} {s s' s'' : σ} {t t' : List (Σ c, R c)}
    (hfirst : Goes h other m s t m' s') (hrest : Goes h other m' s' t' m'' s'') :
    Goes h other m s (t ++ t') m'' s'' := by
  induction hfirst with
  | rest m s => exact hrest
  | other hstep _ ih => exact .other hstep (ih hrest)
  | call _ ih => exact .call (ih hrest)

end OtaFetch.Among
