import OtaFetch.Interaction

/-!
# Monitors

A monitor watches the calls of a program with their replies. It has a state of
its own and rejects a call that comes at the wrong time. A program is accepted
when no replies make it run into a rejected call. This is decided along the tree
of the program, one rule for each way to build a program, and then holds of the
trace of every run.
-/
namespace OtaFetch.Monitor
open Interaction

/-- The next state of the monitor after an answered call; `none` rejects the call. -/
abbrev Watcher (C : Type) (R : C → Type) (μ : Type) := μ → (c : C) → R c → Option μ

/-- As long as the replies keep to `E`, the monitor rejects no call, and it ends
in a state that goes with the value. -/
def Accepted {C : Type} {R : C → Type} {μ α : Type} (E : (c : C) → R c → Prop)
    (mon : Watcher C R μ) (Q : α → μ → Prop) : Prog C R α → μ → Prop
  | .ret a, m => Q a m
  | .call c k, m => ∀ r, E c r → ∃ m', mon m c r = some m' ∧ Accepted E mon Q (k r) m'

namespace Accepted

theorem ret {C : Type} {R : C → Type} {μ α : Type} {E : (c : C) → R c → Prop}
    {mon : Watcher C R μ} {Q : α → μ → Prop} {a : α} {m : μ} (h : Q a m) :
    Accepted E mon Q (.ret a : Prog C R α) m := h

theorem call {C : Type} {R : C → Type} {μ α : Type} {E : (c : C) → R c → Prop}
    {mon : Watcher C R μ} {Q : α → μ → Prop} {c : C} {f : R c → Prog C R α} {m : μ}
    (h : ∀ r, E c r → ∃ m', mon m c r = some m' ∧ Accepted E mon Q (f r) m') :
    Accepted E mon Q (Prog.op c >>= f) m := h

/-- A call that the monitor does not care about. -/
theorem skip {C : Type} {R : C → Type} {μ α : Type} {E : (c : C) → R c → Prop}
    {mon : Watcher C R μ} {Q : α → μ → Prop} {c : C} {f : R c → Prog C R α} {m : μ}
    (hc : ∀ r, mon m c r = some m) (h : ∀ r, E c r → Accepted E mon Q (f r) m) :
    Accepted E mon Q (Prog.op c >>= f) m :=
  fun r hr => ⟨m, hc r, h r hr⟩

theorem bind {C : Type} {R : C → Type} {μ α β : Type} {E : (c : C) → R c → Prop}
    {mon : Watcher C R μ} {P : α → μ → Prop} {Q : β → μ → Prop} {p : Prog C R α}
    {f : α → Prog C R β} {m : μ} (hp : Accepted E mon P p m)
    (hf : ∀ a m', P a m' → Accepted E mon Q (f a) m') : Accepted E mon Q (p >>= f) m := by
  induction p generalizing m with
  | ret a => exact hf a m hp
  | call c k ih =>
    intro r hr
    obtain ⟨m', hm', hk⟩ := hp r hr
    exact ⟨m', hm', ih r hk⟩

theorem mono {C : Type} {R : C → Type} {μ α : Type} {E : (c : C) → R c → Prop}
    {mon : Watcher C R μ} {P Q : α → μ → Prop} {p : Prog C R α} {m : μ}
    (hp : Accepted E mon P p m) (hq : ∀ a m', P a m' → Q a m') : Accepted E mon Q p m := by
  induction p generalizing m with
  | ret a => exact hq a m hp
  | call c k ih =>
    intro r hr
    obtain ⟨m', hm', hk⟩ := hp r hr
    exact ⟨m', hm', ih r hk⟩

/-- A program whose calls the monitor does not care about. -/
theorem of_obeys {C : Type} {R : C → Type} {μ α : Type} {E : (c : C) → R c → Prop}
    {mon : Watcher C R μ} {A : C → Prop} {V : α → Prop} {p : Prog C R α} {m : μ}
    (hp : Obeys E A V p) (hA : ∀ c r, A c → mon m c r = some m) :
    Accepted E mon (fun a m' => V a ∧ m' = m) p m := by
  induction p with
  | ret a => exact ⟨hp, rfl⟩
  | call c k ih =>
    intro r hr
    exact ⟨m, hA c r hp.1, ih r (hp.2 r hr)⟩

end Accepted

/-- The monitor over a trace. -/
def watch {C : Type} {R : C → Type} {μ σ : Type} (mon : Watcher C R μ) :
    μ → List (Step C R σ) → Option μ
  | m, [] => some m
  | m, s :: t => (mon m s.call s.reply).bind fun m' => watch mon m' t

/-- The monitor accepts every run of an accepted program. -/
theorem Accepted.watch {C : Type} {R : C → Type} {μ σ α : Type} {E : (c : C) → R c → Prop}
    {mon : Watcher C R μ} {Q : α → μ → Prop} {p : Prog C R α} {m : μ}
    (hp : Accepted E mon Q p m) {h : Handler C R σ} (hE : ∀ w c, E c (h w c).1) (w : σ) :
    ∃ m', Monitor.watch mon m (run h p w).trace = some m' ∧ Q (run h p w).value m' := by
  induction p generalizing m w with
  | ret a => exact ⟨m, rfl, hp⟩
  | call c k ih =>
    obtain ⟨m₁, hm₁, hk⟩ := hp (h w c).1 (hE w c)
    obtain ⟨m', hm', hq⟩ := ih (h w c).1 hk (h w c).2
    refine ⟨m', ?_, hq⟩
    rw [run_call, Monitor.watch, hm₁, Option.bind_some]
    exact hm'

end OtaFetch.Monitor
