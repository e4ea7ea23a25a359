import Mathlib.Data.List.Destutter
import Mathlib.Data.Finset.Card

/-!
# Emitting what is far enough from the last emission

A machine reads inputs and emits something at some of them. One that remembers
the last input it emitted at, and emits at the next eligible input far enough
from it, emits at the destuttered eligible inputs.
-/
namespace OtaFetch.Throttle

/-- The inputs at which the machine emits, with what it emits. -/
def emitted {σ τ ω : Type} (step : σ → τ → σ × Option ω) : σ → List τ → List (τ × ω)
  | _, [] => []
  | s, t :: ts =>
    match (step s t).2 with
    | some o => (t, o) :: emitted step (step s t).1 ts
    | none => emitted step (step s t).1 ts

/-- On the inputs that `ok` admits, the machine emits exactly at those that are
eligible and apart from the last emission, which its state remembers. -/
structure Throttles {σ τ ω : Type} (step : σ → τ → σ × Option ω) (ok eligible : τ → Prop)
    (apart : τ → τ → Prop) (remembers : σ → Option τ → Prop) : Prop where
  emit : ∀ s last t, remembers s last → ok t → eligible t → (∀ a ∈ last, apart a t) →
    (step s t).2.isSome = true ∧ remembers (step s t).1 (some t)
  hold : ∀ s last t, remembers s last → ok t → ¬ (eligible t ∧ ∀ a ∈ last, apart a t) →
    (step s t).2 = none ∧ remembers (step s t).1 last

lemma emitted_emit {σ τ ω : Type} {step : σ → τ → σ × Option ω} {s : σ} {t : τ} {ts : List τ}
    (h : (step s t).2.isSome = true) :
    (emitted step s (t :: ts)).map Prod.fst =
      t :: (emitted step (step s t).1 ts).map Prod.fst := by
  obtain ⟨o, ho⟩ := Option.isSome_iff_exists.mp h
  rw [emitted, ho, List.map_cons]

lemma emitted_hold {σ τ ω : Type} {step : σ → τ → σ × Option ω} {s : σ} {t : τ} {ts : List τ}
    (h : (step s t).2 = none) : emitted step s (t :: ts) = emitted step (step s t).1 ts := by
  rw [emitted, h]

lemma emitted_after {σ τ ω : Type} {step : σ → τ → σ × Option ω} {ok eligible : τ → Prop}
    [DecidablePred eligible] {apart : τ → τ → Prop} [DecidableRel apart]
    {remembers : σ → Option τ → Prop} (h : Throttles step ok eligible apart remembers) {s : σ}
    {a : τ} (hs : remembers s (some a)) {ts : List τ} (hts : ∀ t ∈ ts, ok t) :
    a :: (emitted step s ts).map Prod.fst = (ts.filter eligible).destutter' apart a := by
  induction ts generalizing s a with
  | nil => rfl
  | cons t ts ih =>
    obtain ⟨ht, hrest⟩ := List.forall_mem_cons.mp hts
    by_cases helig : eligible t
    · rw [List.filter_cons_of_pos (by simpa using helig)]
      by_cases hapart : apart a t
      · obtain ⟨hsome, hnext⟩ := h.emit s (some a) t hs ht helig (by simpa using hapart)
        rw [emitted_emit hsome, ih hnext hrest, List.destutter'_cons_pos _ hapart]
      · obtain ⟨hnone, hnext⟩ := h.hold s (some a) t hs ht (by simp [hapart])
        rw [emitted_hold hnone, ih hnext hrest, List.destutter'_cons_neg _ hapart]
    · obtain ⟨hnone, hnext⟩ := h.hold s (some a) t hs ht (by simp [helig])
      rw [List.filter_cons_of_neg (by simpa using helig), emitted_hold hnone, ih hnext hrest]

/-- From a state without a last emission, the machine emits at the destuttered
eligible inputs. -/
theorem emitted_eq_destutter {σ τ ω : Type} {step : σ → τ → σ × Option ω}
    {ok eligible : τ → Prop} [DecidablePred eligible] {apart : τ → τ → Prop} [DecidableRel apart]
    {remembers : σ → Option τ → Prop} (h : Throttles step ok eligible apart remembers) {s : σ}
    (hs : remembers s none) {ts : List τ} (hts : ∀ t ∈ ts, ok t) :
    (emitted step s ts).map Prod.fst = (ts.filter eligible).destutter apart := by
  induction ts generalizing s with
  | nil => rfl
  | cons t ts ih =>
    obtain ⟨ht, hrest⟩ := List.forall_mem_cons.mp hts
    by_cases helig : eligible t
    · obtain ⟨hsome, hnext⟩ := h.emit s none t hs ht helig (by simp)
      rw [emitted_emit hsome, emitted_after h hnext hrest,
        List.filter_cons_of_pos (by simpa using helig), List.destutter_cons']
    · obtain ⟨hnone, hnext⟩ := h.hold s none t hs ht (by simp [helig])
      rw [List.filter_cons_of_neg (by simpa using helig), emitted_hold hnone, ih hnext hrest]

/-- When a key never decreases over the inputs and has to differ from that of the
last emission, it strictly increases over the emissions. -/
theorem destutter_strict {τ κ : Type} [LinearOrder κ] (key : τ → κ) {ts : List τ}
    (hts : ts.Pairwise (fun a b => key a ≤ key b)) :
    ((ts.destutter (fun a b => key a ≠ key b)).map key).Pairwise (· < ·) := by
  have hsub := List.destutter_sublist (fun a b => key a ≠ key b) ts
  have hle := (hts.sublist hsub).isChain
  have hne := List.isChain_destutter (fun a b => key a ≠ key b) ts
  rw [← List.isChain_iff_pairwise, List.isChain_map]
  rw [List.isChain_iff_getElem] at hle hne ⊢
  intro i hi
  exact lt_of_le_of_ne (hle i hi) (hne i hi)

/-- A strictly increasing list with members in a finite set is no longer than that. -/
theorem length_le_of_strict {κ : Type} [LinearOrder κ] {ks : List κ} {bound : Finset κ}
    (hks : ks.Pairwise (· < ·)) (hbound : ∀ k ∈ ks, k ∈ bound) : ks.length ≤ bound.card := by
  have hnodup : ks.Nodup := hks.imp (fun h => ne_of_lt h)
  have hsubset : ks.toFinset ⊆ bound := by
    intro k hk
    exact hbound k (List.mem_toFinset.mp hk)
  calc ks.length = ks.toFinset.card := (List.toFinset_card_of_nodup hnodup).symm
    _ ≤ bound.card := Finset.card_le_card hsubset

end OtaFetch.Throttle
