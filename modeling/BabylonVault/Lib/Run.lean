/-
  Labelled transition systems.

  * `Run step s₀ ls s`: the steps labelled `ls` lead from `s₀` to `s`.
  * `Run.inv`, `Run.hist`: an invariant kept by every step holds after every
    run, and so does one that also speaks of the labels so far.
  * `Run.sim`: a simulation of each step is one of each run.
  * `Run.entered`: the last time that a run has come to where a predicate holds.
  * `Run.perm`: where neighbouring steps can be exchanged, a run can be taken in any order.
-/
import Mathlib.Tactic

universe u v
variable {σ : Type u} {L : Type v}

/-- `Run step s₀ ls s`: steps labelled `ls`, oldest first, lead from `s₀` to `s`. -/
inductive Run (step : σ → L → σ → Prop) (s₀ : σ) : List L → σ → Prop
  | nil : Run step s₀ [] s₀
  | snoc {ls s l s'} : Run step s₀ ls s → step s l s' → Run step s₀ (ls ++ [l]) s'

namespace Run
variable {step : σ → L → σ → Prop} {s₀ s : σ} {ls : List L}

/-- One step before a run. -/
theorem cons {l : L} {s₁ : σ} (h : Run step s₁ ls s) (hl : step s₀ l s₁) :
    Run step s₀ (l :: ls) s := by
  induction h with
  | nil => exact .snoc .nil hl
  | snoc _ hs ih => exact .snoc ih hs

/-- An invariant of the state and the labels so far. -/
theorem hist {P : List L → σ → Prop} (h0 : P [] s₀)
    (hs : ∀ ls s l s', Run step s₀ ls s → P ls s → step s l s' → P (ls ++ [l]) s')
    (h : Run step s₀ ls s) : P ls s := by
  induction h with
  | nil => exact h0
  | snoc hr hl ih => exact hs _ _ _ _ hr ih hl

/-- An invariant of the state. -/
theorem inv {P : σ → Prop} (h0 : P s₀) (hs : ∀ s l s', P s → step s l s' → P s')
    (h : Run step s₀ ls s) : P s :=
  hist (P := fun _ => P) h0 (fun _ s l s' _ hp hl => hs s l s' hp hl) h

/-- A run of a system that another one simulates. -/
theorem sim {τ : Type*} {step' : τ → L → τ → Prop} {R : σ → τ → Prop} {t₀ : τ} (h0 : R s₀ t₀)
    (hs : ∀ s t l s', R s t → step s l s' → ∃ t', step' t l t' ∧ R s' t')
    (h : Run step s₀ ls s) : ∃ t, Run step' t₀ ls t ∧ R s t := by
  induction h with
  | nil => exact ⟨t₀, .nil, h0⟩
  | snoc _ hl ih =>
    obtain ⟨t, hr, hR⟩ := ih
    obtain ⟨t', ht, hR'⟩ := hs _ _ _ _ hR hl
    exact ⟨t', .snoc hr ht, hR'⟩

theorem eq_of_nil (h : Run step s₀ [] s) : s = s₀ := by
  generalize hls : [] = ls at h
  cases h with
  | nil => rfl
  | snoc => exact absurd hls.symm (List.append_ne_nil_of_right_ne_nil _ (List.cons_ne_nil _ _))

/-- The first step of a run. -/
theorem uncons {l : L} (h : Run step s₀ (l :: ls) s) : ∃ s₁, step s₀ l s₁ ∧ Run step s₁ ls s := by
  generalize hls : l :: ls = ls' at h
  induction h generalizing ls with
  | nil => cases hls
  | @snoc ls₁ _ l' s' hr hl ih =>
    cases ls₁ with
    | nil =>
      obtain rfl := hr.eq_of_nil
      obtain ⟨rfl, rfl⟩ := List.cons.inj hls
      exact ⟨s', hl, .nil⟩
    | cons l₁ ls₁ =>
      obtain ⟨rfl, rfl⟩ := List.cons.inj hls
      obtain ⟨s₁, h₁, hr₁⟩ := ih rfl
      exact ⟨s₁, h₁, .snoc hr₁ hl⟩

/-- A run that ends where `P` holds has come there by a step, and has stayed. -/
theorem entered {P : σ → Prop} (h : Run step s₀ ls s) (h0 : ¬P s₀) (hP : P s) :
    ∃ pre s₁ l s₂ post, Run step s₀ pre s₁ ∧ ¬P s₁ ∧ step s₁ l s₂ ∧ P s₂ ∧
      Run (fun s l s' => P s ∧ step s l s') s₂ post s ∧ ls = pre ++ l :: post := by
  induction h with
  | nil => exact absurd hP h0
  | @snoc ls s l s' hr hl ih =>
    by_cases hs : P s
    · obtain ⟨pre, s₁, l₁, s₂, post, hpre, hn, h₁, h₂, hpost, rfl⟩ := ih hs
      exact ⟨pre, s₁, l₁, s₂, post ++ [l], hpre, hn, h₁, h₂, hpost.snoc ⟨hs, hl⟩, by simp⟩
    · exact ⟨ls, s, l, s', [], hr, hs, hl, hP, .nil, rfl⟩

/-- A run in another order, up to a simulation: it is enough to exchange neighbours. -/
theorem perm {R : σ → σ → Prop} {ls' : List L} (hrefl : ∀ s, R s s)
    (htrans : ∀ s t u, R s t → R t u → R s u)
    (hsim : ∀ s t l s', R s t → step s l s' → ∃ t', step t l t' ∧ R s' t')
    (hswap : ∀ s l l' s₁ s₂, step s l s₁ → step s₁ l' s₂ →
      ∃ t₁ t₂, step s l' t₁ ∧ step t₁ l t₂ ∧ R s₂ t₂)
    (hp : ls.Perm ls') (h : Run step s₀ ls s) : ∃ t, Run step s₀ ls' t ∧ R s t := by
  induction hp generalizing s₀ s with
  | nil => exact ⟨s, h, hrefl s⟩
  | cons l _ ih =>
    obtain ⟨s₁, h₁, hr⟩ := h.uncons
    obtain ⟨t, ht, hR⟩ := ih hr
    exact ⟨t, ht.cons h₁, hR⟩
  | swap l' l ls =>
    obtain ⟨s₁, h₁, h⟩ := h.uncons
    obtain ⟨s₂, h₂, hr⟩ := h.uncons
    obtain ⟨t₁, t₂, h₁', h₂', hR⟩ := hswap _ _ _ _ _ h₁ h₂
    obtain ⟨t, ht, hR'⟩ := hr.sim hR hsim
    exact ⟨t, (ht.cons h₂').cons h₁', hR'⟩
  | trans _ _ ih ih' =>
    obtain ⟨t, ht, hR⟩ := ih h
    obtain ⟨u, hu, hR'⟩ := ih' ht
    exact ⟨u, hu, htrans _ _ _ hR hR'⟩

end Run
