/-
  Reviews: screens to be passed one after the other.

  * `Review.Step`: a screen is confirmed, skipped where it may be, or rejected.
  * `Review.of_run`: what was done to each screen so far, in order.
-/
import BabylonVault.Lib.Run

namespace Review

universe u
variable {α : Type u}

/-- What can be done to a screen. -/
inductive Event
  | confirm | reject | skip
  deriving DecidableEq

/-- The screens still to pass, each with whether it may be skipped; none after a rejection. -/
abbrev State (α : Type u) := Option (List (α × Bool))

/-- An event on the first screen left. -/
inductive Step : State α → α × Event → State α → Prop
  | confirm {a sk rest} : Step (some ((a, sk) :: rest)) (a, .confirm) (some rest)
  | skip {a rest} : Step (some ((a, true) :: rest)) (a, .skip) (some rest)
  | reject {a sk rest} : Step (some ((a, sk) :: rest)) (a, .reject) none

/-- The screen is passed by this event. -/
def Passes (x : α × Bool) (l : α × Event) : Prop :=
  l.1 = x.1 ∧ (l.2 = .confirm ∨ x.2 = true ∧ l.2 = .skip)

/-- What has happened to the screens of a review. -/
inductive Progress (screens : List (α × Bool)) : List (α × Event) → State α → Prop
  | going {passed rest ls} : screens = passed ++ rest → List.Forall₂ Passes passed ls →
      Progress screens ls (some rest)
  | rejected {passed a sk rest ls} : screens = passed ++ (a, sk) :: rest →
      List.Forall₂ Passes passed ls → Progress screens (ls ++ [(a, .reject)]) none

variable {screens rest : List (α × Bool)} {ls : List (α × Event)} {r : State α}

theorem Progress.step {l : α × Event} {r' : State α} (h : Progress screens ls r)
    (hs : Step r l r') : Progress screens (ls ++ [l]) r' := by
  cases h with
  | rejected => cases hs
  | @going passed _ _ heq hp =>
    cases hs with
    | @confirm a sk rest =>
      have heq' : screens = (passed ++ [(a, sk)]) ++ rest := by simpa using heq
      exact .going heq' (List.rel_append hp (.cons ⟨rfl, .inl rfl⟩ .nil))
    | @skip a rest =>
      have heq' : screens = (passed ++ [(a, true)]) ++ rest := by simpa using heq
      exact .going heq' (List.rel_append hp (.cons ⟨rfl, .inr ⟨rfl, rfl⟩⟩ .nil))
    | reject => exact .rejected heq hp

/-- A run passes the screens in their order. -/
theorem of_run (h : Run Step (some screens) ls r) : Progress screens ls r :=
  h.hist (.going (List.nil_append screens).symm .nil) fun _ _ _ _ _ hp hs => hp.step hs

/-- Nothing passed is a rejection. -/
theorem not_reject {passed : List (α × Bool)} (h : List.Forall₂ Passes passed ls) (a : α) :
    (a, Event.reject) ∉ ls := by
  induction h with
  | nil => simp
  | @cons x l _ _ hp _ ih =>
    rintro (_ | ⟨_, hmem⟩)
    · rcases hp.2 with hc | ⟨-, hc⟩ <;> cases hc
    · exact ih hmem

/-- After a rejection nothing is left. -/
theorem Progress.eq_none {a : α} (h : Progress screens ls r) (ha : (a, .reject) ∈ ls) : r = none := by
  cases h with
  | going _ hp => exact absurd ha (not_reject hp a)
  | rejected => rfl

/-- Screens that may not be skipped were all confirmed. -/
theorem passes_mandatory {as : List α}
    (h : List.Forall₂ Passes (as.map fun a => (a, false)) ls) :
    ls = as.map fun a => (a, .confirm) := by
  induction as generalizing ls with
  | nil => cases h; rfl
  | cons a as ih =>
    cases h with
    | @cons _ l _ ls hp h =>
      obtain ⟨b, e⟩ := l
      obtain ⟨rfl, rfl | ⟨hsk, -⟩⟩ := hp
      · rw [ih h]
        rfl
      · cases hsk

theorem passes_append {xs ys : List (α × Bool)} (h : List.Forall₂ Passes (xs ++ ys) ls) :
    ∃ ls₁ ls₂, ls = ls₁ ++ ls₂ ∧ List.Forall₂ Passes xs ls₁ ∧ List.Forall₂ Passes ys ls₂ := by
  have htake := (List.forall₂_take_append _ _ _ h.flip).flip
  have hdrop := (List.forall₂_drop_append _ _ _ h.flip).flip
  exact ⟨_, _, (List.take_append_drop xs.length ls).symm, htake, hdrop⟩

/-- Behind screens that may not be skipped, all of them were confirmed. -/
theorem confirmed_prefix {as : List α} {xs : List (α × Bool)}
    (h : List.Forall₂ Passes (as.map (fun a => (a, false)) ++ xs) ls) :
    as.map (fun a => (a, Event.confirm)) <+: ls := by
  obtain ⟨ls₁, ls₂, rfl, h₁, -⟩ := passes_append h
  exact ⟨ls₂, by rw [passes_mandatory h₁]⟩

end Review
