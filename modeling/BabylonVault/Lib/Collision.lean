/-
  Explicit collisions.

  A hash function is not injective, so an argument that treats it as injective ends in
  "equal inputs, or these two inputs collide".

  * `Collides f x y`: the collision, at named inputs.
  * `eq_or_collides`, `comp_eq_or_collides`: through one function, through two.
-/

/-- `f` has this collision. -/
def Collides {α β : Type} (f : α → β) (x y : α) : Prop := x ≠ y ∧ f x = f y

namespace Collides
variable {α β γ : Type} {f : α → β} {g : β → γ} {x y : α}

theorem eq_or_collides (h : f x = f y) : x = y ∨ Collides f x y := by
  by_cases hxy : x = y
  · exact Or.inl hxy
  · exact Or.inr ⟨hxy, h⟩

theorem comp_eq_or_collides (h : g (f x) = g (f y)) :
    x = y ∨ Collides f x y ∨ Collides g (f x) (f y) := by
  rcases eq_or_collides h with hf | hg
  · exact (eq_or_collides hf).imp_right Or.inl
  · exact Or.inr (Or.inr hg)

end Collides
