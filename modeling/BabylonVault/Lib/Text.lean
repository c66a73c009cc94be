/-
  Decimal numbers in texts.

  * `Text.Stops`: a text that does not go on with a digit.
  * `Text.repr_append_inj`: a number in front of such texts can be read off the whole.
-/
import Mathlib.Tactic

namespace Text
variable {n m : ℕ} {s t : String}

/-- The text does not begin with a digit. -/
def Stops (t : String) : Prop := ∀ c ∈ t.toList.head?, c.isDigit = false

-- Named: the finiteness of `Char` would give an instance that runs through every character.
instance : Decidable (Stops t) := Option.decidableForallMem _

theorem Stops.append (hs : Stops s) (hne : s ≠ "") : Stops (s ++ t) := by
  intro c hc
  rw [String.toList_append, List.head?_append_of_ne_nil _ (by simpa using hne)] at hc
  exact hs c hc

theorem toDigits_inj (h : Nat.toDigits 10 n = Nat.toDigits 10 m) : n = m := by
  rw [← Nat.ofDigitChars_ten_toDigits (n := n), h, Nat.ofDigitChars_ten_toDigits]

/-- The digits at the front of a text. -/
theorem takeWhile_repr (ht : Stops t) :
    (n.repr ++ t).toList.takeWhile Char.isDigit = Nat.toDigits 10 n := by
  have hdigits : ∀ c ∈ Nat.toDigits 10 n, c.isDigit = true := fun c hc =>
    Nat.isDigit_of_mem_toDigits (by decide) (by decide) hc
  rw [String.toList_append, Nat.toList_repr, List.takeWhile_append_of_pos hdigits]
  rcases hl : t.toList with _ | ⟨c, cs⟩
  · rw [List.takeWhile_nil, List.append_nil]
  · have hc : c.isDigit = false := ht c (by rw [hl]; rfl)
    rw [List.takeWhile_cons_of_neg (by simp [hc]), List.append_nil]

/-- A number can be read off the front of a text. -/
theorem repr_append_inj (hs : Stops s) (ht : Stops t) (h : n.repr ++ s = m.repr ++ t) : n = m := by
  have htake := congrArg (fun u : String => u.toList.takeWhile Char.isDigit) h
  simp only [takeWhile_repr hs, takeWhile_repr ht] at htake
  exact toDigits_inj htake

theorem repr_inj (h : n.repr = m.repr) : n = m := by
  refine toDigits_inj ?_
  rw [← Nat.toList_repr, h, Nat.toList_repr]

end Text
