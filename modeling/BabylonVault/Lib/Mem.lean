/-
  A byte array as memory, read in pieces and written through a cursor.

  * `Buf.peek`: the bytes at an address.
  * `Buf.blit_blit`: writes behind one another are one write.
  * `Cursor.after`: the array and the address after some bytes were written.
-/
import BabylonVault.Lib.Buf
import Mathlib.Data.List.GetD

namespace Buf
variable {n : ℕ} {m m' : Buf n} {a len : ℕ} {b : Bytes}

/-- `len` bytes from address `a` on. -/
def peek (m : Buf n) (a len : ℕ) : Bytes := (m.toList.drop a).take len

theorem ext_pick (h : ∀ i < n, m.pick i = m'.pick i) : m = m' := by
  apply Subtype.ext
  refine List.ext_getElem (m.2.trans m'.2.symm) fun i h₁ h₂ => ?_
  have hi := h i (m.2 ▸ h₁)
  simpa [List.Vector.pick, List.getD_eq_getElem?_getD, List.getElem?_eq_getElem h₁,
    List.getElem?_eq_getElem h₂] using hi

theorem getElem?_peek {i : ℕ} :
    (m.peek a len)[i]? = if i < len ∧ a + i < n then some (m.pick (a + i)) else none := by
  unfold peek
  rw [List.getElem?_take, List.getElem?_drop]
  by_cases hi : i < len
  · by_cases hn : a + i < n
    · have hl : a + i < m.toList.length := by simpa using hn
      rw [if_pos hi, if_pos ⟨hi, hn⟩, List.getElem?_eq_getElem hl]
      have hl' : a + i < m.1.length := m.2.symm ▸ hn
      simp [List.Vector.pick, List.getD_eq_getElem?_getD, List.getElem?_eq_getElem hl']
      rfl
    · rw [if_pos hi, if_neg fun h => hn h.2]
      exact List.getElem?_eq_none (by simpa using hn)
  · rw [if_neg hi, if_neg fun h => hi h.1]

theorem length_peek (h : a + len ≤ n) : (m.peek a len).length = len := by
  simp [peek]
  omega

theorem pick_blit {i : ℕ} (hi : i < n) : (m.blit a b).pick i =
    if i < a then m.pick i else if i < a + b.length then b.getD (i - a) 0 else m.pick i := by
  have hm (j : ℕ) : m.toList.getD j 0 = m.pick j := rfl
  have htake : (m.toList.take a).length = min a n := by simp
  unfold blit
  rw [pick_ofBytes hi, List.append_assoc]
  split_ifs with h₁ h₂
  · rw [List.getD_append _ _ _ _ (by omega), ← hm, List.getD_eq_getElem?_getD,
      List.getD_eq_getElem?_getD, List.getElem?_take_of_lt h₁]
  · rw [List.getD_append_right _ _ _ _ (by omega), htake, Nat.min_eq_left (by omega),
      List.getD_append _ _ _ _ (by omega)]
  · rw [List.getD_append_right _ _ _ _ (by omega), htake, Nat.min_eq_left (by omega),
      List.getD_append_right _ _ _ _ (by omega), ← hm, List.getD_eq_getElem?_getD,
      List.getD_eq_getElem?_getD, List.getElem?_drop]
    congr 2
    omega

theorem blit_nil : m.blit a [] = m := by
  refine ext_pick fun i hi => ?_
  rw [pick_blit hi, List.length_nil, Nat.add_zero]
  split_ifs <;> rfl

theorem put_eq_blit {x : UInt8} : m.put a x = m.blit a [x] := by
  refine ext_pick fun i hi => ?_
  rw [pick_blit hi]
  by_cases h : a = i
  · subst h
    simp [List.Vector.pick_put_self hi]
  · rw [List.Vector.pick_put_ne h]
    simp only [List.length_singleton]
    split_ifs <;> first | rfl | omega

/-- A write behind a write. -/
theorem blit_blit {b' : Bytes} : (m.blit a b).blit (a + b.length) b' = m.blit a (b ++ b') := by
  refine ext_pick fun i hi => ?_
  rw [pick_blit hi, pick_blit hi, pick_blit hi, List.length_append]
  by_cases h₁ : i < a
  · simp [h₁, show i < a + b.length by omega]
  by_cases h₂ : i < a + b.length
  · rw [if_pos h₂, if_neg h₁, if_pos h₂, if_neg h₁, if_pos (by omega),
      List.getD_append _ _ _ _ (by omega)]
  by_cases h₃ : i < a + b.length + b'.length
  · rw [if_neg h₂, if_pos h₃, if_neg h₁, if_pos (by omega), List.getD_append_right _ _ _ _ (by omega)]
    congr 1
    omega
  · rw [if_neg h₂, if_neg h₃, if_neg h₁, if_neg h₂, if_neg h₁, if_neg (by omega)]

/-- A read sees what was written there. -/
theorem peek_blit (h : a + b.length ≤ n) : (m.blit a b).peek a b.length = b := by
  refine List.ext_getElem? fun i => ?_
  rw [getElem?_peek]
  by_cases hi : i < b.length
  · rw [if_pos ⟨hi, by omega⟩, pick_blit (by omega), if_neg (by omega), if_pos (by omega),
      List.getElem?_eq_getElem hi, List.getD_eq_getElem?_getD, Nat.add_sub_cancel_left,
      List.getElem?_eq_getElem hi, Option.getD_some]
  · rw [if_neg fun h => hi h.1, List.getElem?_eq_none (Nat.le_of_not_lt hi)]

/-- A read below a write does not see it. -/
theorem peek_blit_of_le {c : ℕ} (h : c + len ≤ a) : (m.blit a b).peek c len = m.peek c len := by
  refine List.ext_getElem? fun i => ?_
  rw [getElem?_peek, getElem?_peek]
  split_ifs with hi
  · rw [pick_blit hi.2, if_pos (by omega)]
  · rfl

end Buf

/-- An array with the address to write at. -/
structure Cursor (n : ℕ) where
  mem : Buf n
  pos : ℕ

namespace Cursor
variable {n : ℕ} {m : Buf n} {a : ℕ} {b p : Bytes} {x : UInt8}

/-- `buf[off++] = x`. -/
def byte (c : Cursor n) (x : UInt8) : Cursor n := ⟨c.mem.put c.pos x, c.pos + 1⟩

/-- `memcpy(buf + off, p, |p|)`, then `off += |p|`. -/
def bytes (c : Cursor n) (p : Bytes) : Cursor n := ⟨c.mem.blit c.pos p, c.pos + p.length⟩

/-- The cursor once `b` was written from `a` on. -/
def after (m : Buf n) (a : ℕ) (b : Bytes) : Cursor n := ⟨m.blit a b, a + b.length⟩

theorem after_nil : after m a [] = ⟨m, a⟩ := by
  rw [after, Buf.blit_nil]
  rfl

@[simp] theorem after_bytes : (after m a b).bytes p = after m a (b ++ p) := by
  unfold bytes after
  rw [Buf.blit_blit, List.length_append, Nat.add_assoc]

@[simp] theorem after_byte : (after m a b).byte x = after m a (b ++ [x]) := by
  rw [← after_bytes]
  unfold byte bytes
  rw [Buf.put_eq_blit]
  rfl

end Cursor
