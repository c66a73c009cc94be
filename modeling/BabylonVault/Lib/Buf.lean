/-
  Fixed-size arrays.

  `List.Vector` carries its length, so a key or a hash always has its 32 bytes.
  `pick` and `put` are the C read and write at an index: a read past the end
  gives the zero element and a write past the end does nothing.
-/
import Mathlib.Data.Vector.Basic
import BabylonVault.Lib.Bytes

/-- An array of `n` bytes. -/
abbrev Buf (n : ℕ) := List.Vector UInt8 n

namespace List.Vector
variable {α : Type} {n : ℕ}

/-- `v[i]`. -/
def pick [Inhabited α] (v : List.Vector α n) (i : ℕ) : α := v.1.getD i default

/-- `v[i] = x`. -/
def put (v : List.Vector α n) (i : ℕ) (x : α) : List.Vector α n :=
  ⟨v.1.set i x, by simp [v.2]⟩

/-- The first `k` elements. -/
def upto (v : List.Vector α n) (k : ℕ) : List α := v.1.take k

variable {v : List.Vector α n} {i j k : ℕ} {x : α}

theorem length_upto (hk : k ≤ n) : (v.upto k).length = k := by
  simp [upto, v.2, hk]

variable [Inhabited α]

theorem pick_put (hi : i < n) : (v.put i x).pick j = if i = j then x else v.pick j := by
  by_cases h : i = j
  · subst h
    simp [pick, put, List.getD_eq_getElem?_getD, hi]
  · simp [pick, put, List.getD_eq_getElem?_getD, h]

theorem pick_put_self (hi : i < n) : (v.put i x).pick i = x := by simp [pick_put hi]

theorem pick_put_ne (h : i ≠ j) : (v.put i x).pick j = v.pick j := by
  simp [pick, put, List.getD_eq_getElem?_getD, h]

theorem getElem_upto (h : i < (v.upto k).length) : (v.upto k)[i] = v.pick i := by
  have h' : i < v.1.length := lt_of_lt_of_le h (List.length_take_le' _ _)
  simp [upto, pick, List.getD_eq_getElem?_getD, List.getElem?_eq_getElem h']

theorem mem_upto (hk : k ≤ n) : x ∈ v.upto k ↔ ∃ i < k, v.pick i = x := by
  constructor
  · intro h
    obtain ⟨i, hi, rfl⟩ := List.getElem_of_mem h
    exact ⟨i, length_upto hk ▸ hi, (getElem_upto hi).symm⟩
  · rintro ⟨i, hi, rfl⟩
    have hl : i < (v.upto k).length := by rw [length_upto hk]; exact hi
    rw [← getElem_upto hl]
    exact List.getElem_mem hl

end List.Vector

namespace Buf
variable {n : ℕ}

/-- All zero. -/
def zero (n : ℕ) : Buf n := List.Vector.replicate n 0

instance : Inhabited (Buf n) := ⟨zero n⟩

/-- The first `n` bytes of a string, zero-padded. -/
def ofBytes (n : ℕ) (b : Bytes) : Buf n := ⟨b.takeD n 0, List.takeD_length n b 0⟩

/-- The `n` bytes of a number, most significant first. -/
def be (n v : ℕ) : Buf n := ⟨(Bytes.leBytes n v).reverse, by simp⟩

/-- `n` bytes of a string from `pos` on. -/
def slice (n : ℕ) (b : Bytes) (pos : ℕ) : Buf n := ofBytes n (b.drop pos)

/-- `memcpy(v + off, b, |b|)`. -/
def blit (v : Buf n) (off : ℕ) (b : Bytes) : Buf n :=
  ofBytes n (v.toList.take off ++ b ++ v.toList.drop (off + b.length))

theorem toList_ofBytes {b : Bytes} (h : b.length = n) : (ofBytes n b).toList = b := by
  subst h
  show b.takeD b.length 0 = b
  rw [List.takeD_eq_take _ le_rfl, List.take_length]

theorem getElem?_takeD {b : Bytes} : ∀ {n i : ℕ},
    (b.takeD n 0)[i]? = if i < n then some (b.getD i 0) else none := by
  induction b with
  | nil =>
    intro n i
    simp [List.getElem?_replicate]
  | cons x b ih =>
    rintro (_ | n) (_ | i)
    · simp
    · simp
    · simp
    · simp [ih]

theorem pick_ofBytes {b : Bytes} {i : ℕ} (h : i < n) : (ofBytes n b).pick i = b.getD i 0 := by
  show (b.takeD n 0).getD i 0 = b.getD i 0
  rw [List.getD_eq_getElem?_getD, getElem?_takeD, if_pos h, Option.getD_some]

theorem ofBytes_ext {a b : Bytes} (h : ∀ i < n, a.getD i 0 = b.getD i 0) :
    ofBytes n a = ofBytes n b := by
  apply Subtype.ext
  apply List.ext_getElem?
  intro i
  show (a.takeD n 0)[i]? = (b.takeD n 0)[i]?
  rw [getElem?_takeD, getElem?_takeD]
  split_ifs with hi
  · rw [h i hi]
  · rfl

theorem toList_ofBytes_le {b : Bytes} (h : b.length ≤ n) :
    (ofBytes n b).toList = b ++ List.replicate (n - b.length) 0 := by
  apply List.ext_getElem?
  intro i
  show (b.takeD n 0)[i]? = _
  rw [getElem?_takeD, List.getElem?_append, List.getElem?_replicate, List.getD_eq_getElem?_getD]
  by_cases hb : i < b.length
  · simp [hb, show i < n by omega]
  · have hnone : b[i]? = none := List.getElem?_eq_none (by omega)
    simp only [hb, if_false, hnone, Option.getD_none]
    split_ifs <;> first | rfl | omega

theorem ofBytes_append_zeros (b : Bytes) (r : ℕ) :
    ofBytes n (b ++ List.replicate r 0) = ofBytes n b := by
  refine ofBytes_ext fun i _ => ?_
  rw [List.getD_eq_getElem?_getD, List.getD_eq_getElem?_getD, List.getElem?_append,
    List.getElem?_replicate]
  by_cases hb : i < b.length
  · rw [if_pos hb]
  · rw [if_neg hb, List.getElem?_eq_none (Nat.le_of_not_lt hb)]
    split_ifs <;> rfl

theorem ofBytes_append_take (b p : Bytes) :
    ofBytes n (b ++ p.take (n - b.length)) = ofBytes n (b ++ p) := by
  refine ofBytes_ext fun i hi => ?_
  rw [List.getD_eq_getElem?_getD, List.getD_eq_getElem?_getD, List.getElem?_append,
    List.getElem?_append, List.getElem?_take]
  split_ifs <;> first | rfl | omega

/-- Writing the next bytes behind a prefix. -/
theorem blit_ofBytes {b p : Bytes} (h : b.length ≤ n) :
    (ofBytes n b).blit b.length (p.take (n - b.length)) = ofBytes n (b ++ p) := by
  unfold blit
  rw [toList_ofBytes_le h, List.take_left, List.drop_append, List.drop_replicate,
    List.drop_eq_nil_of_le (by omega), List.nil_append, ofBytes_append_zeros, ofBytes_append_take]

theorem ofBytes_append_of_le {b : Bytes} (h : n ≤ b.length) (p : Bytes) :
    ofBytes n (b ++ p) = ofBytes n b := by
  refine ofBytes_ext fun i hi => ?_
  rw [List.getD_eq_getElem?_getD, List.getElem?_append_left (by omega),
    ← List.getD_eq_getElem?_getD]

theorem toList_inj {a b : Buf n} : a.toList = b.toList ↔ a = b :=
  ⟨fun h => Subtype.ext h, fun h => h ▸ rfl⟩

end Buf
