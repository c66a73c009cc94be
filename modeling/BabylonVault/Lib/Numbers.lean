/-
  Numbers that a script pushes.

  * `Op.minimalPush`, `minimalNumber`: what the MINIMALDATA rule asks of a push and of a
    number (`CheckMinimalPush`, and `CScriptNum` with `fRequireMinimal`).
  * `ofLE_lt_of_top`, `le_ofLE_concat`: what the last byte says about a number.
  * `IsOp.lt_of_number`: how long the push of a number must be.
-/
import BabylonVault.Lib.Opcodes

namespace Opcodes
open Bytes

/-! ## The MINIMALDATA rule -/

/-- The shortest opcode for what is pushed; the opcodes that push no data are. -/
def Op.minimalPush (op : Op) : Bool :=
  if 0x4E < op.code.toNat then true
  else if op.data = [] then op.code = 0
  else if op.data.length = 1 ∧ (1 ≤ ofLE op.data ∧ ofLE op.data ≤ 16 ∨ ofLE op.data = 0x81) then false
  else if op.data.length ≤ 75 then op.code.toNat = op.data.length
  else if op.data.length ≤ 255 then op.code = 0x4C
  else if op.data.length ≤ 65535 then op.code = 0x4D
  else true

/-- A number without a last byte that it could do without. -/
def minimalNumber (b : Bytes) : Bool :=
  if b = [] ∨ b.getLastD 0 &&& 0x7F ≠ 0 then true
  else 1 < b.length ∧ b.getD (b.length - 2) 0 &&& 0x80 ≠ 0

/-- The push of a number as the rule wants it. -/
structure Op.Minimal (op : Op) : Prop where
  push : op.minimalPush = true
  number : op.code.toNat ≤ 0x4E → minimalNumber op.data = true

variable {b l : Bytes} {op : Op} {x : UInt8} {n : ℕ}

/-! ## The last byte -/

theorem ofLE_concat (l : Bytes) (x : UInt8) : ofLE (l ++ [x]) = ofLE l + 256 ^ l.length * x.toNat := by
  rw [ofLE_append]
  rfl

theorem le_ofLE_concat (l : Bytes) (x : UInt8) : x.toNat * 256 ^ l.length ≤ ofLE (l ++ [x]) := by
  rw [ofLE_concat, mul_comm]
  exact Nat.le_add_left _ _

theorem getLastD_concat (l : Bytes) (x : UInt8) : (l ++ [x]).getLastD 0 = x := by
  rw [List.getLastD_eq_getLast?, List.getLast?_concat, Option.getD_some]

/-- A number with its sign bit clear. -/
theorem ofLE_lt_of_top (hne : b ≠ []) (h : b.getLastD 0 &&& 0x80 = 0) :
    ofLE b < 128 * 256 ^ (b.length - 1) := by
  obtain ⟨l, x, rfl⟩ := (List.eq_nil_or_concat' b).resolve_left hne
  rw [getLastD_concat, sign_iff] at h
  have hl := ofLE_lt l
  have hx : 256 ^ l.length * x.toNat ≤ 256 ^ l.length * 127 := Nat.mul_le_mul_left _ (by omega)
  rw [ofLE_concat, List.length_append, List.length_singleton, Nat.add_sub_cancel]
  omega

/-- A last byte that is not zero, with its sign bit clear. -/
theorem minimalNumber_concat (hx : x ≠ 0) (htop : x &&& 0x80 = 0) :
    minimalNumber (l ++ [x]) = true := by
  have h : ∀ y : UInt8, y ≠ 0 → y &&& 0x80 = 0 → y &&& 0x7F ≠ 0 := forall_byte (by decide +kernel)
  refine if_pos (.inr ?_)
  rw [getLastD_concat]
  exact h x hx htop

/-- A zero behind a byte whose sign bit is set. -/
theorem minimalNumber_extended (htop : x &&& 0x80 ≠ 0) : minimalNumber (l ++ [x] ++ [0]) = true := by
  have hlen : (l ++ [x] ++ [0]).length = l.length + 2 := by simp
  have hget : (l ++ [x] ++ [0]).getD l.length 0 = x := by simp
  unfold minimalNumber
  split_ifs with h
  · rfl
  · refine decide_eq_true ⟨by omega, ?_⟩
    rw [hlen, Nat.add_sub_cancel, hget]
    exact htop

/-! ## The push of a number -/

/-- A push of a number above 16 has room for the number and its sign. -/
theorem IsOp.lt_of_number (h : IsOp b op) (hn : op.number = some (n : ℤ)) (h16 : 16 < n) :
    2 ≤ b.length ∧ n < 128 * 256 ^ (b.length - 2) := by
  obtain ⟨pre, rfl, -, -⟩ := h.split
  have hnum : scriptNum op.data = n := by
    unfold Op.number at hn
    split_ifs at hn with h1 h2 h3
    · exact Option.some.inj hn
    · have := Option.some.inj hn
      omega
    · have := Option.some.inj hn
      omega
  have htop := top_of_scriptNum_pos (b := op.data) (by omega)
  have hval : ofLE op.data = n := by
    rw [scriptNum_of_pos htop] at hnum
    exact_mod_cast hnum
  have hne : op.data ≠ [] := by
    intro hnil
    rw [hnil] at hval
    exact absurd (hval.trans_gt h16) (by decide)
  have hpos := List.length_pos_iff.2 hne
  have hlt := ofLE_lt_of_top hne htop
  rw [hval] at hlt
  have hlen : (op.code :: (pre ++ op.data)).length = pre.length + op.data.length + 1 := by simp
  rw [hlen]
  refine ⟨by omega, hlt.trans_le (Nat.mul_le_mul_left _ (Nat.pow_le_pow_right (by decide) ?_))⟩
  omega

end Opcodes
