/-
  The pushes of numbers.

  * `numData`: the bytes behind the opcode; `NumData` is what holds of them.
  * `isOp_pushNumber`: a number below 2^32 is pushed by one operation, minimally.
  * `PushSpec`: the same with the length; no other push of the number is shorter
    (`push_number_minimal`).
-/
import BabylonVault.Lib.Numbers
import BabylonVault.Script

namespace BabylonVault
open Bytes Opcodes

variable {n m v : ℕ} {r r' : Bytes}

/-! ## The bytes of a number -/

/-- The bytes that `_push_number` writes behind the opcode. -/
def numData (v : ℕ) : Bytes :=
  if (numBytes 4 v).getLastD 0 &&& 0x80 ≠ 0 then numBytes 4 v ++ [0] else numBytes 4 v

theorem pushNumber_data (h : 16 < v) :
    pushNumber v = UInt8.ofNat (numData v).length :: numData v := by
  rw [pushNumber, if_neg (by omega), if_neg (by omega)]
  rfl

/-- The bytes of a number, up to the last that is not zero. -/
theorem numBytes_concat : ∀ {k v : ℕ}, v ≠ 0 → v < 256 ^ k → ∃ l x, numBytes k v = l ++ [x] ∧
    l.length < k ∧ x ≠ 0 ∧ ofLE (l ++ [x]) = v
  | 0, v, h0, hv => by
    rw [pow_zero] at hv
    omega
  | k + 1, v, h0, hv => by
    have hmod : (UInt8.ofNat v).toNat = v % 256 := UInt8.toNat_ofNat'
    rw [numBytes, if_neg h0]
    by_cases hd : v / 256 = 0
    · have hlt : v < 256 := by omega
      have hx : UInt8.ofNat v ≠ 0 := by
        intro hz
        rw [hz] at hmod
        have : (0 : UInt8).toNat = 0 := rfl
        omega
      have hval : ofLE [UInt8.ofNat v] = v := by
        show (UInt8.ofNat v).toNat + 256 * 0 = v
        omega
      refine ⟨[], UInt8.ofNat v, ?_, Nat.succ_pos k, hx, hval⟩
      rw [hd]
      cases k <;> rfl
    · have hlt : v / 256 < 256 ^ k := by
        rw [pow_succ] at hv
        exact Nat.div_lt_of_lt_mul (by rwa [mul_comm])
      obtain ⟨l, x, hnum, hl, hx, hval⟩ := numBytes_concat hd hlt
      refine ⟨UInt8.ofNat v :: l, x, by rw [hnum]; rfl, Nat.succ_lt_succ hl, hx, ?_⟩
      rw [List.cons_append, ofLE, hval, hmod]
      omega

/-- What holds of the bytes of a number. -/
structure NumData (v : ℕ) (d : Bytes) : Prop where
  length : 1 ≤ d.length ∧ d.length ≤ 5
  value : ofLE d = v
  top : d.getLastD 0 &&& 0x80 = 0
  minimal : minimalNumber d = true
  low : 2 ≤ d.length → 128 * 256 ^ (d.length - 2) ≤ v

theorem numData_spec (h0 : v ≠ 0) (hv : v < 2 ^ 32) : NumData v (numData v) := by
  obtain ⟨l, x, hnum, hl, hx, hval⟩ := numBytes_concat (k := 4) h0 hv
  have hlow := le_ofLE_concat l x
  have hpos : 0 < 256 ^ l.length := Nat.pow_pos (by decide)
  rw [hval] at hlow
  rw [numData, hnum, getLastD_concat]
  split_ifs with htop
  · -- The sign byte is there because the bytes of the number end in a set sign bit.
    have hx128 : 128 ≤ x.toNat := Nat.le_of_not_lt fun hlt => htop ((sign_iff x).2 hlt)
    refine ⟨by simp; omega, ?_, by rw [getLastD_concat]; rfl, minimalNumber_extended htop, fun _ => ?_⟩
    · rw [ofLE_concat, hval]
      exact Nat.add_zero v
    · have hlen : (l ++ [x] ++ [0]).length - 2 = l.length := by simp
      rw [hlen]
      exact (Nat.mul_le_mul_right _ hx128).trans hlow
  · have htop := not_not.1 htop
    have hx1 : 1 ≤ x.toNat := Nat.one_le_iff_ne_zero.2 fun hz => hx (UInt8.toNat_inj.1 hz)
    refine ⟨by simp; omega, hval, by rw [getLastD_concat]; exact htop,
      minimalNumber_concat hx htop, fun h2 => ?_⟩
    have hlen : (l ++ [x]).length - 2 = l.length - 1 := by simp
    have hpow : 256 ^ l.length = 256 * 256 ^ (l.length - 1) := by
      rw [← pow_succ', Nat.sub_add_cancel]
      simpa using h2
    rw [hlen]
    nlinarith

/-! ## The operation -/

/-- A number up to 16 has an opcode of its own. -/
theorem isOp_pushNumber_small (h : n ≤ 16) : ∃ op, IsOp (pushNumber n) op ∧
    op.number = some (n : ℤ) ∧ op.Minimal ∧ (pushNumber n).length = 1 := by
  have hall : ∀ k ≤ 16, pushNumber k = [if k = 0 then 0 else UInt8.ofNat (0x50 + k)] ∧
      Op.number ⟨if k = 0 then 0 else UInt8.ofNat (0x50 + k), []⟩ = some (k : ℤ) ∧
      Op.minimalPush ⟨if k = 0 then 0 else UInt8.ofNat (0x50 + k), []⟩ = true := by decide +kernel
  obtain ⟨hpush, hnum, hmin⟩ := hall n h
  refine ⟨_, ?_, hnum, ⟨hmin, fun _ => rfl⟩, by rw [hpush]; rfl⟩
  rw [hpush]
  split_ifs with h0
  · exact isOp_push rfl (by decide)
  · refine isOp_plain ?_
    rw [UInt8.toNat_ofNat', Nat.mod_eq_of_lt (by omega)]
    omega

/-- A number below 2^32 is pushed by one operation, minimally. -/
theorem isOp_pushNumber (h : n < 2 ^ 32) :
    ∃ op, IsOp (pushNumber n) op ∧ op.number = some (n : ℤ) ∧ op.Minimal := by
  by_cases h16 : n ≤ 16
  · obtain ⟨op, hop, hnum, hmin, -⟩ := isOp_pushNumber_small h16
    exact ⟨op, hop, hnum, hmin⟩
  · have hd := numData_spec (by omega) h
    obtain ⟨hlo, hhi⟩ := hd.length
    have hcode : (UInt8.ofNat (numData n).length).toNat = (numData n).length := by
      rw [UInt8.toNat_ofNat', Nat.mod_eq_of_lt (by omega)]
    have hne : numData n ≠ [] := List.ne_nil_of_length_pos hlo
    refine ⟨⟨UInt8.ofNat (numData n).length, numData n⟩, ?_, ?_, ⟨?_, fun _ => hd.minimal⟩⟩
    · rw [pushNumber_data (by omega)]
      exact isOp_push hcode (by omega)
    · rw [Op.number, if_pos (show (UInt8.ofNat (numData n).length).toNat < 0x4F by omega),
        scriptNum_of_pos hd.top, hd.value]
    · have hone : ¬((numData n).length = 1 ∧
          (1 ≤ ofLE (numData n) ∧ ofLE (numData n) ≤ 16 ∨ ofLE (numData n) = 0x81)) := by
        rintro ⟨h1, hval⟩
        have hlt := ofLE_lt_of_top hne hd.top
        rw [h1, Nat.sub_self, pow_zero] at hlt
        rw [hd.value] at hval hlt
        omega
      unfold Op.minimalPush
      rw [if_neg (by show ¬0x4E < (UInt8.ofNat _).toNat; omega), if_neg hne, if_neg hone,
        if_pos (by show (numData n).length ≤ 75; omega)]
      exact decide_eq_true hcode

theorem length_pushNumber (h : n < 2 ^ 32) :
    1 ≤ (pushNumber n).length ∧ (pushNumber n).length ≤ 6 := by
  by_cases h16 : n ≤ 16
  · obtain ⟨-, -, -, -, hlen⟩ := isOp_pushNumber_small h16
    omega
  · obtain ⟨-, hhi⟩ := (numData_spec (by omega) h).length
    rw [pushNumber_data (by omega), List.length_cons]
    omega

/-- No push of the number is shorter. -/
theorem length_pushNumber_le {b : Bytes} {op : Op} (h : n < 2 ^ 32) (hb : IsOp b op)
    (hn : op.number = some (n : ℤ)) : (pushNumber n).length ≤ b.length := by
  by_cases h16 : n ≤ 16
  · obtain ⟨-, -, -, -, hlen⟩ := isOp_pushNumber_small h16
    rw [hlen]
    exact List.length_pos_iff.2 hb.ne_nil
  · have hd := numData_spec (by omega) h
    obtain ⟨h2, hlt⟩ := hb.lt_of_number hn (by omega)
    rw [pushNumber_data (by omega), List.length_cons]
    by_contra hlong
    have hle : b.length - 2 ≤ (numData n).length - 2 := by omega
    have hpow := Nat.mul_le_mul_left 128 (Nat.pow_le_pow_right (show 0 < 256 by decide) hle)
    exact absurd (hpow.trans (hd.low (by omega))) (Nat.not_le.2 hlt)

/-- A number is read off the front of whatever follows its push. -/
theorem pushNumber_append_inj (h : n < 2 ^ 32) (hm : m < 2 ^ 32)
    (he : pushNumber n ++ r = pushNumber m ++ r') : n = m := by
  obtain ⟨op, hop, hnum, -⟩ := isOp_pushNumber h
  obtain ⟨op', hop', hnum', -⟩ := isOp_pushNumber hm
  have hget := getOp_isOp hop r
  rw [he, getOp_isOp hop'] at hget
  obtain ⟨rfl, -⟩ := Prod.mk.inj (Option.some.inj hget)
  rw [hnum] at hnum'
  exact_mod_cast Option.some.inj hnum'

/-- The push of a number. -/
structure PushSpec (n : ℕ) : Prop where
  length : 1 ≤ (pushNumber n).length ∧ (pushNumber n).length ≤ 6
  single : ∃ op, ops (pushNumber n) = some [op] ∧ op.number = some (n : ℤ) ∧ op.Minimal
  shortest : ∀ b op, IsOp b op → op.number = some (n : ℤ) → (pushNumber n).length ≤ b.length

/-- Every 32-bit number is pushed minimally, and no push is the beginning of another. -/
theorem push_number_minimal : (∀ n : UInt32, PushSpec n.toNat) ∧
    ∀ n m : UInt32, pushNumber n.toNat <+: pushNumber m.toNat → n = m := by
  constructor
  · intro n
    obtain ⟨op, hop, hnum, hmin⟩ := isOp_pushNumber n.toNat_lt
    refine ⟨length_pushNumber n.toNat_lt, ⟨op, ?_, hnum, hmin⟩,
      fun b op => length_pushNumber_le n.toNat_lt⟩
    have hops := ops_isOp_append (s := []) hop
    rwa [List.append_nil] at hops
  · rintro n m ⟨r, hr⟩
    have heq : pushNumber n.toNat ++ r = pushNumber m.toNat ++ [] := by rw [hr, List.append_nil]
    exact UInt32.toNat_inj.1 (pushNumber_append_inj n.toNat_lt m.toNat_lt heq)

end BabylonVault
