/-
  The leaves that end in a timelock.

  * `RefundScript`: the grammar of the refund leaf; the parser takes exactly this
    (`parseRefundLeafScript_grammar`), and reads nothing outside of the script
    (`parseRefundLeafScriptAt_eq`).
  * `TailOnBoundary`: the payout parser reads its timelock off the end of the script; it is
    the one that the script enforces when the reading starts between two operations
    (`payoutTimelock_iff`).
-/
import BabylonVault.Lib.Opcodes
import BabylonVault.Patterns
import BabylonVault.Pushes

namespace BabylonVault
open Bytes Opcodes

variable {E : Env} {ls : List Exchange} {d : Device} {key : Bytes32} {csv n : ℕ}
  {s script rest P : Bytes}

/-! ## The refund leaf -/

/-- A push of a timelock: OP_1 to OP_16, or one to four bytes behind their length, with or
    without OP_PUSHDATA1. -/
def TimelockPush (csv : ℕ) (P : Bytes) : Prop := ∃ op, IsOp P op ∧ op.number = some (csv : ℤ) ∧
  ((op1 ≤ op.code ∧ op.code ≤ op16) ∨
    op.code ≤ opPushdata1 ∧ 1 ≤ op.data.length ∧ op.data.length ≤ 4)

/-- A refund leaf. -/
structure RefundScript (s : Bytes) (key : Bytes32) (csv : ℕ) : Prop where
  shape : ∃ P, s = keyEntry key opChecksigverify ++ P ++ [opCsv] ∧ TimelockPush csv P
  range : 1 ≤ csv ∧ csv ≤ 65535

/-- The bytes of a number, off the front of a script. -/
theorem csvNum_iff (hn : 1 ≤ n) (hc : 1 ≤ csv) :
    (if n > 4 ∨ n > script.length then none
      else if script.getD (n - 1) 0 &&& 0x80 ≠ 0 then none
      else some (ofLE (script.take n), script.drop n)) = some (csv, rest) ↔
    ∃ data, script = data ++ rest ∧ data.length = n ∧ n ≤ 4 ∧ scriptNum data = csv := by
  have hlast : ∀ data : Bytes, data.length = n → data.getLastD 0 = data.getD (n - 1) 0 := by
    rintro data rfl
    exact getLastD_eq_getD
  constructor
  · intro h
    split_ifs at h with h1 h2
    cases h
    have hlen : (script.take n).length = n := by
      rw [List.length_take]
      omega
    refine ⟨script.take n, (List.take_append_drop n script).symm, hlen, by omega, ?_⟩
    refine scriptNum_of_pos ?_
    rw [hlast _ hlen, List.getD_eq_getElem?_getD, List.getElem?_take_of_lt (by omega),
      ← List.getD_eq_getElem?_getD]
    exact not_not.1 h2
  · rintro ⟨data, rfl, hlen, h4, hnum⟩
    have hget : (data ++ rest).getD (n - 1) 0 = data.getLastD 0 := by
      rw [List.getD_append _ _ _ _ (by omega), hlast data hlen]
    have htop := top_of_scriptNum_pos (b := data) (by omega)
    have hval : ofLE data = csv := by
      rw [scriptNum_of_pos htop] at hnum
      exact_mod_cast hnum
    rw [if_neg (by rw [List.length_append]; omega), hget, if_neg (not_not.2 htop),
      List.take_left' hlen, List.drop_left' hlen, hval]

/-- The three forms of a push. -/
theorem timelockPush_iff (hc : 1 ≤ csv) : TimelockPush csv P ↔
    (∃ c : UInt8, P = [c] ∧ op1 ≤ c ∧ c ≤ op16 ∧ csv = c.toNat - 0x50) ∨
    ∃ data, 1 ≤ data.length ∧ data.length ≤ 4 ∧ scriptNum data = csv ∧
      (P = UInt8.ofNat data.length :: data ∨ P = opPushdata1 :: UInt8.ofNat data.length :: data) := by
  have h1 : op1.toNat = 0x51 := rfl
  have h16 : op16.toNat = 0x60 := rfl
  have hpd : opPushdata1.toNat = 0x4C := rfl
  have h4f : (0x4F : UInt8).toNat = 0x4F := rfl
  constructor
  · rintro ⟨op, hop, hnum, ⟨hlo, hhi⟩ | ⟨hcode, hlo, hhi⟩⟩
    · rw [UInt8.le_iff_toNat_le] at hlo hhi
      rw [Op.number, if_neg (by omega), if_neg (by rw [← UInt8.toNat_inj]; omega),
        if_pos (by omega), Option.some.injEq] at hnum
      refine .inl ⟨op.code, ((isOp_plain_iff (by omega)).1 hop).1, ?_, ?_, by omega⟩
      · rwa [UInt8.le_iff_toNat_le]
      · rwa [UInt8.le_iff_toNat_le]
    · rw [UInt8.le_iff_toNat_le, hpd] at hcode
      rw [Op.number, if_pos (by omega), Option.some.injEq] at hnum
      obtain ⟨pre, hP, hpre, hdata⟩ := hop.split
      refine .inr ⟨op.data, hlo, hhi, hnum, ?_⟩
      by_cases hlt : op.code.toNat < 0x4C
      · rw [prefixLen_eq_zero (.inl hlt)] at hpre
        obtain rfl := List.eq_nil_of_length_eq_zero hpre
        rw [pushLen, if_pos hlt] at hdata
        exact .inl (by rw [hP, hdata, UInt8.ofNat_toNat]; rfl)
      · have hcode : op.code = opPushdata1 := by
          rw [← UInt8.toNat_inj]
          omega
        rw [hcode] at hpre hdata hP
        obtain ⟨x, rfl⟩ := List.length_eq_one_iff.1 hpre
        have hx : op.data.length = x.toNat + 256 * 0 := hdata
        exact .inr (by rw [hP, hx, Nat.mul_zero, Nat.add_zero, UInt8.ofNat_toNat]; rfl)
  · rintro (⟨c, rfl, hlo, hhi, rfl⟩ | ⟨data, hlo, hhi, hnum, rfl | rfl⟩)
    · have hlo' := UInt8.le_iff_toNat_le.1 hlo
      have hhi' := UInt8.le_iff_toNat_le.1 hhi
      refine ⟨⟨c, []⟩, isOp_plain (by omega), ?_, .inl ⟨hlo, hhi⟩⟩
      rw [Op.number, if_neg (by show ¬c.toNat < 0x4F; omega),
        if_neg (by show ¬c = 0x4F; rw [← UInt8.toNat_inj]; omega),
        if_pos (by show 0x51 ≤ c.toNat ∧ c.toNat ≤ 0x60; omega)]
      show some ((c.toNat : ℤ) - 0x50) = _
      congr 1
      omega
    · have hk := toNat_ofNat_byte (show data.length < 256 by omega)
      refine ⟨⟨UInt8.ofNat data.length, data⟩, isOp_push hk (by omega), ?_, .inr ⟨?_, hlo, hhi⟩⟩
      · rw [Op.number, if_pos (by show (UInt8.ofNat data.length).toNat < 0x4F; omega), hnum]
      · show UInt8.ofNat data.length ≤ opPushdata1
        rw [UInt8.le_iff_toNat_le]
        omega
    · have hk := toNat_ofNat_byte (show data.length < 256 by omega)
      refine ⟨⟨opPushdata1, data⟩, isOp_pushdata1 hk, ?_, .inr ⟨UInt8.le_refl _, hlo, hhi⟩⟩
      rw [Op.number, if_pos (by show opPushdata1.toNat < 0x4F; omega), hnum]

/-- The push of the refund parser. -/
theorem parseCsvPush_iff (hc : 1 ≤ csv) : parseCsvPush script = some (csv, rest) ↔
    ∃ P, script = P ++ rest ∧ TimelockPush csv P := by
  have h0 : op0.toNat = 0 := rfl
  have h1 : op1.toNat = 0x51 := rfl
  have h16 : op16.toNat = 0x60 := rfl
  have hr : opReserved.toNat = 0x50 := rfl
  have h75 : opPushbytes75.toNat = 75 := rfl
  have hb1 : opPushbytes1.toNat = 1 := rfl
  have hpd : opPushdata1.toNat = 0x4C := rfl
  simp only [timelockPush_iff hc]
  constructor
  · intro h
    rcases script with _ | ⟨pushOp, script⟩
    · cases h
    unfold parseCsvPush at h
    dsimp only at h
    by_cases hz : pushOp = op0
    · rw [if_pos hz] at h
      cases h
    rw [if_neg hz] at h
    by_cases hb : opPushbytes1 ≤ pushOp ∧ pushOp ≤ opPushbytes75
    · -- A direct push.
      rw [if_pos hb] at h
      rw [UInt8.le_iff_toNat_le, hb1] at hb
      obtain ⟨data, rfl, hlen, h4, hnum⟩ := (csvNum_iff hb.1 hc).1 h
      refine ⟨pushOp :: data, rfl, .inr ⟨data, by omega, by omega, hnum, .inl ?_⟩⟩
      rw [hlen, UInt8.ofNat_toNat]
    rw [if_neg hb] at h
    by_cases hp : pushOp = opPushdata1
    · rw [if_pos hp] at h
      rcases script with _ | ⟨len, script⟩
      · cases h
      dsimp only at h
      by_cases hlen : len = 0
      · rw [if_pos hlen] at h
        cases h
        omega
      · rw [if_neg hlen] at h
        rw [← UInt8.toNat_inj] at hlen
        have hpos : 1 ≤ len.toNat := Nat.one_le_iff_ne_zero.2 hlen
        obtain ⟨data, rfl, hlen, h4, hnum⟩ := (csvNum_iff hpos hc).1 h
        refine ⟨pushOp :: len :: data, rfl, .inr ⟨data, by omega, by omega, hnum, .inr ?_⟩⟩
        rw [hlen, UInt8.ofNat_toNat, hp]
    rw [if_neg hp] at h
    obtain ⟨hs, h⟩ := Option.ite_none_right_eq_some.1 h
    cases h
    refine ⟨[pushOp], rfl, .inl ⟨pushOp, rfl, hs.1, hs.2, ?_⟩⟩
    have hlo := UInt8.le_iff_toNat_le.1 hs.1
    rw [UInt8.toNat_sub_of_le _ _ (UInt8.le_iff_toNat_le.2 (by omega)), hr]
  · rintro ⟨P, rfl, ⟨c, rfl, hlo, hhi, rfl⟩ | ⟨data, hlo, hhi, hnum, rfl | rfl⟩⟩
    · have hlo' := UInt8.le_iff_toNat_le.1 hlo
      have hhi' := UInt8.le_iff_toNat_le.1 hhi
      show (if c = op0 then none else _) = _
      rw [if_neg (by rw [← UInt8.toNat_inj]; omega),
        if_neg (by simp only [UInt8.le_iff_toNat_le]; omega),
        if_neg (by rw [← UInt8.toNat_inj]; omega), if_pos ⟨hlo, hhi⟩,
        UInt8.toNat_sub_of_le _ _ (UInt8.le_iff_toNat_le.2 (by omega)), hr]
      rfl
    · have hk := toNat_ofNat_byte (show data.length < 256 by omega)
      show (if UInt8.ofNat data.length = op0 then none else _) = _
      rw [if_neg (by rw [← UInt8.toNat_inj]; omega),
        if_pos (by simp only [UInt8.le_iff_toNat_le]; omega), hk]
      exact (csvNum_iff hlo hc).2 ⟨data, rfl, rfl, hhi, hnum⟩
    · have hk := toNat_ofNat_byte (show data.length < 256 by omega)
      show (if UInt8.ofNat data.length = 0 then _ else _) = _
      rw [if_neg (by rw [← UInt8.toNat_inj]; show ¬(UInt8.ofNat data.length).toNat = 0; omega), hk]
      exact (csvNum_iff hlo hc).2 ⟨data, rfl, rfl, hhi, hnum⟩

/-- A script that begins with a key. -/
theorem eq_keyEntry_append {op : UInt8} (hlen : 34 ≤ s.length) (h0 : s.getD 0 0 = opPushbytes32)
    (h33 : s.getD 33 0 = op) (hkey : Buf.slice 32 s 1 = key) : s = keyEntry key op ++ s.drop 34 := by
  have hk : key.toList = (s.drop 1).take 32 := by
    rw [← hkey, Buf.slice]
    show (s.drop 1).takeD 32 0 = _
    rw [List.takeD_eq_take _ (by rw [List.length_drop]; omega)]
  have hcons : s = s.getD 0 0 :: s.drop 1 := by
    rw [List.getD_eq_getElem _ _ (by omega)]
    exact (List.drop_eq_getElem_cons (i := 0) (by omega))
  have hmid : (s.drop 1).drop 32 = s.getD 33 0 :: s.drop 34 := by
    rw [List.drop_drop, List.getD_eq_getElem _ _ (by omega)]
    exact List.drop_eq_getElem_cons (by omega)
  rw [keyEntry, hk, ← h0, ← h33]
  show s = s.getD 0 0 :: ((s.drop 1).take 32 ++ [s.getD 33 0] ++ s.drop 34)
  rw [List.append_assoc, List.singleton_append, ← hmid, List.take_append_drop, ← hcons]

/-- The parser takes exactly the grammar. -/
theorem parseRefundLeafScript_grammar :
    parseRefundLeafScript s = some (key, csv) ↔ RefundScript s key csv := by
  rw [parseRefundLeafScript_iff]
  constructor
  · rintro ⟨h36, h0, h33, hpush, hrange, hkey⟩
    obtain ⟨P, hP, hcsv⟩ := (parseCsvPush_iff hrange.1).1 hpush
    refine ⟨⟨P, ?_, hcsv⟩, hrange⟩
    rw [List.append_assoc, ← hP]
    exact eq_keyEntry_append (by omega) h0 h33 hkey
  · rintro ⟨⟨P, rfl, hcsv⟩, hrange⟩
    have hne : P ≠ [] := by
      obtain ⟨op, hop, -⟩ := hcsv
      exact hop.ne_nil
    have hpos := List.length_pos_iff.2 hne
    obtain ⟨h0, h33, hkey⟩ := head_keyEntry key opChecksigverify (P ++ [opCsv])
    rw [List.append_assoc]
    refine ⟨?_, h0, h33, ?_, hrange, hkey⟩
    · rw [List.length_append, length_keyEntry, List.length_append, List.length_singleton]
      omega
    · rw [List.drop_left' length_keyEntry]
      exact (parseCsvPush_iff hrange.1).2 ⟨P, rfl, hcsv⟩

/-! ### The reads -/

/-- A number of `len` bytes at a position, every read checked: none when one of them lies
    outside. The number, and the position behind it. -/
def csvNumAt (script : Bytes) (pos len : ℕ) : Option (Option (ℕ × ℕ)) :=
  if len > 4 ∨ pos + len > script.length then some none
  else
    script[pos + len - 1]?.bind fun sign =>
    if sign &&& 0x80 ≠ 0 then some none
    else (readAt script pos len).bind fun data => some (some (ofLE data, pos + len))

/-- The push whose opcode stands in front of a position. -/
def csvPushAt (script : Bytes) (pos : ℕ) (pushOp : UInt8) : Option (Option (ℕ × ℕ)) :=
  if pushOp = op0 then some none
  else if opPushbytes1 ≤ pushOp ∧ pushOp ≤ opPushbytes75 then csvNumAt script pos pushOp.toNat
  else if pushOp = opPushdata1 then
    if pos ≥ script.length then some none
    else script[pos]?.bind fun len => csvNumAt script (pos + 1) len.toNat
  else if op1 ≤ pushOp ∧ pushOp ≤ op16 then some (some ((pushOp - opReserved).toNat, pos))
  else some none

/-- `parse_refund_leaf_script` over the script in place. -/
def parseRefundLeafScriptAt (script : Bytes) : Option (Option (Bytes32 × ℕ)) :=
  if script.length < 36 then some none
  else
    script[0]?.bind fun b =>
    if b ≠ opPushbytes32 then some none
    else
      (readAt script 1 32).bind fun leafKey =>
      script[33]?.bind fun b =>
      if b ≠ opChecksigverify then some none
      else if 34 ≥ script.length then some none
      else
        script[34]?.bind fun pushOp =>
        (csvPushAt script 35 pushOp).bind fun r =>
        match r with
        | none => some none
        | some (csv, pos) =>
          if csv = 0 then some none
          else if csv > bip68SequenceMask.toNat then some none
          else if pos ≥ script.length then some none
          else
            script[pos]?.bind fun b =>
            if b ≠ opCsv then some none
            else if pos + 1 ≠ script.length then some none
            else some (some (Buf.ofBytes 32 leafKey, csv))

/-- With a zero length the sign is looked for in the length byte. -/
theorem csvNumAt_zero {pos : ℕ} (hpos : 1 ≤ pos) (hp : pos ≤ s.length)
    (hz : s.getD (pos - 1) 0 = 0) : csvNumAt s pos 0 = some (some (0, pos)) := by
  rw [csvNumAt, if_neg (by omega), Nat.add_zero, getElem?_eq_getD (by omega), hz, Option.bind_some,
    if_neg (by decide), readAt_of_le (by omega), List.take_zero]
  rfl

/-- A number in place. -/
theorem csvNumAt_pos {pos : ℕ} (hn : 1 ≤ n) (hp : pos ≤ s.length) :
    csvNumAt s pos n = some ((if n > 4 ∨ n > (s.drop pos).length then none
      else if (s.drop pos).getD (n - 1) 0 &&& 0x80 ≠ 0 then none
      else some (ofLE ((s.drop pos).take n), (s.drop pos).drop n)).map
        fun r => (r.1, s.length - r.2.length)) := by
  have hlen : (s.drop pos).length = s.length - pos := List.length_drop
  rw [csvNumAt, hlen]
  by_cases h : n > 4 ∨ pos + n > s.length
  · rw [if_pos h, if_pos (by omega)]
    rfl
  · have hget : (s.drop pos).getD (n - 1) 0 = s.getD (pos + n - 1) 0 := by
      rw [List.getD_eq_getElem?_getD, List.getElem?_drop, ← List.getD_eq_getElem?_getD,
        show pos + (n - 1) = pos + n - 1 by omega]
    rw [if_neg h, if_neg (by omega), getElem?_eq_getD (by omega), Option.bind_some, hget]
    by_cases hs : s.getD (pos + n - 1) 0 &&& 0x80 ≠ 0
    · rw [if_pos hs, if_pos hs]
      rfl
    · rw [if_neg hs, if_neg hs, readAt_of_le (by omega), Option.bind_some, Option.map_some]
      dsimp only
      rw [List.length_drop, hlen, show s.length - (s.length - pos - n) = pos + n by omega]

/-- A push in place. -/
theorem csvPushAt_eq {pos : ℕ} {pushOp : UInt8} (hpos : pos ≤ s.length) :
    csvPushAt s pos pushOp = some ((parseCsvPush (pushOp :: s.drop pos)).map
      fun r => (r.1, s.length - r.2.length)) := by
  have hlen : (s.drop pos).length = s.length - pos := List.length_drop
  unfold csvPushAt parseCsvPush
  dsimp only
  by_cases hz : pushOp = op0
  · rw [if_pos hz, if_pos hz]
    rfl
  rw [if_neg hz, if_neg hz]
  by_cases hb : opPushbytes1 ≤ pushOp ∧ pushOp ≤ opPushbytes75
  · have hone : 1 ≤ pushOp.toNat := UInt8.le_iff_toNat_le.1 hb.1
    rw [if_pos hb, if_pos hb, csvNumAt_pos hone hpos]
  rw [if_neg hb, if_neg hb]
  by_cases hp : pushOp = opPushdata1
  · rw [if_pos hp, if_pos hp]
    by_cases hend : pos ≥ s.length
    · rw [if_pos hend, List.drop_eq_nil_of_le hend]
      rfl
    · have hcons := List.drop_eq_getElem_cons (l := s) (i := pos) (by omega)
      rw [← List.getD_eq_getElem _ 0 (by omega)] at hcons
      rw [if_neg hend, getElem?_eq_getD (by omega), Option.bind_some, hcons]
      dsimp only
      by_cases hl : s.getD pos 0 = 0
      · rw [if_pos hl, hl]
        show csvNumAt s (pos + 1) 0 = _
        rw [csvNumAt_zero (by omega) (by omega) (by rw [Nat.add_sub_cancel]; exact hl)]
        show _ = some (some (0, s.length - (s.drop (pos + 1)).length))
        rw [List.length_drop, show s.length - (s.length - (pos + 1)) = pos + 1 by omega]
      · have hone : 1 ≤ (s.getD pos 0).toNat := by
          rw [← UInt8.toNat_inj] at hl
          exact Nat.one_le_iff_ne_zero.2 hl
        rw [if_neg hl, csvNumAt_pos hone (by omega)]
  rw [if_neg hp, if_neg hp]
  by_cases hs : op1 ≤ pushOp ∧ pushOp ≤ op16
  · rw [if_pos hs, if_pos hs, Option.map_some, hlen, show s.length - (s.length - pos) = pos by omega]
  · rw [if_neg hs, if_neg hs]
    rfl

/-- No read lies outside. -/
theorem parseRefundLeafScriptAt_eq (s : Bytes) :
    parseRefundLeafScriptAt s = some (parseRefundLeafScript s) := by
  unfold parseRefundLeafScriptAt parseRefundLeafScript
  by_cases h36 : s.length < 36
  · rw [if_pos h36, if_pos h36]
  rw [if_neg h36, if_neg h36, getElem?_eq_getD (by omega), Option.bind_some]
  by_cases h0 : s.getD 0 0 ≠ opPushbytes32
  · rw [if_pos h0, if_pos h0]
  rw [if_neg h0, if_neg h0, readAt_of_le (by omega), Option.bind_some, getElem?_eq_getD (by omega),
    Option.bind_some]
  by_cases h33 : s.getD 33 0 ≠ opChecksigverify
  · rw [if_pos h33, if_pos h33]
  have hcons := List.drop_eq_getElem_cons (l := s) (i := 34) (by omega)
  rw [← List.getD_eq_getElem _ 0 (by omega)] at hcons
  rw [if_neg h33, if_neg h33, if_neg (by omega), getElem?_eq_getD (by omega), Option.bind_some]
  rw [csvPushAt_eq (by omega), ← hcons, Option.bind_some]
  rcases hp : parseCsvPush (s.drop 34) with _ | ⟨csv, rest⟩
  · rfl
  dsimp only [Option.map_some]
  by_cases hc : csv = 0
  · rw [if_pos hc, if_pos hc]
  rw [if_neg hc, if_neg hc]
  by_cases hm : csv > bip68SequenceMask.toNat
  · rw [if_pos hm, if_pos hm]
  rw [if_neg hm, if_neg hm]
  -- What is left is a suffix of the script.
  obtain ⟨pre, hpre⟩ := (parseCsvPush_suffix hp).trans (List.drop_suffix 34 s)
  have hl := congrArg List.length hpre
  rw [List.length_append] at hl
  have hdrop : s.drop (s.length - rest.length) = rest := by
    rw [← hpre, List.drop_left' (by rw [List.length_append]; omega)]
  have hkey : Buf.ofBytes 32 ((s.drop 1).take 32) = Buf.slice 32 s 1 := by
    refine Buf.ofBytes_ext fun i hi => ?_
    rw [List.getD_eq_getElem?_getD, List.getElem?_take_of_lt hi, ← List.getD_eq_getElem?_getD]
  rcases rest with _ | ⟨b, rest⟩
  · rw [if_pos (by rw [List.length_nil]; omega), if_pos (List.cons_ne_nil _ _).symm]
  rw [List.length_cons] at hl hdrop ⊢
  have hhead : s.getD (s.length - (rest.length + 1)) 0 = b := by
    rw [List.getD_eq_getElem?_getD, ← List.head?_drop, hdrop]
    rfl
  rw [if_neg (by omega), getElem?_eq_getD (by omega), Option.bind_some, hhead]
  by_cases hb : b ≠ opCsv
  · rw [if_pos hb, if_pos fun he => hb (List.cons.inj he).1]
  rw [not_not] at hb
  rw [if_neg (not_not.2 hb)]
  by_cases hr : rest = []
  · rw [hr, hb, if_neg (by rw [List.length_nil]; omega), if_neg (not_not.2 rfl), hkey]
  · have := List.length_pos_iff.2 hr
    rw [if_pos (by omega), if_pos fun he => hr (List.cons.inj he).2]

/-- The refund parser: its grammar, its reads, and the leaf that the device builds. -/
structure RefundParser (it : VaultIntent) : Prop where
  grammar : ∀ s key csv, parseRefundLeafScript s = some (key, csv) ↔ RefundScript s key csv
  inside : ∀ s, parseRefundLeafScriptAt s = some (parseRefundLeafScript s)
  built : Builds (vaultBuildHtlcLeaf1 it) fun leaf =>
    parseRefundLeafScript leaf = some (it.depositorPk, it.htlcRefundTimelock)

/-- The parser takes exactly the refund leaves, among them the one of a loaded intent. -/
theorem Reach.refund_parser_reads (h : Reach E ls d) (hl : d.ctx.state = .intentLoaded) :
    RefundParser d.intent := by
  have hshapes := ((h.session.loaded hl).intent).leafShapes
  constructor
  · intro s key csv
    exact parseRefundLeafScript_grammar
  · exact parseRefundLeafScriptAt_eq
  · exact ⟨hshapes.refund.1, fun n leaf hb => (hshapes.refund.2 n leaf hb).2⟩

open Signet in
theorem refund_parser_reads_signet : RefundParser (loaded intent).intent :=
  (reach_loaded intent).refund_parser_reads loaded_state

/-! ## The payout leaf -/

/-- The operations of a script end with a push of `t` and OP_CHECKSEQUENCEVERIFY. -/
def EndsInTimelock (s : Bytes) (t : ℕ) : Prop := ∃ l op last,
  ops s = some (l ++ [op] ++ [last]) ∧ op.number = some (t : ℤ) ∧ last.code = opCsv

/-- The bytes that the payout parser takes for the timelock. -/
def tailWidth (s : Bytes) : ℕ :=
  let n := s.length
  let two := (s.getD (n - 3) 0).toNat + 256 * (s.getD (n - 2) 0).toNat
  if s.getD (n - 4) 0 = opPushbytes2 ∧ s.getD (n - 2) 0 &&& 0x80 = 0 ∧
    payoutTimelockMin ≤ two ∧ two ≤ payoutTimelockMax then 2 else 1

/-- The bytes in front of the push that the payout parser reads are whole operations, or
    whole operations and OP_PUSHDATA1. -/
def TailOnBoundary (s : Bytes) : Prop :=
  let n := s.length - (tailWidth s + 2)
  (ops (s.take n)).isSome = true ∨
    s.getD (n - 1) 0 = opPushdata1 ∧ (ops (s.take (n - 1))).isSome = true

instance (s : Bytes) : Decidable (TailOnBoundary s) := inferInstanceAs (Decidable (_ ∨ _))

/-- The script around the timelock that is read off its end. -/
theorem payoutTail_split (h : payoutTail s = some csv) (hlen : 4 ≤ s.length) : ∃ H T,
    s = H ++ UInt8.ofNat T.length :: T ++ [s.getLastD 0] ∧ T.length = tailWidth s ∧
      T.length < 0x4C ∧ T.getLastD 0 &&& 0x80 = 0 ∧ ofLE T = csv ∧ 16 < csv := by
  have hget : ∀ i, 1 ≤ i → i ≤ s.length →
      s.drop (s.length - i) = s.getD (s.length - i) 0 :: s.drop (s.length - (i - 1)) := by
    intro i h1 hi
    rw [List.getD_eq_getElem _ _ (by omega), show s.length - (i - 1) = s.length - i + 1 by omega]
    exact List.drop_eq_getElem_cons (by omega)
  have h4 := hget 4 (by omega) (by omega)
  have h3 := hget 3 (by omega) (by omega)
  have h2 := hget 2 (by omega) (by omega)
  have h1 := hget 1 (by omega) (by omega)
  rw [Nat.sub_self, Nat.sub_zero, List.drop_length, ← getLastD_eq_getD] at h1
  have hmin : payoutTimelockMin = 90 := rfl
  have hmax : payoutTimelockMax = 4032 := rfl
  unfold payoutTail at h
  unfold tailWidth
  dsimp only at h ⊢
  by_cases htwo : s.getD (s.length - 4) 0 = opPushbytes2 ∧ s.getD (s.length - 2) 0 &&& 0x80 = 0 ∧
      payoutTimelockMin ≤ (s.getD (s.length - 3) 0).toNat + 256 * (s.getD (s.length - 2) 0).toNat ∧
      (s.getD (s.length - 3) 0).toNat + 256 * (s.getD (s.length - 2) 0).toNat ≤ payoutTimelockMax
  · rw [if_pos htwo] at h ⊢
    obtain ⟨hop, htop, hlo, hhi⟩ := htwo
    refine ⟨s.take (s.length - 4), [s.getD (s.length - 3) 0, s.getD (s.length - 2) 0], ?_, rfl,
      Nat.lt_of_sub_eq_succ rfl, htop, ?_, ?_⟩
    · nth_rewrite 1 [← List.take_append_drop (s.length - 4) s]
      rw [h4, h3, h2, h1, hop, List.append_assoc]
      rfl
    · rw [← Option.some.inj h]
      show _ + 256 * (_ + 256 * 0) = _
      omega
    · have := Option.some.inj h
      omega
  · rw [if_neg htwo] at h ⊢
    obtain ⟨⟨hop, hlo, hhi, htop⟩, h⟩ := Option.ite_none_right_eq_some.1 h
    refine ⟨s.take (s.length - 3), [s.getD (s.length - 2) 0], ?_, rfl,
      Nat.lt_of_sub_eq_succ rfl, ?_, ?_, ?_⟩
    · nth_rewrite 1 [← List.take_append_drop (s.length - 3) s]
      rw [h3, h2, h1, hop, List.append_assoc]
      rfl
    · exact (sign_iff (s.getD (s.length - 2) 0)).2 (by omega)
    · rw [← Option.some.inj h]
      show _ + 256 * 0 = _
      omega
    · have := Option.some.inj h
      omega

/-- A script that ends in OP_CHECKSEQUENCEVERIFY. -/
theorem endsInTimelock_concat : EndsInTimelock (s ++ [opCsv]) n ↔
    ∃ l op, ops s = some (l ++ [op]) ∧ op.number = some (n : ℤ) := by
  constructor
  · rintro ⟨l, op, last, hops, hnum, hlast⟩
    obtain ⟨A, b, hs, hA, hb⟩ := ops_concat.1 hops
    obtain ⟨rfl, -⟩ := (isOp_plain_iff (by rw [hlast]; decide)).1 hb
    obtain ⟨rfl, -⟩ := List.append_inj' hs rfl
    exact ⟨l, op, hA, hnum⟩
  · rintro ⟨l, op, hops, hnum⟩
    exact ⟨l, op, ⟨opCsv, []⟩, ops_concat.2 ⟨s, [opCsv], rfl, hops, isOp_plain (by decide)⟩, hnum, rfl⟩

/-- The timelock that the parser reads is the one that the script ends in, when the reading
    starts between two operations. -/
theorem payoutTimelock_iff (h : parsePayoutLeafScript s = some (key, csv)) :
    EndsInTimelock s csv ↔ TailOnBoundary s := by
  obtain ⟨hlen, -, -, hlast, -, -, htail, -⟩ := parsePayoutLeafScript_iff.1 h
  obtain ⟨H, T, hs, hw, hT, htop, hval, h16⟩ := payoutTail_split htail (by omega)
  have hl := congrArg List.length hs
  rw [hlast] at hs
  have hk := toNat_ofNat_byte (show T.length < 256 by omega)
  have hw' : tailWidth s ≤ 2 := by
    unfold tailWidth
    dsimp only
    split_ifs <;> omega
  simp only [List.length_append, List.length_cons, List.length_nil] at hl
  have htake : s.take (s.length - (tailWidth s + 2)) = H := by
    rw [← hw, show s.length - (T.length + 2) = H.length by omega, hs, List.append_assoc,
      List.take_left' rfl]
  have hiff := last_push_iff (H := H) (T := T) hk hT htop (by omega)
  rw [hval] at hiff
  unfold TailOnBoundary
  dsimp only
  have hends : EndsInTimelock s csv ↔
      ∃ l op, ops (H ++ UInt8.ofNat T.length :: T) = some (l ++ [op]) ∧ op.number = some (csv : ℤ) := by
    nth_rewrite 1 [hs]
    exact endsInTimelock_concat
  rw [htake, hends, hiff]
  refine or_congr_right ?_
  -- The last byte in front of the reading.
  obtain ⟨A, x, rfl⟩ : ∃ A x, H = A ++ [x] := by
    rcases List.eq_nil_or_concat H with rfl | ⟨A, x, rfl⟩
    · rw [List.length_nil] at hl
      omega
    · exact ⟨A, x, List.concat_eq_append⟩
  rw [List.length_append, List.length_singleton] at hl
  have hn : s.length - (tailWidth s + 2) - 1 = A.length := by omega
  have hA : s.take A.length = A := by
    rw [hs, List.append_assoc, List.append_assoc, List.take_left' rfl]
  have hx : s.getD A.length 0 = x := by
    rw [hs, List.append_assoc, List.append_assoc, List.getD_append_right _ _ _ _ le_rfl, Nat.sub_self]
    rfl
  rw [hn, hA, hx]
  constructor
  · rintro ⟨A', he, hA'⟩
    obtain ⟨rfl, hxe⟩ := List.append_inj' he rfl
    exact ⟨(List.cons.inj hxe).1, hA'⟩
  · rintro ⟨rfl, hA'⟩
    exact ⟨A, rfl, hA'⟩

/-! ### The leaf that the device builds -/

theorem ops_isSome_append {a b : Bytes} (ha : (ops a).isSome = true) (hb : (ops b).isSome = true) :
    (ops (a ++ b)).isSome = true := by
  obtain ⟨l, hl⟩ := Option.isSome_iff_exists.1 ha
  rw [ops_append hl, Option.isSome_map]
  exact hb

theorem ops_keyEntry (key : Bytes32) {op : UInt8} (h : 0x4E < op.toNat) :
    ops (keyEntry key op) = some [⟨opPushbytes32, key.toList⟩, ⟨op, []⟩] := by
  have hk : key.toList.length = 32 := key.toList_length
  have hpush : IsOp (opPushbytes32 :: key.toList) ⟨opPushbytes32, key.toList⟩ :=
    isOp_push (by rw [hk]; rfl) (by omega)
  have hlast := ops_isOp_append (s := []) (isOp_plain h)
  rw [List.append_nil] at hlast
  rw [show keyEntry key op = opPushbytes32 :: key.toList ++ [op] from rfl, ops_isOp_append hpush, hlast]
  rfl

theorem ops_keyEntries {op : UInt8} (h : 0x4E < op.toNat) : ∀ keys : List Bytes32,
    ops (keys.flatMap (keyEntry · op)) =
      some (keys.flatMap fun key => [⟨opPushbytes32, key.toList⟩, ⟨op, []⟩])
  | [] => rfl
  | key :: keys => by
    rw [List.flatMap_cons, List.flatMap_cons, ops_append (ops_keyEntry key h), ops_keyEntries h keys,
      Option.map_some]

/-- The operations of a signer group. -/
theorem ops_multisigGroup {op : UInt8} (h : 0x4E < op.toNat) {key : Bytes32} {keys : List Bytes32}
    (hk : (key :: keys).length ≤ 32) : ∃ num, num.number = some ((key :: keys).length : ℤ) ∧
      ops (multisigGroup (key :: keys) op) = some ([⟨opPushbytes32, key.toList⟩, ⟨opChecksig, []⟩] ++
        (keys.flatMap fun key => [⟨opPushbytes32, key.toList⟩, ⟨opChecksigadd, []⟩]) ++
        [num] ++ [⟨op, []⟩]) := by
  obtain ⟨num, hnum, hval, -⟩ := isOp_pushNumber (n := (key :: keys).length) (by omega)
  refine ⟨num, hval, ?_⟩
  have hlast := ops_isOp_append (s := []) (isOp_plain h)
  rw [List.append_nil] at hlast
  rw [multisigGroup, List.append_assoc, List.append_assoc, ops_append (ops_keyEntry key (by decide)),
    ops_append (ops_keyEntries (by decide) keys), ops_isOp_append hnum, hlast]
  simp

theorem ops_multisigGroup_isSome {op : UInt8} (h : 0x4E < op.toNat) {keys : List Bytes32}
    (hk : keys.length ≤ 32) : (ops (multisigGroup keys op)).isSome = true := by
  rcases keys with _ | ⟨key, keys⟩
  · rfl
  · obtain ⟨num, -, hops⟩ := ops_multisigGroup h hk
    rw [hops]
    rfl

/-- The payout leaf that the device builds ends in its timelock. -/
theorem payoutLeaf_endsInTimelock {gi ci : ℕ} {it : VaultIntent} {leaf : Bytes}
    (hmin : 90 < it.payoutTimelock) (hmax : it.payoutTimelock < 4032)
    (hb : (buildAppChallengers it gi ci).length ≤ 32) (hc : it.challengers.length ≤ 32)
    (h : vaultBuildAssert0PayoutLeaf it gi ci n = some leaf) :
    EndsInTimelock leaf it.payoutTimelock := by
  obtain ⟨-, -, rfl⟩ := payoutLeaf_eq h
  obtain ⟨op, hop, hnum, -⟩ := isOp_pushNumber (n := it.payoutTimelock) (by omega)
  have hver : 0x4E < opNumequalverify.toNat := by decide
  have hkey : (ops (keyEntry (claimerPk it gi ci) opChecksigverify)).isSome = true := by
    rw [ops_keyEntry _ (by decide)]
    rfl
  have hfront := ops_isSome_append hkey
    (ops_isSome_append (ops_multisigGroup_isSome hver hb) (ops_multisigGroup_isSome hver hc))
  obtain ⟨l, hl⟩ := Option.isSome_iff_exists.1 hfront
  simp only [← List.append_assoc] at hl ⊢
  exact endsInTimelock_concat.2 ⟨l, op, ops_concat.2 ⟨_, _, rfl, hl, hop⟩, hnum⟩

/-- The payout parser: where its timelock is the one of the script, and the leaves that the
    device builds. -/
structure PayoutParser (it : VaultIntent) : Prop where
  exact : ∀ s key csv, parsePayoutLeafScript s = some (key, csv) →
    (EndsInTimelock s csv ↔ TailOnBoundary s)
  built : ∀ gi < it.vaultCount, ∀ ci ≤ it.keeperCount + 1,
    Builds (vaultBuildAssert0PayoutLeaf it gi ci) fun leaf =>
      parsePayoutLeafScript leaf = some (claimerPk it gi ci, it.payoutTimelock) ∧
        EndsInTimelock leaf it.payoutTimelock

/-- The timelock that is displayed is enforced when the reading starts between two operations,
    as it does in the leaves of a loaded intent. -/
theorem Reach.payout_parser_iff (h : Reach E ls d) (hl : d.ctx.state = .intentLoaded) :
    PayoutParser d.intent := by
  have hit := (h.session.loaded hl).intent
  have hb := hit.leafBounds
  constructor
  · intro s key csv hs
    exact payoutTimelock_iff hs
  · intro gi hgi ci hci
    have hbuilds := hit.leafShapes.payout gi hgi ci hci
    have happ : (buildAppChallengers d.intent gi ci).length ≤ 32 := by
      rw [length_buildAppChallengers gi hci hb.keepers, ← hb.keepers]
      exact hb.keepersLen.2
    refine ⟨hbuilds.1, fun n leaf hleaf => ⟨(hbuilds.2 n leaf hleaf).2, ?_⟩⟩
    exact payoutLeaf_endsInTimelock hb.payout.1 hb.payout.2 happ hb.challengersLen.2 hleaf

open Signet in
theorem payout_parser_signet : PayoutParser (loaded intent).intent :=
  (reach_loaded intent).payout_parser_iff loaded_state

/-- A leaf whose last four bytes are pushed: the device reads 144 blocks, and the script has no
    timelock. -/
theorem payout_timelock_hidden : ¬∀ s key csv, parsePayoutLeafScript s = some (key, csv) →
    EndsInTimelock s csv := by
  intro h
  let s : Bytes := keyEntry (Buf.zero 32) opChecksigverify ++ keyEntry (Buf.zero 32) opChecksig ++
    [4, 2, 144, 0, opCsv]
  have hs : parsePayoutLeafScript s = some (Buf.zero 32, 144) := by decide +kernel
  have hno : ¬TailOnBoundary s := by decide +kernel
  exact hno ((payoutTimelock_iff hs).1 (h s _ _ hs))

end BabylonVault
