/-
  Bitcoin scripts as operations.

  * `getOp`: one operation off the front of a script, an opcode and what it pushes; `ops`:
    the operations of a script from its first byte on (`ops_append`, `ops_concat`).
  * `scriptNum`: the number a byte string stands for on the stack (CScriptNum).
-/
import BabylonVault.Lib.Bytes
import BabylonVault.Lib.Records

namespace Opcodes
open Bytes

/-- An operation: its opcode, and the bytes it pushes. -/
structure Op where
  code : UInt8
  data : Bytes
  deriving DecidableEq

/-- The bytes behind the opcode that give the length of a push. -/
def prefixLen (code : UInt8) : ℕ :=
  if code = 0x4C then 1 else if code = 0x4D then 2 else if code = 0x4E then 4 else 0

/-- The number of bytes pushed. -/
def pushLen (code : UInt8) (pre : Bytes) : ℕ := if code.toNat < 0x4C then code.toNat else ofLE pre

/-- An operation off the front of a script: the operation, and what is left. -/
def getOp : Bytes → Option (Op × Bytes)
  | [] => none
  | code :: rest =>
    let p := prefixLen code
    let n := pushLen code (rest.take p)
    if p + n ≤ rest.length then some (⟨code, (rest.drop p).take n⟩, rest.drop (p + n)) else none

/-- The bytes of an operation. -/
structure IsOp (b : Bytes) (op : Op) : Prop where
  split : ∃ pre, b = op.code :: (pre ++ op.data) ∧ pre.length = prefixLen op.code ∧
    op.data.length = pushLen op.code pre

/-- The operations as they are read, one after the other. -/
def opReader : Reader UInt8 (List Op) := fun s acc =>
  (getOp s).map fun r => (acc ++ [r.1], r.2)

/-- The operations of a script; none when it ends in the middle of a push. -/
def ops (s : Bytes) : Option (List Op) := opReader.run s []

/-- The number a byte string stands for: little-endian, with the sign in the top bit. -/
def scriptNum (b : Bytes) : ℤ :=
  if b.getLastD 0 &&& 0x80 = 0 then ofLE b else -(ofLE b - 0x80 * 256 ^ (b.length - 1) : ℕ)

/-- The number an operation pushes. -/
def Op.number (op : Op) : Option ℤ :=
  if op.code.toNat < 0x4F then some (scriptNum op.data)
  else if op.code = 0x4F then some (-1)
  else if 0x51 ≤ op.code.toNat ∧ op.code.toNat ≤ 0x60 then some (op.code.toNat - 0x50)
  else none

variable {s A B b rest more : Bytes} {op : Op} {l acc : List Op}

/-! ## One operation -/

theorem getOp_isOp (h : IsOp b op) (more : Bytes) : getOp (b ++ more) = some (op, more) := by
  obtain ⟨pre, rfl, hpre, hdata⟩ := h.split
  rw [List.cons_append, List.append_assoc, getOp]
  have htake : (pre ++ (op.data ++ more)).take (prefixLen op.code) = pre := List.take_left' hpre
  have hdrop : (pre ++ (op.data ++ more)).drop (prefixLen op.code) = op.data ++ more :=
    List.drop_left' hpre
  rw [htake, ← List.drop_drop, hdrop, List.take_left' hdata, List.drop_left' hdata,
    if_pos (by simp only [List.length_append]; omega)]

theorem isOp_of_getOp (h : getOp s = some (op, rest)) : ∃ b, IsOp b op ∧ s = b ++ rest := by
  rcases s with _ | ⟨code, s⟩
  · cases h
  · obtain ⟨hle, h⟩ := Option.ite_none_right_eq_some.1 h
    obtain ⟨rfl, rfl⟩ := Prod.mk.inj (Option.some.inj h)
    set p := prefixLen code
    set n := pushLen code (s.take p)
    have hdata : ((s.drop p).take n).length = n := by
      rw [List.length_take, List.length_drop]
      omega
    have hpre : (s.take p).length = p := by
      rw [List.length_take]
      omega
    refine ⟨code :: (s.take p ++ (s.drop p).take n), ⟨s.take p, rfl, hpre, hdata⟩, ?_⟩
    rw [List.cons_append, List.append_assoc, ← List.drop_drop, List.take_append_drop,
      List.take_append_drop]

theorem IsOp.ne_nil (h : IsOp b op) : b ≠ [] := by
  obtain ⟨pre, rfl, -⟩ := h.split
  exact List.cons_ne_nil _ _

theorem opReader_lawful : opReader.Lawful := by
  constructor
  · intro data rest s s' h
    obtain ⟨⟨op, rest'⟩, hg, he⟩ := Option.map_eq_some_iff.1 h
    obtain ⟨-, rfl⟩ := Prod.mk.inj he
    obtain ⟨b, hb, rfl⟩ := isOp_of_getOp hg
    have hpos := List.length_pos_iff.2 hb.ne_nil
    rw [List.length_append]
    exact Nat.lt_add_of_pos_left hpos
  · intro data rest s s' more h
    obtain ⟨⟨op, rest'⟩, hg, he⟩ := Option.map_eq_some_iff.1 h
    obtain ⟨rfl, rfl⟩ := Prod.mk.inj he
    obtain ⟨b, hb, rfl⟩ := isOp_of_getOp hg
    rw [List.append_assoc, opReader, getOp_isOp hb]
    rfl

/-! ## A script -/

@[simp] theorem ops_nil : ops [] = some [] := rfl

/-- What has been read is kept. -/
theorem run_ops : ∀ (s : Bytes) (acc : List Op), opReader.run s acc = (ops s).map (acc ++ ·)
  | [], acc => by
    rw [Reader.run_nil, ops_nil, Option.map_some, List.append_nil]
  | c :: s, acc => by
    have hrun : ∀ acc, opReader.run (c :: s) acc =
        (getOp (c :: s)).bind fun r => opReader.run r.2 (acc ++ [r.1]) := by
      intro acc
      rw [Reader.run_eq opReader_lawful (List.cons_ne_nil _ _), opReader, Option.bind_map]
      rfl
    rw [ops, hrun, hrun]
    rcases h : getOp (c :: s) with _ | ⟨op, rest⟩
    · rfl
    · obtain ⟨b, hb, hs⟩ := isOp_of_getOp h
      have hpos := List.length_pos_iff.2 hb.ne_nil
      have hlt : rest.length < (c :: s).length := by
        rw [hs, List.length_append]
        exact Nat.lt_add_of_pos_left hpos
      have hle : rest.length ≤ s.length := Nat.le_of_lt_succ hlt
      rw [Option.bind_some, Option.bind_some, run_ops rest (acc ++ [op]), run_ops rest ([] ++ [op]),
        Option.map_map]
      congr 1
      funext l
      simp
  termination_by s _ => s.length

/-- The operations of a script that is not empty. -/
theorem ops_of_ne_nil (h : s ≠ []) : ops s = (getOp s).bind fun r => (ops r.2).map (r.1 :: ·) := by
  rw [ops, Reader.run_eq opReader_lawful h, opReader, Option.bind_map]
  congr 1
  funext r
  exact run_ops r.2 [r.1]

/-- An operation in front. -/
theorem ops_isOp_append (h : IsOp b op) : ops (b ++ s) = (ops s).map (op :: ·) := by
  rw [ops_of_ne_nil (by simp [h.ne_nil]), getOp_isOp h, Option.bind_some]

/-- A script in front. -/
theorem ops_append (h : ops A = some l) : ops (A ++ B) = (ops B).map (l ++ ·) := by
  rw [ops, Reader.run_append opReader_lawful h, run_ops]

theorem ops_eq_nil : ops s = some [] ↔ s = [] := by
  constructor
  · intro h
    by_contra hne
    rw [ops_of_ne_nil hne] at h
    obtain ⟨r, -, h⟩ := Option.bind_eq_some_iff.1 h
    obtain ⟨l, -, h⟩ := Option.map_eq_some_iff.1 h
    exact List.cons_ne_nil _ _ h
  · rintro rfl
    rfl

theorem ops_eq_cons : ops s = some (op :: l) ↔
    ∃ b s', IsOp b op ∧ s = b ++ s' ∧ ops s' = some l := by
  constructor
  · intro h
    have hne : s ≠ [] := by
      rintro rfl
      cases h
    rw [ops_of_ne_nil hne] at h
    obtain ⟨⟨op', rest⟩, hg, h⟩ := Option.bind_eq_some_iff.1 h
    obtain ⟨l', hl, he⟩ := Option.map_eq_some_iff.1 h
    obtain ⟨rfl, rfl⟩ := List.cons.inj he
    obtain ⟨b, hb, rfl⟩ := isOp_of_getOp hg
    exact ⟨b, rest, hb, rfl, hl⟩
  · rintro ⟨b, s', hb, rfl, hs⟩
    rw [ops_isOp_append hb, hs, Option.map_some]

/-- The last operation of a script. -/
theorem ops_concat : ∀ {l : List Op} {s : Bytes},
    ops s = some (l ++ [op]) ↔ ∃ A b, s = A ++ b ∧ ops A = some l ∧ IsOp b op
  | [], s => by
    rw [List.nil_append, ops_eq_cons]
    constructor
    · rintro ⟨b, s', hb, rfl, hs⟩
      obtain rfl := ops_eq_nil.1 hs
      exact ⟨[], b, List.append_nil b, rfl, hb⟩
    · rintro ⟨A, b, rfl, hA, hb⟩
      obtain rfl := ops_eq_nil.1 hA
      exact ⟨b, [], hb, (List.append_nil b).symm, rfl⟩
  | op' :: l, s => by
    rw [List.cons_append, ops_eq_cons]
    constructor
    · rintro ⟨b, s', hb, rfl, hs⟩
      obtain ⟨A, b', rfl, hA, hb'⟩ := ops_concat.1 hs
      exact ⟨b ++ A, b', (List.append_assoc _ _ _).symm, ops_eq_cons.2 ⟨b, A, hb, rfl, hA⟩, hb'⟩
    · rintro ⟨A, b, rfl, hA, hb⟩
      obtain ⟨c, A', hc, rfl, hA'⟩ := ops_eq_cons.1 hA
      exact ⟨c, A' ++ b, hc, List.append_assoc _ _ _, ops_concat.2 ⟨A', b, rfl, hA', hb⟩⟩

/-! ## Kinds of operations -/

theorem prefixLen_eq_zero {code : UInt8} (h : code.toNat < 0x4C ∨ 0x4E < code.toNat) :
    prefixLen code = 0 := by
  have h1 : (0x4C : UInt8).toNat = 0x4C := rfl
  have h2 : (0x4D : UInt8).toNat = 0x4D := rfl
  have h3 : (0x4E : UInt8).toNat = 0x4E := rfl
  unfold prefixLen
  simp only [← UInt8.toNat_inj, h1, h2, h3]
  rw [if_neg (by omega), if_neg (by omega), if_neg (by omega)]

/-- An opcode that pushes nothing. -/
theorem isOp_plain_iff (h : 0x4E < op.code.toNat) : IsOp b op ↔ b = [op.code] ∧ op.data = [] := by
  have hpre := prefixLen_eq_zero (.inr h)
  have hpush : pushLen op.code [] = 0 := by
    rw [pushLen, if_neg (by omega)]
    rfl
  constructor
  · intro hb
    obtain ⟨pre, rfl, hp, hd⟩ := hb.split
    obtain rfl := List.eq_nil_of_length_eq_zero (hp.trans hpre)
    have hd := List.eq_nil_of_length_eq_zero (hd.trans hpush)
    rw [hd]
    exact ⟨rfl, rfl⟩
  · rintro ⟨rfl, hd⟩
    refine ⟨[], by rw [hd]; rfl, hpre.symm, ?_⟩
    rw [hd, hpush]
    rfl

theorem isOp_plain {code : UInt8} (h : 0x4E < code.toNat) : IsOp [code] ⟨code, []⟩ :=
  (isOp_plain_iff h).2 ⟨rfl, rfl⟩

/-- A push whose opcode is its length. -/
theorem isOp_push {code : UInt8} {data : Bytes} (h : code.toNat = data.length)
    (hl : data.length < 0x4C) : IsOp (code :: data) ⟨code, data⟩ := by
  refine ⟨[], rfl, (prefixLen_eq_zero (.inl (by rw [h]; exact hl))).symm, ?_⟩
  rw [pushLen, if_pos (by rw [h]; exact hl), h]

/-- A push with its length in the next byte. -/
theorem isOp_pushdata1 {n : UInt8} {data : Bytes} (h : n.toNat = data.length) :
    IsOp (0x4C :: n :: data) ⟨0x4C, data⟩ := by
  refine ⟨[n], rfl, rfl, ?_⟩
  show data.length = n.toNat + 256 * 0
  omega

/-! ## Numbers -/

theorem ofLE_append : ∀ a c : Bytes, ofLE (a ++ c) = ofLE a + 256 ^ a.length * ofLE c
  | [], c => by
    show ofLE c = 0 + 1 * ofLE c
    omega
  | x :: a, c => by
    rw [List.cons_append, ofLE, ofLE, ofLE_append a c, List.length_cons, pow_succ]
    ring

theorem scriptNum_of_pos (h : b.getLastD 0 &&& 0x80 = 0) : scriptNum b = ofLE b := if_pos h

/-- A number above zero has its sign bit clear. -/
theorem top_of_scriptNum_pos (h : 0 < scriptNum b) : b.getLastD 0 &&& 0x80 = 0 := by
  by_contra hne
  rw [scriptNum, if_neg hne] at h
  omega

/-- The number that ends a script of a push: its bytes are those of the push. -/
theorem suffix_of_number {X Y T data : Bytes} (h : X ++ T = Y ++ data)
    (htop : T.getLastD 0 &&& 0x80 = 0) (hpos : 0 < ofLE T) (hnum : scriptNum data = ofLE T) :
    X = Y ∧ T = data := by
  have hTne : T ≠ [] := by
    rintro rfl
    exact absurd hpos (lt_irrefl _)
  have hdne : data ≠ [] := by
    rintro rfl
    have hz : scriptNum [] = 0 := rfl
    omega
  have hlast : data.getLastD 0 = T.getLastD 0 := by
    have hl := congrArg (List.getLastD · 0) h
    simpa [List.getLastD_eq_getLast?, List.getLast?_append, List.getLast?_eq_some_getLast hTne,
      List.getLast?_eq_some_getLast hdne] using hl.symm
  have hval : ofLE data = ofLE T := by
    rw [scriptNum_of_pos (hlast ▸ htop)] at hnum
    exact_mod_cast hnum
  rcases List.append_eq_append_iff.1 h with ⟨a, rfl, hT⟩ | ⟨c, rfl, hd⟩
  · -- The push is shorter than the number.
    rcases a with _ | ⟨x, a⟩
    · exact ⟨(List.append_nil X).symm, hT⟩
    · have hdpos : 0 < ofLE data := hval ▸ hpos
      rw [hT, ofLE_append] at hval
      have hbig : 256 ≤ 256 ^ (x :: a).length := Nat.le_self_pow (by simp) 256
      nlinarith
  · -- The push is longer.
    rcases c with _ | ⟨x, c⟩
    · exact ⟨List.append_nil Y, hd.symm⟩
    · rw [hd, ofLE_append] at hval
      have hbig : 256 ≤ 256 ^ (x :: c).length := Nat.le_self_pow (by simp) 256
      nlinarith

/-- A script whose last bytes look like a push of a number: they are one when the bytes in
    front are whole operations, or whole operations and the opcode OP_PUSHDATA1. -/
theorem last_push_iff {H T : Bytes} {k : UInt8} (hk : k.toNat = T.length) (hlen : T.length < 0x4C)
    (htop : T.getLastD 0 &&& 0x80 = 0) (hval : 16 < ofLE T) :
    (∃ l op, ops (H ++ k :: T) = some (l ++ [op]) ∧ op.number = some (ofLE T : ℤ)) ↔
      (ops H).isSome = true ∨ ∃ A, H = A ++ [0x4C] ∧ (ops A).isSome = true := by
  have hnum : scriptNum T = ofLE T := scriptNum_of_pos htop
  constructor
  · rintro ⟨l, op, hops, hn⟩
    obtain ⟨A, b, hs, hA, hb⟩ := ops_concat.1 hops
    obtain ⟨pre, rfl, hpre, hdata⟩ := hb.split
    have hscript : scriptNum op.data = ofLE T := by
      unfold Op.number at hn
      split_ifs at hn with h1 h2 h3
      · exact Option.some.inj hn
      · have := Option.some.inj hn
        omega
      · have := Option.some.inj hn
        omega
    have happ : (H ++ [k]) ++ T = (A ++ op.code :: pre) ++ op.data := by
      rw [List.append_assoc, List.append_assoc]
      exact hs
    obtain ⟨hX, rfl⟩ := suffix_of_number happ htop (by omega) hscript
    rcases List.eq_nil_or_concat pre with rfl | ⟨pre, x, rfl⟩
    · obtain ⟨rfl, -⟩ := List.append_inj' hX rfl
      exact .inl (hA ▸ rfl)
    · rw [List.concat_eq_append, ← List.cons_append, ← List.append_assoc] at hX
      obtain ⟨rfl, hx⟩ := List.append_inj' hX rfl
      obtain rfl : k = x := (List.cons.inj hx).1
      have hcode : ¬op.code.toNat < 0x4C := by
        intro hc
        rw [prefixLen_eq_zero (.inl hc)] at hpre
        simp at hpre
      rw [pushLen, if_neg hcode, List.concat_eq_append, ofLE_append] at hdata
      rcases pre with _ | ⟨y, pre⟩
      · refine .inr ⟨A, ?_, hA ▸ rfl⟩
        have : op.code = 0x4C := by
          unfold prefixLen at hpre
          split_ifs at hpre with h1 h2 h3
          · exact h1
          all_goals simp at hpre
        rw [this]
      · exfalso
        have hbig : 256 ≤ 256 ^ (y :: pre).length := Nat.le_self_pow (by simp) 256
        have hk' : ofLE [k] = k.toNat := by
          show k.toNat + 256 * 0 = k.toNat
          omega
        rw [hk', hk] at hdata
        have hdpos : 0 < op.data.length := by
          refine List.length_pos_iff.2 fun hnil => ?_
          rw [hnil] at hval
          exact absurd hval (by decide)
        nlinarith
  · rintro (h | ⟨A, rfl, h⟩)
    · obtain ⟨l, hl⟩ := Option.isSome_iff_exists.1 h
      refine ⟨l, ⟨k, T⟩, ops_concat.2 ⟨H, k :: T, rfl, hl, isOp_push hk hlen⟩, ?_⟩
      rw [Op.number, if_pos (by show k.toNat < 0x4F; omega), hnum]
    · obtain ⟨l, hl⟩ := Option.isSome_iff_exists.1 h
      refine ⟨l, ⟨0x4C, T⟩, ops_concat.2 ⟨A, 0x4C :: k :: T, List.append_assoc _ _ _, hl,
        isOp_pushdata1 hk⟩, ?_⟩
      rw [Op.number, if_pos (by show (0x4C : UInt8).toNat < 0x4F; decide), hnum]

end Opcodes
