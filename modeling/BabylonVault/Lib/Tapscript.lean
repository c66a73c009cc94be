/-
  Tapscript (BIP-342).

  * `meetsSuccess`: decoding the script comes to an OP_SUCCESSx, and then anyone can
    spend it.
  * `Machine`, `Rules`: the state of an execution, and what is left open: the signature
    check itself, and every opcode that no lemma here is about.
  * `Rules.accepts`: a script and a witness that satisfies it.
  * `Rules.Demands`: a piece of script that takes a signature off the stack for each of
    some keys, such as a signer group (`run_signerGroup`); in front of a script that meets
    no OP_SUCCESSx it decides who can spend (`Demands.safe`).
-/
import BabylonVault.Lib.Opcodes

namespace Tapscript
open Bytes Opcodes

/-! ## OP_SUCCESSx -/

/-- The opcodes that make a script succeed as a whole. -/
def isSuccess (code : UInt8) : Bool :=
  let n := code.toNat
  decide (n = 80 ∨ n = 98 ∨ (126 ≤ n ∧ n ≤ 129) ∨ (131 ≤ n ∧ n ≤ 134) ∨ n = 137 ∨ n = 138 ∨
    n = 141 ∨ n = 142 ∨ (149 ≤ n ∧ n ≤ 153) ∨ (187 ≤ n ∧ n ≤ 254))

/-- One of them among the operations that can be decoded. -/
def scanSuccess : ℕ → Bytes → Bool
  | 0, _ => false
  | fuel + 1, s =>
    match getOp s with
    | none => false
    | some (op, rest) => isSuccess op.code || scanSuccess fuel rest

/-- Decoding a script meets an OP_SUCCESSx, whatever follows it. -/
def meetsSuccess (s : Bytes) : Bool := scanSuccess s.length s

section Success
variable {A B b s : Bytes} {op : Op}

/-- More fuel than bytes changes nothing. -/
theorem scanSuccess_eq : ∀ {n k : ℕ} {s : Bytes}, s.length ≤ n → s.length ≤ k →
    scanSuccess n s = scanSuccess k s
  | 0, 0, _, _, _ => rfl
  | 0, k + 1, s, hn, _ | k + 1, 0, s, _, hn => by
    obtain rfl := List.eq_nil_of_length_eq_zero (Nat.le_zero.1 hn)
    rfl
  | n + 1, k + 1, s, hn, hk => by
    rw [scanSuccess, scanSuccess]
    rcases h : getOp s with _ | ⟨op, rest⟩
    · rfl
    · obtain ⟨b, hb, rfl⟩ := isOp_of_getOp h
      have hpos := List.length_pos_iff.2 hb.ne_nil
      rw [List.length_append] at hn hk
      dsimp only
      rw [scanSuccess_eq (show rest.length ≤ n by omega) (show rest.length ≤ k by omega)]

theorem meetsSuccess_isOp (h : IsOp b op) :
    meetsSuccess (b ++ s) = (isSuccess op.code || meetsSuccess s) := by
  have hpos := List.length_pos_iff.2 h.ne_nil
  have hlen : (b ++ s).length = s.length + (b.length - 1) + 1 := by
    rw [List.length_append]
    omega
  rw [meetsSuccess, hlen, scanSuccess, getOp_isOp h]
  dsimp only
  rw [meetsSuccess, scanSuccess_eq (show s.length ≤ s.length + (b.length - 1) by omega) le_rfl]

/-- Whole operations in front: it is among them or behind them. -/
theorem meetsSuccess_append {l : List Op} : ∀ {A : Bytes}, ops A = some l →
    meetsSuccess (A ++ B) = (l.any (isSuccess ·.code) || meetsSuccess B) := by
  induction l with
  | nil =>
    intro A h
    rw [ops_eq_nil.1 h]
    rfl
  | cons op l ih =>
    intro A h
    obtain ⟨b, A', hb, rfl, hA'⟩ := ops_eq_cons.1 h
    rw [List.append_assoc, meetsSuccess_isOp hb, ih hA', List.any_cons, Bool.or_assoc]

/-- Whole operations, none of them an OP_SUCCESSx. -/
def Plain (A : Bytes) : Prop := ∃ l, ops A = some l ∧ l.any (isSuccess ·.code) = false

theorem Plain.append (h : Plain A) (h' : Plain B) : Plain (A ++ B) := by
  obtain ⟨l, hl, hs⟩ := h
  obtain ⟨l', hl', hs'⟩ := h'
  refine ⟨l ++ l', ?_, ?_⟩
  · rw [ops_append hl, hl', Option.map_some]
  · rw [List.any_append, hs, hs']
    rfl

theorem Plain.meetsSuccess (h : Plain A) : meetsSuccess (A ++ B) = meetsSuccess B := by
  obtain ⟨l, hl, hs⟩ := h
  rw [meetsSuccess_append hl, hs, Bool.false_or]

end Success

/-! ## Execution -/

/-- The state of an execution: the stacks, the open conditionals, the signature checks
    that are left, and the position of the last OP_CODESEPARATOR. -/
structure Machine where
  stack : List Bytes
  alt : List Bytes
  conds : List Bool
  budget : ℤ
  codesep : Option ℕ

def Machine.push (b : Bytes) (m : Machine) : Machine := { m with stack := b :: m.stack }

/-- A number as it stands on the stack. -/
def numberBytes (z : ℤ) : Bytes :=
  let b := (Nat.digits 256 z.natAbs).map UInt8.ofNat
  if b.getLastD 0 &&& 0x80 ≠ 0 then b ++ [if z < 0 then 0x80 else 0]
  else if z < 0 then b.dropLast ++ [b.getLastD 0 ||| 0x80] else b

/-- An operand of an arithmetic opcode. -/
def operand (b : Bytes) : Option ℤ := if b.length ≤ 4 then some (scriptNum b) else none

/-- Neither zero nor negative zero. -/
def castToBool (b : Bytes) : Bool := b.dropLast.any (· ≠ 0) || (b.getLastD 0 ≠ 0 && b.getLastD 0 ≠ 0x80)

/-- What an execution takes from elsewhere: BIP-340 and the spending transaction, the
    allowance for signature checks, and the other opcodes. -/
structure Rules where
  verifies : Option ℕ → Bytes → Bytes → Bool
  budget : List Bytes → ℤ
  other : ℕ → Op → Machine → Option Machine

namespace Rules
variable (R : Rules)

/-- The check that the signature opcodes share. An empty signature is not looked at. -/
def checkSignature (key sig : Bytes) (m : Machine) : Option Machine :=
  if key = [] ∨ sig ≠ [] ∧ m.budget < 50 then none
  else if key.length = 32 ∧ sig ≠ [] ∧ R.verifies m.codesep key sig = false then none
  else some { m with budget := if sig = [] then m.budget else m.budget - 50 }

def checksig (m : Machine) : Option Machine :=
  match m.stack with
  | key :: sig :: rest =>
    (R.checkSignature key sig { m with stack := rest }).map
      (·.push (numberBytes (if sig = [] then 0 else 1)))
  | _ => none

def checksigverify (m : Machine) : Option Machine :=
  match m.stack with
  | key :: sig :: rest =>
    if sig = [] then none else R.checkSignature key sig { m with stack := rest }
  | _ => none

def checksigadd (m : Machine) : Option Machine :=
  match m.stack with
  | key :: num :: sig :: rest =>
    (operand num).bind fun z => (R.checkSignature key sig { m with stack := rest }).map
      (·.push (numberBytes (z + if sig = [] then 0 else 1)))
  | _ => none

def numequalverify (m : Machine) : Option Machine :=
  match m.stack with
  | a :: b :: rest =>
    if (operand a).isSome ∧ operand a = operand b then some { m with stack := rest } else none
  | _ => none

/-- An operation that is executed. -/
def exec (i : ℕ) (op : Op) (m : Machine) : Option Machine :=
  if op.code.toNat ≤ 0x4E then some (m.push op.data)
  else if op.code = 0x4F then some (m.push [0x81])
  else if 0x51 ≤ op.code.toNat ∧ op.code.toNat ≤ 0x60 then
    some (m.push [UInt8.ofNat (op.code.toNat - 0x50)])
  else if op.code = 0x9D then numequalverify m
  else if op.code = 0xAC then R.checksig m
  else if op.code = 0xAD then R.checksigverify m
  else if op.code = 0xBA then R.checksigadd m
  else R.other i op m

/-- The `i`-th operation. In a branch that is not taken only the conditionals are. -/
def step (i : ℕ) (op : Op) (m : Machine) : Option Machine :=
  if 520 < op.data.length then none
  else (if m.conds.all id ∨ (0x63 ≤ op.code.toNat ∧ op.code.toNat ≤ 0x68) then R.exec i op m
    else some m).filter fun m => m.stack.length + m.alt.length ≤ 1000

def run : ℕ → List Op → Machine → Option Machine
  | _, [], m => some m
  | i, op :: l, m => (R.step i op m).bind (run (i + 1) l)

/-- The witness satisfies the script. -/
def accepts (script : Bytes) (witness : List Bytes) : Bool :=
  meetsSuccess script ||
    match ops script with
    | none => false
    | some l =>
      witness.length ≤ 1000 && witness.all (·.length ≤ 520) &&
        match R.run 0 l ⟨witness.reverse, [], [], R.budget witness, none⟩ with
        | some m => m.conds.isEmpty && m.stack.length = 1 && castToBool (m.stack.headD [])
        | none => false

variable {R : Rules} {i : ℕ} {op : Op} {l l' : List Op} {m m' m₁ : Machine} {key sig b : Bytes}
  {keys keys' : List Bytes} {c : ℕ}

theorem run_append : R.run i (l ++ l') m = (R.run i l m).bind (R.run (i + l.length) l') := by
  induction l generalizing i m with
  | nil => rfl
  | cons op l ih =>
    rw [List.cons_append, run, run, Option.bind_assoc]
    congr 1
    funext m₁
    rw [ih, List.length_cons, Nat.add_assoc, Nat.add_comm 1]

theorem run_cons_some (h : R.run i (op :: l) m = some m') :
    ∃ m₁, R.step i op m = some m₁ ∧ R.run (i + 1) l m₁ = some m' :=
  Option.bind_eq_some_iff.1 h

/-- Outside conditionals every operation is executed. -/
theorem step_some (hc : m.conds = []) (h : R.step i op m = some m') : R.exec i op m = some m' := by
  unfold step at h
  split_ifs at h with hlen hex
  · exact (Option.filter_eq_some_iff.1 h).1
  · exact absurd (.inl (by rw [hc]; rfl)) hex

theorem step_push (hc : m.conds = []) (hop : op.code.toNat ≤ 0x4E) (h : R.step i op m = some m') :
    m' = m.push op.data := by
  have hex := step_some hc h
  rw [exec, if_pos hop] at hex
  exact (Option.some.inj hex).symm

/-! ## Numbers -/

theorem operand_numberBytes {n : ℕ} (h : n < 128) : operand (numberBytes n) = some (n : ℤ) := by
  have hall : ∀ n : ℕ, n < 128 → operand (numberBytes n) = some (n : ℤ) := by decide +kernel
  exact hall n h

/-- An operation that pushes a number. -/
theorem step_number {z : ℤ} (hc : m.conds = []) (hop : op.number = some z)
    (h : R.step i op m = some m') : ∃ b, m' = m.push b ∧ scriptNum b = z := by
  have hex := step_some hc h
  unfold Op.number at hop
  split_ifs at hop with h1 h2 h3
  · rw [exec, if_pos (by omega)] at hex
    exact ⟨op.data, (Option.some.inj hex).symm, Option.some.inj hop⟩
  · rw [exec, if_neg (by rw [h2]; decide), if_pos h2] at hex
    refine ⟨[0x81], (Option.some.inj hex).symm, ?_⟩
    rw [← Option.some.inj hop]
    rfl
  · rw [exec, if_neg (by omega), if_neg h2, if_pos h3] at hex
    refine ⟨_, (Option.some.inj hex).symm, ?_⟩
    have hall : ∀ k : ℕ, k ≤ 16 → scriptNum [UInt8.ofNat k] = k := by decide +kernel
    rw [← Option.some.inj hop, hall _ (by omega)]
    omega

/-! ## Signature checks -/

/-- A signature that was checked is empty or verifies, against a key of 32 bytes. -/
theorem checkSignature_some (hk : key.length = 32) (h : R.checkSignature key sig m = some m') :
    (sig = [] ∨ R.verifies m.codesep key sig = true) ∧
      ∃ budget, m' = { m with budget := budget } := by
  obtain ⟨-, h⟩ := Option.ite_none_left_eq_some.1 h
  obtain ⟨hver, h⟩ := Option.ite_none_left_eq_some.1 h
  refine ⟨?_, _, (Option.some.inj h).symm⟩
  by_contra hn
  rw [not_or] at hn
  exact hver ⟨hk, hn.1, by simpa using hn.2⟩

/-- From `m` to `m'` the signatures for some keys were taken off the stack, one for each. -/
structure Signed (R : Rules) (keys : List Bytes) (m m' : Machine) : Prop where
  intro ::
  taken : ∃ sigs, m.stack = sigs ++ m'.stack ∧
    List.Forall₂ (fun key sig => R.verifies m.codesep key sig = true) keys sigs
  conds : m'.conds = []
  codesep : m'.codesep = m.codesep

theorem Signed.append (h : Signed R keys m m₁) (h' : Signed R keys' m₁ m') :
    Signed R (keys ++ keys') m m' := by
  obtain ⟨sigs, hs, hv⟩ := h.taken
  obtain ⟨sigs', hs', hv'⟩ := h'.taken
  refine ⟨⟨sigs ++ sigs', ?_, ?_⟩, h'.conds, h'.codesep.trans h.codesep⟩
  · rw [hs, hs', List.append_assoc]
  · rw [h.codesep] at hv'
    exact List.rel_append hv hv'

theorem exists_of_forall₂ {P : Bytes → Bytes → Prop} {xs ys : List Bytes}
    (h : List.Forall₂ P xs ys) : ∀ x ∈ xs, ∃ y ∈ ys, P x y := by
  induction h with
  | nil => exact List.forall_mem_nil _
  | @cons x y _ _ hxy _ ih =>
    rintro z (_ | ⟨_, hz⟩)
    · exact ⟨y, List.mem_cons_self, hxy⟩
    · obtain ⟨w, hw, hzw⟩ := ih z hz
      exact ⟨w, List.mem_cons_of_mem y hw, hzw⟩

/-- A signature for each of the keys is on the stack. -/
theorem Signed.mem (h : Signed R keys m m') :
    ∀ key ∈ keys, ∃ sig ∈ m.stack, R.verifies m.codesep key sig = true := by
  obtain ⟨sigs, hs, hv⟩ := h.taken
  intro key hkey
  obtain ⟨sig, hsig, hver⟩ := exists_of_forall₂ hv key hkey
  rw [hs]
  exact ⟨sig, List.mem_append_left _ hsig, hver⟩

/-- `<key> OP_CHECKSIGVERIFY`. -/
theorem run_checksigverify (hc : m.conds = []) (hk : key.length = 32)
    (h : R.run i [⟨0x20, key⟩, ⟨0xAD, []⟩] m = some m') : Signed R [key] m m' := by
  obtain ⟨m₁, h₁, h⟩ := run_cons_some h
  obtain ⟨m₂, h₂, h⟩ := run_cons_some h
  obtain rfl : m₂ = m' := Option.some.inj h
  have hpush : (0x20 : UInt8).toNat ≤ 0x4E := by decide
  obtain rfl := step_push hc hpush h₁
  have hex : R.checksigverify (m.push key) = some m₂ := step_some (m := m.push key) hc h₂
  rcases hs : m.stack with _ | ⟨sig, rest⟩ <;> simp only [checksigverify, Machine.push, hs] at hex
  · cases hex
  · obtain ⟨hne, hex⟩ := Option.ite_none_left_eq_some.1 hex
    obtain ⟨hver, _, rfl⟩ := checkSignature_some hk hex
    refine ⟨⟨[sig], hs, ?_⟩, hc, rfl⟩
    exact .cons (hver.resolve_left hne) .nil

/-! ## Signer groups -/

/-- `<key> OP_CHECKSIGADD` for each key. -/
def addOps (keys : List Bytes) : List Op := keys.flatMap fun key => [⟨0x20, key⟩, ⟨0xBA, []⟩]

/-- `<key> OP_CHECKSIG`, and `<key> OP_CHECKSIGADD` for the other keys. -/
def signerOps : List Bytes → List Op
  | [] => []
  | key :: keys => ⟨0x20, key⟩ :: ⟨0xAC, []⟩ :: addOps keys

/-- From `m` to `m'` a signature or nothing was taken off `rest` for each key, and the number
    of signatures was counted on, from `c`. -/
structure Counted (R : Rules) (keys : List Bytes) (c : ℕ) (rest : List Bytes) (m m' : Machine) :
    Prop where
  intro ::
  taken : ∃ sigs rest', rest = sigs ++ rest' ∧
    m'.stack = numberBytes (c + sigs.countP (· ≠ []) : ℕ) :: rest' ∧
    List.Forall₂ (fun key sig => sig = [] ∨ R.verifies m.codesep key sig = true) keys sigs
  conds : m'.conds = []
  codesep : m'.codesep = m.codesep

theorem Counted.cons {rest : List Bytes}
    (h : Counted R keys (c + if sig = [] then 0 else 1) rest m₁ m') (hm : m₁.codesep = m.codesep)
    (hver : sig = [] ∨ R.verifies m.codesep key sig = true) :
    Counted R (key :: keys) c (sig :: rest) m m' := by
  obtain ⟨sigs, rest', rfl, hs, hv⟩ := h.taken
  refine ⟨⟨sig :: sigs, rest', rfl, ?_, ?_⟩, h.conds, h.codesep.trans hm⟩
  · rw [hs, List.countP_cons]
    congr 3
    by_cases hnil : sig = []
    · simp [hnil]
    · simp only [hnil, ne_eq, not_false_iff, decide_true, if_true, if_false]
      omega
  · rw [hm] at hv
    exact .cons hver hv

theorem run_addOps : ∀ {keys : List Bytes} {i c : ℕ} {rest : List Bytes} {m m' : Machine},
    m.conds = [] → m.stack = numberBytes c :: rest → c + keys.length < 128 →
    (∀ key ∈ keys, key.length = 32) → R.run i (addOps keys) m = some m' →
    Counted R keys c rest m m'
  | [], i, c, rest, m, m', hc, hs, hlen, hk, h => by
    obtain rfl := Option.some.inj h
    exact ⟨⟨[], rest, rfl, hs, .nil⟩, hc, rfl⟩
  | key :: keys, i, c, rest, m, m', hc, hs, hlen, hk, h => by
    obtain ⟨hkey, hkeys⟩ := List.forall_mem_cons.1 hk
    obtain ⟨m₁, h₁, h⟩ := run_cons_some (l := ⟨0xBA, []⟩ :: addOps keys) h
    obtain ⟨m₂, h₂, h⟩ := run_cons_some h
    have hpush : (0x20 : UInt8).toNat ≤ 0x4E := by decide
    obtain rfl := step_push hc hpush h₁
    have hex : R.checksigadd (m.push key) = some m₂ := step_some (m := m.push key) hc h₂
    rw [List.length_cons] at hlen
    rcases rest with _ | ⟨sig, rest⟩ <;> simp only [checksigadd, Machine.push, hs] at hex
    · cases hex
    · rw [operand_numberBytes (by omega), Option.bind_some] at hex
      obtain ⟨m₃, hcheck, rfl⟩ := Option.map_eq_some_iff.1 hex
      obtain ⟨hver, budget, rfl⟩ := checkSignature_some hkey hcheck
      have hcount : ((c : ℤ) + if sig = [] then 0 else 1) = (c + if sig = [] then 0 else 1 : ℕ) := by
        split_ifs <;> push_cast <;> rfl
      have hle : (if sig = [] then 0 else 1 : ℕ) ≤ 1 := by split_ifs <;> omega
      refine (run_addOps ?_ ?_ (by omega) hkeys h).cons rfl hver
      · exact hc
      · show numberBytes _ :: rest = _
        rw [hcount]

/-- The keys of a signer group. -/
theorem run_signerOps (hc : m.conds = []) (hne : keys ≠ []) (hk : ∀ key ∈ keys, key.length = 32)
    (hlen : keys.length < 128) (h : R.run i (signerOps keys) m = some m') :
    Counted R keys 0 m.stack m m' := by
  rcases keys with _ | ⟨key, keys⟩
  · exact absurd rfl hne
  · obtain ⟨hkey, hkeys⟩ := List.forall_mem_cons.1 hk
    obtain ⟨m₁, h₁, h⟩ := run_cons_some h
    obtain ⟨m₂, h₂, h⟩ := run_cons_some h
    have hpush : (0x20 : UInt8).toNat ≤ 0x4E := by decide
    obtain rfl := step_push hc hpush h₁
    have hex : R.checksig (m.push key) = some m₂ := step_some (m := m.push key) hc h₂
    rw [List.length_cons] at hlen
    rcases hs : m.stack with _ | ⟨sig, rest⟩ <;> simp only [checksig, Machine.push, hs] at hex
    · cases hex
    · obtain ⟨m₃, hcheck, rfl⟩ := Option.map_eq_some_iff.1 hex
      obtain ⟨hver, budget, rfl⟩ := checkSignature_some hkey hcheck
      refine (run_addOps (c := 0 + if sig = [] then 0 else 1) ?_ ?_ ?_ hkeys h).cons rfl hver
      · exact hc
      · split_ifs <;> rfl
      · split_ifs <;> omega

/-- A whole signer group: its count is the number of its keys. -/
theorem run_signerGroup {num : Op} (hc : m.conds = []) (hne : keys ≠ [])
    (hk : ∀ key ∈ keys, key.length = 32) (hlen : keys.length < 128)
    (hnum : num.number = some (keys.length : ℤ))
    (h : R.run i (signerOps keys ++ [num, ⟨0x9D, []⟩]) m = some m') : Signed R keys m m' := by
  rw [run_append] at h
  obtain ⟨m₁, h, hend⟩ := Option.bind_eq_some_iff.1 h
  have hcount := run_signerOps hc hne hk hlen h
  obtain ⟨sigs, rest, hs, hs₁, hv⟩ := hcount.taken
  have hlen' : sigs.length = keys.length := hv.length_eq.symm
  have hle : sigs.countP (· ≠ []) ≤ sigs.length := List.countP_le_length
  obtain ⟨m₂, h₂, hend⟩ := run_cons_some hend
  obtain ⟨m₃, h₃, hend⟩ := run_cons_some hend
  obtain rfl : m₃ = m' := Option.some.inj hend
  obtain ⟨b, rfl, hb⟩ := step_number hcount.conds hnum h₂
  have hex : numequalverify (m₁.push b) = some m₃ := step_some (m := m₁.push b) hcount.conds h₃
  simp only [numequalverify, Machine.push, hs₁] at hex
  obtain ⟨⟨hsome, heq⟩, hex⟩ := Option.ite_none_right_eq_some.1 hex
  obtain rfl := Option.some.inj hex
  -- The count is that of the keys: no signature was empty.
  have hall : sigs.countP (· ≠ []) = sigs.length := by
    rw [operand_numberBytes (by omega), zero_add] at heq
    unfold operand at hsome heq
    split_ifs at hsome heq with hb4
    · have hcast := Option.some.inj heq
      rw [hb] at hcast
      omega
  have hne' := List.countP_eq_length.1 hall
  refine ⟨⟨sigs, hs, List.forall₂_iff_zip.2 ⟨hlen'.symm, fun hab => ?_⟩⟩, hcount.conds, hcount.codesep⟩
  have hnil := of_decide_eq_true (hne' _ (List.of_mem_zip hab).2)
  exact (List.forall₂_zip hv hab).resolve_left hnil

/-! ## Scripts that demand signatures -/

/-- A piece of script that nobody gets through without a signature for each of the keys. -/
structure Demands (R : Rules) (A : Bytes) (keys : List Bytes) : Prop where
  intro ::
  ops : ∃ l, ops A = some l ∧ ∀ i m m', m.conds = [] → R.run i l m = some m' → Signed R keys m m'

variable {A B s : Bytes} {w : List Bytes}

theorem Demands.append (h : Demands R A keys) (h' : Demands R B keys') :
    Demands R (A ++ B) (keys ++ keys') := by
  obtain ⟨l, hl, hrun⟩ := h.ops
  obtain ⟨l', hl', hrun'⟩ := h'.ops
  refine ⟨l ++ l', ?_, fun i m m' hc hr => ?_⟩
  · rw [ops_append hl, hl', Option.map_some]
  · rw [run_append] at hr
    obtain ⟨m₁, h₁, h₂⟩ := Option.bind_eq_some_iff.1 hr
    have hs := hrun _ _ _ hc h₁
    exact hs.append (hrun' _ _ _ hs.conds h₂)

/-- An OP_SUCCESSx that is met satisfies the script with any witness. -/
theorem accepts_of_success (h : meetsSuccess s = true) : R.accepts s w = true := by
  rw [accepts, h, Bool.true_or]

/-- Otherwise its operations are run to the end. -/
theorem run_of_accepts (h : R.accepts s w = true) (hs : meetsSuccess s = false) : ∃ l m,
    Opcodes.ops s = some l ∧ R.run 0 l ⟨w.reverse, [], [], R.budget w, none⟩ = some m := by
  rw [accepts, hs, Bool.false_or] at h
  split at h
  · cases h
  next l hl =>
    simp only [Bool.and_eq_true] at h
    have hrun := h.2
    split at hrun
    next m hm => exact ⟨l, m, hl, hm⟩
    · cases hrun

/-- What a script demands in front nobody gets past, unless an OP_SUCCESSx is met somewhere. -/
theorem Demands.safe (h : Demands R A keys) (hs : meetsSuccess (A ++ B) = false)
    (hw : R.accepts (A ++ B) w = true) :
    ∀ key ∈ keys, ∃ sig ∈ w, R.verifies none key sig = true := by
  obtain ⟨l, hl, hrun⟩ := h.ops
  obtain ⟨l', m, hops, hm⟩ := run_of_accepts hw hs
  rw [ops_append hl] at hops
  obtain ⟨lb, -, rfl⟩ := Option.map_eq_some_iff.1 hops
  rw [run_append] at hm
  obtain ⟨m₁, h₁, -⟩ := Option.bind_eq_some_iff.1 hm
  intro key hkey
  obtain ⟨sig, hsig, hver⟩ := (hrun _ _ _ rfl h₁).mem key hkey
  exact ⟨sig, List.mem_reverse.1 hsig, hver⟩

end Rules

end Tapscript
