/-
  Policies, and the tapscripts that enforce them.

  * `Spend`, `Rules.standard`: rules under which OP_SIZE, OP_EQUALVERIFY, OP_NUMEQUAL,
    OP_SHA256 and OP_CHECKSEQUENCEVERIFY do what Bitcoin has them do.
  * `Gate`, `Final`: what the operations of a piece of script ask of the witness, exactly:
    a piece in front of others, and the piece at the end.
  * `gate_sig`, `gate_all`, `gate_hash`, `final_sig`, `final_all`, `final_after`: the pieces
    of script that check a signature, a signer group, a preimage and a timelock.
  * `Final.accepts_iff`: a script is satisfied by the witnesses that its pieces ask for, and
    by no others.
-/
import BabylonVault.Lib.Numbers
import BabylonVault.Lib.Tapscript

namespace Tapscript
open Bytes Opcodes

/-- What a script sees of the transaction that spends it. -/
structure Spend where
  version : ℕ
  sequence : ℕ

/-- The relative lock-time of the input has passed `n` (BIP-112). -/
def Spend.Meets (S : Spend) (n : ℕ) : Prop :=
  2 ≤ S.version ∧ S.sequence.testBit 31 = false ∧ S.sequence.testBit 22 = n.testBit 22 ∧
    n % 2 ^ 16 ≤ S.sequence % 2 ^ 16

instance (S : Spend) (n : ℕ) : Decidable (S.Meets n) := by unfold Spend.Meets; infer_instance

namespace Rules

/-! ## The other opcodes -/

def size (m : Machine) : Option Machine :=
  match m.stack with
  | b :: _ => some (m.push (numberBytes b.length))
  | _ => none

def equalverify (m : Machine) : Option Machine :=
  match m.stack with
  | a :: b :: rest => if a = b then some { m with stack := rest } else none
  | _ => none

def numequal (m : Machine) : Option Machine :=
  match m.stack with
  | a :: b :: rest => (operand a).bind fun x => (operand b).bind fun y =>
      some { m with stack := numberBytes (if x = y then 1 else 0) :: rest }
  | _ => none

def sha256 (sha : Bytes → Bytes) (m : Machine) : Option Machine :=
  match m.stack with
  | b :: rest => some { m with stack := sha b :: rest }
  | _ => none

/-- The operand stays where it is. -/
def checksequenceverify (S : Spend) (m : Machine) : Option Machine :=
  match m.stack with
  | b :: _ =>
    if 5 < b.length ∨ scriptNum b < 0 then none
    else if (scriptNum b).toNat.testBit 31 = true ∨ S.Meets (scriptNum b).toNat then some m
    else none
  | _ => none

/-- Rules with these opcodes. -/
def standard (R : Rules) (sha : Bytes → Bytes) (S : Spend) : Rules :=
  { R with
    other := fun i op m =>
      if op.code = 0x82 then size m
      else if op.code = 0x88 then equalverify m
      else if op.code = 0x9C then numequal m
      else if op.code = 0xA8 then sha256 sha m
      else if op.code = 0xB2 then checksequenceverify S m
      else R.other i op m }

/-- A signature that counts for a key. -/
def Signs (R : Rules) (key sig : Bytes) : Prop := sig ≠ [] ∧ R.verifies none key sig = true

/-- The allowance is enough for `n` signatures. -/
def Affords (b : ℤ) (n : ℕ) : Prop := n = 0 ∨ 50 * (n : ℤ) ≤ b

theorem affords_add {b : ℤ} {n k : ℕ} :
    Affords b (n + k) ↔ Affords b n ∧ Affords (b - 50 * n) k := by
  unfold Affords
  omega

theorem affords_succ {b : ℤ} {n : ℕ} : Affords b (n + 1) ↔ 50 ≤ b ∧ Affords (b - 50) n := by
  unfold Affords
  omega

variable {R : Rules} {i n k : ℕ} {op num : Op} {l l' : List Op} {m m' m₁ : Machine}
  {key sig b top : Bytes} {keys : List Bytes} {c : ℕ} {args rest sigs : List Bytes}
  {ok ok' : List Bytes → Prop} {sha : Bytes → Bytes} {S : Spend}

/-! ## Single operations -/

/-- Outside conditionals an operation with room for its result is executed. -/
theorem step_of_exec (hc : m.conds = []) (hd : op.data.length ≤ 520) (h : R.exec i op m = some m')
    (hroom : m'.stack.length + m'.alt.length ≤ 1000) : R.step i op m = some m' := by
  rw [step, if_neg (by omega), if_pos (.inl (by rw [hc]; rfl)), h]
  exact if_pos (decide_eq_true hroom)

theorem run_cons (h : R.step i op m = some m₁) : R.run i (op :: l) m = R.run (i + 1) l m₁ := by
  rw [run, h, Option.bind_some]

theorem exec_push (h : op.code.toNat ≤ 0x4E) : R.exec i op m = some (m.push op.data) := if_pos h

/-- A key on the stack. -/
theorem run_key (hc : m.conds = []) (hk : key.length = 32)
    (hroom : m.stack.length + m.alt.length + 1 ≤ 1000) :
    R.run i (⟨0x20, key⟩ :: l) m = R.run (i + 1) l (m.push key) := by
  have hpush : (0x20 : UInt8).toNat ≤ 0x4E := by decide
  refine run_cons (step_of_exec hc (by show key.length ≤ 520; omega) (exec_push hpush) ?_)
  show m.stack.length + 1 + m.alt.length ≤ 1000
  omega

/-- The signature check, when no OP_CODESEPARATOR has been met. -/
theorem checkSignature_iff (hk : key.length = 32) (hs : m.codesep = none) :
    R.checkSignature key sig m = some m' ↔
      (sig ≠ [] → 50 ≤ m.budget ∧ R.verifies none key sig = true) ∧
        m' = { m with budget := if sig = [] then m.budget else m.budget - 50 } := by
  have hne : key ≠ [] := by
    rintro rfl
    cases hk
  rw [checkSignature, Option.ite_none_left_eq_some, Option.ite_none_left_eq_some, hs,
    Option.some.injEq, eq_comm (b := m'), ← and_assoc]
  refine and_congr_left fun _ => ?_
  constructor
  · rintro ⟨hb, hv⟩ hsig
    exact ⟨not_lt.1 fun hlt => hb (.inr ⟨hsig, hlt⟩), by simpa [hk, hsig] using hv⟩
  · intro h
    refine ⟨?_, fun ⟨_, hsig, hv⟩ => ?_⟩
    · rintro (hnil | ⟨hsig, hlt⟩)
      · exact hne hnil
      · exact absurd hlt (not_lt.2 (h hsig).1)
    · rw [(h hsig).2] at hv
      cases hv

/-! ## Pieces of script -/

/-- Operations that take `args` off the stack when these are `ok`, and `n` signatures off
    the allowance, and that fail otherwise. -/
structure Gate (R : Rules) (l : List Op) (ok : List Bytes → Prop) (n : ℕ) : Prop where
  intro ::
  sound : ∀ i m m', m.conds = [] → m.codesep = none → R.run i l m = some m' → ∃ args rest,
    m.stack = args ++ rest ∧ ok args ∧ Affords m.budget n ∧
      m' = { m with stack := rest, budget := m.budget - 50 * n }
  complete : ∀ i m args rest, m.conds = [] → m.codesep = none → m.stack = args ++ rest → ok args →
    Affords m.budget n → m.stack.length + m.alt.length + 2 ≤ 1000 →
    R.run i l m = some { m with stack := rest, budget := m.budget - 50 * n }

/-- Operations that leave one element more in place of `args`: it is true when these are
    `ok` and the allowance is enough. -/
structure Final (R : Rules) (l : List Op) (ok : List Bytes → Prop) (n : ℕ) : Prop where
  intro ::
  sound : ∀ i m m', m.conds = [] → m.codesep = none → R.run i l m = some m' → m'.conds = [] ∧
    ∃ args rest top, m.stack = args ++ rest ∧ m'.stack = top :: rest ∧
      (castToBool top = true → ok args ∧ Affords m.budget n)
  complete : ∀ i m args rest, m.conds = [] → m.codesep = none → m.stack = args ++ rest → ok args →
    Affords m.budget n → m.stack.length + m.alt.length + 2 ≤ 1000 → ∃ m' top,
      R.run i l m = some m' ∧ m'.conds = [] ∧ m'.stack = top :: rest ∧ castToBool top = true

/-- What two pieces ask, one after the other. -/
def Then (ok ok' : List Bytes → Prop) (args : List Bytes) : Prop :=
  ∃ a b, args = a ++ b ∧ ok a ∧ ok' b

/-- A piece in front. -/
theorem Gate.final (h : Gate R l ok n) (h' : Final R l' ok' k) :
    Final R (l ++ l') (Then ok ok') (n + k) := by
  constructor
  · intro i m m' hc hs hr
    rw [run_append] at hr
    obtain ⟨m₁, h₁, h₂⟩ := Option.bind_eq_some_iff.1 hr
    obtain ⟨a, rest₁, hst, hok, haff, rfl⟩ := h.sound _ _ _ hc hs h₁
    obtain ⟨hc', b, rest, top, hrest, hst', hres⟩ := h'.sound _ { m with stack := rest₁, budget := _ } _ hc hs h₂
    refine ⟨hc', a ++ b, rest, top, ?_, hst', fun htop => ?_⟩
    · rw [hst, List.append_assoc]
      exact congrArg (a ++ ·) hrest
    · obtain ⟨hok', haff'⟩ := hres htop
      exact ⟨⟨a, b, rfl, hok, hok'⟩, affords_add.2 ⟨haff, haff'⟩⟩
  · rintro i m _ rest hc hs hst ⟨a, b, rfl, hok, hok'⟩ haff hroom
    obtain ⟨haff, haff'⟩ := affords_add.1 haff
    rw [List.append_assoc] at hst
    rw [run_append, h.complete i m a (b ++ rest) hc hs hst hok haff hroom, Option.bind_some]
    refine h'.complete _ _ b rest hc hs rfl hok' haff' ?_
    have hlen := congrArg List.length hst
    rw [List.length_append] at hlen
    show (b ++ rest).length + m.alt.length + 2 ≤ 1000
    omega

/-- A script is satisfied by the witnesses that its operations ask for. -/
theorem Final.accepts_iff {s : Bytes} {w : List Bytes} (h : Final R l ok n) (hops : ops s = some l)
    (hs : meetsSuccess s = false) (hlen : ∀ args, ok args → args.length ≤ 998) :
    R.accepts s w = true ↔ ok w.reverse ∧ Affords (R.budget w) n ∧ ∀ b ∈ w, b.length ≤ 520 := by
  rw [accepts, hs, Bool.false_or, hops]
  simp only [Bool.and_eq_true, decide_eq_true_eq, List.all_eq_true]
  constructor
  · rintro ⟨⟨-, hall⟩, hrun⟩
    split at hrun
    next m hm =>
      simp only [Bool.and_eq_true, decide_eq_true_eq] at hrun
      obtain ⟨⟨-, h1⟩, htop⟩ := hrun
      obtain ⟨-, args, rest, top, hst, hst', hres⟩ := h.sound _ _ _ rfl rfl hm
      rw [hst'] at h1 htop
      obtain rfl := List.eq_nil_of_length_eq_zero (Nat.succ.inj h1)
      have hw : w.reverse = args := hst.trans (List.append_nil args)
      obtain ⟨hok, haff⟩ := hres htop
      exact ⟨hw ▸ hok, haff, hall⟩
    next => cases hrun
  · rintro ⟨hok, haff, hall⟩
    have hl := hlen _ hok
    obtain ⟨m', top, hm, hc, hst, htop⟩ := h.complete 0
      ⟨w.reverse, [], [], R.budget w, none⟩ w.reverse [] rfl rfl (List.append_nil _).symm hok haff
      (by show w.reverse.length + 0 + 2 ≤ 1000; omega)
    rw [List.length_reverse] at hl
    refine ⟨⟨by omega, hall⟩, ?_⟩
    rw [hm]
    simp [hc, hst, htop]

/-! ## Signatures -/

theorem exec_checksig : R.exec i ⟨0xAC, []⟩ m = R.checksig m := rfl

theorem exec_checksigverify : R.exec i ⟨0xAD, []⟩ m = R.checksigverify m := rfl

theorem exec_checksigadd : R.exec i ⟨0xBA, []⟩ m = R.checksigadd m := rfl

theorem exec_numequalverify : R.exec i ⟨0x9D, []⟩ m = numequalverify m := rfl

theorem exec_numequal : (R.standard sha S).exec i ⟨0x9C, []⟩ m = numequal m := rfl

theorem exec_size : (R.standard sha S).exec i ⟨0x82, []⟩ m = size m := rfl

theorem exec_equalverify : (R.standard sha S).exec i ⟨0x88, []⟩ m = equalverify m := rfl

theorem exec_sha256 : (R.standard sha S).exec i ⟨0xA8, []⟩ m = sha256 sha m := rfl

theorem exec_checksequenceverify :
    (R.standard sha S).exec i ⟨0xB2, []⟩ m = checksequenceverify S m := rfl

/-- The elements in front of a stack, one for each key: each is empty or signs, and the
    allowance pays for those that are not empty. -/
structure Collects (R : Rules) (keys : List Bytes) (budget : ℤ) (sigs : List Bytes) : Prop where
  each : List.Forall₂ (fun key sig => sig ≠ [] → R.verifies none key sig = true) keys sigs
  affords : Affords budget (sigs.countP (· ≠ []))

theorem Collects.cons (h : Collects R keys (if sig = [] then m.budget else m.budget - 50) sigs)
    (hsig : sig ≠ [] → 50 ≤ m.budget ∧ R.verifies none key sig = true) :
    Collects R (key :: keys) m.budget (sig :: sigs) := by
  refine ⟨.cons (fun hne => (hsig hne).2) h.each, ?_⟩
  have haff := h.affords
  rw [List.countP_cons]
  by_cases hnil : sig = []
  · rw [if_pos hnil] at haff
    rw [if_neg (by simp [hnil])]
    exact haff
  · rw [if_neg hnil] at haff
    rw [if_pos (decide_eq_true hnil)]
    exact affords_succ.2 ⟨(hsig hnil).1, haff⟩

/-- When all are counted, each signs. -/
theorem Collects.all (h : Collects R keys m.budget sigs)
    (hn : sigs.countP (· ≠ []) = keys.length) :
    List.Forall₂ R.Signs keys sigs ∧ Affords m.budget keys.length := by
  have hlen := h.each.length_eq
  have hne := List.countP_eq_length.1 (hn.trans hlen)
  refine ⟨List.forall₂_iff_zip.2 ⟨hlen, fun hab => ?_⟩, hn ▸ h.affords⟩
  have hsig : _ ≠ [] := of_decide_eq_true (hne _ (List.of_mem_zip hab).2)
  exact ⟨hsig, List.forall₂_zip h.each hab hsig⟩

/-- The counting operations of a signer group, from a count of `c`. -/
theorem addOps_sound : ∀ {keys : List Bytes} {i c : ℕ} {rest : List Bytes} {m m' : Machine},
    m.conds = [] → m.codesep = none → m.stack = numberBytes c :: rest → c + keys.length < 128 →
    (∀ key ∈ keys, key.length = 32) → R.run i (addOps keys) m = some m' → ∃ sigs rest',
      rest = sigs ++ rest' ∧ Collects R keys m.budget sigs ∧
      m' = { m with stack := numberBytes (c + sigs.countP (· ≠ []) : ℕ) :: rest',
                    budget := m.budget - 50 * (sigs.countP (· ≠ []) : ℕ) }
  | [], i, c, rest, m, m', hc, hs, hst, hlen, hk, h => by
    obtain rfl := Option.some.inj h
    refine ⟨[], rest, rfl, ⟨.nil, .inl rfl⟩, ?_⟩
    have hb : m.budget - 50 * ((0 : ℕ) : ℤ) = m.budget := by simp
    rw [List.countP_nil, Nat.add_zero, ← hst, hb]
  | key :: keys, i, c, rest, m, m', hc, hs, hst, hlen, hk, h => by
    obtain ⟨hkey, hkeys⟩ := List.forall_mem_cons.1 hk
    obtain ⟨m₁, h₁, h⟩ := run_cons_some (l := ⟨0xBA, []⟩ :: addOps keys) h
    obtain ⟨m₂, h₂, h⟩ := run_cons_some h
    have hpush : (0x20 : UInt8).toNat ≤ 0x4E := by decide
    obtain rfl := step_push hc hpush h₁
    have hex : R.checksigadd (m.push key) = some m₂ := step_some (m := m.push key) hc h₂
    rw [List.length_cons] at hlen
    rcases rest with _ | ⟨sig, rest⟩ <;> simp only [checksigadd, Machine.push, hst] at hex
    · cases hex
    · rw [operand_numberBytes (by omega), Option.bind_some] at hex
      obtain ⟨m₃, hcheck, rfl⟩ := Option.map_eq_some_iff.1 hex
      obtain ⟨hsig, rfl⟩ := (checkSignature_iff (m := { m with stack := rest }) hkey hs).1 hcheck
      have hcount : ((c : ℤ) + if sig = [] then 0 else 1) = (c + if sig = [] then 0 else 1 : ℕ) := by
        split_ifs <;> push_cast <;> rfl
      have hle : (if sig = [] then 0 else 1 : ℕ) ≤ 1 := by split_ifs <;> omega
      obtain ⟨sigs, rest', rfl, hcol, rfl⟩ := addOps_sound (c := c + if sig = [] then 0 else 1)
        (m := { m with stack := _ :: rest, budget := _ }) hc hs
        (congrArg (numberBytes · :: rest) hcount) (by omega) hkeys h
      refine ⟨sig :: sigs, rest', rfl, hcol.cons hsig, ?_⟩
      rw [List.countP_cons]
      by_cases hnil : sig = []
      · simp [hnil]
      · simp only [hnil, if_false, ne_eq, not_false_iff, decide_true, if_true,
          Machine.mk.injEq, List.cons.injEq, true_and, and_true]
        refine ⟨congrArg numberBytes ?_, ?_⟩ <;> push_cast <;> omega

theorem addOps_complete {keys sigs : List Bytes} {i c : ℕ} {m : Machine} (hc : m.conds = [])
    (hs : m.codesep = none) (hst : m.stack = numberBytes c :: (sigs ++ rest))
    (hlen : c + keys.length < 128) (hk : ∀ key ∈ keys, key.length = 32)
    (hsigs : List.Forall₂ R.Signs keys sigs) (haff : Affords m.budget keys.length)
    (hroom : m.stack.length + m.alt.length + 1 ≤ 1000) :
    R.run i (addOps keys) m = some { m with stack := numberBytes (c + keys.length : ℕ) :: rest,
                                            budget := m.budget - 50 * (keys.length : ℕ) } := by
  induction hsigs generalizing i c m with
  | nil =>
    have hb : m.budget - 50 * ((0 : ℕ) : ℤ) = m.budget := by simp
    rw [List.length_nil, Nat.add_zero, hb]
    exact congrArg some (by rw [← List.nil_append rest, ← hst])
  | @cons key sig keys sigs hsig hsigs ih =>
    obtain ⟨hkey, hkeys⟩ := List.forall_mem_cons.1 hk
    rw [List.length_cons] at hlen haff
    have h50 := affords_succ.1 haff
    have hcheck : R.checksigadd (m.push key) = some { m with
        stack := numberBytes (c + 1 : ℕ) :: (sigs ++ rest), budget := m.budget - 50 } := by
      simp only [checksigadd, Machine.push, hst, List.cons_append]
      rw [operand_numberBytes (by omega), Option.bind_some, Option.map_eq_some_iff]
      refine ⟨_, (checkSignature_iff (m := { m with stack := sigs ++ rest }) hkey hs).2
        ⟨fun _ => ⟨h50.1, hsig.2⟩, rfl⟩, ?_⟩
      simp [hsig.1]
    have hst' := congrArg List.length hst
    simp only [List.length_cons, List.cons_append] at hst'
    have hadd : addOps (key :: keys) = ⟨0x20, key⟩ :: ⟨0xBA, []⟩ :: addOps keys := rfl
    rw [hadd, run_key hc hkey (by omega), run_cons (step_of_exec (m := m.push key) hc (by simp)
      (exec_checksigadd.trans hcheck) (by simp only [List.length_cons]; omega))]
    have hih := ih (c := c + 1) (i := i + 1 + 1)
      (m := { m with stack := numberBytes (c + 1 : ℕ) :: (sigs ++ rest), budget := m.budget - 50 })
      hc hs rfl (by omega) hkeys h50.2 (by simp only [List.length_cons]; omega)
    rw [hih]
    simp only [Option.some.injEq, Machine.mk.injEq, List.cons.injEq, true_and, and_true,
      List.length_cons]
    refine ⟨congrArg numberBytes ?_, ?_⟩ <;> push_cast <;> omega

theorem signerOps_sound (hc : m.conds = []) (hs : m.codesep = none) (hne : keys ≠ [])
    (hk : ∀ key ∈ keys, key.length = 32) (hlen : keys.length < 128)
    (h : R.run i (signerOps keys) m = some m') : ∃ sigs rest, m.stack = sigs ++ rest ∧
      Collects R keys m.budget sigs ∧
      m' = { m with stack := numberBytes (sigs.countP (· ≠ []) : ℕ) :: rest,
                    budget := m.budget - 50 * (sigs.countP (· ≠ []) : ℕ) } := by
  rcases keys with _ | ⟨key, keys⟩
  · exact absurd rfl hne
  · obtain ⟨hkey, hkeys⟩ := List.forall_mem_cons.1 hk
    obtain ⟨m₁, h₁, h⟩ := run_cons_some h
    obtain ⟨m₂, h₂, h⟩ := run_cons_some h
    have hpush : (0x20 : UInt8).toNat ≤ 0x4E := by decide
    obtain rfl := step_push hc hpush h₁
    have hex : R.checksig (m.push key) = some m₂ := step_some (m := m.push key) hc h₂
    rw [List.length_cons] at hlen
    rcases hst : m.stack with _ | ⟨sig, rest⟩ <;> simp only [checksig, Machine.push, hst] at hex
    · cases hex
    · obtain ⟨m₃, hcheck, rfl⟩ := Option.map_eq_some_iff.1 hex
      obtain ⟨hsig, rfl⟩ := (checkSignature_iff (m := { m with stack := rest }) hkey hs).1 hcheck
      have hcount : (if sig = [] then 0 else 1 : ℤ) = ((if sig = [] then 0 else 1 : ℕ) : ℤ) := by
        split_ifs <;> rfl
      have hle : (if sig = [] then 0 else 1 : ℕ) ≤ 1 := by split_ifs <;> omega
      obtain ⟨sigs, rest', rfl, hcol, rfl⟩ := addOps_sound (c := if sig = [] then 0 else 1)
        (m := { m with stack := _ :: rest, budget := _ }) hc hs
        (congrArg (numberBytes · :: rest) hcount) (by omega) hkeys h
      refine ⟨sig :: sigs, rest', rfl, hcol.cons hsig, ?_⟩
      rw [List.countP_cons]
      by_cases hnil : sig = []
      · simp [hnil]
      · simp only [hnil, if_false, ne_eq, not_false_iff, decide_true, if_true,
          Machine.mk.injEq, List.cons.injEq, true_and, and_true]
        refine ⟨congrArg numberBytes ?_, ?_⟩ <;> push_cast <;> omega

theorem signerOps_complete (hc : m.conds = []) (hs : m.codesep = none) (hne : keys ≠ [])
    (hk : ∀ key ∈ keys, key.length = 32) (hlen : keys.length < 128) (hst : m.stack = sigs ++ rest)
    (hsigs : List.Forall₂ R.Signs keys sigs) (haff : Affords m.budget keys.length)
    (hroom : m.stack.length + m.alt.length + 1 ≤ 1000) : R.run i (signerOps keys) m =
      some { m with stack := numberBytes (keys.length : ℕ) :: rest,
                    budget := m.budget - 50 * (keys.length : ℕ) } := by
  cases hsigs with
  | nil => exact absurd rfl hne
  | @cons key sig keys sigs hsig hsigs =>
    obtain ⟨hkey, hkeys⟩ := List.forall_mem_cons.1 hk
    rw [List.length_cons] at hlen haff
    have h50 := affords_succ.1 haff
    have hcheck : R.checksig (m.push key) = some { m with
        stack := numberBytes (1 : ℕ) :: (sigs ++ rest), budget := m.budget - 50 } := by
      simp only [checksig, Machine.push, hst, List.cons_append]
      rw [Option.map_eq_some_iff]
      refine ⟨_, (checkSignature_iff (m := { m with stack := sigs ++ rest }) hkey hs).2
        ⟨fun _ => ⟨h50.1, hsig.2⟩, rfl⟩, ?_⟩
      simp [hsig.1]
    have hst' := congrArg List.length hst
    simp only [List.length_cons, List.cons_append] at hst'
    have hops : signerOps (key :: keys) = ⟨0x20, key⟩ :: ⟨0xAC, []⟩ :: addOps keys := rfl
    rw [hops, run_key hc hkey (by omega), run_cons (step_of_exec (m := m.push key) hc (by simp)
      (exec_checksig.trans hcheck) (by simp only [List.length_cons]; omega))]
    have hadd := addOps_complete (c := 1) (i := i + 1 + 1)
      (m := { m with stack := numberBytes (1 : ℕ) :: (sigs ++ rest), budget := m.budget - 50 })
      hc hs rfl (by omega) hkeys hsigs h50.2 (by simp only [List.length_cons]; omega)
    rw [hadd]
    simp only [Option.some.injEq, Machine.mk.injEq, List.cons.injEq, true_and, and_true,
      List.length_cons]
    refine ⟨congrArg numberBytes ?_, ?_⟩ <;> push_cast <;> omega

/-! ## Numbers -/

/-- What the push of a number leaves on the stack. -/
def pushed (op : Op) : Bytes :=
  if op.code.toNat ≤ 0x4E then op.data else [UInt8.ofNat (op.code.toNat - 0x50)]

/-- The push of a number, in four bytes at most. -/
structure PushesNumber (op : Op) (n : ℕ) : Prop where
  number : op.number = some (n : ℤ)
  length : op.data.length ≤ 4

theorem PushesNumber.spec (h : PushesNumber num n) : scriptNum (pushed num) = n ∧
    (pushed num).length ≤ 4 ∧ ∀ i m, R.exec i num m = some (m.push (pushed num)) := by
  have hn := h.number
  have hl := h.length
  unfold Op.number at hn
  unfold pushed
  have hlast : ∀ k : ℕ, k ≤ 16 → scriptNum [UInt8.ofNat k] = k := by decide +kernel
  split_ifs at hn with h1 h2 h3
  · rw [if_pos (by omega)]
    exact ⟨Option.some.inj hn, hl, fun i m => exec_push (by omega)⟩
  · have := Option.some.inj hn
    omega
  · have hval := Option.some.inj hn
    rw [if_neg (by omega), hlast _ (by omega)]
    refine ⟨by omega, Nat.le_of_ble_eq_true rfl, fun i m => ?_⟩
    rw [exec, if_neg (by omega), if_neg h2, if_pos h3]

theorem PushesNumber.operand (h : PushesNumber num n) :
    operand (pushed num) = some (n : ℤ) := by
  obtain ⟨hval, hl, -⟩ := h.spec (R := ⟨fun _ _ _ => false, fun _ => 0, fun _ _ _ => none⟩)
  rw [Tapscript.operand, if_pos hl, hval]

theorem PushesNumber.step (h : PushesNumber num n) (hc : m.conds = [])
    (hroom : m.stack.length + m.alt.length + 1 ≤ 1000) :
    R.step i num m = some (m.push (pushed num)) := by
  obtain ⟨-, -, hex⟩ := h.spec (R := R)
  have hl := h.length
  refine step_of_exec hc (by omega) (hex i m) ?_
  show m.stack.length + 1 + m.alt.length ≤ 1000
  omega

theorem PushesNumber.of_step (h : PushesNumber num n) (hc : m.conds = [])
    (hs : R.step i num m = some m') : m' = m.push (pushed num) := by
  obtain ⟨-, -, hex⟩ := h.spec (R := R)
  exact (Option.some.inj ((hex i m).symm.trans (step_some hc hs))).symm

/-- The push of a number is not an OP_SUCCESSx. -/
theorem PushesNumber.not_success (h : PushesNumber num n) : isSuccess num.code = false := by
  have hn := h.number
  unfold Op.number at hn
  have hcode : num.code.toNat ≤ 0x4F ∨ 0x51 ≤ num.code.toNat ∧ num.code.toNat ≤ 0x60 := by
    split_ifs at hn with h1 h2 h3
    · omega
    · rw [h2]
      decide
    · exact .inr h3
  have hall : ∀ k < 0x61, k ≤ 0x4F ∨ 0x51 ≤ k → isSuccess (UInt8.ofNat k) = false := by
    decide +kernel
  rw [← UInt8.ofNat_toNat (x := num.code)]
  exact hall _ (by omega) (by omega)

/-- A number other than zero is true. -/
theorem castToBool_of_scriptNum (h : scriptNum b ≠ 0) : castToBool b = true := by
  rcases List.eq_nil_or_concat' b with rfl | ⟨l, x, rfl⟩
  · exact absurd rfl h
  · by_contra hf
    simp only [castToBool, List.dropLast_concat, getLastD_concat, Bool.or_eq_true, List.any_eq_true,
      Bool.and_eq_true, decide_eq_true_eq, not_or, not_exists, not_and, not_not] at hf
    obtain ⟨hl, hx⟩ := hf
    have hzero : ofLE l = 0 := by
      rw [List.eq_replicate_of_mem hl]
      generalize l.length = k
      induction k with
      | zero => rfl
      | succ k ih => rw [List.replicate_succ, ofLE, ih]; rfl
    refine h ?_
    rw [scriptNum, getLastD_concat, ofLE_concat, hzero]
    by_cases hx0 : x = 0
    · subst hx0
      simp
    · obtain rfl := hx hx0
      simp [mul_comm]

/-! ## The pieces -/

theorem step_plain {code : UInt8} {a : Machine} (hc : m.conds = [])
    (h : R.exec i ⟨code, []⟩ m = some a) (hroom : a.stack.length + a.alt.length ≤ 1000) :
    R.step i ⟨code, []⟩ m = some a :=
  step_of_exec hc (Nat.zero_le 520) h hroom

/-- `<key> OP_CHECKSIGVERIFY`. -/
theorem gate_sig (hk : key.length = 32) :
    Gate R [⟨0x20, key⟩, ⟨0xAD, []⟩] (List.Forall₂ R.Signs [key]) 1 := by
  have hpush : (0x20 : UInt8).toNat ≤ 0x4E := by decide
  constructor
  · intro i m m' hc hs h
    obtain ⟨m₁, h₁, h⟩ := run_cons_some h
    obtain ⟨m₂, h₂, h⟩ := run_cons_some h
    obtain rfl : m₂ = m' := Option.some.inj h
    obtain rfl := step_push hc hpush h₁
    have hex : R.checksigverify (m.push key) = some m₂ := step_some (m := m.push key) hc h₂
    rcases hst : m.stack with _ | ⟨sig, rest⟩ <;> simp only [checksigverify, Machine.push, hst] at hex
    · cases hex
    · obtain ⟨hne, hex⟩ := Option.ite_none_left_eq_some.1 hex
      obtain ⟨hsig, rfl⟩ := (checkSignature_iff (m := { m with stack := rest }) hk hs).1 hex
      obtain ⟨hb, hv⟩ := hsig hne
      refine ⟨[sig], rest, rfl, .cons ⟨hne, hv⟩ .nil, .inr ?_, ?_⟩
      · push_cast
        omega
      · simp [hne]
  · rintro i m _ rest hc hs hst (_ | ⟨hsig, _ | _⟩) haff hroom
    rename_i sig
    have h50 := affords_succ.1 haff
    have hcheck : R.checksigverify (m.push key) =
        some { m with stack := rest, budget := m.budget - 50 } := by
      simp only [checksigverify, Machine.push, hst, List.singleton_append]
      rw [if_neg hsig.1, (checkSignature_iff (m := { m with stack := rest }) hk hs).2
        ⟨fun _ => ⟨h50.1, hsig.2⟩, rfl⟩]
      simp [hsig.1]
    have hst' := congrArg List.length hst
    simp only [List.singleton_append, List.length_cons] at hst'
    rw [run_key hc hk (by omega), run_cons (step_plain (m := m.push key) hc
      (exec_checksigverify.trans hcheck) (by show rest.length + m.alt.length ≤ 1000; omega)), run]
    simp

/-- `<key> OP_CHECKSIG` at the end. -/
theorem final_sig (hk : key.length = 32) :
    Final R [⟨0x20, key⟩, ⟨0xAC, []⟩] (List.Forall₂ R.Signs [key]) 1 := by
  have hpush : (0x20 : UInt8).toNat ≤ 0x4E := by decide
  constructor
  · intro i m m' hc hs h
    obtain ⟨m₁, h₁, h⟩ := run_cons_some h
    obtain ⟨m₂, h₂, h⟩ := run_cons_some h
    obtain rfl : m₂ = m' := Option.some.inj h
    obtain rfl := step_push hc hpush h₁
    have hex : R.checksig (m.push key) = some m₂ := step_some (m := m.push key) hc h₂
    rcases hst : m.stack with _ | ⟨sig, rest⟩ <;> simp only [checksig, Machine.push, hst] at hex
    · cases hex
    · obtain ⟨m₃, hcheck, rfl⟩ := Option.map_eq_some_iff.1 hex
      obtain ⟨hsig, rfl⟩ := (checkSignature_iff (m := { m with stack := rest }) hk hs).1 hcheck
      refine ⟨hc, [sig], rest, _, rfl, rfl, fun htop => ?_⟩
      have hne : sig ≠ [] := by
        rintro rfl
        rw [if_pos rfl] at htop
        exact absurd htop (by decide)
      obtain ⟨hb, hv⟩ := hsig hne
      refine ⟨.cons ⟨hne, hv⟩ .nil, .inr ?_⟩
      push_cast
      omega
  · rintro i m _ rest hc hs hst (_ | ⟨hsig, _ | _⟩) haff hroom
    have hone : Affords m.budget [key].length := haff
    have hrun := signerOps_complete (i := i) hc hs (List.cons_ne_nil key []) (by simpa using hk)
      (by simp) hst (.cons hsig .nil) hone (by omega)
    have htrue : castToBool (numberBytes (1 : ℕ)) = true := by decide
    exact ⟨_, _, hrun, hc, rfl, htrue⟩

/-- The count of a signer group on the stack, compared with the number of its keys. -/
theorem operand_count {sigs : List Bytes} (hlen : keys.length < 128)
    (h : Collects R keys m.budget sigs) :
    operand (numberBytes (sigs.countP (· ≠ []) : ℕ)) = some ((sigs.countP (· ≠ []) : ℕ) : ℤ) := by
  have hle : sigs.countP (· ≠ []) ≤ sigs.length := List.countP_le_length
  have hlen' := h.each.length_eq
  exact operand_numberBytes (by omega)

/-- A signer group. -/
theorem gate_all (hne : keys ≠ []) (hk : ∀ key ∈ keys, key.length = 32) (hlen : keys.length < 128)
    (hnum : PushesNumber num keys.length) :
    Gate R (signerOps keys ++ [num, ⟨0x9D, []⟩]) (List.Forall₂ R.Signs keys) keys.length := by
  constructor
  · intro i m m' hc hs h
    rw [run_append] at h
    obtain ⟨m₁, h, hend⟩ := Option.bind_eq_some_iff.1 h
    obtain ⟨sigs, rest, hst, hcol, rfl⟩ := signerOps_sound hc hs hne hk hlen h
    obtain ⟨m₂, h₂, hend⟩ := run_cons_some hend
    obtain ⟨m₃, h₃, hend⟩ := run_cons_some hend
    obtain rfl : m₃ = m' := Option.some.inj hend
    obtain rfl := hnum.of_step (m := { m with stack := _ :: rest, budget := _ }) hc h₂
    have hex := step_some (m := Machine.push _ { m with stack := _ :: rest, budget := _ }) hc h₃
    rw [exec_numequalverify] at hex
    simp only [numequalverify, Machine.push] at hex
    obtain ⟨⟨-, heq⟩, hex⟩ := Option.ite_none_right_eq_some.1 hex
    obtain rfl := Option.some.inj hex
    rw [hnum.operand, operand_count hlen hcol] at heq
    have hcount : sigs.countP (· ≠ []) = keys.length := by exact_mod_cast (Option.some.inj heq).symm
    obtain ⟨hsigs, haff⟩ := hcol.all hcount
    exact ⟨sigs, rest, hst, hsigs, haff, by rw [hcount]⟩
  · intro i m sigs rest hc hs hst hsigs haff hroom
    have hst' := congrArg List.length hst
    have hpos := List.length_pos_iff.2 hne
    have hl := hsigs.length_eq
    rw [List.length_append] at hst'
    rw [run_append, signerOps_complete hc hs hne hk hlen hst hsigs haff (by omega), Option.bind_some,
      run_cons (hnum.step (m := { m with stack := _ :: rest, budget := _ }) hc
        (by show rest.length + 1 + m.alt.length + 1 ≤ 1000; omega)),
      run_cons (step_plain (m := Machine.push _ { m with stack := _ :: rest, budget := _ })
        (a := { m with stack := rest, budget := _ }) hc ?_
        (by show rest.length + m.alt.length ≤ 1000; omega)), run]
    rw [exec_numequalverify]
    simp only [numequalverify, Machine.push]
    rw [hnum.operand, operand_numberBytes hlen, if_pos ⟨rfl, rfl⟩]

/-- A signer group at the end. -/
theorem final_all (hne : keys ≠ []) (hk : ∀ key ∈ keys, key.length = 32) (hlen : keys.length < 128)
    (hnum : PushesNumber num keys.length) :
    Final (R.standard sha S) (signerOps keys ++ [num, ⟨0x9C, []⟩]) (List.Forall₂ R.Signs keys)
      keys.length := by
  constructor
  · intro i m m' hc hs h
    rw [run_append] at h
    obtain ⟨m₁, h, hend⟩ := Option.bind_eq_some_iff.1 h
    obtain ⟨sigs, rest, hst, hcol, rfl⟩ := signerOps_sound hc hs hne hk hlen h
    obtain ⟨m₂, h₂, hend⟩ := run_cons_some hend
    obtain ⟨m₃, h₃, hend⟩ := run_cons_some hend
    obtain rfl : m₃ = m' := Option.some.inj hend
    obtain rfl := hnum.of_step (m := { m with stack := _ :: rest, budget := _ }) hc h₂
    have hex := step_some (m := Machine.push _ { m with stack := _ :: rest, budget := _ }) hc h₃
    rw [exec_numequal] at hex
    simp only [numequal, Machine.push] at hex
    rw [hnum.operand, operand_count hlen hcol, Option.bind_some, Option.bind_some] at hex
    obtain rfl := Option.some.inj hex
    refine ⟨hc, sigs, rest, _, hst, rfl, fun htop => ?_⟩
    have hcount : sigs.countP (· ≠ []) = keys.length := by
      split_ifs at htop with heq
      · exact_mod_cast heq.symm
      · exact absurd htop (by decide)
    exact hcol.all hcount
  · intro i m sigs rest hc hs hst hsigs haff hroom
    have hst' := congrArg List.length hst
    have hpos := List.length_pos_iff.2 hne
    have hl := hsigs.length_eq
    rw [List.length_append] at hst'
    refine ⟨{ m with stack := numberBytes 1 :: rest, budget := m.budget - 50 * (keys.length : ℕ) },
      _, ?_, hc, rfl, by decide⟩
    rw [run_append, signerOps_complete (R := R.standard sha S) hc hs hne hk hlen hst hsigs haff
        (by omega), Option.bind_some,
      run_cons (hnum.step (m := { m with stack := _ :: rest, budget := _ }) hc
        (by show rest.length + 1 + m.alt.length + 1 ≤ 1000; omega)),
      run_cons (step_plain (m := Machine.push _ { m with stack := _ :: rest, budget := _ })
        (a := { m with stack := numberBytes 1 :: rest, budget := _ }) hc ?_
        (by show rest.length + 1 + m.alt.length ≤ 1000; omega)), run]
    rw [exec_numequal]
    simp only [numequal, Machine.push]
    rw [hnum.operand, operand_numberBytes hlen, Option.bind_some, Option.bind_some, if_pos rfl]

/-- A number of bytes, as OP_SIZE leaves it. -/
theorem numberBytes_eq_singleton {x : UInt8} (h0 : x ≠ 0) (h : numberBytes (n : ℤ) = [x]) :
    n = x.toNat := by
  have hz : ¬(n : ℤ) < 0 := by omega
  simp only [numberBytes, hz, if_false, Int.natAbs_natCast] at h
  split_ifs at h with htop
  · have hlast := congrArg (List.getLastD · 0) h
    rw [getLastD_concat] at hlast
    exact absurd hlast.symm h0
  · have hlen := congrArg List.length h
    rw [List.length_map] at hlen
    obtain ⟨y, hy⟩ := List.length_eq_one_iff.1 hlen
    have hlt := Nat.digits_lt_base (b := 256) (m := n) (by omega) (hy ▸ List.mem_singleton_self y)
    have hval := Nat.ofDigits_digits 256 n
    rw [hy, Nat.ofDigits_singleton] at hval
    rw [hy, List.map_singleton] at h
    rw [← hval, ← (List.cons.inj h).1, UInt8.toNat_ofNat', Nat.mod_eq_of_lt hlt]

/-- `OP_SIZE <32> OP_EQUALVERIFY OP_SHA256 <h> OP_EQUALVERIFY`. -/
theorem gate_hash {h : Bytes} (hh : h.length = 32) :
    Gate (R.standard sha S) [⟨0x82, []⟩, ⟨0x01, [0x20]⟩, ⟨0x88, []⟩, ⟨0xA8, []⟩, ⟨0x20, h⟩, ⟨0x88, []⟩]
      (fun args => ∃ x, args = [x] ∧ x.length = 32 ∧ sha x = h) 0 := by
  have h01 : (0x01 : UInt8).toNat ≤ 0x4E := by decide
  have h20 : (0x20 : UInt8).toNat ≤ 0x4E := by decide
  constructor
  · intro i m m' hc hs hr
    obtain ⟨m₁, h₁, hr⟩ := run_cons_some hr
    obtain ⟨m₂, h₂, hr⟩ := run_cons_some hr
    obtain ⟨m₃, h₃, hr⟩ := run_cons_some hr
    obtain ⟨m₄, h₄, hr⟩ := run_cons_some hr
    obtain ⟨m₅, h₅, hr⟩ := run_cons_some hr
    obtain ⟨m₆, h₆, hr⟩ := run_cons_some hr
    obtain rfl : m₆ = m' := Option.some.inj hr
    have e₁ := step_some hc h₁
    rw [exec_size, size] at e₁
    rcases hst : m.stack with _ | ⟨x, rest⟩
    · rw [hst] at e₁
      cases e₁
    · rw [hst] at e₁
      obtain rfl := Option.some.inj e₁
      obtain rfl := step_push (m := m.push _) hc h01 h₂
      have e₃ := step_some (m := Machine.push _ (m.push _)) hc h₃
      rw [exec_equalverify] at e₃
      simp only [equalverify, Machine.push, hst] at e₃
      obtain ⟨hlen, e₃⟩ := Option.ite_none_right_eq_some.1 e₃
      obtain rfl := Option.some.inj e₃
      have e₄ := step_some (m := { m with stack := x :: rest }) hc h₄
      rw [exec_sha256, sha256] at e₄
      obtain rfl := Option.some.inj e₄
      obtain rfl := step_push (m := { m with stack := sha x :: rest }) hc h20 h₅
      have e₆ := step_some (m := Machine.push h { m with stack := sha x :: rest }) hc h₆
      rw [exec_equalverify] at e₆
      simp only [equalverify, Machine.push] at e₆
      obtain ⟨heq, e₆⟩ := Option.ite_none_right_eq_some.1 e₆
      obtain rfl := Option.some.inj e₆
      have hx : x.length = 32 := numberBytes_eq_singleton (by decide) hlen.symm
      exact ⟨[x], rest, rfl, ⟨x, rfl, hx, heq.symm⟩, .inl rfl, by simp⟩
  · rintro i m _ rest hc hs hst ⟨x, rfl, hx, rfl⟩ - hroom
    have hst' : m.stack = x :: rest := hst
    have hlen := congrArg List.length hst'
    rw [List.length_cons] at hlen
    have hsize : size m = some (m.push [0x20]) := by
      rw [size, hst']
      show some (m.push (numberBytes (x.length : ℤ))) = _
      rw [hx]
      rfl
    rw [run_cons (step_plain hc (exec_size.trans hsize)
        (by show m.stack.length + 1 + m.alt.length ≤ 1000; omega)),
      run_cons (step_of_exec (m := m.push [0x20]) hc (by simp) (exec_push h01)
        (by show m.stack.length + 1 + 1 + m.alt.length ≤ 1000; omega)),
      run_cons (step_plain (m := Machine.push [0x20] (m.push [0x20])) (a := m) hc
        (by rw [exec_equalverify]; rfl) (by omega)),
      run_cons (step_plain (a := { m with stack := sha x :: rest }) hc
        (by rw [exec_sha256, sha256, hst']) (by show rest.length + 1 + m.alt.length ≤ 1000; omega)),
      run_cons (step_of_exec (m := { m with stack := sha x :: rest }) hc
        (by show (sha x).length ≤ 520; omega) (exec_push h20)
        (by show rest.length + 1 + 1 + m.alt.length ≤ 1000; omega)),
      run_cons (step_plain (m := Machine.push (sha x) { m with stack := sha x :: rest })
        (a := { m with stack := rest }) hc
        (by rw [exec_equalverify]; simp only [equalverify, Machine.push, if_true])
        (by show rest.length + m.alt.length ≤ 1000; omega)), run]
    simp

/-- `<n> OP_CHECKSEQUENCEVERIFY` at the end. -/
theorem final_after (hnum : PushesNumber num n) (h0 : 0 < n) (hn : n < 2 ^ 31) :
    Final (R.standard sha S) [num, ⟨0xB2, []⟩] (fun args => args = [] ∧ S.Meets n) 0 := by
  obtain ⟨hval, hlen, -⟩ := hnum.spec (R := R)
  have htop : n.testBit 31 = false := Nat.testBit_lt_two_pow hn
  have htrue : castToBool (pushed num) = true := castToBool_of_scriptNum (by omega)
  have hcsv : ∀ m, checksequenceverify S (Machine.push (pushed num) m) =
      if S.Meets n then some (Machine.push (pushed num) m) else none := by
    intro m
    rw [checksequenceverify, Machine.push]
    show (if 5 < (pushed num).length ∨ scriptNum (pushed num) < 0 then none else _) = _
    rw [if_neg (by omega), hval, Int.toNat_natCast, htop]
    simp
  constructor
  · intro i m m' hc hs hr
    obtain ⟨m₁, h₁, hr⟩ := run_cons_some hr
    obtain ⟨m₂, h₂, hr⟩ := run_cons_some hr
    obtain rfl : m₂ = m' := Option.some.inj hr
    obtain rfl := hnum.of_step hc h₁
    have hex := step_some (m := m.push _) hc h₂
    rw [exec_checksequenceverify, hcsv] at hex
    obtain ⟨hmeets, hex⟩ := Option.ite_none_right_eq_some.1 hex
    obtain rfl := Option.some.inj hex
    exact ⟨hc, [], m.stack, pushed num, rfl, rfl, fun _ => ⟨⟨rfl, hmeets⟩, .inl rfl⟩⟩
  · rintro i m _ rest hc hs hst ⟨rfl, hmeets⟩ - hroom
    refine ⟨m.push (pushed num), _, ?_, hc, congrArg (_ :: ·) hst, htrue⟩
    rw [run_cons (hnum.step hc (by omega)), run_cons (step_plain (m := m.push (pushed num))
      (a := m.push (pushed num)) hc ?_ (by show m.stack.length + 1 + m.alt.length ≤ 1000; omega)),
      run]
    rw [exec_checksequenceverify, hcsv, if_pos hmeets]

/-! ## Scripts -/

/-- Bytes whose operations are a gate, none of them an OP_SUCCESSx. -/
def Checks (R : Rules) (A : Bytes) (ok : List Bytes → Prop) (n : ℕ) : Prop :=
  ∃ l, ops A = some l ∧ l.any (isSuccess ·.code) = false ∧ Gate R l ok n

/-- Bytes whose operations end a script, none of them an OP_SUCCESSx. -/
def Ends (R : Rules) (A : Bytes) (ok : List Bytes → Prop) (n : ℕ) : Prop :=
  ∃ l, ops A = some l ∧ l.any (isSuccess ·.code) = false ∧ Final R l ok n

variable {A B : Bytes}

theorem Checks.ends (h : Checks R A ok n) (h' : Ends R B ok' k) :
    Ends R (A ++ B) (Then ok ok') (n + k) := by
  obtain ⟨l, hl, hs, hg⟩ := h
  obtain ⟨l', hl', hs', hf⟩ := h'
  refine ⟨l ++ l', ?_, ?_, hg.final hf⟩
  · rw [ops_append hl, hl', Option.map_some]
  · rw [List.any_append, hs, hs']
    rfl

theorem Ends.congr (h : Ends R A ok n) (hok : ∀ args, ok args ↔ ok' args) : Ends R A ok' n := by
  rwa [← funext fun args => propext (hok args)]

/-- The end of a script that asks for a signature of each key, in this order, and for `P`. -/
def Asks (R : Rules) (A : Bytes) (keys : List Bytes) (P : Prop) : Prop :=
  Ends R A (fun args => List.Forall₂ R.Signs keys args ∧ P) keys.length

theorem Ends.asks (h : Ends R A (List.Forall₂ R.Signs keys) keys.length) : Asks R A keys True :=
  h.congr fun _ => (iff_of_eq (and_true _)).symm

/-- More keys in front. -/
theorem Checks.asks {keys' : List Bytes} {P : Prop}
    (h : Checks R A (List.Forall₂ R.Signs keys) keys.length) (h' : Asks R B keys' P) :
    Asks R (A ++ B) (keys ++ keys') P := by
  rw [Asks, List.length_append]
  refine (h.ends h').congr fun args => ?_
  constructor
  · rintro ⟨a, b, rfl, ha, hb, hP⟩
    exact ⟨List.rel_append ha hb, hP⟩
  · rintro ⟨hall, hP⟩
    have ha := (List.forall₂_take_append _ _ _ hall.flip).flip
    have hb := (List.forall₂_drop_append _ _ _ hall.flip).flip
    exact ⟨_, _, (List.take_append_drop keys.length args).symm, ha, hb, hP⟩

/-- A script is satisfied by the witnesses that it asks for, and by no others. -/
theorem Ends.accepts_iff {w : List Bytes} (h : Ends R A ok n)
    (hlen : ∀ args, ok args → args.length ≤ 998) : R.accepts A w = true ↔
      ok w.reverse ∧ Affords (R.budget w) n ∧ ∀ b ∈ w, b.length ≤ 520 := by
  obtain ⟨l, hl, hs, hf⟩ := h
  have hplain : meetsSuccess A = false := by
    have hnil := meetsSuccess_append (B := []) hl
    rw [List.append_nil, hs, Bool.false_or] at hnil
    exact hnil
  exact hf.accepts_iff hl hplain hlen

end Rules

end Tapscript
