/-
  Who can spend an Assert leaf.

  * `assertPrefix_demands`: nobody gets past the signer prefix without a signature of the
    depositor, of each keeper and of each challenger.
  * `AssertSafe`: no witness satisfies the leaf without them.
  * `Reach.assert_safe_iff`: so it is with an accepted leaf, unless decoding its body meets
    an OP_SUCCESSx; then the prefix is never run.
-/
import BabylonVault.Accept.Dispatch
import BabylonVault.Lib.Tapscript
import BabylonVault.Serve
import BabylonVault.Timelock

namespace BabylonVault
open Bytes Prog Opcodes Tapscript Rules

variable {E : Env} {st : SignPsbtState} {p : Psbt} {d : Device} {ls : List Exchange} {it : VaultIntent}
  {v v' : Volatile} {cb script : Bytes} {R : Rules}

/-- The signers of an Assert. -/
def VaultIntent.assertSigners (it : VaultIntent) : List Bytes32 :=
  it.depositorPk :: (it.keepers ++ it.challengers)

/-- Under BIP-342 a witness that satisfies the script has a signature for each signer. -/
def AssertSafe (R : Rules) (it : VaultIntent) (script : Bytes) : Prop :=
  ∀ witness, R.accepts script witness = true →
    ∀ key ∈ it.assertSigners, ∃ sig ∈ witness, R.verifies none key.toList sig = true

/-! ## The signer prefix -/

theorem keyEntry_demands (key : Bytes32) :
    Demands R (keyEntry key opChecksigverify) [key.toList] :=
  ⟨_, ops_keyEntry key (by decide), fun _ _ _ hc h => run_checksigverify hc key.toList_length h⟩

theorem multisigGroup_demands {keys : List Bytes32} (hne : keys ≠ []) (hk : keys.length ≤ 32) :
    Demands R (multisigGroup keys opNumequalverify) (keys.map (·.toList)) := by
  rcases keys with _ | ⟨key, keys⟩
  · exact absurd rfl hne
  · have hver : 0x4E < opNumequalverify.toNat := by decide
    obtain ⟨num, hnum, hops⟩ := ops_multisigGroup hver hk
    have hgroup : ops (multisigGroup (key :: keys) opNumequalverify) =
        some (signerOps ((key :: keys).map (·.toList)) ++ [num, ⟨0x9D, []⟩]) := by
      rw [hops]
      simp [signerOps, addOps, List.flatMap_map, opPushbytes32, opChecksig, opChecksigadd,
        opNumequalverify]
    refine ⟨_, hgroup, fun i m m' hc h => run_signerGroup hc (by simp) ?_ ?_ ?_ h⟩
    · simp only [List.mem_map, forall_exists_index, and_imp]
      rintro _ k - rfl
      exact k.toList_length
    · rw [List.length_map]
      omega
    · rw [List.length_map]
      exact hnum

/-- The whole prefix. -/
theorem assertPrefix_demands (hk : it.keepers ≠ [] ∧ it.keepers.length ≤ 32)
    (hc : it.challengers ≠ [] ∧ it.challengers.length ≤ 32) :
    Demands R (assertPrefix it) (it.assertSigners.map (·.toList)) := by
  have h := ((keyEntry_demands (R := R) it.depositorPk).append
    (multisigGroup_demands hk.1 hk.2)).append (multisigGroup_demands hc.1 hc.2)
  rw [VaultIntent.assertSigners, List.map_cons, List.map_append]
  exact h

/-! ## The prefix meets no OP_SUCCESSx -/

theorem plain_keyEntry (key : Bytes32) {op : UInt8} (h : 0x4E < op.toNat)
    (hs : isSuccess op = false) : Plain (keyEntry key op) := by
  refine ⟨_, ops_keyEntry key h, ?_⟩
  have h32 : isSuccess opPushbytes32 = false := by decide
  simp [hs, h32]

theorem plain_multisigGroup {keys : List Bytes32} (hk : keys.length ≤ 32) :
    Plain (multisigGroup keys opNumequalverify) := by
  rcases keys with _ | ⟨key, keys⟩
  · exact ⟨[], rfl, rfl⟩
  · have hnum : ∀ k ≤ 32, (match ops (pushNumber k) with
        | some l => !l.any (isSuccess ·.code)
        | none => false) = true := by decide +kernel
    have hadds : ∀ keys : List Bytes32, Plain (keys.flatMap (keyEntry · opChecksigadd)) := by
      intro keys
      induction keys with
      | nil => exact ⟨[], rfl, rfl⟩
      | cons key keys ih => exact (plain_keyEntry key (by decide) (by decide)).append ih
    have hcount : Plain (pushNumber (key :: keys).length) := by
      have h := hnum _ hk
      split at h
      next l hl => exact ⟨l, hl, by simpa using h⟩
      next => cases h
    have hkey : Plain (keyEntry key opChecksig) := plain_keyEntry key (by decide) (by decide)
    exact ((hkey.append (hadds keys)).append hcount).append ⟨[⟨opNumequalverify, []⟩], rfl, by decide⟩

/-- Whether the leaf meets one is up to its body. -/
theorem meetsSuccess_body (hk : it.keepers.length ≤ 32) (hc : it.challengers.length ≤ 32)
    (body : Bytes) : meetsSuccess (assertPrefix it ++ body) = meetsSuccess body := by
  have hd : Plain (keyEntry it.depositorPk opChecksigverify) :=
    plain_keyEntry it.depositorPk (by decide) (by decide)
  exact ((hd.append (plain_multisigGroup hk)).append (plain_multisigGroup hc)).meetsSuccess

/-! ## Accepted leaves -/

/-- A script behind the signer prefix is safe exactly when it meets no OP_SUCCESSx. -/
theorem assertSafe_iff (hk : it.keepers ≠ [] ∧ it.keepers.length ≤ 32)
    (hc : it.challengers ≠ [] ∧ it.challengers.length ≤ 32) (hp : assertPrefix it <+: script) :
    AssertSafe R it script ↔ meetsSuccess script = false := by
  constructor
  · intro h
    by_contra hs
    obtain ⟨sig, hsig, -⟩ := h [] (accepts_of_success (by simpa using hs)) it.depositorPk
      List.mem_cons_self
    exact absurd hsig List.not_mem_nil
  · obtain ⟨body, rfl⟩ := hp
    intro hs witness hw key hkey
    exact (assertPrefix_demands hk hc).safe hs hw key.toList (List.mem_map_of_mem hkey)

/-- An accepted Assert leaf has the signer prefix of the loaded intent. -/
theorem Reach.assert_leaf (h : Reach E ls d) (ha : (dispatch E st d.session).Via p.Allows v .assert v') :
    d.ctx.state = .intentLoaded ∧ ∃ cb script, p.HasLeaf 0 cb script ∧
      assertPrefix d.intent <+: script := by
  have hpre : ∀ script, prefixOk d.session script = true ↔ _ := fun script =>
    prefixOk_iff (E := E) fun hl => (h.session.loaded hl).intent
  cases dispatch_via ha with
  | leaf _ _ _ hassert =>
    obtain ⟨cb, script, ⟨hleaf, hok, -⟩, -⟩ := hassert rfl
    obtain ⟨hl, -, hpfx⟩ := (hpre script).1 hok
    exact ⟨hl, cb, script, hleaf.hasLeaf.2, hpfx⟩

/-- The leaf of an accepted Assert is the signer prefix and a body; it is safe exactly when
    decoding the body meets no OP_SUCCESSx, whatever the other opcodes do. -/
theorem Reach.assert_safe_iff (h : Reach E ls d)
    (ha : (dispatch E st d.session).Via p.Allows v .assert v') (hleaf : p.HasLeaf 0 cb script) :
    ∃ body, script = assertPrefix d.intent ++ body ∧
      ∀ R : Rules, AssertSafe R d.intent script ↔ meetsSuccess body = false := by
  obtain ⟨hl, cb', script', hleaf', body, rfl⟩ := h.assert_leaf ha
  obtain ⟨rfl, rfl⟩ := hleaf.unique hleaf'
  have hb := ((h.session.loaded hl).intent).leafBounds
  have hkeepers : d.intent.keepers ≠ [] := List.ne_nil_of_length_pos hb.keepersLen.1
  have hchallengers : d.intent.challengers ≠ [] := List.ne_nil_of_length_pos hb.challengersLen.1
  refine ⟨body, rfl, fun R => ?_⟩
  rw [assertSafe_iff ⟨hkeepers, hb.keepersLen.2⟩ ⟨hchallengers, hb.challengersLen.2⟩
      (List.prefix_append _ body),
    meetsSuccess_body hb.keepersLen.2 hb.challengersLen.2]

namespace Signet

/-- An Assert leaf of `intent` with this body. -/
def assertLeaf (body : Bytes) : Bytes := assertPrefix intent ++ (body ++ [opTrue])

/-- An Assert that spends it. -/
def assertion (out : UInt8 × ℕ) (body : Bytes) : Psbt :=
  ⟨[], [spend 3000 out (assertLeaf body)
      0x960f04e36faee8da59f0459d1b3580ee22df9462f545b68060f35cd46ef032a3 sequenceFinal ++
      [depositorRecord]],
    [output 2000 (spk payoutOut)]⟩

def assertionState (out : UInt8 × ℕ) (body : Bytes) : SignPsbtState :=
  parsed (assertion out body) 3000 2000

/-- Rules under which a key signs by its own bytes, and OP_NOP is the only other opcode. -/
def echoRules : Rules where
  verifies _ key sig := key = sig
  budget _ := 150
  other _ op m := if op.code = 0x61 then some m else none

theorem assertion_leaf (out : UInt8 × ℕ) {body : Bytes} (h : (assertLeaf body).length < 16384) :
    (assertion out body).HasLeaf 0
      ((tapscriptLeafVersion ||| out.1) :: (vaultNumsXonly.toList ++ [])) (assertLeaf body) := by
  refine ⟨⟨utxo 3000 (spk out) :: outpoint _ _ _, [depositorRecord], rfl, ?_, ?_⟩, ?_, ?_, h⟩
  · simp [NoLeaf, utxo, outpoint, psbtInWitnessUtxo, psbtInPreviousTxid, psbtInOutputIndex,
      psbtInSequence, psbtInTapLeafScript]
  · simp [NoLeaf, depositorRecord, psbtInTapBip32Derivation, psbtInTapLeafScript]
  · simp [vaultNumsXonly, controlBlockMaxLen]
  · simp only [assertLeaf, List.length_append, List.length_singleton]
    omega

end Signet

open Signet in
theorem assert_safe_signet : AssertSafe echoRules intent (assertLeaf [0x61]) ∧
    echoRules.accepts (assertLeaf [0x61])
      (intent.assertSigners.map (·.toList)).reverse = true := by
  have h : ((dispatch env (assertionState assertOut [0x61]) (loaded intent).session).eval
      (assertion assertOut [0x61]).serve (loaded intent).volatile).1 = .ok .assert := by
    rw [loaded_intent]
    decide +kernel
  have hi : (loaded intent).intent = intent := by
    rw [loaded_intent]
    rfl
  obtain ⟨body, hbody, hiff⟩ := (reach_loaded intent).assert_safe_iff
    (via_of_eval (assertion assertOut [0x61]).serve_allows h)
    (assertion_leaf assertOut (by decide +kernel))
  rw [hi] at hbody hiff
  obtain rfl : [0x61, opTrue] = body := List.append_cancel_left hbody
  exact ⟨(hiff echoRules).2 (by decide), by decide +kernel⟩

open Signet in
/-- An Assert is accepted whose body is an OP_SUCCESS80: the empty witness satisfies it,
    whatever the other opcodes do. -/
theorem assert_leaf_spendable : (∃ v', (dispatch env (assertionState looseAssertOut [0x50])
      (loaded intent).session).Via (assertion looseAssertOut [0x50]).Allows
        (loaded intent).volatile .assert v') ∧
    (∃ cb, (assertion looseAssertOut [0x50]).HasLeaf 0 cb (assertLeaf [0x50])) ∧
    ∀ R : Rules, R.accepts (assertLeaf [0x50]) [] = true ∧
      ¬AssertSafe R (loaded intent).intent (assertLeaf [0x50]) := by
  refine ⟨⟨_, via_of_eval (assertion looseAssertOut [0x50]).serve_allows ?_⟩,
    ⟨_, assertion_leaf looseAssertOut (by decide +kernel)⟩, fun R => ?_⟩
  · rw [loaded_intent]
    decide +kernel
  · have hw : R.accepts (assertLeaf [0x50]) [] = true := accepts_of_success (by decide +kernel)
    refine ⟨hw, fun h => ?_⟩
    obtain ⟨sig, hsig, -⟩ := h [] hw _ List.mem_cons_self
    exact absurd hsig List.not_mem_nil

end BabylonVault
