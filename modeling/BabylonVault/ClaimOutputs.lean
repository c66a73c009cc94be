/-
  The outputs of a Claim.

  * `claimScreen`: the validator up to its screen; nothing before it is shown.
  * `ClaimOutputs`: what the outputs must be, and what Screen 4 says of them.
  * `claim_outputs_iff`: Output 0 is known only as a 34-byte script that has an address, so
    it is P2TR unless it is the witness program of another version.
-/
import BabylonVault.Accept.Validated
import BabylonVault.Serve
import BabylonVault.Timelock

namespace BabylonVault
open Bytes Prog

variable (E : Env) (st : SignPsbtState) (s : Session) (p : Psbt) (v : Volatile)

/-! ## Scripts -/

/-- The scriptPubKey of a 32-byte witness program. -/
def witnessProgram (version : UInt8) (program : Bytes32) : Bytes :=
  version :: opPushbytes32 :: program.toList

/-- OP_0, or OP_1 to OP_16. -/
def IsVersion (version : UInt8) : Prop := version = op0 ∨ (op1 ≤ version ∧ version ≤ op16)

/-- A witness-v1 P2TR. -/
def IsP2tr (spk : Bytes) : Prop := ∃ key : Bytes32, spk = p2trSpk key

/-- A 32-byte witness program of another version: P2WSH, or a version still unused. -/
def OtherProgram (spk : Bytes) : Prop :=
  ∃ version, IsVersion version ∧ version ≠ op1 ∧ ∃ program, spk = witnessProgram version program

/-- The only 34-byte scripts that have an address are witness programs. -/
def AddressesPrograms : Prop := ∀ spk address, E.scriptAddress spk = some address →
  spk.length = p2trSpkLen → ∃ version, IsVersion version ∧ ∃ program, spk = witnessProgram version program

/-! ## The outputs -/

/-- The base app's total is the sum of the outputs. -/
def ExactTotal : Prop :=
  st.outputsTotalAmount.toNat = ∑ i ∈ Finset.range st.nOutputs, p.outValue i

/-- Screen 4 shows the amount of Output 0, and as the fee what Input 0 has over the outputs. -/
def ShowsClaim (sc : Screen) : Prop := ∃ spent connector fee txid address,
  sc = .claim spent connector fee txid address ∧ connector.toNat = p.outValue 0 ∧
    (fee.toNat : ℤ) = p.utxoValue 0 - (p.outValue 0 + p.outValue 1) ∧
    0 < fee.toNat ∧ 0 < connector.toNat

/-- The outputs of a Claim are as specified. -/
structure ClaimOutputs : Prop where
  connector : IsP2tr (p.outScript 0)
  anchor : ∃ cb dKey, p.HasLeaf 0 cb (keyEntry dKey opChecksig) ∧
    bip86P2trSpk E dKey = some (p.outScript 1) ∧ p.outValue 1 = 546
  amounts : ExactTotal st p → 0 < p.outValue 0 ∧ p.outValue 0 + p.outValue 1 < p.utxoValue 0
  shown : ExactTotal st p → ∀ sc v', (dispatch E st s).Puts p.Allows v (.show sc) v' →
    ShowsClaim p sc

/-- `_validate_display_claim`, up to its screen. -/
def claimScreen (tls : Tls) : V Screen := do
  check (¬(st.nInputs ≠ 1 ∨ st.nOutputs ≠ 2)) .incorrectData
  checkVersionLocktime st
  requireBufferedLeaf
  let dKey ← orReject (parseClaimLeafScript tls.leafScript)
  let m ← getMap .input 1 0
  requireSequenceFinal m
  checkSighashType m [sighashDefault]
  let (inputValue, spk) ← readWitnessUtxo m
  refundVerifyTaprootCommitment E tls spk
  let _ ← checkLeafKey E st m dKey
  let (outSpk, out1Value) ← readOutput st.nOutputs 1
  check (out1Value = dustLimit) .incorrectData
  check (spkIsBip86P2trOf E outSpk dKey = true) .incorrectData
  check (¬st.outputsTotalAmount ≥ inputValue) .incorrectData
  check (¬st.outputsTotalAmount ≤ dustLimit) .incorrectData
  let (out0Spk, _) ← readOutput st.nOutputs 0
  let address ← addressOf E out0Spk
  let peginTxid ← getPreviousTxid m
  return .claim inputValue (st.outputsTotalAmount - dustLimit)
    (inputValue - st.outputsTotalAmount) peginTxid address

variable {E st s p v} {v' : Volatile} {G : Allow} {cb script : Bytes} {tls : Tls} {sc : Screen}

theorem validateDisplayClaim_eq :
    validateDisplayClaim E st tls = claimScreen E st tls >>= display := by
  simp only [validateDisplayClaim, claimScreen, Prog.bind_assoc]
  rfl

/-- What the validator has found when it comes to its screen. -/
structure ClaimRead (E : Env) (st : SignPsbtState) (G : Allow) (script : Bytes)
    (sc : Screen) : Prop where
  nInputs : st.nInputs = 1
  nOutputs : st.nOutputs = 2
  version : ¬st.txVersion < 2
  key : ∃ dKey, parseClaimLeafScript script = some dKey ∧
    ∃ spk, ReadsOutput G 2 1 p2trSpkLen spk dustLimit ∧ bip86P2trSpk E dKey = some spk
  connector : ∃ spk value address, ReadsOutput G 2 0 p2trSpkLen spk value ∧
    spk.length = p2trSpkLen ∧ E.scriptAddress spk = some address
  screen : ∃ inputValue spk txid address, ReadsUtxo G (.input 0) inputValue spk ∧
    st.outputsTotalAmount < inputValue ∧ dustLimit < st.outputsTotalAmount ∧
    sc = .claim inputValue (st.outputsTotalAmount - dustLimit)
      (inputValue - st.outputsTotalAmount) txid address

theorem claimScreen_via (h : (claimScreen E st (tlsOf cb script)).Via G
    { v with leaf := leafMetaOf E s script } sc v') : ClaimRead E st G script sc := by
  simp only [claimScreen, check_bind, checkVersionLocktime_bind, requireBufferedLeaf_bind,
    orReject_bind, getMap_bind, requireSequenceFinal_bind, checkSighashType_bind,
    readWitnessUtxo_bind, refundVerifyTaprootCommitment_bind, checkLeafKey_bind, readOutput_bind,
    addressOf_bind, getPreviousTxid_bind, via_pure] at h
  obtain ⟨hn, hver, hbuf, key, hparse, -, -, -, value, spk, hutxo, -, _, -, h⟩ := h
  obtain ⟨spk1, _, hr1, -, rfl, hbip, hcov, hdust, spk0, value0, hr0, hl0, address, haddr, h⟩ := h
  obtain ⟨txid, -, rfl, -⟩ := h
  rw [leafScript_of_buffered hbuf] at hparse
  simp only [not_or, not_not] at hn
  rw [hn.2] at hr0 hr1
  exact ⟨hn.1, hn.2, fun hlt => hver (.inl hlt),
    ⟨key, hparse, spk1, hr1, of_decide_eq_true hbip⟩, ⟨spk0, value0, address, hr0, hl0, haddr⟩,
    value, spk, txid, address, hutxo, UInt64.not_le.1 hcov, UInt64.not_le.1 hdust, rfl⟩

/-! ## Nothing else is shown -/

/-- A question that shows no screen. -/
def Unseen (q : ReadAsk) : Prop := ∀ sc, q ≠ .show sc

section Unseen
variable {side : Side} {m : MapRef} {key : Bytes} {k : UInt8} {n i : ℕ} {x : Bytes32}

theorem unseen_getMap : Asks Unseen (getMap side n i) :=
  asks_bind (asks_ask fun _ => nofun) fun _ => asks_bind asks_require fun _ => asks_pure

theorem unseen_getValue : Asks Unseen (getValue m key n) :=
  asks_bind (asks_ask fun _ => nofun) fun _ => asks_orStop

theorem unseen_getExact : Asks Unseen (getExact m key n) :=
  asks_bind unseen_getValue fun _ => asks_bind asks_require fun _ => asks_pure

theorem unseen_requireSequenceFinal : Asks Unseen (requireSequenceFinal m) := by
  refine asks_bind (asks_ask fun _ => nofun) ?_
  rintro (_ | _ | x)
  · exact asks_pure
  · exact asks_stop
  · exact asks_require

theorem unseen_checkSighashType {l : List UInt32} : Asks Unseen (checkSighashType m l) := by
  refine asks_bind (asks_ask fun _ => nofun) ?_
  rintro (_ | _ | x)
  · exact asks_pure
  · exact asks_stop
  · exact asks_require

theorem unseen_leafMeta : Asks Unseen leafMeta := asks_bind asks_get fun _ => asks_pure

theorem unseen_readWitnessUtxo : Asks Unseen (readWitnessUtxo m) :=
  asks_bind unseen_getValue fun _ => asks_bind asks_require fun _ =>
    asks_bind asks_require fun _ => asks_pure

theorem unseen_refundVerifyTaprootCommitment {spk : Bytes} :
    Asks Unseen (refundVerifyTaprootCommitment E tls spk) :=
  asks_bind asks_require fun _ => asks_bind asks_require fun _ => asks_bind unseen_leafMeta fun _ =>
    asks_bind asks_orStop fun (_, _) => asks_bind asks_require fun _ => asks_require

theorem unseen_checkLeafKey : Asks Unseen (checkLeafKey E st m x) := by
  refine asks_bind (asks_bind unseen_getValue fun _ => ?_) fun (_, _) =>
    asks_bind asks_require fun _ => asks_pure
  exact asks_bind asks_orStop fun (_, _) => asks_bind asks_require fun _ =>
    asks_bind asks_require fun _ => asks_bind asks_orStop fun _ => asks_pure

theorem unseen_readOutput : Asks Unseen (readOutput n i) :=
  asks_bind unseen_getMap fun _ => asks_bind unseen_getExact fun _ =>
    asks_bind unseen_getExact fun _ => asks_pure

theorem unseen_claimScreen : Asks Unseen (claimScreen E st tls) := by
  refine asks_bind asks_require fun _ => asks_bind asks_require fun _ =>
    asks_bind (asks_bind unseen_leafMeta fun _ => asks_require) fun _ =>
    asks_bind asks_orStop fun _ => asks_bind unseen_getMap fun _ =>
    asks_bind unseen_requireSequenceFinal fun _ => asks_bind unseen_checkSighashType fun _ =>
    asks_bind unseen_readWitnessUtxo fun (_, _) =>
    asks_bind unseen_refundVerifyTaprootCommitment fun _ => asks_bind unseen_checkLeafKey fun _ => ?_
  exact asks_bind unseen_readOutput fun (_, _) => asks_bind asks_require fun _ =>
    asks_bind asks_require fun _ => asks_bind asks_require fun _ => asks_bind asks_require fun _ =>
    asks_bind unseen_readOutput fun (_, _) => asks_bind asks_orStop fun _ =>
    asks_bind (asks_bind unseen_getExact fun _ => asks_pure) fun _ => asks_pure

theorem unseen_tapLeafScriptCallback : Asks Unseen (tapLeafScriptCallback E s m i key tls) := by
  unfold tapLeafScriptCallback
  split
  · exact asks_pure
  split_ifs
  · exact asks_pure
  · exact asks_pure
  · exact asks_pure
  · refine asks_bind (asks_bind asks_get fun _ => asks_bind (asks_ask fun _ => nofun) fun r => ?_)
      fun (_, _) => asks_pure
    dsimp only
    split_ifs
    · exact asks_bind (asks_ret fun _ => rfl) fun _ => asks_pure
    · exact asks_bind (asks_ret fun _ => rfl) fun _ => asks_pure

theorem unseen_scanKeys : ∀ (keys : List Bytes) (i : ℕ) (tls : Tls),
    Asks Unseen (scanKeys E s m i keys tls)
  | [], _, _ => asks_pure
  | _ :: keys, i, _ =>
    asks_bind unseen_tapLeafScriptCallback fun tls => unseen_scanKeys keys (i + 1) tls

theorem unseen_readTapLeaf : Asks Unseen (readTapLeaf E s n i) :=
  asks_bind (asks_ret fun _ => rfl) fun _ => asks_bind (asks_ask fun _ => nofun) fun _ =>
    asks_bind (unseen_scanKeys _ _ _) fun _ => asks_bind asks_require fun _ =>
    asks_bind asks_require fun _ => asks_pure

end Unseen

/-! ## The route to the validator -/

theorem not_unseen : ¬Unseen (.show sc) := fun h => h sc rfl

/-- A Claim is dispatched on its leaf. -/
theorem dispatch_claim (h : (dispatch E st s).Via G v .claim v') :
    dispatch E st s = dispatchLeaf E st s := by
  have hread : ∃ script sc, ClaimRead E st G script sc := by
    cases dispatch_validated h with
    | claim hleaf hv =>
      rw [validateDisplayClaim_eq] at hv
      obtain ⟨sc, _, hsc, -⟩ := via_bind.1 hv
      exact ⟨_, sc, claimScreen_via hsc⟩
  obtain ⟨_, _, hr⟩ := hread
  have h0 : st.txVersion ≠ 0 := fun h0 => hr.version (h0 ▸ by decide)
  have hrest : dispatch E st s = dispatchRest E st s := by
    unfold dispatch
    simp [h0, hr.nInputs, hr.nOutputs]
  rw [hrest] at h ⊢
  unfold dispatchRest at h ⊢
  split_ifs at h ⊢ with hpol hint hn
  · exact absurd (through_via h).1 (by decide)
  · exact absurd (through_via h).1 (by decide)
  · exact absurd hn.1 (by rw [hr.nInputs]; decide)
  · rfl

theorem puts_through {F : Flow} {m : V Unit} {q : ReadAsk} {t : Volatile}
    (h : (through F m).Puts G v q t) : m.Puts G v q t := by
  rcases puts_bind.1 h with h | ⟨_, _, -, h⟩
  · exact h
  · exact absurd h (puts_ret rfl)

/-- The leaf of a Claim, and the validator's run on it; a screen that the dispatcher shows
    is one that the validator shows. -/
theorem dispatchLeaf_claim (h : (dispatchLeaf E st s).Via p.Allows v .claim v') :
    ∃ cb script, p.HasLeaf 0 cb script ∧
      (∃ sc v₁, (claimScreen E st (tlsOf cb script)).Via p.Allows
        { v with leaf := leafMetaOf E s script } sc v₁) ∧
      ∀ sc t, (dispatchLeaf E st s).Puts p.Allows v (.show sc) t →
        (validateDisplayClaim E st (tlsOf cb script)).Puts p.Allows
          { v with leaf := leafMetaOf E s script } (.show sc) t := by
  simp only [dispatchLeaf, readTapLeaf_bind, leafMeta_bind, via_ite, check_bind, reject_end,
    and_false, false_or, or_false] at h
  obtain ⟨cb, script, hleaf, hlen, ⟨hclaim, ⟨hout, hv⟩ | ⟨-, -, hv⟩⟩ |
    ⟨-, -, ⟨-, hv⟩ | ⟨-, ⟨-, -, hv⟩ | ⟨-, -, hv⟩⟩⟩⟩ := h
  · refine ⟨cb, script, hleaf.hasLeaf.2, ?_, fun sc t hp => ?_⟩
    · have hv' := (through_via hv).2
      rw [validateDisplayClaim_eq] at hv'
      obtain ⟨sc, v₁, hsc, -⟩ := via_bind.1 hv'
      exact ⟨sc, v₁, hsc⟩
    · obtain ⟨⟨_, _⟩, v₁, hread, hp⟩ := unseen_readTapLeaf.puts_bind not_unseen hp
      obtain ⟨cb', script', hleaf', hend⟩ := readTapLeaf_bind.1 (via_bind_pure.2 hread)
      obtain ⟨hx, rfl⟩ := via_pure.1 hend
      obtain ⟨rfl, rfl⟩ := hleaf.unique hleaf'
      obtain ⟨-, rfl⟩ := Prod.mk.inj hx
      obtain ⟨lm, v₂, hlm, hp⟩ := unseen_leafMeta.puts_bind not_unseen hp
      obtain ⟨rfl, rfl⟩ := via_pure.1 (leafMeta_bind.1 (via_bind_pure.2 hlm))
      rw [if_neg hlen, if_pos hclaim, if_pos hout] at hp
      exact puts_through hp
  · exact absurd (through_via hv).1 (by decide)
  · exact absurd (through_via hv).1 (by decide)
  · exact absurd (through_via hv).1 (by decide)
  · exact absurd (through_via hv).1 (by decide)

/-! ## What the validator has checked -/

/-- The amounts of a Claim. -/
theorem ClaimRead.amounts (h : ClaimRead E st p.Allows script sc) (ht : ExactTotal st p) :
    p.outValue 1 = 546 ∧ 0 < p.outValue 0 ∧ p.outValue 0 + p.outValue 1 < p.utxoValue 0 ∧
      ShowsClaim p sc := by
  obtain ⟨_, -, spk1, hr1, -⟩ := h.key
  obtain ⟨inputValue, _, txid, address, hutxo, hcov, hdust, hsc⟩ := h.screen
  have h1 : p.outValue 1 = 546 := (Psbt.reads_output hr1).2.1
  have hin := (Psbt.reads_utxo hutxo).1
  have htot : st.outputsTotalAmount.toNat = p.outValue 0 + p.outValue 1 := by
    rw [ht, h.nOutputs, Finset.sum_range_succ, Finset.sum_range_one]
  have hd : 546 < st.outputsTotalAmount.toNat := UInt64.lt_iff_toNat_lt.1 hdust
  have hc := UInt64.lt_iff_toNat_lt.1 hcov
  have hconn : (st.outputsTotalAmount - dustLimit).toNat = st.outputsTotalAmount.toNat - 546 :=
    UInt64.toNat_sub_of_le _ _ (UInt64.le_of_lt hdust)
  have hfee : (inputValue - st.outputsTotalAmount).toNat =
      inputValue.toNat - st.outputsTotalAmount.toNat :=
    UInt64.toNat_sub_of_le _ _ (UInt64.le_of_lt hcov)
  refine ⟨h1, by omega, by omega, _, _, _, _, _, hsc, ?_, ?_, ?_, ?_⟩
  · omega
  · rw [hfee]
    omega
  · omega
  · omega

/-- The leaf and the script of Output 1. -/
theorem ClaimRead.anchor (h : ClaimRead E st p.Allows script sc) :
    ∃ dKey, script = keyEntry dKey opChecksig ∧ bip86P2trSpk E dKey = some (p.outScript 1) ∧
      p.outValue 1 = 546 := by
  obtain ⟨dKey, hparse, spk1, hr1, hbip⟩ := h.key
  obtain ⟨hlen, h0, h33, hkey⟩ := parseClaimLeafScript_iff.1 hparse
  obtain ⟨-, hval, hscript⟩ := Psbt.reads_output hr1
  refine ⟨dKey, ?_, hscript ▸ hbip, hval⟩
  have := eq_keyEntry_append hlen.ge h0 h33 hkey
  rwa [List.drop_eq_nil_of_le hlen.le, List.append_nil] at this

/-- A script with an address is P2TR or another program, never both. -/
theorem isP2tr_iff {spk : Bytes} {address : String} (hE : AddressesPrograms E)
    (ha : E.scriptAddress spk = some address) (hl : spk.length = p2trSpkLen) :
    IsP2tr spk ↔ ¬OtherProgram spk := by
  constructor
  · rintro ⟨key, rfl⟩ ⟨version, -, hne, program, h⟩
    exact hne (List.cons.inj h).1.symm
  · intro h
    obtain ⟨version, hv, program, rfl⟩ := hE spk address ha hl
    by_cases h1 : version = op1
    · exact ⟨program, by rw [h1]; rfl⟩
    · exact absurd ⟨version, hv, h1, program, rfl⟩ h

theorem puts_display {q : ReadAsk} {t : Volatile} (h : (display sc).Puts G v q t) :
    q = .show sc := by
  rcases puts_bind.1 h with h | ⟨_, _, -, _, h, -⟩
  · exact (puts_ask.1 h).1.symm
  · exact (asks_require (K := fun _ => False) h).elim

/-- The outputs of an accepted Claim are as specified exactly when Output 0 is not the
    witness program of another version. -/
theorem claim_outputs_iff (h : (dispatch E st s).Via p.Allows v .claim v')
    (hE : AddressesPrograms E) : ClaimOutputs E st s p v ↔ ¬OtherProgram (p.outScript 0) := by
  have hd := dispatch_claim h
  rw [hd] at h
  obtain ⟨cb, script, hleaf, ⟨sc, v₁, hsc⟩, hputs⟩ := dispatchLeaf_claim h
  have hr := claimScreen_via hsc
  obtain ⟨spk0, value0, address, hr0, hl0, haddr⟩ := hr.connector
  obtain ⟨-, -, rfl⟩ := Psbt.reads_output hr0
  rw [← isP2tr_iff hE haddr hl0]
  refine ⟨ClaimOutputs.connector, fun h0 => ⟨h0, ?_, ?_, ?_⟩⟩
  · obtain ⟨dKey, rfl, hbip⟩ := hr.anchor
    exact ⟨cb, dKey, hleaf, hbip⟩
  · intro ht
    exact ⟨(hr.amounts ht).2.1, (hr.amounts ht).2.2.1⟩
  · intro ht sc' t hp
    rw [hd] at hp
    have hp' := hputs sc' t hp
    rw [validateDisplayClaim_eq] at hp'
    obtain ⟨sc₁, v₂, hsc₁, hshow⟩ := unseen_claimScreen.puts_bind not_unseen hp'
    obtain rfl := ReadAsk.show.inj (puts_display hshow)
    exact ((claimScreen_via hsc₁).amounts ht).2.2.2

namespace Signet

/-- A Claim of 2000 satoshi with this connector output. -/
def claim (connector : Bytes) : Psbt :=
  ⟨[], [spend 2000 claimOut claimLeaf
      0x960f04e36faee8da59f0459d1b3580ee22df9462f545b68060f35cd46ef032a3 sequenceFinal ++
      [depositorRecord]],
    [output 1000 connector, output 546 (spk depositorOut)]⟩

def claimState (connector : Bytes) : SignPsbtState := parsed (claim connector) 2000 1546

/-- The P2WSH of the script OP_TRUE. -/
def anyoneSpk : Bytes := witnessProgram op0 (.ofBytes 32 (Sha256.hash [opTrue]).toList)

/-- The encoder of the base app, which knows P2WSH as well. -/
def wshEnv : Env :=
  { env with scriptAddress := fun spk =>
      if spk = anyoneSpk then some "tb1qft5p2uhsdcdc3l2ua4ap5qqfg4pjaqlp250x7us7a8qqhrxrxfsqaqh7jw"
      else env.scriptAddress spk }

/-- The only address at hand is that of a P2TR. -/
theorem env_addressesPrograms : AddressesPrograms env := by
  intro script address h hl
  have hmem : ofBE script = ofBE (spk depositorOut) := by
    by_contra hne
    have hnone : env.scriptAddress script = none := by
      simp [env, Env.ofTables, List.lookup_cons, beq_eq_false_iff_ne.2 hne]
    rw [hnone] at h
    cases h
  have hspk : script = spk depositorOut := ofBE_inj (hl.trans length_p2trSpk.symm) hmem
  exact ⟨op1, .inr (by decide), .be 32 depositorOut.2, hspk⟩

end Signet

open Signet in
theorem claim_outputs_signet :
    ClaimOutputs env (claimState (spk depositorOut)) Device.boot.session (claim (spk depositorOut))
      Device.boot.volatile := by
  have h : ((dispatch env (claimState (spk depositorOut)) Device.boot.session).eval
      (claim (spk depositorOut)).serve Device.boot.volatile).1 = .ok .claim := by decide +kernel
  refine (claim_outputs_iff (via_of_eval (claim (spk depositorOut)).serve_allows h)
    env_addressesPrograms).2 ?_
  rintro ⟨version, -, hne, program, hp⟩
  exact hne (List.cons.inj hp).1.symm

open Signet in
/-- A Claim is accepted whose connector output anyone can spend, behind a P2WSH. -/
theorem claim_outputs_anyone : AddressesPrograms wshEnv ∧
    (∃ v', (dispatch wshEnv (claimState anyoneSpk) Device.boot.session).Via
      (claim anyoneSpk).Allows Device.boot.volatile .claim v') ∧
    ¬ClaimOutputs wshEnv (claimState anyoneSpk) Device.boot.session (claim anyoneSpk)
      Device.boot.volatile := by
  refine ⟨?_, ⟨_, via_of_eval (claim anyoneSpk).serve_allows (by decide +kernel)⟩, ?_⟩
  · intro script address h hl
    by_cases hs : script = anyoneSpk
    · exact ⟨op0, .inl rfl, _, hs⟩
    · have henv : env.scriptAddress script = some address := by
        rw [← h]
        exact (if_neg hs).symm
      exact env_addressesPrograms script address henv hl
  · intro h
    obtain ⟨key, hkey⟩ := h.connector
    have hspk : (claim anyoneSpk).outScript 0 = anyoneSpk := by decide +kernel
    rw [hspk] at hkey
    exact absurd (List.cons.inj hkey).1 (by decide)

end BabylonVault
