/-
  What an accepted PegIn is.
-/
import BabylonVault.Accept.Leaf

namespace BabylonVault
open Bytes Prog

variable (E : Env) (st : SignPsbtState) (s : Session) (G : Allow)

/-- The hashlock of a group. -/
def Session.hashlock (gi : ℕ) : Bytes32 := s.ctx.htlcHashlock.pick gi

/-- The HTLC input of a PegIn for group `gi`. -/
structure PeginInput (m : MapRef) (gi : ℕ) (htlcValue : UInt64) : Prop where
  group : gi < s.intent.vaultCount
  txid : G (.value m [psbtInPreviousTxid] 32) (some s.intent.prepeginTxid.toList)
  vout : ∃ x, G (.field m psbtInOutputIndex) (.present x) ∧
    x.toNat = (s.intent.group gi).htlcVout.toNat
  sequence : G (.field m psbtInSequence) (.present peginTxSequence)
  sighash : SighashOk G m [sighashDefault]
  leaf : ∃ leaf0, vaultBuildHtlcLeaf0 s.intent gi (s.hashlock gi) scriptMaxLen = some leaf0
  utxo : ∃ spk, vaultBuildHtlcScriptpubkey E s.intent gi (s.hashlock gi) = some spk ∧
    ReadsUtxo G m htlcValue spk

/-- The outputs of a PegIn for group `gi`: vault, claim and anchor. -/
structure PeginOutputs (gi : ℕ) (htlcValue : UInt64) : Prop where
  vault : ∃ spk, vaultBuildVaultUtxoScriptpubkey E s.intent gi = some spk ∧
    spk.length = p2trSpkLen ∧ ReadsOutput G 3 0 p2trSpkLen spk (s.intent.group gi).vaultAmount
  claim : ∃ spk, vaultBuildDepositorClaimScriptpubkey E s.intent = some spk ∧
    spk.length = p2trSpkLen ∧
    ReadsOutput G 3 1 p2trSpkLen spk (s.intent.group gi).depositorClaimValue
  anchor : ReadsOutput G 3 2 4 p2aScript p2aAnchorValue
  sums : ¬(s.intent.group gi).vaultAmount + (s.intent.group gi).depositorClaimValue <
      (s.intent.group gi).vaultAmount ∧
    ¬p2aAnchorValue + ((s.intent.group gi).vaultAmount + (s.intent.group gi).depositorClaimValue) <
      p2aAnchorValue
  fee : ¬(htlcValue < p2aAnchorValue +
      ((s.intent.group gi).vaultAmount + (s.intent.group gi).depositorClaimValue) ∨
    htlcValue - (p2aAnchorValue +
      ((s.intent.group gi).vaultAmount + (s.intent.group gi).depositorClaimValue)) >
        (s.intent.group gi).peginMaxFee)

/-- A PegIn accepted for group `gi`. -/
structure PeginAccepted (gi : ℕ) : Prop where
  loaded : s.ctx.state = .intentLoaded
  version : st.txVersion = peginTxVersion
  locktime : st.locktime = 0
  nInputs : st.nInputs = 1
  nOutputs : st.nOutputs = 3
  map : G (.map .input 1 0) true
  found : ∃ x, G (.field (.input 0) psbtInOutputIndex) (.present x) ∧ ¬x > 0xFF ∧
    findGroupByVout s.intent x = some gi
  inOut : ∃ htlcValue, PeginInput E s G (.input 0) gi htlcValue ∧ PeginOutputs E s G gi htlcValue
  fresh : bit s.ctx.peginGroupMask gi = false
  cap : ¬s.ctx.peginSigned ≥ s.intent.vaultCount

variable {E st s G} {v v' : Volatile} {α : Type} {b : α} {m : MapRef} {gi : ℕ} {htlcValue : UInt64}

/-- `memcmp`-equal to the script rebuilt for a group. -/
theorem htlcScriptpubkey_eq {it : VaultIntent} {h : Bytes32} {leaf0 leaf1 : Bytes}
    {r : UInt8 × Bytes32} (h0 : vaultBuildHtlcLeaf0 it gi h scriptMaxLen = some leaf0)
    (h1 : vaultBuildHtlcLeaf1 it scriptMaxLen = some leaf1)
    (ht : E.tweakPubkey vaultNumsXonly (some (E.combineTaptreeHashes
      (vaultTaprootLeafHash E leaf0) (vaultTaprootLeafHash E leaf1))) = some r) :
    vaultBuildHtlcScriptpubkey E it gi h = some (p2trSpk r.2) := by
  simp [vaultBuildHtlcScriptpubkey, vaultBuildHtlcMerkleRoot, h0, h1,
    vaultTaprootTweakScriptpubkey, ht]

theorem peginValidateInput_bind {f : UInt64 → V α}
    (h : (peginValidateInput E s m gi >>= f).Via G v b v') :
    ∃ value, PeginInput E s G m gi value ∧ (f value).Via G v b v' := by
  simp only [peginValidateInput, peginCheckLeaf0Script, assertGroupIdx, Prog.bind_assoc, check_bind,
    getField_bind, getExact_bind, getValue_bind, orReject_bind, getPreviousTxid_bind,
    checkSighashType_bind, readWitnessUtxo_bind, via_pure_bind] at h
  obtain ⟨hgi, txid, htxid, rfl, vout, hvout, hveq, seq, hseq, rfl, hsig, value, spk, hutxo, -, -, -,
    -, root, -, -, -, -, -, -, leaf0, h0, leaf1, h1, tw, htw, rfl, -, -, -, h⟩ := h
  exact ⟨value, ⟨hgi, htxid, ⟨vout, hvout, hveq⟩, hseq, hsig, ⟨leaf0, h0⟩,
    ⟨_, htlcScriptpubkey_eq h0 h1 htw, hutxo⟩⟩, h⟩

theorem peginValidateOutputs_bind {f : Unit → V α}
    (h : (peginValidateOutputs E s gi htlcValue >>= f).Via G v b v') :
    PeginOutputs E s G gi htlcValue ∧ (f ()).Via G v b v' := by
  simp only [peginValidateOutputs, Prog.bind_assoc, readOutput_bind, orReject_bind, check_bind,
    getMap_bind, getExact_bind, addChecked_bind] at h
  obtain ⟨spk0, a0, hr0, hl0, e0, he0, ⟨rfl, rfl⟩, spk1, a1, hr1, hl1, e1, he1, ⟨rfl, rfl⟩, hm, raw,
    hraw, hrl, hraw', p2a, hp2a, -, rfl, hs1, hs2, hfee, h⟩ := h
  exact ⟨⟨⟨spk0, he0, hl0, hr0⟩, ⟨spk1, he1, hl1, hr1⟩, ⟨hm, ⟨raw, hraw, hrl, hraw'⟩, hp2a⟩,
    ⟨hs1, hs2⟩, hfee⟩, h⟩

/-- An accepted PegIn leaves its group behind for the signer. -/
theorem validatePegin_via {u : Unit} (h : (validatePegin E st s).Via G v u v') :
    ∃ gi, PeginAccepted E st s G gi ∧
      v' = { v with tr := { v.tr with vaultGroupIndex := gi } } := by
  simp only [validatePegin, check_bind, getMap_bind, getField_bind, orReject_bind,
    via_modify_bind] at h
  obtain ⟨hload, hver, hshape, hmap, x, hx, hx255, gi, hgi, h⟩ := h
  obtain ⟨value, hin, h⟩ := peginValidateInput_bind h
  obtain ⟨hout, h⟩ := peginValidateOutputs_bind h
  simp only [checkCap_bind, checkCap_end] at h
  obtain ⟨hmask, hcap, rfl⟩ := h
  simp only [not_or, not_not] at hver hshape
  exact ⟨gi, ⟨hload, hver.1, hver.2, hshape.1, hshape.2, hmap, ⟨x, hx, hx255, hgi⟩,
    ⟨value, hin, hout⟩, hmask, hcap⟩, rfl⟩

end BabylonVault
