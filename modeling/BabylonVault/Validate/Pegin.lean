/-
  PegIn validation (`sign_psbt_validate.c`, 1126-1476).
-/
import BabylonVault.Validate.Common

namespace BabylonVault
open Bytes

variable (E : Env) (st : SignPsbtState) (s : Session)

/-- `ASSERT_GROUP_IDX`. -/
def assertGroupIdx (it : VaultIntent) (gi : ℕ) : V Unit := check (gi < it.vaultCount) .incorrectData

/-- `_pegin_check_leaf0_script`. -/
def peginCheckLeaf0Script (m : MapRef) (groupIdx : ℕ) (htlcSpk : Bytes) : V Unit := do
  assertGroupIdx s.intent groupIdx
  let leaf0 ← orReject
    (vaultBuildHtlcLeaf0 s.intent groupIdx (s.ctx.htlcHashlock.pick groupIdx) scriptMaxLen)
  let leaf1 ← orReject (vaultBuildHtlcLeaf1 s.intent scriptMaxLen)
  let leaf1Hash := vaultTaprootLeafHash E leaf1
  let merkleRoot := E.combineTaptreeHashes (vaultTaprootLeafHash E leaf0) leaf1Hash
  let (parity, tweaked) ← orReject (E.tweakPubkey vaultNumsXonly (some merkleRoot))
  check (htlcSpk = p2trSpk tweaked) .incorrectData
  let value ← getValue m (psbtInTapLeafScript :: (tapscriptLeafVersion ||| parity) ::
    (vaultNumsXonly.toList ++ leaf1Hash.toList)) scriptMaxLen
  check (value = leaf0 ++ [tapscriptLeafVersion]) .incorrectData

/-- `_pegin_validate_input`: the value of the HTLC. -/
def peginValidateInput (m : MapRef) (groupIdx : ℕ) : V UInt64 := do
  assertGroupIdx s.intent groupIdx
  let txid ← getPreviousTxid m
  check (txid = s.intent.prepeginTxid) .incorrectData
  let vout ← getField m psbtInOutputIndex
  check (vout.toNat = (s.intent.group groupIdx).htlcVout.toNat) .incorrectData
  let seq ← getField m psbtInSequence
  check (seq = peginTxSequence) .incorrectData
  checkSighashType m [sighashDefault]
  let (htlcValue, htlcSpk) ← readWitnessUtxo m
  let intKey ← getExact m [psbtInTapInternalKey] 32
  check (intKey = vaultNumsXonly.toList) .incorrectData
  let expectedRoot ← orReject
    (vaultBuildHtlcMerkleRoot E s.intent groupIdx (s.ctx.htlcHashlock.pick groupIdx))
  let psbtRoot ← getExact m [psbtInTapMerkleRoot] 32
  check (psbtRoot = expectedRoot.toList) .incorrectData
  peginCheckLeaf0Script E s m groupIdx htlcSpk
  return htlcValue

/-- `_pegin_validate_outputs`. -/
def peginValidateOutputs (groupIdx : ℕ) (htlcValue : UInt64) : V Unit := do
  let grp := s.intent.group groupIdx
  let (spk, amount) ← readOutput 3 0
  let expectedSpk ← orReject (vaultBuildVaultUtxoScriptpubkey E s.intent groupIdx)
  check (spk = expectedSpk ∧ amount = grp.vaultAmount) .incorrectData
  let (spk, amount) ← readOutput 3 1
  let expectedSpk ← orReject (vaultBuildDepositorClaimScriptpubkey E s.intent)
  check (spk = expectedSpk ∧ amount = grp.depositorClaimValue) .incorrectData
  let anchor ← getMap .output 3 2
  let rawAmount ← getExact anchor [psbtOutAmount] 8
  check (UInt64.ofNat (ofLE rawAmount) = p2aAnchorValue) .incorrectData
  let p2a ← getExact anchor [psbtOutScript] 4
  check (p2a = p2aScript) .incorrectData
  let outputsSum ← addChecked grp.vaultAmount grp.depositorClaimValue
  let outputsSum ← addChecked p2aAnchorValue outputsSum
  check (¬(htlcValue < outputsSum ∨ htlcValue - outputsSum > grp.peginMaxFee)) .incorrectData

/-- The first group with this `htlc_vout`. -/
def findGroupByVout (it : VaultIntent) (vout : UInt32) : Option ℕ :=
  (List.range it.vaultCount).find? fun g => (it.group g).htlcVout = UInt8.ofNat vout.toNat

/-- `_validate_pegin`. -/
def validatePegin : V Unit := do
  check (s.ctx.state = .intentLoaded) .badState
  check (¬(st.txVersion ≠ peginTxVersion ∨ st.locktime ≠ 0)) .incorrectData
  check (¬(st.nInputs ≠ 1 ∨ st.nOutputs ≠ 3)) .incorrectData
  let m ← getMap .input 1 0
  let htlcVout ← getField m psbtInOutputIndex
  check (¬htlcVout > 0xFF) .incorrectData
  let groupIdx ← orReject (findGroupByVout s.intent htlcVout)
  Prog.modify fun v => { v with tr := { v.tr with vaultGroupIndex := groupIdx } }
  let htlcValue ← peginValidateInput E s m groupIdx
  peginValidateOutputs E s groupIdx htlcValue
  checkCap (bit s.ctx.peginGroupMask groupIdx = false)
  checkCap (¬s.ctx.peginSigned ≥ s.intent.vaultCount)

end BabylonVault
