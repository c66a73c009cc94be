/-
  The standalone flows (`sign_psbt_validate.c`, 820-1120, 2333-3022, 3311-3595):
  Refund, Claim, Reclaim, Assert, WC and PayoutFinalize. None needs an intent;
  where one is loaded, some of them compare with it.
-/
import BabylonVault.Validate.Payout

namespace BabylonVault
open Bytes

variable (E : Env) (st : SignPsbtState) (s : Session)

/-- The version and locktime every flow but PegIn and PoP asks for. -/
def checkVersionLocktime : V Unit := check (¬(st.txVersion < 2 ∨ st.locktime ≠ 0)) .incorrectData

/-- A timelocked input: block-based, and exactly the leaf's timelock. -/
def checkCsvSequence (m : MapRef) (csv : ℕ) : V Unit := do
  let seq ← getField m psbtInSequence
  check (¬(seq &&& bip68DisableFlag ≠ 0 ∨ seq &&& bip68TimeBasedFlag ≠ 0)) .incorrectData
  check (seq.toNat = csv) .incorrectData

/-- The address of a scriptPubKey. -/
def addressOf (spk : Bytes) : V String := orReject (E.scriptAddress spk)

/-- `_validate_display_refund`. -/
def validateDisplayRefund : V Unit := do
  check (¬(st.nInputs ≠ 1 ∨ st.nOutputs ≠ 1)) .incorrectData
  checkVersionLocktime st
  let m ← getMap .input 1 0
  checkSighashType m [sighashDefault]
  let (htlcValue, htlcSpk) ← readWitnessUtxo m
  let (m, tls) ← readTapLeaf E s 1 0
  requireBufferedLeaf
  let (leafKey, csv) ← orReject (parseRefundLeafScript tls.leafScript)
  check (if s.ctx.state = .intentLoaded then csv = s.intent.htlcRefundTimelock
    else ¬csv < timelockMin) .incorrectData
  let _ ← checkLeafKey E st m leafKey
  refundVerifyTaprootCommitment E tls htlcSpk
  checkCsvSequence m csv
  let out ← getMap .output 1 0
  let outScript ← getExact out [psbtOutScript] p2trSpkLen
  check (outScript.take 2 = [op1, opPushbytes32]) .incorrectData
  let raw8 ← getExact out [psbtOutAmount] 8
  let outValue := UInt64.ofNat (ofLE raw8)
  let outKey : Bytes32 := Buf.slice 32 outScript 2
  let (_, xkey) ← readDerivation E st out psbtOutTapBip32Derivation outKey
  let (_, tweaked) ← orReject (E.tweakPubkey xkey none)
  check (tweaked = outKey) .incorrectData
  check (¬outValue > htlcValue) .incorrectData
  let prepeginTxid ← getPreviousTxid m
  check (¬(s.ctx.state = .intentLoaded ∧ prepeginTxid ≠ s.intent.prepeginTxid)) .incorrectData
  let address ← addressOf E outScript
  display (.refund outValue (htlcValue - outValue) (UInt32.ofNat csv) prepeginTxid address)

/-- `_validate_display_claim`, on the leaf the dispatcher has read. -/
def validateDisplayClaim (tls : Tls) : V Unit := do
  check (¬(st.nInputs ≠ 1 ∨ st.nOutputs ≠ 2)) .incorrectData
  checkVersionLocktime st
  requireBufferedLeaf
  let dKey ← orReject (parseClaimLeafScript tls.leafScript)
  let m ← getMap .input 1 0
  requireSequenceFinal m
  checkSighashType m [sighashDefault]
  let (inputValue, spk) ← readWitnessUtxo m
  refundVerifyTaprootCommitment E tls spk
  let _ ← checkLeafKey E st m dKey
  let (outSpk, out1Value) ← readOutput st.nOutputs 1
  check (out1Value = dustLimit) .incorrectData
  check (spkIsBip86P2trOf E outSpk dKey = true) .incorrectData
  check (¬st.outputsTotalAmount ≥ inputValue) .incorrectData
  check (¬st.outputsTotalAmount ≤ dustLimit) .incorrectData
  let (out0Spk, _) ← readOutput st.nOutputs 0
  let address ← addressOf E out0Spk
  let peginTxid ← getPreviousTxid m
  display (.claim inputValue (st.outputsTotalAmount - dustLimit)
    (inputValue - st.outputsTotalAmount) peginTxid address)

/-- `_validate_display_reclaim`, on the leaf the dispatcher has read. -/
def validateDisplayReclaim (tls : Tls) : V Unit := do
  check (¬(st.nInputs ≠ 1 ∨ st.nOutputs ≠ 1)) .incorrectData
  checkVersionLocktime st
  requireBufferedLeaf
  let dKey ← orReject (parseClaimLeafScript tls.leafScript)
  check (tls.controlBlock.length = 33) .incorrectData
  let m ← getMap .input 1 0
  let seq ← getField m psbtInSequence
  check (seq = reclaimSequence) .incorrectData
  checkSighashType m [sighashDefault]
  let (inputValue, spk) ← readWitnessUtxo m
  check (¬inputValue ≤ dustLimit) .incorrectData
  refundVerifyTaprootCommitment E tls spk
  let _ ← checkLeafKey E st m dKey
  let out ← getMap .output 1 0
  let outScript ← getExact out [psbtOutScript] p2trSpkLen
  check (spkIsBip86P2trOf E outScript dKey = true) .incorrectData
  let raw8 ← getExact out [psbtOutAmount] 8
  let outValue := UInt64.ofNat (ofLE raw8)
  let fee ← orReject (reclaimFeeOk inputValue outValue)
  let peginTxid ← getPreviousTxid m
  let address ← addressOf E outScript
  display (.reclaim outValue fee peginTxid address)

/-- `_validate_display_assert`, on the leaf the dispatcher has read. -/
def validateDisplayAssert (tls : Tls) : V Unit := do
  check (¬st.nInputs ≠ 1) .incorrectData
  checkVersionLocktime st
  let lm ← leafMeta
  let dKey : Bytes32 := Buf.slice 32 lm.pfx.toList 1
  let m ← getMap .input 1 0
  requireSequenceFinal m
  checkSighashType m [sighashDefault]
  let (amountCarried, spk) ← readWitnessUtxo m
  refundVerifyTaprootCommitment E tls spk
  let _ ← checkLeafKey E st m dKey
  let claimTxid ← getPreviousTxid m
  check (¬st.inputsTotalAmount < st.outputsTotalAmount) .incorrectData
  display (.assert claimTxid amountCarried (st.inputsTotalAmount - st.outputsTotalAmount))

/-- The 73 bytes of a WC leaf, up to its key and its label hash. -/
def wcLeafShape (tls : Tls) : Bool :=
  let leaf := tls.leafScript
  tls.leafScriptLen = 73 && leaf.getD 0 0 = opPushbytes32 && leaf.getD 33 0 = opChecksigverify &&
    leaf.getD 34 0 = opSize && leaf.getD 35 0 = opPushbytes1 && leaf.getD 36 0 = 32 &&
    leaf.getD 37 0 = opEqualverify && leaf.getD 38 0 = opSha256 &&
    leaf.getD 39 0 = opPushbytes32 && leaf.getD 72 0 = opEqual

/-- `_validate_display_wc`. -/
def validateDisplayWc : V Unit := do
  check (¬(st.nInputs < 1 ∨ st.nOutputs ≠ 1)) .incorrectData
  checkVersionLocktime st
  let (m, tls) ← readTapLeaf E s st.nInputs 0
  requireBufferedLeaf
  check (wcLeafShape tls = true) .incorrectData
  let dKey : Bytes32 := Buf.slice 32 tls.leafScript 1
  requireSequenceFinal m
  checkSighashType m [sighashDefault]
  let _ ← checkLeafKey E st m dKey
  let (wcUtxoValue, spk) ← readWitnessUtxo m
  refundVerifyTaprootCommitment E tls spk
  let (outSpk, out0Value) ← readOutput 1 0
  check (spkIsBip86P2trOf E outSpk dKey = true) .incorrectData
  let address ← addressOf E outSpk
  check (¬st.inputsTotalAmount ≤ out0Value) .incorrectData
  let walletInputsAmount :=
    if st.inputsTotalAmount > wcUtxoValue then st.inputsTotalAmount - wcUtxoValue else 0
  display (.wc out0Value walletInputsAmount (st.inputsTotalAmount - out0Value) address)

/-! ## PayoutFinalize -/

def maxPayoutfinalizeVsize : UInt64 := 500

/-- The Assert:0 input of a PayoutFinalize; its upper bound needs an intent. -/
def readFinalizeUtxo (m : MapRef) (tls : Tls) : V Unit := do
  let wu ← getValue m [psbtInWitnessUtxo] 43
  check (9 ≤ wu.length) .incorrectData
  let value := UInt64.ofNat (ofLE (wu.take 8))
  check (¬value < dustLimit) .incorrectData
  check (¬(s.ctx.state = .intentLoaded ∧
    maxCouncilNopayoutVsize ≤ uint64Max / s.intent.baseFeeRate ∧
    value > dustLimit + s.intent.baseFeeRate * maxCouncilNopayoutVsize)) .incorrectData
  check (wu.length = 9 + (wu.getD 8 0).toNat ∧ (wu.getD 8 0).toNat = p2trSpkLen) .incorrectData
  refundVerifyTaprootCommitment E tls (wu.drop 9)

/-- The fee cap of a PayoutFinalize, for the one group of a single-vault intent. -/
def finalizeFeeCap (amountReceived : UInt64) : V Unit :=
  if s.ctx.state = .intentLoaded ∧ s.intent.vaultCount = 1 then do
    let va := (s.intent.group 0).vaultAmount
    check (¬amountReceived ≥ va - dustLimit) .incorrectData
    let impliedFee := va - dustLimit - amountReceived
    check (¬(maxPayoutfinalizeVsize > uint64Max / s.intent.baseFeeRate ∨
      impliedFee > s.intent.baseFeeRate * maxPayoutfinalizeVsize)) .incorrectData
  else pure ()

/-- `_validate_display_payout_finalize`. -/
def validateDisplayPayoutFinalize : V Unit := do
  Prog.modify fun v => { v with tr := { v.tr with isPayoutSigning := false } }
  checkVersionLocktime st
  let (m1, tls) ← readTapLeaf E s st.nInputs 1
  requireBufferedLeaf
  let (dKey, csv) ← orReject (parsePayoutLeafScript tls.leafScript)
  check (¬(s.ctx.state = .intentLoaded ∧ csv ≠ s.intent.payoutTimelock)) .incorrectData
  checkSighashType m1 [sighashDefault]
  readFinalizeUtxo E s m1 tls
  let _ ← checkLeafKey E st m1 dKey
  checkCsvSequence m1 csv
  let (out0Spk, amountReceived) ← readOutput 2 0
  check (spkIsBip86P2trOf E out0Spk dKey = true) .incorrectData
  let address ← addressOf E out0Spk
  check (¬amountReceived = 0) .incorrectData
  let (out1Spk, out1Value) ← readOutput 2 1
  check (out1Value = dustLimit ∧ spkIsBip86P2trOf E out1Spk dKey = true) .incorrectData
  let m0 ← getMap .input st.nInputs 0
  let vaultTxid ← getPreviousTxid m0
  finalizeFeeCap s amountReceived
  check (¬st.inputsTotalAmount < st.outputsTotalAmount) .incorrectData
  display (.payoutFinalize amountReceived address (st.inputsTotalAmount - st.outputsTotalAmount)
    vaultTxid)

end BabylonVault
