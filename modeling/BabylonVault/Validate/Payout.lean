/-
  Payout and NoPayout validation (`sign_psbt_validate.c`, 1485-2317).

  * `findPeginGroup`, `detectPayoutClaimer`: which vault a Payout spends, and for
    whom.
  * `validatePayout`: the validator, whose outputs depend on the claimer.
  * `validateNopayout`: the challenger's exit from Assert:0.
-/
import BabylonVault.Validate.Common

namespace BabylonVault
open Bytes

variable (E : Env) (st : SignPsbtState) (s : Session)

def maxPayoutVsizeBase : UInt64 := 500
def maxPayoutVsizePerParticipant : UInt64 := 55
def maxCouncilNopayoutVsize : UInt64 := 500
def maxNopayoutVsize : UInt64 := 450

/-- `_payout_check_witness_utxo`. -/
def payoutCheckWitnessUtxo (m : MapRef) (expectedSpk : Bytes) (expectedValue : UInt64) :
    V Unit := do
  let (value, spk) ← readWitnessUtxo m
  check (value = expectedValue) .incorrectData
  check (spk = expectedSpk) .incorrectData

/-- `_payout_check_single_leaf_script`. -/
def payoutCheckSingleLeafScript (m : MapRef) (leaf : Bytes) (parity : UInt8) : V Unit := do
  let value ← getValue m (psbtInTapLeafScript :: (tapscriptLeafVersion ||| parity) ::
    vaultNumsXonly.toList) scriptMaxLen
  check (value = leaf ++ [tapscriptLeafVersion]) .incorrectData

/-- The first group whose PegIn txid this is. -/
def findPeginGroup (it : VaultIntent) (txid : Bytes32) : Option ℕ :=
  (List.range it.vaultCount).find? fun g => vaultComputePeginTxid E it g = some txid

/-- The claimer whose key this is: the vault provider, a keeper or the depositor. -/
def findClaimer (it : VaultIntent) (gi : ℕ) (hostKey : Bytes32) : Option ℕ :=
  if hostKey = (it.group gi).vaultProviderPk then some 0
  else match (List.range it.keeperCount).find? fun i => it.keeperPks.pick i = hostKey with
    | some i => some (i + 1)
    | none => if hostKey = it.depositorPk then some (it.keeperCount + 1) else none

/-- `_detect_payout_claimer`. -/
def detectPayoutClaimer (tls : Tls) (gi : ℕ) : V ℕ := do
  requireBufferedLeaf
  check (34 ≤ tls.leafScriptLen ∧ tls.leafScript.getD 0 0 = opPushbytes32) .incorrectData
  let claimerIdx ← orReject (findClaimer s.intent gi (Buf.slice 32 tls.leafScript 1))
  let leaf ← orReject (vaultBuildAssert0PayoutLeaf s.intent gi claimerIdx scriptMaxLen)
  check (leaf = tls.leafScript) .incorrectData
  return claimerIdx

/-- The value of an Assert:0 input: within the funding bounds, and committed to by
    the leaf last read. -/
def readAssert0Value (m : MapRef) (tls : Tls) : V UInt64 := do
  let wu ← getValue m [psbtInWitnessUtxo] 43
  check (9 ≤ wu.length) .incorrectData
  let value := UInt64.ofNat (ofLE (wu.take 8))
  check (¬value < dustLimit) .incorrectData
  check (¬(maxCouncilNopayoutVsize ≤ uint64Max / s.intent.baseFeeRate ∧
    value > dustLimit + s.intent.baseFeeRate * maxCouncilNopayoutVsize)) .incorrectData
  check (wu.length = 9 + (wu.getD 8 0).toNat ∧ (wu.getD 8 0).toNat = p2trSpkLen) .incorrectData
  refundVerifyTaprootCommitment E tls (wu.drop 9)
  return value

/-- The slot of a (group, claimer) pair in the payout mask. -/
def payoutSlot (it : VaultIntent) (gi claimerIdx : ℕ) : ℕ := gi * (it.keeperCount + 2) + claimerIdx

/-- Input 0 of a Payout: the vault UTXO of the group. -/
def payoutValidateInput0 (m : MapRef) (gi : ℕ) : V Unit := do
  let vout ← getField m psbtInOutputIndex
  check (vout = 0) .incorrectData
  let seq ← getField m psbtInSequence
  check (seq.toNat = s.intent.peginCsvTimelock) .incorrectData
  checkSighashType m [sighashDefault]
  let leaf ← orReject (vaultBuildVaultUtxoLeaf s.intent gi scriptMaxLen)
  let (parity, tweaked) ← orReject
    (E.tweakPubkey vaultNumsXonly (some (vaultTaprootLeafHash E leaf)))
  payoutCheckWitnessUtxo m (p2trSpk tweaked) (s.intent.group gi).vaultAmount
  payoutCheckSingleLeafScript m leaf parity

/-- Input 1 of a Payout: sequence and position of Assert:0. -/
def payoutValidateInput1 (m : MapRef) : V Unit := do
  let seq ← getField m psbtInSequence
  check (seq.toNat = s.intent.payoutTimelock) .incorrectData
  let vout ← getField m psbtInOutputIndex
  check (vout = 0) .incorrectData

/-- Output 0 of a Payout: to the depositor, except for a keeper's own claim. -/
def payoutOutput0 (claimerIdx : ℕ) : V UInt64 := do
  if claimerIdx = 0 ∨ claimerIdx = s.intent.keeperCount + 1 then do
    let (spk, value) ← readOutput st.nOutputs 0
    let expectedSpk ← orReject (bip86P2trSpk E s.intent.depositorPk)
    check (spk = expectedSpk) .incorrectData
    check (¬value < dustLimit) .incorrectData
    return value
  else do
    let (spk, value) ← readOutputVarlen st.nOutputs 0 E.maxOutputSpkLen
    check (¬(spk.length < payoutSpkMinLen ∨ spk.headD 0 = opReturn)) .incorrectData
    check (¬value < dustLimit) .incorrectData
    return value

/-- Output 1 of a Payout: the commission, or the anchor of any other claimer. -/
def payoutOutput1 (gi claimerIdx : ℕ) : V UInt64 := do
  if claimerIdx = s.intent.keeperCount + 1 then do
    let (spk, value) ← readOutput st.nOutputs 1
    check (value = dustLimit) .incorrectData
    let expectedSpk ← orReject (bip86P2trSpk E s.intent.depositorPk)
    check (spk = expectedSpk) .badCpfpAnchor
    return value
  else do
    let (_, value) ← readOutputVarlen st.nOutputs 1 E.maxOutputSpkLen
    if claimerIdx = 0 then do
      check (¬value > (s.intent.group gi).commissionFee) .incorrectData
      check (¬(value > 0 ∧ value < dustLimit)) .incorrectData
    else check (value = dustLimit) .incorrectData
    return value

/-- Output 2, the provider's anchor: the total of all outputs. -/
def payoutOutput2 (claimerIdx : ℕ) (totalOut : UInt64) : V UInt64 := do
  if claimerIdx = 0 then do
    let (_, value) ← readOutputVarlen st.nOutputs 2 E.maxOutputSpkLen
    check (value = dustLimit) .incorrectData
    addChecked totalOut value
  else return totalOut

/-- The fee bound of a Payout. -/
def payoutFee (gi : ℕ) (assert0Value totalOut : UInt64) : V Unit := do
  let it := s.intent
  let totalIn := (it.group gi).vaultAmount + assert0Value
  check (¬totalOut > totalIn) .incorrectData
  let fee := totalIn - totalOut
  check (¬fee = 0) .incorrectData
  let participants := UInt64.ofNat it.keeperCount + UInt64.ofNat it.challengerCount
  let vsize := maxPayoutVsizeBase + maxPayoutVsizePerParticipant * participants
  check (¬vsize > uint64Max / it.baseFeeRate) .incorrectData
  check (¬fee > it.baseFeeRate * vsize) .incorrectData

/-- `_validate_payout`. -/
def validatePayout : V Unit := do
  check (s.ctx.state = .intentLoaded) .badState
  check (¬(st.txVersion < 2 ∨ st.locktime ≠ 0)) .incorrectData
  check (¬st.nInputs ≠ 2) .incorrectData
  let m ← getMap .input 2 0
  let txid ← getPreviousTxid m
  let gi ← orReject (findPeginGroup E s.intent txid)
  check (gi < s.intent.vaultCount) .incorrectData
  let (m1, tls) ← readTapLeaf E s st.nInputs 1
  let claimerIdx ← detectPayoutClaimer s tls gi
  let assert0Value ← readAssert0Value E s m1 tls
  Prog.modify fun v =>
    { v with tr := { v.tr with vaultGroupIndex := gi, payoutIndex := claimerIdx } }
  checkCap (bit s.ctx.payoutClaimerMask (payoutSlot s.intent gi claimerIdx) = false)
  check (st.nOutputs = if claimerIdx = 0 then 3 else 2) .incorrectData
  payoutValidateInput0 E s m gi
  payoutValidateInput1 s m1
  let out0 ← payoutOutput0 E st s claimerIdx
  let out1 ← payoutOutput1 E st s gi claimerIdx
  let totalOut ← addChecked out0 out1
  let totalOut ← payoutOutput2 E st claimerIdx totalOut
  payoutFee s gi assert0Value totalOut
  checkCap (¬s.ctx.payoutSigned ≥ s.intent.vaultCount * (s.intent.keeperCount + 2))
  Prog.modify fun v => { v with tr := { v.tr with isPayoutSigning := true } }

/-! ## NoPayout -/

/-- The shape of a NoPayout leaf with the depositor's key. -/
def nopayoutLeafShape (it : VaultIntent) (tls : Tls) : Bool :=
  let leaf := tls.leafScript
  tls.leafScriptLen = nopayoutLeafLen && leaf.getD 0 0 = opPushbytes32 &&
    leaf.getD 33 0 = opChecksigverify && leaf.getD 34 0 = opPushbytes32 &&
    leaf.getD 67 0 = opChecksig && (Buf.slice 32 leaf 1 : Bytes32) = it.depositorPk

/-- The first challenger whose key this is: keepers, then universal challengers. -/
def findChallenger (it : VaultIntent) (key : Bytes32) : Option ℕ :=
  (List.range (it.keeperCount + it.challengerCount)).find? fun i => challengerPk it i = key

/-- `_validate_nopayout`. -/
def validateNopayout : V Unit := do
  check (s.ctx.state = .intentLoaded) .badState
  check (¬(st.txVersion < 2 ∨ st.locktime ≠ 0)) .incorrectData
  check (¬(st.nInputs ≠ 3 ∨ st.nOutputs ≠ 1)) .incorrectData
  let (m, tls) ← readTapLeaf E s st.nInputs 0
  requireBufferedLeaf
  check (nopayoutLeafShape s.intent tls = true) .incorrectData
  let key : Bytes32 := Buf.slice 32 tls.leafScript 35
  let challengerIdx ← orReject (findChallenger s.intent key)
  checkCap (¬s.ctx.nopayoutSigned ≥
    s.intent.vaultCount * (s.intent.keeperCount + s.intent.challengerCount))
  check (vaultBuildNopayoutLeaf s.intent challengerIdx nopayoutLeafLen = some tls.leafScript)
    .incorrectData
  checkSighashType m [sighashDefault]
  let _ ← readAssert0Value E s m tls
  let vout ← getField m psbtInOutputIndex
  check (vout = 0) .incorrectData
  let (_, tweaked) ← orReject (E.tweakPubkey key none)
  let (outSpk, outValue) ← readOutput st.nOutputs 0
  check (outSpk = p2trSpk tweaked) .incorrectData
  check (¬st.inputsTotalAmount < st.outputsTotalAmount) .incorrectData
  check (¬outValue < dustLimit) .incorrectData
  let fee := st.inputsTotalAmount - st.outputsTotalAmount
  check (¬(maxNopayoutVsize > uint64Max / s.intent.baseFeeRate ∨
    fee > s.intent.baseFeeRate * maxNopayoutVsize)) .incorrectData
  Prog.modify fun v => { v with tr := { v.tr with nopayoutChallengerIndex := challengerIdx } }

end BabylonVault
