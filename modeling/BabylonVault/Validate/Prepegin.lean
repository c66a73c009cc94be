/-
  Pre-PegIn validation (`sign_psbt_validate.c`, 396-760).

  * `computePrepeginTxid`: the txid of the PSBT, field by field.
  * `validatePrepeginHtlcOutputs`, `validatePrepeginOutputs`: the HTLC outputs of
    the groups, and every other output.
  * `validatePrepegin`: the validator; the counter is the caller's last step.
-/
import BabylonVault.Validate.Common

namespace BabylonVault
open Bytes

/-- `_prepegin_policy_is_native_segwit`. -/
def prepeginPolicyIsNativeSegwit (st : SignPsbtState) : Bool :=
  match st.policyMap with
  | none => false
  | some pm => !st.hasNoWalletPolicy && !pm.isSh && decide (pm.segwitVersion ≥ 0)

variable (E : Env) (st : SignPsbtState) (s : Session)

/-- One input of `_compute_prepegin_txid`, behind the bytes hashed so far. -/
def prepeginTxInput (i : ℕ) (sha : Bytes) : V Bytes := do
  let m ← getMap .input st.nInputs i
  let prevTxid ← getExact m [psbtInPreviousTxid] 32
  let vout ← getField m psbtInOutputIndex
  let seq ← getField m psbtInSequence
  check (seq = sequenceFinal) .incorrectData
  return sha ++ prevTxid ++ leBytes 4 vout.toNat ++ [0] ++ leBytes 4 seq.toNat

/-- One output of `_compute_prepegin_txid`. -/
def prepeginTxOutput (i : ℕ) (sha : Bytes) : V Bytes := do
  let (spk, value) ← readOutput st.nOutputs i
  return sha ++ leBytes 8 value.toNat ++ E.hashUpdateVarint p2trSpkLen ++ spk

/-- `_compute_prepegin_txid`. -/
def computePrepeginTxid : V Bytes32 := do
  let sha := leBytes 4 st.txVersion.toNat ++ E.hashUpdateVarint st.nInputs
  let sha ← Prog.loop (prepeginTxInput st) 0 st.nInputs sha
  let sha ← Prog.loop (prepeginTxOutput E st) 0 st.nOutputs (sha ++ E.hashUpdateVarint st.nOutputs)
  return doubleSha256 E (sha ++ leBytes 4 st.locktime.toNat)

/-- One group of `_validate_prepegin_htlc_outputs`. -/
def prepeginHtlcOutput (gi : ℕ) : V Unit := do
  let grp := s.intent.group gi
  check (grp.htlcVout.toNat < st.nOutputs) .incorrectData
  let (actualSpk, htlcValue) ← readOutput st.nOutputs grp.htlcVout.toNat
  let expectedSpk ← orReject
    (vaultBuildHtlcScriptpubkey E s.intent gi (s.ctx.htlcHashlock.pick gi))
  check (actualSpk = expectedSpk) .incorrectData
  let minHtlc ← addChecked grp.vaultAmount grp.depositorClaimValue
  let minHtlc ← addChecked p2aAnchorValue minHtlc
  let maxHtlc ← addChecked minHtlc grp.peginMaxFee
  check (¬(htlcValue < minHtlc ∨ htlcValue > maxHtlc)) .incorrectData

/-- `_validate_prepegin_htlc_outputs`. -/
def validatePrepeginHtlcOutputs : V Unit := forUpto s.intent.vaultCount (prepeginHtlcOutput E st s)

/-- The scriptPubKey of the auth-anchor output. -/
def authAnchorSpk (hash : Bytes32) : Bytes := opReturn :: opPushbytes32 :: hash.toList

/-- One output of the loop of `_validate_prepegin_outputs`: whether the anchor was
    found, and the depositor outputs seen. -/
def prepeginOutput (cpfpSpk : Bytes) (changeAllowed : Bool) (i : ℕ)
    (seen : Bool × PrepeginDepositorOutputs) : V (Bool × PrepeginDepositorOutputs) := do
  let maxHtlcVout := (s.intent.group (s.intent.vaultCount - 1)).htlcVout.toNat
  if (List.range s.intent.vaultCount).any fun gi => (s.intent.group gi).htlcVout.toNat = i then
    return seen
  else do
    check (st.internalOutputs i = false) .incorrectData
    check (¬i ≤ maxHtlcVout) .incorrectData
    let (outSpk, outValue) ← readOutput st.nOutputs i
    if outValue = 0 ∧ outSpk = authAnchorSpk s.ctx.authAnchorHash then do
      check (seen.1 = false) .incorrectData
      return (true, seen.2)
    else if outSpk = cpfpSpk then do
      let seen' ← orReject (prepeginDepositorOutputAccept seen.2 outValue changeAllowed)
      return (seen.1, seen')
    else reject .incorrectData

/-- `_validate_prepegin_outputs`. -/
def validatePrepeginOutputs : V Unit := do
  let cpfpSpk ← orReject (bip86P2trSpk E s.intent.depositorPk)
  ledgerAssert (1 ≤ s.intent.vaultCount ∧ s.intent.vaultCount ≤ maxVaults)
  let changeAllowed := st.accountIsDefault &&
    prepeginChangePathOk E.network s.intent.depositorPath.toList st.accountBip44Purpose
      st.accountBip44Account
  let _ ← Prog.loop (prepeginOutput st s cpfpSpk changeAllowed) 0 st.nOutputs
    (false, ⟨false, false⟩)
  return ()

/-- An input of a Pre-PegIn may be signed with DEFAULT or ALL only. -/
def prepeginSighash (i : ℕ) : V Unit := do
  let m ← getMap .input st.nInputs i
  checkSighashType m [sighashDefault, sighashAll]

/-- `_validate_prepegin`, up to the increment of its counter. -/
def validatePrepegin : V Unit := do
  check (s.ctx.state = .intentLoaded) .badState
  check (¬(List.range s.intent.vaultCount).any fun gi => s.ctx.htlcHashlock.pick gi = Buf.zero 32)
    .badState
  check ((List.range st.nInputs).all st.internalInputs) .incorrectData
  check (prepeginPolicyIsNativeSegwit st) .incorrectData
  check (¬(st.txVersion < 2 ∨ st.locktime ≠ 0)) .incorrectData
  forUpto st.nInputs (prepeginSighash st)
  validatePrepeginHtlcOutputs E st s
  validatePrepeginOutputs E st s
  check (¬st.outputsTotalAmount > st.inputsTotalAmount) .incorrectData
  check (¬st.inputsTotalAmount - st.outputsTotalAmount > s.intent.prepeginMaxFee) .incorrectData
  let txid ← computePrepeginTxid E st
  check (txid = s.intent.prepeginTxid) .incorrectData
  checkCap (¬s.ctx.prePeginSigned ≥ 1)

end BabylonVault
