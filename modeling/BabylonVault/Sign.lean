/-
  The custom signer (`sign_custom_inputs.c`).

  * `signAndYield`: the common tail: sighash, counter, signature.
  * `signPegin`, `signNopayout`, `signPayout`: the intent-bound branches, which
    wipe the session on every failure.
  * `signLeaf`: the branches that sign with the leaf's own key, Input 1 for a
    PayoutFinalize and Input 0 otherwise.
  * `signCustomInputs`: the dispatcher.
-/
import BabylonVault.Validate.Dispatch

namespace BabylonVault
open Bytes

variable (E : Env) (st : SignPsbtState)

/-! ## The common tail -/

/-- `compute_sighash_segwitv1` with `SIGHASH_DEFAULT`. -/
def computeSighash (input : ℕ) (spk : Bytes) (leafHash : Bytes32) : M Bytes32 := do
  let r : Option Bytes32 ← askM (.sighash input spk leafHash sighashDefault)
  Prog.orStop .callee r

/-- `sign_sighash_schnorr_and_yield`. -/
def signSighashSchnorrAndYield (kind : SigKind) (r : SigRequest) : M Unit := do
  let ok : Bool ← askM (.yield kind r)
  Prog.require (ok = true) .callee

/-- Sighash, then `count`, then the signature: the counter is raised before the
    signature can leave the device. -/
def signAndYield (kind : SigKind) (input : ℕ) (path : List UInt32) (leafHash : Bytes32)
    (spk : Bytes) (count : Device → Device) : M Unit := do
  let sighash ← computeSighash input spk leafHash
  Prog.modify count
  signSighashSchnorrAndYield kind ⟨input, path, leafHash, sighashDefault, sighash⟩

/-- `read_p2tr_witness_utxo` with an expected scriptPubKey. -/
def readExpectedUtxo (m : MapRef) (expectedSpk : Bytes) : V Bytes := do
  let (_, spk) ← readWitnessUtxo m
  check (spk = expectedSpk) .incorrectData
  return spk

/-- `read_p2tr_witness_utxo` without one. -/
def readAnyUtxo (m : MapRef) : V Bytes := do
  let (_, spk) ← readWitnessUtxo m
  return spk

/-! ## PegIn -/

/-- What the PegIn branch reads: leaf hash and scriptPubKey. -/
def peginSigningInput (gi : ℕ) (s : Session) : V (Bytes32 × Bytes) := do
  let m ← getMap .input st.nInputs 0
  let leaf ← orReject (vaultBuildHtlcLeaf0 s.intent gi (s.ctx.htlcHashlock.pick gi) scriptMaxLen)
  let expectedSpk ← orReject
    (vaultBuildHtlcScriptpubkey E s.intent gi (s.ctx.htlcHashlock.pick gi))
  let spk ← readExpectedUtxo m expectedSpk
  return (vaultTaprootLeafHash E leaf, spk)

/-- Consume the slot of a group. -/
def countPegin (gi : ℕ) (d : Device) : Device :=
  { d with ctx := { d.ctx with peginGroupMask := setBit d.ctx.peginGroupMask gi,
                               peginSigned := d.ctx.peginSigned + 1 } }

/-- The PegIn branch. -/
def signPegin : M Unit := do
  let d ← Prog.get
  let gi := d.tr.vaultGroupIndex
  assertM (gi < d.intent.vaultCount)
  wiping do
    let (leafHash, spk) ← validating (peginSigningInput E st gi)
    signAndYield (.pegin gi) 0 d.intent.depositorPath.toList leafHash spk (countPegin gi)

/-! ## NoPayout -/

/-- What the NoPayout branch reads: leaf hash and scriptPubKey. -/
def nopayoutSigningInput (ci : ℕ) (s : Session) : V (Bytes32 × Bytes) := do
  let (m, tls) ← readTapLeaf E s st.nInputs 0
  requireBufferedLeaf
  check (nopayoutLeafShape s.intent tls = true) .incorrectData
  check (ci < s.intent.keeperCount + s.intent.challengerCount) .incorrectData
  check ((Buf.slice 32 tls.leafScript 35 : Bytes32) = challengerPk s.intent ci) .incorrectData
  let spk ← readAnyUtxo m
  return (vaultTaprootLeafHash E (tls.leafScript.take tls.leafScriptLen), spk)

/-- Count a NoPayout. -/
def countNopayout (d : Device) : Device :=
  { d with ctx := { d.ctx with nopayoutSigned := d.ctx.nopayoutSigned + 1 } }

/-- The NoPayout branch. -/
def signNopayout : M Unit := do
  let d ← Prog.get
  let ci := d.tr.nopayoutChallengerIndex
  wiping do
    let (leafHash, spk) ← validating (nopayoutSigningInput E st ci)
    signAndYield (.nopayout ci) 0 d.intent.depositorPath.toList leafHash spk countNopayout

/-! ## Payout -/

/-- What the Payout branch reads: leaf hash and scriptPubKey. -/
def payoutSigningInput (gi : ℕ) (s : Session) : V (Bytes32 × Bytes) := do
  let m ← getMap .input st.nInputs 0
  let leaf ← orReject (vaultBuildVaultUtxoLeaf s.intent gi scriptMaxLen)
  let expectedSpk ← orReject (vaultBuildVaultUtxoScriptpubkey E s.intent gi)
  let spk ← readExpectedUtxo m expectedSpk
  return (vaultTaprootLeafHash E leaf, spk)

/-- Consume the slot of a (group, claimer) pair. -/
def countPayout (gi claimerIdx : ℕ) (d : Device) : Device :=
  { d with ctx := { d.ctx with
    payoutClaimerMask := setBit d.ctx.payoutClaimerMask (payoutSlot d.intent gi claimerIdx),
    payoutSigned := d.ctx.payoutSigned + 1 } }

/-- The Payout branch. -/
def signPayout : M Unit := do
  let d ← Prog.get
  let gi := d.tr.vaultGroupIndex
  let ci := d.tr.payoutIndex
  wiping do
    let (leafHash, spk) ← validating (payoutSigningInput E st gi)
    signAndYield (.payout gi ci) 0 d.intent.depositorPath.toList leafHash spk (countPayout gi ci)

/-! ## The flows that sign with the leaf's own key -/

/-- The shape a PayoutFinalize leaf must still have. -/
def finalizeLeafShape (scriptLen : ℕ) (lm : LeafMeta) : Bool :=
  nopayoutLeafLen < scriptLen && lm.pfx.pick 0 = opPushbytes32 &&
    lm.pfx.pick leafGroup0PushOff = opPushbytes32 && lm.pfx.pick leafGroup0OpOff = opChecksig

/-- The shape any other standalone leaf must still have. -/
def standaloneLeafShape (scriptLen : ℕ) (lm : LeafMeta) : Bool :=
  34 ≤ scriptLen && lm.pfx.pick 0 = opPushbytes32 &&
    !(leafHasAssertShape scriptLen lm.pfx lm.lastByte && !lm.assertPrefixOk)

/-- What these branches read: leaf hash, scriptPubKey and the path of the key. -/
def leafSigningInput (shape : ℕ → LeafMeta → Bool) (idx : ℕ) (s : Session) :
    V (Bytes32 × Bytes × List UInt32) := do
  let (m, tls) ← readTapLeaf E s st.nInputs idx
  let lm ← leafMeta
  check (shape tls.leafScriptLen lm = true) .incorrectData
  let spk ← readAnyUtxo m
  let path ← checkLeafKey E st m (Buf.slice 32 lm.pfx.toList 1)
  return (lm.hash, spk, path)

/-- A branch that signs an input with its leaf's own key. -/
def signLeaf (shape : ℕ → LeafMeta → Bool) (idx : ℕ) : M Unit := do
  let (leafHash, spk, path) ← validating (leafSigningInput E st shape idx)
  signAndYield .standalone idx path leafHash spk id

/-- The PayoutFinalize branch: Input 1. -/
def signPayoutFinalize : M Unit := do
  assertM (st.internalInputs 0 = false)
  signLeaf E st finalizeLeafShape 1

/-- The branch of every other standalone flow: Input 0. -/
def signStandalone : M Unit := signLeaf E st standaloneLeafShape 0

/-! ## The dispatcher -/

/-- Payout and NoPayout are told apart by the number of inputs. -/
def signPayoutOrNopayout : M Unit :=
  if st.nInputs = 3 ∧ st.nOutputs = 1 then signNopayout E st
  else if st.nInputs ≠ 2 then wipeM .incorrectData
  else signPayout E st

/-- `sign_custom_inputs`. -/
def signCustomInputs : M Unit := do
  let d ← Prog.get
  if st.txVersion = 0 then assertM (st.nInputs = 1 ∧ st.nOutputs = 1)
  else if d.ctx.state = .intentLoaded ∧ st.hasNoWalletPolicy ∧ st.nInputs = 1 ∧
      st.nOutputs = 3 then signPegin E st
  else if d.ctx.state = .intentLoaded ∧ st.hasNoWalletPolicy ∧
      (st.nInputs = 3 ∨ (st.nInputs = 2 ∧ (st.nOutputs ≠ 2 ∨ d.tr.isPayoutSigning))) then
    signPayoutOrNopayout E st
  else if ¬st.hasNoWalletPolicy ∧ st.internalInputs 0 then pure ()
  else if st.hasNoWalletPolicy ∧ st.nInputs = 2 ∧ st.nOutputs = 2 then signPayoutFinalize E st
  else signStandalone E st

end BabylonVault
