/-
  The dispatcher (`validate_and_display_transaction`).

  * `Flow`: the validators.
  * `dispatchLeaf`: the choice by the leaf of Input 0.
  * `dispatch`: the choice by version, shape, state and Input 0's txid.
  * `validateAndDisplayTransaction`: the whole, with the Pre-PegIn counter.
-/
import BabylonVault.Validate.Pegin
import BabylonVault.Validate.Pop
import BabylonVault.Validate.Prepegin

namespace BabylonVault
open Bytes

/-- The validators of the dispatcher. -/
inductive Flow
  | pop | prepegin | wc | pegin | nopayout | payout | payoutFinalize | claim | reclaim | assert
  | refund
  deriving DecidableEq

variable (E : Env) (st : SignPsbtState) (s : Session)

/-- Run the validator of a flow, and report the flow. -/
def through (flow : Flow) (v : V Unit) : V Flow := do
  v
  return flow

/-- The standalone dispatch on Input 0's leaf. -/
def dispatchLeaf : V Flow := do
  let (_, tls) ← readTapLeaf E s st.nInputs 0
  let lm ← leafMeta
  let leafLen := tls.leafScriptLen
  if leafLen < depositorClaimLeafLen ∨ lm.pfx.pick 0 ≠ opPushbytes32 then reject .incorrectData
  else if leafLen = depositorClaimLeafLen ∧ lm.pfx.pick 33 = opChecksig then
    if st.nOutputs = 2 then through .claim (validateDisplayClaim E st tls)
    else if st.nOutputs = 1 then through .reclaim (validateDisplayReclaim E st tls)
    else reject .incorrectData
  else if leafLen > depositorClaimLeafLen ∧ lm.pfx.pick 33 = opChecksigverify then
    if lm.pfx.pick 34 = opSize then through .wc (validateDisplayWc E st s)
    else if leafHasAssertShape leafLen lm.pfx lm.lastByte then do
      check (lm.assertPrefixOk = true) .incorrectData
      through .assert (validateDisplayAssert E st tls)
    else if lm.lastByte = opCsv then through .refund (validateDisplayRefund E st s)
    else reject .incorrectData
  else reject .incorrectData

/-- What follows the intent-bound flows. -/
def dispatchRest : V Flow :=
  if st.hasNoWalletPolicy = false then
    if st.internalInputs 0 then through .prepegin (validatePrepegin E st s)
    else through .wc (validateDisplayWc E st s)
  else if st.nInputs = 2 ∧ st.nOutputs = 2 then
    through .payoutFinalize (validateDisplayPayoutFinalize E st s)
  else dispatchLeaf E st s

/-- `validate_and_display_transaction`, behind its streaming guard. -/
def dispatch : V Flow :=
  if st.txVersion = 0 then through .pop (validateDisplayPop E st s)
  else if st.hasNoWalletPolicy ∧ st.nInputs = 1 ∧ st.nOutputs = 3 then
    through .pegin (validatePegin E st s)
  else if st.hasNoWalletPolicy ∧ st.nInputs = 3 ∧ st.nOutputs = 1 then
    through .nopayout (validateNopayout E st s)
  else if s.ctx.state = .intentLoaded ∧ st.hasNoWalletPolicy ∧ st.nInputs = 2 then
    if st.nOutputs ≠ 2 then through .payout (validatePayout E st s)
    else do
      let m ← getMap .input 2 0
      let txid ← getPreviousTxid m
      if (findPeginGroup E s.intent txid).isSome then through .payout (validatePayout E st s)
      else dispatchRest E st s
  else dispatchRest E st s

/-- The slot a Pre-PegIn reserves as the last step of its validator. -/
def countPrepegin (d : Device) : Device :=
  { d with ctx := { d.ctx with prePeginSigned := d.ctx.prePeginSigned + 1 } }

/-- `validate_and_display_transaction`: the flow that accepted. -/
def validateAndDisplayTransaction : M Flow := do
  let d ← Prog.get
  if d.streaming.streamingInProgress then do
    Prog.modify fun d => { d with streaming := .zero }
    rejectM .badState
  else do
    clobberScratch
    let flow ← validating (dispatch E st)
    if flow = .prepegin then Prog.modify countPrepegin
    return flow

end BabylonVault
