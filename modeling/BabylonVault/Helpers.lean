/-
  Pure helpers of the validators (`sign_psbt_validate_helpers.c`).

  * `checkBip86Path`, `parseTapBip32DerivValue`: BIP-32 derivation records.
  * `parseRefundLeafScript`, `parsePayoutLeafScript`, `parseClaimLeafScript`,
    `leafHasAssertShape`: leaf shapes.
  * `prepeginDepositorOutputAccept`, `prepeginChangePathOk`: Pre-PegIn outputs.
-/
import BabylonVault.Env

namespace BabylonVault
open Bytes

/-- `check_bip86_path`. -/
def checkBip86Path (net : Network) (path : List UInt32) : Bool :=
  match path with
  | [purpose, coin, account, change, index] =>
    purpose = (bip86Purpose ||| hardened) && coin = (net.coinType ||| hardened) &&
      account &&& hardened ≠ 0 && account &&& ~~~hardened ≤ bip86MaxAccount &&
      change ≤ 1 && index ≤ bip86MaxAddressIndex
  | _ => false

/-- The little-endian `u32` steps of a derivation record. -/
def pathSteps : ℕ → Bytes → List UInt32
  | 0, _ => []
  | n + 1, v => UInt32.ofNat (ofLE (v.take 4)) :: pathSteps n (v.drop 4)

/-- `parse_tap_bip32_deriv_value`: fingerprint and path. -/
def parseTapBip32DerivValue (val : Bytes) (maxPathSteps : ℕ) : Option (UInt32 × List UInt32) :=
  match val with
  | [] => none
  | n :: _ =>
    let offset := 1 + n.toNat * 32
    if offset + 4 > val.length then none
    else
      let rest := val.drop (offset + 4)
      if rest.length % 4 ≠ 0 then none
      else if rest.length / 4 > maxPathSteps then none
      else some (UInt32.ofNat (ofBE ((val.drop offset).take 4)), pathSteps (rest.length / 4) rest)

/-! ## Leaf shapes -/

/-- The minimal CSV push of `parse_refund_leaf_script`: the operand and what is
    left of the script. -/
def parseCsvPush (script : Bytes) : Option (ℕ × Bytes) :=
  match script with
  | [] => none
  | pushOp :: rest =>
    let num (len : ℕ) (rest : Bytes) : Option (ℕ × Bytes) :=
      if len > 4 ∨ len > rest.length then none
      else if (rest.getD (len - 1) 0) &&& 0x80 ≠ 0 then none
      else some (ofLE (rest.take len), rest.drop len)
    if pushOp = op0 then none
    else if opPushbytes1 ≤ pushOp ∧ pushOp ≤ opPushbytes75 then num pushOp.toNat rest
    else if pushOp = opPushdata1 then
      match rest with
      | [] => none
      | len :: rest =>
        -- With a zero length the byte tested for the sign is the length itself.
        if len = 0 then some (0, rest)
        else num len.toNat rest
    else if op1 ≤ pushOp ∧ pushOp ≤ op16 then some ((pushOp - opReserved).toNat, rest)
    else none

/-- `parse_refund_leaf_script`: the leaf's key and its timelock. -/
def parseRefundLeafScript (script : Bytes) : Option (Bytes32 × ℕ) :=
  if script.length < 36 then none
  else if script.getD 0 0 ≠ opPushbytes32 then none
  else if script.getD 33 0 ≠ opChecksigverify then none
  else match parseCsvPush (script.drop 34) with
    | none => none
    | some (csv, rest) =>
      if csv = 0 then none
      else if csv > bip68SequenceMask.toNat then none
      else if rest ≠ [opCsv] then none
      else some (Buf.slice 32 script 1, csv)

/-- `parse_payout_leaf_script`: the claimer's key and the timelock at the tail. -/
def parsePayoutLeafScript (script : Bytes) : Option (Bytes32 × ℕ) :=
  let n := script.length
  let at' (i : ℕ) : UInt8 := script.getD i 0
  if n ≤ nopayoutLeafLen then none
  else if at' 0 ≠ opPushbytes32 then none
  else if at' 33 ≠ opChecksigverify then none
  else if at' (n - 1) ≠ opCsv then none
  else if at' leafGroup0PushOff ≠ opPushbytes32 then none
  else if at' leafGroup0OpOff ≠ opChecksig then none
  else
    let key : Bytes32 := Buf.slice 32 script 1
    let two := (at' (n - 3)).toNat + 256 * (at' (n - 2)).toNat
    let one := (at' (n - 2)).toNat
    if at' (n - 4) = opPushbytes2 ∧ at' (n - 2) &&& 0x80 = 0 ∧
        payoutTimelockMin ≤ two ∧ two ≤ payoutTimelockMax then some (key, two)
    else if at' (n - 3) = opPushbytes1 ∧ payoutTimelockMin ≤ one ∧ one ≤ payoutTimelockMax ∧
        one ≤ 0x7F then some (key, one)
    else none

/-- `leaf_has_assert_shape`. -/
def leafHasAssertShape (scriptLen : ℕ) (pfx : Buf 68) (lastByte : UInt8) : Bool :=
  nopayoutLeafLen < scriptLen && pfx.pick 0 = opPushbytes32 && pfx.pick 33 = opChecksigverify &&
    pfx.pick leafGroup0PushOff = opPushbytes32 && pfx.pick leafGroup0OpOff = opChecksig &&
    lastByte = opTrue

/-- `parse_claim_leaf_script`. -/
def parseClaimLeafScript (script : Bytes) : Option Bytes32 :=
  if script.length ≠ depositorClaimLeafLen then none
  else if script.getD 0 0 ≠ opPushbytes32 then none
  else if script.getD 33 0 ≠ opChecksig then none
  else some (Buf.slice 32 script 1)

/-! ## Reclaim and Pre-PegIn -/

/-- `reclaim_fee_ok`: the fee, when the output is smaller than the input. -/
def reclaimFeeOk (inValue outValue : UInt64) : Option UInt64 :=
  if outValue ≥ inValue then none else some (inValue - outValue)

/-- `prepegin_depositor_outputs_t`. -/
structure PrepeginDepositorOutputs where
  anchorSeen : Bool
  changeSeen : Bool
  deriving DecidableEq

/-- `prepegin_depositor_output_accept`: `none` when the output is refused. -/
def prepeginDepositorOutputAccept (seen : PrepeginDepositorOutputs) (value : UInt64)
    (changeAllowed : Bool) : Option PrepeginDepositorOutputs :=
  if seen.changeSeen && !seen.anchorSeen then none
  else if value = dustLimit then
    if seen.anchorSeen then none else some { seen with anchorSeen := true }
  else if value > dustLimit then
    if !changeAllowed || !seen.anchorSeen || seen.changeSeen then none
    else some { seen with changeSeen := true }
  else none

/-- `prepegin_change_path_ok`. -/
def prepeginChangePathOk (net : Network) (path : List UInt32)
    (signingPurpose signingAccount : UInt32) : Bool :=
  checkBip86Path net path && signingPurpose = bip86Purpose && signingAccount &&& hardened = 0 &&
    path.getD 2 0 = (signingAccount ||| hardened) && path.getD 3 0 = 0 && path.getD 4 0 = 0

end BabylonVault
