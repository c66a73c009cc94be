/-
  The TLV payloads of the intent (`vault_tlv.c`).

  * `vaultTlvParse`: the 13 scalar fields, in any order, each exactly once.
  * `vaultTlvParseGroup`: one group record of 6 fields in ascending order, and
    how many bytes it took.

  Each loop reads one entry `tag(2) | len(1) | value` per turn, so the number of
  bytes left bounds the number of turns.
-/
import BabylonVault.Env

namespace BabylonVault
open Bytes

/-- `vault_tlv_err_t`. -/
inductive TlvErr
  | overflow | wrongLength | unknownTag | duplicateTag | missingField | validation
  deriving DecidableEq

/-- `tlv_err_to_sw`. -/
def TlvErr.toSw : TlvErr → Sw
  | _ => .incorrectData

/-- The value must have `n` bytes. -/
def lenIs (n : ℕ) (v : Bytes) : Except TlvErr Unit :=
  if v.length ≠ n then .error .wrongLength else .ok ()

/-- The value must pass its check. -/
def valid (c : Prop) [Decidable c] : Except TlvErr Unit :=
  if c then .ok () else .error .validation

/-- One entry, cut off the front of a payload: tag, value, what is left. -/
def tlvEntry : Bytes → Except TlvErr (ℕ × Bytes × Bytes)
  | hi :: lo :: len :: rest =>
    if len.toNat > rest.length then .error .overflow
    else .ok (ofBE [hi, lo], rest.take len.toNat, rest.drop len.toNat)
  | _ => .error .overflow

/-! ## Scalars -/

/-- The `u32` levels of a path, big-endian. -/
def pathOf (n : ℕ) (v : Bytes) : List.Vector UInt32 n :=
  .ofFn fun i => UInt32.ofNat (ofBE ((v.drop (4 * i)).take 4))

/-- The checks on `depositor_derivation_path` that need no other field. -/
def depositorPathOk (p : List.Vector UInt32 depositorPathLen) : Bool :=
  p.pick 0 = (bip86Purpose ||| hardened) && p.pick 1 &&& hardened ≠ 0 &&
    p.pick 2 &&& hardened ≠ 0 && p.pick 3 &&& hardened = 0 && p.pick 4 &&& hardened = 0 &&
    p.pick 2 &&& ~~~hardened ≤ bip86MaxAccount && p.pick 3 ≤ 1 &&
    p.pick 4 ≤ bip86MaxAddressIndex

/-- The `switch` of `vault_tlv_parse`: the field's index and the intent with it stored. -/
def tlvField (net : Network) (tag : ℕ) (v : Bytes) (out : VaultIntent) :
    Except TlvErr (ℕ × VaultIntent) :=
  if tag = tagStructureType then do
    lenIs 1 v
    valid (v.headD 0 = structureType)
    return (0, { out with structureType := v.headD 0 })
  else if tag = tagVersion then do
    lenIs 1 v
    valid (v.headD 0 = protocolVersion)
    return (1, { out with version := v.headD 0 })
  else if tag = tagCoinType then do
    lenIs 4 v
    valid (UInt32.ofNat (ofBE v) = net.coinType)
    return (2, { out with coinType := UInt32.ofNat (ofBE v) })
  else if tag = tagBaseFeeRate then do
    lenIs 8 v
    let rate := UInt64.ofNat (ofBE v)
    valid (¬(rate = 0 ∨ rate > baseFeeRateMax))
    return (3, { out with baseFeeRate := rate })
  else if tag = tagPeginCsvTimelock then do
    lenIs 4 v
    valid (¬(ofBE v < timelockMin ∨ ofBE v > timelockMax))
    return (4, { out with peginCsvTimelock := ofBE v })
  else if tag = tagPayoutTimelock then do
    lenIs 4 v
    valid (¬(ofBE v ≤ payoutTimelockMin ∨ ofBE v ≥ payoutTimelockMax))
    return (5, { out with payoutTimelock := ofBE v })
  else if tag = tagPrepeginTxid then do
    lenIs 32 v
    return (6, { out with prepeginTxid := Buf.ofBytes 32 v })
  else if tag = tagHtlcRefundTimelock then do
    lenIs 4 v
    valid (¬(ofBE v < timelockMin ∨ ofBE v > htlcRefundTimelockMax))
    return (7, { out with htlcRefundTimelock := ofBE v })
  else if tag = tagDepositorDerivationPath then do
    lenIs 20 v
    valid (depositorPathOk (pathOf depositorPathLen v))
    return (8, { out with depositorPath := pathOf depositorPathLen v })
  else if tag = tagKeeperCount then do
    lenIs 1 v
    valid (¬(ofBE v < 1 ∨ ofBE v > maxKeepers))
    return (9, { out with keeperCount := ofBE v })
  else if tag = tagChallengerCount then do
    lenIs 1 v
    valid (¬(ofBE v < 1 ∨ ofBE v > maxChallengers))
    return (10, { out with challengerCount := ofBE v })
  else if tag = tagVaultCount then do
    lenIs 1 v
    valid (¬(ofBE v < 1 ∨ ofBE v > maxVaults))
    return (11, { out with vaultCount := ofBE v })
  else if tag = tagPrepeginMaxFee then do
    lenIs 8 v
    let fee := UInt64.ofNat (ofBE v)
    valid (¬(fee = 0 ∨ fee > prepeginMaxFeeLimit))
    return (12, { out with prepeginMaxFee := fee })
  else .error .unknownTag

/-- The loop of `vault_tlv_parse`, with the mask of the fields seen. -/
def tlvLoop (net : Network) : ℕ → Bytes → ℕ → VaultIntent → Except TlvErr (ℕ × VaultIntent)
  | _, [], seen, out => .ok (seen, out)
  | 0, _ :: _, _, _ => .error .overflow
  | fuel + 1, b :: data, seen, out => do
    let (tag, v, rest) ← tlvEntry (b :: data)
    let (idx, out) ← tlvField net tag v out
    if seen.testBit idx then .error .duplicateTag
    else tlvLoop net fuel rest (seen ||| 1 <<< idx) out

/-- `vault_tlv_parse`. -/
def vaultTlvParse (net : Network) (data : Bytes) (out : VaultIntent) :
    Except TlvErr VaultIntent := do
  let (seen, out) ← tlvLoop net data.length data 0 out
  if seen ≠ 2 ^ 13 - 1 then .error .missingField
  else if out.depositorPath.pick 1 ≠ out.coinType ||| hardened then .error .validation
  else return out

/-! ## Groups -/

/-- The `switch` of `vault_tlv_parse_group`. -/
def tlvGroupField (tag : ℕ) (v : Bytes) (out : VaultGroup) : Except TlvErr (ℕ × VaultGroup) :=
  if tag = tagGrpHtlcVout then do
    lenIs 1 v
    return (0, { out with htlcVout := v.headD 0 })
  else if tag = tagGrpVaultProviderPk then do
    lenIs 32 v
    return (1, { out with vaultProviderPk := Buf.ofBytes 32 v })
  else if tag = tagGrpVaultAmount then do
    lenIs 8 v
    return (2, { out with vaultAmount := UInt64.ofNat (ofBE v) })
  else if tag = tagGrpCommissionFee then do
    lenIs 8 v
    let val := UInt64.ofNat (ofBE v)
    valid (¬val < dustLimit)
    return (3, { out with commissionFee := val })
  else if tag = tagGrpDepositorClaimValue then do
    lenIs 8 v
    let val := UInt64.ofNat (ofBE v)
    valid (¬val < dustLimit)
    return (4, { out with depositorClaimValue := val })
  else if tag = tagGrpPeginMaxFee then do
    lenIs 8 v
    return (5, { out with peginMaxFee := UInt64.ofNat (ofBE v) })
  else .error .unknownTag

/-- The loop of `vault_tlv_parse_group`. `next` is the least index the next field
    may have (`last_field_idx + 1`). It stops once all six fields are present, and
    returns the mask, the group and what is left of the payload. -/
def tlvGroupLoop : ℕ → Bytes → ℕ → ℕ → VaultGroup → Except TlvErr (ℕ × VaultGroup × Bytes)
  | _, [], seen, _, out => .ok (seen, out, [])
  | 0, _ :: _, _, _, _ => .error .overflow
  | fuel + 1, b :: data, seen, next, out => do
    let (tag, v, rest) ← tlvEntry (b :: data)
    let (idx, out) ← tlvGroupField tag v out
    if idx < next then .error .duplicateTag
    else
      let seen := seen ||| 1 <<< idx
      if seen = 2 ^ 6 - 1 then .ok (seen, out, rest)
      else tlvGroupLoop fuel rest seen (idx + 1) out

/-- `vault_tlv_parse_group`; `*consumed` is what the rest falls short of `data`. -/
def vaultTlvParseGroup (data : Bytes) (out : VaultGroup) :
    Except TlvErr (VaultGroup × Bytes) := do
  let (seen, out, rest) ← tlvGroupLoop data.length data 0 0 out
  if seen ≠ 2 ^ 6 - 1 then .error .missingField
  else
    let twoDust := 2 * dustLimit
    if out.commissionFee > UInt64.ofNat (2 ^ 64 - 1) - twoDust ∨
        out.vaultAmount ≤ out.commissionFee + twoDust then .error .validation
    else return (out, rest)

end BabylonVault
