/-
  Proof of possession (`bip322.c`, `sign_psbt_validate.c` 3038-3298).

  * `bip322ParsePopMessage`: `eth:chain:pegin:registry`.
  * `bip322ComputeToSpendTxid`: the virtual transaction a message is bound to.
  * `validateDisplayPop`: the validator of a version-0 PSBT.
-/
import BabylonVault.Validate.Standalone

namespace BabylonVault
open Bytes

/-- `_is_lowercase_hex`. -/
def isLowercaseHex (c : UInt8) : Bool := (48 ≤ c && c ≤ 57) || (97 ≤ c && c ≤ 102)

/-- `_parse_eth_address`: `0x` and 40 lower-case hex digits. -/
def parseEthAddress (field : Bytes) : Option Bytes :=
  if field.length ≠ 42 then none
  else if field.take 2 ≠ ascii "0x" then none
  else if (field.drop 2).all isLowercaseHex then some field else none

/-- Split at the first colon. -/
def splitColon (msg : Bytes) : Option (Bytes × Bytes) :=
  match msg.span (· ≠ 58) with
  | (field, _ :: rest) => some (field, rest)
  | _ => none

/-- The chain id: up to 20 decimal digits without a leading zero. -/
def chainIdOk (field : Bytes) : Bool :=
  0 < field.length && field.length ≤ 20 && !(1 < field.length && field.headD 0 = 48) &&
    field.all fun c => 48 ≤ c && c ≤ 57

/-- The fields of a PoP message. -/
structure PopMessage where
  ethAddr : Bytes
  chainId : Bytes
  registry : Bytes
  deriving DecidableEq

/-- `bip322_parse_pop_message`. -/
def bip322ParsePopMessage (msg : Bytes) : Option PopMessage := do
  let (f0, rest) ← splitColon msg
  let (f1, rest) ← splitColon rest
  let (f2, f3) ← splitColon rest
  let ethAddr ← parseEthAddress f0
  if chainIdOk f1 = false then none
  else if f2 ≠ ascii "pegin" then none
  else do
    let registry ← parseEthAddress f3
    return ⟨ethAddr, f1, registry⟩

/-- The 128 bytes of `to_spend`. -/
def toSpendTx (taggedHash tweakedKey : Bytes32) : Bytes :=
  leBytes 4 0 ++ [1] ++ List.replicate 32 0 ++ leBytes 4 0xFFFFFFFF ++
    (34 :: op0 :: opPushbytes32 :: taggedHash.toList) ++ leBytes 4 0 ++
  [1] ++ leBytes 8 0 ++ (34 :: p2trSpk tweakedKey) ++ leBytes 4 0

variable (E : Env)

/-- `bip322_compute_to_spend_txid`. -/
def bip322ComputeToSpendTxid (message : Bytes) (tweakedKey : Bytes32) : Bytes32 :=
  let tagHash := (E.sha256 (ascii "BIP0322-signed-message")).toList
  let taggedHash := E.sha256 (tagHash ++ tagHash ++ message)
  doubleSha256 E (toSpendTx taggedHash tweakedKey)

/-- `BIP322_PSBT_PROP_POP_MSG_KEY`. -/
def bip322PsbtPropPopMsgKey : Bytes := [0xFC, 0x06] ++ ascii "bvault" ++ [0x00]

def bip322PopMsgMaxLen : ℕ := 112

variable (st : SignPsbtState) (s : Session)

/-- `_validate_display_pop`. -/
def validateDisplayPop : V Unit := do
  ledgerAssert (st.txVersion = 0)
  check (¬(st.nInputs ≠ 1 ∨ st.nOutputs ≠ 1)) .incorrectData
  check (¬st.locktime ≠ 0) .incorrectData
  let msg ← getValue .global bip322PsbtPropPopMsgKey bip322PopMsgMaxLen
  check (¬(msg.length = 0 ∨ msg.length > bip322PopMsgMaxLen)) .incorrectData
  let pop ← orReject (bip322ParsePopMessage msg)
  let m ← getMap .input 1 0
  checkSighashType m [sighashDefault]
  let wu ← getValue m [psbtInWitnessUtxo] 43
  check (9 ≤ wu.length) .incorrectData
  check (ofLE (wu.take 8) = 0) .incorrectData
  check (wu.length = 9 + (wu.getD 8 0).toNat ∧ (wu.getD 8 0).toNat = p2trSpkLen ∧
    wu.getD 9 0 = op1 ∧ wu.getD 10 0 = opPushbytes32) .incorrectData
  let tweakedKey : Bytes32 := Buf.slice 32 wu 11
  let internalKey ← getExact m [psbtInTapInternalKey] 32
  let internalKey : Bytes32 := Buf.ofBytes 32 internalKey
  let root : Option Bytes ← askV (.value m [psbtInTapMerkleRoot] 32)
  check (root = none) .incorrectData
  let _ ← checkLeafKey E st m internalKey
  let (_, tweaked) ← orReject (E.tweakPubkey internalKey none)
  check (tweaked = tweakedKey) .incorrectData
  check (¬(s.ctx.state = .intentLoaded ∧ internalKey ≠ s.intent.depositorPk)) .incorrectData
  let address ← addressOf E (p2trSpk tweakedKey)
  let txid ← getPreviousTxid m
  check (txid = bip322ComputeToSpendTxid E msg tweakedKey) .incorrectData
  let vout ← getField m psbtInOutputIndex
  check (vout = 0) .incorrectData
  let seq ← getField m psbtInSequence
  check (seq = 0) .incorrectData
  let out ← getMap .output 1 0
  let raw8 ← getExact out [psbtOutAmount] 8
  check (ofLE raw8 = 0) .incorrectData
  let outScript ← getValue out [psbtOutScript] 2
  check (outScript = [opReturn]) .incorrectData
  display (.pop pop.ethAddr pop.chainId pop.registry address)

end BabylonVault
