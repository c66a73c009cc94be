/-
  Script and transaction builders (`vault_script.c`).

  A builder returns the bytes it wrote, or `none` where the source returns -1
  because the buffer is too small or an index is out of range.

  * `vaultBuild*Leaf`: the tapscript leaves of the protocol.
  * `vaultAssertPrefixByte`: the Assert signer prefix, read off byte by byte.
  * `vaultBuild*Scriptpubkey`, `vaultComputePeginTxid`: what follows from them.
-/
import BabylonVault.Env

namespace BabylonVault
open Bytes

/-! ## Pushes -/

/-- `_varint_write`. -/
def varintWrite (v : ℕ) : Bytes :=
  if v < 0xFD then leBytes 1 v
  else if v ≤ 0xFFFF then 0xFD :: leBytes 2 v
  else if v ≤ 0xFFFFFFFF then 0xFE :: leBytes 4 v
  else 0xFF :: leBytes 8 v

/-- The little-endian bytes of a 32-bit number, without leading zeros. -/
def numBytes : ℕ → ℕ → Bytes
  | 0, _ => []
  | n + 1, v => if v = 0 then [] else UInt8.ofNat v :: numBytes n (v / 256)

/-- `_push_number`. -/
def pushNumber (value : ℕ) : Bytes :=
  if value = 0 then [op0]
  else if value ≤ 16 then [op1 - 1 + UInt8.ofNat value]
  else
    let tmp := numBytes 4 value
    let tmp := if tmp.getLastD 0 &&& 0x80 ≠ 0 then tmp ++ [0] else tmp
    UInt8.ofNat tmp.length :: tmp

/-- `OP_PUSHBYTES_32 <key> <op>`: one entry of a signer list. -/
def keyEntry (key : Bytes32) (op : UInt8) : Bytes := opPushbytes32 :: key.toList ++ [op]

/-- Write `piece` behind `buf`, given room for `need` more bytes. -/
def emit (bufMax need : ℕ) (piece buf : Bytes) : Option Bytes :=
  if buf.length + need > bufMax then none else some (buf ++ piece)

/-- The fragment `encode_multisig_group` writes for a key list. -/
def multisigGroup (keys : List Bytes32) (op : UInt8) : Bytes :=
  match keys with
  | [] => []
  | key :: rest =>
    keyEntry key opChecksig ++ rest.flatMap (keyEntry · opChecksigadd) ++
      pushNumber keys.length ++ [op]

/-- `encode_multisig_group` behind `buf`. -/
def encodeMultisigGroup (keys : List Bytes32) (isFinal : Bool) (bufMax : ℕ) (buf : Bytes) :
    Option Bytes :=
  if keys.length = 0 then none
  else emit bufMax (keys.length * 34 + 6)
    (multisigGroup keys (if isFinal then opNumequal else opNumequalverify)) buf

/-! ## Hashes -/

variable (E : Env)

/-- The bytes hashed for a TapLeaf, before the script itself. -/
def tapleafHeader (scriptLen : ℕ) : Bytes := tapscriptLeafVersion :: varintWrite scriptLen

/-- `vault_taproot_leaf_hash`. -/
def vaultTaprootLeafHash (script : Bytes) : Bytes32 :=
  E.tapleafHash (tapleafHeader script.length ++ script)

/-- `VAULT_NUMS_XONLY`. -/
def vaultNumsXonly : Bytes32 :=
  ⟨[0x50, 0x92, 0x9B, 0x74, 0xC1, 0xA0, 0x49, 0x54, 0xB7, 0x8B, 0x4B, 0x60, 0x35, 0xE9, 0x7A,
    0x5E, 0x07, 0x8A, 0x5A, 0x0F, 0x28, 0xEC, 0x96, 0xD5, 0x47, 0xBF, 0xEE, 0x9A, 0xCE, 0x80,
    0x3A, 0xC0], rfl⟩

/-- The P2TR scriptPubKey of an output key. -/
def p2trSpk (key : Bytes32) : Bytes := op1 :: opPushbytes32 :: key.toList

theorem length_p2trSpk {key : Bytes32} : (p2trSpk key).length = p2trSpkLen :=
  congrArg (· + 2) key.toList_length

/-- `vault_taproot_tweak_scriptpubkey`. -/
def vaultTaprootTweakScriptpubkey (merkleRoot : Bytes32) : Option Bytes :=
  (E.tweakPubkey vaultNumsXonly (some merkleRoot)).map fun r => p2trSpk r.2

/-! ## Leaf scripts -/

variable (it : VaultIntent)

/-- `vault_build_depositor_claim_leaf`. -/
def vaultBuildDepositorClaimLeaf (bufMax : ℕ) : Option Bytes :=
  emit bufMax 34 (keyEntry it.depositorPk opChecksig) []

/-- `vault_build_htlc_leaf1`. -/
def vaultBuildHtlcLeaf1 (bufMax : ℕ) : Option Bytes :=
  emit bufMax 38 (keyEntry it.depositorPk opChecksigverify ++
    pushNumber it.htlcRefundTimelock ++ [opCsv]) []

/-- `vault_build_vault_utxo_leaf`. -/
def vaultBuildVaultUtxoLeaf (groupIdx bufMax : ℕ) : Option Bytes :=
  if groupIdx ≥ it.vaultCount then none
  else do
    let buf ← emit bufMax 34 (keyEntry it.depositorPk opChecksigverify) []
    let buf ← emit bufMax 34 (keyEntry (it.group groupIdx).vaultProviderPk opChecksigverify) buf
    let buf ← encodeMultisigGroup it.keepers false bufMax buf
    let buf ← encodeMultisigGroup it.challengers false bufMax buf
    emit bufMax 6 (pushNumber it.peginCsvTimelock ++ [opCsv]) buf

/-- `vault_build_htlc_leaf0`. -/
def vaultBuildHtlcLeaf0 (groupIdx : ℕ) (h : Bytes32) (bufMax : ℕ) : Option Bytes :=
  if groupIdx ≥ it.vaultCount then none
  else do
    let buf ← emit bufMax 4 (opSize :: pushNumber 32 ++ [opEqualverify]) []
    let buf ← emit bufMax 35 (opSha256 :: keyEntry h opEqualverify) buf
    let buf ← emit bufMax 34 (keyEntry it.depositorPk opChecksigverify) buf
    let buf ← emit bufMax 34 (keyEntry (it.group groupIdx).vaultProviderPk opChecksigverify) buf
    let buf ← encodeMultisigGroup it.keepers false bufMax buf
    encodeMultisigGroup it.challengers true bufMax buf

/-- The merge of `vp` into the sorted keys: before the first that is greater. -/
def insertVp (vp : Bytes32) : List Bytes32 → List Bytes32
  | [] => [vp]
  | key :: rest =>
    if memcmp vp.toList key.toList = .lt then vp :: key :: rest else key :: insertVp vp rest

/-- `build_app_challengers`. -/
def buildAppChallengers (groupIdx claimerIdx : ℕ) : List Bytes32 :=
  if claimerIdx = 0 ∨ claimerIdx = it.keeperCount + 1 then it.keepers
  else insertVp (it.group groupIdx).vaultProviderPk (it.keepers.eraseIdx (claimerIdx - 1))

/-- The key of a claimer: the vault provider, a keeper or the depositor. -/
def claimerPk (groupIdx claimerIdx : ℕ) : Bytes32 :=
  if claimerIdx = 0 then (it.group groupIdx).vaultProviderPk
  else if claimerIdx = it.keeperCount + 1 then it.depositorPk
  else it.keeperPks.pick (claimerIdx - 1)

/-- `vault_build_assert0_payout_leaf`. -/
def vaultBuildAssert0PayoutLeaf (groupIdx claimerIdx bufMax : ℕ) : Option Bytes :=
  if groupIdx ≥ it.vaultCount then none
  else if claimerIdx > it.keeperCount + 1 then none
  else do
    let buf ← emit bufMax 34 (keyEntry (claimerPk it groupIdx claimerIdx) opChecksigverify) []
    let buf ← encodeMultisigGroup (buildAppChallengers it groupIdx claimerIdx) false bufMax buf
    let buf ← encodeMultisigGroup it.challengers false bufMax buf
    emit bufMax 6 (pushNumber it.payoutTimelock ++ [opCsv]) buf

/-- The challenger at an index: the keepers first, then the universal challengers. -/
def challengerPk (challengerIdx : ℕ) : Bytes32 :=
  if challengerIdx < it.keeperCount then it.keeperPks.pick challengerIdx
  else it.challengerPks.pick (challengerIdx - it.keeperCount)

/-- `vault_build_nopayout_leaf`. -/
def vaultBuildNopayoutLeaf (challengerIdx bufMax : ℕ) : Option Bytes :=
  if challengerIdx ≥ it.keeperCount + it.challengerCount then none
  else emit bufMax 68 (keyEntry it.depositorPk opChecksigverify ++
    keyEntry (challengerPk it challengerIdx) opChecksig) []

/-! ## The Assert signer prefix -/

/-- `_multisig_group_len`. -/
def multisigGroupLen (keyCount : ℕ) : ℕ := 34 * keyCount + (pushNumber keyCount).length + 1

/-- `vault_assert_prefix_len`. -/
def vaultAssertPrefixLen : Option ℕ :=
  if it.keeperCount = 0 ∨ it.challengerCount = 0 then none
  else some (34 + multisigGroupLen it.keeperCount + multisigGroupLen it.challengerCount)

/-- One group of `vault_assert_prefix_byte`: a byte of the group, or what is left
    of the offset behind it. -/
def prefixGroupByte (keys : ℕ → Bytes32) (count off : ℕ) : UInt8 ⊕ ℕ :=
  if off < 34 * count then
    let i := off / 34
    let k := off % 34
    if k = 0 then .inl opPushbytes32
    else if k < 33 then .inl ((keys i).toList.getD (k - 1) 0)
    else .inl (if i = 0 then opChecksig else opChecksigadd)
  else
    let num := pushNumber count
    let off := off - 34 * count
    if off < num.length then .inl (num.getD off 0)
    else if off = num.length then .inl opNumequalverify
    else .inr (off - num.length - 1)

/-- `vault_assert_prefix_byte`. -/
def vaultAssertPrefixByte (off : ℕ) : Option UInt8 :=
  if it.keeperCount = 0 ∨ it.challengerCount = 0 then none
  else if off = 0 then some opPushbytes32
  else if off < 33 then some (it.depositorPk.toList.getD (off - 1) 0)
  else if off = 33 then some opChecksigverify
  else match prefixGroupByte it.keeperPks.pick it.keeperCount (off - 34) with
    | .inl b => some b
    | .inr off => match prefixGroupByte it.challengerPks.pick it.challengerCount off with
      | .inl b => some b
      | .inr _ => none

/-! ## Derived outputs -/

/-- `vault_build_htlc_merkle_root`. -/
def vaultBuildHtlcMerkleRoot (groupIdx : ℕ) (h : Bytes32) : Option Bytes32 := do
  let leaf0 ← vaultBuildHtlcLeaf0 it groupIdx h scriptMaxLen
  let leaf1 ← vaultBuildHtlcLeaf1 it scriptMaxLen
  return E.combineTaptreeHashes (vaultTaprootLeafHash E leaf0) (vaultTaprootLeafHash E leaf1)

/-- `vault_build_htlc_scriptpubkey`. -/
def vaultBuildHtlcScriptpubkey (groupIdx : ℕ) (h : Bytes32) : Option Bytes := do
  let root ← vaultBuildHtlcMerkleRoot E it groupIdx h
  vaultTaprootTweakScriptpubkey E root

/-- `vault_build_vault_utxo_scriptpubkey`. -/
def vaultBuildVaultUtxoScriptpubkey (groupIdx : ℕ) : Option Bytes := do
  let leaf ← vaultBuildVaultUtxoLeaf it groupIdx scriptMaxLen
  vaultTaprootTweakScriptpubkey E (vaultTaprootLeafHash E leaf)

/-- `vault_build_depositor_claim_scriptpubkey`. -/
def vaultBuildDepositorClaimScriptpubkey : Option Bytes := do
  let leaf ← vaultBuildDepositorClaimLeaf it p2trSpkLen
  vaultTaprootTweakScriptpubkey E (vaultTaprootLeafHash E leaf)

/-- `P2A_SCRIPT`: `OP_1 OP_PUSHBYTES_2 4e73`. -/
def p2aScript : Bytes := [op1, opPushbytes2, 0x4E, 0x73]

/-- The 150 bytes `vault_compute_pegin_txid` hashes. -/
def peginTx (groupIdx : ℕ) (vaultSpk claimSpk : Bytes) : Bytes :=
  leBytes 4 peginTxVersion.toNat ++
  leBytes 1 1 ++ it.prepeginTxid.toList ++ leBytes 4 (it.group groupIdx).htlcVout.toNat ++
    leBytes 1 0 ++ leBytes 4 peginTxSequence.toNat ++
  leBytes 1 3 ++
  leBytes 8 (it.group groupIdx).vaultAmount.toNat ++ leBytes 1 p2trSpkLen ++ vaultSpk ++
  leBytes 8 (it.group groupIdx).depositorClaimValue.toNat ++ leBytes 1 p2trSpkLen ++ claimSpk ++
  leBytes 8 p2aAnchorValue.toNat ++ leBytes 1 4 ++ p2aScript ++
  leBytes 4 0

/-- SHA-256 twice. -/
def doubleSha256 (b : Bytes) : Bytes32 := E.sha256 (E.sha256 b).toList

/-- `vault_compute_pegin_txid`. -/
def vaultComputePeginTxid (groupIdx : ℕ) : Option Bytes32 := do
  let vaultSpk ← vaultBuildVaultUtxoScriptpubkey E it groupIdx
  let claimSpk ← vaultBuildDepositorClaimScriptpubkey E it
  return doubleSha256 E (peginTx it groupIdx vaultSpk claimSpk)

end BabylonVault
