/-
  Constants of the application: status words, protocol limits, TLV tags,
  script opcodes and PSBT key types, with the source's values.
-/
import Mathlib.Tactic

namespace BabylonVault

/-! ## Status words -/

/-- The status words the handlers send. -/
inductive Sw
  | ok | deny | incorrectData | wrongP1P2 | wrongDataLength | badState
  | badCpfpAnchor | capExceeded | bip32Fail
  deriving DecidableEq, Repr

/-! ## Protocol limits (`vault_constants.h`, `vault_intent.h`, `vault_context.h`) -/

def structureType : UInt8 := 0x01
def protocolVersion : UInt8 := 0x01
def dustLimit : UInt64 := 546
def p2aAnchorValue : UInt64 := 240
def prepeginMaxFeeLimit : UInt64 := 100000000
def baseFeeRateMax : UInt64 := 10000
def timelockMin : ℕ := 72
def timelockMax : ℕ := 1008
def htlcRefundTimelockMax : ℕ := 4320
def payoutTimelockMin : ℕ := 90
def payoutTimelockMax : ℕ := 4032

abbrev maxVaults : ℕ := 10
abbrev maxKeepers : ℕ := 32
abbrev maxChallengers : ℕ := 32
abbrev depositorPathLen : ℕ := 5
abbrev fingerprintLen : ℕ := 4
/-- `VAULT_PAYOUT_SLOT_COUNT` bits, in bytes. -/
abbrev payoutMaskLen : ℕ := 43
/-- `VAULT_MAX_VAULTS` bits, in bytes. -/
abbrev groupMaskLen : ℕ := 2
def appNameMaxLen : ℕ := 64
def contextMaxLen : ℕ := 1024
def maxPathDepth : ℕ := 10

/-- `BIP32_FIRST_HARDENED_CHILD`. -/
def hardened : UInt32 := 0x80000000
def bip86Purpose : UInt32 := 86
def bip86MaxAccount : UInt32 := 100
def bip86MaxAddressIndex : UInt32 := 10000

def sequenceFinal : UInt32 := 0xFFFFFFFF
def peginTxSequence : UInt32 := 0xFFFFFFFE
def reclaimSequence : UInt32 := 0xFFFFFFFD
def peginTxVersion : UInt32 := 3
def bip68SequenceMask : UInt32 := 0x0000FFFF
def bip68DisableFlag : UInt32 := 0x80000000
def bip68TimeBasedFlag : UInt32 := 0x00400000

def sighashDefault : UInt32 := 0
def sighashAll : UInt32 := 1

def scriptMaxLen : ℕ := 2560
def assertScriptMaxLen : ℕ := 16384
def leafPrefixLen : ℕ := 68
/-- `1 + 32 + VAULT_MAX_TAPTREE_DEPTH * 32`, the room for a control block. -/
def controlBlockMaxLen : ℕ := 257
def p2trSpkLen : ℕ := 34
def payoutSpkMinLen : ℕ := 22
def depositorClaimLeafLen : ℕ := 34
def nopayoutLeafLen : ℕ := 68
/-- Offset of the opcode that opens the first signer group of a leaf. -/
def leafGroup0PushOff : ℕ := 34
/-- Offset of the opcode that closes the first key of that group. -/
def leafGroup0OpOff : ℕ := 67

/-! ## TLV tags (`vault_intent_tags.h`) -/

def tagStructureType : ℕ := 0x0001
def tagVersion : ℕ := 0x0002
def tagCoinType : ℕ := 0x0021
def tagPrepeginTxid : ℕ := 0x0027
def tagDepositorDerivationPath : ℕ := 0x0069
def tagBaseFeeRate : ℕ := 0x0100
def tagPeginCsvTimelock : ℕ := 0x0101
def tagPayoutTimelock : ℕ := 0x0102
def tagHtlcRefundTimelock : ℕ := 0x0103
def tagKeeperCount : ℕ := 0x0104
def tagChallengerCount : ℕ := 0x0105
def tagVaultCount : ℕ := 0x0106
def tagKeeperPk : ℕ := 0x0107
def tagChallengerPk : ℕ := 0x0108
def tagGrpHtlcVout : ℕ := 0x0109
def tagGrpVaultProviderPk : ℕ := 0x010A
def tagGrpVaultAmount : ℕ := 0x010B
def tagGrpCommissionFee : ℕ := 0x010C
def tagGrpDepositorClaimValue : ℕ := 0x010D
def tagGrpPeginMaxFee : ℕ := 0x010E
def tagPrepeginMaxFee : ℕ := 0x010F

/-! ## Script opcodes -/

def op0 : UInt8 := 0x00
def opPushbytes1 : UInt8 := 0x01
def opPushbytes2 : UInt8 := 0x02
def opPushbytes32 : UInt8 := 0x20
def opPushbytes75 : UInt8 := 0x4B
def opPushdata1 : UInt8 := 0x4C
def opReserved : UInt8 := 0x50
def op1 : UInt8 := 0x51
def opTrue : UInt8 := 0x51
def op16 : UInt8 := 0x60
def opReturn : UInt8 := 0x6A
def opSize : UInt8 := 0x82
def opEqual : UInt8 := 0x87
def opEqualverify : UInt8 := 0x88
def opNumequal : UInt8 := 0x9C
def opNumequalverify : UInt8 := 0x9D
def opSha256 : UInt8 := 0xA8
def opChecksig : UInt8 := 0xAC
def opChecksigverify : UInt8 := 0xAD
def opCsv : UInt8 := 0xB2
def opChecksigadd : UInt8 := 0xBA
def tapscriptLeafVersion : UInt8 := 0xC0

/-! ## PSBT key types -/

def psbtInWitnessUtxo : UInt8 := 0x01
def psbtInSighashType : UInt8 := 0x03
def psbtInPreviousTxid : UInt8 := 0x0E
def psbtInOutputIndex : UInt8 := 0x0F
def psbtInSequence : UInt8 := 0x10
def psbtInTapLeafScript : UInt8 := 0x15
def psbtInTapBip32Derivation : UInt8 := 0x16
def psbtInTapInternalKey : UInt8 := 0x17
def psbtInTapMerkleRoot : UInt8 := 0x18
def psbtOutAmount : UInt8 := 0x03
def psbtOutScript : UInt8 := 0x04
def psbtOutTapBip32Derivation : UInt8 := 0x07

end BabylonVault
