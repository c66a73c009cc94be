/-
  The application's state (`vault_intent.h`, `vault_context.h`, `globals.h`).

  * `VaultIntent`, `VaultGroup`: the approved parameters.
  * `VaultContext`, `Transient`: `vault_context_t`. Its four fields that only
    carry a value from the validator to the signer of one request are kept apart
    as `Transient`; `vault_group_index` also counts groups during the load.
  * `Session`: what a request may change only as a whole.
  * `Device`: every global of the application.
-/
import BabylonVault.Constants
import BabylonVault.Lib.Buf

namespace BabylonVault

/-- A 32-byte string: an x-only key, a hash or a txid. -/
abbrev Bytes32 := Buf 32

/-- `vault_group_t`. -/
structure VaultGroup where
  htlcVout : UInt8
  vaultProviderPk : Bytes32
  vaultAmount : UInt64
  commissionFee : UInt64
  depositorClaimValue : UInt64
  peginMaxFee : UInt64
  deriving DecidableEq

instance : Inhabited VaultGroup := ⟨⟨0, Buf.zero 32, 0, 0, 0, 0⟩⟩

/-- `vault_intent_t`. -/
structure VaultIntent where
  structureType : UInt8
  version : UInt8
  coinType : UInt32
  peginCsvTimelock : ℕ
  htlcRefundTimelock : ℕ
  payoutTimelock : ℕ
  keeperCount : ℕ
  challengerCount : ℕ
  vaultCount : ℕ
  depositorPath : List.Vector UInt32 depositorPathLen
  depositorPk : Bytes32
  baseFeeRate : UInt64
  prepeginTxid : Bytes32
  prepeginMaxFee : UInt64
  groups : List.Vector VaultGroup maxVaults
  keeperPks : List.Vector Bytes32 maxKeepers
  challengerPks : List.Vector Bytes32 maxChallengers
  deriving DecidableEq

/-- All zero. -/
def VaultIntent.zero : VaultIntent :=
  { structureType := 0, version := 0, coinType := 0, peginCsvTimelock := 0,
    htlcRefundTimelock := 0, payoutTimelock := 0, keeperCount := 0, challengerCount := 0,
    vaultCount := 0, depositorPath := .replicate _ 0, depositorPk := Buf.zero 32,
    baseFeeRate := 0, prepeginTxid := Buf.zero 32, prepeginMaxFee := 0,
    groups := .replicate _ default, keeperPks := .replicate _ default,
    challengerPks := .replicate _ default }

namespace VaultIntent
variable (it : VaultIntent)

/-- `groups[g]`. -/
def group (g : ℕ) : VaultGroup := it.groups.pick g

/-- `keeper_pks[0..keeper_count)`. -/
def keepers : List Bytes32 := it.keeperPks.upto it.keeperCount

/-- `challenger_pks[0..challenger_count)`. -/
def challengers : List Bytes32 := it.challengerPks.upto it.challengerCount

end VaultIntent

/-- `vault_state_t`. -/
inductive VaultState
  | idle | hashDerived | intentLoaded
  deriving DecidableEq, Repr

/-- `vault_context_t` without its transient fields. `derivation_path` and
    `app_name` are lists that carry their length. -/
structure VaultContext where
  root : Bytes32
  htlcHashlock : List.Vector Bytes32 maxVaults
  authAnchorHash : Bytes32
  state : VaultState
  prePeginSigned : ℕ
  peginSigned : ℕ
  payoutSigned : ℕ
  nopayoutSigned : ℕ
  payoutClaimerMask : Bytes
  peginGroupMask : Bytes
  derivationPath : List UInt32
  appName : Bytes
  contextFp : Buf fingerprintLen
  intentFp : Buf fingerprintLen
  deriving DecidableEq

/-- All zero, in state `IDLE`. -/
def VaultContext.zero : VaultContext :=
  { root := Buf.zero 32, htlcHashlock := .replicate _ default, authAnchorHash := Buf.zero 32,
    state := .idle, prePeginSigned := 0, peginSigned := 0, payoutSigned := 0, nopayoutSigned := 0,
    payoutClaimerMask := List.replicate payoutMaskLen 0,
    peginGroupMask := List.replicate groupMaskLen 0,
    derivationPath := [], appName := [], contextFp := Buf.zero 4, intentFp := Buf.zero 4 }

/-- The transient fields of `vault_context_t`. -/
structure Transient where
  vaultGroupIndex : ℕ
  payoutIndex : ℕ
  nopayoutChallengerIndex : ℕ
  isPayoutSigning : Bool
  deriving DecidableEq

def Transient.zero : Transient := ⟨0, 0, 0, false⟩

/-- `approve_intent_state_t`; the hash is the bytes absorbed so far. -/
structure ApproveIntentState where
  scalarsLoaded : Bool
  keysReceived : ℕ
  intentHash : Bytes
  deriving DecidableEq

def ApproveIntentState.zero : ApproveIntentState := ⟨false, 0, []⟩

/-- `derive_streaming_state_t`. -/
structure DeriveStreamingState where
  streamingInProgress : Bool
  p2Mode : UInt8
  contextTotalLen : ℕ
  contextReceivedLen : ℕ
  deriving DecidableEq

def DeriveStreamingState.zero : DeriveStreamingState := ⟨false, 0, 0, 0⟩

/-- `derive_context_hash_scratch_t`, a member of the scratch union. The path and
    the name carry their lengths, the context buffer what was received. -/
structure DeriveCtx where
  appNameBuf : Bytes
  path : List UInt32
  contextBuf : Bytes
  deriving DecidableEq

def DeriveCtx.zero : DeriveCtx := ⟨[], [], []⟩

/-- `vault_leaf_meta_t`. -/
structure LeafMeta where
  buffered : Bool
  lastByte : UInt8
  pfx : Buf 68
  assertPrefixOk : Bool
  hash : Bytes32
  deriving DecidableEq

def LeafMeta.zero : LeafMeta := ⟨false, 0, Buf.zero 68, false, Buf.zero 32⟩

/-- What a validator reads and never changes. -/
structure Session where
  ctx : VaultContext
  intent : VaultIntent
  deriving DecidableEq

/-- What a validator may change. -/
structure Volatile where
  tr : Transient
  leaf : LeafMeta
  deriving DecidableEq

/-- The globals of the application. -/
structure Device where
  ctx : VaultContext
  intent : VaultIntent
  approve : ApproveIntentState
  streaming : DeriveStreamingState
  deriveCtx : DeriveCtx
  tr : Transient
  leaf : LeafMeta
  deriving DecidableEq

namespace Device

/-- The globals at boot. -/
def boot : Device :=
  ⟨.zero, .zero, .zero, .zero, .zero, .zero, .zero⟩

def session (d : Device) : Session := ⟨d.ctx, d.intent⟩
def volatile (d : Device) : Volatile := ⟨d.tr, d.leaf⟩
def setVolatile (v : Volatile) (d : Device) : Device := { d with tr := v.tr, leaf := v.leaf }

end Device

end BabylonVault
