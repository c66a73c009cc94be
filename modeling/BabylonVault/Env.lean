/-
  What the application stands on: the SDK, the base app and the host.

  * `Env`: the cryptographic functions and the build's network.
  * `SignPsbtState`: what the base app has parsed of a PSBT.
  * `ReadAsk`, `DevAsk`: the calls a request makes outwards. A validator only
    reads and shows screens (`V`); a handler may also sign (`M`).
  * `Psbt`, `Psbt.Allows`: a committed PSBT, and the answers that agree with it.
-/
import BabylonVault.Intent
import BabylonVault.Lib.Prog

namespace BabylonVault
open Bytes

/-- The network the application is built for: `BIP44_COIN_TYPE` is 0 or 1. -/
inductive Network
  | mainnet | signet
  deriving DecidableEq

/-- `BIP44_COIN_TYPE`. -/
def Network.coinType : Network → UInt32
  | mainnet => 0
  | signet => 1

/-- The bytes of an ASCII string. -/
def ascii (s : String) : Bytes := s.toList.map fun c => UInt8.ofNat c.toNat

/-- `VAULT_CANONICAL_NETWORK_NAME`. -/
def Network.canonicalName : Network → Bytes
  | mainnet => ascii "bitcoin-mainnet"
  | signet => ascii "bitcoin-signet"

/-- The functions of the SDK and the base app. -/
structure Env where
  network : Network
  /-- `cx_hash_sha256`. -/
  sha256 : Bytes → Bytes32
  /-- `cx_hmac_sha256`, key first. -/
  hmacSha256 : Bytes → Bytes → Bytes32
  /-- The private key `derive_vault_privkey` finds at `m/73681862'`. -/
  vaultPrivkey : Bytes32
  /-- `cx_hkdf_extract` with SHA-256, ikm first. -/
  hkdfExtract : Bytes → Bytes → Bytes32
  /-- The hash that `crypto_tr_tapleaf_hash_init` starts. -/
  tapleafHash : Bytes → Bytes32
  /-- `crypto_tr_combine_taptree_hashes`. -/
  combineTaptreeHashes : Bytes32 → Bytes32 → Bytes32
  /-- `crypto_tr_tweak_pubkey`: parity and key; the root is `none` for a key-path tweak. -/
  tweakPubkey : Bytes32 → Option Bytes32 → Option (UInt8 × Bytes32)
  /-- `crypto_tr_lift_x` succeeds. -/
  liftX : Bytes32 → Bool
  /-- The compressed public key at a path, `none` for a path that has none. -/
  pubkeyAt : List UInt32 → Option (Buf 33)
  /-- `get_script_address`. -/
  scriptAddress : Bytes → Option String
  /-- `MAX_OUTPUT_SCRIPTPUBKEY_LEN`. -/
  maxOutputSpkLen : ℕ
  /-- The bytes that `crypto_hash_update_varint` adds to a hash. -/
  hashUpdateVarint : ℕ → Bytes

/-- The x-only key of a compressed one. -/
def xonly (pk : Buf 33) : Bytes32 := Buf.slice 32 pk.toList 1

/-- `secp256k1_p`, big-endian. -/
def secp256k1P : Bytes32 :=
  ⟨List.replicate 27 0xFF ++ [0xFE, 0xFF, 0xFF, 0xFC, 0x2F], by decide⟩

/-! ## The parsed PSBT -/

/-- What `_prepegin_policy_is_native_segwit` asks of a policy map: is it a
    `TOKEN_SH`, and its `get_policy_segwit_version`. -/
structure PolicyMap where
  isSh : Bool
  segwitVersion : ℤ

/-- `sign_psbt_state_t` and the two bit vectors that come with it. -/
structure SignPsbtState where
  nInputs : ℕ
  nOutputs : ℕ
  txVersion : UInt32
  locktime : UInt32
  masterKeyFingerprint : UInt32
  hasNoWalletPolicy : Bool
  policyMap : Option PolicyMap
  accountIsDefault : Bool
  accountBip44Purpose : UInt32
  accountBip44Account : UInt32
  inputsTotalAmount : UInt64
  outputsTotalAmount : UInt64
  internalInputs : ℕ → Bool
  internalOutputs : ℕ → Bool

/-! ## Questions to the host -/

/-- `inputs_root` or `outputs_root`. -/
inductive Side
  | input | output
  deriving DecidableEq

/-- A merkleized map of the PSBT. -/
inductive MapRef
  | global | input (i : ℕ) | output (i : ℕ)
  deriving DecidableEq

/-- The map at an index of a root. -/
def Side.map : Side → ℕ → MapRef
  | input, i => .input i
  | output, i => .output i

/-- `psbt_field_status_t`, with the value of a present field. -/
inductive FieldStatus
  | absent | error | present (v : UInt32)
  deriving DecidableEq

/-- What `call_stream_merkle_leaf_element` does with a value: the length it
    announces, the chunks it delivers, and its return value if not negative. -/
structure Streamed where
  declared : Option ℕ
  chunks : List Bytes
  rc : Option ℕ
  deriving DecidableEq

/-- The screens. -/
inductive Screen
  | deriveContextHash (appName : Bytes)
  | vaultIntent (s : Session)
  | refund (amount fee : UInt64) (timelock : UInt32) (prepeginTxid : Bytes32) (address : String)
  | claim (amountSpent connectorAmount fee : UInt64) (peginTxid : Bytes32) (address : String)
  | assert (claimTxid : Bytes32) (amountCarried fee : UInt64)
  | wc (amountReclaimed walletInputsAmount fee : UInt64) (address : String)
  | pop (ethAddr chainId registry : Bytes) (address : String)
  | payoutFinalize (amount : UInt64) (address : String) (fee : UInt64) (vaultTxid : Bytes32)
  | reclaim (amount fee : UInt64) (peginTxid : Bytes32) (address : String)

/-- A call that only reads the PSBT or shows a screen. -/
inductive ReadAsk
  /-- `call_get_merkleized_map`; false for a negative result. -/
  | map (side : Side) (size idx : ℕ)
  /-- `call_get_merkleized_map_value`; `none` for a negative result. -/
  | value (m : MapRef) (key : Bytes) (maxLen : ℕ)
  /-- The `psbt_get_input_*` reader of a 4-byte field. -/
  | field (m : MapRef) (key : UInt8)
  /-- The keys `call_get_merkleized_map_with_callback` hands out, and whether it
      ends well. -/
  | keys (side : Side) (size idx : ℕ)
  /-- `call_stream_merkle_leaf_element` on the value at an index. -/
  | stream (m : MapRef) (index : ℕ)
  /-- A display function; false when the user refuses. -/
  | show (s : Screen)

abbrev readIface : Iface where
  Ask := ReadAsk
  Ans
    | .map .. => Bool
    | .value .. => Option Bytes
    | .field .. => FieldStatus
    | .keys .. => List Bytes × Bool
    | .stream .. => Streamed
    | .show .. => Bool

/-- The arguments of `sign_sighash_schnorr_and_yield`. -/
structure SigRequest where
  inputIndex : ℕ
  path : List UInt32
  leafHash : Bytes32
  sighashType : UInt32
  sighash : Bytes32
  deriving DecidableEq

/-- The branch of `sign_custom_inputs` that asks for a signature, with the
    indices it uses; no argument of the source. -/
inductive SigKind
  | pegin (gi : ℕ)
  | payout (gi claimerIdx : ℕ)
  | nopayout (challengerIdx : ℕ)
  | standalone
  deriving DecidableEq

/-- Any call of a handler. -/
inductive DevAsk
  | read (q : ReadAsk)
  /-- What another member of the scratch union leaves behind in `derive_ctx`. -/
  | scratch
  /-- Does the SDK call made here fail? -/
  | fault
  /-- The base app signs the wallet inputs; does it fail? -/
  | walletInputs
  /-- `compute_sighash_segwitv1`. -/
  | sighash (input : ℕ) (spk : Bytes) (leafHash : Bytes32) (type : UInt32)
  /-- `sign_sighash_schnorr_and_yield`: the signature is out, whatever the answer. -/
  | yield (kind : SigKind) (r : SigRequest)

abbrev devIface : Iface where
  Ask := DevAsk
  Ans
    | .read q => readIface.Ans q
    | .scratch => DeriveCtx
    | .fault => Bool
    | .walletInputs => Bool
    | .sighash .. => Option Bytes32
    | .yield .. => Bool

/-- The validators' calls as calls of a handler. -/
def readHom : readIface.Hom devIface := ⟨.read, fun _ a => a⟩

/-- The calls that go to the host; at each of them it may walk away for good. -/
def DevAsk.hostBound : DevAsk → Bool
  | .read (.show _) | .scratch | .fault => false
  | _ => true

/-- How a function ends early. -/
inductive Stop
  /-- The status word is sent. -/
  | reject (sw : Sw)
  /-- `vault_context_invalidate` first, then the status word. -/
  | wipe (sw : Sw)
  /-- The callee has sent a status word of its own. -/
  | callee
  /-- A `LEDGER_ASSERT` failed and the application restarts. -/
  | restart
  deriving DecidableEq

/-- A validator's program: it may write only the volatile part of the state. -/
abbrev V := Prog readIface Volatile Stop

/-- A handler's program. -/
abbrev M := Prog devIface Device Stop

/-! ## A committed PSBT -/

/-- A PSBT map: its keys in order, with their values. -/
abbrev PsbtMap := List (Bytes × Bytes)

namespace PsbtMap

/-- The value of a key. -/
def find (m : PsbtMap) (key : Bytes) : Option Bytes := (m.find? (·.1 == key)).map (·.2)

/-- A 4-byte little-endian field. -/
def field (m : PsbtMap) (key : UInt8) : FieldStatus :=
  match m.find [key] with
  | none => .absent
  | some v => if v.length = 4 then .present (UInt32.ofNat (ofLE v)) else .error

end PsbtMap

/-- The maps the host has committed to. -/
structure Psbt where
  globalMap : PsbtMap
  inputs : List PsbtMap
  outputs : List PsbtMap

namespace Psbt
variable (p : Psbt)

/-- A map of the PSBT. -/
def map : MapRef → PsbtMap
  | .global => p.globalMap
  | .input i => p.inputs.getD i []
  | .output i => p.outputs.getD i []

/-- The maps under a root. -/
def side : Side → List PsbtMap
  | .input => p.inputs
  | .output => p.outputs

/-- Answers that agree with the committed maps. A failure is always possible; a
    value longer than its buffer is one, and a map is found only under its root's
    true size. -/
def Allows : ∀ q, readIface.Ans q → Prop
  | .map side size idx, ok =>
    (ok : Bool) = true → size = (p.side side).length ∧ idx < size
  | .value m key maxLen, v =>
    ∀ b : Bytes, (v : Option Bytes) = some b → (p.map m).find key = some b ∧ b.length ≤ maxLen
  | .field m key, f => (f : FieldStatus) = .error ∨ f = (p.map m).field key
  | .keys side size idx, r =>
    (r : List Bytes × Bool).2 = true → size = (p.side side).length ∧ idx < size ∧
      r.1 = (p.map (side.map idx)).map (·.1)
  | .stream m i, r => ∀ n, (r : Streamed).rc = some n →
    ∃ kv, (p.map m)[i]? = some kv ∧ kv.2.length = n ∧
      r.declared = some n ∧ r.chunks.flatten = kv.2
  | .show _, _ => True

/-- The same for the calls of a handler. -/
def AllowsDev : ∀ q, devIface.Ans q → Prop
  | .read q, a => p.Allows q a
  | _, _ => True

end Psbt

end BabylonVault
