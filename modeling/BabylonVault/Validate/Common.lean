/-
  What the validators share.

  * `refundVerifyTaprootCommitment`: the leaf last read is committed to by a
    P2TR scriptPubKey with the NUMS internal key.
  * `readDerivation`: a key's BIP-32 record, its BIP-86 path and the key there.
  * `bip86P2trSpk`: the key-path-only scriptPubKey of a key.
-/
import BabylonVault.Leaf
import BabylonVault.Helpers

namespace BabylonVault
open Bytes

variable (E : Env)

/-- The 32-byte steps of a control block behind the internal key. -/
def controlBlockSteps : ℕ → Bytes → List Bytes32
  | 0, _ => []
  | n + 1, b => Buf.ofBytes 32 b :: controlBlockSteps n (b.drop 32)

/-- The merkle root a control block leads to from a leaf hash. -/
def controlBlockRoot (cb : Bytes) (leafHash : Bytes32) : Bytes32 :=
  (controlBlockSteps ((cb.length - 33) / 32) (cb.drop 33)).foldl E.combineTaptreeHashes leafHash

/-- `_refund_verify_taproot_commitment`. -/
def refundVerifyTaprootCommitment (tls : Tls) (spk : Bytes) : V Unit := do
  let cb := tls.controlBlock
  check (33 ≤ cb.length) .incorrectData
  check ((cb.drop 1).take 32 = vaultNumsXonly.toList) .incorrectData
  let lm ← leafMeta
  let (parity, tweaked) ← orReject
    (E.tweakPubkey vaultNumsXonly (some (controlBlockRoot E cb lm.hash)))
  check (cb.headD 0 &&& 1 = parity) .incorrectData
  check (spk = p2trSpk tweaked) .incorrectData

/-- `_bip86_p2tr_spk`. -/
def bip86P2trSpk (xonlyKey : Bytes32) : Option Bytes :=
  (E.tweakPubkey xonlyKey none).map fun r => p2trSpk r.2

/-- `_spk_is_bip86_p2tr_of`. -/
def spkIsBip86P2trOf (spk : Bytes) (xonlyKey : Bytes32) : Bool :=
  bip86P2trSpk E xonlyKey = some spk

variable (st : SignPsbtState)

/-- The TAP_BIP32_DERIVATION record of a key: a BIP-86 path of this device, and
    the x-only key at it. -/
def readDerivation (m : MapRef) (keyType : UInt8) (key : Bytes32) :
    V (List UInt32 × Bytes32) := do
  let val ← getValue m (keyType :: key.toList) 89
  let (fingerprint, path) ← orReject (parseTapBip32DerivValue val 5)
  check (fingerprint = st.masterKeyFingerprint) .incorrectData
  check (checkBip86Path E.network path) .incorrectData
  let pk ← orReject (E.pubkeyAt path)
  return (path, xonly pk)

/-- The record of a leaf's own key: the key is the device's. -/
def checkLeafKey (m : MapRef) (leafKey : Bytes32) : V (List UInt32) := do
  let (path, key) ← readDerivation E st m psbtInTapBip32Derivation leafKey
  check (key = leafKey) .incorrectData
  return path

/-- `_require_sequence_final`: absent counts as final. -/
def requireSequenceFinal (m : MapRef) : V Unit := do
  let f : FieldStatus ← askV (.field m psbtInSequence)
  match f with
  | .absent => return ()
  | .present seq => check (seq = sequenceFinal) .incorrectData
  | .error => reject .incorrectData

/-- A 32-byte txid of an input. -/
def getPreviousTxid (m : MapRef) : V Bytes32 := do
  let txid ← getExact m [psbtInPreviousTxid] 32
  return Buf.ofBytes 32 txid

/-- A screen; a refusal has sent its status word. -/
def display (s : Screen) : V Unit := do
  let ok : Bool ← askV (.show s)
  check (ok = true) .deny

/-- `vault_context_invalidate`, then `SW_CAP_EXCEEDED`, when the cap is reached. -/
def checkCap (c : Prop) [Decidable c] : V Unit := Prog.require c (.wipe .capExceeded)

/-- `UINT64_MAX`. -/
def uint64Max : UInt64 := 0xFFFFFFFFFFFFFFFF

/-- A sum of amounts, rejected when it wraps. -/
def addChecked (a b : UInt64) : V UInt64 := do
  check (¬a + b < a) .incorrectData
  return a + b

end BabylonVault
