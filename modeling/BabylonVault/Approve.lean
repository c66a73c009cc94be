/-
  APPROVE_VAULT_INTENT (`approve_vault_intent.c`, `approve_vault_intent_core.h`,
  `derive_vault_secrets_core.h`).

  * `handleScalarPayload`, `handleGroupPayload`, `handleKeyBatch`: the phases
    P1 = 0, 1, 2 of a load.
  * `vaultValidateAndStoreKey`, `vaultCheckDepositorUniqueness`: the key checks.
  * `finishIntent`: what follows the last key, up to the user's approval.
-/
import BabylonVault.Context
import BabylonVault.Tlv

namespace BabylonVault
open Bytes

variable (E : Env)

/-! ## Keys -/

/-- `vault_xonly_key_is_canonical`. -/
def vaultXonlyKeyIsCanonical (x : Bytes32) : Bool := memcmp x.toList secp256k1P.toList = .lt

/-- A host-supplied key must be canonical and lift to a curve point. -/
def keyOk (x : Bytes32) : Bool := vaultXonlyKeyIsCanonical x && E.liftX x

/-- The key stored at a global index: keepers first, then challengers. -/
def storedKey (it : VaultIntent) (j : ℕ) : Bytes32 :=
  if j < it.keeperCount then it.keeperPks.pick j else it.challengerPks.pick (j - it.keeperCount)

/-- The lexicographic check of `vault_validate_and_store_key`: only from the
    second key of a role on. -/
def keyInOrder (it : VaultIntent) (idx : ℕ) (key : Bytes32) : Bool :=
  idx = 0 || idx = it.keeperCount ||
    memcmp key.toList (storedKey it (idx - 1)).toList = .gt

/-- `vault_validate_and_store_key`; `none` for any of its errors. -/
def vaultValidateAndStoreKey (it : VaultIntent) (idx : ℕ) (key : Bytes32) :
    Option VaultIntent :=
  if keyInOrder it idx key = false then none
  else if (List.range it.vaultCount).any fun g => key = (it.group g).vaultProviderPk then none
  else if (List.range idx).any fun j => key = storedKey it j then none
  else if idx < it.keeperCount then
    some { it with keeperPks := it.keeperPks.put idx key }
  else
    some { it with challengerPks := it.challengerPks.put (idx - it.keeperCount) key }

/-- `vault_check_depositor_uniqueness`. -/
def vaultCheckDepositorUniqueness (it : VaultIntent) (depositor : Bytes32) : Bool :=
  !((List.range it.vaultCount).any fun g => depositor = (it.group g).vaultProviderPk) &&
    !(it.keepers.any fun k => depositor = k) && !(it.challengers.any fun k => depositor = k)

/-! ## Commitments -/

/-- `VS_DOMAIN_TAG`. -/
def vsDomainTag : Bytes := ascii "babylonbtcvault"

/-- The HKDF info of a vault secret, with the block counter. -/
def expandInfo (label ctx : Bytes) : Bytes :=
  vsDomainTag ++ [UInt8.ofNat label.length] ++ label ++
    [UInt8.ofNat (ctx.length / 256), UInt8.ofNat ctx.length] ++ ctx ++ [0x01]

/-- `vault_expand_commitment`. -/
def vaultExpandCommitment (root : Bytes32) (label ctx : Bytes) : Bytes32 :=
  E.sha256 (E.hmacSha256 root.toList (expandInfo label ctx)).toList

/-- `vault_derive_hashlock_commitment`. -/
def vaultDeriveHashlockCommitment (root : Bytes32) (htlcVout : UInt8) : Bytes32 :=
  vaultExpandCommitment E root (ascii "hashlock") [0, 0, 0, htlcVout]

/-- `vault_derive_auth_anchor_commitment`. -/
def vaultDeriveAuthAnchorCommitment (root : Bytes32) : Bytes32 :=
  vaultExpandCommitment E root (ascii "auth-anchor") []

/-! ## The three phases -/

/-- `_absorb_intent_apdu`; an empty payload makes no call. -/
def absorbIntentApdu (data : Bytes) : M Unit :=
  if data = [] then pure ()
  else do
    callM .badState
    Prog.modify fun d =>
      { d with approve := { d.approve with intentHash := d.approve.intentHash ++ data } }

/-- The context reset of a P1=0x00: the root, the path, the name and the root's
    fingerprint are carried over. -/
def restartLoad (d : Device) : Device :=
  let w := vaultContextInvalidate d
  { w with ctx := { w.ctx with root := d.ctx.root, derivationPath := d.ctx.derivationPath,
                               appName := d.ctx.appName, contextFp := d.ctx.contextFp } }

/-- `handle_scalar_payload`. -/
def handleScalarPayload (data : Bytes) : M Unit := do
  let d ← Prog.get
  if d.ctx.state ≠ .hashDerived then rejectM .badState
  else do
    Prog.modify restartLoad
    transitionM .idle .hashDerived
    let d ← Prog.get
    match vaultTlvParse E.network data d.intent with
    | .error err => wipeM err.toSw
    | .ok intent =>
      Prog.modify fun d => { d with intent := intent }
      Prog.modify fun d => { d with approve := { d.approve with intentHash := [] } }
      absorbIntentApdu data
      Prog.modify fun d => { d with approve := { d.approve with scalarsLoaded := true } }

/-- One group record of a P1=0x01 payload: what is left of the payload. -/
def groupRecord (data : Bytes) : M Bytes := do
  let d ← Prog.get
  let idx := d.tr.vaultGroupIndex
  requireM (idx < d.intent.vaultCount) .incorrectData
  match vaultTlvParseGroup data (d.intent.group idx) with
  | .error err => wipeM err.toSw
  | .ok (grp, rest) =>
    Prog.modify fun d => { d with intent := { d.intent with groups := d.intent.groups.put idx grp } }
    requireM (rest.length < data.length) .incorrectData
    requireM (vaultXonlyKeyIsCanonical grp.vaultProviderPk) .incorrectData
    requireM (E.liftX grp.vaultProviderPk) .incorrectData
    requireM (¬(idx > 0 ∧ grp.htlcVout ≤ (d.intent.group (idx - 1)).htlcVout)) .incorrectData
    Prog.modify fun d => { d with tr := { d.tr with vaultGroupIndex := d.tr.vaultGroupIndex + 1 } }
    return rest

/-- The loop of `handle_group_payload`: every record takes at least one byte. -/
def groupLoop : ℕ → Bytes → M Unit
  | _, [] => pure ()
  | 0, _ :: _ => wipeM .incorrectData
  | fuel + 1, b :: data => do
    let rest ← groupRecord E (b :: data)
    groupLoop fuel rest

/-- `handle_group_payload`. -/
def handleGroupPayload (data : Bytes) : M Unit := do
  let d ← Prog.get
  if d.approve.scalarsLoaded = false then rejectM .badState
  else do
    groupLoop E data.length data
    absorbIntentApdu data

/-- One key entry of a P1=0x02 payload: what is left of the payload. -/
def keyRecord (data : Bytes) : M Bytes := do
  match data with
  | hi :: lo :: klen :: rest => do
    requireM (klen.toNat = 32 ∧ 32 ≤ rest.length) .incorrectData
    let d ← Prog.get
    let keysRx := d.approve.keysReceived
    requireM (keysRx < d.intent.keeperCount + d.intent.challengerCount) .incorrectData
    requireM (ofBE [hi, lo] = if keysRx < d.intent.keeperCount then tagKeeperPk else tagChallengerPk)
      .incorrectData
    let key : Bytes32 := Buf.ofBytes 32 rest
    requireM (vaultXonlyKeyIsCanonical key) .incorrectData
    requireM (E.liftX key) .incorrectData
    match vaultValidateAndStoreKey d.intent keysRx key with
    | none => wipeM .incorrectData
    | some intent =>
      Prog.modify fun d => { d with intent := intent }
      Prog.modify fun d =>
        { d with approve := { d.approve with keysReceived := d.approve.keysReceived + 1 } }
      return rest.drop 32
  | _ => wipeM .incorrectData

/-- The loop of `handle_key_batch`. -/
def keyLoop : ℕ → Bytes → M Unit
  | _, [] => pure ()
  | 0, _ :: _ => wipeM .incorrectData
  | fuel + 1, b :: data => do
    let rest ← keyRecord E (b :: data)
    keyLoop fuel rest

/-- The hashlock of one group, from the root. -/
def deriveHashlock (gi : ℕ) (_ : Unit) : M Unit := do
  callM .badState
  Prog.modify fun d =>
    let h := vaultDeriveHashlockCommitment E d.ctx.root (d.intent.group gi).htlcVout
    { d with ctx := { d.ctx with htlcHashlock := d.ctx.htlcHashlock.put gi h } }

/-- The tail of `handle_key_batch`, once all keys are stored. -/
def finishIntent : M Unit := do
  let d ← Prog.get
  requireM (d.ctx.derivationPath = d.intent.depositorPath.toList) .incorrectData
  callM .bip32Fail
  match E.pubkeyAt d.intent.depositorPath.toList with
  | none => wipeM .bip32Fail
  | some pk =>
    requireM (vaultCheckDepositorUniqueness d.intent (xonly pk)) .incorrectData
    Prog.modify fun d => { d with intent := { d.intent with depositorPk := xonly pk } }
    requireM (d.ctx.root ≠ Buf.zero 32) .badState
    Prog.loop (deriveHashlock E) 0 d.intent.vaultCount ()
    callM .badState
    Prog.modify fun d =>
      { d with ctx := { d.ctx with
                        authAnchorHash := vaultDeriveAuthAnchorCommitment E d.ctx.root } }
    Prog.modify fun d => { d with ctx := { d.ctx with root := Buf.zero 32 } }
    callM .badState
    Prog.modify fun d =>
      { d with ctx := { d.ctx with intentFp := vaultFingerprint E d.approve.intentHash } }
    Prog.modify fun d => { d with approve := .zero }
    let s ← Prog.get
    clobberScratch
    let approved : Bool ← askM (.read (.show (.vaultIntent s.session)))
    requireM (approved = true) .deny
    transitionM .hashDerived .intentLoaded

/-- `handle_key_batch`. -/
def handleKeyBatch (data : Bytes) : M Unit := do
  let d ← Prog.get
  if d.approve.scalarsLoaded = false then rejectM .badState
  else do
    requireM (d.tr.vaultGroupIndex = d.intent.vaultCount) .badState
    requireM (d.ctx.state = .hashDerived) .badState
    keyLoop E data.length data
    absorbIntentApdu data
    let d ← Prog.get
    if d.approve.keysReceived < d.intent.keeperCount + d.intent.challengerCount then pure ()
    else finishIntent E

/-- `handler_approve_vault_intent`. -/
def handlerApproveVaultIntent (p1 p2 : UInt8) (data : Bytes) : M Unit :=
  if p2 ≠ 0 then rejectM .wrongP1P2
  else if p1 = 0 then handleScalarPayload E data
  else if p1 = 1 then handleGroupPayload E data
  else if p1 = 2 then handleKeyBatch E data
  else rejectM .wrongP1P2

end BabylonVault
