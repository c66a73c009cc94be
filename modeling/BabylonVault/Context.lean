/-
  The session state machine and its fingerprints (`vault_context.c`).

  * `vaultContextInvalidate`: what every wipe does.
  * `vaultContextTransition`: the only two edges of the state machine.
  * `vaultContextEncodeState`: the GET_VAULT_STATE response.
  * `rejectM`, `wipeM`, `callM`: how a handler ends early.
  * `validating`, `wiping`: a validator run inside a handler, and a handler that
    wipes the session on every failure.
-/
import BabylonVault.Env

namespace BabylonVault
open Bytes

/-- `vault_context_invalidate`. The streaming state and the leaf facts live
    outside the context and the scratch union, and stay. -/
def vaultContextInvalidate (d : Device) : Device :=
  { d with ctx := .zero, tr := .zero, intent := .zero, approve := .zero, deriveCtx := .zero }

/-- `vault_transition_allowed`. -/
def vaultTransitionAllowed : VaultState → VaultState → Bool
  | .idle, dst => dst = .hashDerived
  | .hashDerived, dst => dst = .intentLoaded
  | .intentLoaded, _ => false

/-- `vault_context_transition`: `none` when it is refused, and then the session is wiped. -/
def vaultContextTransition (src dst : VaultState) (d : Device) : Option Device :=
  if d.ctx.state ≠ src ∨ vaultTransitionAllowed src dst = false then none
  else some { d with ctx := { d.ctx with state := dst } }

/-- `_encode_fingerprint`. -/
def encodeFingerprint (present : Bool) (fp : Buf fingerprintLen) : Bytes :=
  if present then UInt8.ofNat fingerprintLen :: fp.toList else [0]

/-- `vault_state_fingerprints`: whether the intent and the context fingerprint are held. -/
def vaultStateFingerprints : VaultState → Bool × Bool
  | .idle => (false, false)
  | .hashDerived => (false, true)
  | .intentLoaded => (true, true)

/-- `vault_context_encode_state`. -/
def vaultContextEncodeState (c : VaultContext) : Bytes :=
  let (hasIntent, hasContext) := vaultStateFingerprints c.state
  encodeFingerprint hasIntent c.intentFp ++ encodeFingerprint hasContext c.contextFp

/-- `_truncate_digest`: the trailing bytes of a digest. -/
def truncateDigest (digest : Bytes32) : Buf fingerprintLen := Buf.slice 4 digest.toList 28

/-- `vault_fingerprint`. -/
def vaultFingerprint (E : Env) (data : Bytes) : Buf fingerprintLen :=
  truncateDigest (E.sha256 data)

/-! ## Leaving a handler -/

/-- A call outwards. -/
def askM (q : DevAsk) : M (devIface.Ans q) := @Prog.ask devIface Device Stop q

/-- Send a status word and leave. -/
def rejectM {α : Type} (sw : Sw) : M α := Prog.stop (.reject sw)

/-- `vault_context_invalidate`, send a status word and leave. -/
def wipeM {α : Type} (sw : Sw) : M α := do
  Prog.modify vaultContextInvalidate
  rejectM sw

/-- Leave with a wipe unless `c` holds. -/
def requireM (c : Prop) [Decidable c] (sw : Sw) : M Unit := if c then pure () else wipeM sw

/-- An SDK call that may fail; a failure wipes the session. -/
def callM (sw : Sw) : M Unit := do
  let failed : Bool ← askM .fault
  requireM (failed = false) sw

/-- `vault_context_transition`; a refusal has wiped the session. -/
def transitionM (src dst : VaultState) : M Unit := do
  match vaultContextTransition src dst (← Prog.get) with
  | some d => Prog.modify fun _ => d
  | none => wipeM .badState

/-- `LEDGER_ASSERT`: a failure restarts the application. -/
def assertM (c : Prop) [Decidable c] : M Unit :=
  if c then pure ()
  else do
    Prog.modify fun _ => Device.boot
    Prog.stop .restart

/-- The scratch union is used for something else than a derivation. -/
def clobberScratch : M Unit := do
  let junk : DeriveCtx ← askM .scratch
  Prog.modify fun d => { d with deriveCtx := junk }

/-- What the end of a validator means for the device. -/
def settleStop : Stop → Device → Device
  | .wipe _, d => vaultContextInvalidate d
  | .restart, _ => .boot
  | _, d => d

/-- Run a validator on the session at hand. -/
def validating {α : Type} (v : Session → V α) : M α := fun d =>
  Prog.onError settleStop (Prog.embed readHom Device.volatile Device.setVolatile (v d.session)) d

/-- `vault_context_invalidate` when `m` fails. -/
def wiping {α : Type} (m : M α) : M α := Prog.onError (fun _ => vaultContextInvalidate) m

end BabylonVault
