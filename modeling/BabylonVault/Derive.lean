/-
  DERIVE_CONTEXT_HASH (`derive_context_hash.c`, `derive_context_hash_core.h`) and
  GET_VAULT_STATE (`get_vault_state.c`).

  * `hkdfDeriveRoot`: the root of a session.
  * `parseInitialChunk`: the header of a P1=0x00 payload, in the order of its checks.
  * `finalizeDerive`: what happens once the whole context has arrived.
-/
import BabylonVault.Context

namespace BabylonVault
open Bytes

variable (E : Env)

/-- `app_name_charset_valid`: lower-case letters, digits and dashes. -/
def appNameCharsetValid (name : Bytes) : Bool :=
  name.all fun c => (97 ≤ c && c ≤ 122) || (48 ≤ c && c ≤ 57) || c = 45

/-- The HKDF info of a root, with the block counter. -/
def rootInfo (appName connectedPubkey context : Bytes) : Bytes :=
  (E.sha256 appName).toList ++ (E.sha256 E.network.canonicalName).toList ++ connectedPubkey ++
    context ++ [0x01]

/-- `hkdf_derive_root`. -/
def hkdfDeriveRoot (appName connectedPubkey context : Bytes) : Bytes32 :=
  let prk := E.hkdfExtract E.vaultPrivkey.toList (ascii "derive-context-hash")
  E.hmacSha256 prk.toList (rootInfo E appName connectedPubkey context)

/-- The screen of a derivation, unless the host asks for a silent one. -/
def confirmDerive : M Bool := do
  let d ← Prog.get
  if d.streaming.p2Mode = 0 then askM (.read (.show (.deriveContextHash d.deriveCtx.appNameBuf)))
  else pure true

/-- The tail of `_finalize`: the root, its fingerprint and the new session. -/
def openSession (connectedPubkey : Buf 33) : M Bytes := do
  Prog.modify fun d =>
    let root := hkdfDeriveRoot E d.deriveCtx.appNameBuf connectedPubkey.toList
      d.deriveCtx.contextBuf
    { d with ctx := { d.ctx with root := root } }
  Prog.modify fun d => { d with deriveCtx := { d.deriveCtx with contextBuf := [] } }
  callM .badState
  callM .badState
  Prog.modify fun d =>
    { d with ctx := { d.ctx with contextFp := vaultFingerprint E d.ctx.root.toList } }
  transitionM .idle .hashDerived
  Prog.modify fun d =>
    { d with ctx := { d.ctx with derivationPath := d.deriveCtx.path,
                                 appName := d.deriveCtx.appNameBuf } }
  let d ← Prog.get
  return if d.streaming.p2Mode = 0 then d.ctx.root.toList else []

/-- Leave `_finalize` with the context buffer cleared. -/
def dropDerive (sw : Sw) : M Bytes := do
  Prog.modify fun d => { d with deriveCtx := { d.deriveCtx with contextBuf := [] } }
  rejectM sw

/-- `_finalize`; returns the response data. -/
def finalizeDerive : M Bytes := do
  Prog.modify fun d => { d with streaming := { d.streaming with streamingInProgress := false } }
  let d ← Prog.get
  let failed : Bool ← askM .fault
  match (if failed then none else E.pubkeyAt d.deriveCtx.path) with
  | none => dropDerive .bip32Fail
  | some connectedPubkey => do
    let approved ← confirmDerive
    if approved = false then dropDerive .deny else openSession E connectedPubkey

/-- What a P1=0x00 payload declares: name, path, context length, first context bytes. -/
structure InitialChunk where
  appName : Bytes
  path : List UInt32
  contextTotalLen : ℕ
  firstChunk : Bytes

/-- The `u32` levels of a path of the wire. -/
def wirePath : ℕ → Bytes → List UInt32
  | 0, _ => []
  | n + 1, v => UInt32.ofNat (ofBE (v.take 4)) :: wirePath n (v.drop 4)

/-- The checks of `handle_initial_chunk` on its payload. -/
def parseInitialChunk (data : Bytes) : Except Sw InitialChunk :=
  match data with
  | [] => .error .wrongDataLength
  | nameLen :: data =>
    let n := nameLen.toNat
    if n = 0 ∨ n > appNameMaxLen ∨ n > data.length then .error .incorrectData
    else if appNameCharsetValid (data.take n) = false then .error .incorrectData
    else match data.drop n with
      | [] => .error .wrongDataLength
      | pathLen :: rest =>
        let k := pathLen.toNat
        if k = 0 ∨ k > maxPathDepth ∨ 4 * k > rest.length then .error .incorrectData
        else match rest.drop (4 * k) with
          | hi :: lo :: chunk =>
            let total := ofBE [hi, lo]
            if total = 0 ∨ total > contextMaxLen then .error .incorrectData
            else if chunk.length > total then .error .incorrectData
            else .ok ⟨data.take n, wirePath k rest, total, chunk⟩
          | _ => .error .wrongDataLength

/-- `handle_initial_chunk`. -/
def handleInitialChunk (p2 : UInt8) (data : Bytes) : M Bytes := do
  if p2 ≠ 0 ∧ p2 ≠ 1 then rejectM .wrongP1P2
  else do
    Prog.modify fun d => if d.ctx.state ≠ .idle then vaultContextInvalidate d else d
    Prog.modify fun d =>
      { d with deriveCtx := .zero, streaming := .zero, approve := .zero }
    match parseInitialChunk data with
    | .error sw => rejectM sw
    | .ok c =>
      Prog.modify fun d =>
        { d with deriveCtx := ⟨c.appName, c.path, c.firstChunk⟩,
                 streaming := { d.streaming with
                   p2Mode := p2, contextTotalLen := c.contextTotalLen,
                   contextReceivedLen := c.firstChunk.length } }
      if c.firstChunk.length < c.contextTotalLen then do
        Prog.modify fun d =>
          { d with streaming := { d.streaming with streamingInProgress := true } }
        return []
      else finalizeDerive E

/-- Drop the stream and the session. -/
def dropStream {α : Type} (sw : Sw) : M α := do
  Prog.modify vaultContextInvalidate
  Prog.modify fun d => { d with streaming := { d.streaming with streamingInProgress := false } }
  rejectM sw

/-- `handle_continuation_chunk`. -/
def handleContinuationChunk (p2 : UInt8) (data : Bytes) : M Bytes := do
  let d ← Prog.get
  let total := d.streaming.contextTotalLen
  let received := d.streaming.contextReceivedLen
  if d.streaming.streamingInProgress = false then rejectM .badState
  else if p2 ≠ d.streaming.p2Mode then rejectM .wrongP1P2
  else if data.length = 0 then rejectM .wrongDataLength
  else if received ≥ total ∨ total > contextMaxLen then dropStream .badState
  else if data.length > total - received then dropStream .incorrectData
  else do
    Prog.modify fun d =>
      { d with deriveCtx := { d.deriveCtx with contextBuf := d.deriveCtx.contextBuf ++ data },
               streaming := { d.streaming with contextReceivedLen := received + data.length } }
    if received + data.length < total then return []
    else finalizeDerive E

/-- `handler_derive_context_hash`. -/
def handlerDeriveContextHash (p1 p2 : UInt8) (data : Bytes) : M Bytes :=
  if p1 = 0 then handleInitialChunk E p2 data
  else if p1 = 1 then handleContinuationChunk E p2 data
  else rejectM .wrongP1P2

/-- `handler_get_vault_state`. -/
def handlerGetVaultState (p1 p2 : UInt8) (data : Bytes) : M Bytes := do
  if p1 ≠ 0 ∨ p2 ≠ 0 then rejectM .wrongP1P2
  else if data.length ≠ 0 then rejectM .wrongDataLength
  else do
    let d ← Prog.get
    return vaultContextEncodeState d.ctx

end BabylonVault
