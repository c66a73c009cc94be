/-
  What a DERIVE_CONTEXT_HASH and a GET_VAULT_STATE can do.

  * `FinalizeEnd`: the ends of `_finalize`; one of them opens a session.
  * `DeriveEnd`: every end of the handler (`derive_quiet`).
-/
import BabylonVault.Derive
import BabylonVault.Load

namespace BabylonVault
open Bytes Prog

variable (E : Env)

/-- `streaming_in_progress` set. -/
def Device.setStream (b : Bool) (d : Device) : Device :=
  { d with streaming := { d.streaming with streamingInProgress := b } }

/-- The context buffer cleared. -/
def Device.dropContext (d : Device) : Device :=
  { d with deriveCtx := { d.deriveCtx with contextBuf := [] } }

/-- What a P1=0x00 does before it looks at its payload. -/
def startDerive (d : Device) : Device :=
  { (if d.ctx.state ≠ .idle then vaultContextInvalidate d else d) with
    deriveCtx := .zero, streaming := .zero, approve := .zero }

/-- After the header and the first chunk of a derivation. -/
def begunDevice (d : Device) (p2 : UInt8) (c : InitialChunk) : Device :=
  { startDerive d with
    deriveCtx := ⟨c.appName, c.path, c.firstChunk⟩
    streaming := ⟨false, p2, c.contextTotalLen, c.firstChunk.length⟩ }

/-- After another chunk of a derivation. -/
def fedDevice (d : Device) (data : Bytes) : Device :=
  { d with
    deriveCtx := { d.deriveCtx with contextBuf := d.deriveCtx.contextBuf ++ data }
    streaming := { d.streaming with
      contextReceivedLen := d.streaming.contextReceivedLen + data.length } }

/-- The root of the derivation whose parts the scratch union holds. -/
def scratchRoot (d : Device) (pk : Buf 33) : Bytes32 :=
  hkdfDeriveRoot E d.deriveCtx.appNameBuf pk.toList d.deriveCtx.contextBuf

/-- After a derivation that opens a session. -/
def derivedDevice (d : Device) (pk : Buf 33) : Device :=
  let root := scratchRoot E d pk
  { d.dropContext with ctx := { d.ctx with
      root := root
      contextFp := vaultFingerprint E root.toList
      state := .hashDerived
      derivationPath := d.deriveCtx.path
      appName := d.deriveCtx.appNameBuf } }

/-- The ends of `_finalize`: the session kept, wiped or opened. -/
inductive FinalizeEnd (d : Device) : Except Stop Bytes → Device → Prop
  | kept {sw} : FinalizeEnd d (.error (.reject sw)) (d.setStream false).dropContext
  | wiped {sw} : FinalizeEnd d (.error (.reject sw)) (vaultContextInvalidate (d.setStream false))
  | opened {pk out} : E.pubkeyAt d.deriveCtx.path = some pk → d.ctx.state = .idle →
      FinalizeEnd d (.ok out) (derivedDevice E (d.setStream false) pk)

/-- The ends of DERIVE_CONTEXT_HASH. -/
inductive DeriveEnd (d : Device) (p1 p2 : UInt8) (data : Bytes) :
    Except Stop Bytes → Device → Prop
  | refused {sw} : DeriveEnd d p1 p2 data (.error (.reject sw)) d
  | malformed {sw} : p1 = 0 → DeriveEnd d p1 p2 data (.error (.reject sw)) (startDerive d)
  | begun {c} : p1 = 0 → parseInitialChunk data = .ok c → c.firstChunk.length < c.contextTotalLen →
      DeriveEnd d p1 p2 data (.ok []) ((begunDevice d p2 c).setStream true)
  | atOnce {c r d'} : p1 = 0 → parseInitialChunk data = .ok c →
      ¬c.firstChunk.length < c.contextTotalLen → FinalizeEnd E (begunDevice d p2 c) r d' →
      DeriveEnd d p1 p2 data r d'
  | dropped {sw} : p1 = 1 → d.streaming.streamingInProgress = true →
      DeriveEnd d p1 p2 data (.error (.reject sw)) ((vaultContextInvalidate d).setStream false)
  | fed : p1 = 1 → d.streaming.streamingInProgress = true →
      d.streaming.contextReceivedLen + data.length < d.streaming.contextTotalLen →
      DeriveEnd d p1 p2 data (.ok []) (fedDevice d data)
  | last {r d'} : p1 = 1 → d.streaming.streamingInProgress = true →
      ¬d.streaming.contextReceivedLen + data.length < d.streaming.contextTotalLen →
      FinalizeEnd E (fedDevice d data) r d' → DeriveEnd d p1 p2 data r d'

variable {E} {d : Device} {p1 p2 : UInt8} {data : Bytes}

theorem openSession_quiet {pk : Buf 33} {Q : Except Stop Bytes → Device → Prop}
    (hw : ∀ sw, Q (.error (.reject sw)) (vaultContextInvalidate d))
    (h : ∀ out, d.ctx.state = .idle → Q (.ok out) (derivedDevice E d pk)) :
    Quiet (openSession E pk) d Q := by
  refine .modify_bind (.modify_bind (.callM_bind (hw _) (.callM_bind (hw _) ?_)))
  refine .modify_bind (.bind (transitionM_quiet rfl (hw _) fun hs => ?_))
  exact Quiet.ret rfl (h _ hs)

theorem finalizeDerive_quiet : Quiet (finalizeDerive E) d (FinalizeEnd E d) := by
  refine .modify_bind (.get_bind (.bind (.ask rfl fun (failed : Bool) => ?_)))
  show Quiet _ _ _
  split
  · exact .ret rfl .kept
  next pk hpk =>
    have hpk' : E.pubkeyAt d.deriveCtx.path = some pk := by
      split_ifs at hpk
      exact hpk
    have hcont : ∀ approved : Bool, Quiet
        (if approved = false then dropDerive .deny else openSession E pk) (d.setStream false)
        (FinalizeEnd E d) := fun approved => by
      split_ifs
      · exact .ret rfl .kept
      · exact openSession_quiet (fun _ => .wiped) fun _ hs => .opened hpk' hs
    exact .bind (.get_bind (.ite (fun _ => .ask rfl hcont) fun _ => .ret rfl (hcont true)))

theorem handleInitialChunk_quiet :
    Quiet (handleInitialChunk E p2 data) d (DeriveEnd E d 0 p2 data) := by
  unfold handleInitialChunk
  split_ifs with hp2
  · exact .ret rfl .refused
  · refine .modify_bind (.modify_bind ?_)
    split
    · exact .ret rfl (.malformed rfl)
    next c hc =>
      refine .modify_bind (.ite (fun hlt => .ret rfl (.begun rfl hc hlt)) fun hlt => ?_)
      exact finalizeDerive_quiet.mono fun r d' h => .atOnce rfl hc hlt h

theorem handleContinuationChunk_quiet :
    Quiet (handleContinuationChunk E p2 data) d (DeriveEnd E d 1 p2 data) := by
  refine .get_bind (.ite (fun _ => .ret rfl .refused) fun hs => ?_)
  have hs' : d.streaming.streamingInProgress = true := by simpa using hs
  refine .ite (fun _ => .ret rfl .refused) fun _ => .ite (fun _ => .ret rfl .refused) fun _ => ?_
  refine .ite (fun _ => .ret rfl (.dropped rfl hs')) fun _ => ?_
  refine .ite (fun _ => .ret rfl (.dropped rfl hs')) fun _ => .modify_bind ?_
  refine .ite (fun hlt => .ret rfl (.fed rfl hs' hlt)) fun hlt => ?_
  exact finalizeDerive_quiet.mono fun r d' h => .last rfl hs' hlt h

/-- Every end of DERIVE_CONTEXT_HASH, whatever the SDK and the user answer. -/
theorem derive_quiet :
    Quiet (handlerDeriveContextHash E p1 p2 data) d (DeriveEnd E d p1 p2 data) := by
  unfold handlerDeriveContextHash
  split_ifs with h0 h1
  · exact h0 ▸ handleInitialChunk_quiet
  · exact h1 ▸ handleContinuationChunk_quiet
  · exact .ret rfl .refused

/-- GET_VAULT_STATE answers from the session and changes nothing. -/
theorem getVaultState_quiet : Quiet (handlerGetVaultState p1 p2 data) d fun r d' =>
    d' = d ∧ (∀ out, r = .ok out → out = vaultContextEncodeState d.ctx) ∧
      ∀ sw, r ≠ .error (.wipe sw) := by
  unfold handlerGetVaultState
  split_ifs
  · exact .ret rfl ⟨rfl, by simp, by simp⟩
  · exact .ret rfl ⟨rfl, by simp, by simp⟩
  · refine .get_bind (.ret rfl ⟨rfl, ?_, by simp⟩)
    rintro out h
    exact (Except.ok.inj h).symm

end BabylonVault
