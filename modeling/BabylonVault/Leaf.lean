/-
  Reading the PSBT (`sign_psbt_validate.c`, the shared part).

  * `getMap`, `getValue`, `getExact`, `readOutput`: the by-key readers.
  * `leafStreamLenCb`, `leafStreamDataCb`: the callbacks a streamed leaf goes
    through, chunk by chunk.
  * `readTapLeaf`: the single tap leaf of an input, whatever its size.
-/
import BabylonVault.Script
import BabylonVault.Context

namespace BabylonVault
open Bytes

/-! ## Readers -/

/-- A call outwards. -/
def askV (q : ReadAsk) : V (readIface.Ans q) := @Prog.ask readIface Volatile Stop q

/-- Send a status word and return false. -/
def reject {α : Type} (sw : Sw) : V α := Prog.stop (.reject sw)

/-- Go on only if `c` holds. -/
def check (c : Prop) [Decidable c] (sw : Sw) : V Unit := Prog.require c (.reject sw)

/-- The value, or `SW_INCORRECT_DATA`. -/
def orReject {α : Type} (o : Option α) : V α := Prog.orStop (.reject .incorrectData) o

/-- `LEDGER_ASSERT`. -/
def ledgerAssert (c : Prop) [Decidable c] : V Unit := Prog.require c .restart

/-- `call_get_merkleized_map`. -/
def getMap (side : Side) (size idx : ℕ) : V MapRef := do
  let ok : Bool ← askV (.map side size idx)
  check (ok = true) .incorrectData
  return side.map idx

/-- `call_get_merkleized_map_value`, required to succeed. -/
def getValue (m : MapRef) (key : Bytes) (maxLen : ℕ) : V Bytes := do
  let v : Option Bytes ← askV (.value m key maxLen)
  orReject v

/-- A value of exactly `n` bytes. -/
def getExact (m : MapRef) (key : Bytes) (n : ℕ) : V Bytes := do
  let v ← getValue m key n
  check (v.length = n) .incorrectData
  return v

/-- A 4-byte field that must be present. -/
def getField (m : MapRef) (key : UInt8) : V UInt32 := do
  let f : FieldStatus ← askV (.field m key)
  match f with
  | .present v => return v
  | _ => reject .incorrectData

/-- The sighash type of an input: absent, or one of those allowed. -/
def checkSighashType (m : MapRef) (allowed : List UInt32) : V Unit := do
  let f : FieldStatus ← askV (.field m psbtInSighashType)
  match f with
  | .error => reject .incorrectData
  | .present v => check (v ∈ allowed) .incorrectData
  | .absent => return ()

/-- A P2TR witness UTXO: its value and scriptPubKey. -/
def readWitnessUtxo (m : MapRef) : V (UInt64 × Bytes) := do
  let wu ← getValue m [psbtInWitnessUtxo] 43
  check (9 ≤ wu.length) .incorrectData
  check (wu.length = 9 + (wu.getD 8 0).toNat ∧ (wu.getD 8 0).toNat = p2trSpkLen) .incorrectData
  return (UInt64.ofNat (ofLE (wu.take 8)), wu.drop 9)

/-- `_read_output_varlen`: scriptPubKey and amount. -/
def readOutputVarlen (nOutputs idx maxScript : ℕ) : V (Bytes × UInt64) := do
  let m ← getMap .output nOutputs idx
  let raw8 ← getExact m [psbtOutAmount] 8
  let script ← getValue m [psbtOutScript] maxScript
  return (script, UInt64.ofNat (ofLE raw8))

/-- `_read_output`: a script of 34 bytes, and the amount. -/
def readOutput (nOutputs idx : ℕ) : V (Bytes × UInt64) := do
  let m ← getMap .output nOutputs idx
  let raw8 ← getExact m [psbtOutAmount] 8
  let script ← getExact m [psbtOutScript] p2trSpkLen
  return (script, UInt64.ofNat (ofLE raw8))

/-- `for (i = 0; i < n; i++) body(i)`. -/
def forUpto (n : ℕ) (body : ℕ → V Unit) : V Unit := Prog.loop (fun i _ => body i) 0 n ()

/-! ## The streamed leaf -/

/-- `leaf_stream_ctx_t` with the members of `tls` and the leaf facts it fills.
    `script` is what was copied to `tls.leaf_script`, `hashed` what went into the
    TapLeaf hash. -/
structure LeafStreamCtx where
  valueLen : ℕ
  scriptLen : ℕ
  seen : ℕ
  lenKnown : Bool
  lenRejected : Bool
  overflow : Bool
  assertPrefixLen : Option ℕ
  assertPrefixMismatch : Bool
  leafVersion : UInt8
  hashed : Bytes
  script : Bytes
  leaf : LeafMeta

/-- `_leaf_stream_len_cb`. -/
def leafStreamLenCb (valueLen : ℕ) (c : LeafStreamCtx) : LeafStreamCtx :=
  if valueLen < 2 ∨ valueLen > assertScriptMaxLen then { c with lenRejected := true }
  else
    { c with valueLen := valueLen, scriptLen := valueLen - 1, lenKnown := true,
             leaf := { c.leaf with buffered := decide (valueLen - 1 ≤ scriptMaxLen) },
             hashed := tapleafHeader (valueLen - 1) }

/-- The script part of `_leaf_stream_data_cb`, for the script bytes `p` of a chunk. -/
def leafStreamScript (it : VaultIntent) (p : Bytes) (c : LeafStreamCtx) : LeafStreamCtx :=
  let mismatch := match c.assertPrefixLen with
    | none => false
    | some len => (List.range (min (len - c.seen) p.length)).any fun i =>
        vaultAssertPrefixByte it (c.seen + i) ≠ p[i]?
  { c with
    hashed := c.hashed ++ p
    script := if c.leaf.buffered then c.script ++ p else c.script
    assertPrefixMismatch := c.assertPrefixMismatch || mismatch
    leaf := { c.leaf with
      pfx := if c.seen < leafPrefixLen then c.leaf.pfx.blit c.seen (p.take (leafPrefixLen - c.seen))
             else c.leaf.pfx
      lastByte := if c.seen + p.length = c.scriptLen then p.getLastD 0 else c.leaf.lastByte } }

/-- `_leaf_stream_data_cb`. -/
def leafStreamDataCb (it : VaultIntent) (c : LeafStreamCtx) (p : Bytes) : LeafStreamCtx :=
  if c.lenRejected || !c.lenKnown then c
  else if p.length = 0 then c
  else if p.length > c.valueLen - c.seen then { c with overflow := true }
  else
    let c' := if c.seen < c.scriptLen then leafStreamScript it (p.take (c.scriptLen - c.seen)) c
      else c
    { c' with
      leafVersion := if c.seen + p.length = c.valueLen then p.getLastD 0 else c.leafVersion
      seen := c.seen + p.length }

/-- `tap_leaf_script_state_t`, as far as it is read after the scan. -/
structure Tls where
  found : Bool
  ambiguous : Bool
  controlBlock : Bytes
  leafScript : Bytes
  leafScriptLen : ℕ
  leafVersion : UInt8

def Tls.zero : Tls := ⟨false, false, [], [], 0, 0⟩

/-- The context `_stream_tap_leaf_value` starts from. -/
def streamStart (s : Session) (tls : Tls) (lm : LeafMeta) : LeafStreamCtx :=
  { valueLen := 0, scriptLen := 0, seen := 0, lenKnown := false, lenRejected := false,
    overflow := false,
    assertPrefixLen := if s.ctx.state = .intentLoaded then vaultAssertPrefixLen s.intent else none,
    assertPrefixMismatch := false, leafVersion := tls.leafVersion, hashed := [],
    script := tls.leafScript, leaf := lm }

/-- The context after both callbacks. -/
def streamEnd (s : Session) (tls : Tls) (lm : LeafMeta) (r : Streamed) : LeafStreamCtx :=
  let c := streamStart s tls lm
  let c := match r.declared with
    | some n => leafStreamLenCb n c
    | none => c
  r.chunks.foldl (leafStreamDataCb s.intent) c

/-- `_stream_tap_leaf_value` rejects the stream. -/
def StreamBad (r : Streamed) (c : LeafStreamCtx) : Prop :=
  r.rc = none ∨ c.lenRejected = true ∨ c.lenKnown = false ∨ c.overflow = true ∨
    r.rc ≠ some c.valueLen ∨ c.seen ≠ c.valueLen ∨ c.leafVersion ≠ tapscriptLeafVersion

instance (r : Streamed) (c : LeafStreamCtx) : Decidable (StreamBad r c) :=
  inferInstanceAs (Decidable (_ ∨ _))

variable (E : Env)

/-- The leaf facts of an accepted stream. -/
def streamLeaf (c : LeafStreamCtx) : LeafMeta :=
  { c.leaf with
    hash := E.tapleafHash c.hashed
    assertPrefixOk := match c.assertPrefixLen with
      | some len => decide (0 < len) && !c.assertPrefixMismatch && decide (len < c.scriptLen)
      | none => false }

/-- `_stream_tap_leaf_value`: the state after it, and whether it succeeded. -/
def streamTapLeafValue (s : Session) (m : MapRef) (index : ℕ) (tls : Tls) : V (Tls × Bool) := do
  let v ← Prog.get
  let r : Streamed ← askV (.stream m index)
  let c := streamEnd s tls v.leaf r
  let tls := { tls with leafScript := c.script, leafVersion := c.leafVersion }
  if StreamBad r c then do
    Prog.modify fun v => { v with leaf := c.leaf }
    return (tls, false)
  else do
    Prog.modify fun v => { v with leaf := streamLeaf E c }
    return ({ tls with leafScriptLen := c.scriptLen }, true)

/-- `_tap_leaf_script_callback`, for the key at an index of the map. -/
def tapLeafScriptCallback (s : Session) (m : MapRef) (index : ℕ) (key : Bytes) (tls : Tls) :
    V Tls :=
  match key with
  | [] => pure tls
  | keyType :: cb =>
    if keyType ≠ psbtInTapLeafScript then pure tls
    else if tls.found then pure { tls with ambiguous := true }
    else if cb.length > controlBlockMaxLen then pure { tls with found := true, ambiguous := true }
    else do
      let (tls, ok) ← streamTapLeafValue E s m index { tls with found := true, controlBlock := cb }
      return if ok then tls else { tls with ambiguous := true }

/-- The callback on every key handed out, in order. -/
def scanKeys (s : Session) (m : MapRef) : ℕ → List Bytes → Tls → V Tls
  | _, [], tls => pure tls
  | i, key :: keys, tls => do
    let tls ← tapLeafScriptCallback E s m i key tls
    scanKeys s m (i + 1) keys tls

/-- `vault_read_refund_leaf_script` (input 0) and `vault_read_payout_leaf_script`
    (input 1). -/
def readTapLeaf (s : Session) (nInputs idx : ℕ) : V (MapRef × Tls) := do
  Prog.modify fun v => { v with leaf := .zero }
  let ks : List Bytes × Bool ← askV (.keys .input nInputs idx)
  let tls ← scanKeys E s (.input idx) 0 ks.1 .zero
  check (ks.2 = true ∧ tls.found = true ∧ tls.ambiguous = false) .incorrectData
  check (tls.leafVersion = tapscriptLeafVersion) .incorrectData
  return (.input idx, tls)

/-- The facts of the leaf last read. -/
def leafMeta : V LeafMeta := do
  let v ← Prog.get
  return v.leaf

/-- `_require_buffered_leaf`. -/
def requireBufferedLeaf : V Unit := do
  let lm ← leafMeta
  check (lm.buffered = true) .incorrectData

end BabylonVault
