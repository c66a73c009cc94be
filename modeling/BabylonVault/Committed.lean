/-
  What a committed PSBT holds.

  * `Psbt.outValue`, `Psbt.outScript`, `Psbt.utxoValue`, `Psbt.utxoScript`: amounts and
    scriptPubKeys.
  * `Psbt.tx`: the transaction the PSBT is for.
  * With `Psbt.Allows`, a reader that succeeds has read these.
-/
import BabylonVault.Accept.Dispatch

namespace BabylonVault
open Bytes Prog

namespace Psbt
variable (p : Psbt)

/-- The value of a key, empty where there is none. -/
def get (m : MapRef) (key : UInt8) : Bytes := ((p.map m).find [key]).getD []

/-- A 4-byte field. -/
def uint32 (m : MapRef) (key : UInt8) (absent : UInt32) : UInt32 :=
  match (p.map m).field key with
  | .present v => v
  | _ => absent

/-- The amount of output `i`. -/
def outValue (i : ℕ) : ℕ := ofLE (p.get (.output i) psbtOutAmount)

/-- The scriptPubKey of output `i`. -/
def outScript (i : ℕ) : Bytes := p.get (.output i) psbtOutScript

/-- The amount of the UTXO that input `i` spends. -/
def utxoValue (i : ℕ) : ℕ := ofLE ((p.get (.input i) psbtInWitnessUtxo).take 8)

/-- Its scriptPubKey, behind the amount and a length byte. -/
def utxoScript (i : ℕ) : Bytes := (p.get (.input i) psbtInWitnessUtxo).drop 9

/-- The txid input `i` spends from. -/
def prevTxid (i : ℕ) : Bytes32 := Buf.ofBytes 32 (p.get (.input i) psbtInPreviousTxid)

/-- Input `i` of the transaction; a PSBT need not repeat a final sequence. -/
def txIn (i : ℕ) : TxIn :=
  ⟨p.prevTxid i, p.uint32 (.input i) psbtInOutputIndex 0,
    p.uint32 (.input i) psbtInSequence sequenceFinal⟩

/-- Output `i` of the transaction. -/
def txOut (i : ℕ) : TxOut := ⟨UInt64.ofNat (p.outValue i), p.outScript i⟩

/-- The transaction, unsigned. -/
def tx (st : SignPsbtState) : Tx where
  version := st.txVersion
  ins := (List.range st.nInputs).map p.txIn
  outs := (List.range st.nOutputs).map p.txOut
  lockTime := st.locktime

variable {p} {m : MapRef} {key : UInt8} {n i maxScript : ℕ} {b spk : Bytes} {x : UInt32}
  {value : UInt64}

/-! ## Reads of a committed PSBT -/

theorem get_eq (h : p.Allows (.value m [key] n) (some b)) : p.get m key = b := by
  rw [get, (h b rfl).1]
  rfl

theorem field_eq (h : p.Allows (.field m key) (.present x)) :
    (p.map m).field key = .present x := (h.resolve_left (nomatch ·)).symm

theorem field_absent (h : p.Allows (.field m key) .absent) : (p.map m).field key = .absent :=
  (h.resolve_left (nomatch ·)).symm

theorem uint32_eq {d : UInt32} (h : p.Allows (.field m key) (.present x)) :
    p.uint32 m key d = x := by
  rw [uint32, field_eq h]

theorem prevTxid_eq {txid : Bytes32}
    (h : p.Allows (.value (.input i) [psbtInPreviousTxid] n) (some txid.toList)) :
    p.prevTxid i = txid := by
  rw [prevTxid, get_eq h]
  exact Buf.toList_inj.1 (Buf.toList_ofBytes txid.toList_length)

/-- Eight bytes are a 64-bit amount. -/
theorem toNat_amount (h : b.length = 8) : (UInt64.ofNat (ofLE b)).toNat = ofLE b := by
  have hlt := ofLE_lt b
  rw [h] at hlt
  rw [UInt64.toNat_ofNat', Nat.mod_eq_of_lt (show ofLE b < 2 ^ 64 from hlt)]

theorem reads_utxo (h : ReadsUtxo p.Allows (.input i) value spk) :
    p.utxoValue i = value.toNat ∧ p.utxoScript i = spk := by
  obtain ⟨wu, hwu, ⟨hl, -⟩, rfl, rfl⟩ := h
  have h8 : (wu.take 8).length = 8 := List.length_take_of_le (by omega)
  exact ⟨by rw [utxoValue, get_eq hwu, toNat_amount h8], by rw [utxoScript, get_eq hwu]⟩

theorem reads_output (h : ReadsOutput p.Allows n i maxScript spk value) :
    (n = p.outputs.length ∧ i < n) ∧ p.outValue i = value.toNat ∧ p.outScript i = spk := by
  obtain ⟨hm, ⟨raw, hraw, hl, rfl⟩, hspk⟩ := h
  exact ⟨hm rfl, by rw [outValue, get_eq hraw, toNat_amount hl], by rw [outScript, get_eq hspk]⟩

theorem txOut_eq (h : ReadsOutput p.Allows n i maxScript spk value) :
    p.txOut i = ⟨value, spk⟩ := by
  obtain ⟨-, hv, hs⟩ := reads_output h
  rw [txOut, hv, hs, UInt64.ofNat_toNat]

theorem txIn_eq {st : SignPsbtState} {y : TxIn} (h : ReadsTxIn st p.Allows i y) :
    p.txIn i = y := by
  rw [txIn, prevTxid_eq h.prevTxid, uint32_eq h.vout, uint32_eq h.sequence]

/-- The transaction that was read is the PSBT's. -/
theorem tx_eq {st : SignPsbtState} {t : Tx} (h : TxRead st p.Allows t) : p.tx st = t := by
  obtain ⟨version, ins, outs, lockTime⟩ := t
  obtain ⟨hv, hl, hi, ho, hin, hout⟩ := h
  rw [tx, Tx.mk.injEq]
  refine ⟨hv.symm, List.ext_getElem? fun i => ?_, List.ext_getElem? fun i => ?_, hl.symm⟩
  · rcases hx : ins[i]? with _ | y
    · simp only [List.getElem?_eq_none_iff] at hx ⊢
      simpa using hi ▸ hx
    · obtain ⟨hlt, -⟩ := List.getElem?_eq_some_iff.1 hx
      rw [List.getElem?_map, List.getElem?_range (hi ▸ hlt), Option.map_some, txIn_eq (hin i y hx)]
  · rcases hx : outs[i]? with _ | y
    · simp only [List.getElem?_eq_none_iff] at hx ⊢
      simpa using ho ▸ hx
    · obtain ⟨hlt, -⟩ := List.getElem?_eq_some_iff.1 hx
      rw [List.getElem?_map, List.getElem?_range (ho ▸ hlt), Option.map_some,
        txOut_eq (hout i y hx).1]

end Psbt

end BabylonVault
