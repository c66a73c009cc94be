/-
  The txid of a Pre-PegIn.

  * `WalletPolicy`: the policies, by how their inputs are spent; the validator accepts the
    native SegWit ones (`nativePolicy`).
  * `SignsTx`: the transaction that the base app signs for a PSBT; there is one
    (`SignsTx.unique`).
  * `prepeginTxBytes`: what `_compute_prepegin_txid` hashes.
  * `prepegin_txid_fidelity`: it hashes the transaction that gets signed, and no broadcast of
    it has another txid.
-/
import BabylonVault.Amounts

namespace BabylonVault
open Bytes Prog

variable {E : Env} {st : SignPsbtState} {s : Session} {p : Psbt} {t t' : Tx} {v v' : Volatile}
  {w : WalletPolicy} {segwitVersion : WalletPolicy → ℤ}
  {spends : WalletPolicy → Bytes → Prop}

/-! ## Wallet policies -/

/-- A wallet policy, by the form of its outputs. `legacy` is every one without a witness. -/
inductive WalletPolicy
  | legacy | wpkh | wsh | tr
  | sh (inner : WalletPolicy)
  deriving DecidableEq

namespace WalletPolicy

/-- The policies whose inputs carry nothing but a witness. -/
def Native : WalletPolicy → Prop
  | wpkh | wsh | tr => True
  | legacy | sh _ => False

/-- The policies with a witness, native or wrapped in a `sh`. -/
def Segwit : WalletPolicy → Prop
  | wpkh | wsh | tr | sh wpkh | sh wsh => True
  | _ => False

/-- What the validator asks of a policy. -/
def map (segwitVersion : WalletPolicy → ℤ) (w : WalletPolicy) : PolicyMap :=
  ⟨match w with | sh _ => true | _ => false, segwitVersion w⟩

end WalletPolicy

/-- An accepted policy is native. -/
theorem nativePolicy (hseg : ∀ w, 0 ≤ segwitVersion w → w.Segwit)
    (hpol : prepeginPolicyIsNativeSegwit st = true)
    (hw : st.policyMap = some (w.map segwitVersion)) : w.Native := by
  rw [prepeginPolicyIsNativeSegwit, hw] at hpol
  simp only [Bool.and_eq_true, Bool.not_eq_true', decide_eq_true_eq] at hpol
  obtain ⟨⟨-, hsh⟩, hver⟩ := hpol
  have hs := hseg w hver
  cases w with
  | legacy => exact hs
  | wpkh | wsh | tr => trivial
  | sh inner => exact Bool.noConfusion hsh

/-! ## The transaction that is signed -/

/-- The base app signs `t`: the PSBT's version, prevouts, sequences, outputs and locktime. -/
structure SignsTx (st : SignPsbtState) (p : Psbt) (t : Tx) : Prop where
  version : t.version = st.txVersion
  lockTime : t.lockTime = st.locktime
  nInputs : t.ins.length = st.nInputs
  nOutputs : t.outs.length = st.nOutputs
  prevTxid : ∀ i x, t.ins[i]? = some x →
    (p.map (.input i)).find [psbtInPreviousTxid] = some x.prevTxid.toList
  vout : ∀ i x, t.ins[i]? = some x → (p.map (.input i)).field psbtInOutputIndex = .present x.vout
  sequence : ∀ i x, t.ins[i]? = some x →
    (p.map (.input i)).field psbtInSequence = .present x.sequence ∨
      (p.map (.input i)).field psbtInSequence = .absent ∧ x.sequence = sequenceFinal
  amount : ∀ i o, t.outs[i]? = some o →
    (p.map (.output i)).find [psbtOutAmount] = some (leBytes 8 o.value.toNat)
  script : ∀ i o, t.outs[i]? = some o → (p.map (.output i)).find [psbtOutScript] = some o.script

/-- Eight bytes are those of the amount they spell. -/
theorem leBytes_amount {raw : Bytes} (h : raw.length = 8) :
    leBytes 8 (UInt64.ofNat (ofLE raw)).toNat = raw := by
  rw [Psbt.toNat_amount h, ← h, leBytes_ofLE]

/-- The transaction that was read is one that the base app signs. -/
theorem TxRead.signsTx (h : TxRead st p.Allows t) : SignsTx st p t where
  version := h.version
  lockTime := h.lockTime
  nInputs := h.nInputs
  nOutputs := h.nOutputs
  prevTxid i x hx := ((h.input i x hx).prevTxid _ rfl).1
  vout i x hx := Psbt.field_eq (h.input i x hx).vout
  sequence i x hx := .inl (Psbt.field_eq (h.input i x hx).sequence)
  amount i o ho := by
    obtain ⟨⟨-, ⟨raw, hraw, hl, hval⟩, -⟩, -⟩ := h.output i o ho
    rw [(hraw raw rfl).1, ← hval, leBytes_amount hl]
  script i o ho := by
    obtain ⟨⟨-, -, hspk⟩, -⟩ := h.output i o ho
    exact (hspk _ rfl).1

/-- The base app signs one transaction. -/
theorem SignsTx.unique (h : SignsTx st p t) (h' : SignsTx st p t') : t = t' := by
  obtain ⟨version, ins, outs, lockTime⟩ := t
  obtain ⟨version', ins', outs', lockTime'⟩ := t'
  obtain rfl : version = version' := h.version.trans h'.version.symm
  obtain rfl : lockTime = lockTime' := h.lockTime.trans h'.lockTime.symm
  rw [Tx.mk.injEq]
  refine ⟨rfl, List.ext_getElem (h.nInputs.trans h'.nInputs.symm) fun i hi hi' => ?_,
    List.ext_getElem (h.nOutputs.trans h'.nOutputs.symm) fun i hi hi' => ?_, rfl⟩
  · have hx : ins[i]? = some ins[i] := List.getElem?_eq_getElem hi
    have hx' : ins'[i]? = some ins'[i] := List.getElem?_eq_getElem hi'
    have htxid := Option.some.inj ((h.prevTxid i _ hx).symm.trans (h'.prevTxid i _ hx'))
    have hvout := FieldStatus.present.inj ((h.vout i _ hx).symm.trans (h'.vout i _ hx'))
    have hseq : ins[i].sequence = ins'[i].sequence := by
      rcases h.sequence i _ hx with hs | ⟨ha, hf⟩
      · rcases h'.sequence i _ hx' with hs' | ⟨ha', hf'⟩
        · exact FieldStatus.present.inj (hs.symm.trans hs')
        · rw [ha'] at hs
          cases hs
      · rcases h'.sequence i _ hx' with hs' | ⟨ha', hf'⟩
        · rw [ha] at hs'
          cases hs'
        · exact hf.trans hf'.symm
    show ins[i] = ins'[i]
    rcases ha : ins[i] with ⟨a, b, c⟩
    rcases ha' : ins'[i] with ⟨a', b', c'⟩
    rw [ha, ha'] at htxid hvout hseq
    rw [TxIn.mk.injEq]
    exact ⟨Buf.toList_inj.1 htxid, hvout, hseq⟩
  · have ho : outs[i]? = some outs[i] := List.getElem?_eq_getElem hi
    have ho' : outs'[i]? = some outs'[i] := List.getElem?_eq_getElem hi'
    have hamount := Option.some.inj ((h.amount i _ ho).symm.trans (h'.amount i _ ho'))
    have hscript := Option.some.inj ((h.script i _ ho).symm.trans (h'.script i _ ho'))
    have hvalue := UInt64.toNat_inj.1
      (leBytes_inj outs[i].value.toNat_lt outs'[i].value.toNat_lt hamount)
    show outs[i] = outs'[i]
    rcases ha : outs[i] with ⟨a, b⟩
    rcases ha' : outs'[i] with ⟨a', b'⟩
    rw [ha, ha'] at hscript hvalue
    rw [TxOut.mk.injEq]
    exact ⟨hvalue, hscript⟩

/-! ## The bytes that are hashed -/

/-- What `_compute_prepegin_txid` hashes. -/
def prepeginTxBytes (E : Env) (st : SignPsbtState) : V Bytes := do
  let sha := leBytes 4 st.txVersion.toNat ++ E.hashUpdateVarint st.nInputs
  let sha ← Prog.loop (prepeginTxInput st) 0 st.nInputs sha
  let sha ← Prog.loop (prepeginTxOutput E st) 0 st.nOutputs (sha ++ E.hashUpdateVarint st.nOutputs)
  return sha ++ leBytes 4 st.locktime.toNat

/-- The txid is the hash of these bytes. -/
theorem computePrepeginTxid_eq :
    computePrepeginTxid E st = prepeginTxBytes E st >>= fun b => pure (doubleSha256 E b) := by
  simp only [computePrepeginTxid, prepeginTxBytes, Prog.bind_assoc]
  rfl

/-- The bytes of every run are the serialization of the PSBT's transaction. -/
theorem prepeginTxBytes_via (hv : ∀ n, E.hashUpdateVarint n = compactSize n) {b : Bytes}
    (h : (prepeginTxBytes E st).Via p.Allows v b v') :
    ∃ t, TxRead st p.Allows t ∧ b = t.encode := by
  simp only [prepeginTxBytes] at h
  obtain ⟨ins, hil, hi, h₁⟩ := encodeLoop_bind h fun _ _ _ _ _ => prepeginTxInput_via
  obtain ⟨outs, hol, ho, h₂⟩ := encodeLoop_bind h₁ fun _ _ _ _ _ => prepeginTxOutput_via
  refine ⟨⟨st.txVersion, ins, outs, st.locktime⟩, ⟨rfl, rfl, hil, hol, hi, ho⟩, ?_⟩
  obtain ⟨rfl, -⟩ := via_pure.1 h₂
  rw [← Env.encodeTx_eq hv, Env.encodeTx, hil, hol]

/-- The txid that was checked is that of the transaction that gets signed, and no broadcast
    of it has another. -/
structure TxidFidelity (E : Env) (st : SignPsbtState) (s : Session) (p : Psbt) (t : Tx)
    (segwitVersion : WalletPolicy → ℤ) (spends : WalletPolicy → Bytes → Prop) : Prop where
  hashes : computePrepeginTxid E st = prepeginTxBytes E st >>= fun b => pure (doubleSha256 E b)
  stream : ∀ v b v', (prepeginTxBytes E st).Via p.Allows v b v' → b = t.encode
  txid : s.intent.prepeginTxid = doubleSha256 E t.encode
  internal : ∀ i < t.ins.length, st.internalInputs i = true
  native : st.hasNoWalletPolicy = false ∧
    ∀ w : WalletPolicy, st.policyMap = some (w.map segwitVersion) → w.Native
  broadcast : ∀ w : WalletPolicy, st.policyMap = some (w.map segwitVersion) → ∀ sigs : List Bytes,
    sigs.length = t.ins.length → (∀ sig ∈ sigs, spends w sig) →
    doubleSha256 E (t.encodeSigned sigs) = s.intent.prepeginTxid

/-- The device's txid of a Pre-PegIn is the one it will have. -/
theorem prepegin_txid_fidelity {u : Unit} (h : (validatePrepegin E st s).Via p.Allows v u v')
    (hv : ∀ n, E.hashUpdateVarint n = compactSize n) (ht : SignsTx st p t)
    (hseg : ∀ w, 0 ≤ segwitVersion w → w.Segwit)
    (hspend : ∀ w : WalletPolicy, w.Native → ∀ sig, spends w sig → sig = []) :
    TxidFidelity E st s p t segwitVersion spends := by
  obtain ⟨ha, -⟩ := validatePrepegin_via h
  have hpol : prepeginPolicyIsNativeSegwit st = true := by
    simp only [validatePrepegin, check_bind] at h
    exact h.2.2.2.1
  have hnative : ∀ w : WalletPolicy, st.policyMap = some (w.map segwitVersion) → w.Native :=
    fun _ => nativePolicy hseg hpol
  have htxid : s.intent.prepeginTxid = doubleSha256 E t.encode := by
    obtain ⟨t', hread, htxid⟩ := ha.tx
    rw [ht.unique hread.signsTx, ← Env.encodeTx_eq hv, htxid]
  constructor
  case hashes => exact computePrepeginTxid_eq
  case stream =>
    intro v b v' hb
    obtain ⟨t', hread, rfl⟩ := prepeginTxBytes_via hv hb
    rw [ht.unique hread.signsTx]
  case txid => exact htxid
  case internal =>
    intro i hi
    exact ha.internal i (ht.nInputs ▸ hi)
  case native => exact ⟨ha.policy, hnative⟩
  case broadcast =>
    intro w hw sigs hl hsigs
    have hempty : ∀ sig ∈ sigs, sig = [] := fun sig hsig =>
      hspend w (hnative w hw) sig (hsigs sig hsig)
    rw [Tx.encodeSigned_empty hl hempty, htxid]

namespace Signet

/-- `get_policy_segwit_version`, of these policies. -/
def segwitVersionOf : WalletPolicy → ℤ
  | .tr => 1
  | .wpkh | .wsh | .sh .wpkh | .sh .wsh => 0
  | _ => -1

theorem segwit_of_segwitVersionOf (w : WalletPolicy) (h : 0 ≤ segwitVersionOf w) : w.Segwit := by
  cases w with
  | legacy => simp [segwitVersionOf] at h
  | wpkh | wsh | tr => trivial
  | sh inner =>
    cases inner with
    | wpkh | wsh => trivial
    | legacy | tr | sh => simp [segwitVersionOf] at h

/-- A native input carries no script-sig, and the others carry one. -/
def spendsWith (w : WalletPolicy) (sig : Bytes) : Prop := w.Native ↔ sig = []

theorem prepegin_validates : ((validatePrepegin env prepeginState (loaded intent).session).eval
    prepegin.serve (loaded intent).volatile).1 = .ok () := by
  rw [loaded_intent]
  decide +kernel

theorem prepegin_signsTx : ∃ t, SignsTx prepeginState prepegin t := by
  obtain ⟨ha, -⟩ := validatePrepegin_via (via_of_eval prepegin.serve_allows prepegin_validates)
  obtain ⟨t, hread, -⟩ := ha.tx
  exact ⟨t, hread.signsTx⟩

end Signet

open Signet in
theorem prepegin_txid_fidelity_signet : ∃ t, TxidFidelity env prepeginState (loaded intent).session
    prepegin t segwitVersionOf spendsWith := by
  obtain ⟨t, ht⟩ := prepegin_signsTx
  exact ⟨t, prepegin_txid_fidelity
    (via_of_eval prepegin.serve_allows prepegin_validates) (fun _ => rfl) ht
    segwit_of_segwitVersionOf fun w hw sig hs => hs.1 hw⟩

end BabylonVault
