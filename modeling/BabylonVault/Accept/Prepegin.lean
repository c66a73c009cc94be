/-
  What an accepted Pre-PegIn is.

  * `TxRead`: the transaction that was read field by field; `Env.encodeTx`, its
    serialization with the base app's counts, is what the txid is computed over.
  * `HtlcOutput`, `OtherOutput`: the outputs of the groups, and every other one.
  * `PrepeginAccepted`: the whole.
-/
import BabylonVault.Accept.Read
import BabylonVault.Lib.Tx

namespace BabylonVault
open Bytes Prog

variable (E : Env) (st : SignPsbtState) (s : Session) (G : Allow)

/-- Input `i` of the transaction. -/
structure ReadsTxIn (i : ℕ) (x : TxIn) : Prop where
  map : G (.map .input st.nInputs i) true
  prevTxid : G (.value (.input i) [psbtInPreviousTxid] 32) (some x.prevTxid.toList)
  vout : G (.field (.input i) psbtInOutputIndex) (.present x.vout)
  sequence : G (.field (.input i) psbtInSequence) (.present x.sequence)
  final : x.sequence = sequenceFinal

/-- Output `i` of the transaction. -/
def ReadsTxOut (i : ℕ) (o : TxOut) : Prop :=
  ReadsOutput G st.nOutputs i p2trSpkLen o.script o.value ∧ o.script.length = p2trSpkLen

/-- The transaction of a PSBT, read field by field. -/
structure TxRead (t : Tx) : Prop where
  version : t.version = st.txVersion
  lockTime : t.lockTime = st.locktime
  nInputs : t.ins.length = st.nInputs
  nOutputs : t.outs.length = st.nOutputs
  input : ∀ i x, t.ins[i]? = some x → ReadsTxIn st G i x
  output : ∀ i o, t.outs[i]? = some o → ReadsTxOut st G i o

/-- The serialization of an output, its script length written by the base app. -/
def Env.encodeTxOut (o : TxOut) : Bytes :=
  leBytes 8 o.value.toNat ++ E.hashUpdateVarint o.script.length ++ o.script

/-- The serialization of a transaction, its counts written by the base app. -/
def Env.encodeTx (t : Tx) : Bytes :=
  leBytes 4 t.version.toNat ++ E.hashUpdateVarint t.ins.length ++ t.ins.flatMap TxIn.encode ++
    E.hashUpdateVarint t.outs.length ++ t.outs.flatMap E.encodeTxOut ++ leBytes 4 t.lockTime.toNat

/-- The window of the HTLC of a group. -/
structure HtlcWindow (grp : VaultGroup) (value : UInt64) : Prop where
  sums : ¬grp.vaultAmount + grp.depositorClaimValue < grp.vaultAmount ∧
    ¬p2aAnchorValue + (grp.vaultAmount + grp.depositorClaimValue) < p2aAnchorValue ∧
    ¬p2aAnchorValue + (grp.vaultAmount + grp.depositorClaimValue) + grp.peginMaxFee <
      p2aAnchorValue + (grp.vaultAmount + grp.depositorClaimValue)
  window : ¬(value < p2aAnchorValue + (grp.vaultAmount + grp.depositorClaimValue) ∨
    value > p2aAnchorValue + (grp.vaultAmount + grp.depositorClaimValue) + grp.peginMaxFee)

/-- The HTLC output of group `gi`. -/
def HtlcOutput (gi : ℕ) : Prop :=
  (s.intent.group gi).htlcVout.toNat < st.nOutputs ∧ ∃ spk value,
    vaultBuildHtlcScriptpubkey E s.intent gi (s.ctx.htlcHashlock.pick gi) = some spk ∧
    ReadsOutput G st.nOutputs (s.intent.group gi).htlcVout.toNat p2trSpkLen spk value ∧
    HtlcWindow (s.intent.group gi) value

/-- An output of no group: the auth anchor, or one that pays the depositor. -/
def OtherOutput (i : ℕ) : Prop :=
  st.internalOutputs i = false ∧ ∃ spk value, ReadsOutput G st.nOutputs i p2trSpkLen spk value ∧
    ((value = 0 ∧ spk = authAnchorSpk s.ctx.authAnchorHash) ∨
      bip86P2trSpk E s.intent.depositorPk = some spk)

/-- Output `i` belongs to a group. -/
def IsHtlcVout (it : VaultIntent) (i : ℕ) : Prop :=
  ∃ gi < it.vaultCount, (it.group gi).htlcVout.toNat = i

/-- An accepted Pre-PegIn. -/
structure PrepeginAccepted : Prop where
  loaded : s.ctx.state = .intentLoaded
  internal : ∀ i < st.nInputs, st.internalInputs i = true
  policy : st.hasNoWalletPolicy = false
  version : ¬(st.txVersion < 2 ∨ st.locktime ≠ 0)
  sighash : ∀ i < st.nInputs, SighashOk G (.input i) [sighashDefault, sighashAll]
  htlc : ∀ gi < s.intent.vaultCount, HtlcOutput E st s G gi
  other : ∀ i < st.nOutputs, IsHtlcVout s.intent i ∨ OtherOutput E st s G i
  covered : ¬st.outputsTotalAmount > st.inputsTotalAmount
  fee : ¬st.inputsTotalAmount - st.outputsTotalAmount > s.intent.prepeginMaxFee
  tx : ∃ t, TxRead st G t ∧ doubleSha256 E (E.encodeTx t) = s.intent.prepeginTxid
  fresh : s.ctx.prePeginSigned = 0

variable {E st s G} {v v' : Volatile} {α : Type} {b : α} {n : ℕ}

/-! ## Loops -/

/-- A loop whose turns establish `P` and leave the state alone. -/
theorem forUpto_bind {body : ℕ → V Unit} {P : ℕ → Prop} {f : Unit → V α}
    (h : (forUpto n body >>= f).Via G v b v')
    (hb : ∀ i u v v', (body i).Via G v u v' → P i ∧ v' = v) :
    (∀ i < n, P i) ∧ (f ()).Via G v b v' := by
  obtain ⟨u, v₁, hl, hf⟩ := via_bind.1 h
  have := via_loop (P := fun k _ w => (∀ i < k, P i) ∧ w = v) hl ⟨by simp, rfl⟩ ?_
  · obtain ⟨hp, rfl⟩ := this
    exact ⟨fun i hi => hp i (by omega), hf⟩
  · rintro i _ _ w w' - - hbody ⟨hp, rfl⟩
    obtain ⟨hi, rfl⟩ := hb i _ _ _ hbody
    refine ⟨fun j hj => ?_, rfl⟩
    rcases Nat.lt_succ_iff_lt_or_eq.1 hj with h' | rfl
    · exact hp j h'
    · exact hi

/-- A loop that appends the encoding of one item in each turn. -/
theorem encodeLoop_bind {X : Type} {encode : X → Bytes} {P : ℕ → X → Prop}
    {body : ℕ → Bytes → V Bytes} {sha : Bytes} {f : Bytes → V α}
    (h : (Prog.loop body 0 n sha >>= f).Via G v b v')
    (hb : ∀ i sha sha' v v', (body i sha).Via G v sha' v' →
      ∃ x, P i x ∧ sha' = sha ++ encode x ∧ v' = v) :
    ∃ xs : List X, xs.length = n ∧ (∀ i x, xs[i]? = some x → P i x) ∧
      (f (sha ++ xs.flatMap encode)).Via G v b v' := by
  obtain ⟨sha', v₁, hl, hf⟩ := via_bind.1 h
  have := via_loop (P := fun k a w => w = v ∧ ∃ xs : List X, xs.length = k ∧
    (∀ i x, xs[i]? = some x → P i x) ∧ a = sha ++ xs.flatMap encode) hl
    ⟨rfl, [], rfl, by simp, by simp⟩ ?_
  · obtain ⟨rfl, xs, hxs, hp, rfl⟩ := this
    exact ⟨xs, by omega, hp, hf⟩
  · rintro i _ a' w w' - - hbody ⟨rfl, xs, hxs, hp, rfl⟩
    obtain ⟨x, hx, rfl, rfl⟩ := hb i _ _ _ _ hbody
    refine ⟨rfl, xs ++ [x], by simp [hxs], fun j y hj => ?_, by simp⟩
    rw [List.getElem?_append] at hj
    split_ifs at hj with hlt
    · exact hp j y hj
    · obtain ⟨hj0, rfl⟩ : j - xs.length = 0 ∧ x = y := by
        simpa [List.getElem?_singleton] using hj
      obtain rfl : j = i := by omega
      exact hx

/-! ## The transaction -/

/-- With compact sizes this is the transaction's own serialization. -/
theorem Env.encodeTx_eq (hv : ∀ n, E.hashUpdateVarint n = compactSize n) (t : Tx) :
    E.encodeTx t = t.encode := by
  have hout : E.encodeTxOut = TxOut.encode := funext fun o => by
    rw [Env.encodeTxOut, hv, TxOut.encode]
  rw [Env.encodeTx, Tx.encode, hv, hv, hout]

theorem prepeginTxInput_via {i : ℕ} {sha sha' : Bytes}
    (h : (prepeginTxInput st i sha).Via G v sha' v') :
    ∃ x, ReadsTxIn st G i x ∧ sha' = sha ++ x.encode ∧ v' = v := by
  simp only [prepeginTxInput, getMap_bind, getExact_bind, getField_bind, check_bind,
    via_pure] at h
  obtain ⟨hm, txid, htxid, hl, vout, hvout, seq, hseq, hfin, rfl, rfl⟩ := h
  refine ⟨⟨Buf.ofBytes 32 txid, vout, seq⟩, ⟨hm, ?_, hvout, hseq, hfin⟩, ?_, rfl⟩
  · rwa [Buf.toList_ofBytes hl]
  · simp [TxIn.encode, Buf.toList_ofBytes hl]

theorem prepeginTxOutput_via {i : ℕ} {sha sha' : Bytes}
    (h : (prepeginTxOutput E st i sha).Via G v sha' v') :
    ∃ o, ReadsTxOut st G i o ∧ sha' = sha ++ E.encodeTxOut o ∧ v' = v := by
  simp only [prepeginTxOutput, readOutput_bind, via_pure] at h
  obtain ⟨spk, value, hr, hl, rfl, rfl⟩ := h
  refine ⟨⟨value, spk⟩, ⟨hr, hl⟩, ?_, rfl⟩
  simp [Env.encodeTxOut, hl]

/-- The txid is computed over the transaction's serialization. -/
theorem computePrepeginTxid_bind {f : Bytes32 → V α}
    (h : (computePrepeginTxid E st >>= f).Via G v b v') :
    ∃ t, TxRead st G t ∧ (f (doubleSha256 E (E.encodeTx t))).Via G v b v' := by
  simp only [computePrepeginTxid, Prog.bind_assoc] at h
  obtain ⟨ins, hil, hi, h₁⟩ := encodeLoop_bind h fun _ _ _ _ _ => prepeginTxInput_via
  obtain ⟨outs, hol, ho, h₂⟩ := encodeLoop_bind h₁ fun _ _ _ _ _ => prepeginTxOutput_via
  refine ⟨⟨st.txVersion, ins, outs, st.locktime⟩, ⟨rfl, rfl, hil, hol, hi, ho⟩, ?_⟩
  rw [Env.encodeTx, hil, hol]
  exact via_pure_bind.1 h₂

/-! ## Outputs -/

theorem prepeginHtlcOutput_via {gi : ℕ} {u : Unit}
    (h : (prepeginHtlcOutput E st s gi).Via G v u v') : HtlcOutput E st s G gi ∧ v' = v := by
  simp only [prepeginHtlcOutput, check_bind, readOutput_bind, orReject_bind, addChecked_bind,
    check_end] at h
  obtain ⟨hlt, spk, value, hr, -, _, hspk, rfl, hs1, hs2, hs3, hw, rfl⟩ := h
  exact ⟨⟨hlt, spk, value, hspk, hr, ⟨⟨hs1, hs2, hs3⟩, hw⟩⟩, rfl⟩

theorem prepeginOutput_via {cpfpSpk : Bytes} {changeAllowed : Bool} {i : ℕ}
    {seen seen' : Bool × PrepeginDepositorOutputs}
    (hspk : bip86P2trSpk E s.intent.depositorPk = some cpfpSpk)
    (h : (prepeginOutput st s cpfpSpk changeAllowed i seen).Via G v seen' v') :
    (IsHtlcVout s.intent i ∨ OtherOutput E st s G i) ∧ v' = v := by
  unfold prepeginOutput at h
  rcases via_ite.1 h with ⟨hv, h'⟩ | ⟨-, h'⟩
  · obtain ⟨gi, hgi, he⟩ := List.any_eq_true.1 hv
    obtain ⟨-, rfl⟩ := via_pure.1 h'
    exact ⟨.inl ⟨gi, List.mem_range.1 hgi, of_decide_eq_true he⟩, rfl⟩
  · simp only [check_bind, readOutput_bind, via_ite, orReject_bind, via_pure, reject_end,
      and_false, or_false] at h'
    obtain ⟨hint, -, spk, value, hr, -, ⟨⟨h0, ha⟩, -, -, rfl⟩ | ⟨-, rfl, _, -, -, rfl⟩⟩ := h'
    · exact ⟨.inr ⟨hint, spk, value, hr, .inl ⟨h0, ha⟩⟩, rfl⟩
    · exact ⟨.inr ⟨hint, spk, value, hr, .inr hspk⟩, rfl⟩

theorem validatePrepeginOutputs_bind {f : Unit → V α}
    (h : (validatePrepeginOutputs E st s >>= f).Via G v b v') :
    (∀ i < st.nOutputs, IsHtlcVout s.intent i ∨ OtherOutput E st s G i) ∧
      (f ()).Via G v b v' := by
  simp only [validatePrepeginOutputs, Prog.bind_assoc, orReject_bind, ledgerAssert_bind] at h
  obtain ⟨cpfpSpk, hspk, -, h⟩ := h
  obtain ⟨seen, v₁, hl, hf⟩ := via_bind.1 h
  have := via_loop (P := fun k _ w => w = v ∧ ∀ i < k, IsHtlcVout s.intent i ∨
    OtherOutput E st s G i) hl ⟨rfl, by simp⟩ ?_
  · obtain ⟨rfl, hp⟩ := this
    exact ⟨fun i hi => hp i (by omega), via_pure_bind.1 hf⟩
  · rintro i _ _ w w' - - hbody ⟨rfl, hp⟩
    obtain ⟨hi, rfl⟩ := prepeginOutput_via hspk hbody
    refine ⟨rfl, fun j hj => ?_⟩
    rcases Nat.lt_succ_iff_lt_or_eq.1 hj with h' | rfl
    · exact hp j h'
    · exact hi

/-! ## The validator -/

theorem prepeginSighash_via {i : ℕ} {u : Unit} (h : (prepeginSighash st i).Via G v u v') :
    SighashOk G (.input i) [sighashDefault, sighashAll] ∧ v' = v := by
  simp only [prepeginSighash, getMap_bind, checkSighashType_end] at h
  exact ⟨h.2.1, h.2.2.symm⟩

/-- An accepted Pre-PegIn leaves nothing behind. -/
theorem validatePrepegin_via {u : Unit} (h : (validatePrepegin E st s).Via G v u v') :
    PrepeginAccepted E st s G ∧ v' = v := by
  simp only [validatePrepegin, check_bind] at h
  obtain ⟨hload, -, hint, hpol, hver, h⟩ := h
  obtain ⟨hsig, h⟩ := forUpto_bind h fun _ _ _ _ => prepeginSighash_via
  obtain ⟨hhtlc, h⟩ := forUpto_bind h fun _ _ _ _ => prepeginHtlcOutput_via
  obtain ⟨hother, h⟩ := validatePrepeginOutputs_bind h
  simp only [check_bind] at h
  obtain ⟨hcov, hfee, h⟩ := h
  obtain ⟨t, ht, h⟩ := computePrepeginTxid_bind h
  simp only [check_bind, checkCap_end] at h
  obtain ⟨htxid, hcap, rfl⟩ := h
  have hnw : st.hasNoWalletPolicy = false := by
    unfold prepeginPolicyIsNativeSegwit at hpol
    split at hpol
    · exact Bool.noConfusion hpol
    · simp only [Bool.and_eq_true, Bool.not_eq_true'] at hpol
      exact hpol.1.1
  exact ⟨⟨hload, by simpa using hint, hnw, hver, hsig, hhtlc, hother, hcov, hfee, ⟨t, ht, htxid⟩,
    by omega⟩, rfl⟩

end BabylonVault
