/-
  What an accepted Payout and an accepted NoPayout are.

  * `ReadsAssert0`: the Assert:0 input both spend.
  * `PayoutOutputs`, `PayoutFeeOk`: the outputs for a claimer, and the fee.
  * `PayoutAccepted`, `NopayoutAccepted`: the whole, with what each leaves behind for
    the signer.
-/
import BabylonVault.Accept.Leaf

namespace BabylonVault
open Bytes Prog

variable (E : Env) (st : SignPsbtState) (s : Session) (G : Allow)

/-- An Assert:0 UTXO of this value, committed to the leaf read and funded within
    bounds. -/
structure ReadsAssert0 (m : MapRef) (cb script : Bytes) (value : UInt64) : Prop where
  utxo : ∃ spk, ReadsUtxo G m value spk ∧
    CommittedBy E (tlsOf cb script) (vaultTaprootLeafHash E script) spk
  lower : ¬value < dustLimit
  upper : ¬(maxCouncilNopayoutVsize ≤ uint64Max / s.intent.baseFeeRate ∧
    value > dustLimit + s.intent.baseFeeRate * maxCouncilNopayoutVsize)

/-- Input 0 of a Payout: the vault UTXO of group `gi`. -/
structure PayoutVault (gi : ℕ) : Prop where
  vout : G (.field (.input 0) psbtInOutputIndex) (.present 0)
  sighash : SighashOk G (.input 0) [sighashDefault]
  leaf : ∃ leaf, vaultBuildVaultUtxoLeaf s.intent gi scriptMaxLen = some leaf
  utxo : ∃ spk, vaultBuildVaultUtxoScriptpubkey E s.intent gi = some spk ∧
    ReadsUtxo G (.input 0) (s.intent.group gi).vaultAmount spk

/-- The outputs of a Payout of group `gi` for claimer `ci`; a Payout without a third
    output counts it as zero. -/
structure PayoutOutputs (gi ci : ℕ) (out0 out1 out2 : UInt64) : Prop where
  first : ∃ spk maxLen, ReadsOutput G st.nOutputs 0 maxLen spk out0 ∧
    (ci = 0 ∨ ci = s.intent.keeperCount + 1 → bip86P2trSpk E s.intent.depositorPk = some spk)
  second : ∃ spk maxLen, ReadsOutput G st.nOutputs 1 maxLen spk out1
  commission : ci = 0 → out1 ≤ (s.intent.group gi).commissionFee
  anchor : ci ≠ 0 → out1 = dustLimit
  third : if ci = 0 then out2 = dustLimit ∧
      ∃ spk maxLen, ReadsOutput G st.nOutputs 2 maxLen spk out2
    else out2 = 0
  sum : ¬out0 + out1 < out0 ∧ ¬out0 + out1 + out2 < out0 + out1

/-- The fee of a Payout, as the source computes it. -/
structure PayoutFeeOk (gi : ℕ) (assert0 total : UInt64) : Prop where
  covered : ¬total > (s.intent.group gi).vaultAmount + assert0
  pos : ¬(s.intent.group gi).vaultAmount + assert0 - total = 0
  vsize : ¬maxPayoutVsizeBase + maxPayoutVsizePerParticipant *
    (UInt64.ofNat s.intent.keeperCount + UInt64.ofNat s.intent.challengerCount) >
      uint64Max / s.intent.baseFeeRate
  bound : ¬(s.intent.group gi).vaultAmount + assert0 - total > s.intent.baseFeeRate *
    (maxPayoutVsizeBase + maxPayoutVsizePerParticipant *
      (UInt64.ofNat s.intent.keeperCount + UInt64.ofNat s.intent.challengerCount))

/-- A Payout accepted for group `gi` and claimer `ci`, with the leaf of Input 1. -/
structure PayoutAccepted (gi ci : ℕ) (cb script : Bytes) : Prop where
  loaded : s.ctx.state = .intentLoaded
  version : ¬(st.txVersion < 2 ∨ st.locktime ≠ 0)
  nInputs : st.nInputs = 2
  nOutputs : st.nOutputs = if ci = 0 then 3 else 2
  map : G (.map .input 2 0) true
  found : ∃ txid : Bytes32, G (.value (.input 0) [psbtInPreviousTxid] 32) (some txid.toList) ∧
    findPeginGroup E s.intent txid = some gi
  leaf : LeafRead G st.nInputs 1 cb script
  claimer : findClaimer s.intent gi (Buf.slice 32 script 1) = some ci
  built : vaultBuildAssert0PayoutLeaf s.intent gi ci scriptMaxLen = some script
  vault : PayoutVault E s G gi
  fresh : bit s.ctx.payoutClaimerMask (payoutSlot s.intent gi ci) = false
  cap : ¬s.ctx.payoutSigned ≥ s.intent.vaultCount * (s.intent.keeperCount + 2)
  value : ∃ assert0 out0 out1 out2, ReadsAssert0 E s G (.input 1) cb script assert0 ∧
    PayoutOutputs E st s G gi ci out0 out1 out2 ∧ PayoutFeeOk s gi assert0 (out0 + out1 + out2)

/-- A NoPayout accepted for challenger `ci`, with the leaf of Input 0. -/
structure NopayoutAccepted (ci : ℕ) (cb script : Bytes) : Prop where
  loaded : s.ctx.state = .intentLoaded
  nInputs : st.nInputs = 3
  nOutputs : st.nOutputs = 1
  leaf : LeafRead G st.nInputs 0 cb script
  shape : nopayoutLeafShape s.intent (tlsOf cb script) = true
  challenger : findChallenger s.intent (Buf.slice 32 script 35) = some ci
  built : vaultBuildNopayoutLeaf s.intent ci nopayoutLeafLen = some script
  sighash : SighashOk G (.input 0) [sighashDefault]
  value : ∃ assert0, ReadsAssert0 E s G (.input 0) cb script assert0
  cap : ¬s.ctx.nopayoutSigned ≥
    s.intent.vaultCount * (s.intent.keeperCount + s.intent.challengerCount)

variable {E st s G} {v v' : Volatile} {α : Type} {b : α} {m : MapRef} {gi ci : ℕ}
  {cb script : Bytes}

/-! ## Parts -/

theorem readAssert0Value_bind {f : UInt64 → V α}
    (h : (readAssert0Value E s m (tlsOf cb script) >>= f).Via G
      { v with leaf := leafMetaOf E s script } b v') :
    ∃ value, ReadsAssert0 E s G m cb script value ∧
      (f value).Via G { v with leaf := leafMetaOf E s script } b v' := by
  simp only [readAssert0Value, Prog.bind_assoc, getValue_bind, check_bind, via_pure_bind,
    refundVerifyTaprootCommitment_bind] at h
  obtain ⟨wu, hG, -, hlow, hup, hl, hcom, h⟩ := h
  exact ⟨_, ⟨⟨_, ⟨wu, hG, hl, rfl, rfl⟩, hcom⟩, hlow, hup⟩, h⟩

theorem vaultUtxoScriptpubkey_eq {it : VaultIntent} {leaf : Bytes} {r : UInt8 × Bytes32}
    (hleaf : vaultBuildVaultUtxoLeaf it gi scriptMaxLen = some leaf)
    (ht : E.tweakPubkey vaultNumsXonly (some (vaultTaprootLeafHash E leaf)) = some r) :
    vaultBuildVaultUtxoScriptpubkey E it gi = some (p2trSpk r.2) := by
  simp [vaultBuildVaultUtxoScriptpubkey, hleaf, vaultTaprootTweakScriptpubkey, ht]

theorem payoutValidateInput0_bind {f : Unit → V α}
    (h : (payoutValidateInput0 E s (.input 0) gi >>= f).Via G v b v') :
    PayoutVault E s G gi ∧ (f ()).Via G v b v' := by
  simp only [payoutValidateInput0, payoutCheckWitnessUtxo, payoutCheckSingleLeafScript,
    Prog.bind_assoc, getField_bind, check_bind, checkSighashType_bind, orReject_bind,
    readWitnessUtxo_bind, getValue_bind] at h
  obtain ⟨vout, hvout, rfl, seq, -, -, hsig, leaf, hleaf, tw, htw, value, spk, hutxo, rfl, rfl, -, -,
    -, h⟩ := h
  exact ⟨⟨hvout, hsig, ⟨leaf, hleaf⟩, ⟨_, vaultUtxoScriptpubkey_eq hleaf htw, hutxo⟩⟩, h⟩

theorem payoutOutput0_bind {f : UInt64 → V α}
    (h : (payoutOutput0 E st s ci >>= f).Via G v b v') :
    ∃ out0, (∃ spk maxLen, ReadsOutput G st.nOutputs 0 maxLen spk out0 ∧
        (ci = 0 ∨ ci = s.intent.keeperCount + 1 →
          bip86P2trSpk E s.intent.depositorPk = some spk)) ∧ (f out0).Via G v b v' := by
  unfold payoutOutput0 at h
  split_ifs at h with hc
  · simp only [Prog.bind_assoc, readOutput_bind, orReject_bind, check_bind, via_pure_bind] at h
    obtain ⟨spk, value, hr, -, _, hspk, rfl, -, h⟩ := h
    exact ⟨value, ⟨spk, _, hr, fun _ => hspk⟩, h⟩
  · simp only [Prog.bind_assoc, readOutputVarlen_bind, check_bind, via_pure_bind] at h
    obtain ⟨spk, value, hr, -, -, h⟩ := h
    exact ⟨value, ⟨spk, _, hr, fun h' => absurd h' hc⟩, h⟩

theorem payoutOutput1_bind {f : UInt64 → V α}
    (h : (payoutOutput1 E st s gi ci >>= f).Via G v b v') :
    ∃ out1, (∃ spk maxLen, ReadsOutput G st.nOutputs 1 maxLen spk out1) ∧
      (ci = 0 → out1 ≤ (s.intent.group gi).commissionFee) ∧ (ci ≠ 0 → out1 = dustLimit) ∧
      (f out1).Via G v b v' := by
  unfold payoutOutput1 at h
  split_ifs at h with hd h0
  · simp only [Prog.bind_assoc, readOutput_bind, orReject_bind, check_bind, via_pure_bind] at h
    obtain ⟨spk, value, hr, -, hv, _, -, -, h⟩ := h
    exact ⟨value, ⟨spk, _, hr⟩, fun h0 => by omega, fun _ => hv, h⟩
  · simp only [Prog.bind_assoc, readOutputVarlen_bind, check_bind, via_pure_bind] at h
    obtain ⟨spk, value, hr, hfee, -, h⟩ := h
    exact ⟨value, ⟨spk, _, hr⟩, fun _ => UInt64.not_lt.1 hfee, fun hne => absurd h0 hne, h⟩
  · simp only [Prog.bind_assoc, readOutputVarlen_bind, check_bind, via_pure_bind] at h
    obtain ⟨spk, value, hr, hv, h⟩ := h
    exact ⟨value, ⟨spk, _, hr⟩, fun he => absurd he h0, fun _ => hv, h⟩

theorem payoutOutput2_bind {total : UInt64} {f : UInt64 → V α}
    (h : (payoutOutput2 E st ci total >>= f).Via G v b v') :
    ∃ out2, (if ci = 0 then out2 = dustLimit ∧
          ∃ spk maxLen, ReadsOutput G st.nOutputs 2 maxLen spk out2 else out2 = 0) ∧
      ¬total + out2 < total ∧ (f (total + out2)).Via G v b v' := by
  unfold payoutOutput2 at h
  split_ifs at h with h0
  · simp only [Prog.bind_assoc, readOutputVarlen_bind, check_bind, addChecked_bind] at h
    obtain ⟨spk, value, hr, rfl, hs, h⟩ := h
    exact ⟨dustLimit, by rw [if_pos h0]; exact ⟨rfl, spk, _, hr⟩, hs, h⟩
  · refine ⟨0, by rw [if_neg h0], by simp, ?_⟩
    rw [UInt64.add_zero]
    exact via_pure_bind.1 h

theorem payoutFee_bind {a0 total : UInt64} {f : Unit → V α}
    (h : (payoutFee s gi a0 total >>= f).Via G v b v') :
    PayoutFeeOk s gi a0 total ∧ (f ()).Via G v b v' := by
  simp only [payoutFee, Prog.bind_assoc, check_bind] at h
  obtain ⟨hc, hp, hv, hb, h⟩ := h
  exact ⟨⟨hc, hp, hv, hb⟩, h⟩

/-! ## The validators -/

/-- The claimer of a Payout is the owner of its Assert:0 leaf. -/
theorem detectPayoutClaimer_bind {f : ℕ → V α}
    (h : (detectPayoutClaimer s (tlsOf cb script) gi >>= f).Via G
      { v with leaf := leafMetaOf E s script } b v') :
    ∃ ci, findClaimer s.intent gi (Buf.slice 32 script 1) = some ci ∧
      vaultBuildAssert0PayoutLeaf s.intent gi ci scriptMaxLen = some script ∧
      (f ci).Via G { v with leaf := leafMetaOf E s script } b v' := by
  simp only [detectPayoutClaimer, Prog.bind_assoc, requireBufferedLeaf_bind, check_bind,
    orReject_bind, via_pure_bind] at h
  obtain ⟨hbuf, -, ci, hci, leaf, hleaf, rfl, h⟩ := h
  have hl : (tlsOf cb script).leafScript = script := if_pos (of_decide_eq_true hbuf)
  rw [hl] at hci hleaf
  exact ⟨ci, hci, hleaf, h⟩

/-- An accepted Payout leaves its group and its claimer behind for the signer. -/
theorem validatePayout_via {u : Unit} (h : (validatePayout E st s).Via G v u v') :
    ∃ gi ci cb script, PayoutAccepted E st s G gi ci cb script ∧
      v' = ⟨{ v.tr with vaultGroupIndex := gi, payoutIndex := ci, isPayoutSigning := true },
        leafMetaOf E s script⟩ := by
  simp only [validatePayout, check_bind, getMap_bind, getPreviousTxid_bind, orReject_bind,
    readTapLeaf_bind] at h
  obtain ⟨hload, hver, hn, hmap, txid, htxid, gi, hgi, hlt, cb, script, hleaf, h⟩ := h
  obtain ⟨ci, hci, hscript, h⟩ := detectPayoutClaimer_bind h
  obtain ⟨a0, ha0, h⟩ := readAssert0Value_bind h
  simp only [via_modify_bind, checkCap_bind, check_bind] at h
  obtain ⟨hfresh, hout, h⟩ := h
  obtain ⟨hvault, h⟩ := payoutValidateInput0_bind h
  simp only [payoutValidateInput1, Prog.bind_assoc, getField_bind, check_bind] at h
  obtain ⟨_, -, -, _, -, -, h⟩ := h
  obtain ⟨out0, h0, h⟩ := payoutOutput0_bind h
  obtain ⟨out1, h1, hcom, hanchor, h⟩ := payoutOutput1_bind h
  obtain ⟨hs1, h⟩ := addChecked_bind.1 h
  obtain ⟨out2, h2, hs2, h⟩ := payoutOutput2_bind h
  obtain ⟨hfee, h⟩ := payoutFee_bind h
  simp only [checkCap_bind, via_modify] at h
  obtain ⟨hcap, rfl⟩ := h
  exact ⟨gi, ci, cb, script, ⟨hload, hver, not_not.1 hn, hout, hmap, ⟨txid, htxid, hgi⟩, hleaf,
    hci, hscript, hvault, hfresh, hcap, a0, out0, out1, out2, ha0,
    ⟨h0, h1, hcom, hanchor, h2, hs1, hs2⟩, hfee⟩, rfl⟩

/-- An accepted NoPayout leaves its challenger behind for the signer. -/
theorem validateNopayout_via {u : Unit} (h : (validateNopayout E st s).Via G v u v') :
    ∃ ci cb script, NopayoutAccepted E st s G ci cb script ∧
      v' = ⟨{ v.tr with nopayoutChallengerIndex := ci }, leafMetaOf E s script⟩ := by
  simp only [validateNopayout, check_bind, checkCap_bind, readTapLeaf_bind,
    requireBufferedLeaf_bind, orReject_bind, checkSighashType_bind] at h
  obtain ⟨hload, -, hn, cb, script, hleaf, hbuf, hshape, ci, hci, hcap, hscript, hsig, h⟩ := h
  have hl : (tlsOf cb script).leafScript = script := if_pos (of_decide_eq_true hbuf)
  rw [hl] at hci hscript
  obtain ⟨a0, ha0, h⟩ := readAssert0Value_bind h
  simp only [getField_bind, check_bind, orReject_bind, readOutput_bind, via_modify] at h
  obtain ⟨_, -, -, _, -, _, _, -, -, -, -, -, -, rfl⟩ := h
  simp only [not_or, not_not] at hn
  exact ⟨ci, cb, script, ⟨hload, hn.1, hn.2, hleaf, hshape, hci, hscript, hsig, ⟨a0, ha0⟩, hcap⟩,
    rfl⟩

end BabylonVault
