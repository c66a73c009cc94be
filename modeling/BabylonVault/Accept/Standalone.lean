/-
  What an accepted PSBT of a standalone flow is.

  * `LeafInput`: the input a flow spends with its leaf's own key.
  * `*_via`: for each flow, its input and the shape its leaf has, which is what the
    signer asks of it again.
-/
import BabylonVault.Accept.Leaf
import BabylonVault.Sign

namespace BabylonVault
open Bytes Prog

variable (E : Env) (st : SignPsbtState) (s : Session) (G : Allow)

/-- An input spent through its single leaf, with the leaf's own key. -/
structure LeafInput (idx : ℕ) (cb script : Bytes) (path : List UInt32) : Prop where
  leaf : LeafRead G st.nInputs idx cb script
  sighash : SighashOk G (.input idx) [sighashDefault]
  key : LeafKeyOk E st G (.input idx) (Buf.slice 32 script 1) path
  utxo : ∃ value spk, ReadsUtxo G (.input idx) value spk ∧
    CommittedBy E (tlsOf cb script) (vaultTaprootLeafHash E script) spk

/-- The signer accepts the leaf of a flow on Input 0. -/
def StandaloneShape (script : Bytes) : Prop :=
  standaloneLeafShape script.length (leafMetaOf E s script) = true

/-- The signer accepts the leaf of a PayoutFinalize. -/
def FinalizeShape (script : Bytes) : Prop :=
  finalizeLeafShape script.length (leafMetaOf E s script) = true

/-- A PSBT accepted for the leaf of Input 0, with the volatile state it leaves. -/
def LeafFlow (v v' : Volatile) : Prop :=
  (st.nInputs = 1 ∨ st.nOutputs = 1) ∧
    ∃ cb script path, LeafInput E st G 0 cb script path ∧ StandaloneShape E s script ∧
      v' = { v with leaf := leafMetaOf E s script }

variable {E st s G} {v v' : Volatile} {u : Unit} {cb script : Bytes}

/-! ## Leaf shapes -/

theorem slice_pfx (script : Bytes) :
    (Buf.slice 32 (Buf.ofBytes 68 script).toList 1 : Bytes32) = Buf.slice 32 script 1 := by
  refine Buf.ofBytes_ext fun i hi => ?_
  have h : (Buf.ofBytes 68 script).toList.getD (i + 1) 0 = script.getD (i + 1) 0 :=
    Buf.pick_ofBytes (by omega)
  simpa [List.getD_eq_getElem?_getD] using h

theorem pfx_pick {i : ℕ} (hi : i < 68) : (leafMetaOf E s script).pfx.pick i = script.getD i 0 :=
  Buf.pick_ofBytes hi

/-- A leaf without the Assert shape needs only a key at its front. -/
theorem standaloneShape_of (hl : 34 ≤ script.length) (h0 : script.getD 0 0 = opPushbytes32)
    (hs : leafHasAssertShape script.length (leafMetaOf E s script).pfx
      (leafMetaOf E s script).lastByte = false) : StandaloneShape E s script := by
  rw [StandaloneShape, standaloneLeafShape, hs, pfx_pick (by decide), h0]
  simp [hl]

theorem leafScript_of_buffered (h : (leafMetaOf E s script).buffered = true) :
    (tlsOf cb script).leafScript = script := if_pos (of_decide_eq_true h)

theorem parseClaimLeafScript_some {key : Bytes32} (h : parseClaimLeafScript script = some key) :
    key = Buf.slice 32 script 1 ∧ StandaloneShape E s script := by
  unfold parseClaimLeafScript at h
  split_ifs at h with h1 h2 h3
  simp only [ne_eq, not_not, depositorClaimLeafLen] at h1 h2
  refine ⟨(Option.some.inj h).symm, standaloneShape_of (by omega) h2 ?_⟩
  simp [leafHasAssertShape, h1, nopayoutLeafLen]

/-- What is left behind the timelock ends the script. -/
theorem parseCsvPush_suffix {bs rest : Bytes} {csv : ℕ} (h : parseCsvPush bs = some (csv, rest)) :
    rest <:+ bs := by
  unfold parseCsvPush at h
  rcases bs with _ | ⟨op, _ | ⟨len, rest'⟩⟩
  · simp at h
  · simp only [List.drop_nil, List.length_nil] at h
    split_ifs at h <;> simp_all
  · simp only [Option.ite_none_left_eq_some] at h
    obtain ⟨-, h⟩ := h
    split_ifs at h <;>
      simp only [Option.some.injEq, Prod.mk.injEq] at h <;> rw [← h.2]
    · exact (List.drop_suffix _ _).trans (List.suffix_cons _ _)
    · exact (List.suffix_cons _ _).trans (List.suffix_cons _ _)
    · exact ((List.drop_suffix _ _).trans (List.suffix_cons _ _)).trans (List.suffix_cons _ _)
    · exact List.suffix_cons _ _

theorem parseRefundLeafScript_some {key : Bytes32} {csv : ℕ}
    (h : parseRefundLeafScript script = some (key, csv)) :
    key = Buf.slice 32 script 1 ∧ StandaloneShape E s script := by
  unfold parseRefundLeafScript at h
  split_ifs at h with h1 h2 h3
  simp only [ne_eq, not_not] at h2
  split at h
  · simp at h
  next rest hp =>
    split_ifs at h with h4 h5 h6
    simp only [ne_eq, not_not] at h6
    simp only [Option.some.injEq, Prod.mk.injEq] at h
    refine ⟨h.1.symm, standaloneShape_of (by omega) h2 ?_⟩
    obtain ⟨pre, rfl⟩ := (h6 ▸ parseCsvPush_suffix hp).trans (List.drop_suffix 34 script)
    have hlast : (leafMetaOf E s (pre ++ [opCsv])).lastByte = opCsv := List.getLastD_concat
    have hcsv : opCsv ≠ opTrue := by decide
    simp [leafHasAssertShape, hlast, hcsv]

/-- The shape of a WC leaf. -/
theorem wcLeafShape_shape (hb : (leafMetaOf E s script).buffered = true)
    (h : wcLeafShape (tlsOf cb script) = true) : StandaloneShape E s script := by
  have hl : (tlsOf cb script).leafScript = script := leafScript_of_buffered hb
  simp only [wcLeafShape, hl, Bool.and_eq_true, decide_eq_true_eq] at h
  obtain ⟨⟨⟨⟨⟨⟨⟨⟨⟨hlen, h0⟩, -⟩, h34⟩, -⟩, -⟩, -⟩, -⟩, -⟩, -⟩ := h
  have hlen' : script.length = 73 := hlen
  refine standaloneShape_of (by omega) h0 ?_
  have hne : opSize ≠ opPushbytes32 := by decide
  rw [leafHasAssertShape, leafGroup0PushOff, pfx_pick (show 34 < 68 by decide), h34]
  simp [hne]

/-- The shape of a PayoutFinalize leaf. -/
theorem parsePayoutLeafScript_some {key : Bytes32} {csv : ℕ}
    (h : parsePayoutLeafScript script = some (key, csv)) :
    key = Buf.slice 32 script 1 ∧ FinalizeShape E s script := by
  simp only [parsePayoutLeafScript] at h
  split_ifs at h with h1 h2 h3 h4 h5 h6 h7 h8 <;>
    simp only [Option.some.injEq, Prod.mk.injEq, ne_eq, not_not] at h h2 h5 h6 <;>
    refine ⟨h.1.symm, ?_⟩ <;>
    rw [FinalizeShape, finalizeLeafShape, pfx_pick (by decide), pfx_pick (by decide),
      pfx_pick (by decide), h2, h5, h6] <;>
    simpa using h1

/-! ## The flows -/

theorem validateDisplayRefund_via (h : (validateDisplayRefund E st s).Via G v u v') :
    LeafFlow E st s G v v' := by
  simp only [validateDisplayRefund, check_bind, checkVersionLocktime_bind, getMap_bind,
    checkSighashType_bind, readWitnessUtxo_bind, readTapLeaf_bind, requireBufferedLeaf_bind,
    orReject_bind] at h
  obtain ⟨hn, -, -, hsig, value, spk, hutxo, cb, script, hleaf, hbuf, ⟨key, csv⟩, hparse, h⟩ := h
  rw [leafScript_of_buffered hbuf] at hparse
  obtain ⟨rfl, hshape⟩ := parseRefundLeafScript_some (E := E) (s := s) hparse
  simp only [check_bind, checkLeafKey_bind, refundVerifyTaprootCommitment_bind, checkCsvSequence,
    Prog.bind_assoc, getField_bind, getMap_bind, getExact_bind, readDerivation_bind,
    orReject_bind, getPreviousTxid_bind, addressOf_bind, display_end] at h
  obtain ⟨-, path, hkey, hcom, h⟩ := h
  obtain ⟨_, -, -, -, -, _, -, -, -, _, -, -, _, _, -, _, -, -, -, _, -, -, _, -, -, rfl⟩ := h
  simp only [not_or, not_not] at hn
  exact ⟨.inl hn.1, cb, script, path, ⟨hn.1 ▸ hleaf, hsig, hkey, value, spk, hutxo, hcom⟩, hshape,
    rfl⟩

theorem validateDisplayClaim_via (hleaf : LeafRead G st.nInputs 0 cb script)
    (h : (validateDisplayClaim E st (tlsOf cb script)).Via G
      { v with leaf := leafMetaOf E s script } u v') : LeafFlow E st s G v v' := by
  simp only [validateDisplayClaim, check_bind, checkVersionLocktime_bind,
    requireBufferedLeaf_bind, orReject_bind, getMap_bind, requireSequenceFinal_bind,
    checkSighashType_bind, readWitnessUtxo_bind, refundVerifyTaprootCommitment_bind,
    checkLeafKey_bind, readOutput_bind, addressOf_bind, getPreviousTxid_bind, display_end] at h
  obtain ⟨hn, -, hbuf, key, hparse, -, -, hsig, value, spk, hutxo, hcom, path, hkey, h⟩ := h
  obtain ⟨_, _, -, -, -, -, -, -, _, _, -, -, _, -, _, -, -, rfl⟩ := h
  rw [leafScript_of_buffered hbuf] at hparse
  obtain ⟨rfl, hshape⟩ := parseClaimLeafScript_some (E := E) (s := s) hparse
  simp only [not_or, not_not] at hn
  exact ⟨.inl hn.1, cb, script, path, ⟨hleaf, hsig, hkey, value, spk, hutxo, hcom⟩, hshape, rfl⟩

theorem validateDisplayReclaim_via (hleaf : LeafRead G st.nInputs 0 cb script)
    (h : (validateDisplayReclaim E st (tlsOf cb script)).Via G
      { v with leaf := leafMetaOf E s script } u v') : LeafFlow E st s G v v' := by
  simp only [validateDisplayReclaim, check_bind, checkVersionLocktime_bind,
    requireBufferedLeaf_bind, orReject_bind, getMap_bind, getField_bind, getExact_bind,
    checkSighashType_bind, readWitnessUtxo_bind, refundVerifyTaprootCommitment_bind,
    checkLeafKey_bind, addressOf_bind, getPreviousTxid_bind, display_end] at h
  obtain ⟨hn, -, hbuf, key, hparse, -, -, _, -, -, hsig, value, spk, hutxo, -, hcom, path, hkey,
    h⟩ := h
  obtain ⟨-, _, -, -, -, _, -, -, _, -, _, -, _, -, -, rfl⟩ := h
  rw [leafScript_of_buffered hbuf] at hparse
  obtain ⟨rfl, hshape⟩ := parseClaimLeafScript_some (E := E) (s := s) hparse
  simp only [not_or, not_not] at hn
  exact ⟨.inl hn.1, cb, script, path, ⟨hleaf, hsig, hkey, value, spk, hutxo, hcom⟩, hshape, rfl⟩

theorem validateDisplayAssert_via (hleaf : LeafRead G st.nInputs 0 cb script)
    (hshape : StandaloneShape E s script)
    (h : (validateDisplayAssert E st (tlsOf cb script)).Via G
      { v with leaf := leafMetaOf E s script } u v') : LeafFlow E st s G v v' := by
  simp only [validateDisplayAssert, check_bind, checkVersionLocktime_bind, leafMeta_bind,
    getMap_bind, requireSequenceFinal_bind, checkSighashType_bind, readWitnessUtxo_bind,
    refundVerifyTaprootCommitment_bind, checkLeafKey_bind, getPreviousTxid_bind,
    display_end] at h
  obtain ⟨hn, -, -, -, hsig, value, spk, hutxo, hcom, path, hkey, _, -, -, -, rfl⟩ := h
  have hslice : (Buf.slice 32 (leafMetaOf E s script).pfx.toList 1 : Bytes32) =
      Buf.slice 32 script 1 := slice_pfx script
  rw [hslice] at hkey
  exact ⟨.inl (not_not.1 hn), cb, script, path, ⟨hleaf, hsig, hkey, value, spk, hutxo, hcom⟩, hshape, rfl⟩

theorem validateDisplayWc_via (h : (validateDisplayWc E st s).Via G v u v') :
    LeafFlow E st s G v v' := by
  simp only [validateDisplayWc, check_bind, checkVersionLocktime_bind, readTapLeaf_bind,
    requireBufferedLeaf_bind, requireSequenceFinal_bind, checkSighashType_bind, checkLeafKey_bind,
    readWitnessUtxo_bind, refundVerifyTaprootCommitment_bind, readOutput_bind, addressOf_bind,
    display_end] at h
  obtain ⟨hn, -, cb, script, hleaf, hbuf, hwc, -, hsig, path, hkey, value, spk, hutxo, hcom, h⟩ := h
  obtain ⟨_, _, -, -, -, _, -, -, -, rfl⟩ := h
  rw [leafScript_of_buffered hbuf] at hkey
  simp only [not_or, not_not] at hn
  exact ⟨.inr hn.2, cb, script, path, ⟨hleaf, hsig, hkey, value, spk, hutxo, hcom⟩,
    wcLeafShape_shape hbuf hwc, rfl⟩

theorem validateDisplayPayoutFinalize_via
    (h : (validateDisplayPayoutFinalize E st s).Via G v u v') :
    ∃ cb script path, LeafInput E st G 1 cb script path ∧ FinalizeShape E s script ∧
      v' = ⟨{ v.tr with isPayoutSigning := false }, leafMetaOf E s script⟩ := by
  simp only [validateDisplayPayoutFinalize, via_modify_bind, check_bind, readFinalizeUtxo,
    checkVersionLocktime_bind, readTapLeaf_bind, requireBufferedLeaf_bind, orReject_bind,
    checkSighashType_bind, Prog.bind_assoc, getValue_bind, refundVerifyTaprootCommitment_bind,
    checkLeafKey_bind, checkCsvSequence, getField_bind, readOutput_bind, addressOf_bind,
    getMap_bind, getPreviousTxid_bind] at h
  obtain ⟨-, cb, script, hleaf, hbuf, ⟨key, csv⟩, hparse, -, hsig, wu, hwu, -, -, -, hl, hcom, path,
    hkey, h⟩ := h
  obtain ⟨_, -, -, -, _, _, -, -, -, _, -, -, _, _, -, -, -, -, _, -, h⟩ := h
  rw [leafScript_of_buffered hbuf] at hparse
  obtain ⟨rfl, hshape⟩ := parsePayoutLeafScript_some (E := E) (s := s) hparse
  obtain ⟨_, v₁, hcap, h⟩ := via_bind.1 h
  have hv₁ : v₁ = ⟨{ v.tr with isPayoutSigning := false }, leafMetaOf E s script⟩ := by
    unfold finalizeFeeCap at hcap
    split_ifs at hcap
    · simp only [check_bind, check_end] at hcap
      exact hcap.2.2.symm
    · exact (via_pure.1 hcap).2.symm
  simp only [check_bind, display_end] at h
  exact ⟨cb, script, path, ⟨hleaf, hsig, hkey, _, _, ⟨wu, hwu, hl, rfl, rfl⟩, hcom⟩, hshape,
    h.2.2.symm.trans hv₁⟩

/-- A PoP has one input, without a leaf. -/
theorem validateDisplayPop_via (h : (validateDisplayPop E st s).Via G v u v') :
    (st.nInputs = 1 ∧ st.nOutputs = 1) ∧ SighashOk G (.input 0) [sighashDefault] ∧ v' = v := by
  have hvia := h
  simp only [validateDisplayPop, ledgerAssert_bind, check_bind, getValue_bind, orReject_bind,
    getMap_bind, checkSighashType_bind] at h
  obtain ⟨hv, hn, -, _, -, -, _, -, -, hsig, -⟩ := h
  have hkeep : v' = v :=
    (Steady.keeps (X := AnyStop) (P := (· = v)) (steady_validateDisplayPop hv)).via rfl hvia
  simp only [not_or, not_not] at hn
  exact ⟨hn, hsig, hkeep⟩

end BabylonVault
