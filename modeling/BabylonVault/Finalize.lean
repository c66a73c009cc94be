/-
  PayoutFinalize, with and without an intent.

  * `FinalizeFacts`, `FinalizeSession`: what the validator asks of the PSBT, and what it asks
    of the session (`validateDisplayPayoutFinalize_iff`).
  * `dispatch_finalize`: which PSBTs are routed to it.
  * `finalize_under_intent`: when a PayoutFinalize that is accepted in IDLE is accepted under
    the intent of one vault.
-/
import BabylonVault.Agreement

namespace BabylonVault
open Bytes Prog

variable (E : Env) (st : SignPsbtState) (s : Session) (G : Allow)

/-- What a PayoutFinalize must be in any state. -/
structure FinalizeFacts (cb script : Bytes) (csv : ℕ) (assert0 received : UInt64)
    (txid : Bytes32) : Prop where
  version : ¬(st.txVersion < 2 ∨ st.locktime ≠ 0)
  leaf : LeafRead G st.nInputs 1 cb script
  buffered : script.length ≤ scriptMaxLen
  parsed : parsePayoutLeafScript script = some (Buf.slice 32 script 1, csv)
  sighash : SighashOk G (.input 1) [sighashDefault]
  utxo : ∃ spk, ReadsUtxo G (.input 1) assert0 spk ∧
    CommittedBy E (tlsOf cb script) (vaultTaprootLeafHash E script) spk
  lower : ¬assert0 < dustLimit
  key : ∃ path, LeafKeyOk E st G (.input 1) (Buf.slice 32 script 1) path
  sequence : ∃ x, G (.field (.input 1) psbtInSequence) (.present x) ∧
    ¬(x &&& bip68DisableFlag ≠ 0 ∨ x &&& bip68TimeBasedFlag ≠ 0) ∧ x.toNat = csv
  paid : ∃ spk address, ReadsOutput G 2 0 p2trSpkLen spk received ∧ spk.length = p2trSpkLen ∧
    spkIsBip86P2trOf E spk (Buf.slice 32 script 1) = true ∧ E.scriptAddress spk = some address ∧
    G (.show (.payoutFinalize received address (st.inputsTotalAmount - st.outputsTotalAmount) txid))
      true
  pos : ¬received = 0
  anchor : ∃ spk, ReadsOutput G 2 1 p2trSpkLen spk dustLimit ∧ spk.length = p2trSpkLen ∧
    spkIsBip86P2trOf E spk (Buf.slice 32 script 1) = true
  vault : G (.map .input st.nInputs 0) true ∧
    G (.value (.input 0) [psbtInPreviousTxid] 32) (some txid.toList)
  covered : ¬st.inputsTotalAmount < st.outputsTotalAmount

/-- The fee cap, for the one group of a single-vault intent. -/
def FinalizeCap (received : UInt64) : Prop :=
  s.ctx.state = .intentLoaded ∧ s.intent.vaultCount = 1 →
    ¬received ≥ (s.intent.group 0).vaultAmount - dustLimit ∧
    ¬(maxPayoutfinalizeVsize > uint64Max / s.intent.baseFeeRate ∨
      (s.intent.group 0).vaultAmount - dustLimit - received >
        s.intent.baseFeeRate * maxPayoutfinalizeVsize)

/-- What the session asks of it. -/
structure FinalizeSession (csv : ℕ) (assert0 received : UInt64) : Prop where
  timelock : ¬(s.ctx.state = .intentLoaded ∧ csv ≠ s.intent.payoutTimelock)
  upper : ¬(s.ctx.state = .intentLoaded ∧
    maxCouncilNopayoutVsize ≤ uint64Max / s.intent.baseFeeRate ∧
    assert0 > dustLimit + s.intent.baseFeeRate * maxCouncilNopayoutVsize)
  cap : FinalizeCap s received

variable {E st s G} {v v' : Volatile} {α : Type} {b : α} {p : Psbt} {cb script spk : Bytes}
  {csv : ℕ} {assert0 received : UInt64} {txid : Bytes32} {d d' d₀ : Device} {ls : List Exchange}

/-! ## The validator -/

theorem finalizeFeeCap_bind {f : Unit → V α} :
    (finalizeFeeCap s received >>= f).Via G v b v' ↔ FinalizeCap s received ∧ (f ()).Via G v b v' := by
  unfold finalizeFeeCap FinalizeCap
  split_ifs with h
  · simp only [Prog.bind_assoc, check_bind, and_assoc, h, true_imp_iff, and_self]
  · rw [via_pure_bind]
    exact ⟨fun hf => ⟨fun h' => absurd h' h, hf⟩, And.right⟩

theorem validateDisplayPayoutFinalize_iff : (validateDisplayPayoutFinalize E st s).Via G v () v' ↔
    ∃ cb script csv assert0 received txid,
      FinalizeFacts E st G cb script csv assert0 received txid ∧
      FinalizeSession s csv assert0 received ∧
      v' = ⟨{ v.tr with isPayoutSigning := false }, leafMetaOf E s script⟩ := by
  have hbuf : ∀ {script}, (leafMetaOf E s script).buffered = true ↔ script.length ≤ scriptMaxLen :=
    fun {_} => decide_eq_true_iff
  have htls : ∀ {cb script}, script.length ≤ scriptMaxLen → (tlsOf cb script).leafScript = script :=
    fun {_ _} h => if_pos h
  simp only [validateDisplayPayoutFinalize, via_modify_bind, check_bind, readFinalizeUtxo,
    checkVersionLocktime_bind, readTapLeaf_bind, requireBufferedLeaf_bind, orReject_bind,
    checkSighashType_bind, Prog.bind_assoc, getValue_bind, refundVerifyTaprootCommitment_bind,
    checkLeafKey_bind, checkCsvSequence, getField_bind, readOutput_bind, addressOf_bind,
    getMap_bind, getPreviousTxid_bind, finalizeFeeCap_bind, display_end, hbuf]
  constructor
  · rintro ⟨hver, cb, script, hleaf, hb, ⟨key, csv⟩, hparse, htime, hsig, wu, hwu, -, hlow, hup, hl,
      hcom, path, hkey, seq, hseq, hflags, hcsv, spk0, received, hr0, hl0, h86, address, haddr, hpos,
      spk1, value1, hr1, hl1, ⟨rfl, h86'⟩, hm0, txid, htxid, hcap, hcov, hshow, rfl⟩
    rw [htls hb] at hparse
    obtain ⟨rfl, -⟩ := parsePayoutLeafScript_some (E := E) (s := s) hparse
    exact ⟨cb, script, csv, _, received, txid, ⟨hver, hleaf, hb, hparse, hsig,
      ⟨_, ⟨wu, hwu, hl, rfl, rfl⟩, hcom⟩, hlow, ⟨path, hkey⟩, ⟨seq, hseq, hflags, hcsv⟩,
      ⟨spk0, address, hr0, hl0, h86, haddr, hshow⟩, hpos, ⟨spk1, hr1, hl1, h86'⟩, ⟨hm0, htxid⟩, hcov⟩,
      ⟨htime, hup, hcap⟩, rfl⟩
  · rintro ⟨cb, script, csv, _, received, txid, hf, ⟨htime, hup, hcap⟩, rfl⟩
    obtain ⟨_, ⟨wu, hwu, hl, rfl, rfl⟩, hcom⟩ := hf.utxo
    obtain ⟨path, hkey⟩ := hf.key
    obtain ⟨seq, hseq, hflags, hcsv⟩ := hf.sequence
    obtain ⟨spk0, address, hr0, hl0, h86, haddr, hshow⟩ := hf.paid
    obtain ⟨spk1, hr1, hl1, h86'⟩ := hf.anchor
    refine ⟨hf.version, cb, script, hf.leaf, hf.buffered, (Buf.slice 32 script 1, csv), ?_, htime,
      hf.sighash, wu, hwu, by omega, hf.lower, hup, hl, hcom, path, hkey, seq, hseq, hflags, hcsv,
      spk0, received, hr0, hl0, h86, address, haddr, hf.pos, spk1, dustLimit, hr1, hl1, ⟨rfl, h86'⟩,
      hf.vault.1, txid, hf.vault.2, hcap, hf.covered, hshow, rfl⟩
    rw [htls hf.buffered]
    exact hf.parsed

/-! ## The route -/

theorem through_iff {flow F : Flow} {m : V Unit} :
    (through flow m).Via G v F v' ↔ F = flow ∧ m.Via G v () v' := by
  constructor
  · exact through_via
  · rintro ⟨rfl, h⟩
    exact via_bind.2 ⟨(), v', h, via_pure.2 ⟨rfl, rfl⟩⟩

theorem dispatchLeaf_ne_finalize : ¬(dispatchLeaf E st s).Via G v .payoutFinalize v' := by
  simp only [dispatchLeaf, readTapLeaf_bind, leafMeta_bind, via_ite, check_bind, reject_end,
    through_iff, reduceCtorEq, false_and, and_false, or_self, exists_false, not_false_eq_true]

/-- A PayoutFinalize under an intent spends none of the intent's PegIns. -/
theorem dispatch_finalize : (dispatch E st s).Via G v .payoutFinalize v' ↔
    (st.txVersion ≠ 0 ∧ st.hasNoWalletPolicy = true ∧ st.nInputs = 2 ∧ st.nOutputs = 2) ∧
    (s.ctx.state = .intentLoaded → ∃ txid : Bytes32, G (.map .input 2 0) true ∧
      G (.value (.input 0) [psbtInPreviousTxid] 32) (some txid.toList) ∧
      findPeginGroup E s.intent txid = none) ∧
    (validateDisplayPayoutFinalize E st s).Via G v () v' := by
  have hrest : (dispatchRest E st s).Via G v .payoutFinalize v' ↔
      (st.hasNoWalletPolicy = true ∧ st.nInputs = 2 ∧ st.nOutputs = 2) ∧
        (validateDisplayPayoutFinalize E st s).Via G v () v' := by
    simp only [dispatchRest, via_ite, through_iff, reduceCtorEq, false_and, and_false, false_or,
      true_and, Bool.not_eq_false, dispatchLeaf_ne_finalize, or_false, and_assoc]
  simp only [dispatch, via_ite, through_iff, reduceCtorEq, false_and, and_false, false_or,
    getMap_bind, getPreviousTxid_bind, hrest]
  constructor
  · rintro ⟨hver, -, -, ⟨⟨hl, -⟩, ho, hm, txid, htxid, hfind, hshape, h⟩ | ⟨hno, hshape, h⟩⟩
    · exact ⟨⟨hver, hshape⟩, fun _ => ⟨txid, hm, htxid, by simpa using hfind⟩, h⟩
    · exact ⟨⟨hver, hshape⟩, fun hl => absurd ⟨hl, hshape.1, hshape.2.1⟩ hno, h⟩
  · rintro ⟨⟨hver, hnw, hi, ho⟩, hroute, h⟩
    refine ⟨hver, by omega, by omega, ?_⟩
    by_cases hl : s.ctx.state = .intentLoaded
    · obtain ⟨txid, hm, htxid, hfind⟩ := hroute hl
      exact .inl ⟨⟨hl, hnw, hi⟩, by omega, hm, txid, htxid, by simp [hfind], ⟨hnw, hi, ho⟩, h⟩
    · exact .inr ⟨fun hc => hl hc.1, ⟨hnw, hi, ho⟩, h⟩

/-! ## Two sessions -/

theorem ReadsOutput.serves {n i maxScript : ℕ} {value : UInt64}
    (h : ReadsOutput p.Allows n i maxScript spk value) : ReadsOutput p.Serves n i maxScript spk value := by
  obtain ⟨hm, ⟨raw, hraw, hl, hv⟩, hspk⟩ := h
  exact ⟨Psbt.serves_map hm, ⟨raw, Psbt.serves_value hraw, hl, hv⟩, Psbt.serves_value hspk⟩

theorem SighashOk.serves {m : MapRef} {allowed : List UInt32} (h : SighashOk p.Allows m allowed) :
    SighashOk p.Serves m allowed :=
  h.imp Psbt.serves_absent fun ⟨x, hx, ha⟩ => ⟨x, hx, Psbt.serves_present ha⟩

/-- What was found once of a committed PSBT is found with a host that serves it. -/
theorem FinalizeFacts.serves (h : FinalizeFacts E st p.Allows cb script csv assert0 received txid) :
    FinalizeFacts E st p.Serves cb script csv assert0 received txid := by
  obtain ⟨spk, hutxo, hcom⟩ := h.utxo
  obtain ⟨path, hkey⟩ := h.key
  obtain ⟨seq, hseq, hrest⟩ := h.sequence
  obtain ⟨spk0, address, hr0, hl0, h86, haddr, -⟩ := h.paid
  obtain ⟨spk1, hr1, hrest1⟩ := h.anchor
  exact ⟨h.version, h.leaf.serves, h.buffered, h.parsed, h.sighash.serves, ⟨spk, hutxo.serves, hcom⟩,
    h.lower, ⟨path, hkey.serves⟩, ⟨seq, Psbt.serves_present hseq, hrest⟩,
    ⟨spk0, address, hr0.serves, hl0, h86, haddr, rfl⟩, h.pos, ⟨spk1, hr1.serves, hrest1⟩,
    ⟨Psbt.serves_map h.vault.1, Psbt.serves_value h.vault.2⟩, h.covered⟩

/-- What is found is in the PSBT. -/
theorem FinalizeFacts.values (h : FinalizeFacts E st p.Allows cb script csv assert0 received txid) :
    p.HasLeaf 1 cb script ∧ p.utxoValue 1 = assert0.toNat ∧ p.outValue 0 = received.toNat ∧
      p.prevTxid 0 = txid := by
  obtain ⟨spk, hutxo, -⟩ := h.utxo
  obtain ⟨spk0, _, hr0, -⟩ := h.paid
  exact ⟨h.leaf.hasLeaf.2, (Psbt.reads_utxo hutxo).1, (Psbt.reads_output hr0).2.1,
    Psbt.prevTxid_eq h.vault.2⟩

/-- The bounds on the fee of the finalization that the source computes, without wrapping. -/
theorem toNat_finalizeBounds {it : VaultIntent} {net : Network} (h : ScalarsOk net it) :
    (it.baseFeeRate * maxPayoutfinalizeVsize).toNat = 500 * it.baseFeeRate.toNat ∧
      (dustLimit + it.baseFeeRate * maxCouncilNopayoutVsize).toNat =
        546 + 500 * it.baseFeeRate.toNat ∧
      maxCouncilNopayoutVsize ≤ uint64Max / it.baseFeeRate := by
  obtain ⟨hpos, hle⟩ := h.feeRate
  have hmul : (it.baseFeeRate * maxPayoutfinalizeVsize).toNat = 500 * it.baseFeeRate.toNat := by
    rw [UInt64.toNat_mul]
    show it.baseFeeRate.toNat * 500 % 2 ^ 64 = _
    omega
  have hdiv : (500 : ℕ) ≤ (2 ^ 64 - 1) / it.baseFeeRate.toNat :=
    (Nat.le_div_iff_mul_le (by omega)).2 (by omega)
  have hmax : (uint64Max / it.baseFeeRate).toNat = (2 ^ 64 - 1) / it.baseFeeRate.toNat :=
    UInt64.toNat_div ..
  refine ⟨hmul, ?_, UInt64.le_iff_toNat_le.2 (hmax ▸ hdiv)⟩
  rw [UInt64.toNat_add]
  show (546 + (it.baseFeeRate * maxPayoutfinalizeVsize).toNat) % 2 ^ 64 = _
  omega

/-- What the session of a single vault asks, over exact integers. -/
theorem finalizeSession_iff (hs : LoadedIntent E s.intent) (hl : s.ctx.state = .intentLoaded)
    (h1 : s.intent.vaultCount = 1) : FinalizeSession s csv assert0 received ↔
      csv = s.intent.payoutTimelock ∧ assert0.toNat ≤ 546 + 500 * s.intent.baseFeeRate.toNat ∧
      received.toNat + 546 < (s.intent.group 0).vaultAmount.toNat ∧
      (s.intent.group 0).vaultAmount.toNat ≤
        received.toNat + 546 + 500 * s.intent.baseFeeRate.toNat := by
  obtain ⟨hmul, hup, hceil⟩ := toNat_finalizeBounds hs.scalars
  have ham := (hs.spec.amounts 0 (by omega)).1
  have hva : ((s.intent.group 0).vaultAmount - dustLimit).toNat =
      (s.intent.group 0).vaultAmount.toNat - 546 :=
    UInt64.toNat_sub_of_le _ _ (UInt64.le_iff_toNat_le.2 (show 546 ≤ _ by omega))
  have hvs : ¬maxPayoutfinalizeVsize > uint64Max / s.intent.baseFeeRate := UInt64.not_lt.2 hceil
  constructor
  · rintro ⟨htime, hupper, hcap⟩
    obtain ⟨hlow, hfee⟩ := hcap ⟨hl, h1⟩
    have hlow' := UInt64.lt_iff_toNat_lt.1 (UInt64.not_le.1 hlow)
    have hfee' := UInt64.le_iff_toNat_le.1 (UInt64.not_lt.1 (not_or.1 hfee).2)
    have hup' := UInt64.le_iff_toNat_le.1
      (UInt64.not_lt.1 fun hgt => hupper ⟨hl, hceil, hgt⟩)
    rw [UInt64.toNat_sub_of_le _ _ (UInt64.le_iff_toNat_le.2 hlow'.le)] at hfee'
    exact ⟨by_contra fun hne => htime ⟨hl, hne⟩, by omega, by omega, by omega⟩
  · rintro ⟨hcsv, ha, hlt, hle⟩
    refine ⟨fun h => h.2 hcsv, fun h => ?_, fun _ => ⟨fun h => ?_, ?_⟩⟩
    · have := UInt64.lt_iff_toNat_lt.1 h.2.2
      omega
    · have := UInt64.le_iff_toNat_le.1 h
      omega
    · rintro (h | h)
      · exact hvs h
      · have hgt := UInt64.lt_iff_toNat_lt.1 h
        rw [UInt64.toNat_sub_of_le _ _ (UInt64.le_iff_toNat_le.2 (by omega))] at hgt
        omega

/-! ## The same PSBT under an intent -/

/-- A serving host has the PSBT accepted as a PayoutFinalize, and Input 1 signed. -/
def Finalizes (E : Env) (st : SignPsbtState) (p : Psbt) (d : Device) : Prop :=
  ∀ ans, p.SignsWith ans → ∃ d' req,
    (validateAndDisplayTransaction E st).eval ans d = (.ok .payoutFinalize, d') ∧
    signatures ((signCustomInputs E st).asked ans d') = [(.standalone, req)] ∧ req.inputIndex = 1

/-- A PayoutFinalize that is accepted in IDLE, and the intent of a single vault that fits it in
    its timelock, in the value of Input 1 and in the fee. -/
structure FinalizeCase (E : Env) (st : SignPsbtState) (p : Psbt) (d₀ d : Device) : Prop where
  idle : d₀.ctx.state = .idle
  accepted : ∃ d', (validateAndDisplayTransaction E st).Via p.AllowsDev d₀ .payoutFinalize d'
  internal : ∀ i, st.internalInputs i = false
  loaded : d.ctx.state = .intentLoaded
  single : d.intent.vaultCount = 1
  timelock : ∃ cb script key, p.HasLeaf 1 cb script ∧
    parsePayoutLeafScript script = some (key, d.intent.payoutTimelock)
  ceiling : p.utxoValue 1 ≤ 546 + 500 * d.intent.baseFeeRate.toNat
  fee : st.inputsTotalAmount.toNat - st.outputsTotalAmount.toNat ≤ 500 * d.intent.baseFeeRate.toNat

/-- Input 0 is not the vault of the intent, and yet the amount received is close to that vault's. -/
structure FinalizeFits (E : Env) (it : VaultIntent) (p : Psbt) : Prop where
  foreign : vaultComputePeginTxid E it 0 ≠ some (p.prevTxid 0)
  below : p.outValue 0 + 546 < (it.group 0).vaultAmount.toNat
  near : (it.group 0).vaultAmount.toNat ≤ p.outValue 0 + 546 + 500 * it.baseFeeRate.toNat

theorem findPeginGroup_single {it : VaultIntent} (h1 : it.vaultCount = 1) :
    findPeginGroup E it txid = none ↔ vaultComputePeginTxid E it 0 ≠ some txid := by
  rw [findPeginGroup, h1, List.find?_eq_none]
  simp

/-- The dispatcher's verdict for a serving host. -/
theorem eval_validateAndDisplay {ans : Answers} {F : Flow} (hans : p.SignsWith ans)
    (hstream : d.streaming.streamingInProgress = false)
    (h : (dispatch E st d.session).Via p.Serves d.volatile F v') : ∃ junk,
    (validateAndDisplayTransaction E st).eval ans d = (.ok F, acceptedDevice d F junk v') := by
  refine ⟨ans .scratch, via_eval.1 (validateAndDisplayTransaction_iff.2
    ⟨hstream, _, v', rfl, h.mono fun q a hq => ?_, rfl⟩)⟩
  exact (hans.read q).trans hq

/-- An intent of one vault lets a PayoutFinalize through exactly if Input 0 is another vault and
    the amount received is within the fee of its own. -/
theorem Reach.finalize_iff (h : Reach E ls d) (hc : FinalizeCase E st p d₀ d) :
    Finalizes E st p d ↔ FinalizeFits E d.intent p := by
  have hloaded := h.session.loaded hc.loaded
  have hstream : d.streaming.streamingInProgress = false :=
    h.session.not_streaming (by rw [hc.loaded]; decide)
  obtain ⟨d₁, hv⟩ := hc.accepted
  obtain ⟨-, junk, v₁, hdis, -⟩ := validateAndDisplayTransaction_dispatch hv
  obtain ⟨hshape, -, hval⟩ := dispatch_finalize.1 hdis
  obtain ⟨cb, script, csv, assert0, received, txid, hf, -, -⟩ :=
    validateDisplayPayoutFinalize_iff.1 hval
  obtain ⟨hleaf, hutxo, hout, hprev⟩ := hf.values
  obtain ⟨cb', script', key, hleaf', hparse⟩ := hc.timelock
  obtain ⟨rfl, rfl⟩ := hleaf.unique hleaf'
  obtain rfl : csv = d.intent.payoutTimelock :=
    (Prod.mk.inj (Option.some.inj (hf.parsed.symm.trans hparse))).2
  have hsession : FinalizeSession d.session d.intent.payoutTimelock assert0 received ↔
      received.toNat + 546 < (d.intent.group 0).vaultAmount.toNat ∧
      (d.intent.group 0).vaultAmount.toNat ≤
        received.toNat + 546 + 500 * d.intent.baseFeeRate.toNat := by
    rw [finalizeSession_iff (E := E) hloaded.intent hc.loaded hc.single]
    exact ⟨fun h => h.2.2, fun h => ⟨rfl, hutxo ▸ hc.ceiling, h⟩⟩
  constructor
  · intro hfin
    obtain ⟨d', req, heval, -, -⟩ := hfin (p.answers (Buf.zero 32)) ⟨fun _ => rfl, fun _ _ _ _ => ⟨_, rfl⟩⟩
    have hv' := via_of_eval (p.answers_allows (Buf.zero 32)) (congrArg Prod.fst heval)
    obtain ⟨-, junk', v', hdis', -⟩ := validateAndDisplayTransaction_dispatch hv'
    obtain ⟨-, hroute, hval'⟩ := dispatch_finalize.1 hdis'
    obtain ⟨txid', -, htxid', hfind⟩ := hroute hc.loaded
    obtain ⟨cb', script', csv', assert0', received', _, hf', hs', -⟩ :=
      validateDisplayPayoutFinalize_iff.1 hval'
    obtain ⟨hleaf', hutxo', hout', -⟩ := hf'.values
    obtain ⟨rfl, rfl⟩ := hleaf.unique hleaf'
    obtain rfl : csv' = d.intent.payoutTimelock :=
      (Prod.mk.inj (Option.some.inj (hf'.parsed.symm.trans hparse))).2
    obtain rfl : assert0 = assert0' := UInt64.toNat_inj.1 (hutxo.symm.trans hutxo')
    obtain rfl : received = received' := UInt64.toNat_inj.1 (hout.symm.trans hout')
    obtain ⟨hlt, hle⟩ := hsession.1 hs'
    refine ⟨?_, hout ▸ hlt, hout ▸ hle⟩
    rw [Psbt.prevTxid_eq htxid']
    exact (findPeginGroup_single hc.single).1 hfind
  · rintro ⟨hforeign, hlt, hle⟩ ans hans
    have hmap : p.Serves (.map .input 2 0) true := by
      rw [← hshape.2.2.1]
      exact Psbt.serves_map hf.vault.1
    have hserved : ∃ v', (dispatch E st d.session).Via p.Serves d.volatile .payoutFinalize v' := by
      refine ⟨_, dispatch_finalize.2 ⟨hshape, fun _ => ⟨txid, hmap, hf.serves.vault.2, ?_⟩,
        validateDisplayPayoutFinalize_iff.2 ⟨cb, script, _, assert0, received, txid, hf.serves,
          hsession.2 ⟨hout ▸ hlt, hout ▸ hle⟩, rfl⟩⟩⟩
      rw [← hprev]
      exact (findPeginGroup_single hc.single).2 hforeign
    obtain ⟨v', hdis'⟩ := hserved
    obtain ⟨junk', heval⟩ := eval_validateAndDisplay hans hstream hdis'
    have hacc : Accepted E st d.session p.Allows d.volatile .payoutFinalize v' :=
      dispatch_via (hdis'.mono fun q a => Psbt.Serves.allows)
    obtain ⟨path, leafHash, sighash, hs⟩ :=
      branch_finalize (d := d) junk' hans (hc.internal 0) hacc
    refine ⟨_, ⟨1, path, leafHash, sighashDefault, sighash⟩, heval, ?_, rfl⟩
    rw [signatures_accepted hacc, hs]

namespace Signet

/-- The intent of one vault. -/
def intentSingle : VaultIntent := intentOf [group 0 providerKey 100000]

theorem loaded_intentSingle :
    loaded intentSingle = holding intentSingle [hashlock] 0x36aeaf5c := by
  decide +kernel

/-- A PayoutFinalize of another vault, with a fee of 454 satoshi. -/
def finalize (received : ℕ) : Psbt :=
  let leaf := (vaultBuildAssert0PayoutLeaf intent 0 2 scriptMaxLen).getD []
  ⟨[], [utxo received (Signet.spk otherVaultOut) ::
      outpoint 0x6e1b0eb2b3aa4cd25d2c0a3b07eac4d6ef1d8e54c9b8cd55b8a3cd6cb1ac6aa1 0 144,
      spend 1000 finalizeOut leaf
        0x25450689bdd44d014020b238021b313431cb1f7a86f24e29cecbd1e442edae0a 200 ++ [depositorRecord]],
    [output received (Signet.spk depositorOut), output 546 (Signet.spk depositorOut)]⟩

/-- What the base app parses of it. -/
def finalizeState (received : ℕ) : SignPsbtState :=
  parsed (finalize received) (UInt64.ofNat (received + 1000)) (UInt64.ofNat (received + 546))

theorem spend_hasLeaf {p : Psbt} {i value txid : ℕ} {out : UInt8 × ℕ} {leaf : Bytes}
    {sequence : UInt32} {post : PsbtMap}
    (h : p.map (.input i) = spend value out leaf txid sequence ++ post)
    (hpost : NoLeaf (post.map (·.1))) (h1 : 1 ≤ leaf.length)
    (hl : leaf.length + 1 ≤ assertScriptMaxLen) :
    p.HasLeaf i ((tapscriptLeafVersion ||| out.1) :: (vaultNumsXonly.toList ++ [])) leaf := by
  refine ⟨⟨utxo value (Signet.spk out) :: outpoint txid 0 sequence, post, ?_, ?_, hpost⟩, ?_, h1, hl⟩
  · rw [h, spend, List.append_assoc]
    rfl
  · simp only [utxo, outpoint, List.map_cons, List.map_nil, NoLeaf, List.forall_mem_cons,
      List.head?_cons]
    decide
  · simp [controlBlockMaxLen]

theorem finalize_case {received : ℕ} (hr : received = 50000 ∨ received = 98000) :
    FinalizeCase env (finalizeState received) (finalize received) Device.boot
      (loaded intentSingle) := by
  have hv : (validateAndDisplayTransaction env (finalizeState received)).Via
      (finalize received).AllowsDev Device.boot .payoutFinalize
      ((validateAndDisplayTransaction env (finalizeState received)).eval
        ((finalize received).answers (Buf.zero 32)) Device.boot).2 := by
    refine via_of_eval ((finalize received).answers_allows _) ?_
    rcases hr with rfl | rfl <;> decide +kernel
  rw [loaded_intentSingle]
  refine ⟨rfl, ⟨_, hv⟩, fun _ => rfl, rfl, rfl, ?_, ?_, ?_⟩
  · have hpost : NoLeaf ([depositorRecord].map (·.1)) := by
      show ∀ key ∈ [_], _
      decide
    exact ⟨_, _, .be 32 depositorKey, spend_hasLeaf (i := 1) rfl hpost (by decide +kernel)
      (by decide +kernel), by decide +kernel⟩
  · rcases hr with rfl | rfl <;> decide +kernel
  · rcases hr with rfl | rfl <;> decide +kernel

end Signet

open Signet in
theorem finalize_iff_close : Finalizes env (finalizeState 98000) (finalize 98000)
    (loaded intentSingle) := by
  refine ((reach_loaded intentSingle).finalize_iff (finalize_case (.inr rfl))).2 ?_
  rw [loaded_intentSingle]
  exact ⟨by decide +kernel, by decide +kernel, by decide +kernel⟩

open Signet in
/-- A PayoutFinalize of another vault, with a fee of 454 satoshi, is refused because of the
    amount of the intent's own vault. -/
theorem finalize_foreign_refused :
    FinalizeCase env (finalizeState 50000) (finalize 50000) Device.boot (loaded intentSingle) ∧
      vaultComputePeginTxid env (loaded intentSingle).intent 0 ≠
        some ((finalize 50000).prevTxid 0) ∧
      ¬Finalizes env (finalizeState 50000) (finalize 50000) (loaded intentSingle) := by
  refine ⟨finalize_case (.inl rfl), ?_, fun h => ?_⟩
  · rw [loaded_intentSingle]
    decide +kernel
  · obtain ⟨d', req, heval, -⟩ := h ((finalize 50000).answers (Buf.zero 32))
      ⟨fun _ => rfl, fun _ _ _ _ => ⟨_, rfl⟩⟩
    have hne : ((validateAndDisplayTransaction env (finalizeState 50000)).eval
        ((finalize 50000).answers (Buf.zero 32)) (loaded intentSingle)).1 ≠
          .ok .payoutFinalize := by
      rw [loaded_intentSingle]
      decide +kernel
    exact hne (congrArg Prod.fst heval)

end BabylonVault
