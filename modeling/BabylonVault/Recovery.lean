/-
  What a recovery pays, and to whom.

  * `DeviceKey`: a key of this device at a BIP-86 path.
  * `Recovers`: what the validators of Refund, Reclaim, WC and PayoutFinalize have checked:
    the leaf of the input they sign, and that every output pays the device.
  * `recovery_pays_owner`: the same for the committed PSBT, with the key that signs it.
-/
import BabylonVault.Accept.Validated
import BabylonVault.Patterns
import BabylonVault.Sighash
import BabylonVault.Signer

namespace BabylonVault
open Bytes Prog

/-- A key of this device, at a path that `check_bip86_path` accepts. -/
def DeviceKey (E : Env) (key : Bytes32) : Prop :=
  ∃ path pk, checkBip86Path E.network path = true ∧ E.pubkeyAt path = some pk ∧ xonly pk = key

/-- A scriptPubKey commits to a leaf under the NUMS internal key. -/
def NumsCommits (E : Env) (leafHash : Bytes32) (spk : Bytes) : Prop :=
  ∃ (branch : List Bytes32) (parity : UInt8) (key : Bytes32),
    E.tweakPubkey vaultNumsXonly (some (branch.foldl E.combineTaptreeHashes leafHash)) =
      some (parity, key) ∧ spk = p2trSpk key

/-- The standalone recoveries, with the leaf that each of them signs. -/
def Flow.recovers : Flow → Option LeafPattern
  | .refund => some .refund
  | .reclaim => some .claim
  | .wc => some .wc
  | .payoutFinalize => some .payout
  | _ => none

/-- The key at the front of a leaf. -/
def leafKey (script : Bytes) : Bytes32 := Buf.slice 32 script 1

variable (E : Env) (st : SignPsbtState) (s : Session) (G : Allow)

/-- An output that pays a key of the device, the leaf's own unless it is a Refund. -/
def PaysOwner (F : Flow) (script : Bytes) (j : ℕ) : Prop :=
  ∃ spk key, G (.map .output st.nOutputs j) true ∧
    G (.value (.output j) [psbtOutScript] p2trSpkLen) (some spk) ∧ spk.length = p2trSpkLen ∧
    DeviceKey E key ∧ bip86P2trSpk E key = some spk ∧ (F ≠ .refund → key = leafKey script)

/-- What the validator of a recovery has checked. -/
structure Recovers (F : Flow) (i : ℕ) (cb script : Bytes) : Prop where
  leaf : LeafRead G st.nInputs i cb script
  shape : ∃ q, F.recovers = some q ∧ q.Matches script
  utxo : ∃ value spk, ReadsUtxo G (.input i) value spk ∧
    CommittedBy E (tlsOf cb script) (vaultTaprootLeafHash E script) spk
  outputs : 0 < st.nOutputs
  pays : ∀ j < st.nOutputs, PaysOwner E st G F script j

variable {E st s G} {v v' : Volatile} {cb script spk : Bytes} {F : Flow} {i : ℕ} {m : MapRef}
  {path : List UInt32} {key : Bytes32} {value : UInt64}

theorem LeafKeyOk.deviceKey (h : LeafKeyOk E st G m key path) : DeviceKey E key := by
  obtain ⟨_, pk, -, -, hpath, hpk, hkey⟩ := h
  exact ⟨path, pk, hpath, hpk, hkey⟩

theorem spkIsBip86P2trOf_iff : spkIsBip86P2trOf E spk key = true ↔ bip86P2trSpk E key = some spk :=
  decide_eq_true_iff

/-- A scriptPubKey by its two parts. -/
theorem eq_p2trSpk (hl : spk.length = p2trSpkLen) (h : spk.take 2 = [op1, opPushbytes32]) :
    spk = p2trSpk (Buf.slice 32 spk 2) := by
  unfold p2trSpkLen at hl
  have hd : (spk.drop 2).length = 32 := by rw [List.length_drop, hl]
  calc spk = spk.take 2 ++ spk.drop 2 := (List.take_append_drop 2 spk).symm
    _ = [op1, opPushbytes32] ++ (Buf.ofBytes 32 (spk.drop 2)).toList := by
        rw [h, Buf.toList_ofBytes hd]

/-! ## The four validators -/

theorem validateDisplayRefund_recovers (h : (validateDisplayRefund E st s).Via G v () v') :
    ∃ cb script, Recovers E st G .refund 0 cb script := by
  simp only [validateDisplayRefund, check_bind, checkVersionLocktime_bind, getMap_bind,
    checkSighashType_bind, readWitnessUtxo_bind, readTapLeaf_bind, requireBufferedLeaf_bind,
    orReject_bind, checkLeafKey_bind, refundVerifyTaprootCommitment_bind, checkCsvSequence,
    Prog.bind_assoc, getField_bind, getExact_bind, readDerivation_bind, getPreviousTxid_bind,
    addressOf_bind] at h
  obtain ⟨hn, -, -, -, value, spk, hutxo, cb, script, hleaf, hbuf, ⟨key, csv⟩, hparse, -, path, -, hcom,
    seq, -, -, -, hmap, out, hout, hlen, hop, raw8, -, -, opath, xkey, hder, tw, htw, hkey, -⟩ := h
  rw [leafScript_of_buffered hbuf] at hparse
  simp only [not_or, not_not] at hn
  obtain ⟨_, pk, -, -, hpath, hpk, hx⟩ := hder
  refine ⟨cb, script, hn.1 ▸ hleaf, ⟨.refund, rfl, Option.isSome_of_eq_some hparse⟩,
    ⟨value, spk, hutxo, hcom⟩, by omega, fun j hj => ?_⟩
  obtain rfl : j = 0 := by omega
  refine ⟨out, xkey, hn.2.symm ▸ hmap, hout, hlen, ⟨opath, pk, hpath, hpk, hx⟩, ?_,
    fun hF => absurd rfl hF⟩
  rw [bip86P2trSpk, htw]
  exact congrArg some ((congrArg p2trSpk hkey).trans (eq_p2trSpk hlen hop).symm)

theorem validateDisplayReclaim_recovers (hleaf : LeafRead G st.nInputs 0 cb script)
    (h : (validateDisplayReclaim E st (tlsOf cb script)).Via G
      { v with leaf := leafMetaOf E s script } () v') :
    ∃ cb script, Recovers E st G .reclaim 0 cb script := by
  simp only [validateDisplayReclaim, check_bind, checkVersionLocktime_bind,
    requireBufferedLeaf_bind, orReject_bind, getMap_bind, getField_bind, getExact_bind,
    checkSighashType_bind, readWitnessUtxo_bind, refundVerifyTaprootCommitment_bind,
    checkLeafKey_bind, spkIsBip86P2trOf_iff] at h
  obtain ⟨hn, -, hbuf, key, hparse, -, -, _, -, -, -, value, spk, hutxo, -, hcom, path, hkey, hmap,
    out, hout, hlen, hown, -⟩ := h
  rw [leafScript_of_buffered hbuf] at hparse
  simp only [not_or, not_not] at hn
  obtain ⟨-, -, -, hk⟩ := parseClaimLeafScript_iff.1 hparse
  refine ⟨cb, script, hleaf, ⟨.claim, rfl, Option.isSome_of_eq_some hparse⟩,
    ⟨value, spk, hutxo, hcom⟩, by omega, fun j hj => ?_⟩
  obtain rfl : j = 0 := by omega
  exact ⟨out, key, hn.2.symm ▸ hmap, hout, hlen, hkey.deviceKey, hown, fun _ => hk.symm⟩

theorem validateDisplayWc_recovers (h : (validateDisplayWc E st s).Via G v () v') :
    ∃ cb script, Recovers E st G .wc 0 cb script := by
  simp only [validateDisplayWc, check_bind, checkVersionLocktime_bind, readTapLeaf_bind,
    requireBufferedLeaf_bind, requireSequenceFinal_bind, checkSighashType_bind, checkLeafKey_bind,
    readWitnessUtxo_bind, refundVerifyTaprootCommitment_bind, readOutput_bind,
    spkIsBip86P2trOf_iff] at h
  obtain ⟨hn, -, cb, script, hleaf, hbuf, hwc, -, -, path, hkey, value, spk, hutxo, hcom, out, _,
    ⟨hmap, -, hout⟩, hlen, hown, -⟩ := h
  rw [leafScript_of_buffered hbuf] at hkey hown
  simp only [not_or, not_not] at hn
  refine ⟨cb, script, hleaf, ⟨.wc, rfl, hwc⟩, ⟨value, spk, hutxo, hcom⟩, by omega, fun j hj => ?_⟩
  obtain rfl : j = 0 := by omega
  exact ⟨out, _, hn.2.symm ▸ hmap, hout, hlen, hkey.deviceKey, hown, fun _ => rfl⟩

theorem validateDisplayPayoutFinalize_recovers (ho : st.nOutputs = 2)
    (h : (validateDisplayPayoutFinalize E st s).Via G v () v') :
    ∃ cb script, Recovers E st G .payoutFinalize 1 cb script := by
  simp only [validateDisplayPayoutFinalize, via_modify_bind, check_bind, readFinalizeUtxo,
    checkVersionLocktime_bind, readTapLeaf_bind, requireBufferedLeaf_bind, orReject_bind,
    checkSighashType_bind, Prog.bind_assoc, getValue_bind, refundVerifyTaprootCommitment_bind,
    checkLeafKey_bind, checkCsvSequence, getField_bind, readOutput_bind, addressOf_bind,
    spkIsBip86P2trOf_iff] at h
  obtain ⟨-, cb, script, hleaf, hbuf, ⟨key, csv⟩, hparse, -, -, wu, hwu, -, -, -, hl, hcom, path,
    hkey, _, -, -, -, out0, _, ⟨hmap0, -, hout0⟩, hlen0, hown0, _, -, -, out1, _,
    ⟨hmap1, -, hout1⟩, hlen1, ⟨-, hown1⟩, -⟩ := h
  rw [leafScript_of_buffered hbuf] at hparse
  obtain ⟨-, -, -, -, -, -, -, hk⟩ := parsePayoutLeafScript_iff.1 hparse
  refine ⟨cb, script, hleaf, ⟨.payout, rfl, Option.isSome_of_eq_some hparse⟩,
    ⟨_, _, ⟨wu, hwu, hl, rfl, rfl⟩, hcom⟩, by omega, fun j hj => ?_⟩
  obtain rfl | rfl : j = 0 ∨ j = 1 := by omega
  · exact ⟨out0, key, ho.symm ▸ hmap0, hout0, hlen0, hkey.deviceKey, hown0, fun _ => hk.symm⟩
  · exact ⟨out1, key, ho.symm ▸ hmap1, hout1, hlen1, hkey.deviceKey, hown1, fun _ => hk.symm⟩

/-! ## The committed PSBT -/

variable {p : Psbt} {d d' : Device} {q : LeafPattern}

theorem Flow.recovers_ownKey (h : F.recovers = some q) : F.OwnKey := by
  cases F <;> first | exact .inl rfl | exact .inr rfl | cases h

theorem validated_recovers (hacc : Accepted E st s G v F v') {v₁ : Volatile}
    (h : Validated E st s G v₁ F) (hF : F.recovers = some q) (hi : F.signedInput = some i) :
    ∃ cb script, Recovers E st G F i cb script := by
  cases h with
  | refund h =>
    cases hi
    exact validateDisplayRefund_recovers h
  | reclaim hleaf h =>
    cases hi
    exact validateDisplayReclaim_recovers hleaf h
  | wc h =>
    cases hi
    exact validateDisplayWc_recovers h
  | payoutFinalize h =>
    cases hi
    cases hacc with
    | payoutFinalize _ _ _ ho => exact validateDisplayPayoutFinalize_recovers ho h
    | leaf hF => exact Bool.noConfusion hF
  | _ => cases hF

/-- A recovery of the device's owner: input `i` is spent through its leaf. -/
structure Recovery (E : Env) (st : SignPsbtState) (p : Psbt) (F : Flow) (d' : Device) (i : ℕ)
    (cb script : Bytes) : Prop where
  leaf : p.HasLeaf i cb script
  shape : ∃ q, F.recovers = some q ∧ q.Matches script
  commits : NumsCommits E (vaultTaprootLeafHash E script) (p.utxoScript i)
  count : p.outputs.length = st.nOutputs
  pays : ∀ j < st.nOutputs, (p.outScript j).length = 34 ∧ ∃ key, DeviceKey E key ∧
    bip86P2trSpk E key = some (p.outScript j) ∧ (F ≠ .refund → key = leafKey script)
  signs : ∀ kind req d'', (signCustomInputs E st).Puts p.AllowsDev d' (.yield kind req) d'' →
    req.inputIndex = i ∧ req.leafHash = vaultTaprootLeafHash E script ∧
      checkBip86Path E.network req.path = true ∧
      ∃ pk, E.pubkeyAt req.path = some pk ∧ xonly pk = leafKey script

/-- A recovery pays the device's owner and is signed by the leaf's own key. -/
theorem recovery_pays_owner (h : (validateAndDisplayTransaction E st).Via p.AllowsDev d F d')
    (hF : F.recovers = some q) :
    ∃ i cb script, F.signedInput = some i ∧ Recovery E st p F d' i cb script := by
  obtain ⟨-, junk, v', hacc, rfl⟩ := validateAndDisplayTransaction_via h
  obtain ⟨v₁, hval⟩ := validateAndDisplayTransaction_validated h
  have hown := Flow.recovers_ownKey hF
  obtain ⟨i, -, hi, -⟩ := hown.branch_eq E st
  obtain ⟨cb, script, hleaf, hshape, ⟨value, spk, hutxo, hcom⟩, hpos, hpays⟩ :=
    validated_recovers hacc hval hF hi
  obtain ⟨-, hscript⟩ := Psbt.reads_utxo hutxo
  obtain ⟨-, -, key, htweak, hspk⟩ := hcom
  refine ⟨i, cb, script, hi, hleaf.hasLeaf.2, hshape, ⟨_, _, key, htweak, hscript.trans hspk⟩, ?_,
    fun j hj => ?_, fun kind req d'' hput => ?_⟩
  · obtain ⟨_, _, hmap, -⟩ := hpays 0 hpos
    exact (hmap rfl).1.symm
  · obtain ⟨out, okey, -, hout, hlen, hdev, hbip, hkey⟩ := hpays j hj
    have hget : p.outScript j = out := Psbt.get_eq hout
    rw [hget]
    exact ⟨hlen, okey, hdev, hbip, hkey⟩
  · obtain ⟨tr, hcut, hG⟩ := hput
    rw [signCustomInputs_accepted hacc] at hcut
    obtain ⟨i', cb', script', _, hi', hsig, -, -⟩ := branch_puts_own hown ⟨tr, hcut, hG⟩
    obtain rfl : i = i' := Option.some.inj (hi.symm.trans hi')
    obtain ⟨rfl, rfl⟩ := hleaf.unique hsig.leaf
    obtain ⟨_, pk, -, -, hpath, hpk, hx⟩ := hsig.key
    exact ⟨hsig.input, hsig.hash, hpath, pk, hpk, hx⟩

open Signet in
theorem recovery_wc : ∃ i cb script, Flow.wc.signedInput = some i ∧
    Recovery env (wcState 1) (wc 1) .wc (wcAccepted 1) i cb script :=
  recovery_pays_owner (q := .wc) (via_of_eval ((wc 1).answers_allows _) (by decide +kernel)) rfl

end BabylonVault
