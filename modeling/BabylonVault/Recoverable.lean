/-
  Recovering what a loaded intent has locked.

  * `derivationValue`: a BIP-32 record, as a wallet writes it.
  * `HonestRefund`, `HonestReclaim`: the PSBTs that take back an HTLC output and the claim
    output of a PegIn.
  * `Recoverable`: the device accepts and signs them in every state; the path of an intent
    is one that the signing flows accept.
-/
import BabylonVault.Finalize
import BabylonVault.Patterns

namespace BabylonVault
open Bytes Prog

variable {E : Env} {st : SignPsbtState} {s : Session} {p : Psbt} {it : VaultIntent} {d d' : Device}
  {v v' : Volatile} {m : MapRef} {k₀ b spk leaf steps : Bytes} {n i : ℕ} {fp : UInt32}
  {path : List UInt32} {hashes : List Bytes32}

/-! ## Derivation records -/

/-- The record of a key: the hashes of its leaves, the master fingerprint and the path. -/
def derivationValue (hashes : List Bytes32) (fp : UInt32) (path : List UInt32) : Bytes :=
  UInt8.ofNat hashes.length :: ((hashes.flatMap fun h => h.toList) ++
    ((leBytes 4 fp.toNat).reverse ++ path.flatMap fun x => leBytes 4 x.toNat))

theorem length_flatMap_const {α : Type} {f : α → Bytes} {k : ℕ} (hf : ∀ a, (f a).length = k) :
    ∀ l : List α, (l.flatMap f).length = k * l.length
  | [] => by simp
  | a :: l => by
    rw [List.flatMap_cons, List.length_append, hf, length_flatMap_const hf l, List.length_cons,
      Nat.mul_succ, Nat.add_comm]

theorem length_hashes (hashes : List Bytes32) :
    (hashes.flatMap fun h => h.toList).length = 32 * hashes.length :=
  length_flatMap_const (fun h => h.toList_length) hashes

theorem length_steps (path : List UInt32) :
    (path.flatMap fun x => leBytes 4 x.toNat).length = 4 * path.length :=
  length_flatMap_const (fun _ => length_leBytes _ _) path

theorem length_derivationValue (hashes : List Bytes32) (fp : UInt32) (path : List UInt32) :
    (derivationValue hashes fp path).length = 5 + 32 * hashes.length + 4 * path.length := by
  simp only [derivationValue, List.length_cons, List.length_append, length_hashes, length_steps,
    List.length_reverse, length_leBytes]
  omega

theorem pathSteps_flatMap : ∀ path : List UInt32,
    pathSteps path.length (path.flatMap fun x => leBytes 4 x.toNat) = path
  | [] => rfl
  | x :: path => by
    have hx : ofLE (leBytes 4 x.toNat) = x.toNat := ofLE_leBytes x.toNat_lt
    rw [List.flatMap_cons, List.length_cons, pathSteps, List.take_left' (length_leBytes _ _),
      List.drop_left' (length_leBytes _ _), pathSteps_flatMap path, hx, UInt32.ofNat_toNat]

theorem ofBE_reverse_leBytes (x : UInt32) : UInt32.ofNat (ofBE (leBytes 4 x.toNat).reverse) = x := by
  rw [ofBE_leBytes x.toNat_lt, UInt32.ofNat_toNat]

/-- The record is read back. -/
theorem parse_derivationValue {max : ℕ} (hh : hashes.length ≤ 2) (hp : path.length ≤ max) :
    parseTapBip32DerivValue (derivationValue hashes fp path) max = some (fp, path) := by
  have hn : (UInt8.ofNat hashes.length).toNat = hashes.length := by
    rw [UInt8.toNat_ofNat']
    omega
  have hdrop : (derivationValue hashes fp path).drop (1 + hashes.length * 32) =
      (leBytes 4 fp.toNat).reverse ++ path.flatMap fun x => leBytes 4 x.toNat := by
    rw [derivationValue, Nat.add_comm, List.drop_succ_cons]
    exact List.drop_left' (by rw [length_hashes, Nat.mul_comm])
  have h4 : (leBytes 4 fp.toNat).reverse.length = 4 := by simp
  have hrest : (derivationValue hashes fp path).drop (1 + hashes.length * 32 + 4) =
      path.flatMap fun x => leBytes 4 x.toNat := by
    rw [← List.drop_drop, hdrop, List.drop_left' h4]
  have hlen := length_derivationValue hashes fp path
  unfold parseTapBip32DerivValue
  rw [derivationValue] at hdrop hrest hlen ⊢
  dsimp only
  rw [hn, hdrop, hrest, length_steps, List.take_left' h4, ofBE_reverse_leBytes,
    if_neg (by omega), if_neg (by omega), Nat.mul_div_cancel_left _ (by omega), if_neg (by omega),
    pathSteps_flatMap]

/-! ## Reads of what a PSBT holds -/

/-- The map holds this value under this key. -/
def Psbt.Holds (p : Psbt) (m : MapRef) (key b : Bytes) : Prop := (p.map m).find key = some b

instance (p : Psbt) (m : MapRef) (key b : Bytes) : Decidable (p.Holds m key b) :=
  inferInstanceAs (Decidable (_ = _))

theorem Psbt.Holds.serves (h : p.Holds m k₀ b) (hn : b.length ≤ n) :
    p.Serves (.value m k₀ n) (some b) :=
  Option.filter_eq_some_iff.2 ⟨h, decide_eq_true hn⟩

theorem Psbt.Holds.field {k : UInt8} {x : UInt32} (h : p.Holds m [k] (leBytes 4 x.toNat)) :
    p.Serves (.field m k) (.present x) := by
  have hx : ofLE (leBytes 4 x.toNat) = x.toNat := ofLE_leBytes x.toNat_lt
  have h' : (p.map m).find [k] = some (leBytes 4 x.toNat) := h
  show (p.map m).field k = .present x
  rw [PsbtMap.field, h']
  dsimp only
  rw [if_pos (length_leBytes _ _), hx, UInt32.ofNat_toNat]

theorem Psbt.SighashIn.serves {allowed : List UInt32} (h : p.SighashIn i allowed) :
    SighashOk p.Serves (.input i) allowed :=
  h.imp (fun ha => ha) fun ⟨x, hx, ha⟩ => ⟨x, hx, ha⟩

theorem Psbt.Holds.utxo {value : UInt64} {x : Bytes32}
    (h : p.Holds m [psbtInWitnessUtxo] (leBytes 8 value.toNat ++ (0x22 :: p2trSpk x))) :
    ReadsUtxo p.Serves m value (p2trSpk x) := by
  have hv : ofLE (leBytes 8 value.toNat) = value.toNat := ofLE_leBytes value.toNat_lt
  have h8 := length_leBytes 8 value.toNat
  have h34 : (p2trSpk x).length = 34 := length_p2trSpk
  have hlen : (leBytes 8 value.toNat ++ (0x22 :: p2trSpk x)).length = 43 := by
    rw [List.length_append, List.length_cons, h8, h34]
  have hget : (leBytes 8 value.toNat ++ (0x22 :: p2trSpk x)).getD 8 0 = 0x22 := by
    rw [List.getD_append_right _ _ _ _ (by omega), h8]
    rfl
  refine ⟨_, h.serves hlen.le, ⟨?_, ?_⟩, ?_, ?_⟩
  · rw [hget, hlen]
    rfl
  · rw [hget]
    rfl
  · rw [List.take_left' h8, hv, UInt64.ofNat_toNat]
  · show (leBytes 8 value.toNat ++ (0x22 :: p2trSpk x)).drop (8 + 1) = _
    rw [← List.drop_drop, List.drop_left' h8]
    rfl

theorem slice_p2trSpk {x : Bytes32} : (Buf.slice 32 (p2trSpk x) 2 : Bytes32) = x := by
  have h32 : x.toList.length = 32 := x.toList_length
  refine Buf.toList_inj.1 ?_
  show x.toList.takeD 32 0 = x.toList
  rw [List.takeD_eq_take _ h32.ge, List.take_of_length_le h32.le]

/-- The record of a key under a BIP-86 path of this device. -/
theorem Psbt.Holds.derivation {k : UInt8} {x : Bytes32} {pk : Buf 33}
    (h : p.Holds m (k :: x.toList) (derivationValue hashes st.masterKeyFingerprint path))
    (hh : hashes.length ≤ 2) (hpath : checkBip86Path E.network path = true) (hl : path.length = 5)
    (hpk : E.pubkeyAt path = some pk) :
    ReadsDerivation E st p.Serves m k x path (xonly pk) := by
  refine ⟨_, pk, h.serves ?_, parse_derivationValue hh hl.le, hpath, hpk, rfl⟩
  rw [length_derivationValue]
  omega

theorem checkBip86Path_length {net : Network} (h : checkBip86Path net path = true) :
    path.length = 5 := by
  unfold checkBip86Path at h
  split at h
  · rfl
  · exact Bool.noConfusion h

/-- A number below a flag does not carry it. -/
theorem and_flag {y flag : UInt32} {k : ℕ} (hf : flag.toNat = 2 ^ k) (hy : y.toNat < 2 ^ k) :
    y &&& flag = 0 := by
  refine UInt32.toNat_inj.1 ?_
  rw [UInt32.toNat_and, hf]
  refine Nat.eq_of_testBit_eq fun j => ?_
  rw [Nat.testBit_and, Nat.testBit_two_pow]
  show _ = Nat.testBit 0 j
  rw [Nat.zero_testBit, Bool.and_eq_false_iff]
  by_cases hj : k = j
  · exact .inl (Nat.testBit_lt_two_pow (hj ▸ hy))
  · exact .inr (decide_eq_false hj)

/-- The two checks of a path are one. -/
theorem checkBip86Path_iff {net : Network} {q : List.Vector UInt32 depositorPathLen} :
    checkBip86Path net q.toList = true ↔
      depositorPathOk q = true ∧ q.pick 1 = net.coinType ||| hardened := by
  obtain ⟨l, hl⟩ := q
  obtain ⟨a, c, f, g, i, rfl⟩ : ∃ a c f g i, l = [a, c, f, g, i] := by
    match l, hl with
    | [a, c, f, g, i], _ => exact ⟨a, c, f, g, i, rfl⟩
  have hcoin : (net.coinType ||| hardened) &&& hardened ≠ 0 := by cases net <;> decide
  have hg : g ≤ 1 → g &&& hardened = 0 := fun h => and_flag (k := 31) rfl (by
    have : g.toNat ≤ 1 := UInt32.le_iff_toNat_le.1 h
    omega)
  have hi : i ≤ bip86MaxAddressIndex → i &&& hardened = 0 := fun h => and_flag (k := 31) rfl (by
    have : i.toNat ≤ 10000 := UInt32.le_iff_toNat_le.1 h
    omega)
  show (a = (bip86Purpose ||| hardened) && c = (net.coinType ||| hardened) &&
      f &&& hardened ≠ 0 && f &&& ~~~hardened ≤ bip86MaxAccount && g ≤ 1 &&
      i ≤ bip86MaxAddressIndex) = true ↔
    (a = (bip86Purpose ||| hardened) && c &&& hardened ≠ 0 && f &&& hardened ≠ 0 &&
      g &&& hardened = 0 && i &&& hardened = 0 && f &&& ~~~hardened ≤ bip86MaxAccount && g ≤ 1 &&
      i ≤ bip86MaxAddressIndex) = true ∧ c = net.coinType ||| hardened
  simp only [Bool.and_eq_true, decide_eq_true_eq]
  constructor
  · rintro ⟨⟨⟨⟨⟨ha, rfl⟩, hf⟩, hf'⟩, hg1⟩, hi1⟩
    exact ⟨⟨⟨⟨⟨⟨⟨⟨ha, hcoin⟩, hf⟩, hg hg1⟩, hi hi1⟩, hf'⟩, hg1⟩, hi1⟩, rfl⟩
  · rintro ⟨⟨⟨⟨⟨⟨⟨⟨ha, -⟩, hf⟩, -⟩, -⟩, hf'⟩, hg1⟩, hi1⟩, rfl⟩
    exact ⟨⟨⟨⟨⟨ha, rfl⟩, hf⟩, hf'⟩, hg1⟩, hi1⟩

/-- The path of a loaded intent is one that the signing flows accept. -/
theorem LoadedIntent.bip86 (hs : LoadedIntent E it) :
    checkBip86Path E.network it.depositorPath.toList = true := by
  have hpath : depositorPathOk it.depositorPath = true := hs.scalars 8 (by decide)
  have hcoin : it.coinType = E.network.coinType := hs.scalars 2 (by decide)
  have hjoin : it.depositorPath.pick 1 = it.coinType ||| hardened := hs.scalars 13 (by decide)
  rw [hcoin] at hjoin
  exact checkBip86Path_iff.2 ⟨hpath, hjoin⟩

/-! ## The commitment of a leaf -/

/-- The control block of a leaf with one step or none beside it. -/
theorem committedBy_controlBlock {head : UInt8} {root leafHash x : Bytes32}
    (hroot : (controlBlockSteps (steps.length / 32) steps).foldl E.combineTaptreeHashes leafHash =
      root) (ht : E.tweakPubkey vaultNumsXonly (some root) = some (head &&& 1, x)) :
    CommittedBy E (tlsOf (head :: (vaultNumsXonly.toList ++ steps)) leaf) leafHash (p2trSpk x) := by
  have h32 : vaultNumsXonly.toList.length = 32 := vaultNumsXonly.toList_length
  have hdrop : (head :: (vaultNumsXonly.toList ++ steps)).drop 33 = steps := by
    rw [List.drop_succ_cons, List.drop_left' h32]
  refine ⟨?_, ?_, x, ?_, rfl⟩
  · show 33 ≤ (head :: (vaultNumsXonly.toList ++ steps)).length
    rw [List.length_cons, List.length_append, h32]
    omega
  · show ((head :: (vaultNumsXonly.toList ++ steps)).drop 1).take 32 = _
    rw [List.drop_succ_cons, List.drop_zero, List.take_left' h32]
  · show E.tweakPubkey vaultNumsXonly (some (controlBlockRoot E
      (head :: (vaultNumsXonly.toList ++ steps)) leafHash)) = some (head &&& 1, x)
    have hl : (head :: (vaultNumsXonly.toList ++ steps)).length - 33 = steps.length := by
      rw [List.length_cons, List.length_append, h32]
      omega
    rw [controlBlockRoot, hdrop, hl, hroot, ht]

/-! ## Honest PSBTs -/

/-- A PSBT that spends one output of this merkle root through one leaf, with the key of the
    depositor of `it`, into one output. -/
structure HonestSpend (E : Env) (st : SignPsbtState) (p : Psbt) (it : VaultIntent)
    (root txid : Bytes32) (value : UInt64) (leaf steps : Bytes) (sequence : UInt32) : Prop where
  inputs : st.nInputs = 1 ∧ p.inputs.length = 1
  outputs : st.nOutputs = 1 ∧ p.outputs.length = 1
  policy : st.hasNoWalletPolicy = true
  version : 2 ≤ st.txVersion
  locktime : st.locktime = 0
  txid : p.Holds (.input 0) [psbtInPreviousTxid] txid.toList
  sequence : p.Holds (.input 0) [psbtInSequence] (leBytes 4 sequence.toNat)
  sighash : p.SighashIn 0 [sighashDefault]
  output : ∃ head x, E.tweakPubkey vaultNumsXonly (some root) = some (head &&& 1, x) ∧
    p.Holds (.input 0) [psbtInWitnessUtxo] (leBytes 8 value.toNat ++ (0x22 :: p2trSpk x)) ∧
    p.HasLeaf 0 (head :: (vaultNumsXonly.toList ++ steps)) leaf
  derivation : ∃ hashes, hashes.length ≤ 2 ∧
    p.Holds (.input 0) (psbtInTapBip32Derivation :: it.depositorPk.toList)
      (derivationValue hashes st.masterKeyFingerprint it.depositorPath.toList)

/-- The refund of an HTLC of group `gi` with hashlock `h`, to a BIP-86 address of the device. -/
structure HonestRefund (E : Env) (st : SignPsbtState) (p : Psbt) (it : VaultIntent) (h : Bytes32)
    (gi : ℕ) (value : UInt64) : Prop where
  spend : ∃ leaf0 leaf1 root, vaultBuildHtlcLeaf0 it gi h scriptMaxLen = some leaf0 ∧
    vaultBuildHtlcLeaf1 it scriptMaxLen = some leaf1 ∧
    vaultBuildHtlcMerkleRoot E it gi h = some root ∧
    HonestSpend E st p it root it.prepeginTxid value leaf1 (vaultTaprootLeafHash E leaf0).toList
      (UInt32.ofNat it.htlcRefundTimelock)
  amount : ∃ outValue : UInt64, outValue ≤ value ∧
    p.Holds (.output 0) [psbtOutAmount] (leBytes 8 outValue.toNat)
  address : ∃ path pk parity x a hashes, checkBip86Path E.network path = true ∧
    E.pubkeyAt path = some pk ∧ E.tweakPubkey (xonly pk) none = some (parity, x) ∧
    E.scriptAddress (p2trSpk x) = some a ∧
    p.Holds (.output 0) [psbtOutScript] (p2trSpk x) ∧ hashes.length ≤ 2 ∧
    p.Holds (.output 0) (psbtOutTapBip32Derivation :: x.toList)
      (derivationValue hashes st.masterKeyFingerprint path)

/-- The reclaim of the claim output of the PegIn of group `gi`, to the depositor's key. -/
structure HonestReclaim (E : Env) (st : SignPsbtState) (p : Psbt) (it : VaultIntent) (gi : ℕ)
    (value : UInt64) : Prop where
  spend : ∃ leaf txid, vaultBuildDepositorClaimLeaf it p2trSpkLen = some leaf ∧
    vaultComputePeginTxid E it gi = some txid ∧
    HonestSpend E st p it (vaultTaprootLeafHash E leaf) txid value leaf [] reclaimSequence
  dust : dustLimit < value
  amount : ∃ outValue : UInt64, outValue < value ∧
    p.Holds (.output 0) [psbtOutAmount] (leBytes 8 outValue.toNat)
  address : ∃ parity x a, E.tweakPubkey it.depositorPk none = some (parity, x) ∧
    E.scriptAddress (p2trSpk x) = some a ∧ p.Holds (.output 0) [psbtOutScript] (p2trSpk x)

variable {h root txid leafHash x : Bytes32} {gi : ℕ} {value : UInt64} {sequence : UInt32}

/-! ## The leaves -/

/-- What the dispatcher sees of a refund leaf. -/
theorem htlcLeaf1_bytes (hs : LoadedIntent E it) (hl : vaultBuildHtlcLeaf1 it n = some leaf) :
    (36 ≤ leaf.length ∧ leaf.length ≤ 38) ∧ leaf.getD 0 0 = opPushbytes32 ∧
      leaf.getD 33 0 = opChecksigverify ∧ leaf.getD 34 0 ≠ opSize ∧ leaf.getLastD 0 = opCsv := by
  obtain ⟨hmin, hmax⟩ := hs.leafBounds.refund
  obtain rfl := htlcLeaf1_eq hl
  obtain ⟨h0, h33, -⟩ := head_keyEntry it.depositorPk opChecksigverify
    (pushNumber it.htlcRefundTimelock ++ [opCsv])
  have h34 := getD_behind_keyEntry it.depositorPk opChecksigverify
    (pushNumber it.htlcRefundTimelock ++ [opCsv]) 0
  have hpush := pushNumber_eq (t := it.htlcRefundTimelock) (by omega) (by omega)
  refine ⟨?_, h0, h33, ?_, ?_⟩
  · rw [List.length_append, length_keyEntry, List.length_append, hpush]
    split_ifs <;> simp
  · rw [h34, hpush]
    split_ifs
    · show (1 : UInt8) ≠ opSize
      decide
    · show (2 : UInt8) ≠ opSize
      decide
  · rw [← List.append_assoc]
    exact List.getLastD_concat

/-! ## The validators -/

theorem HonestSpend.serves_map (hp : HonestSpend E st p it root txid value leaf steps sequence)
    (side : Side) : p.Serves (.map side 1 0) true := by
  refine decide_eq_true ?_
  cases side with
  | input => exact ⟨hp.inputs.2.symm, Nat.one_pos⟩
  | output => exact ⟨hp.outputs.2.symm, Nat.one_pos⟩

theorem HonestSpend.leafRead {cb : Bytes}
    (hp : HonestSpend E st p it root txid value leaf steps sequence) (hleaf : p.HasLeaf 0 cb leaf) :
    LeafRead p.Serves 1 0 cb leaf := by
  have hr := hleaf.serves (hp.inputs.2 ▸ Nat.one_pos)
  rwa [hp.inputs.2] at hr

theorem HonestSpend.key (hs : LoadedIntent E it)
    (hp : HonestSpend E st p it root txid value leaf steps sequence) :
    LeafKeyOk E st p.Serves (.input 0) it.depositorPk it.depositorPath.toList := by
  obtain ⟨hashes, hh, hd⟩ := hp.derivation
  obtain ⟨pk, hpk, hxpk⟩ := hs.depositor
  have hr := hd.derivation (E := E) hh hs.bip86 it.depositorPath.toList_length hpk
  rwa [hxpk] at hr

/-- The refund of an intent passes its validator, unless another intent is loaded. -/
theorem HonestRefund.validated (hs : LoadedIntent E it)
    (hcomm : ∀ a b, E.combineTaptreeHashes a b = E.combineTaptreeHashes b a)
    (hi : s.ctx.state = .intentLoaded → s.intent = it) (hp : HonestRefund E st p it h gi value) :
    ∃ v', (validateDisplayRefund E st s).Via p.Serves v () v' := by
  obtain ⟨leaf0, leaf1, root, h0, h1, hroot, hsp⟩ := hp.spend
  obtain ⟨outValue, hle, hamount⟩ := hp.amount
  obtain ⟨path, pk, parity, x, a, hashes, hpath, hpk, htw, haddr, hscript, hh, hder⟩ := hp.address
  obtain ⟨head, y, ht, hutxo, hleaf⟩ := hsp.output
  obtain ⟨hmin, hmax⟩ := hs.leafBounds.refund
  obtain ⟨⟨-, hlen⟩, -⟩ := htlcLeaf1_bytes hs h1
  have hseq : (UInt32.ofNat it.htlcRefundTimelock).toNat = it.htlcRefundTimelock := by
    rw [UInt32.toNat_ofNat']
    omega
  have hcom : CommittedBy E (tlsOf (head :: (vaultNumsXonly.toList ++
      (vaultTaprootLeafHash E leaf0).toList)) leaf1) (vaultTaprootLeafHash E leaf1) (p2trSpk y) := by
    refine committedBy_controlBlock ?_ ht
    have hr : E.combineTaptreeHashes (vaultTaprootLeafHash E leaf0) (vaultTaprootLeafHash E leaf1) =
        root := by
      simpa [vaultBuildHtlcMerkleRoot, h0, h1] using hroot
    have h32 : (vaultTaprootLeafHash E leaf0).toList.length = 32 :=
      (vaultTaprootLeafHash E leaf0).toList_length
    rw [h32, ← hr, hcomm (vaultTaprootLeafHash E leaf0)]
    show E.combineTaptreeHashes _ (Buf.ofBytes 32 (vaultTaprootLeafHash E leaf0).toList) = _
    rw [Buf.toList_inj.1 (Buf.toList_ofBytes h32)]
  have hparse : parseRefundLeafScript leaf1 = some (it.depositorPk, it.htlcRefundTimelock) :=
    (hs.leafShapes.refund.2 _ _ h1).2
  have hbuf : leaf1.length ≤ scriptMaxLen := by
    unfold scriptMaxLen
    omega
  have hov : ofLE (leBytes 8 outValue.toNat) = outValue.toNat := ofLE_leBytes outValue.toNat_lt
  have h8 : (leBytes 8 outValue.toNat).length = 8 := length_leBytes _ _
  have htls : (tlsOf (head :: (vaultNumsXonly.toList ++ (vaultTaprootLeafHash E leaf0).toList))
      leaf1).leafScript = leaf1 := leafScript_of_buffered (E := E) (s := s) (decide_eq_true hbuf)
  have htxid : p.Serves (.value (.input 0) [psbtInPreviousTxid] 32) (some it.prepeginTxid.toList) :=
    hsp.txid.serves it.prepeginTxid.toList_length.le
  simp only [validateDisplayRefund, check_bind, checkVersionLocktime_bind, getMap_bind,
    checkSighashType_bind, readWitnessUtxo_bind, readTapLeaf_bind, requireBufferedLeaf_bind,
    orReject_bind, checkLeafKey_bind, refundVerifyTaprootCommitment_bind, checkCsvSequence,
    Prog.bind_assoc, getField_bind, getExact_bind, readDerivation_bind, getPreviousTxid_bind,
    addressOf_bind, display_end]
  refine ⟨{ v with leaf := leafMetaOf E s leaf1 }, by simp [hsp.inputs.1, hsp.outputs.1], ?_,
    hsp.serves_map .input, hsp.sighash.serves, value, p2trSpk y, hutxo.utxo, _, leaf1,
    hsp.leafRead hleaf, decide_eq_true hbuf,
    (it.depositorPk, it.htlcRefundTimelock), htls.symm ▸ hparse, ?_, _, hsp.key hs, hcom,
    UInt32.ofNat it.htlcRefundTimelock, hsp.sequence.field, ?_, hseq, hsp.serves_map .output, ?_⟩
  · rw [hsp.locktime]
    simpa using hsp.version
  · split_ifs with hl
    · rw [hi hl]
    · show ¬it.htlcRefundTimelock < 72
      omega
  · rw [and_flag (k := 31) rfl (by omega), and_flag (k := 22) rfl (by omega)]
    simp
  · refine ⟨_, hscript.serves length_p2trSpk.le, length_p2trSpk, rfl, _, hamount.serves h8.le, h8, path,
      xonly pk, ?_, (parity, x), htw, slice_p2trSpk.symm, ?_, it.prepeginTxid, htxid, ?_, a, haddr, rfl,
      rfl⟩
    · rw [slice_p2trSpk]
      exact hder.derivation hh hpath (checkBip86Path_length hpath) hpk
    · rw [hov, UInt64.ofNat_toNat]
      exact UInt64.not_lt.2 hle
    · rintro ⟨hl, hne⟩
      exact hne (by rw [hi hl])

/-- The reclaim of an intent passes its validator, on the leaf that the dispatcher has read. -/
theorem HonestReclaim.validated (hs : LoadedIntent E it) (hp : HonestReclaim E st p it gi value) :
    ∃ cb leaf, LeafRead p.Serves 1 0 cb leaf ∧ leaf = keyEntry it.depositorPk opChecksig ∧
      (validateDisplayReclaim E st (tlsOf cb leaf)).Via p.Serves
        { v with leaf := leafMetaOf E s leaf } () { v with leaf := leafMetaOf E s leaf } := by
  obtain ⟨leaf, txid, hclaim, -, hsp⟩ := hp.spend
  obtain ⟨outValue, hlt, hamount⟩ := hp.amount
  obtain ⟨parity, x, a, htw, haddr, hscript⟩ := hp.address
  obtain ⟨head, y, ht, hutxo, hleaf⟩ := hsp.output
  obtain rfl := claimLeaf_eq hclaim
  have hcom : CommittedBy E (tlsOf (head :: (vaultNumsXonly.toList ++ []))
      (keyEntry it.depositorPk opChecksig)) (vaultTaprootLeafHash E
        (keyEntry it.depositorPk opChecksig)) (p2trSpk y) := committedBy_controlBlock rfl ht
  have hparse : parseClaimLeafScript (keyEntry it.depositorPk opChecksig) = some it.depositorPk :=
    (hs.leafShapes.claim.2 _ _ hclaim).2
  have hbuf : (keyEntry it.depositorPk opChecksig).length ≤ scriptMaxLen := by
    rw [length_keyEntry]
    decide
  have htls : (tlsOf (head :: (vaultNumsXonly.toList ++ []))
      (keyEntry it.depositorPk opChecksig)).leafScript = keyEntry it.depositorPk opChecksig :=
    leafScript_of_buffered (E := E) (s := s) (decide_eq_true hbuf)
  have hov : ofLE (leBytes 8 outValue.toNat) = outValue.toNat := ofLE_leBytes outValue.toNat_lt
  have h8 : (leBytes 8 outValue.toNat).length = 8 := length_leBytes _ _
  have hfee : reclaimFeeOk value outValue = some (value - outValue) :=
    if_neg (UInt64.not_le.2 hlt)
  refine ⟨_, _, hsp.leafRead hleaf, rfl, ?_⟩
  simp only [validateDisplayReclaim, check_bind, checkVersionLocktime_bind, getMap_bind, getField_bind,
    checkSighashType_bind, readWitnessUtxo_bind, requireBufferedLeaf_bind, orReject_bind,
    checkLeafKey_bind, refundVerifyTaprootCommitment_bind, getExact_bind, getPreviousTxid_bind,
    addressOf_bind, display_end]
  refine ⟨by simp [hsp.inputs.1, hsp.outputs.1], ?_, decide_eq_true hbuf, it.depositorPk,
    htls.symm ▸ hparse, ?_, hsp.serves_map .input, reclaimSequence, hsp.sequence.field, rfl,
    hsp.sighash.serves, value, p2trSpk y, hutxo.utxo, UInt64.not_le.2 hp.dust, hcom, _, hsp.key hs,
    hsp.serves_map .output, _, hscript.serves length_p2trSpk.le, length_p2trSpk, ?_, _,
    hamount.serves h8.le, h8, value - outValue, ?_, txid, hsp.txid.serves txid.toList_length.le, a,
    haddr, rfl, trivial⟩
  · rw [hsp.locktime]
    simpa using hsp.version
  · show (head :: (vaultNumsXonly.toList ++ [])).length = 33
    rw [List.append_nil, List.length_cons, vaultNumsXonly.toList_length]
  · show decide (bip86P2trSpk E it.depositorPk = some (p2trSpk x)) = true
    refine decide_eq_true ?_
    rw [bip86P2trSpk, htw]
    rfl
  · rw [hov, UInt64.ofNat_toNat]
    exact hfee

/-! ## The dispatcher -/

/-- One input and one output without a wallet policy: the leaf decides. -/
theorem HonestSpend.dispatch_eq (hp : HonestSpend E st p it root txid value leaf steps sequence) :
    dispatch E st s = dispatchLeaf E st s := by
  have hver : st.txVersion ≠ 0 := by
    rintro h0
    have := UInt32.le_iff_toNat_le.1 hp.version
    rw [h0] at this
    exact absurd this (by decide)
  simp [dispatch, dispatchRest, hver, hp.inputs.1, hp.outputs.1, hp.policy]

theorem HonestRefund.dispatched (hs : LoadedIntent E it)
    (hcomm : ∀ a b, E.combineTaptreeHashes a b = E.combineTaptreeHashes b a)
    (hi : s.ctx.state = .intentLoaded → s.intent = it) (hp : HonestRefund E st p it h gi value) :
    ∃ v', (dispatch E st s).Via p.Serves v .refund v' := by
  obtain ⟨leaf0, leaf1, root, h0, h1, hroot, hsp⟩ := hp.spend
  obtain ⟨head, y, -, -, hleaf⟩ := hsp.output
  obtain ⟨⟨hmin, -⟩, hb0, hb33, hb34, hlast⟩ := htlcLeaf1_bytes hs h1
  obtain ⟨v', hval⟩ := hp.validated (v := { v with leaf := leafMetaOf E s leaf1 }) hs hcomm hi
  have hread : LeafRead p.Serves st.nInputs 0 (head :: (vaultNumsXonly.toList ++
      (vaultTaprootLeafHash E leaf0).toList)) leaf1 := by
    rw [hsp.inputs.1, ← hsp.inputs.2]
    exact hleaf.serves (hsp.inputs.2 ▸ Nat.one_pos)
  have hcsv : opCsv ≠ opTrue := by decide
  have hnot : ¬leafHasAssertShape leaf1.length (leafMetaOf E s leaf1).pfx
      (leafMetaOf E s leaf1).lastByte = true := fun ha =>
    hcsv (hlast.symm.trans (leafHasAssertShape_iff.1 ha).2.2.2.2.2)
  have hp0 : (leafMetaOf E s leaf1).pfx.pick 0 = opPushbytes32 := (pfx_pick (by decide)).trans hb0
  have hp33 : (leafMetaOf E s leaf1).pfx.pick 33 = opChecksigverify :=
    (pfx_pick (by decide)).trans hb33
  have hp34 : (leafMetaOf E s leaf1).pfx.pick 34 ≠ opSize := by
    rwa [pfx_pick (by decide)]
  have hlen : (tlsOf (head :: (vaultNumsXonly.toList ++ (vaultTaprootLeafHash E leaf0).toList))
      leaf1).leafScriptLen = leaf1.length := rfl
  refine ⟨v', ?_⟩
  rw [hsp.dispatch_eq]
  simp only [dispatchLeaf, readTapLeaf_bind, leafMeta_bind, via_ite, reject_end, and_false, false_or,
    or_false, check_bind]
  refine ⟨_, leaf1, hread, ?_, .inr ⟨?_, ?_, .inr ⟨?_, .inr ⟨?_, ?_, ?_⟩⟩⟩⟩
  · rw [hlen, depositorClaimLeafLen, hp0]
    simp only [ne_eq, not_true_eq_false, or_false]
    omega
  · rw [hlen, depositorClaimLeafLen]
    omega
  · rw [hlen, depositorClaimLeafLen]
    exact ⟨by omega, hp33⟩
  · exact hp34
  · rw [hlen]
    exact hnot
  · exact hlast
  · exact through_iff.2 ⟨rfl, hval⟩

theorem HonestReclaim.dispatched (hs : LoadedIntent E it) (hp : HonestReclaim E st p it gi value) :
    ∃ v', (dispatch E st s).Via p.Serves v .reclaim v' := by
  obtain ⟨cb, leaf, hread, rfl, hval⟩ := hp.validated (s := s) (v := v) hs
  obtain ⟨_, _, -, -, hsp⟩ := hp.spend
  obtain ⟨h0, h33, -⟩ := head_keyEntry it.depositorPk opChecksig []
  rw [List.append_nil] at h0 h33
  have hp0 : (leafMetaOf E s (keyEntry it.depositorPk opChecksig)).pfx.pick 0 = opPushbytes32 :=
    (pfx_pick (by decide)).trans h0
  have hp33 : (leafMetaOf E s (keyEntry it.depositorPk opChecksig)).pfx.pick 33 = opChecksig :=
    (pfx_pick (by decide)).trans h33
  have hlen : (tlsOf cb (keyEntry it.depositorPk opChecksig)).leafScriptLen = 34 := length_keyEntry
  refine ⟨{ v with leaf := leafMetaOf E s (keyEntry it.depositorPk opChecksig) }, ?_⟩
  rw [hsp.dispatch_eq]
  simp only [dispatchLeaf, readTapLeaf_bind, leafMeta_bind, via_ite, reject_end, and_false, false_or,
    or_false, check_bind]
  refine ⟨cb, _, hsp.inputs.1.symm ▸ hread, ?_, .inl ⟨?_, .inr ⟨?_, hsp.outputs.1, ?_⟩⟩⟩
  · rw [hlen, depositorClaimLeafLen, hp0]
    simp
  · rw [hlen]
    exact ⟨rfl, hp33⟩
  · rw [hsp.outputs.1]
    decide
  · exact through_iff.2 ⟨rfl, hval⟩

/-! ## The path of an intent -/

/-- The intent with another path. -/
def VaultIntent.withPath (q : List.Vector UInt32 depositorPathLen) (it : VaultIntent) : VaultIntent :=
  { it with depositorPath := q }

variable {q : List.Vector UInt32 depositorPathLen} {net : Network} {out : VaultIntent}

/-- A field is read the same way whatever the path. -/
def PathBlind (q : List.Vector UInt32 depositorPathLen) (r r' : Except TlvErr (ℕ × VaultIntent)) :
    Prop :=
  r' = r.map fun x => (x.1, x.2.withPath q)

namespace PathBlind
variable {r r' t t' : Except TlvErr (ℕ × VaultIntent)} {w : Bytes} {idx : ℕ} {y : VaultIntent}

theorem ite {c : Prop} [Decidable c] (h : c → PathBlind q r r') (h' : ¬c → PathBlind q t t') :
    PathBlind q (if c then r else t) (if c then r' else t') := by
  split_ifs with hc
  · exact h hc
  · exact h' hc

theorem field {c : Prop} [Decidable c] :
    PathBlind q (do lenIs n w; valid c; return (idx, y))
      (do lenIs n w; valid c; return (idx, y.withPath q)) := by
  unfold PathBlind lenIs valid
  split_ifs <;> rfl

theorem unchecked : PathBlind q (do lenIs n w; return (idx, y))
    (do lenIs n w; return (idx, y.withPath q)) := by
  unfold PathBlind lenIs
  split_ifs <;> rfl

end PathBlind

theorem tlvField_withPath (q : List.Vector UInt32 depositorPathLen) (net : Network)
    (out : VaultIntent) {tag : ℕ} (w : Bytes) (hne : tag ≠ tagDepositorDerivationPath) :
    PathBlind q (tlvField net tag w out) (tlvField net tag w (out.withPath q)) := by
  unfold tlvField
  iterate 6 refine .ite (fun _ => .field) fun _ => ?_
  refine .ite (fun _ => .unchecked) fun _ => ?_
  refine .ite (fun _ => .field) fun _ => ?_
  refine .ite (fun h => absurd h hne) fun _ => ?_
  iterate 4 refine .ite (fun _ => .field) fun _ => ?_
  rfl

theorem foldlM_withPath (net : Network) : ∀ {es : List (ℕ × Bytes)} (seen : ℕ) (out : VaultIntent),
    (∀ e ∈ es, e.1 ≠ tagDepositorDerivationPath) →
    PathBlind q (es.foldlM (tlvStep net) (seen, out)) (es.foldlM (tlvStep net) (seen, out.withPath q))
  | [], _, _, _ => rfl
  | e :: es, seen, out, hne => by
    obtain ⟨he, hes⟩ := List.forall_mem_cons.1 hne
    have hfield := tlvField_withPath q net out e.2 he
    rw [PathBlind, List.foldlM_cons, List.foldlM_cons, tlvStep, tlvStep, hfield]
    dsimp only
    rcases tlvField net e.1 e.2 out with err | ⟨idx, out'⟩
    · rfl
    · show (ite (seen.testBit idx = true) _ _ >>= _) =
        Except.map _ (ite (seen.testBit idx = true) _ _ >>= _)
      split_ifs
      · rfl
      · exact foldlM_withPath net _ _ hes

/-- A payload is accepted. -/
def ParserAccepts (net : Network) (data : Bytes) (out : VaultIntent) : Prop :=
  ∃ it, vaultTlvParse net data out = .ok it

variable {pre post : List (ℕ × Bytes)} {w : Bytes}

/-- The step of the path. -/
theorem tlvStep_path {seen : ℕ} {r : ℕ × VaultIntent} (hw : w.length = 20) :
    tlvStep net (seen, out) (tagDepositorDerivationPath, w) = .ok r ↔
      depositorPathOk (pathOf depositorPathLen w) = true ∧ seen.testBit 8 = false ∧
        r = (seen ||| 1 <<< 8, out.withPath (pathOf depositorPathLen w)) := by
  have hf : tlvField net tagDepositorDerivationPath w out = (do
      lenIs 20 w
      valid (depositorPathOk (pathOf depositorPathLen w))
      return (8, out.withPath (pathOf depositorPathLen w))) := rfl
  rw [tlvStep, hf]
  simp only [ok_bind, lenIs_ok, valid_ok, pure_ok]
  constructor
  · rintro ⟨_, ⟨_, -, _, hp, rfl⟩, h⟩
    dsimp only at h
    split_ifs at h with hb
    cases h
    exact ⟨hp, by simpa using hb, rfl⟩
  · rintro ⟨hp, hb, rfl⟩
    refine ⟨_, ⟨(), hw, (), hp, rfl⟩, ?_⟩
    dsimp only
    rw [hb, if_neg Bool.false_ne_true]

theorem parse_entries (hf : ∀ e ∈ pre ++ post, EntryFits e) (hw : w.length = 20) :
    vaultTlvParse net (encodeEntries (pre ++ (tagDepositorDerivationPath, w) :: post)) out = .ok it ↔
      ∃ seen out₁, pre.foldlM (tlvStep net) (0, out) = .ok (seen, out₁) ∧ seen.testBit 8 = false ∧
        depositorPathOk (pathOf depositorPathLen w) = true ∧
        post.foldlM (tlvStep net) (seen ||| 1 <<< 8, out₁.withPath (pathOf depositorPathLen w)) =
          .ok (2 ^ 13 - 1, it) ∧ it.depositorPath.pick 1 = it.coinType ||| hardened := by
  have hpath : EntryFits (tagDepositorDerivationPath, w) :=
    ⟨show tagDepositorDerivationPath < 2 ^ 16 by decide, show w.length < 2 ^ 8 by omega⟩
  have hall : ∀ e ∈ pre ++ (tagDepositorDerivationPath, w) :: post, EntryFits e := by
    intro e he
    rcases List.mem_append.1 he with h | h
    · exact hf e (List.mem_append_left _ h)
    · rcases List.mem_cons.1 h with rfl | h
      · exact hpath
      · exact hf e (List.mem_append_right _ h)
  rw [vaultTlvParse, tlvLoop_entries hall le_rfl, List.foldlM_append]
  simp only [ok_bind, List.foldlM_cons, tlvStep_path hw]
  constructor
  · rintro ⟨⟨seen', it'⟩, ⟨⟨seen, out₁⟩, hpre, _, ⟨hp, hb, rfl⟩, hpost⟩, h⟩
    dsimp only at h
    split_ifs at h with hs hc
    cases h
    exact ⟨seen, out₁, hpre, hb, hp, not_not.1 hs ▸ hpost, not_not.1 hc⟩
  · rintro ⟨seen, out₁, hpre, hb, hp, hpost, hc⟩
    refine ⟨_, ⟨_, hpre, _, ⟨hp, hb, rfl⟩, hpost⟩, ?_⟩
    dsimp only
    rw [if_neg (not_not.2 rfl), if_neg (not_not.2 hc)]
    rfl

/-- Where one path is accepted, another one is exactly if the signing flows accept it. -/
theorem parserAccepts_path {q w : Bytes} (hf : ∀ e ∈ pre ++ post, EntryFits e)
    (hne : ∀ e ∈ pre ++ post, e.1 ≠ tagDepositorDerivationPath) (hq : q.length = 20)
    (hok : ParserAccepts net (encodeEntries (pre ++ (tagDepositorDerivationPath, q) :: post)) out)
    (hw : w.length = 20) :
    ParserAccepts net (encodeEntries (pre ++ (tagDepositorDerivationPath, w) :: post)) out ↔
      checkBip86Path net (pathOf depositorPathLen w).toList = true := by
  obtain ⟨it, hit⟩ := hok
  have hcoin : it.coinType = net.coinType := vaultTlvParse_ok hit 2 (by decide)
  obtain ⟨seen, out₁, hpre, hb, -, hpost, -⟩ := (parse_entries hf hq).1 hit
  have hblind := foldlM_withPath net (q := pathOf depositorPathLen w)
    (seen ||| 1 <<< 8) (out₁.withPath (pathOf depositorPathLen q))
    fun e he => hne e (List.mem_append_right _ he)
  rw [PathBlind, hpost] at hblind
  have hpost' : post.foldlM (tlvStep net)
      (seen ||| 1 <<< 8, out₁.withPath (pathOf depositorPathLen w)) =
        .ok (2 ^ 13 - 1, it.withPath (pathOf depositorPathLen w)) := hblind
  rw [checkBip86Path_iff, ← hcoin]
  constructor
  · rintro ⟨it', hit'⟩
    obtain ⟨seen', out₂, hpre', -, hp, hpost₂, hc⟩ := (parse_entries hf hw).1 hit'
    obtain ⟨rfl, rfl⟩ := Prod.mk.inj (Except.ok.inj (hpre.symm.trans hpre'))
    obtain ⟨-, rfl⟩ := Prod.mk.inj (Except.ok.inj (hpost'.symm.trans hpost₂))
    exact ⟨hp, hc⟩
  · rintro ⟨hp, hc⟩
    exact ⟨_, (parse_entries hf hw).2 ⟨seen, out₁, hpre, hb, hp, hpost', hc⟩⟩

/-! ## Recovery -/

/-- A serving host has the PSBT accepted by this flow, and Input 0 signed with the depositor's
    path. -/
def SignsFlow (E : Env) (st : SignPsbtState) (p : Psbt) (it : VaultIntent) (F : Flow) (d : Device) :
    Prop :=
  ∀ ans, p.SignsWith ans → ∃ d' req,
    (validateAndDisplayTransaction E st).eval ans d = (.ok F, d') ∧
    signatures ((signCustomInputs E st).asked ans d') = [(.standalone, req)] ∧
    req.inputIndex = 0 ∧ req.path = it.depositorPath.toList

/-- No derivation is under way, and no other intent is loaded. -/
def FreeFor (it : VaultIntent) (d : Device) : Prop :=
  d.streaming.streamingInProgress = false ∧ (d.ctx.state = .intentLoaded → d.intent = it)

/-- What is locked under an intent can be taken back, in every state. -/
structure Recoverable (E : Env) (it : VaultIntent) : Prop where
  refund : ∀ {h gi value st p d}, gi < it.vaultCount → HonestRefund E st p it h gi value →
    FreeFor it d → SignsFlow E st p it .refund d ∧
      ∀ v, ∃ v', (validateDisplayRefund E st d.session).Via p.Serves v () v'
  reclaim : ∀ {gi value st p d}, gi < it.vaultCount → HonestReclaim E st p it gi value →
    FreeFor it d → SignsFlow E st p it .reclaim d ∧
      ∀ v : Volatile, ∃ cb leaf v', LeafRead p.Serves 1 0 cb leaf ∧
        (validateDisplayReclaim E st (tlsOf cb leaf)).Via p.Serves
          { v with leaf := leafMetaOf E d.session leaf } () v'
  path : ∀ {pre post q w out}, (∀ e ∈ pre ++ post, EntryFits e) →
    (∀ e ∈ pre ++ post, e.1 ≠ tagDepositorDerivationPath) → q.length = 20 → w.length = 20 →
    ParserAccepts E.network (encodeEntries (pre ++ (tagDepositorDerivationPath, q) :: post)) out →
    (ParserAccepts E.network (encodeEntries (pre ++ (tagDepositorDerivationPath, w) :: post)) out ↔
      checkBip86Path E.network (pathOf depositorPathLen w).toList = true)

/-- An accepted spend of the depositor's leaf is signed with the depositor's path. -/
theorem HonestSpend.signsFlow {F : Flow} (hs : LoadedIntent E it)
    (hp : HonestSpend E st p it root txid value leaf steps sequence)
    (hkey : Buf.slice 32 leaf 1 = it.depositorPk) (hF : F.ofLeaf = true) (hd : FreeFor it d)
    (h : ∃ v', (dispatch E st d.session).Via p.Serves d.volatile F v') : SignsFlow E st p it F d := by
  intro ans hans
  obtain ⟨v', hdis⟩ := h
  obtain ⟨junk, heval⟩ := eval_validateAndDisplay hans hd.1 hdis
  have hacc : Accepted E st d.session p.Allows d.volatile F v' :=
    dispatch_via (hdis.mono fun q a => Psbt.Serves.allows)
  have hflow : LeafFlow E st d.session p.Allows d.volatile v' := by
    cases hacc with
    | leaf _ _ hl => exact hl
    | _ => exact Bool.noConfusion hF
  obtain ⟨cb, script, path, sighash, hin, hsig⟩ :=
    branch_leaf (d := d) junk hF hans hflow
  obtain ⟨head, y, -, -, hleaf⟩ := hp.output
  obtain ⟨-, rfl⟩ := hin.leaf.hasLeaf.2.unique hleaf
  have hk := hin.key
  rw [hkey] at hk
  obtain ⟨val, pk, hval, hrest⟩ := hp.key hs
  obtain ⟨rfl, -⟩ := hk.unique ⟨val, pk, hval.allows, hrest⟩
  refine ⟨_, ⟨0, it.depositorPath.toList, vaultTaprootLeafHash E script, sighashDefault, sighash⟩,
    heval, ?_, rfl, rfl⟩
  rw [signatures_accepted hacc, hsig]

variable {d₀ : Device} {ls : List Exchange}

theorem slice_keyEntry {y : Bytes32} {op : UInt8} {rest : Bytes} :
    Buf.slice 32 (keyEntry y op ++ rest) 1 = y := (head_keyEntry ..).2.2

/-- What is locked under an approved intent can be taken back with this device. -/
theorem Reach.recoverable (h : Reach E ls d₀) (hl : d₀.ctx.state = .intentLoaded)
    (hcomm : ∀ a b, E.combineTaptreeHashes a b = E.combineTaptreeHashes b a) :
    Recoverable E d₀.intent := by
  have hs : LoadedIntent E d₀.intent := (h.session.loaded hl).intent
  constructor
  · intro _ gi value st p d _ hp hd
    refine ⟨?_, fun v => hp.validated hs hcomm hd.2⟩
    obtain ⟨leaf0, leaf1, root, -, h1, -, hsp⟩ := hp.spend
    refine hsp.signsFlow hs ?_ rfl hd (hp.dispatched hs hcomm hd.2)
    rw [htlcLeaf1_eq h1]
    exact slice_keyEntry
  · intro gi value st p d _ hp hd
    refine ⟨?_, fun v => ?_⟩
    · obtain ⟨leaf, txid, hclaim, -, hsp⟩ := hp.spend
      refine hsp.signsFlow hs ?_ rfl hd (hp.dispatched hs)
      rw [claimLeaf_eq hclaim, ← List.append_nil (keyEntry _ _)]
      exact slice_keyEntry
    · obtain ⟨cb, leaf, hread, -, hval⟩ := hp.validated (s := d.session) (v := v) hs
      exact ⟨cb, leaf, _, hread, hval⟩
  · intro pre post q w out hf hne hq hw hok
    exact parserAccepts_path hf hne hq hok hw

theorem tapBranch_comm (a b : Bytes32) : tapBranch a b = tapBranch b a := by
  have hl : a.toList.length = b.toList.length := a.toList_length.trans b.toList_length.symm
  unfold tapBranch
  rw [memcmp_eq_compare hl, memcmp_eq_compare hl.symm]
  rcases lt_trichotomy (ofBE a.toList) (ofBE b.toList) with hlt | heq | hgt
  · rw [compare_lt_iff_lt.2 hlt, compare_gt_iff_gt.2 hlt]
    rfl
  · rw [ofBE_inj hl heq]
  · rw [compare_gt_iff_gt.2 hgt, compare_lt_iff_lt.2 hgt]
    rfl

namespace Signet

/-- The leaves of the first HTLC, and the claim leaf. -/
def htlcLeaf0 : Bytes := (vaultBuildHtlcLeaf0 intent 0 hashlock scriptMaxLen).getD []
def htlcLeaf1 : Bytes := (vaultBuildHtlcLeaf1 intent scriptMaxLen).getD []
def reclaimLeaf : Bytes := (vaultBuildDepositorClaimLeaf intent p2trSpkLen).getD []

/-- The merkle root of the first HTLC, and the txid of its PegIn. -/
def htlcRoot : Bytes32 := .be 32 0xcce12720572c69f22feef11ea0a75ef56f5c29d5d626d415dfbfcf6e0f133acb
def peginTxid : Bytes32 := .be 32 0x960f04e36faee8da59f0459d1b3580ee22df9462f545b68060f35cd46ef032a3

/-- The refund of the first HTLC. -/
def refund : Psbt :=
  ⟨[], [utxo 103000 (Signet.spk htlcOut) :: outpoint (ofBE prepeginTxid.toList) 0 1000 ++
      [tapLeaf htlcOut (vaultTaprootLeafHash env htlcLeaf0).toList htlcLeaf1, depositorRecord]],
    [output 102000 (Signet.spk depositorOut) ++
      [(psbtOutTapBip32Derivation :: (Buf.be 32 depositorOut.2).toList, depositorRecord.2)]]⟩

/-- The reclaim of the claim output of its PegIn. -/
def reclaim : Psbt :=
  ⟨[], [utxo 2000 (Signet.spk claimOut) :: outpoint (ofBE peginTxid.toList) 1 reclaimSequence ++
      [tapLeaf claimOut [] reclaimLeaf, depositorRecord]],
    [output 1500 (Signet.spk depositorOut)]⟩

/-- What the base app parses of them. -/
def refundState : SignPsbtState := parsed refund 103000 102000
def reclaimState : SignPsbtState := parsed reclaim 2000 1500

theorem refund_leaf : refund.HasLeaf 0 ((tapscriptLeafVersion ||| htlcOut.1) ::
    (vaultNumsXonly.toList ++ (vaultTaprootLeafHash env htlcLeaf0).toList)) htlcLeaf1 where
  entry := ⟨(refund.map (.input 0)).take 4, [depositorRecord], by decide +kernel, by decide +kernel,
    by decide +kernel⟩
  controlBlock := by decide +kernel
  pos := by decide +kernel
  le := by decide +kernel

theorem reclaim_leaf : reclaim.HasLeaf 0 ((tapscriptLeafVersion ||| claimOut.1) ::
    (vaultNumsXonly.toList ++ [])) reclaimLeaf where
  entry := ⟨(reclaim.map (.input 0)).take 4, [depositorRecord], by decide +kernel, by decide +kernel,
    by decide +kernel⟩
  controlBlock := by decide +kernel
  pos := by decide +kernel
  le := by decide +kernel

theorem refund_spend : HonestSpend env refundState refund intent htlcRoot prepeginTxid 103000 htlcLeaf1
    (vaultTaprootLeafHash env htlcLeaf0).toList 1000 where
  inputs := by decide
  outputs := by decide
  policy := rfl
  version := by decide
  locktime := rfl
  txid := by decide +kernel
  sequence := by decide +kernel
  sighash := by decide +kernel
  output := ⟨_, .be 32 htlcOut.2, by decide +kernel, by decide +kernel, refund_leaf⟩
  derivation := ⟨[], by decide, by decide +kernel⟩

theorem reclaim_spend : HonestSpend env reclaimState reclaim intent
    (vaultTaprootLeafHash env reclaimLeaf) peginTxid 2000 reclaimLeaf [] reclaimSequence where
  inputs := by decide
  outputs := by decide
  policy := rfl
  version := by decide
  locktime := rfl
  txid := by decide +kernel
  sequence := by decide +kernel
  sighash := by decide +kernel
  output := ⟨_, .be 32 claimOut.2, by decide +kernel, by decide +kernel, reclaim_leaf⟩
  derivation := ⟨[], by decide, by decide +kernel⟩

theorem refund_honest : HonestRefund env refundState refund intent hashlock 0 103000 where
  spend := ⟨htlcLeaf0, htlcLeaf1, htlcRoot, by decide +kernel, by decide +kernel, by decide +kernel,
    refund_spend⟩
  amount := ⟨102000, by decide, by decide +kernel⟩
  address := ⟨path.toList, _, depositorOut.1, .be 32 depositorOut.2, _, [], by decide +kernel, rfl,
    by decide +kernel, rfl, by decide +kernel, by decide, by decide +kernel⟩

theorem reclaim_honest : HonestReclaim env reclaimState reclaim intent 0 2000 where
  spend := ⟨reclaimLeaf, peginTxid, by decide +kernel, by decide +kernel, reclaim_spend⟩
  dust := by decide
  amount := ⟨1500, by decide, by decide +kernel⟩
  address := ⟨depositorOut.1, .be 32 depositorOut.2, _, by decide +kernel, rfl, by decide +kernel⟩

end Signet

open Signet in
/-- The first vault of an intent, with its refund and its reclaim. -/
theorem recoverable_signet : Recoverable env (loaded intent).intent ∧
    SignsFlow env refundState refund (loaded intent).intent .refund (loaded intent) ∧
    SignsFlow env reclaimState reclaim (loaded intent).intent .reclaim (loaded intent) := by
  have hrec : Recoverable env (loaded intent).intent :=
    (reach_loaded intent).recoverable loaded_state tapBranch_comm
  have hit : (loaded intent).intent = intent := by rw [loaded_intent]; rfl
  have hfree : FreeFor (loaded intent).intent (loaded intent) :=
    ⟨by rw [loaded_intent]; rfl, fun _ => rfl⟩
  have hgi : 0 < (loaded intent).intent.vaultCount := by rw [hit]; decide
  have hrefund : HonestRefund env refundState refund (loaded intent).intent hashlock 0 103000 := by
    rw [hit]
    exact refund_honest
  have hreclaim : HonestReclaim env reclaimState reclaim (loaded intent).intent 0 2000 := by
    rw [hit]
    exact reclaim_honest
  exact ⟨hrec, (hrec.refund hgi hrefund hfree).1, (hrec.reclaim hgi hreclaim hfree).1⟩

end BabylonVault
