/-
  What a reader that succeeds has read.

  `G q a` says which answers are allowed. Each rule turns a run that begins with
  a reader into what that reader has seen and the run that follows, so that a
  validator is inverted by rewriting with them.

  * `SighashOk`, `ReadsUtxo`, `ReadsOutput`, `LeafKeyOk`: what the composite readers
    have seen.
-/
import BabylonVault.Frame

namespace BabylonVault
open Bytes Prog

/-- The answers a run may get. -/
abbrev Allow := ∀ q, readIface.Ans q → Prop

variable {G : Allow} {v v' : Volatile} {α : Type} {b : α} {sw : Sw}
  {side : Side} {m : MapRef} {key : Bytes} {k : UInt8} {n i maxScript : ℕ}

/-! ## Single reads -/

theorem check_bind {c : Prop} [Decidable c] {f : Unit → V α} :
    (check c sw >>= f).Via G v b v' ↔ c ∧ (f ()).Via G v b v' := via_require_bind

theorem checkCap_bind {c : Prop} [Decidable c] {f : Unit → V α} :
    (checkCap c >>= f).Via G v b v' ↔ c ∧ (f ()).Via G v b v' := via_require_bind

theorem ledgerAssert_bind {c : Prop} [Decidable c] {f : Unit → V α} :
    (ledgerAssert c >>= f).Via G v b v' ↔ c ∧ (f ()).Via G v b v' := via_require_bind

theorem orReject_bind {β : Type} {o : Option β} {f : β → V α} :
    (orReject o >>= f).Via G v b v' ↔ ∃ a, o = some a ∧ (f a).Via G v b v' := via_orStop_bind

theorem check_end {c : Prop} [Decidable c] {u : Unit} :
    (check c sw).Via G v u v' ↔ c ∧ v = v' := via_require

theorem checkCap_end {c : Prop} [Decidable c] {u : Unit} :
    (checkCap c).Via G v u v' ↔ c ∧ v = v' := via_require

theorem reject_end : (reject sw : V α).Via G v b v' ↔ False := via_stop

theorem reject_bind {β : Type} {f : β → V α} :
    ((reject sw : V β) >>= f).Via G v b v' ↔ False := by
  simp only [via_bind, reject_end, false_and, exists_false]

/-- A program that begins with a call. -/
theorem askV_bind {q : ReadAsk} {β : Type} {g : readIface.Ans q → V β} {f : β → V α} :
    (askV q >>= g >>= f).Via G v b v' ↔ ∃ a, G q a ∧ (g a >>= f).Via G v b v' := by
  rw [Prog.bind_assoc]
  exact via_ask_bind

theorem getMap_bind {f : MapRef → V α} : (getMap side n i >>= f).Via G v b v' ↔
    G (.map side n i) true ∧ (f (side.map i)).Via G v b v' := by
  refine askV_bind.trans ⟨?_, fun ⟨ha, h⟩ => ⟨true, ha, ?_⟩⟩
  · rintro ⟨a, ha, h⟩
    simp only [Prog.bind_assoc, check_bind, via_pure_bind] at h
    exact ⟨h.1 ▸ ha, h.2⟩
  · simpa only [Prog.bind_assoc, check_bind, via_pure_bind, true_and] using h

theorem getValue_bind {f : Bytes → V α} : (getValue m key n >>= f).Via G v b v' ↔
    ∃ val, G (.value m key n) (some val) ∧ (f val).Via G v b v' := by
  refine askV_bind.trans ⟨?_, fun ⟨val, ha, h⟩ => ⟨some val, ha, orReject_bind.2 ⟨val, rfl, h⟩⟩⟩
  rintro ⟨a, ha, h⟩
  obtain ⟨val, rfl, h⟩ := orReject_bind.1 h
  exact ⟨val, ha, h⟩

theorem getExact_bind {f : Bytes → V α} : (getExact m key n >>= f).Via G v b v' ↔
    ∃ val, G (.value m key n) (some val) ∧ val.length = n ∧ (f val).Via G v b v' := by
  simp only [getExact, Prog.bind_assoc, getValue_bind, check_bind, via_pure_bind]

theorem getField_bind {f : UInt32 → V α} : (getField m k >>= f).Via G v b v' ↔
    ∃ x, G (.field m k) (.present x) ∧ (f x).Via G v b v' := by
  refine askV_bind.trans ⟨?_, fun ⟨x, ha, h⟩ => ⟨.present x, ha, h⟩⟩
  rintro ⟨_ | _ | x, ha, h⟩
  · exact (reject_bind.1 h).elim
  · exact (reject_bind.1 h).elim
  · exact ⟨x, ha, h⟩

theorem display_end {s : Screen} {u : Unit} :
    (display s).Via G v u v' ↔ G (.show s) true ∧ v = v' := by
  refine via_ask_bind.trans ⟨?_, fun ⟨ha, h⟩ => ⟨true, ha, check_end.2 ⟨rfl, h⟩⟩⟩
  rintro ⟨a, ha, h⟩
  obtain ⟨rfl, hv⟩ := check_end.1 h
  exact ⟨ha, hv⟩

theorem leafMeta_bind {f : LeafMeta → V α} :
    (leafMeta >>= f).Via G v b v' ↔ (f v.leaf).Via G v b v' := by
  unfold leafMeta
  rw [Prog.bind_assoc]
  exact via_get_bind

theorem requireBufferedLeaf_bind {f : Unit → V α} :
    (requireBufferedLeaf >>= f).Via G v b v' ↔ v.leaf.buffered = true ∧ (f ()).Via G v b v' := by
  simp only [requireBufferedLeaf, Prog.bind_assoc, leafMeta_bind, check_bind]

theorem getPreviousTxid_bind {f : Bytes32 → V α} : (getPreviousTxid m >>= f).Via G v b v' ↔
    ∃ txid : Bytes32, G (.value m [psbtInPreviousTxid] 32) (some txid.toList) ∧
      (f txid).Via G v b v' := by
  simp only [getPreviousTxid, Prog.bind_assoc, getExact_bind, via_pure_bind]
  constructor
  · rintro ⟨val, hG, hl, h⟩
    exact ⟨Buf.ofBytes 32 val, by rwa [Buf.toList_ofBytes hl], h⟩
  · rintro ⟨txid, hG, h⟩
    have hl : txid.toList.length = 32 := txid.toList_length
    refine ⟨txid.toList, hG, hl, ?_⟩
    rwa [Buf.toList_inj.1 (Buf.toList_ofBytes hl)]

theorem addChecked_bind {x y : UInt64} {f : UInt64 → V α} :
    (addChecked x y >>= f).Via G v b v' ↔ ¬x + y < x ∧ (f (x + y)).Via G v b v' := by
  simp only [addChecked, Prog.bind_assoc, check_bind, via_pure_bind]

theorem addressOf_bind {E : Env} {spk : Bytes} {f : String → V α} :
    (addressOf E spk >>= f).Via G v b v' ↔
      ∃ a, E.scriptAddress spk = some a ∧ (f a).Via G v b v' := orReject_bind

/-! ## Composite reads -/

/-- The sighash type of an input is absent or one of those allowed. -/
def SighashOk (G : Allow) (m : MapRef) (allowed : List UInt32) : Prop :=
  G (.field m psbtInSighashType) .absent ∨
    ∃ x ∈ allowed, G (.field m psbtInSighashType) (.present x)

theorem checkSighashType_bind {l : List UInt32} {f : Unit → V α} :
    (checkSighashType m l >>= f).Via G v b v' ↔ SighashOk G m l ∧ (f ()).Via G v b v' := by
  refine askV_bind.trans ⟨?_, ?_⟩
  · rintro ⟨_ | _ | x, ha, h⟩
    · exact ⟨.inl ha, h⟩
    · exact (reject_bind.1 h).elim
    · obtain ⟨hx, h⟩ := check_bind.1 h
      exact ⟨.inr ⟨x, hx, ha⟩, h⟩
  · rintro ⟨ha | ⟨x, hx, ha⟩, h⟩
    · exact ⟨.absent, ha, h⟩
    · exact ⟨.present x, ha, check_bind.2 ⟨hx, h⟩⟩

theorem checkSighashType_end {l : List UInt32} {u : Unit} :
    (checkSighashType m l).Via G v u v' ↔ SighashOk G m l ∧ v = v' := by
  rw [← via_bind_pure, checkSighashType_bind, via_pure]
  simp

/-- The sequence of an input is absent or final. -/
def SequenceFinal (G : Allow) (m : MapRef) : Prop :=
  G (.field m psbtInSequence) .absent ∨ G (.field m psbtInSequence) (.present sequenceFinal)

theorem requireSequenceFinal_bind {f : Unit → V α} :
    (requireSequenceFinal m >>= f).Via G v b v' ↔ SequenceFinal G m ∧ (f ()).Via G v b v' := by
  refine askV_bind.trans ⟨?_, ?_⟩
  · rintro ⟨_ | _ | x, ha, h⟩
    · exact ⟨.inl ha, h⟩
    · exact (reject_bind.1 h).elim
    · obtain ⟨rfl, h⟩ := check_bind.1 h
      exact ⟨.inr ha, h⟩
  · rintro ⟨ha | ha, h⟩
    · exact ⟨.absent, ha, h⟩
    · exact ⟨.present sequenceFinal, ha, check_bind.2 ⟨rfl, h⟩⟩

/-- A P2TR witness UTXO of this value and scriptPubKey. -/
def ReadsUtxo (G : Allow) (m : MapRef) (value : UInt64) (spk : Bytes) :
    Prop :=
  ∃ wu, G (.value m [psbtInWitnessUtxo] 43) (some wu) ∧
    (wu.length = 9 + (wu.getD 8 0).toNat ∧ (wu.getD 8 0).toNat = p2trSpkLen) ∧
    UInt64.ofNat (ofLE (wu.take 8)) = value ∧ wu.drop 9 = spk

theorem readWitnessUtxo_bind {f : UInt64 × Bytes → V α} :
    (readWitnessUtxo m >>= f).Via G v b v' ↔
      ∃ value spk, ReadsUtxo G m value spk ∧ (f (value, spk)).Via G v b v' := by
  simp only [readWitnessUtxo, Prog.bind_assoc, getValue_bind, check_bind, via_pure_bind, ReadsUtxo]
  constructor
  · rintro ⟨wu, hG, -, hl, h⟩
    exact ⟨_, _, ⟨wu, hG, hl, rfl, rfl⟩, h⟩
  · rintro ⟨_, _, ⟨wu, hG, hl, rfl, rfl⟩, h⟩
    exact ⟨wu, hG, by omega, hl, h⟩

/-- An output of this scriptPubKey and value, read with room for `maxScript` bytes. -/
def ReadsOutput (G : Allow) (nOutputs idx maxScript : ℕ) (spk : Bytes)
    (value : UInt64) : Prop :=
  G (.map .output nOutputs idx) true ∧
    (∃ raw8, G (.value (.output idx) [psbtOutAmount] 8) (some raw8) ∧ raw8.length = 8 ∧
      UInt64.ofNat (ofLE raw8) = value) ∧
    G (.value (.output idx) [psbtOutScript] maxScript) (some spk)

theorem readOutputVarlen_bind {f : Bytes × UInt64 → V α} :
    (readOutputVarlen n i maxScript >>= f).Via G v b v' ↔
      ∃ spk value, ReadsOutput G n i maxScript spk value ∧ (f (spk, value)).Via G v b v' := by
  simp only [readOutputVarlen, Prog.bind_assoc, getMap_bind, getExact_bind, getValue_bind,
    via_pure_bind, ReadsOutput]
  constructor
  · rintro ⟨hm, raw, hraw, hl, spk, hspk, h⟩
    exact ⟨spk, _, ⟨hm, ⟨raw, hraw, hl, rfl⟩, hspk⟩, h⟩
  · rintro ⟨spk, _, ⟨hm, ⟨raw, hraw, hl, rfl⟩, hspk⟩, h⟩
    exact ⟨hm, raw, hraw, hl, spk, hspk, h⟩

theorem readOutput_bind {f : Bytes × UInt64 → V α} :
    (readOutput n i >>= f).Via G v b v' ↔ ∃ spk value, ReadsOutput G n i p2trSpkLen spk value ∧
      spk.length = p2trSpkLen ∧ (f (spk, value)).Via G v b v' := by
  simp only [readOutput, Prog.bind_assoc, getMap_bind, getExact_bind, via_pure_bind, ReadsOutput]
  constructor
  · rintro ⟨hm, raw, hraw, hl, spk, hspk, hs, h⟩
    exact ⟨spk, _, ⟨hm, ⟨raw, hraw, hl, rfl⟩, hspk⟩, hs, h⟩
  · rintro ⟨spk, _, ⟨hm, ⟨raw, hraw, hl, rfl⟩, hspk⟩, hs, h⟩
    exact ⟨hm, raw, hraw, hl, spk, hspk, hs, h⟩

/-- The derivation record of `key` under `keyType`: a BIP-86 path of this device,
    and the key there. -/
def ReadsDerivation (E : Env) (st : SignPsbtState) (G : Allow) (m : MapRef)
    (keyType : UInt8) (key : Bytes32) (path : List UInt32) (x : Bytes32) : Prop :=
  ∃ val pk, G (.value m (keyType :: key.toList) 89) (some val) ∧
    parseTapBip32DerivValue val 5 = some (st.masterKeyFingerprint, path) ∧
    checkBip86Path E.network path = true ∧ E.pubkeyAt path = some pk ∧ xonly pk = x

variable {E : Env} {st : SignPsbtState} {x : Bytes32}

theorem readDerivation_bind {f : List UInt32 × Bytes32 → V α} :
    (readDerivation E st m k x >>= f).Via G v b v' ↔
      ∃ path y, ReadsDerivation E st G m k x path y ∧ (f (path, y)).Via G v b v' := by
  simp only [readDerivation, Prog.bind_assoc, getValue_bind, orReject_bind, check_bind,
    via_pure_bind, ReadsDerivation]
  constructor
  · rintro ⟨val, hG, ⟨fp, path⟩, hp, rfl, h86, pk, hpk, h⟩
    exact ⟨path, _, ⟨val, pk, hG, hp, h86, hpk, rfl⟩, h⟩
  · rintro ⟨path, _, ⟨val, pk, hG, hp, h86, hpk, rfl⟩, h⟩
    exact ⟨val, hG, (_, path), hp, rfl, h86, pk, hpk, h⟩

/-- The leaf's own key is the device's key at a BIP-86 path. -/
def LeafKeyOk (E : Env) (st : SignPsbtState) (G : Allow) (m : MapRef)
    (key : Bytes32) (path : List UInt32) : Prop :=
  ReadsDerivation E st G m psbtInTapBip32Derivation key path key

theorem checkLeafKey_bind {f : List UInt32 → V α} :
    (checkLeafKey E st m x >>= f).Via G v b v' ↔
      ∃ path, LeafKeyOk E st G m x path ∧ (f path).Via G v b v' := by
  simp only [checkLeafKey, Prog.bind_assoc, readDerivation_bind, check_bind, via_pure_bind,
    LeafKeyOk]
  constructor
  · rintro ⟨path, y, hd, rfl, h⟩
    exact ⟨path, hd, h⟩
  · rintro ⟨path, hd, h⟩
    exact ⟨path, x, hd, rfl, h⟩

/-- The leaf last read is committed to by `spk`, with the NUMS internal key. -/
def CommittedBy (E : Env) (tls : Tls) (leafHash : Bytes32) (spk : Bytes) : Prop :=
  33 ≤ tls.controlBlock.length ∧ (tls.controlBlock.drop 1).take 32 = vaultNumsXonly.toList ∧
    ∃ tweaked, E.tweakPubkey vaultNumsXonly (some (controlBlockRoot E tls.controlBlock leafHash))
      = some (tls.controlBlock.headD 0 &&& 1, tweaked) ∧ spk = p2trSpk tweaked

variable {tls : Tls} {spk : Bytes}

theorem refundVerifyTaprootCommitment_bind {f : Unit → V α} :
    (refundVerifyTaprootCommitment E tls spk >>= f).Via G v b v' ↔
      CommittedBy E tls v.leaf.hash spk ∧ (f ()).Via G v b v' := by
  simp only [refundVerifyTaprootCommitment, Prog.bind_assoc, check_bind, leafMeta_bind,
    orReject_bind, CommittedBy]
  constructor
  · rintro ⟨h33, hn, ⟨par, tw⟩, ht, rfl, rfl, h⟩
    exact ⟨⟨h33, hn, tw, ht, rfl⟩, h⟩
  · rintro ⟨⟨h33, hn, tw, ht, rfl⟩, h⟩
    exact ⟨h33, hn, (_, tw), ht, rfl, rfl, h⟩

theorem checkVersionLocktime_bind {f : Unit → V α} :
    (checkVersionLocktime st >>= f).Via G v b v' ↔
      ¬(st.txVersion < 2 ∨ st.locktime ≠ 0) ∧ (f ()).Via G v b v' := check_bind

end BabylonVault
