/-
  What is shown is what is signed.

  * `screens`: the screens of a run, each with the user's choice.
  * `Tells`: what the screen of a flow says, in the amounts and scripts of the PSBT.
  * `dispatch_shows`: a validator that accepts has shown one screen, and it was confirmed.
  * `shown_signed`: a signature with the leaf's own key is of the PSBT that the one screen
    tells.
-/
import BabylonVault.Custody
import BabylonVault.Lib.Trace
import BabylonVault.Possession

namespace BabylonVault
open Bytes Prog

/-! ## Screens -/

/-- The screen of a validator's call, with the user's choice. -/
def screenOf : readIface.Event → Option (Screen × Bool)
  | ⟨.show sc, a⟩ => some (sc, a)
  | _ => none

/-- The same for a handler's call. -/
def deviceScreen : devIface.Event → Option (Screen × Bool)
  | ⟨.read q, a⟩ => screenOf ⟨q, a⟩
  | _ => none

/-- The screens of a run, each with the user's choice. -/
def screens (tr : List devIface.Event) : List (Screen × Bool) := tr.filterMap deviceScreen

/-- The flows with a screen of their own. -/
def Flow.Screened (F : Flow) : Prop := F.OwnKey ∨ F = .pop

section Tells
variable (E : Env) (st : SignPsbtState) (p : Psbt) (value : ℕ → ℕ)

/-- The base app's totals are those of the PSBT, whose inputs are worth `value`. -/
structure Totals : Prop where
  inputs : st.inputsTotalAmount.toNat = ∑ i ∈ Finset.range st.nInputs, value i
  outputs : st.outputsTotalAmount.toNat = ∑ i ∈ Finset.range st.nOutputs, p.outValue i
  witness : ∀ i, (p.map (.input i)).find [psbtInWitnessUtxo] ≠ none → value i = p.utxoValue i

/-- The fee is what the inputs have over the outputs. -/
def TellsFee (fee : UInt64) : Prop :=
  ∑ i ∈ Finset.range st.nInputs, value i =
    ∑ i ∈ Finset.range st.nOutputs, p.outValue i + fee.toNat

/-- The amount and the address of Output 0. -/
structure TellsPayment (amount : UInt64) (address : String) : Prop where
  amount : amount.toNat = p.outValue 0
  address : E.scriptAddress (p.outScript 0) = some address

/-- What the screen of a flow says is so of the PSBT. -/
inductive Tells : Flow → Screen → Prop
  | refund {amount fee timelock address} : TellsPayment E p amount address →
      TellsFee st p value fee → (p.map (.input 0)).field psbtInSequence = .present timelock →
      Tells .refund (.refund amount fee timelock (p.prevTxid 0) address)
  | claim {spent connector fee address} : spent.toNat = value 0 →
      TellsPayment E p connector address → TellsFee st p value fee →
      Tells .claim (.claim spent connector fee (p.prevTxid 0) address)
  | reclaim {amount fee address} : TellsPayment E p amount address → TellsFee st p value fee →
      Tells .reclaim (.reclaim amount fee (p.prevTxid 0) address)
  | assert {carried fee} : carried.toNat = value 0 → TellsFee st p value fee →
      Tells .assert (.assert (p.prevTxid 0) carried fee)
  | wc {amount wallet fee address} : TellsPayment E p amount address →
      value 0 + wallet.toNat = ∑ i ∈ Finset.range st.nInputs, value i → TellsFee st p value fee →
      Tells .wc (.wc amount wallet fee address)
  | payoutFinalize {amount fee address} : TellsPayment E p amount address →
      TellsFee st p value fee →
      Tells .payoutFinalize (.payoutFinalize amount address fee (p.prevTxid 0))
  | pop {m address tweaked} : PopBound E p m address tweaked →
      Tells .pop (.pop m.ethAddr m.chainId m.registry address)

end Tells

variable {E : Env} {st : SignPsbtState} {s : Session} {p : Psbt} {value : ℕ → ℕ} {F : Flow}
  {v v' : Volatile} {G : Allow} {m : MapRef} {spk : Bytes} {val : UInt64} {sc : Screen} {tls : Tls}
  {n i maxScript : ℕ} {cb script : Bytes}

/-! ## One screen -/

/-- One screen, and it was confirmed. -/
def OneScreen (l : List (Screen × Bool)) : Prop := ∃ sc, l = [(sc, true)]

theorem screenOf_unseen (e : readIface.Event) (h : Unseen e.1) : screenOf e = none := by
  obtain ⟨q, a⟩ := e
  cases q with
  | «show» sc => exact absurd rfl (h sc)
  | _ => rfl

theorem Unseen.shows {α : Type} {w : V α} (h : Asks Unseen w) :
    Shows screenOf (fun _ l => l = []) w := h.unseen screenOf_unseen

theorem shows_display : Shows screenOf (fun _ l => OneScreen l) (display sc) := by
  intro v tr u v' hp
  obtain ⟨tr₁, ⟨r, v₁⟩, tr₂, h₁, h₂, rfl⟩ := Course.path_bind.1 hp
  cases h₁ with
  | ask _ h₁ =>
    cases h₁
    rename_i a
    cases a with
    | false => cases h₂
    | true =>
      cases h₂
      exact ⟨sc, rfl⟩

/-- A program that is not seen, in front of one that shows its screen. -/
theorem Unseen.before {α β : Type} {w : V α} {f : α → V β} (h : Asks Unseen w)
    (hf : ∀ a, Shows screenOf (fun _ l => OneScreen l) (f a)) :
    Shows screenOf (fun _ l => OneScreen l) (w >>= f) := (Unseen.shows h).after hf

theorem unseen_getPreviousTxid : Asks Unseen (getPreviousTxid m) :=
  asks_bind unseen_getExact fun _ => asks_pure

theorem unseen_requireBufferedLeaf : Asks Unseen requireBufferedLeaf :=
  asks_bind unseen_leafMeta fun _ => asks_require

theorem unseen_checkCsvSequence {csv : ℕ} : Asks Unseen (checkCsvSequence m csv) :=
  asks_bind unseen_getField fun _ => asks_bind asks_require fun _ => asks_require

theorem unseen_readDerivation {k : UInt8} {key : Bytes32} :
    Asks Unseen (readDerivation E st m k key) := by
  refine asks_bind unseen_getValue fun _ => asks_bind asks_orStop fun (_, _) => ?_
  exact asks_bind asks_require fun _ => asks_bind asks_require fun _ =>
    asks_bind asks_orStop fun _ => asks_pure

theorem unseen_readFinalizeUtxo : Asks Unseen (readFinalizeUtxo E s m tls) :=
  asks_bind unseen_getValue fun _ => asks_bind asks_require fun _ => asks_bind asks_require fun _ =>
    asks_bind asks_require fun _ => asks_bind asks_require fun _ =>
    unseen_refundVerifyTaprootCommitment

theorem unseen_finalizeFeeCap {amount : UInt64} : Asks Unseen (finalizeFeeCap s amount) := by
  unfold finalizeFeeCap
  split_ifs
  · exact asks_bind asks_require fun _ => asks_require
  · exact asks_pure

theorem validateDisplayRefund_shows :
    Shows screenOf (fun _ l => OneScreen l) (validateDisplayRefund E st s) := by
  refine Unseen.before asks_require fun _ => Unseen.before asks_require fun _ =>
    Unseen.before unseen_getMap fun _ => Unseen.before unseen_checkSighashType fun _ =>
    Unseen.before unseen_readWitnessUtxo fun (_, _) => Unseen.before unseen_readTapLeaf fun (_, _) =>
    Unseen.before unseen_requireBufferedLeaf fun _ => Unseen.before asks_orStop fun (_, _) =>
    Unseen.before asks_require fun _ => Unseen.before unseen_checkLeafKey fun _ => ?_
  refine Unseen.before unseen_refundVerifyTaprootCommitment fun _ =>
    Unseen.before unseen_checkCsvSequence fun _ => Unseen.before unseen_getMap fun _ =>
    Unseen.before unseen_getExact fun _ => Unseen.before asks_require fun _ =>
    Unseen.before unseen_getExact fun _ => Unseen.before unseen_readDerivation fun (_, _) =>
    Unseen.before asks_orStop fun (_, _) => ?_
  exact Unseen.before asks_require fun _ => Unseen.before asks_require fun _ =>
    Unseen.before unseen_getPreviousTxid fun _ => Unseen.before asks_require fun _ =>
    Unseen.before asks_orStop fun _ => shows_display

theorem validateDisplayReclaim_shows :
    Shows screenOf (fun _ l => OneScreen l) (validateDisplayReclaim E st tls) := by
  refine Unseen.before asks_require fun _ => Unseen.before asks_require fun _ =>
    Unseen.before unseen_requireBufferedLeaf fun _ => Unseen.before asks_orStop fun _ =>
    Unseen.before asks_require fun _ => Unseen.before unseen_getMap fun _ =>
    Unseen.before unseen_getField fun _ => Unseen.before asks_require fun _ =>
    Unseen.before unseen_checkSighashType fun _ => Unseen.before unseen_readWitnessUtxo fun (_, _) =>
    Unseen.before asks_require fun _ => ?_
  exact Unseen.before unseen_refundVerifyTaprootCommitment fun _ =>
    Unseen.before unseen_checkLeafKey fun _ => Unseen.before unseen_getMap fun _ =>
    Unseen.before unseen_getExact fun _ => Unseen.before asks_require fun _ =>
    Unseen.before unseen_getExact fun _ => Unseen.before asks_orStop fun _ =>
    Unseen.before unseen_getPreviousTxid fun _ => Unseen.before asks_orStop fun _ => shows_display

theorem validateDisplayAssert_shows :
    Shows screenOf (fun _ l => OneScreen l) (validateDisplayAssert E st tls) :=
  Unseen.before asks_require fun _ => Unseen.before asks_require fun _ =>
    Unseen.before unseen_leafMeta fun _ => Unseen.before unseen_getMap fun _ =>
    Unseen.before unseen_requireSequenceFinal fun _ => Unseen.before unseen_checkSighashType fun _ =>
    Unseen.before unseen_readWitnessUtxo fun (_, _) =>
    Unseen.before unseen_refundVerifyTaprootCommitment fun _ =>
    Unseen.before unseen_checkLeafKey fun _ => Unseen.before unseen_getPreviousTxid fun _ =>
    Unseen.before asks_require fun _ => shows_display

theorem validateDisplayWc_shows :
    Shows screenOf (fun _ l => OneScreen l) (validateDisplayWc E st s) := by
  refine Unseen.before asks_require fun _ => Unseen.before asks_require fun _ =>
    Unseen.before unseen_readTapLeaf fun (_, _) => Unseen.before unseen_requireBufferedLeaf fun _ =>
    Unseen.before asks_require fun _ => Unseen.before unseen_requireSequenceFinal fun _ =>
    Unseen.before unseen_checkSighashType fun _ => Unseen.before unseen_checkLeafKey fun _ => ?_
  exact Unseen.before unseen_readWitnessUtxo fun (_, _) =>
    Unseen.before unseen_refundVerifyTaprootCommitment fun _ =>
    Unseen.before unseen_readOutput fun (_, _) => Unseen.before asks_require fun _ =>
    Unseen.before asks_orStop fun _ => Unseen.before asks_require fun _ => shows_display

theorem validateDisplayPayoutFinalize_shows :
    Shows screenOf (fun _ l => OneScreen l) (validateDisplayPayoutFinalize E st s) := by
  refine Unseen.before (asks_ret fun _ => rfl) fun _ => Unseen.before asks_require fun _ =>
    Unseen.before unseen_readTapLeaf fun (_, _) => Unseen.before unseen_requireBufferedLeaf fun _ =>
    Unseen.before asks_orStop fun (_, _) => Unseen.before asks_require fun _ =>
    Unseen.before unseen_checkSighashType fun _ => Unseen.before unseen_readFinalizeUtxo fun _ =>
    Unseen.before unseen_checkLeafKey fun _ => Unseen.before unseen_checkCsvSequence fun _ => ?_
  refine Unseen.before unseen_readOutput fun (_, _) => Unseen.before asks_require fun _ =>
    Unseen.before asks_orStop fun _ => Unseen.before asks_require fun _ =>
    Unseen.before unseen_readOutput fun (_, _) => Unseen.before asks_require fun _ => ?_
  exact Unseen.before unseen_getMap fun _ => Unseen.before unseen_getPreviousTxid fun _ =>
    Unseen.before unseen_finalizeFeeCap fun _ => Unseen.before asks_require fun _ => shows_display

theorem validateDisplayClaim_shows :
    Shows screenOf (fun _ l => OneScreen l) (validateDisplayClaim E st tls) := by
  rw [validateDisplayClaim_eq]
  exact Unseen.before unseen_claimScreen fun _ => shows_display

theorem validateDisplayPop_shows :
    Shows screenOf (fun _ l => OneScreen l) (validateDisplayPop E st s) := by
  rw [validateDisplayPop_eq]
  exact Unseen.before unseen_popScreen fun _ => shows_display

/-- What a flow with a screen has shown; the others are seen in the review of the intent. -/
def ShowsFlow (F : Flow) (l : List (Screen × Bool)) : Prop := F.Screened → OneScreen l

theorem through_shows {w : V Unit} (h : Shows screenOf (fun _ l => OneScreen l) w) :
    Shows screenOf ShowsFlow (through F w) :=
  (h.mono fun _ _ hl _ => hl).returning

theorem through_silent {w : V Unit} (h : ¬F.Screened) : Shows screenOf ShowsFlow (through F w) := by
  have hw : Shows screenOf (fun _ _ => True) w := fun _ _ _ _ _ => trivial
  exact (hw.mono fun _ _ _ hF => absurd hF h).returning

theorem dispatchLeaf_shows : Shows screenOf ShowsFlow (dispatchLeaf E st s) := by
  refine (Unseen.shows unseen_readTapLeaf).after fun (_, _) =>
    (Unseen.shows unseen_leafMeta).after fun _ => ?_
  refine shows_ite (fun _ => shows_stop) fun _ => shows_ite (fun _ => ?_) fun _ => ?_
  · refine shows_ite (fun _ => through_shows validateDisplayClaim_shows) fun _ => ?_
    exact shows_ite (fun _ => through_shows validateDisplayReclaim_shows) fun _ => shows_stop
  · refine shows_ite (fun _ => ?_) fun _ => shows_stop
    refine shows_ite (fun _ => through_shows validateDisplayWc_shows) fun _ => ?_
    refine shows_ite (fun _ => ?_) fun _ => ?_
    · exact (Unseen.shows asks_require).after fun _ => through_shows validateDisplayAssert_shows
    · exact shows_ite (fun _ => through_shows validateDisplayRefund_shows) fun _ => shows_stop

theorem not_screened (h : F = .prepegin ∨ F = .pegin ∨ F = .nopayout ∨ F = .payout) :
    ¬F.Screened := by
  rcases h with rfl | rfl | rfl | rfl <;> (rintro ((h | h) | h) <;> cases h)

theorem dispatchRest_shows : Shows screenOf ShowsFlow (dispatchRest E st s) := by
  refine shows_ite (fun _ => ?_) fun _ => ?_
  · refine shows_ite (fun _ => through_silent (not_screened (.inl rfl))) fun _ => ?_
    exact through_shows validateDisplayWc_shows
  · refine shows_ite (fun _ => ?_) fun _ => dispatchLeaf_shows
    exact through_shows validateDisplayPayoutFinalize_shows

/-- A validator with a screen that accepts has shown that screen alone, and it was confirmed. -/
theorem dispatch_shows : Shows screenOf ShowsFlow (dispatch E st s) := by
  have hpayout : Shows screenOf ShowsFlow (through .payout (validatePayout E st s)) :=
    through_silent (not_screened (.inr (.inr (.inr rfl))))
  refine shows_ite (fun _ => through_shows validateDisplayPop_shows) fun _ => ?_
  refine shows_ite (fun _ => through_silent (not_screened (.inr (.inl rfl)))) fun _ => ?_
  refine shows_ite (fun _ => through_silent (not_screened (.inr (.inr (.inl rfl))))) fun _ => ?_
  refine shows_ite (fun _ => ?_) fun _ => dispatchRest_shows
  refine shows_ite (fun _ => hpayout) fun _ => ?_
  refine (Unseen.shows unseen_getMap).after fun _ =>
    (Unseen.shows unseen_getPreviousTxid).after fun _ => ?_
  exact shows_ite (fun _ => hpayout) fun _ => dispatchRest_shows

/-! ## What it says -/

theorem ReadsUtxo.mono {G' : Allow} (hG : ∀ q a, G q a → G' q a) (h : ReadsUtxo G m val spk) :
    ReadsUtxo G' m val spk := by
  obtain ⟨wu, hwu, hrest⟩ := h
  exact ⟨wu, hG _ _ hwu, hrest⟩

theorem ReadsOutput.mono {G' : Allow} (hG : ∀ q a, G q a → G' q a)
    (h : ReadsOutput G n i maxScript spk val) : ReadsOutput G' n i maxScript spk val := by
  obtain ⟨hm, ⟨raw, hraw, hrest⟩, hspk⟩ := h
  exact ⟨hG _ _ hm, ⟨raw, hG _ _ hraw, hrest⟩, hG _ _ hspk⟩

theorem Totals.utxo (ht : Totals st p value) (h : ReadsUtxo p.Allows (.input i) val spk) :
    value i = val.toNat := by
  have hval := (Psbt.reads_utxo h).1
  obtain ⟨wu, hwu, -⟩ := h
  rw [ht.witness i (by rw [(hwu wu rfl).1]; simp), hval]

/-- A fee that is the difference of the totals. -/
theorem Totals.fee (ht : Totals st p value) (h : ¬st.inputsTotalAmount < st.outputsTotalAmount) :
    TellsFee st p value (st.inputsTotalAmount - st.outputsTotalAmount) := by
  have hle := UInt64.le_iff_toNat_le.1 (UInt64.not_lt.1 h)
  rw [TellsFee, ← ht.inputs, ← ht.outputs, UInt64.toNat_sub_of_le _ _ (UInt64.not_lt.1 h)]
  omega

/-- A fee that is the difference of the only input and the only output. -/
theorem Totals.fee_single {inValue outValue : UInt64} (ht : Totals st p value)
    (hi : st.nInputs = 1) (ho : st.nOutputs = 1) (hin : ReadsUtxo p.Allows (.input 0) inValue spk)
    (hout : p.outValue 0 = outValue.toNat) (hle : outValue ≤ inValue) :
    TellsFee st p value (inValue - outValue) := by
  have := UInt64.le_iff_toNat_le.1 hle
  rw [TellsFee, hi, ho, Finset.sum_range_one, Finset.sum_range_one, ht.utxo hin, hout,
    UInt64.toNat_sub_of_le _ _ hle]
  omega

/-- The amount of an output, read by itself. -/
theorem Psbt.outValue_eq {raw : Bytes} (h : p.Allows (.value (.output i) [psbtOutAmount] 8) (some raw))
    (hl : raw.length = 8) : p.outValue i = (UInt64.ofNat (ofLE raw)).toNat := by
  rw [Psbt.outValue, Psbt.get_eq h, Psbt.toNat_amount hl]

theorem Psbt.outScript_eq {b : Bytes} (h : p.Allows (.value (.output i) [psbtOutScript] n) (some b)) :
    p.outScript i = b := Psbt.get_eq h

/-- The validator has shown a screen that says what is so. -/
def ShownTrue (E : Env) (st : SignPsbtState) (p : Psbt) (value : ℕ → ℕ) (G : Allow) (F : Flow) :
    Prop := ∃ sc, G (.show sc) true ∧ Tells E st p value F sc

section Told
variable (ht : Totals st p value) (hG : ∀ q a, G q a → p.Allows q a)
include ht hG

theorem validateDisplayRefund_tells (h : (validateDisplayRefund E st s).Via G v () v') :
    ShownTrue E st p value G .refund := by
  simp only [validateDisplayRefund, check_bind, checkVersionLocktime_bind, getMap_bind,
    checkSighashType_bind, readWitnessUtxo_bind, readTapLeaf_bind, requireBufferedLeaf_bind,
    orReject_bind, checkLeafKey_bind, refundVerifyTaprootCommitment_bind, checkCsvSequence,
    Prog.bind_assoc, getField_bind, getExact_bind, readDerivation_bind, getPreviousTxid_bind,
    addressOf_bind, display_end] at h
  obtain ⟨hn, -, -, -, val, spk, hutxo, cb, script, -, -, ⟨key, csv⟩, -, -, path, -, -, seq, hseq,
    -, hcsv, -, out, hout, -, -, raw8, hraw, hlen, _, _, -, _, -, -, hle, txid, htxid, -, address,
    haddr, hshow, -⟩ := h
  simp only [not_or, not_not] at hn
  have hval := Psbt.outValue_eq (hG _ _ hraw) hlen
  refine ⟨_, hshow, ?_⟩
  rw [← Psbt.prevTxid_eq (hG _ _ htxid)]
  refine .refund ⟨hval.symm, ?_⟩ (ht.fee_single hn.1 hn.2 (hutxo.mono hG) hval (UInt64.not_lt.1 hle)) ?_
  · rwa [Psbt.outScript_eq (hG _ _ hout)]
  · rw [Psbt.field_eq (hG _ _ hseq), ← hcsv, UInt32.ofNat_toNat]

theorem validateDisplayReclaim_tells (h : (validateDisplayReclaim E st tls).Via G v () v') :
    ShownTrue E st p value G .reclaim := by
  simp only [validateDisplayReclaim, check_bind, checkVersionLocktime_bind,
    requireBufferedLeaf_bind, orReject_bind, getMap_bind, getField_bind, getExact_bind,
    checkSighashType_bind, readWitnessUtxo_bind, refundVerifyTaprootCommitment_bind,
    checkLeafKey_bind, getPreviousTxid_bind, addressOf_bind, display_end] at h
  obtain ⟨hn, -, -, key, -, -, -, _, -, -, -, val, spk, hutxo, -, -, path, -, -, out, hout, -, -,
    raw8, hraw, hlen, fee, hfee, txid, htxid, address, haddr, hshow, -⟩ := h
  simp only [not_or, not_not] at hn
  have hval := Psbt.outValue_eq (hG _ _ hraw) hlen
  rw [reclaimFeeOk] at hfee
  split_ifs at hfee with hge
  obtain rfl := Option.some.inj hfee
  refine ⟨_, hshow, ?_⟩
  rw [← Psbt.prevTxid_eq (hG _ _ htxid)]
  refine .reclaim ⟨hval.symm, ?_⟩ (ht.fee_single hn.1 hn.2 (hutxo.mono hG) hval ?_)
  · rwa [Psbt.outScript_eq (hG _ _ hout)]
  · exact UInt64.le_of_lt (UInt64.not_le.1 hge)

theorem validateDisplayAssert_tells (h : (validateDisplayAssert E st tls).Via G v () v') :
    ShownTrue E st p value G .assert := by
  simp only [validateDisplayAssert, check_bind, checkVersionLocktime_bind, leafMeta_bind,
    getMap_bind, requireSequenceFinal_bind, checkSighashType_bind, readWitnessUtxo_bind,
    refundVerifyTaprootCommitment_bind, checkLeafKey_bind, getPreviousTxid_bind, display_end] at h
  obtain ⟨-, -, -, -, -, val, spk, hutxo, -, path, -, txid, htxid, hle, hshow, -⟩ := h
  refine ⟨_, hshow, ?_⟩
  rw [← Psbt.prevTxid_eq (hG _ _ htxid)]
  exact .assert (ht.utxo (hutxo.mono hG)).symm (ht.fee hle)

theorem validateDisplayClaim_tells (h : (validateDisplayClaim E st tls).Via G v () v') :
    ShownTrue E st p value G .claim := by
  simp only [validateDisplayClaim, check_bind, checkVersionLocktime_bind, requireBufferedLeaf_bind,
    orReject_bind, getMap_bind, requireSequenceFinal_bind, checkSighashType_bind,
    readWitnessUtxo_bind, refundVerifyTaprootCommitment_bind, checkLeafKey_bind, readOutput_bind,
    addressOf_bind, getPreviousTxid_bind, display_end] at h
  obtain ⟨hn, -, -, key, -, -, -, -, val, spk, hutxo, -, path, -, spk1, val1, hr1, -, rfl, -, hcov,
    hdust, spk0, val0, hr0, -, address, haddr, txid, htxid, hshow, -⟩ := h
  simp only [not_or, not_not] at hn
  obtain ⟨-, h1, -⟩ := Psbt.reads_output (hr1.mono hG)
  obtain ⟨-, h0, rfl⟩ := Psbt.reads_output (hr0.mono hG)
  have hin := ht.utxo (hutxo.mono hG)
  have hsum : st.outputsTotalAmount.toNat = p.outValue 0 + p.outValue 1 := by
    rw [ht.outputs, hn.2, Finset.sum_range_succ, Finset.sum_range_one]
  have hcov' := UInt64.lt_iff_toNat_lt.1 (UInt64.not_le.1 hcov)
  have hdust' := UInt64.lt_iff_toNat_lt.1 (UInt64.not_le.1 hdust)
  have hd : dustLimit.toNat = 546 := rfl
  refine ⟨_, hshow, ?_⟩
  rw [← Psbt.prevTxid_eq (hG _ _ htxid)]
  refine .claim hin.symm ⟨?_, haddr⟩ ?_
  · rw [UInt64.toNat_sub_of_le _ _ (UInt64.le_of_lt (UInt64.not_le.1 hdust))]
    omega
  · rw [TellsFee, hn.1, Finset.sum_range_one, ← ht.outputs, hin,
      UInt64.toNat_sub_of_le _ _ (UInt64.le_of_lt (UInt64.not_le.1 hcov))]
    omega

theorem validateDisplayWc_tells (h : (validateDisplayWc E st s).Via G v () v') :
    ShownTrue E st p value G .wc := by
  simp only [validateDisplayWc, check_bind, checkVersionLocktime_bind, readTapLeaf_bind,
    requireBufferedLeaf_bind, requireSequenceFinal_bind, checkSighashType_bind, checkLeafKey_bind,
    readWitnessUtxo_bind, refundVerifyTaprootCommitment_bind, readOutput_bind, addressOf_bind,
    display_end] at h
  obtain ⟨hn, -, cb, script, -, -, -, -, -, path, -, val, spk, hutxo, -, spk0, val0, hr0, -, -,
    address, haddr, hle, hshow, -⟩ := h
  simp only [not_or, not_lt, not_not] at hn
  obtain ⟨-, h0, rfl⟩ := Psbt.reads_output (hr0.mono hG)
  have hin := ht.utxo (hutxo.mono hG)
  have hlt := UInt64.not_le.1 hle
  have hlt' := UInt64.lt_iff_toNat_lt.1 hlt
  refine ⟨_, hshow, .wc ⟨h0.symm, haddr⟩ ?_ ?_⟩
  · have h0le : value 0 ≤ st.inputsTotalAmount.toNat := by
      rw [ht.inputs]
      exact Finset.single_le_sum (fun _ _ => Nat.zero_le _) (Finset.mem_range.2 hn.1)
    rw [← ht.inputs]
    split_ifs with hgt
    · rw [UInt64.toNat_sub_of_le _ _ (UInt64.le_of_lt hgt)]
      omega
    · have := UInt64.le_iff_toNat_le.1 (UInt64.not_lt.1 hgt)
      show value 0 + 0 = _
      omega
  · rw [TellsFee, hn.2, Finset.sum_range_one, ← ht.inputs,
      UInt64.toNat_sub_of_le _ _ (UInt64.le_of_lt hlt)]
    omega

theorem validateDisplayPayoutFinalize_tells
    (h : (validateDisplayPayoutFinalize E st s).Via G v () v') :
    ShownTrue E st p value G .payoutFinalize := by
  simp only [validateDisplayPayoutFinalize, via_modify_bind, check_bind, readFinalizeUtxo,
    checkVersionLocktime_bind, readTapLeaf_bind, requireBufferedLeaf_bind, orReject_bind,
    checkSighashType_bind, Prog.bind_assoc, getValue_bind, refundVerifyTaprootCommitment_bind,
    checkLeafKey_bind, checkCsvSequence, getField_bind, readOutput_bind, addressOf_bind,
    getMap_bind, getPreviousTxid_bind] at h
  obtain ⟨-, cb, script, -, -, ⟨key, csv⟩, -, -, -, wu, -, -, -, -, -, -, path, -, _, -, -, -, spk0,
    val0, hr0, -, -, address, haddr, -, spk1, val1, -, -, -, -, txid, htxid, h⟩ := h
  obtain ⟨_, v₁, -, h⟩ := via_bind.1 h
  rw [check_bind, display_end] at h
  obtain ⟨hle, hshow, -⟩ := h
  obtain ⟨-, h0, rfl⟩ := Psbt.reads_output (hr0.mono hG)
  refine ⟨_, hshow, ?_⟩
  rw [← Psbt.prevTxid_eq (hG _ _ htxid)]
  exact .payoutFinalize ⟨h0.symm, haddr⟩ (ht.fee hle)

omit ht in
theorem validateDisplayPop_tells (h : (validateDisplayPop E st s).Via G v () v') :
    ShownTrue E st p value G .pop := by
  rw [validateDisplayPop_eq] at h
  obtain ⟨sc, v₁, hsc, hd⟩ := via_bind.1 h
  obtain ⟨m, address, tweaked, hb, rfl⟩ := popScreen_via (hsc.mono hG)
  exact ⟨_, (display_end.1 hd).1, .pop hb⟩

/-- The screen of an accepted PSBT says what is so. -/
theorem Validated.tells (h : Validated E st s G v' F) (hF : F.Screened) :
    ShownTrue E st p value G F := by
  cases h with
  | pop h => exact validateDisplayPop_tells hG h
  | payoutFinalize h => exact validateDisplayPayoutFinalize_tells ht hG h
  | wc h => exact validateDisplayWc_tells ht hG h
  | refund h => exact validateDisplayRefund_tells ht hG h
  | claim _ h => exact validateDisplayClaim_tells ht hG h
  | reclaim _ h => exact validateDisplayReclaim_tells ht hG h
  | assert _ h => exact validateDisplayAssert_tells ht hG h
  | prepegin => exact absurd hF (not_screened (.inl rfl))
  | pegin => exact absurd hF (not_screened (.inr (.inl rfl)))
  | nopayout => exact absurd hF (not_screened (.inr (.inr (.inl rfl))))
  | payout => exact absurd hF (not_screened (.inr (.inr (.inr rfl))))

end Told

/-! ## The device -/

variable {d d' d'' : Device} {tr : List devIface.Event} {req : SigRequest} {kind : SigKind}

/-- A handler's call that shows no screen. -/
def UnseenDev (q : DevAsk) : Prop := ∀ sc, q ≠ .read (.show sc)

theorem deviceScreen_unseen (e : devIface.Event) (h : UnseenDev e.1) : deviceScreen e = none := by
  obtain ⟨q, a⟩ := e
  cases q with
  | read q => exact screenOf_unseen _ fun sc hq => h sc (congrArg DevAsk.read hq)
  | _ => rfl

theorem unseen_validating {α : Type} {w : Session → V α} (h : ∀ s, Asks Unseen (w s)) :
    Asks UnseenDev (validating w) := fun {d} =>
  asks_onError (asks_embed (h d.session) fun _ hq sc he => hq sc (DevAsk.read.inj he)) (s := d)

theorem unseen_leafSigningInput {shape : ℕ → LeafMeta → Bool} :
    Asks Unseen (leafSigningInput E st shape i s) := by
  refine asks_bind unseen_readTapLeaf fun (_, _) => asks_bind unseen_leafMeta fun _ =>
    asks_bind asks_require fun _ => asks_bind ?_ fun _ => ?_
  · exact asks_bind unseen_readWitnessUtxo fun (_, _) => asks_pure
  · exact asks_bind unseen_checkLeafKey fun _ => asks_pure

theorem unseen_signAndYield {path : List UInt32} {leafHash : Bytes32} {count : Device → Device} :
    Asks UnseenDev (signAndYield kind i path leafHash spk count) := by
  refine asks_bind (asks_bind (asks_ask fun _ => nofun) fun _ => asks_orStop) fun _ => ?_
  refine asks_bind (asks_ret fun _ => rfl) fun _ => ?_
  refine asks_bind (asks_ask fun _ => nofun) ?_
  rintro (_ | _)
  · exact asks_stop
  · exact asks_pure

theorem asks_assertM {K : DevAsk → Prop} {c : Prop} [Decidable c] : Asks K (assertM c) := by
  unfold assertM
  split_ifs
  · exact asks_pure
  · exact asks_bind (asks_ret fun _ => rfl) fun _ => asks_stop

/-- The signer of a flow with a screen shows nothing. -/
theorem unseen_branch (hF : F.Screened) : Asks UnseenDev (F.branch E st) := by
  have hsign : ∀ i shape, Asks UnseenDev (signLeaf E st shape i) := by
    intro i shape
    exact asks_bind (unseen_validating fun _ => unseen_leafSigningInput) fun (_, _, _) =>
      unseen_signAndYield
  rcases hF with hF | rfl
  · obtain ⟨i, shape, -, hb | hb⟩ := hF.branch_eq E st
    · rw [hb]
      exact hsign i shape
    · rw [hb]
      exact asks_bind asks_assertM fun _ => hsign i shape
  · exact asks_pure

theorem unseen_clobberScratch : Asks UnseenDev clobberScratch :=
  asks_bind (asks_ask fun _ => nofun) fun _ => asks_ret fun _ => rfl

/-- A PSBT that was accepted has been seen as its flow shows it. -/
theorem validate_shows : Shows deviceScreen ShowsFlow (validateAndDisplayTransaction E st) := by
  intro d tr F d' hp
  obtain ⟨tr₁, ⟨r, d₁⟩, tr₂, h₁, h₂, rfl⟩ := Course.path_bind.1 hp
  cases h₁
  dsimp only [andThen] at h₂
  split_ifs at h₂ with hs
  · cases h₂
  · have hval : Shows deviceScreen ShowsFlow (validating (dispatch E st)) := fun {d} =>
      shows_onError (shows_embed dispatch_shows fun _ _ => rfl) (s := d)
    refine (unseen_clobberScratch.unseen deviceScreen_unseen).after (fun _ => ?_) h₂
    refine hval.bind fun F l hl s tr F' s' hp => ?_
    split_ifs at hp with hF
    · cases hp
      rwa [List.filterMap_nil, List.append_nil]
    · cases hp
      rwa [List.filterMap_nil, List.append_nil]

section
variable (E : Env) (st : SignPsbtState) (p : Psbt) (value : ℕ → ℕ)

/-- A run has shown one screen: it was confirmed, and says what is so of the PSBT. -/
def TrueScreen (F : Flow) (tr : List devIface.Event) : Prop :=
  ∃ sc, screens tr = [(sc, true)] ∧ Tells E st p value F sc

/-- What was shown before the device signs with a leaf's own key, and before the base app
    signs a proof of possession. -/
structure ShownSigned (tr : List devIface.Event) (q : DevAsk) : Prop where
  own : ∀ req, q = .yield .standalone req → ∃ F cb leaf, F.OwnKey ∧ TrueScreen E st p value F tr ∧
    SignsOwn E p F req cb leaf
  pop : q = .walletInputs → st.txVersion = 0 → TrueScreen E st p value .pop tr

end

section
variable (ht : Totals st p value)
include ht

theorem validate_tells (h : (validateAndDisplayTransaction E st d).Path tr (.ok F, d'))
    (hF : F.Screened) (hG : ∀ e ∈ tr, p.AllowsDev e.1 e.2) : TrueScreen E st p value F tr := by
  obtain ⟨sc, hl⟩ := validate_shows h hF
  have hvia : (validateAndDisplayTransaction E st).Via
      (fun q a => p.AllowsDev q a ∧ ⟨q, a⟩ ∈ tr) d F d' := ⟨tr, h, fun e he => ⟨hG e he, he⟩⟩
  obtain ⟨v', hval⟩ := validateAndDisplayTransaction_validated hvia
  obtain ⟨sc', ⟨-, hmem⟩, htell⟩ := hval.tells ht (fun _ _ h => h.1) hF
  have hshown : (sc', true) ∈ screens tr := List.mem_filterMap.2 ⟨_, hmem, rfl⟩
  rw [screens, hl, List.mem_singleton] at hshown
  obtain ⟨rfl, -⟩ := Prod.mk.inj hshown
  exact ⟨sc', hl, htell⟩

/-- Behind a flow with a screen nothing else is shown before what signs. -/
theorem Flow.Ran.screen {q : DevAsk} (h : F.Ran E st d tr)
    (hc : (signPsbt E st d).Cut tr q d'') (hq : q.Signs) (hG : ∀ e ∈ tr, p.AllowsDev e.1 e.2)
    (hF : F.Screened) : TrueScreen E st p value F tr := by
  obtain ⟨F', d', tr₁, tr₂, hp, rfl, hrest⟩ := signPsbt_cut hc hq
  obtain rfl : F = F' := h.unique ⟨tr₁, tr₂, d', rfl, hp⟩
  obtain ⟨hG₁, -⟩ := List.forall_mem_append.1 hG
  obtain ⟨-, junk, v', hacc, rfl⟩ := validateAndDisplayTransaction_via ⟨tr₁, hp, hG₁⟩
  have hnone : screens tr₂ = [] := by
    rcases hrest with ⟨rfl, -⟩ | ⟨a, tr₃, rfl, hcut⟩
    · rfl
    · rw [signCustomInputs_accepted hacc] at hcut
      rw [screens, List.filterMap_cons_none rfl]
      exact unseen_of_asks deviceScreen_unseen ((unseen_branch hF).cut hcut)
  obtain ⟨sc, hsc, htell⟩ := validate_tells ht hp hF hG₁
  refine ⟨sc, ?_, htell⟩
  rw [screens, List.filterMap_append]
  exact (congrArg₂ _ hsc hnone).trans (List.append_nil _)

/-- What is signed outside an intent is what the user has confirmed. -/
theorem Reach.shown_signed {q : DevAsk} {ls : List Exchange} (h : Reach E ls d)
    (hc : (signPsbt E st d).Cut tr q d'') (hG : ∀ e ∈ tr, p.AllowsDev e.1 e.2) :
    ShownSigned E st p value tr q where
  own := by
    rintro req rfl
    obtain ⟨F, d', hran, hv, hput⟩ := signPsbt_ran hc (.inr ⟨_, _, rfl⟩) hG
    have hscreen : F.Screened → TrueScreen E st p value F tr :=
      hran.screen ht hc (.inr ⟨_, _, rfl⟩) hG
    obtain ⟨hin, leaf, key, hmeant, -, hhash, hpk⟩ := h.isMeant hv (hput _ _ rfl)
    obtain ⟨-, junk, v', hacc, rfl⟩ := validateAndDisplayTransaction_via hv
    obtain ⟨v₁, hval⟩ := validateAndDisplayTransaction_validated hv
    cases hmeant with
    | own hF hi hleaf =>
      obtain rfl := Option.some.inj (hi.symm.trans hin)
      obtain ⟨pat, hpat, his⟩ := hval.pattern hF hacc
      obtain ⟨cb', leaf', hleaf', hm⟩ := his _ hi
      obtain ⟨rfl, rfl⟩ := hleaf.unique hleaf'
      exact ⟨F, _, leaf, hF, hscreen (.inl hF), hin, hleaf, ⟨pat, hpat, hm⟩, hhash, hpk⟩
  pop := by
    rintro rfl hver
    obtain ⟨F, d', hran, hv, -⟩ := signPsbt_ran hc (.inl rfl) hG
    have hscreen := hran.screen ht hc (.inl rfl) hG
    obtain ⟨-, junk, v', hdis, -⟩ := validateAndDisplayTransaction_dispatch hv
    rw [dispatch, if_pos hver] at hdis
    obtain ⟨rfl, -⟩ := through_via hdis
    exact hscreen (.inr rfl)

end

namespace Signet

/-- What the inputs of the WC are worth; the second one is the wallet's. -/
def wcValue (i : ℕ) : ℕ := if i = 0 then 1000 else 2000

theorem wc_totals : Totals (wcState 1) (wc 1) wcValue where
  inputs := by decide +kernel
  outputs := by decide +kernel
  witness := by
    rintro (_ | _ | i) h
    · decide +kernel
    · exact absurd (by decide +kernel) h
    · exact absurd rfl h

/-- The device signs the WC. -/
theorem wc_puts : ∃ req d'', (signPsbt env (wcState 1)).Puts (wc 1).AllowsDev Device.boot
    (.yield .standalone req) d'' := by
  have hany : (signatures ((signPsbt env (wcState 1)).asked ((wc 1).answers (Buf.zero 32))
      Device.boot)).any (fun x => x.1 = .standalone) = true := by decide +kernel
  obtain ⟨⟨kind, req⟩, hmem, hx⟩ := List.any_eq_true.1 hany
  obtain rfl := of_decide_eq_true hx
  obtain ⟨q, hq, hsig⟩ := List.mem_filterMap.1 hmem
  cases q <;> cases hsig
  obtain ⟨d'', hputs⟩ := puts_of_asked hq ((wc 1).answers_allows (Buf.zero 32))
  exact ⟨req, d'', hputs⟩

end Signet

open Signet in
theorem shown_signed_wc : ∃ tr req, ShownSigned env (wcState 1) (wc 1) wcValue tr
    (.yield .standalone req) := by
  obtain ⟨req, d'', tr, hc, hG⟩ := wc_puts
  exact ⟨tr, req, Reach.shown_signed wc_totals .nil hc hG⟩

end BabylonVault
