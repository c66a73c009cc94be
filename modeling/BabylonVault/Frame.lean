/-
  What the validators read of the volatile state, and what they leave alone.

  * `LeafBlind`: a relation of two volatile states that does not look at the leaf
    facts; `LeafSame`: one under which they are equal. All validators but four are
    steady for every relation, up to the leaf facts that they read again first.
  * `LeafFree`: the same of a predicate, for one run.
  * `dispatch_idle`: outside a loaded session no validator touches the group
    counter of a load, wipes the session or asserts.
-/
import BabylonVault.Sign
import BabylonVault.Lib.Sim

namespace BabylonVault
open Bytes Prog

attribute [local simp] steady_bind steady_pure steady_ask steady_ite steady_loop

/-- `X` allows every rejection that keeps the session. -/
class Rejects (X : Stop → Prop) : Prop where
  reject : ∀ sw, X (.reject sw)

/-- Any end. -/
abbrev AnyStop : Stop → Prop := fun _ => True

instance : Rejects AnyStop := ⟨fun _ => trivial⟩

/-- A rejection that keeps the session. -/
def IsReject (e : Stop) : Prop := ∃ sw, e = .reject sw

instance : Rejects IsReject := ⟨fun sw => ⟨sw, rfl⟩⟩

/-- `P` does not look at the leaf facts. -/
def LeafFree (P : Volatile → Prop) : Prop := ∀ v l, P v → P { v with leaf := l }

/-- `S` does not look at the leaf facts. -/
def LeafBlind (S : Volatile → Volatile → Prop) : Prop :=
  ∀ v v' l, S v v' → S { v with leaf := l } { v' with leaf := l }

/-- `S` relates states with the same leaf facts only. -/
def LeafSame (S : Volatile → Volatile → Prop) : Prop := ∀ v v', S v v' → v.leaf = v'.leaf

/-- `S` with the same leaf facts. -/
def sameLeaf (S : Volatile → Volatile → Prop) (v v' : Volatile) : Prop :=
  v.leaf = v'.leaf ∧ S v v'

section Relations
variable {S : Volatile → Volatile → Prop} {P : Volatile → Prop}

theorem leafSame_sameLeaf : LeafSame (sameLeaf S) := fun _ _ h => h.1

theorem LeafBlind.sameLeaf (hS : LeafBlind S) : LeafBlind (sameLeaf S) :=
  fun v v' l h => ⟨rfl, hS v v' l h.2⟩

theorem leafSame_one : LeafSame fun v v' => v = v' ∧ P v := fun _ _ h => congrArg _ h.1

theorem LeafFree.one (hP : LeafFree P) : LeafBlind fun v v' => v = v' ∧ P v := by
  rintro v _ l ⟨rfl, h⟩
  exact ⟨rfl, hP v l h⟩

end Relations

section Readers
variable {X : Stop → Prop} [Rejects X] {S : Volatile → Volatile → Prop} {α : Type} {sw : Sw} {side : Side} {m : MapRef} {key : Bytes}
  {k : UInt8} {n i idx : ℕ}

@[simp] theorem steady_reject : Steady X S (reject sw : V α) := steady_stop (Rejects.reject sw)

@[simp] theorem steady_check {c : Prop} [Decidable c] : Steady X S (check c sw) :=
  steady_require fun _ => Rejects.reject sw

@[simp] theorem steady_orReject {o : Option α} : Steady X S (orReject o) :=
  steady_orStop (Rejects.reject _)

omit [Rejects X] in
@[simp] theorem steady_checkCap {c : Prop} [Decidable c] : Steady AnyStop S (checkCap c) :=
  steady_require fun _ => trivial

omit [Rejects X] in
@[simp] theorem steady_ledgerAssert {c : Prop} [Decidable c] :
    Steady AnyStop S (ledgerAssert c) := steady_require fun _ => trivial

@[simp] theorem steady_getMap : Steady X S (getMap side n i) :=
  steady_bind steady_ask fun _ => by simp

@[simp] theorem steady_getValue : Steady X S (getValue m key n) :=
  steady_bind steady_ask fun _ => steady_orReject

@[simp] theorem steady_getExact : Steady X S (getExact m key n) := by simp [getExact]

@[simp] theorem steady_getField : Steady X S (getField m k) := by
  refine steady_bind steady_ask ?_
  rintro (_ | _ | _)
  · exact steady_reject
  · exact steady_reject
  · exact steady_pure

@[simp] theorem steady_checkSighashType {l : List UInt32} : Steady X S (checkSighashType m l) := by
  refine steady_bind steady_ask ?_
  rintro (_ | _ | _)
  · exact steady_pure
  · exact steady_reject
  · exact steady_check

@[simp] theorem steady_requireSequenceFinal : Steady X S (requireSequenceFinal m) := by
  refine steady_bind steady_ask ?_
  rintro (_ | _ | _)
  · exact steady_pure
  · exact steady_reject
  · exact steady_check

@[simp] theorem steady_display {s : Screen} : Steady X S (display s) :=
  steady_bind steady_ask fun _ => steady_check

@[simp] theorem steady_readWitnessUtxo : Steady X S (readWitnessUtxo m) := by
  repeat refine steady_bind (by simp) fun _ => ?_
  simp

@[simp] theorem steady_readOutput : Steady X S (readOutput n i) := by
  repeat refine steady_bind (by simp) fun _ => ?_
  simp

@[simp] theorem steady_readOutputVarlen : Steady X S (readOutputVarlen n i idx) := by
  repeat refine steady_bind (by simp) fun _ => ?_
  simp

@[simp] theorem steady_getPreviousTxid : Steady X S (getPreviousTxid m) := by simp [getPreviousTxid]

omit [Rejects X] in
theorem steady_leafMeta (hS : LeafSame S) : Steady X S leafMeta :=
  fun v v' h => .get_bind (.pure ⟨hS v v' h, h⟩)

theorem steady_requireBufferedLeaf (hS : LeafSame S) : Steady X S requireBufferedLeaf :=
  steady_bind (steady_leafMeta hS) fun _ => steady_check

@[simp] theorem steady_addChecked {a b : UInt64} : Steady X S (addChecked a b) := by
  simp [addChecked]

variable {E : Env} {st : SignPsbtState} {s : Session} {tls : Tls} {spk : Bytes} {x : Bytes32}

@[simp] theorem steady_readDerivation : Steady X S (readDerivation E st m k x) := by
  repeat refine steady_bind (by simp) fun _ => ?_
  simp

@[simp] theorem steady_checkLeafKey : Steady X S (checkLeafKey E st m x) := by simp [checkLeafKey]

theorem steady_refundVerifyTaprootCommitment (hS : LeafSame S) :
    Steady X S (refundVerifyTaprootCommitment E tls spk) := by
  repeat refine steady_bind (by simp [steady_leafMeta hS]) fun _ => ?_
  simp

@[simp] theorem steady_checkVersionLocktime : Steady X S (checkVersionLocktime st) := by
  simp [checkVersionLocktime]

@[simp] theorem steady_checkCsvSequence : Steady X S (checkCsvSequence m n) := by
  simp [checkCsvSequence]

@[simp] theorem steady_addressOf : Steady X S (addressOf E spk) := by simp [addressOf]

omit [Rejects X] in
theorem steady_streamTapLeafValue (hS : LeafSame S) (hB : LeafBlind S) :
    Steady X S (streamTapLeafValue E s m i tls) := by
  intro v v' h
  refine .get_bind ?_
  rw [hS v v' h]
  refine steady_bind steady_ask (fun r => steady_ite ?_ ?_) v v' h
  · exact steady_bind (steady_modify fun v v' => hB v v' _) fun _ => steady_pure
  · exact steady_bind (steady_modify fun v v' => hB v v' _) fun _ => steady_pure

omit [Rejects X] in
theorem steady_tapLeafScriptCallback (hS : LeafSame S) (hB : LeafBlind S) :
    Steady X S (tapLeafScriptCallback E s m i key tls) := by
  unfold tapLeafScriptCallback
  split
  · exact steady_pure
  · refine steady_ite steady_pure (steady_ite steady_pure (steady_ite steady_pure ?_))
    exact steady_bind (steady_streamTapLeafValue hS hB) fun _ => steady_pure

omit [Rejects X] in
theorem steady_scanKeys (hS : LeafSame S) (hB : LeafBlind S) :
    ∀ {keys : List Bytes} {i : ℕ} {tls : Tls}, Steady X S (scanKeys E s m i keys tls)
  | [], _, _ => steady_pure
  | _ :: _, _, _ => steady_bind (steady_tapLeafScriptCallback hS hB) fun _ => steady_scanKeys hS hB

/-- The leaf facts are reset before the leaf is read: afterwards they are the same. -/
theorem alike_readTapLeaf (hB : LeafBlind S) {v v' : Volatile} (h : S v v') :
    Alike (fun _ a a' => a = a') X S (fun a b t t' => a = b ∧ sameLeaf S t t')
      (readTapLeaf E s n idx) (readTapLeaf E s n idx) v v' := by
  have hrest : Steady X (sameLeaf S) (do
      let ks : List Bytes × Bool ← askV (.keys .input n idx)
      let tls ← scanKeys E s (.input idx) 0 ks.1 .zero
      check (ks.2 = true ∧ tls.found = true ∧ tls.ambiguous = false) .incorrectData
      check (tls.leafVersion = tapscriptLeafVersion) .incorrectData
      return (MapRef.input idx, tls)) :=
    steady_bind steady_ask fun ks =>
      steady_bind (steady_scanKeys leafSame_sameLeaf hB.sameLeaf) fun _ => by simp
  have hstart : sameLeaf S { v with leaf := .zero } { v' with leaf := .zero } := ⟨rfl, hB v v' _ h⟩
  exact .modify_bind ((hrest _ _ hstart).mono (fun _ _ h => h.2) fun _ _ _ _ h => h)

/-- What follows may read the leaf facts. -/
theorem steady_readTapLeaf_bind {f : MapRef × Tls → V α} (hB : LeafBlind S)
    (hf : ∀ a, Steady X (sameLeaf S) (f a)) : Steady X S (readTapLeaf E s n idx >>= f) := by
  intro v v' h
  refine (alike_readTapLeaf hB h).bind ?_
  rintro a _ t t' ⟨rfl, ht⟩
  exact (hf a t t' ht).mono (fun _ _ h => h.2) fun _ _ _ _ h => ⟨h.1, h.2.2⟩

/-- What follows a check that fails is not run. -/
theorem steady_check_bind {c : Prop} [Decidable c] {f : Unit → V α} (h : ¬c) :
    Steady X S (check c sw >>= f) := by
  have hc : check c sw = reject sw := if_neg h
  rw [hc]
  exact steady_stop (Rejects.reject sw)

end Readers

/-! ## The validators -/

section Validators
variable {X : Stop → Prop} [Rejects X] {S : Volatile → Volatile → Prop} {E : Env} {st : SignPsbtState} {s : Session} {tls : Tls}

theorem steady_validateDisplayPop (hv : st.txVersion = 0) :
    Steady X S (validateDisplayPop E st s) := by
  unfold validateDisplayPop
  refine steady_bind (steady_require fun h => absurd hv h) fun _ => ?_
  repeat refine steady_bind (by simp) fun _ => ?_
  refine steady_bind steady_ask fun _ => ?_
  repeat refine steady_bind (by simp) fun _ => ?_
  simp

@[simp] theorem steady_prepeginTxInput {i : ℕ} {sha : Bytes} :
    Steady X S (prepeginTxInput st i sha) := by
  unfold prepeginTxInput
  repeat refine steady_bind (by simp) fun _ => ?_
  simp

@[simp] theorem steady_prepeginTxOutput {i : ℕ} {sha : Bytes} :
    Steady X S (prepeginTxOutput E st i sha) := by
  simp [prepeginTxOutput]

@[simp] theorem steady_computePrepeginTxid : Steady X S (computePrepeginTxid E st) := by
  refine steady_bind (steady_loop fun _ _ => by simp) fun _ => ?_
  exact steady_bind (steady_loop fun _ _ => by simp) fun _ => steady_pure

@[simp] theorem steady_prepeginHtlcOutput {gi : ℕ} : Steady X S (prepeginHtlcOutput E st s gi) := by
  unfold prepeginHtlcOutput
  repeat refine steady_bind (by simp) fun _ => ?_
  simp

@[simp] theorem steady_prepeginOutput {spk : Bytes} {b : Bool} {i : ℕ}
    {seen : Bool × PrepeginDepositorOutputs} : Steady X S (prepeginOutput st s spk b i seen) := by
  refine steady_ite steady_pure ?_
  repeat refine steady_bind (by simp) fun _ => ?_
  refine steady_ite (by simp) (steady_ite ?_ steady_reject)
  exact steady_bind steady_orReject fun _ => steady_pure

/-- Only for a loaded intent does it wipe the session or assert. -/
theorem steady_validatePrepegin (hX : s.ctx.state = .intentLoaded → ∀ e, X e) :
    Steady X S (validatePrepegin E st s) := by
  by_cases hl : s.ctx.state = .intentLoaded
  · have hloop : Steady X S (forUpto st.nInputs (prepeginSighash st)) :=
      steady_loop fun _ _ => by simp [prepeginSighash]
    have hhtlc : Steady X S (validatePrepeginHtlcOutputs E st s) := steady_loop fun _ _ => by simp
    have houts : Steady X S (validatePrepeginOutputs E st s) := by
      refine steady_bind steady_orReject fun _ => ?_
      refine steady_bind (steady_require fun _ => hX hl _) fun _ => ?_
      exact steady_bind (steady_loop fun _ _ => by simp) fun _ => steady_pure
    unfold validatePrepegin
    repeat refine steady_bind (by simp [hloop, hhtlc, houts]) fun _ => ?_
    exact steady_require fun _ => hX hl _
  · exact steady_check_bind hl

theorem steady_validateDisplayClaim (hS : LeafSame S) : Steady X S (validateDisplayClaim E st tls) := by
  unfold validateDisplayClaim
  repeat refine steady_bind (by
    simp [steady_requireBufferedLeaf hS, steady_refundVerifyTaprootCommitment hS]) fun _ => ?_
  simp

theorem steady_validateDisplayReclaim (hS : LeafSame S) :
    Steady X S (validateDisplayReclaim E st tls) := by
  unfold validateDisplayReclaim
  repeat refine steady_bind (by
    simp [steady_requireBufferedLeaf hS, steady_refundVerifyTaprootCommitment hS]) fun _ => ?_
  simp

theorem steady_validateDisplayAssert (hS : LeafSame S) :
    Steady X S (validateDisplayAssert E st tls) := by
  unfold validateDisplayAssert
  repeat refine steady_bind (by
    simp [steady_leafMeta hS, steady_refundVerifyTaprootCommitment hS]) fun _ => ?_
  simp

variable (hB : LeafBlind S)
include hB

theorem steady_validateDisplayRefund : Steady X S (validateDisplayRefund E st s) := by
  have hS : LeafSame (sameLeaf S) := leafSame_sameLeaf
  unfold validateDisplayRefund
  repeat refine steady_bind (by simp) fun _ => ?_
  refine steady_readTapLeaf_bind hB fun _ => ?_
  repeat refine steady_bind (by
    simp [steady_requireBufferedLeaf hS, steady_refundVerifyTaprootCommitment hS]) fun _ => ?_
  simp

theorem steady_validateDisplayWc : Steady X S (validateDisplayWc E st s) := by
  have hS : LeafSame (sameLeaf S) := leafSame_sameLeaf
  unfold validateDisplayWc
  repeat refine steady_bind (by simp) fun _ => ?_
  refine steady_readTapLeaf_bind hB fun _ => ?_
  repeat refine steady_bind (by
    simp [steady_requireBufferedLeaf hS, steady_refundVerifyTaprootCommitment hS]) fun _ => ?_
  simp

theorem steady_validateDisplayPayoutFinalize (hf : ∀ v v', S v v' →
      S { v with tr := { v.tr with isPayoutSigning := false } }
        { v' with tr := { v'.tr with isPayoutSigning := false } }) :
    Steady X S (validateDisplayPayoutFinalize E st s) := by
  have hS : LeafSame (sameLeaf S) := leafSame_sameLeaf
  have hutxo : ∀ m tls, Steady X (sameLeaf S) (readFinalizeUtxo E s m tls) := fun m tls => by
    unfold readFinalizeUtxo
    repeat first
      | exact steady_refundVerifyTaprootCommitment hS
      | refine steady_bind (by simp) fun _ => ?_
  have hfee : ∀ a, Steady X (sameLeaf S) (finalizeFeeCap s a) := fun a =>
    steady_ite (by simp) steady_pure
  refine steady_bind (steady_modify hf) fun _ => ?_
  repeat refine steady_bind (by simp) fun _ => ?_
  refine steady_readTapLeaf_bind hB fun _ => ?_
  repeat refine steady_bind (by
    simp [steady_requireBufferedLeaf hS, hutxo, hfee]) fun _ => ?_
  simp

end Validators

/-! ## The dispatcher -/

section Dispatch
variable {X : Stop → Prop} {S : Volatile → Volatile → Prop} {E : Env} {st : SignPsbtState}
  {s : Session}

theorem steady_through {flow : Flow} {v : V Unit} (h : Steady X S v) : Steady X S (through flow v) :=
  steady_bind h fun _ => steady_pure

variable [Rejects X]

theorem steady_dispatchLeaf (hB : LeafBlind S) : Steady X S (dispatchLeaf E st s) := by
  have hS : LeafSame (sameLeaf S) := leafSame_sameLeaf
  refine steady_readTapLeaf_bind hB fun _ => steady_bind (steady_leafMeta hS) fun _ => ?_
  refine steady_ite steady_reject
    (steady_ite ?_ (steady_ite (steady_ite ?_ (steady_ite ?_ ?_)) steady_reject))
  · refine steady_ite (steady_through (steady_validateDisplayClaim hS)) ?_
    exact steady_ite (steady_through (steady_validateDisplayReclaim hS)) steady_reject
  · exact steady_through (steady_validateDisplayWc hB.sameLeaf)
  · exact steady_bind steady_check fun _ => steady_through (steady_validateDisplayAssert hS)
  · exact steady_ite (steady_through (steady_validateDisplayRefund hB.sameLeaf)) steady_reject

theorem steady_dispatchRest (hB : LeafBlind S) (hX : s.ctx.state = .intentLoaded → ∀ e, X e)
    (hf : ∀ v v', S v v' → S { v with tr := { v.tr with isPayoutSigning := false } }
      { v' with tr := { v'.tr with isPayoutSigning := false } }) :
    Steady X S (dispatchRest E st s) := by
  refine steady_ite (steady_ite (steady_through (steady_validatePrepegin hX)) ?_) (steady_ite ?_ ?_)
  · exact steady_through (steady_validateDisplayWc hB)
  · exact steady_through (steady_validateDisplayPayoutFinalize hB hf)
  · exact steady_dispatchLeaf hB

/-- Outside a loaded session no validator touches the group counter of a load, and all
    that it does on a failure is to send a status word. -/
theorem dispatch_idle {g : ℕ} (hs : s.ctx.state ≠ .intentLoaded) :
    Keeps IsReject (fun v => v.tr.vaultGroupIndex = g) (dispatch E st s) := by
  refine Steady.keeps ?_
  have hB : LeafFree fun v => v.tr.vaultGroupIndex = g := fun _ _ h => h
  have hrest : Steady IsReject _ (dispatchRest E st s) :=
    steady_dispatchRest hB.one (fun h => absurd h hs) (by
      rintro v _ ⟨rfl, h⟩
      exact ⟨rfl, h⟩)
  unfold dispatch
  by_cases hv : st.txVersion = 0
  · rw [if_pos hv]
    exact steady_through (steady_validateDisplayPop hv)
  rw [if_neg hv]
  refine steady_ite ?_ (steady_ite ?_ ?_)
  · exact steady_through (steady_check_bind hs)
  · exact steady_through (steady_check_bind hs)
  · rw [if_neg (fun h => hs h.1)]
    exact hrest

end Dispatch

end BabylonVault
