/-
  What earlier requests leave behind does not reach a SIGN_PSBT.

  * `Session.visible`: what a SIGN_PSBT can see of a session; `dispatch_visible`: the
    validators see no more.
  * `alike_dispatch`: whatever the transient fields and the leaf facts are at the
    start, the validators decide alike, and the indices of the flow they choose agree.
  * `Interchangeable`, `SameUpdate`, `signPsbt_alike`: two devices with the same approval
    answer a SIGN_PSBT alike.
-/
import BabylonVault.Play
import BabylonVault.Signing

namespace BabylonVault
open Bytes Prog

variable {E : Env} {st : SignPsbtState} {s s' : Session} {n idx : ℕ} {m : MapRef} {tls : Tls}

/-! ## What a SIGN_PSBT sees of the session -/

/-- A session without what only the other commands look at. -/
def Session.masked (s : Session) : Session :=
  { s with ctx := { s.ctx with root := Buf.zero 32, derivationPath := [], appName := [],
                               contextFp := Buf.zero 4, intentFp := Buf.zero 4 } }

/-- What a SIGN_PSBT can see of a session. -/
def Session.visible (s : Session) : Session :=
  if s.ctx.state = .intentLoaded then s.masked else ⟨.zero, .zero⟩

theorem visible_loaded (h : s.ctx.state = .intentLoaded) : s.visible = s.masked := if_pos h

theorem visible_unloaded (h : s.ctx.state ≠ .intentLoaded) : s.visible = ⟨.zero, .zero⟩ := if_neg h

theorem check_congr {c d : Prop} {_ : Decidable c} [Decidable d] {sw : Sw} (h : c = d) :
    check c sw = check d sw := by
  subst h
  congr

attribute [local congr] check_congr

/-- A validator that needs an intent stops at once without one. -/
theorem check_loaded_bind {α : Type} {sw : Sw} {f : Unit → V α} (h : s.ctx.state ≠ .intentLoaded) :
    (check (s.ctx.state = .intentLoaded) sw >>= f) = reject sw := by
  have hc : check (s.ctx.state = .intentLoaded) sw = reject sw := if_neg h
  rw [hc]
  rfl

/-! Without an assert prefix to compare, a leaf is read without the intent. -/

theorem leafStreamDataCb_none {it it' : VaultIntent} {c : LeafStreamCtx} {p : Bytes}
    (h : c.assertPrefixLen = none) : leafStreamDataCb it c p = leafStreamDataCb it' c p ∧
      (leafStreamDataCb it c p).assertPrefixLen = none := by
  unfold leafStreamDataCb leafStreamScript
  simp only [h, true_and]
  split_ifs <;> simp [h]

theorem foldl_leafStreamDataCb_none {it it' : VaultIntent} :
    ∀ {ps : List Bytes} {c : LeafStreamCtx}, c.assertPrefixLen = none →
      ps.foldl (leafStreamDataCb it) c = ps.foldl (leafStreamDataCb it') c
  | [], _, _ => rfl
  | p :: ps, c, h => by
    obtain ⟨he, hn⟩ := @leafStreamDataCb_none it it' c p h
    rw [List.foldl_cons, List.foldl_cons, ← he]
    exact foldl_leafStreamDataCb_none hn

theorem streamEnd_unloaded {lm : LeafMeta} {r : Streamed} (h : s.ctx.state ≠ .intentLoaded)
    (h' : s'.ctx.state ≠ .intentLoaded) : streamEnd s tls lm r = streamEnd s' tls lm r := by
  unfold streamEnd streamStart
  rw [if_neg h, if_neg h']
  apply foldl_leafStreamDataCb_none
  unfold leafStreamLenCb
  cases r.declared with
  | none => rfl
  | some k =>
    dsimp only
    split_ifs <;> rfl

theorem scanKeys_congr (h : ∀ {tls lm r}, streamEnd s tls lm r = streamEnd s' tls lm r) :
    ∀ {keys : List Bytes} {i : ℕ} {tls : Tls}, scanKeys E s m i keys tls = scanKeys E s' m i keys tls
  | [], _, _ => rfl
  | key :: keys, i, tls => by
    have hcb : tapLeafScriptCallback E s m i key tls = tapLeafScriptCallback E s' m i key tls := by
      simp only [tapLeafScriptCallback, streamTapLeafValue, h]
    simp only [scanKeys, hcb, scanKeys_congr h]

section Unloaded
variable (h : s.ctx.state ≠ .intentLoaded) (h' : s'.ctx.state ≠ .intentLoaded)
include h h'

theorem readTapLeaf_unloaded : readTapLeaf E s n idx = readTapLeaf E s' n idx := by
  have hscan := @scanKeys_congr E s s' (.input idx) (streamEnd_unloaded h h')
  simp only [readTapLeaf, hscan]

theorem validateDisplayPop_unloaded : validateDisplayPop E st s = validateDisplayPop E st s' := by
  simp only [validateDisplayPop, h, h', false_and]

theorem validateDisplayRefund_unloaded :
    validateDisplayRefund E st s = validateDisplayRefund E st s' := by
  simp only [validateDisplayRefund, readTapLeaf_unloaded h h', h, h', false_and, if_false]

theorem validateDisplayPayoutFinalize_unloaded :
    validateDisplayPayoutFinalize E st s = validateDisplayPayoutFinalize E st s' := by
  simp only [validateDisplayPayoutFinalize, readFinalizeUtxo, finalizeFeeCap,
    readTapLeaf_unloaded h h', h, h', false_and, if_false]

theorem dispatch_unloaded : dispatch E st s = dispatch E st s' := by
  have hwc : validateDisplayWc E st s = validateDisplayWc E st s' := by
    unfold validateDisplayWc
    rw [readTapLeaf_unloaded h h']
  have hpre : validatePrepegin E st s = validatePrepegin E st s' := by
    rw [validatePrepegin, validatePrepegin, check_loaded_bind h, check_loaded_bind h']
  have hpegin : validatePegin E st s = validatePegin E st s' := by
    rw [validatePegin, validatePegin, check_loaded_bind h, check_loaded_bind h']
  have hno : validateNopayout E st s = validateNopayout E st s' := by
    rw [validateNopayout, validateNopayout, check_loaded_bind h, check_loaded_bind h']
  simp only [dispatch, dispatchRest, dispatchLeaf, validateDisplayPop_unloaded h h', hpegin, hno,
    hpre, hwc, validateDisplayPayoutFinalize_unloaded h h', readTapLeaf_unloaded h h',
    validateDisplayRefund_unloaded h h', h, h', false_and, if_false]

end Unloaded

theorem readTapLeaf_masked : readTapLeaf E s.masked n idx = readTapLeaf E s n idx := by
  have hscan := @scanKeys_congr E s.masked s (.input idx) rfl
  simp only [readTapLeaf, hscan]

/-- No validator looks behind the mask. -/
theorem dispatch_masked : dispatch E st s.masked = dispatch E st s := by
  have hno : validateNopayout E st s.masked = validateNopayout E st s := by
    rw [validateNopayout, readTapLeaf_masked]
    rfl
  have hpay : validatePayout E st s.masked = validatePayout E st s := by
    rw [validatePayout, readTapLeaf_masked]
    rfl
  have hfin : validateDisplayPayoutFinalize E st s.masked = validateDisplayPayoutFinalize E st s := by
    rw [validateDisplayPayoutFinalize, readTapLeaf_masked]
    rfl
  have href : validateDisplayRefund E st s.masked = validateDisplayRefund E st s := by
    rw [validateDisplayRefund, readTapLeaf_masked]
    rfl
  have hwc : validateDisplayWc E st s.masked = validateDisplayWc E st s := by
    unfold validateDisplayWc
    rw [readTapLeaf_masked]
  simp only [dispatch, dispatchRest, dispatchLeaf, hno, hpay, hfin, hwc, href, readTapLeaf_masked]
  rfl

theorem readTapLeaf_visible : readTapLeaf E s.visible n idx = readTapLeaf E s n idx := by
  by_cases h : s.ctx.state = .intentLoaded
  · rw [visible_loaded h, readTapLeaf_masked]
  · rw [visible_unloaded h]
    exact readTapLeaf_unloaded (by decide) h

theorem dispatch_visible : dispatch E st s.visible = dispatch E st s := by
  by_cases h : s.ctx.state = .intentLoaded
  · rw [visible_loaded h, dispatch_masked]
  · rw [visible_unloaded h]
    exact dispatch_unloaded (by decide) h

/-! ## The validators of the intent-bound flows -/

attribute [local simp] steady_bind steady_pure steady_ask

section Steady
variable {S : Volatile → Volatile → Prop} {gi ci : ℕ} {b c : UInt64}

theorem steady_peginValidateInput : Steady AnyStop S (peginValidateInput E s m gi) := by
  have hleaf : ∀ spk, Steady AnyStop S (peginCheckLeaf0Script E s m gi spk) := fun spk => by
    unfold peginCheckLeaf0Script assertGroupIdx
    repeat refine steady_bind (by simp) fun _ => ?_
    simp
  unfold peginValidateInput assertGroupIdx
  repeat refine steady_bind (by simp [hleaf]) fun _ => ?_
  simp

theorem steady_peginValidateOutputs : Steady AnyStop S (peginValidateOutputs E s gi b) := by
  unfold peginValidateOutputs
  repeat refine steady_bind (by simp) fun _ => ?_
  simp

theorem steady_detectPayoutClaimer (hS : LeafSame S) :
    Steady AnyStop S (detectPayoutClaimer s tls gi) := by
  unfold detectPayoutClaimer
  repeat refine steady_bind (by simp [steady_requireBufferedLeaf hS]) fun _ => ?_
  simp

theorem steady_readAssert0Value (hS : LeafSame S) : Steady AnyStop S (readAssert0Value E s m tls) := by
  unfold readAssert0Value
  repeat refine steady_bind (by simp [steady_refundVerifyTaprootCommitment hS]) fun _ => ?_
  simp

theorem steady_payoutValidateInput0 : Steady AnyStop S (payoutValidateInput0 E s m gi) := by
  unfold payoutValidateInput0 payoutCheckWitnessUtxo payoutCheckSingleLeafScript
  repeat refine steady_bind (by simp) fun _ => ?_
  simp

theorem steady_payoutValidateInput1 : Steady AnyStop S (payoutValidateInput1 s m) := by
  unfold payoutValidateInput1
  repeat refine steady_bind (by simp) fun _ => ?_
  simp

theorem steady_payoutOutput0 : Steady AnyStop S (payoutOutput0 E st s ci) := by
  refine steady_ite ?_ ?_ <;>
  · repeat refine steady_bind (by simp) fun _ => ?_
    simp

theorem steady_payoutOutput1 : Steady AnyStop S (payoutOutput1 E st s gi ci) := by
  refine steady_ite ?_ (steady_bind (by simp) fun _ => steady_ite ?_ ?_) <;>
  · repeat refine steady_bind (by simp) fun _ => ?_
    simp

theorem steady_payoutOutput2 : Steady AnyStop S (payoutOutput2 E st ci b) := by
  refine steady_ite ?_ steady_pure
  repeat refine steady_bind (by simp) fun _ => ?_
  simp

theorem steady_payoutFee : Steady AnyStop S (payoutFee s gi b c) := by
  unfold payoutFee
  repeat refine steady_bind (by simp) fun _ => ?_
  simp

end Steady

/-- Any two states. -/
abbrev AnyState : Volatile → Volatile → Prop := fun _ _ => True

/-- The runs of a validator from `v` and `v'` decide alike, and `Q` relates the ends. -/
def DecidesAlike {α : Type} (Q : α → Volatile → Volatile → Prop) (w : V α) (v v' : Volatile) :
    Prop :=
  Alike (fun _ a a' => a = a') AnyStop AnyState (fun a b t t' => a = b ∧ Q a t t') w w v v'

/-- The indices that the signer of a flow reads. -/
def Flow.SameIndices : Flow → Transient → Transient → Prop
  | .pegin, t, t' => t.vaultGroupIndex = t'.vaultGroupIndex
  | .payout, t, t' => t.vaultGroupIndex = t'.vaultGroupIndex ∧ t.payoutIndex = t'.payoutIndex
  | .nopayout, t, t' => t.nopayoutChallengerIndex = t'.nopayoutChallengerIndex
  | _, _, _ => True

section Decides
variable {v v' : Volatile}

namespace DecidesAlike
variable {α β : Type} {S : Volatile → Volatile → Prop} {Q : α → Volatile → Volatile → Prop}
  {w : V α}

/-- A steady validator in front. -/
theorem bind {f : β → V α} {w : V β} (hw : Steady AnyStop S w) (hs : S v v')
    (hf : ∀ a t t', S t t' → DecidesAlike Q (f a) t t') : DecidesAlike Q (w >>= f) v v' :=
  hw.alike_bind hs (fun _ _ _ => trivial) hf

theorem of_steady (hw : Steady AnyStop S w) (hs : S v v') (hQ : ∀ a t t', S t t' → Q a t t') :
    DecidesAlike Q w v v' :=
  (hw v v' hs).mono (fun _ _ _ => trivial) fun a _ t t' h => ⟨h.1, hQ a t t' h.2⟩

theorem modify_bind {g : Volatile → Volatile} {f : Unit → V α}
    (h : DecidesAlike Q (f ()) (g v) (g v')) : DecidesAlike Q (Prog.modify g >>= f) v v' := h

theorem ite {c : Prop} [Decidable c] {u : V α} (hw : DecidesAlike Q w v v')
    (hu : DecidesAlike Q u v v') : DecidesAlike Q (if c then w else u) v v' := by
  split_ifs
  · exact hw
  · exact hu

theorem reject {sw : Sw} : DecidesAlike Q (reject sw) v v' := Alike.stop trivial trivial

/-- The leaf is read again before its facts are used. -/
theorem readTapLeaf_bind {f : MapRef × Tls → V α}
    (hf : ∀ a t t', t.leaf = t'.leaf → DecidesAlike Q (f a) t t') :
    DecidesAlike Q (readTapLeaf E s n idx >>= f) v v' := by
  refine (alike_readTapLeaf (S := AnyState) (fun _ _ _ _ => trivial) trivial).bind ?_
  rintro a _ t t' ⟨rfl, ht, -⟩
  exact hf a t t' ht

end DecidesAlike

/-- The group index is written before the checks that come to depend on it. -/
theorem alike_validatePegin :
    DecidesAlike (fun _ t t' => Flow.SameIndices .pegin t.tr t'.tr) (validatePegin E st s) v v' := by
  unfold validatePegin
  iterate 7 refine .bind (S := AnyState) (by simp) trivial fun _ _ _ _ => ?_
  refine .modify_bind (.of_steady (S := fun t t' => t.tr.vaultGroupIndex = t'.tr.vaultGroupIndex) ?_
    rfl fun _ _ _ h => h)
  repeat refine steady_bind (by
    simp [steady_peginValidateInput, steady_peginValidateOutputs]) fun _ => ?_
  simp

theorem alike_validatePayout :
    DecidesAlike (fun _ t t' => Flow.SameIndices .payout t.tr t'.tr) (validatePayout E st s) v v' := by
  have hS : LeafSame fun t t' => t.leaf = t'.leaf := fun _ _ h => h
  unfold validatePayout
  iterate 7 refine .bind (S := AnyState) (by simp) trivial fun _ _ _ _ => ?_
  refine .readTapLeaf_bind fun _ _ _ ht => ?_
  refine .bind (steady_detectPayoutClaimer hS) ht fun _ _ _ ht => ?_
  refine .bind (steady_readAssert0Value hS) ht fun _ _ _ ht => ?_
  refine .modify_bind (.of_steady (S := fun t t' => Flow.SameIndices .payout t.tr t'.tr) ?_
    ⟨rfl, rfl⟩ fun _ _ _ h => h)
  iterate 10 refine steady_bind (by simp [steady_payoutValidateInput0, steady_payoutValidateInput1,
    steady_payoutOutput0, steady_payoutOutput1, steady_payoutOutput2, steady_payoutFee]) fun _ => ?_
  exact steady_modify fun _ _ h => h

theorem alike_validateNopayout : DecidesAlike (fun _ t t' => Flow.SameIndices .nopayout t.tr t'.tr)
    (validateNopayout E st s) v v' := by
  have hS : LeafSame fun t t' => t.leaf = t'.leaf := fun _ _ h => h
  unfold validateNopayout
  iterate 3 refine .bind (S := AnyState) (by simp) trivial fun _ _ _ _ => ?_
  refine .readTapLeaf_bind fun _ _ _ ht => ?_
  iterate 15 refine .bind (S := fun t t' => t.leaf = t'.leaf) (by
    simp [steady_requireBufferedLeaf hS, steady_readAssert0Value hS]) ‹_› fun _ _ _ _ => ?_
  exact Alike.modify ⟨rfl, rfl⟩

/-! ## The dispatcher -/

/-- Two ends of the dispatcher: the signer of the flow finds the same indices. -/
abbrev SameFlow (F : Flow) (t t' : Volatile) : Prop := F.SameIndices t.tr t'.tr

theorem alike_through {F : Flow} {w : V Unit} (h : DecidesAlike (fun _ => SameFlow F) w v v') :
    DecidesAlike SameFlow (through F w) v v' :=
  Alike.bind h fun _ _ _ _ ht => Alike.pure ⟨rfl, ht.2⟩

/-- The validators of the other flows. -/
theorem alike_steady_through {F : Flow} {w : V Unit} {S : Volatile → Volatile → Prop}
    (hw : Steady AnyStop S w) (hs : S v v') (hF : ∀ t t', F.SameIndices t t') :
    DecidesAlike SameFlow (through F w) v v' :=
  alike_through (.of_steady hw hs fun _ _ _ _ => hF _ _)

theorem alike_dispatchLeaf : DecidesAlike SameFlow (dispatchLeaf E st s) v v' := by
  have hS : LeafSame fun t t' => t.leaf = t'.leaf := fun _ _ h => h
  have hB : LeafBlind fun t t' => t.leaf = t'.leaf := fun _ _ _ _ => rfl
  refine .readTapLeaf_bind fun _ _ _ ht => .bind (steady_leafMeta hS) ht fun _ _ _ ht => ?_
  refine .ite .reject (.ite (.ite ?_ (.ite ?_ .reject)) (.ite (.ite ?_ (.ite ?_ (.ite ?_ .reject)))
    .reject))
  · exact alike_steady_through (steady_validateDisplayClaim hS) ht fun _ _ => trivial
  · exact alike_steady_through (steady_validateDisplayReclaim hS) ht fun _ _ => trivial
  · exact alike_steady_through (steady_validateDisplayWc hB) ht fun _ _ => trivial
  · refine .bind (S := fun t t' => t.leaf = t'.leaf) steady_check ht fun _ _ _ ht => ?_
    exact alike_steady_through (steady_validateDisplayAssert hS) ht fun _ _ => trivial
  · exact alike_steady_through (steady_validateDisplayRefund hB) ht fun _ _ => trivial

theorem alike_dispatchRest : DecidesAlike SameFlow (dispatchRest E st s) v v' := by
  have hB : LeafBlind AnyState := fun _ _ _ h => h
  refine .ite (.ite ?_ ?_) (.ite ?_ alike_dispatchLeaf)
  · exact alike_steady_through (S := AnyState) (steady_validatePrepegin fun _ _ => trivial) trivial
      fun _ _ => trivial
  · exact alike_steady_through (steady_validateDisplayWc hB) trivial fun _ _ => trivial
  · exact alike_steady_through (steady_validateDisplayPayoutFinalize hB fun _ _ h => h) trivial
      fun _ _ => trivial

/-- Whatever the transient fields and the leaf facts are at the start. -/
theorem alike_dispatch : DecidesAlike SameFlow (dispatch E st s) v v' := by
  unfold dispatch
  by_cases hv : st.txVersion = 0
  · rw [if_pos hv]
    exact alike_steady_through (S := AnyState) (steady_validateDisplayPop hv) trivial
      fun _ _ => trivial
  rw [if_neg hv]
  refine .ite (alike_through alike_validatePegin) (.ite (alike_through alike_validateNopayout)
    (.ite (.ite (alike_through alike_validatePayout) ?_) alike_dispatchRest))
  iterate 2 refine .bind (S := AnyState) (by simp) trivial fun _ _ _ _ => ?_
  exact .ite (alike_through alike_validatePayout) alike_dispatchRest

end Decides

/-! ## The devices -/

/-- The two answers are the same. What another member of the scratch union leaves
    behind is free. -/
def SameAnswer (q : DevAsk) (a b : devIface.Ans q) : Prop := q = .scratch ∨ a = b

/-- The devices hold the same approval. -/
structure SameApproval (d e : Device) : Prop where
  intent : d.intent = e.intent
  htlcHashlock : d.ctx.htlcHashlock = e.ctx.htlcHashlock
  authAnchorHash : d.ctx.authAnchorHash = e.ctx.authAnchorHash
  prePeginSigned : d.ctx.prePeginSigned = e.ctx.prePeginSigned
  peginSigned : d.ctx.peginSigned = e.ctx.peginSigned
  payoutSigned : d.ctx.payoutSigned = e.ctx.payoutSigned
  nopayoutSigned : d.ctx.nopayoutSigned = e.ctx.nopayoutSigned
  payoutClaimerMask : d.ctx.payoutClaimerMask = e.ctx.payoutClaimerMask
  peginGroupMask : d.ctx.peginGroupMask = e.ctx.peginGroupMask

/-- No stream is in progress, and the devices are both without an approved intent or
    hold the same approval. -/
structure Interchangeable (d e : Device) : Prop where
  stream : d.streaming.streamingInProgress = false ∧ e.streaming.streamingInProgress = false
  session : (d.ctx.state ≠ .intentLoaded ∧ e.ctx.state ≠ .intentLoaded) ∨
    (d.ctx.state = .intentLoaded ∧ e.ctx.state = .intentLoaded ∧ SameApproval d e)

/-- What a SIGN_PSBT may do to a session. -/
inductive Update
  | kept | prepegin | signed (kind : SigKind) | wiped

def Update.apply : Update → Device → Device
  | kept => id
  | prepegin => countPrepegin
  | signed kind => kind.count
  | wiped => vaultContextInvalidate

/-- The sessions of `d'` and `e'` come from those of `d` and `e` by the same update. -/
def SameUpdate (d e d' e' : Device) : Prop :=
  ∃ u : Update, d'.session = (u.apply d).session ∧ e'.session = (u.apply e).session

variable {d e d' e' : Device}

theorem SameApproval.masked (h : SameApproval d e) (hs : d.ctx.state = e.ctx.state) :
    d.session.masked = e.session.masked := by
  simp only [Session.masked, Device.session, h.intent, h.htlcHashlock, h.authAnchorHash,
    h.prePeginSigned, h.peginSigned, h.payoutSigned, h.nopayoutSigned, h.payoutClaimerMask,
    h.peginGroupMask, hs]

theorem Interchangeable.visible (h : Interchangeable d e) :
    d.session.visible = e.session.visible := by
  rcases h.session with ⟨hd, he⟩ | ⟨hd, he, ha⟩
  · rw [visible_unloaded hd, visible_unloaded he]
  · rw [visible_loaded hd, visible_loaded he, ha.masked (hd.trans he.symm)]

theorem Interchangeable.dispatch_eq (h : Interchangeable d e) :
    dispatch E st d.session = dispatch E st e.session := by
  rw [← dispatch_visible, h.visible, dispatch_visible]

/-! ## A request on both devices -/

namespace SameUpdate

/-- The sessions are those of the start. -/
theorem same (hd : d'.session = d.session) (he : e'.session = e.session) : SameUpdate d e d' e' :=
  ⟨.kept, hd, he⟩

theorem settle (r : Stop) (h : SameUpdate d e d' e') :
    SameUpdate d e (settleStop r d') (settleStop r e') := by
  cases r with
  | reject | callee => exact h
  | wipe | restart => exact ⟨.wiped, rfl, rfl⟩

theorem count (kind : SigKind) (hd : d'.session = d.session) (he : e'.session = e.session) :
    SameUpdate d e (kind.count d') (kind.count e') := by
  obtain ⟨hdc, hdi⟩ := Session.mk.inj hd
  obtain ⟨hec, hei⟩ := Session.mk.inj he
  refine ⟨.signed kind, ?_, ?_⟩ <;> cases kind <;>
    simp [Update.apply, SigKind.count, countPegin, countPayout, countNopayout, Device.session, *]

end SameUpdate

/-- A validator on both devices. -/
theorem alike_validating {α : Type} {w : Session → V α} {Q : α → Volatile → Volatile → Prop}
    (hw : w d'.session = w e'.session)
    (h : DecidesAlike Q (w d'.session) d'.volatile e'.volatile) (hu : SameUpdate d e d' e') :
    Alike SameAnswer AnyStop (SameUpdate d e) (fun a b t t' => a = b ∧ t.session = d'.session ∧
      t'.session = e'.session ∧ Q a t.volatile t'.volatile) (validating w) (validating w) d' e' := by
  have hrun : Alike SameAnswer AnyStop (SameUpdate d e)
      (fun a b t t' => a = b ∧ t.session = d'.session ∧ t'.session = e'.session ∧
        Q a t.volatile t'.volatile)
      (Prog.onError settleStop (Prog.embed readHom Device.volatile Device.setVolatile (w d'.session)))
      (Prog.onError settleStop (Prog.embed readHom Device.volatile Device.setVolatile (w d'.session)))
      d' e' := by
    refine Alike.onError (Alike.embed h ?_ ?_ ?_) fun r _ _ => SameUpdate.settle r
    · rintro q a a' (hq | ha)
      · cases hq
      · exact congrArg _ ha
    · exact fun _ _ _ => hu
    · rintro a b v v' ⟨hab, hq⟩
      exact ⟨hab, rfl, rfl, hq⟩
  unfold Alike at hrun ⊢
  simpa only [validating, hw] using hrun

theorem alike_askM (q : DevAsk) (hu : SameUpdate d e d' e') :
    Alike SameAnswer AnyStop (SameUpdate d e) (fun a b t t' => SameAnswer q a b ∧ t = d' ∧ t' = e')
      (askM q) (askM q) d' e' :=
  Course.Sim.ask hu fun _ _ ha => .ret ⟨ha, rfl, rfl⟩

/-- The common tail: sighash, counter, signature. -/
theorem alike_signAndYield {kind : SigKind} {input : ℕ} {path : List UInt32} {leafHash : Bytes32}
    {spk : Bytes} (hd : d'.session = d.session) (he : e'.session = e.session) :
    Alike SameAnswer AnyStop (SameUpdate d e) (fun _ _ => SameUpdate d e)
      (signAndYield kind input path leafHash spk kind.count)
      (signAndYield kind input path leafHash spk kind.count) d' e' := by
  have hu := SameUpdate.same hd he
  refine .bind (Q := fun a b t t' => a = b ∧ t = d' ∧ t' = e')
    (.bind (alike_askM (.sighash input spk leafHash sighashDefault) hu) ?_) ?_
  · rintro a b _ _ ⟨ha, rfl, rfl⟩
    obtain rfl : a = b := ha.resolve_left (by simp)
    cases a with
    | none => exact .stop trivial hu
    | some sighash => exact .pure ⟨rfl, rfl, rfl⟩
  · rintro sighash _ _ _ ⟨rfl, rfl, rfl⟩
    have hc := SameUpdate.count kind hd he
    refine .modify_bind (.bind (alike_askM (.yield kind _) hc) ?_)
    rintro a b _ _ ⟨ha, rfl, rfl⟩
    obtain rfl : a = b := ha.resolve_left (by simp)
    exact .ite Iff.rfl (fun _ => .pure hc) fun _ => .stop trivial hc

/-- A branch that counts. -/
theorem alike_countingBranch {kind : SigKind} {path : List UInt32}
    {w : Session → V (Bytes32 × Bytes)} (hd : d'.session = d.session) (he : e'.session = e.session)
    (hw : w d.session = w e.session) (hs : Steady AnyStop AnyState (w d.session)) :
    Alike SameAnswer AnyStop (SameUpdate d e) (fun _ _ => SameUpdate d e)
      (wiping do
        let (leafHash, spk) ← validating w
        signAndYield kind 0 path leafHash spk kind.count)
      (wiping do
        let (leafHash, spk) ← validating w
        signAndYield kind 0 path leafHash spk kind.count) d' e' := by
  rw [← hd, ← he] at hw
  rw [← hd] at hs
  refine .onError (.bind (alike_validating (Q := fun _ _ _ => True) hw
    (.of_steady hs trivial fun _ _ _ _ => trivial) (.same hd he)) ?_) fun _ _ _ _ => ⟨.wiped, rfl, rfl⟩
  rintro ⟨leafHash, spk⟩ _ t t' ⟨rfl, ht, ht', -⟩
  exact alike_signAndYield (ht.trans hd) (ht'.trans he)

/-- A branch that signs with the leaf's own key. -/
theorem alike_signLeaf (h : Interchangeable d e) {shape : ℕ → LeafMeta → Bool}
    (hd : d'.session = d.session) (he : e'.session = e.session) :
    Alike SameAnswer AnyStop (SameUpdate d e) (fun _ _ => SameUpdate d e) (signLeaf E st shape idx)
      (signLeaf E st shape idx) d' e' := by
  have hw : leafSigningInput E st shape idx d'.session = leafSigningInput E st shape idx e'.session := by
    rw [hd, he, leafSigningInput, leafSigningInput, ← readTapLeaf_visible, h.visible,
      readTapLeaf_visible]
  refine .bind (alike_validating (Q := fun _ _ _ => True) hw
    (.of_steady (steady_leafSigningInput (S := AnyState) fun _ _ _ h => h) trivial
      fun _ _ _ _ => trivial) (.same hd he)) ?_
  rintro ⟨leafHash, spk, path⟩ _ t t' ⟨rfl, ht, ht', -⟩
  exact alike_signAndYield (ht.trans hd) (ht'.trans he)

variable {F : Flow} {v v' : Volatile}

/-- The validator: on both devices it ends alike, and the signer finds the same indices. -/
theorem alike_validateAndDisplay (h : Interchangeable d e) :
    Alike SameAnswer AnyStop (SameUpdate d e) (fun F F' t t' => F = F' ∧ SameUpdate d e t t' ∧
      F.SameIndices t.tr t'.tr) (validateAndDisplayTransaction E st)
      (validateAndDisplayTransaction E st) d e := by
  have hu : SameUpdate d e d e := .same rfl rfl
  refine .get_bind (.ite (by rw [h.stream.1, h.stream.2]) (fun hs => ?_) fun _ => ?_)
  · exact absurd hs (by rw [h.stream.1]; decide)
  refine .bind (Q := fun _ _ t t' => t.session = d.session ∧ t'.session = e.session)
    (.bind (alike_askM .scratch hu) ?_) ?_
  · rintro _ _ _ _ ⟨-, rfl, rfl⟩
    exact .modify ⟨rfl, rfl⟩
  rintro _ _ t t' ⟨ht, ht'⟩
  have hw : dispatch E st t.session = dispatch E st t'.session := by
    rw [ht, ht', h.dispatch_eq]
  refine .bind (alike_validating hw alike_dispatch (.same ht ht')) ?_
  rintro F _ u u' ⟨rfl, hd, he, hF⟩
  refine .ite Iff.rfl (fun hpre => ?_) fun _ => .pure ⟨rfl, .same (hd.trans ht) (he.trans ht'), hF⟩
  subst hpre
  refine .modify_bind (.pure ⟨rfl, ⟨.prepegin, ?_, ?_⟩, hF⟩)
  · exact congrArg (fun s : Session => (⟨{ s.ctx with prePeginSigned := s.ctx.prePeginSigned + 1 },
      s.intent⟩ : Session)) (hd.trans ht)
  · exact congrArg (fun s : Session => (⟨{ s.ctx with prePeginSigned := s.ctx.prePeginSigned + 1 },
      s.intent⟩ : Session)) (he.trans ht')

/-- `LEDGER_ASSERT`: a restart is one on both devices. -/
theorem alike_assertM {c : Prop} [Decidable c] (hd : d'.session = d.session)
    (he : e'.session = e.session) : Alike SameAnswer AnyStop (SameUpdate d e)
      (fun _ _ t t' => t.session = d.session ∧ t'.session = e.session) (assertM c) (assertM c)
      d' e' := by
  refine .ite Iff.rfl (fun _ => .pure ⟨hd, he⟩) fun _ => ?_
  exact .modify_bind (.stop trivial ⟨.wiped, rfl, rfl⟩)

section Approved
variable (h : SameApproval d e) (hs : d.ctx.state = e.ctx.state) (hd : d'.session = d.session)
  (he : e'.session = e.session)
include h hs hd he

theorem alike_signPegin (hgi : d'.tr.vaultGroupIndex = e'.tr.vaultGroupIndex) :
    Alike SameAnswer AnyStop (SameUpdate d e) (fun _ _ => SameUpdate d e) (signPegin E st) (signPegin E st)
      d' e' := by
  have hit : d'.intent = e'.intent :=
    (congrArg Session.intent hd).trans (h.intent.trans (congrArg Session.intent he).symm)
  have hw : peginSigningInput E st d'.tr.vaultGroupIndex d.session =
      peginSigningInput E st d'.tr.vaultGroupIndex e.session :=
    (congrArg (peginSigningInput E st d'.tr.vaultGroupIndex) (h.masked hs) :)
  refine .get_bind ?_
  dsimp only
  rw [← hgi, ← hit]
  refine .bind (alike_assertM hd he) ?_
  rintro _ _ t t' ⟨ht, ht'⟩
  exact @alike_countingBranch _ _ _ _ (.pegin _) _ _ ht ht' hw steady_peginSigningInput

theorem alike_signNopayout
    (hci : d'.tr.nopayoutChallengerIndex = e'.tr.nopayoutChallengerIndex) :
    Alike SameAnswer AnyStop (SameUpdate d e) (fun _ _ => SameUpdate d e) (signNopayout E st)
      (signNopayout E st) d' e' := by
  have hit : d'.intent = e'.intent :=
    (congrArg Session.intent hd).trans (h.intent.trans (congrArg Session.intent he).symm)
  have hw : nopayoutSigningInput E st d'.tr.nopayoutChallengerIndex d.session =
      nopayoutSigningInput E st d'.tr.nopayoutChallengerIndex e.session := by
    have hmask := congrArg (nopayoutSigningInput E st d'.tr.nopayoutChallengerIndex) (h.masked hs)
    simp only [nopayoutSigningInput, readTapLeaf_masked] at hmask ⊢
    exact hmask
  refine .get_bind ?_
  dsimp only
  rw [← hci, ← hit]
  exact @alike_countingBranch _ _ _ _ (.nopayout _) _ _ hd he hw (steady_nopayoutSigningInput fun _ _ _ h => h)

theorem alike_signPayout (hF : Flow.SameIndices .payout d'.tr e'.tr) :
    Alike SameAnswer AnyStop (SameUpdate d e) (fun _ _ => SameUpdate d e) (signPayout E st) (signPayout E st)
      d' e' := by
  have hit : d'.intent = e'.intent :=
    (congrArg Session.intent hd).trans (h.intent.trans (congrArg Session.intent he).symm)
  have hw : payoutSigningInput E st d'.tr.vaultGroupIndex d.session =
      payoutSigningInput E st d'.tr.vaultGroupIndex e.session :=
    (congrArg (payoutSigningInput E st d'.tr.vaultGroupIndex) (h.masked hs) :)
  refine .get_bind ?_
  dsimp only
  rw [← hF.1, ← hF.2, ← hit]
  exact @alike_countingBranch _ _ _ _ (.payout _ _) _ _ hd he hw steady_payoutSigningInput

end Approved

/-- The branch of a flow, on both devices after the PSBT was accepted. -/
theorem alike_branch (h : Interchangeable d e) {junk junk' : DeriveCtx} {v₀ : Volatile}
    (hacc : Accepted E st d.session (fun _ _ => True) v₀ F v)
    (hu : SameUpdate d e (acceptedDevice d F junk v) (acceptedDevice e F junk' v'))
    (hF : F.SameIndices v.tr v'.tr) : Alike SameAnswer AnyStop (SameUpdate d e) (fun _ _ => SameUpdate d e)
      (F.branch E st) (F.branch E st) (acceptedDevice d F junk v) (acceptedDevice e F junk' v') := by
  have happ (hs : d.ctx.state = .intentLoaded) : SameApproval d e ∧ d.ctx.state = e.ctx.state := by
    obtain ⟨hd, -⟩ | ⟨-, he, ha⟩ := h.session
    · exact absurd hs hd
    · exact ⟨ha, hs.trans he.symm⟩
  cases hacc with
  | pop => exact .pure hu
  | prepegin => exact .pure hu
  | pegin _ ha => exact alike_signPegin (happ ha.loaded).1 (happ ha.loaded).2 rfl rfl hF
  | nopayout _ _ ha => exact alike_signNopayout (happ ha.loaded).1 (happ ha.loaded).2 rfl rfl hF
  | payout _ _ ha => exact alike_signPayout (happ ha.loaded).1 (happ ha.loaded).2 rfl rfl hF
  | payoutFinalize =>
    refine .bind (alike_assertM rfl rfl) ?_
    rintro _ _ t t' ⟨ht, ht'⟩
    exact alike_signLeaf h ht ht'
  | leaf hF =>
    have hne : F ≠ .prepegin := by
      rintro rfl
      exact Bool.noConfusion hF
    rw [Flow.branch_ofLeaf hF]
    exact alike_signLeaf h (acceptedDevice_session hne).1 (acceptedDevice_session hne).1

/-- The whole request. -/
theorem alike_signPsbt (h : Interchangeable d e) : Alike SameAnswer AnyStop (SameUpdate d e)
    (fun _ _ => SameUpdate d e) (signPsbt E st) (signPsbt E st) d e := by
  refine .bind (alike_validateAndDisplay h).ends ?_
  rintro F _ t t' ⟨⟨rfl, hu, hF⟩, hvia, hvia'⟩
  obtain ⟨-, junk, v, hacc, rfl⟩ := validateAndDisplayTransaction_via hvia
  obtain ⟨-, junk', v', hacc', rfl⟩ := validateAndDisplayTransaction_via hvia'
  refine .bind (alike_askM .walletInputs hu) ?_
  rintro failed _ _ _ ⟨ha, rfl, rfl⟩
  obtain rfl := ha.resolve_left (by simp)
  refine .bind (Q := fun _ _ u u' => u = acceptedDevice d F junk v ∧ u' = acceptedDevice e F junk' v')
    (.ite Iff.rfl (fun _ => .pure ⟨rfl, rfl⟩) fun _ => .stop trivial hu) ?_
  rintro _ _ _ _ ⟨rfl, rfl⟩
  rw [acceptedDevice_tr, acceptedDevice_tr] at hF
  have hb := alike_branch h hacc hu hF
  unfold Alike at hb ⊢
  rwa [signCustomInputs_accepted hacc, signCustomInputs_accepted hacc']

/-- The same calls, in the same order, with the same answers. -/
abbrev SameAnswers : List devIface.Event → List devIface.Event → Prop :=
  List.Forall₂ (Course.Event.Rel SameAnswer)

/-- Given the same answers, `e` does what `d` does with a SIGN_PSBT: it makes the same calls
    with the same arguments, among them the screens and the signature requests, ends with
    the same result, and updates counters and masks alike, also when the host walks away. -/
structure AnswersAlike (E : Env) (st : SignPsbtState) (d e : Device) : Prop where
  done : ∀ {tr tr' r d'}, SameAnswers tr tr' → (handle E (.signPsbt st) d).Path tr (r, d') →
    ∃ e', (handle E (.signPsbt st) e).Path tr' (r, e') ∧ SameUpdate d e d' e'
  cut : ∀ {tr tr' q d'}, SameAnswers tr tr' → (handle E (.signPsbt st) d).Cut tr q d' →
    ∃ e', (handle E (.signPsbt st) e).Cut tr' q e' ∧ SameUpdate d e d' e'

/-- Whatever earlier requests left in the scratch memory, the leaf facts, the transient
    indices, the streaming and loading state and an intent not yet approved. -/
theorem no_leftovers (h : Interchangeable d e) (st : SignPsbtState) : AnswersAlike E st d e := by
  have hrun : Alike SameAnswer AnyStop (SameUpdate d e)
      (fun a b => fun t t' => a = b ∧ SameUpdate d e t t') (handle E (.signPsbt st))
      (handle E (.signPsbt st)) d e :=
    .bind (alike_signPsbt h) fun _ _ _ _ hu => .pure ⟨rfl, hu⟩
  refine ⟨fun {tr tr' r d'} ha hp => ?_, fun ha hc => Course.Sim.cut hrun hc ha⟩
  obtain ⟨⟨r', e'⟩, hp', hq⟩ := Course.Sim.path hrun hp ha
  rcases r with x | a <;> rcases r' with y | b
  · obtain ⟨rfl, -, hu⟩ := hq
    exact ⟨e', hp', hu⟩
  · exact hq.elim
  · exact hq.elim
  · obtain ⟨rfl, hu⟩ := hq
    exact ⟨e', hp', hu⟩

/-- A derivation and the scalars of an intent: the load is not complete. -/
def Signet.partly : Device :=
  (play Signet.env ((Signet.load Signet.intent).take 2) Device.boot).2

theorem no_leftovers_partly : Signet.partly.ctx.state = .hashDerived ∧
    Signet.partly.intent.vaultCount = 2 ∧
    ∀ st, AnswersAlike Signet.env st Device.boot Signet.partly :=
  ⟨by decide +kernel, by decide +kernel,
    fun st => no_leftovers ⟨⟨rfl, by decide +kernel⟩, .inl ⟨by decide, by decide +kernel⟩⟩ st⟩

end BabylonVault
