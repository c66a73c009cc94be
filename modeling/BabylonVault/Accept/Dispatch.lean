/-
  What an accepted PSBT is, whatever its flow.

  * `StandaloneRoute`: the shapes the dispatcher leaves to the flows that sign
    Input 0 with the leaf's own key.
  * `Accepted`: one case for each kind of flow (`dispatch_via`).
  * `validateAndDisplayTransaction_via`: the same for the device.
-/
import BabylonVault.Accept.Pegin
import BabylonVault.Accept.Payout
import BabylonVault.Accept.Prepegin
import BabylonVault.Accept.Standalone

namespace BabylonVault
open Bytes Prog

/-- The flows that sign Input 0 with the leaf's own key. -/
def Flow.ofLeaf : Flow → Bool
  | .wc | .claim | .reclaim | .assert | .refund => true
  | _ => false

variable (E : Env) (st : SignPsbtState) (s : Session) (G : Allow)

/-- No other flow claims the shape of this PSBT, whatever earlier requests left
    behind. -/
structure StandaloneRoute : Prop where
  version : st.txVersion ≠ 0
  pegin : ¬(st.hasNoWalletPolicy = true ∧ st.nInputs = 1 ∧ st.nOutputs = 3)
  payout : ¬(s.ctx.state = .intentLoaded ∧ st.hasNoWalletPolicy = true ∧
    (st.nInputs = 3 ∨ st.nInputs = 2))
  prepegin : ¬(st.hasNoWalletPolicy = false ∧ st.internalInputs 0 = true)
  finalize : ¬(st.hasNoWalletPolicy = true ∧ st.nInputs = 2 ∧ st.nOutputs = 2)

/-- What the dispatcher asks of an Assert leaf before it hands the PSBT on. -/
def AssertLeaf (cb script : Bytes) : Prop :=
  LeafRead G st.nInputs 0 cb script ∧ prefixOk s script = true ∧
    leafHasAssertShape script.length (leafMetaOf E s script).pfx
      (leafMetaOf E s script).lastByte = true

/-- A PSBT accepted by a flow, which leaves `v'` behind. -/
inductive Accepted (v : Volatile) : Flow → Volatile → Prop
  | pop : st.txVersion = 0 → st.nInputs = 1 → st.nOutputs = 1 →
      SighashOk G (.input 0) [sighashDefault] → Accepted v .pop v
  | pegin {gi} : st.hasNoWalletPolicy = true → PeginAccepted E st s G gi →
      Accepted v .pegin { v with tr := { v.tr with vaultGroupIndex := gi } }
  | nopayout {ci cb script} : st.txVersion ≠ 0 → st.hasNoWalletPolicy = true →
      NopayoutAccepted E st s G ci cb script →
      Accepted v .nopayout ⟨{ v.tr with nopayoutChallengerIndex := ci }, leafMetaOf E s script⟩
  | payout {gi ci cb script} : st.txVersion ≠ 0 → st.hasNoWalletPolicy = true →
      PayoutAccepted E st s G gi ci cb script →
      Accepted v .payout
        ⟨{ v.tr with vaultGroupIndex := gi, payoutIndex := ci, isPayoutSigning := true },
          leafMetaOf E s script⟩
  | prepegin : st.txVersion ≠ 0 → st.internalInputs 0 = true → PrepeginAccepted E st s G →
      Accepted v .prepegin v
  | payoutFinalize {cb script path} : st.txVersion ≠ 0 → st.hasNoWalletPolicy = true →
      st.nInputs = 2 → st.nOutputs = 2 → LeafInput E st G 1 cb script path →
      FinalizeShape E s script →
      Accepted v .payoutFinalize ⟨{ v.tr with isPayoutSigning := false }, leafMetaOf E s script⟩
  | leaf {F v'} : F.ofLeaf = true → StandaloneRoute st s → LeafFlow E st s G v v' →
      (F = .assert → ∃ cb script, AssertLeaf E st s G cb script ∧
        v' = { v with leaf := leafMetaOf E s script }) → Accepted v F v'

variable {E st s G} {v v' : Volatile} {F : Flow}

theorem through_via {flow : Flow} {m : V Unit} (h : (through flow m).Via G v F v') :
    F = flow ∧ m.Via G v () v' := by
  obtain ⟨u, v₁, hm, hp⟩ := via_bind.1 h
  obtain ⟨rfl, rfl⟩ := via_pure.1 hp
  exact ⟨rfl, hm⟩

/-- What is left after the flows that only a shape decides. -/
structure RestRoute (st : SignPsbtState) (s : Session) : Prop where
  version : st.txVersion ≠ 0
  pegin : ¬(st.hasNoWalletPolicy = true ∧ st.nInputs = 1 ∧ st.nOutputs = 3)
  nopayout : ¬(st.hasNoWalletPolicy = true ∧ st.nInputs = 3 ∧ st.nOutputs = 1)
  payout : ¬(s.ctx.state = .intentLoaded ∧ st.hasNoWalletPolicy = true ∧ st.nInputs = 2 ∧
    st.nOutputs ≠ 2)

/-- A leaf flow's shape is one of those left. -/
theorem RestRoute.standalone (hr : RestRoute st s) (hn : st.nInputs = 1 ∨ st.nOutputs = 1)
    (hp : ¬(st.hasNoWalletPolicy = false ∧ st.internalInputs 0 = true))
    (hf : ¬(st.hasNoWalletPolicy = true ∧ st.nInputs = 2 ∧ st.nOutputs = 2)) :
    StandaloneRoute st s := by
  refine ⟨hr.version, hr.pegin, ?_, hp, hf⟩
  rintro ⟨hl, hnw, h3 | h2⟩
  · exact hr.nopayout ⟨hnw, h3, by omega⟩
  · exact hr.payout ⟨hl, hnw, h2, by omega⟩

theorem accepted_leaf (hF : F.ofLeaf = true) (hr : RestRoute st s)
    (hp : ¬(st.hasNoWalletPolicy = false ∧ st.internalInputs 0 = true))
    (hf : ¬(st.hasNoWalletPolicy = true ∧ st.nInputs = 2 ∧ st.nOutputs = 2))
    (hna : F ≠ .assert) (h : LeafFlow E st s G v v') : Accepted E st s G v F v' :=
  .leaf hF (hr.standalone h.1 hp hf) h fun ha => absurd ha hna

theorem dispatchLeaf_via (hr : RestRoute st s) (hnw : st.hasNoWalletPolicy = true)
    (hf : ¬(st.hasNoWalletPolicy = true ∧ st.nInputs = 2 ∧ st.nOutputs = 2))
    (h : (dispatchLeaf E st s).Via G v F v') : Accepted E st s G v F v' := by
  have hp : ¬(st.hasNoWalletPolicy = false ∧ st.internalInputs 0 = true) := by simp [hnw]
  simp only [dispatchLeaf, readTapLeaf_bind, leafMeta_bind, via_ite, check_bind, reject_end,
    and_false, false_or, or_false] at h
  obtain ⟨cb, script, hleaf, hlen, h⟩ := h
  rcases h with ⟨-, ⟨-, h⟩ | ⟨-, -, h⟩⟩ | ⟨-, -, ⟨-, h⟩ | ⟨-, ⟨hshape, hok, h⟩ | ⟨-, -, h⟩⟩⟩
  · obtain ⟨rfl, hv⟩ := through_via h
    exact accepted_leaf rfl hr hp hf (by decide) (validateDisplayClaim_via hleaf hv)
  · obtain ⟨rfl, hv⟩ := through_via h
    exact accepted_leaf rfl hr hp hf (by decide) (validateDisplayReclaim_via hleaf hv)
  · obtain ⟨rfl, hv⟩ := through_via h
    obtain ⟨hn, hrest⟩ := validateDisplayWc_via hv
    exact accepted_leaf rfl hr hp hf (by decide) ⟨hn, hrest⟩
  · obtain ⟨rfl, hv⟩ := through_via h
    have hstand : StandaloneShape E s script := by
      simp only [not_or, not_lt, not_not, pfx_pick (show 0 < 68 by decide),
        depositorClaimLeafLen] at hlen
      have hok' : (leafMetaOf E s script).assertPrefixOk = true := hok
      rw [StandaloneShape, standaloneLeafShape, pfx_pick (by decide), hlen.2, hok']
      have h34 : 34 ≤ script.length := hlen.1
      simpa using h34
    have hflow := validateDisplayAssert_via hleaf hstand hv
    refine .leaf rfl (hr.standalone hflow.1 hp hf) hflow fun _ => ?_
    refine ⟨cb, script, ⟨hleaf, hok, hshape⟩, ?_⟩
    exact (Steady.keeps (X := AnyStop) (P := (· = { v with leaf := leafMetaOf E s script }))
      (steady_validateDisplayAssert leafSame_one)).via rfl hv
  · obtain ⟨rfl, hv⟩ := through_via h
    obtain ⟨hn, cb', script', path, hin, hsh, rfl⟩ := validateDisplayRefund_via hv
    exact accepted_leaf rfl hr hp hf (by decide) ⟨hn, cb', script', path, hin, hsh, rfl⟩

theorem dispatchRest_via (hr : RestRoute st s) (h : (dispatchRest E st s).Via G v F v') :
    Accepted E st s G v F v' := by
  simp only [dispatchRest, via_ite] at h
  rcases h with ⟨hpol, ⟨hint, h⟩ | ⟨hint, h⟩⟩ | ⟨hpol, ⟨⟨hi, ho⟩, h⟩ | ⟨hf, h⟩⟩
  · obtain ⟨rfl, hv⟩ := through_via h
    obtain ⟨hacc, rfl⟩ := validatePrepegin_via hv
    exact .prepegin hr.version hint hacc
  · obtain ⟨rfl, hv⟩ := through_via h
    exact accepted_leaf rfl hr (fun hc => hint hc.2) (by simp [hpol]) (by decide)
      (validateDisplayWc_via hv)
  · obtain ⟨rfl, hv⟩ := through_via h
    obtain ⟨cb, script, path, hin, hshape, rfl⟩ := validateDisplayPayoutFinalize_via hv
    exact .payoutFinalize hr.version (by simpa using hpol) hi ho hin hshape
  · exact dispatchLeaf_via hr (by simpa using hpol) (fun hc => hf hc.2) h

/-- An accepted PSBT, by flow. -/
theorem dispatch_via (h : (dispatch E st s).Via G v F v') : Accepted E st s G v F v' := by
  simp only [dispatch, via_ite] at h
  rcases h with ⟨hver, h⟩ | ⟨hver, ⟨⟨hnw, hi, ho⟩, h⟩ | ⟨hpeg, h⟩⟩
  · obtain ⟨rfl, hv⟩ := through_via h
    obtain ⟨⟨hi, ho⟩, hsig, rfl⟩ := validateDisplayPop_via hv
    exact .pop hver hi ho hsig
  · obtain ⟨rfl, hv⟩ := through_via h
    obtain ⟨gi, hacc, rfl⟩ := validatePegin_via hv
    exact .pegin hnw hacc
  · rcases h with ⟨⟨hnw, -⟩, h⟩ | ⟨hno, h⟩
    · obtain ⟨rfl, hv⟩ := through_via h
      obtain ⟨ci, cb, script, hacc, rfl⟩ := validateNopayout_via hv
      exact .nopayout hver hnw hacc
    · have hpay : ∀ {v₁}, s.ctx.state = .intentLoaded ∧ st.hasNoWalletPolicy = true ∧
          st.nInputs = 2 → (through .payout (validatePayout E st s)).Via G v₁ F v' → v₁ = v →
          Accepted E st s G v F v' := by
        rintro v₁ ⟨-, hnw, -⟩ hthrough rfl
        obtain ⟨rfl, hv⟩ := through_via hthrough
        obtain ⟨gi, ci, cb, script, hacc, rfl⟩ := validatePayout_via hv
        exact .payout hver hnw hacc
      rcases h with ⟨hl, ⟨-, h⟩ | ⟨ho, h⟩⟩ | ⟨hl, h⟩
      · exact hpay hl h rfl
      · simp only [getMap_bind, getPreviousTxid_bind, via_ite] at h
        obtain ⟨-, txid, -, ⟨-, h⟩ | ⟨-, h⟩⟩ := h
        · exact hpay hl h rfl
        · exact dispatchRest_via ⟨hver, hpeg, hno, fun hc => ho hc.2.2.2⟩ h
      · exact dispatchRest_via ⟨hver, hpeg, hno, fun hc => hl ⟨hc.1, hc.2.1, hc.2.2.1⟩⟩ h

/-! ## The device -/

/-- The answers to a validator's calls among those to a handler's. -/
def readAllow (G : ∀ q, devIface.Ans q → Prop) : Allow := fun q a => G (.read q) a

/-- The device after an accepted PSBT. -/
def acceptedDevice (d : Device) (F : Flow) (junk : DeriveCtx) (v' : Volatile) : Device :=
  let d' := ({ d with deriveCtx := junk } : Device).setVolatile v'
  if F = .prepegin then countPrepegin d' else d'

section AcceptedDevice
variable {d : Device} {junk : DeriveCtx}

theorem acceptedDevice_session (hF : F ≠ .prepegin) :
    (acceptedDevice d F junk v').session = d.session ∧
      (acceptedDevice d F junk v').volatile = v' := by
  rw [acceptedDevice, if_neg hF]
  exact ⟨rfl, rfl⟩

theorem acceptedDevice_state : (acceptedDevice d F junk v').ctx.state = d.ctx.state := by
  unfold acceptedDevice
  split_ifs <;> rfl

theorem acceptedDevice_tr (d : Device) (F : Flow) (junk : DeriveCtx) (v' : Volatile) :
    (acceptedDevice d F junk v').tr = v'.tr := by
  unfold acceptedDevice
  split_ifs <;> rfl

end AcceptedDevice

theorem validating_via {α : Type} {G : ∀ q, devIface.Ans q → Prop} {w : Session → V α}
    {d d' : Device} {a : α} : (validating w).Via G d a d' ↔
      ∃ v', (w d.session).Via (readAllow G) d.volatile a v' ∧ d.setVolatile v' = d' := by
  refine Iff.trans (b := (Prog.onError settleStop (Prog.embed readHom Device.volatile
    Device.setVolatile (w d.session))).Via G d a d') Iff.rfl ?_
  rw [via_onError, via_embed]
  simp only [readHom, exists_eq_right]
  exact Iff.rfl

/-- A device accepts what its dispatcher does while no derivation is under way. -/
theorem validateAndDisplayTransaction_iff {G : ∀ q, devIface.Ans q → Prop} {d d' : Device} :
    (validateAndDisplayTransaction E st).Via G d F d' ↔
      d.streaming.streamingInProgress = false ∧ ∃ junk v', G .scratch junk ∧
        (dispatch E st d.session).Via (readAllow G) d.volatile F v' ∧
        d' = acceptedDevice d F junk v' := by
  have hcount {flow : Flow} {d₁ : Device} :
      (if flow = .prepegin then Prog.modify countPrepegin >>= fun _ => pure flow
        else (pure flow : M Flow)).Via G d₁ F d' ↔
      F = flow ∧ d' = if flow = .prepegin then countPrepegin d₁ else d₁ := by
    split_ifs
    · rw [via_modify_bind, via_pure, eq_comm, eq_comm (a := d')]
    · rw [via_pure, eq_comm, eq_comm (a := d')]
  simp only [validateAndDisplayTransaction, via_get_bind, via_ite]
  constructor
  · rintro (⟨-, h⟩ | ⟨hstream, h⟩)
    · rw [via_modify_bind] at h
      exact (via_stop.1 h).elim
    simp only [clobberScratch, Prog.bind_assoc] at h
    obtain ⟨junk, hj, h⟩ := via_ask_bind.1 h
    rw [via_modify_bind] at h
    obtain ⟨flow, d₁, hval, h⟩ := via_bind.1 h
    obtain ⟨v', hdis, rfl⟩ := validating_via.1 hval
    obtain ⟨rfl, rfl⟩ := hcount.1 h
    exact ⟨by simpa using hstream, junk, v', hj, hdis, rfl⟩
  · rintro ⟨hstream, junk, v', hj, hdis, rfl⟩
    refine .inr ⟨by simp [hstream], ?_⟩
    simp only [clobberScratch, Prog.bind_assoc]
    refine via_ask_bind.2 ⟨junk, hj, ?_⟩
    rw [via_modify_bind]
    exact via_bind.2 ⟨F, _, validating_via.2 ⟨v', hdis, rfl⟩, hcount.2 ⟨rfl, rfl⟩⟩

/-- An accepted PSBT passed the dispatcher. -/
theorem validateAndDisplayTransaction_dispatch {G : ∀ q, devIface.Ans q → Prop} {d d' : Device}
    (h : (validateAndDisplayTransaction E st).Via G d F d') :
    d.streaming.streamingInProgress = false ∧ ∃ junk v',
      (dispatch E st d.session).Via (readAllow G) d.volatile F v' ∧
      d' = acceptedDevice d F junk v' := by
  obtain ⟨hstream, junk, v', -, hdis, rfl⟩ := validateAndDisplayTransaction_iff.1 h
  exact ⟨hstream, junk, v', hdis, rfl⟩

/-- An accepted PSBT on the device. -/
theorem validateAndDisplayTransaction_via {G : ∀ q, devIface.Ans q → Prop} {d d' : Device}
    (h : (validateAndDisplayTransaction E st).Via G d F d') :
    d.streaming.streamingInProgress = false ∧ ∃ junk v',
      Accepted E st d.session (readAllow G) d.volatile F v' ∧
      d' = acceptedDevice d F junk v' := by
  obtain ⟨hstream, junk, v', hdis, rfl⟩ := validateAndDisplayTransaction_dispatch h
  exact ⟨hstream, junk, v', dispatch_via hdis, rfl⟩

end BabylonVault
