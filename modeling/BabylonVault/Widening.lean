/-
  A loaded intent widens none of the standalone flows.

  * `SameFacts`: the same leaf facts, but for the verdict on the signer prefix.
  * `eases_validator`: without an intent the validators of these flows ask no more.
  * `route_frame`: nor does the dispatcher send them elsewhere.
  * `Reach.never_widens`: what is accepted under an intent is accepted without one, and
    signed the same way.
-/
import BabylonVault.Agreement
import BabylonVault.Routing

namespace BabylonVault
open Bytes Prog

variable {E : Env} {st : SignPsbtState} {s s₀ : Session} {S T : Volatile → Volatile → Prop}
  {α : Type} {tls : Tls} {n i : ℕ}

/-- The same leaf facts, but for the verdict on the signer prefix. -/
def SameFacts (v t : Volatile) : Prop :=
  { v.leaf with assertPrefixOk := false } = { t.leaf with assertPrefixOk := false }

theorem sameFacts_leafMetaOf {v t : Volatile} {script : Bytes} :
    SameFacts { v with leaf := leafMetaOf E s script } { t with leaf := leafMetaOf E s₀ script } := rfl

theorem SameFacts.reads {v t : Volatile} (h : SameFacts v t) :
    v.leaf.buffered = t.leaf.buffered ∧ v.leaf.hash = t.leaf.hash := by
  obtain ⟨hb, -, -, -, hh⟩ := LeafMeta.mk.inj h
  exact ⟨hb, hh⟩

/-! ## Rules -/

theorem eases_readTapLeaf_bind {f g : MapRef × Tls → V α} (h : ∀ a, Eases SameFacts T (f a) (g a)) :
    Eases S T (readTapLeaf E s n i >>= f) (readTapLeaf E s₀ n i >>= g) := by
  intro G v t a v' _ hm
  obtain ⟨cb, script, hleaf, hm⟩ := readTapLeaf_bind.1 hm
  obtain ⟨t', hn, ht⟩ := h _ G _ { t with leaf := leafMetaOf E s₀ script } a v' sameFacts_leafMetaOf hm
  exact ⟨t', readTapLeaf_bind.2 ⟨cb, script, hleaf, hn⟩, ht⟩

theorem eases_requireBufferedLeaf_bind {f g : Unit → V α} (h : Eases SameFacts T (f ()) (g ())) :
    Eases SameFacts T (requireBufferedLeaf >>= f) (requireBufferedLeaf >>= g) := by
  intro G v t a v' hs hm
  obtain ⟨hb, hm⟩ := requireBufferedLeaf_bind.1 hm
  obtain ⟨t', hn, ht⟩ := h G v t a v' hs hm
  exact ⟨t', requireBufferedLeaf_bind.2 ⟨hs.reads.1 ▸ hb, hn⟩, ht⟩

theorem eases_refundVerify_bind {f g : Unit → V α} {spk : Bytes}
    (h : Eases SameFacts T (f ()) (g ())) :
    Eases SameFacts T (refundVerifyTaprootCommitment E tls spk >>= f)
      (refundVerifyTaprootCommitment E tls spk >>= g) := by
  intro G v t a v' hs hm
  obtain ⟨hc, hm⟩ := refundVerifyTaprootCommitment_bind.1 hm
  obtain ⟨t', hn, ht⟩ := h G v t a v' hs hm
  exact ⟨t', refundVerifyTaprootCommitment_bind.2 ⟨hs.reads.2 ▸ hc, hn⟩, ht⟩

/-- A piece that reads neither the session nor the leaf. -/
theorem eases_bind {β : Type} {m : V β} {f g : β → V α} (hm : Steady AnyStop S m)
    (h : ∀ a, Eases S T (f a) (g a)) : Eases S T (m >>= f) (m >>= g) := hm.eases.bind h

/-- A check that the session without an intent makes weaker. -/
theorem eases_check_bind {c d : Prop} [Decidable c] [Decidable d] {sw : Sw} {f g : Unit → V α}
    (hcd : c → d) (h : Eases S T (f ()) (g ())) :
    Eases S T (check c sw >>= f) (check d sw >>= g) := Eases.bind (Eases.require hcd) fun _ => h

theorem eases_finalizeFeeCap (h₀ : s₀.ctx.state ≠ .intentLoaded) {amount : UInt64} :
    Eases S S (finalizeFeeCap s amount) (finalizeFeeCap s₀ amount) := by
  have hnone : finalizeFeeCap s₀ amount = pure () := if_neg fun h => h₀ h.1
  rw [hnone]
  unfold finalizeFeeCap
  split_ifs
  · intro G v t u v' hs hm
    obtain ⟨-, hm⟩ := check_bind.1 hm
    obtain ⟨-, rfl⟩ := via_require.1 hm
    exact ⟨t, via_pure.2 ⟨rfl, rfl⟩, hs⟩
  · exact Eases.pure

/-! ## The validators -/

/-- The key check of a PoP goes away. -/
theorem eases_pop (h₀ : s₀.ctx.state ≠ .intentLoaded) :
    Eases S S (validateDisplayPop E st s) (validateDisplayPop E st s₀) := by
  unfold validateDisplayPop
  refine (Eases.require id).bind fun _ => ?_
  iterate 12 refine eases_bind (by simp) fun _ => ?_
  refine eases_bind steady_ask fun _ => ?_
  iterate 4 refine eases_bind (by simp) fun _ => ?_
  refine eases_check_bind (fun _ h => h₀ h.1) ?_
  repeat refine eases_bind (by simp) fun _ => ?_
  exact Steady.eases (X := AnyStop) steady_display

/-- The exact timelock becomes a lower bound, and the txid is no longer compared. -/
theorem eases_refund (h₀ : s₀.ctx.state ≠ .intentLoaded) (hl : s.ctx.state = .intentLoaded)
    (ht : timelockMin ≤ s.intent.htlcRefundTimelock) :
    Eases S SameFacts (validateDisplayRefund E st s) (validateDisplayRefund E st s₀) := by
  unfold validateDisplayRefund
  iterate 5 refine eases_bind (by simp) fun _ => ?_
  refine eases_readTapLeaf_bind fun _ => eases_requireBufferedLeaf_bind ?_
  refine eases_bind (by simp) fun _ => ?_
  refine eases_check_bind ?_ ?_
  · rw [if_pos hl, if_neg h₀]
    omega
  refine eases_bind (by simp) fun _ => eases_refundVerify_bind ?_
  iterate 10 refine eases_bind (by simp) fun _ => ?_
  refine eases_check_bind (fun _ h => h₀ h.1) ?_
  refine eases_bind (by simp) fun _ => ?_
  exact Steady.eases (X := AnyStop) steady_display

/-- A WC asks nothing of the session. -/
theorem eases_wc : Eases S SameFacts (validateDisplayWc E st s) (validateDisplayWc E st s₀) := by
  unfold validateDisplayWc
  iterate 2 refine eases_bind (by simp) fun _ => ?_
  refine eases_readTapLeaf_bind fun _ => eases_requireBufferedLeaf_bind ?_
  iterate 5 refine eases_bind (by simp) fun _ => ?_
  refine eases_refundVerify_bind ?_
  repeat refine eases_bind (by simp) fun _ => ?_
  exact Steady.eases (X := AnyStop) steady_display

theorem eases_claim : Eases SameFacts SameFacts (validateDisplayClaim E st tls)
    (validateDisplayClaim E st tls) := by
  unfold validateDisplayClaim
  iterate 2 refine eases_bind (by simp) fun _ => ?_
  refine eases_requireBufferedLeaf_bind ?_
  iterate 5 refine eases_bind (by simp) fun _ => ?_
  refine eases_refundVerify_bind ?_
  repeat refine eases_bind (by simp) fun _ => ?_
  exact Steady.eases (X := AnyStop) steady_display

theorem eases_reclaim : Eases SameFacts SameFacts (validateDisplayReclaim E st tls)
    (validateDisplayReclaim E st tls) := by
  unfold validateDisplayReclaim
  iterate 2 refine eases_bind (by simp) fun _ => ?_
  refine eases_requireBufferedLeaf_bind ?_
  iterate 8 refine eases_bind (by simp) fun _ => ?_
  refine eases_refundVerify_bind ?_
  repeat refine eases_bind (by simp) fun _ => ?_
  exact Steady.eases (X := AnyStop) steady_display

/-- The timelock, the ceiling of Input 1 and the fee cap go away. -/
theorem eases_payoutFinalize (h₀ : s₀.ctx.state ≠ .intentLoaded) :
    Eases S SameFacts (validateDisplayPayoutFinalize E st s)
      (validateDisplayPayoutFinalize E st s₀) := by
  unfold validateDisplayPayoutFinalize
  refine (Eases.modify (T := fun _ _ => True) fun _ _ _ => trivial).bind fun _ => ?_
  refine eases_bind (by simp) fun _ => ?_
  refine eases_readTapLeaf_bind fun _ => eases_requireBufferedLeaf_bind ?_
  refine eases_bind (by simp) fun _ => ?_
  refine eases_check_bind (fun _ h => h₀ h.1) ?_
  refine eases_bind (by simp) fun _ => ?_
  unfold readFinalizeUtxo
  simp only [Prog.bind_assoc]
  iterate 3 refine eases_bind (by simp) fun _ => ?_
  refine eases_check_bind (fun _ h => h₀ h.1) ?_
  refine eases_bind (by simp) fun _ => eases_refundVerify_bind ?_
  iterate 9 refine eases_bind (by simp) fun _ => ?_
  refine eases_bind (by simp) fun _ => (eases_finalizeFeeCap h₀).bind fun _ => ?_
  refine eases_bind (by simp) fun _ => ?_
  exact Steady.eases (X := AnyStop) steady_display

/-! ## The dispatcher -/

/-- The flows that need no intent. -/
def Flow.standalone : Flow → Bool
  | .pop | .refund | .claim | .reclaim | .wc | .payoutFinalize => true
  | _ => false

/-- The flows whose validator finds the leaf already read. -/
def Flow.handsLeaf (F : Flow) : Prop := F = .claim ∨ F = .reclaim

variable {F : Flow} {tls' : Tls} {lm lm' : LeafMeta} {G : Allow} {v v' t t' : Volatile}

/-- The verdict on the signer prefix decides an Assert only. -/
theorem leafRoute_frame (hF : F.standalone = true)
    (hlm : { lm with assertPrefixOk := false } = { lm' with assertPrefixOk := false })
    (h : (leafRoute st tls lm).Via G v (F, tls') v') :
    v = v' ∧ (leafRoute st tls lm').Via G t (F, tls') t := by
  obtain ⟨-, hpfx, hlast, -, -⟩ := LeafMeta.mk.inj hlm
  have hpure {r : Flow × Tls} (h : (pure r : V _).Via G v (F, tls') v') :
      v = v' ∧ (pure r : V _).Via G t (F, tls') t := by
    obtain ⟨rfl, rfl⟩ := via_pure.1 h
    exact ⟨rfl, via_pure.2 ⟨rfl, rfl⟩⟩
  unfold leafRoute at h ⊢
  rw [← hpfx, ← hlast]
  dsimp only at h ⊢
  split_ifs at h ⊢
  · exact (reject_end.1 h).elim
  · exact hpure h
  · exact hpure h
  · exact (reject_end.1 h).elim
  · exact hpure h
  · obtain ⟨-, h⟩ := check_bind.1 h
    obtain ⟨rfl, -⟩ := Prod.mk.inj (via_pure.1 h).1
    cases hF
  · exact hpure h
  · exact (reject_end.1 h).elim
  · exact (reject_end.1 h).elim

theorem routeLeaf_frame (hF : F.standalone = true) (h : (routeLeaf E st s).Via G v (F, tls) v') :
    ∃ t', (routeLeaf E st s₀).Via G t (F, tls) t' ∧ SameFacts v' t' := by
  obtain ⟨cb, script, hleaf, h⟩ := readTapLeaf_bind.1 h
  have hlm : { leafMetaOf E s script with assertPrefixOk := false } =
      { leafMetaOf E s₀ script with assertPrefixOk := false } := rfl
  obtain ⟨rfl, h'⟩ := leafRoute_frame (t := { t with leaf := leafMetaOf E s₀ script }) hF hlm
    (leafMeta_bind.1 h)
  exact ⟨_, readTapLeaf_bind.2 ⟨cb, script, hleaf, leafMeta_bind.2 h'⟩, rfl⟩

/-- A shape alone sends nothing to a validator that finds a leaf read. -/
theorem pure_frame {F' : Flow} (hF' : ¬F'.handsLeaf)
    (h : (pure (F', .zero) : V (Flow × Tls)).Via G v (F, tls) v') :
    ∃ t', (pure (F', .zero) : V (Flow × Tls)).Via G t (F, tls) t' ∧
      (F.handsLeaf → SameFacts v' t') := by
  obtain ⟨hr, -⟩ := via_pure.1 h
  obtain ⟨rfl, -⟩ := Prod.mk.inj hr
  exact ⟨t, via_pure.2 ⟨hr, rfl⟩, fun hl => absurd hl hF'⟩

theorem routeRest_frame (hF : F.standalone = true) (h : (routeRest E st s).Via G v (F, tls) v') :
    ∃ t', (routeRest E st s₀).Via G t (F, tls) t' ∧ (F.handsLeaf → SameFacts v' t') := by
  unfold routeRest at h ⊢
  split_ifs at h ⊢
  · exact pure_frame (by simp [Flow.handsLeaf]) h
  · exact pure_frame (by simp [Flow.handsLeaf]) h
  · exact pure_frame (by simp [Flow.handsLeaf]) h
  · obtain ⟨t', h', hs⟩ := routeLeaf_frame hF h
    exact ⟨t', h', fun _ => hs⟩

/-- Without an intent a PSBT takes the same route, if that route needs none. -/
theorem route_frame (h₀ : s₀.ctx.state ≠ .intentLoaded) (hF : F.standalone = true)
    (h : (route E st s).Via G v (F, tls) v') :
    ∃ t', (route E st s₀).Via G t (F, tls) t' ∧ (F.handsLeaf → SameFacts v' t') := by
  have hidle : route E st s₀ = if st.txVersion = 0 then pure (.pop, .zero)
      else if st.hasNoWalletPolicy ∧ st.nInputs = 1 ∧ st.nOutputs = 3 then pure (.pegin, .zero)
      else if st.hasNoWalletPolicy ∧ st.nInputs = 3 ∧ st.nOutputs = 1 then pure (.nopayout, .zero)
      else routeRest E st s₀ := by
    rw [route, if_neg (c := _ ∧ _ ∧ st.nInputs = 2) fun h => h₀ h.1]
  have hpayout (h : (pure (.payout, .zero) : V (Flow × Tls)).Via G v (F, tls) v') : False := by
    obtain ⟨rfl, -⟩ := Prod.mk.inj (via_pure.1 h).1
    cases hF
  rw [hidle]
  unfold route at h
  split_ifs at h ⊢ with hver hpeg hno hpay hout
  · exact pure_frame (by simp [Flow.handsLeaf]) h
  · exact pure_frame (by simp [Flow.handsLeaf]) h
  · exact pure_frame (by simp [Flow.handsLeaf]) h
  · exact (hpayout h).elim
  · obtain ⟨-, h⟩ := getMap_bind.1 h
    obtain ⟨txid, -, h⟩ := getPreviousTxid_bind.1 h
    split_ifs at h
    · exact (hpayout h).elim
    · exact routeRest_frame hF h
  · exact routeRest_frame hF h

/-- Without an intent the validators of these flows ask no more. -/
theorem eases_validator (h₀ : s₀.ctx.state ≠ .intentLoaded) (hl : s.ctx.state = .intentLoaded)
    (ht : timelockMin ≤ s.intent.htlcRefundTimelock) (hF : F.standalone = true)
    (hS : F.handsLeaf → ∀ v t, S v t → SameFacts v t) :
    Eases S (fun _ _ => True) (validatorOf E st s tls F) (validatorOf E st s₀ tls F) := by
  cases F with
  | pop => exact (eases_pop h₀).mono (fun _ _ h => h) fun _ _ _ => trivial
  | refund => exact (eases_refund h₀ hl ht).mono (fun _ _ h => h) fun _ _ _ => trivial
  | wc => exact eases_wc.mono (fun _ _ h => h) fun _ _ _ => trivial
  | payoutFinalize => exact (eases_payoutFinalize h₀).mono (fun _ _ h => h) fun _ _ _ => trivial
  | claim => exact eases_claim.mono (hS (.inl rfl)) fun _ _ _ => trivial
  | reclaim => exact eases_reclaim.mono (hS (.inr rfl)) fun _ _ _ => trivial
  | _ => cases hF

theorem dispatch_frame (h₀ : s₀.ctx.state ≠ .intentLoaded) (hl : s.ctx.state = .intentLoaded)
    (ht : timelockMin ≤ s.intent.htlcRefundTimelock) (hF : F.standalone = true)
    (h : (dispatch E st s).Via G v F v') : ∃ t', (dispatch E st s₀).Via G t F t' := by
  rw [dispatch_eq_route] at h ⊢
  obtain ⟨⟨F', tls⟩, v₁, hroute, hrun⟩ := via_bind.1 h
  obtain ⟨rfl, hval⟩ := through_via hrun
  obtain ⟨t₁, hroute', hS⟩ := route_frame (t := t) h₀ hF hroute
  obtain ⟨t', hval', -⟩ := eases_validator (S := fun v t => F.handsLeaf → SameFacts v t) h₀ hl ht hF
    (fun hl _ _ h => h hl) G v₁ t₁ () v' hS hval
  exact ⟨t', via_bind.2 ⟨(F, tls), t₁, hroute', via_bind.2 ⟨(), t', hval', via_pure.2 ⟨rfl, rfl⟩⟩⟩⟩

/-! ## The device -/

/-- What a flow that needs no intent accepts on `d`, it accepts on `d₀` with the same answers;
    and the signer then asks for the same signatures. -/
structure NotWidened (E : Env) (st : SignPsbtState) (p : Psbt) (F : Flow) (d d₀ : Device) : Prop where
  accepts : ∀ (G : ∀ q, devIface.Ans q → Prop) d₁,
    (validateAndDisplayTransaction E st).Via G d F d₁ →
      ∃ d₂, (validateAndDisplayTransaction E st).Via G d₀ F d₂
  signs : ∀ d₁ d₂, (validateAndDisplayTransaction E st).Via p.AllowsDev d F d₁ →
    (validateAndDisplayTransaction E st).Via p.AllowsDev d₀ F d₂ → ∀ ans, p.SignsWith ans →
      signatures ((signCustomInputs E st).asked ans d₁) =
        signatures ((signCustomInputs E st).asked ans d₂)

variable {p : Psbt} {d d₀ d₁ d₂ : Device} {ls : List Exchange}

/-- The signer reads the leaf anew, so only its shape depends on the session. -/
theorem signatures_signLeaf_eq {shape : ℕ → LeafMeta → Bool} {cb script cb' script' : Bytes}
    {path path' : List UInt32} {ans : Answers} (hans : p.SignsWith ans)
    (hin : LeafInput E st p.Allows i cb script path)
    (hshape : shape script.length (leafMetaOf E d₁.session script) = true)
    (hin' : LeafInput E st p.Allows i cb' script' path')
    (hshape' : shape script'.length (leafMetaOf E d₂.session script') = true) :
    signatures ((signLeaf E st shape i).asked ans d₁) =
      signatures ((signLeaf E st shape i).asked ans d₂) := by
  obtain ⟨rfl, rfl⟩ := hin.leaf.hasLeaf.2.unique hin'.leaf.hasLeaf.2
  obtain ⟨value, spk, hutxo, -⟩ := hin.utxo
  obtain ⟨sighash, hs⟩ := hans.sighash i spk (vaultTaprootLeafHash E script) sighashDefault
  rw [signatures_signLeaf hans (leafSigningInput_via.2 ⟨cb, script, hin.leaf.serves, hshape,
      ⟨value, hutxo.serves⟩, hin.key.serves, rfl, rfl⟩) hs,
    signatures_signLeaf hans (leafSigningInput_via.2 ⟨cb, script, hin.leaf.serves, hshape',
      ⟨value, hutxo.serves⟩, hin.key.serves, rfl, rfl⟩) hs]

/-- The two branches ask for the same signatures. -/
theorem branch_frame {ans : Answers} {junk junk' : DeriveCtx} (hans : p.SignsWith ans)
    (hF : F.standalone = true) (h : Accepted E st d.session p.Allows v F v')
    (h₀ : Accepted E st d₀.session p.Allows t F t') :
    signatures ((F.branch E st).asked ans (acceptedDevice d F junk v')) =
      signatures ((F.branch E st).asked ans (acceptedDevice d₀ F junk' t')) := by
  have hne : F ≠ .prepegin := by
    rintro rfl
    cases hF
  have hs : (acceptedDevice d F junk v').session = d.session := (acceptedDevice_session hne).1
  have hs₀ : (acceptedDevice d₀ F junk' t').session = d₀.session := (acceptedDevice_session hne).1
  cases h with
  | pop => rfl
  | payoutFinalize _ _ _ _ hin hshape =>
    cases h₀ with
    | leaf hF' => cases hF'
    | payoutFinalize _ _ _ _ hin' hshape' =>
      -- the branch asserts that Input 0 is not the wallet's, and reads nothing before that
      show signatures ((signPayoutFinalize E st).asked ans _) =
        signatures ((signPayoutFinalize E st).asked ans _)
      unfold signPayoutFinalize assertM
      split_ifs
      · exact signatures_signLeaf_eq hans hin (hs.symm ▸ hshape) hin' (hs₀.symm ▸ hshape')
      · rfl
  | leaf hF' _ hflow =>
    cases h₀ with
    | leaf _ _ hflow' =>
      obtain ⟨-, cb, script, path, hin, hshape, -⟩ := hflow
      obtain ⟨-, cb', script', path', hin', hshape', -⟩ := hflow'
      rw [Flow.branch_ofLeaf hF']
      exact signatures_signLeaf_eq hans hin (hs.symm ▸ hshape) hin' (hs₀.symm ▸ hshape')
    | _ => cases hF'
  | _ => cases hF

/-- A loaded intent widens none of the flows that need none. -/
theorem Reach.never_widens (h : Reach E ls d) (hl : d.ctx.state = .intentLoaded)
    (h₀ : d₀.ctx.state ≠ .intentLoaded) (hd₀ : d₀.streaming.streamingInProgress = false)
    (hF : F.standalone = true) : NotWidened E st p F d d₀ := by
  constructor
  · intro G d₁ hv
    obtain ⟨-, junk, v', hj, hdis, -⟩ := validateAndDisplayTransaction_iff.1 hv
    have hlow : timelockMin ≤ d.intent.htlcRefundTimelock :=
      ((h.session.loaded hl).intent).leafBounds.refund.1
    have hidle : d₀.session.ctx.state ≠ .intentLoaded := h₀
    obtain ⟨t', hdis'⟩ := dispatch_frame (t := d₀.volatile) hidle hl hlow hF hdis
    exact ⟨_, validateAndDisplayTransaction_iff.2 ⟨hd₀, junk, t', hj, hdis', rfl⟩⟩
  · intro d₁ d₂ hv hv₀ ans hans
    obtain ⟨-, junk, v', hacc, rfl⟩ := validateAndDisplayTransaction_via hv
    obtain ⟨-, junk', t', hacc', rfl⟩ := validateAndDisplayTransaction_via hv₀
    rw [signatures_accepted hacc, signatures_accepted hacc']
    exact branch_frame hans hF hacc hacc'

open Signet in
theorem never_widens_wc :
    NotWidened env (wcOfState 3) (wcOf 3) .wc (loaded intent) Device.boot ∧
      (validateAndDisplayTransaction env (wcOfState 3)).Via (wcOf 3).AllowsDev (loaded intent) .wc
        ((validateAndDisplayTransaction env (wcOfState 3)).eval ((wcOf 3).answers (Buf.zero 32))
          (loaded intent)).2 :=
  ⟨Reach.never_widens (reach_loaded intent) loaded_state (by decide) rfl rfl,
    via_of_eval ((wcOf 3).answers_allows _) (by rw [loaded_intent]; decide +kernel)⟩

end BabylonVault
