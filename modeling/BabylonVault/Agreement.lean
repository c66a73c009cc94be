/-
  The validator and the signer agree.

  * `Meant`: for each flow, the leaf that was validated, its key, and the slot that the
    signature takes.
  * `SigKind.Takes`: the bit and the counter of that slot.
  * `SignerAgrees`: the signer asks for that signature and no other.
  * `Reach.signer_agrees`: it does after every accepted PSBT.
-/
import BabylonVault.Accept.Validated
import BabylonVault.Session
import BabylonVault.Signer

namespace BabylonVault
open Bytes Prog

/-- The leaf stands in the PSBT, for input `i`. -/
def Psbt.LeafStands (p : Psbt) (i : ℕ) (leaf : Bytes) : Prop :=
  ∃ cb, (psbtInTapLeafScript :: cb, leaf ++ [tapscriptLeafVersion]) ∈ p.map (.input i)

/-- What a flow has validated for the signer: slot, leaf and the key that signs. It
    depends on the session and the PSBT alone. -/
inductive Meant (E : Env) (s : Session) (p : Psbt) : Flow → SigKind → Bytes → Bytes32 → Prop
  | pegin {gi leaf x} : (p.map (.input 0)).field psbtInOutputIndex = .present x →
      findGroupByVout s.intent x = some gi →
      vaultBuildHtlcLeaf0 s.intent gi (s.hashlock gi) scriptMaxLen = some leaf →
      Meant E s p .pegin (.pegin gi) leaf s.intent.depositorPk
  | nopayout {ci cb leaf} : p.HasLeaf 0 cb leaf →
      findChallenger s.intent (Buf.slice 32 leaf 35) = some ci →
      vaultBuildNopayoutLeaf s.intent ci nopayoutLeafLen = some leaf →
      Meant E s p .nopayout (.nopayout ci) leaf s.intent.depositorPk
  | payout {gi ci cb script leaf} : findPeginGroup E s.intent (p.prevTxid 0) = some gi →
      p.HasLeaf 1 cb script → findClaimer s.intent gi (Buf.slice 32 script 1) = some ci →
      vaultBuildAssert0PayoutLeaf s.intent gi ci scriptMaxLen = some script →
      vaultBuildVaultUtxoLeaf s.intent gi scriptMaxLen = some leaf →
      Meant E s p .payout (.payout gi ci) leaf s.intent.depositorPk
  | own {F i cb leaf} : F.OwnKey → F.signedInput = some i → p.HasLeaf i cb leaf →
      Meant E s p F .standalone leaf (Buf.slice 32 leaf 1)

/-- A signature of the input that the flow is for, of the leaf that it validated, with the
    key of that leaf. -/
def IsMeant (E : Env) (s : Session) (p : Psbt) (F : Flow) (kind : SigKind) (req : SigRequest) :
    Prop :=
  F.signedInput = some req.inputIndex ∧ ∃ leaf key, Meant E s p F kind leaf key ∧
    p.LeafStands req.inputIndex leaf ∧ req.leafHash = vaultTaprootLeafHash E leaf ∧
    ∃ pk, E.pubkeyAt req.path = some pk ∧ xonly pk = key

/-- The slot of a signature is taken from `c` to `c'`: the bit of the group, or of group and
    claimer, was clear and is set, the counter is one up, and nothing else has moved. -/
def SigKind.Takes (it : VaultIntent) (c c' : VaultContext) : SigKind → Prop
  | .pegin gi => bit c.peginGroupMask gi = false ∧
      (∀ i, bit c'.peginGroupMask i = (decide (gi = i) || bit c.peginGroupMask i)) ∧
      c' = { c with peginGroupMask := c'.peginGroupMask, peginSigned := c.peginSigned + 1 }
  | .payout gi ci =>
      let slot := gi * (it.keeperCount + 2) + ci
      bit c.payoutClaimerMask slot = false ∧
      (∀ i, bit c'.payoutClaimerMask i = (decide (slot = i) || bit c.payoutClaimerMask i)) ∧
      c' = { c with payoutClaimerMask := c'.payoutClaimerMask, payoutSigned := c.payoutSigned + 1 }
  | .nopayout _ =>
      c.nopayoutSigned < it.vaultCount * (it.keeperCount + it.challengerCount) ∧
      c' = { c with nopayoutSigned := c.nopayoutSigned + 1 }
  | .standalone => c' = c

/-- The signer, on the state `d'` that the validator of a flow left: every signature it
    asks for is the one meant, and its slot is taken; a serving host is asked for exactly
    one. -/
structure SignerAgrees (E : Env) (st : SignPsbtState) (p : Psbt) (d : Device) (F : Flow)
    (d' : Device) : Prop where
  sound : ∀ kind req d'', (signCustomInputs E st).Puts p.AllowsDev d' (.yield kind req) d'' →
    IsMeant E d.session p F kind req ∧ d''.ctx = (kind.count d').ctx ∧
    kind.Takes d.intent d'.ctx d''.ctx
  once : ∀ ans, p.SignsWith ans → (signatures ((signCustomInputs E st).asked ans d')).length =
    if F.signedInput.isSome then 1 else 0

variable {E : Env} {st : SignPsbtState} {s : Session} {G : Allow} {v v' : Volatile} {p : Psbt}
  {F : Flow} {d d' d'' : Device} {ls : List Exchange} {gi ci i : ℕ} {cb script leaf : Bytes}
  {kind : SigKind} {req : SigRequest} {junk : DeriveCtx}

/-! ## The leaf in the PSBT -/

theorem Psbt.HasLeaf.stands (h : p.HasLeaf i cb leaf) : p.LeafStands i leaf := by
  obtain ⟨pre, post, hmap, -, -⟩ := h.entry
  exact ⟨cb, hmap ▸ List.mem_append_right _ (List.mem_cons_self ..)⟩

theorem Psbt.leafStands_of_value {n : ℕ} {val : Bytes}
    (h : p.Allows (.value (.input i) (psbtInTapLeafScript :: cb) n) (some val))
    (hv : val = leaf ++ [tapscriptLeafVersion]) : p.LeafStands i leaf := by
  obtain ⟨⟨k, val'⟩, hf, hval⟩ := Option.map_eq_some_iff.1 (h val rfl).1
  have hk := List.find?_some hf
  have hval : val' = val := hval
  exact ⟨cb, hv ▸ hval ▸ (beq_iff_eq.1 hk) ▸ List.mem_of_find?_eq_some hf⟩

theorem validatePegin_leaf (h : (validatePegin E st s).Via p.Allows v () v') :
    ∃ gi leaf x, (p.map (.input 0)).field psbtInOutputIndex = .present x ∧
      findGroupByVout s.intent x = some gi ∧
      vaultBuildHtlcLeaf0 s.intent gi (s.hashlock gi) scriptMaxLen = some leaf ∧
      p.LeafStands 0 leaf := by
  simp only [validatePegin, check_bind, getMap_bind, getField_bind, orReject_bind, via_modify_bind,
    peginValidateInput, peginCheckLeaf0Script, assertGroupIdx, Prog.bind_assoc, getExact_bind,
    getValue_bind, getPreviousTxid_bind, checkSighashType_bind, readWitnessUtxo_bind,
    via_pure_bind] at h
  obtain ⟨-, -, -, -, x, hx, -, gi, hgi, -, txid, -, -, vout, -, -, seq, -, -, -, value, spk, -, -,
    -, -, root, -, -, -, -, -, -, -, leaf0, h0, leaf1, h1, tw, -, -, val, hval, hleaf, -⟩ := h
  exact ⟨gi, leaf0, x, Psbt.field_eq hx, hgi, h0, Psbt.leafStands_of_value hval hleaf⟩

theorem validatePayout_leaf (h : (validatePayout E st s).Via p.Allows v () v') :
    ∃ gi leaf, findPeginGroup E s.intent (p.prevTxid 0) = some gi ∧
      vaultBuildVaultUtxoLeaf s.intent gi scriptMaxLen = some leaf ∧ p.LeafStands 0 leaf := by
  simp only [validatePayout, check_bind, getMap_bind, getPreviousTxid_bind, orReject_bind,
    readTapLeaf_bind] at h
  obtain ⟨-, -, -, -, txid, htxid, gi, hgi, -, cb, script, -, h⟩ := h
  obtain ⟨ci, -, -, h⟩ := detectPayoutClaimer_bind h
  obtain ⟨a0, -, h⟩ := readAssert0Value_bind h
  simp only [via_modify_bind, checkCap_bind, check_bind, payoutValidateInput0,
    payoutCheckWitnessUtxo, payoutCheckSingleLeafScript, Prog.bind_assoc, getField_bind,
    checkSighashType_bind, orReject_bind, readWitnessUtxo_bind, getValue_bind] at h
  obtain ⟨-, -, vout, -, -, seq, -, -, -, leaf, hleaf, tw, -, value, spk, -, -, -, val, hval, heq, -⟩ := h
  rw [← Psbt.prevTxid_eq htxid] at hgi
  exact ⟨gi, leaf, hgi, hleaf, Psbt.leafStands_of_value hval heq⟩

/-! ## The branches -/

/-- The key that the depositor's path leads to is the depositor's. -/
def DepositorKey (E : Env) (it : VaultIntent) : Prop :=
  ∃ pk, E.pubkeyAt it.depositorPath.toList = some pk ∧ xonly pk = it.depositorPk

theorem signPegin_puts (h : (signPegin E st).Puts p.AllowsDev d (.yield kind req) d'')
    (hkey : DepositorKey E d.intent) {x : UInt32} (hgi : d.tr.vaultGroupIndex = gi)
    (hx : (p.map (.input 0)).field psbtInOutputIndex = .present x)
    (hfind : findGroupByVout d.intent x = some gi)
    (hleaf : vaultBuildHtlcLeaf0 d.intent gi (d.session.hashlock gi) scriptMaxLen = some leaf)
    (hstands : p.LeafStands 0 leaf) :
    IsMeant E d.session p .pegin kind req ∧ d''.ctx = (kind.count d).ctx := by
  obtain ⟨leafHash, spk, v', sighash, hv, rfl, rfl, rfl⟩ :=
    countingBranch_puts (assertM_bind_puts (puts_get_bind.1 h)).2
  rw [hgi] at hv ⊢
  obtain ⟨-, leaf', hleaf', value, -, -, rfl, -⟩ := peginSigningInput_via.1 hv
  obtain rfl : leaf = leaf' := Option.some.inj (hleaf.symm.trans hleaf')
  exact ⟨⟨rfl, leaf, _, .pegin hx hfind hleaf, hstands, rfl, hkey⟩, rfl⟩

theorem signNopayout_puts (h : (signNopayout E st).Puts p.AllowsDev d (.yield kind req) d'')
    (hkey : DepositorKey E d.intent)
    (hci : d.tr.nopayoutChallengerIndex = ci) (hl : p.HasLeaf 0 cb script)
    (hfind : findChallenger d.intent (Buf.slice 32 script 35) = some ci)
    (hbuilt : vaultBuildNopayoutLeaf d.intent ci nopayoutLeafLen = some script) :
    IsMeant E d.session p .nopayout kind req ∧ d''.ctx = (kind.count d).ctx := by
  obtain ⟨leafHash, spk, v', sighash, hv, rfl, rfl, rfl⟩ := countingBranch_puts (puts_get_bind.1 h)
  rw [hci] at hv ⊢
  obtain ⟨cb', script', hleaf, -, -, -, -, rfl, -⟩ := nopayoutSigningInput_via.1 hv
  obtain ⟨rfl, rfl⟩ := hl.unique (LeafRead.hasLeaf hleaf).2
  exact ⟨⟨rfl, script, _, .nopayout hl hfind hbuilt, hl.stands, rfl, hkey⟩, rfl⟩

theorem signPayout_puts (h : (signPayout E st).Puts p.AllowsDev d (.yield kind req) d'')
    (hkey : DepositorKey E d.intent) (hgi : d.tr.vaultGroupIndex = gi)
    (hci : d.tr.payoutIndex = ci) (hfind : findPeginGroup E d.intent (p.prevTxid 0) = some gi)
    (hl : p.HasLeaf 1 cb script) (hclaimer : findClaimer d.intent gi (Buf.slice 32 script 1) = some ci)
    (hbuilt : vaultBuildAssert0PayoutLeaf d.intent gi ci scriptMaxLen = some script)
    (hleaf : vaultBuildVaultUtxoLeaf d.intent gi scriptMaxLen = some leaf)
    (hstands : p.LeafStands 0 leaf) :
    IsMeant E d.session p .payout kind req ∧ d''.ctx = (kind.count d).ctx := by
  obtain ⟨leafHash, spk, v', sighash, hv, rfl, rfl, rfl⟩ := countingBranch_puts (puts_get_bind.1 h)
  rw [hgi] at hv
  rw [hgi, hci]
  obtain ⟨-, leaf', hleaf', value, -, -, rfl, -⟩ := payoutSigningInput_via.1 hv
  obtain rfl : leaf = leaf' := Option.some.inj (hleaf.symm.trans hleaf')
  exact ⟨⟨rfl, leaf, _, .payout hfind hl hclaimer hbuilt hleaf, hstands, rfl, hkey⟩, rfl⟩

theorem own_puts (hF : F.OwnKey) (h : (F.branch E st).Puts p.AllowsDev d (.yield kind req) d'') :
    IsMeant E d.session p F kind req ∧ d''.ctx = (kind.count d).ctx := by
  obtain ⟨i, cb, script, v', hi, ⟨hleaf, rfl, hkey, hhash, -⟩, rfl, rfl⟩ := branch_puts_own hF h
  have hl := (LeafRead.hasLeaf hleaf).2
  obtain ⟨_, pk, -, -, -, hpk, hx⟩ := hkey
  exact ⟨⟨hi, script, _, .own hF hi hl, hl.stands, hhash, pk, hpk, hx⟩, rfl⟩

/-- What the signer asks for after a PSBT was accepted. -/
theorem branch_sound (hkey : d.ctx.state = .intentLoaded → DepositorKey E d.intent)
    (hacc : Accepted E st d.session p.Allows v F v') {v₁ : Volatile}
    (hval : Validated E st d.session p.Allows v₁ F)
    (h : (F.branch E st).Puts p.AllowsDev (acceptedDevice d F junk v') (.yield kind req) d'') :
    IsMeant E d.session p F kind req ∧
      d''.ctx = (kind.count (acceptedDevice d F junk v')).ctx := by
  cases hacc with
  | pop | prepegin => exact (puts_ret rfl h).elim
  | @pegin gi _ ha =>
    cases hval with
    | pegin hrun =>
      obtain ⟨gi', leaf, x, hx, hfind, hleaf, hstands⟩ := validatePegin_leaf hrun
      obtain ⟨x', hx', -, hfind'⟩ := ha.found
      obtain rfl : x = x' := by
        have := hx.symm.trans (Psbt.field_eq hx')
        exact (FieldStatus.present.inj this)
      obtain rfl : gi = gi' := Option.some.inj (hfind'.symm.trans hfind)
      exact signPegin_puts h (hkey ha.loaded) rfl hx hfind hleaf hstands
  | nopayout _ _ ha =>
    exact signNopayout_puts h (hkey ha.loaded) rfl ha.leaf.hasLeaf.2 ha.challenger ha.built
  | @payout gi ci _ _ _ _ ha =>
    cases hval with
    | payout hrun =>
      obtain ⟨gi', leaf, hfind, hleaf, hstands⟩ := validatePayout_leaf hrun
      obtain ⟨txid, htxid, hfind'⟩ := ha.found
      rw [← Psbt.prevTxid_eq htxid] at hfind'
      obtain rfl : gi = gi' := Option.some.inj (hfind'.symm.trans hfind)
      exact signPayout_puts h (hkey ha.loaded) rfl rfl hfind ha.leaf.hasLeaf.2 ha.claimer ha.built
        hleaf hstands
  | payoutFinalize => exact own_puts (.inr rfl) h
  | leaf hF =>
    have hne : F ≠ .prepegin := by rintro rfl; exact Bool.noConfusion hF
    have hown := own_puts (.inl hF) h
    rwa [(acceptedDevice_session hne).1] at hown

/-! ## The slot -/

/-- A signature is asked for where its slot is free; one that is counted, with the depositor's
    path. -/
theorem branch_puts_slot {H : ∀ q, devIface.Ans q → Prop} (hacc : Accepted E st d.session G v F v')
    (h : (F.branch E st).Puts H (acceptedDevice d F junk v') (.yield kind req) d'') :
    kind.Free d ∧ (kind = .standalone ∨ req.path = d.intent.depositorPath.toList) := by
  have hown : F.OwnKey → kind.Free d ∧ (kind = .standalone ∨
      req.path = d.intent.depositorPath.toList) := by
    intro hF
    obtain ⟨_, _, _, _, -, -, rfl, -⟩ := branch_puts_own hF h
    exact ⟨trivial, .inl rfl⟩
  cases hacc with
  | pop | prepegin => exact (puts_ret rfl h).elim
  | @pegin gi _ ha =>
    obtain ⟨_, hin, -⟩ := ha.inOut
    obtain ⟨_, _, _, _, -, rfl, rfl, -⟩ :=
      countingBranch_puts (assertM_bind_puts (puts_get_bind.1 h)).2
    exact ⟨⟨ha.loaded, hin.group, ha.fresh⟩, .inr rfl⟩
  | nopayout _ _ ha =>
    obtain ⟨_, _, _, _, -, rfl, rfl, -⟩ := countingBranch_puts (puts_get_bind.1 h)
    exact ⟨⟨ha.loaded, not_le.1 ha.cap⟩, .inr rfl⟩
  | payout _ _ ha =>
    obtain ⟨txid, -, hfind⟩ := ha.found
    obtain ⟨_, _, _, _, -, rfl, rfl, -⟩ := countingBranch_puts (puts_get_bind.1 h)
    exact ⟨⟨ha.loaded, findPeginGroup_lt hfind, findClaimer_le ha.claimer, ha.fresh⟩, .inr rfl⟩
  | payoutFinalize => exact hown (.inr rfl)
  | leaf hF => exact hown (.inl hF)

/-- Counting looks at the session alone. -/
theorem SigKind.count_ctx {d₁ : Device} (h : d₁.session = d.session) :
    (kind.count d₁).ctx = (kind.count d).ctx := by
  obtain ⟨hctx, hint⟩ := Session.mk.inj h
  cases kind <;> simp only [SigKind.count, countPegin, countPayout, countNopayout, id, hctx, hint]

/-- Counting a signature takes its slot. -/
theorem SigKind.Free.takes (hf : kind.Free d)
    (hok : d.ctx.state = .intentLoaded → CountersOk d.ctx d.intent ∧ ScalarsOk E.network d.intent) :
    kind.Takes d.intent d.ctx (kind.count d).ctx := by
  cases kind with
  | standalone => rfl
  | nopayout ci => exact ⟨hf.2, rfl⟩
  | pegin gi =>
    obtain ⟨hl, hg, hbit⟩ := hf
    obtain ⟨hc, hs⟩ := hok hl
    exact ⟨hbit, bit_setBit (hc.pegin_lt hs hg), rfl⟩
  | payout gi ci =>
    obtain ⟨hl, hg, hci, hbit⟩ := hf
    obtain ⟨hc, hs⟩ := hok hl
    exact ⟨hbit, bit_setBit (hc.payout_lt hs hg hci), rfl⟩

/-! ## One signature -/

theorem findChallenger_spec {it : VaultIntent} {key : Bytes32} (h : findChallenger it key = some ci) :
    ci < it.keeperCount + it.challengerCount ∧ challengerPk it ci = key := by
  unfold findChallenger at h
  exact ⟨List.mem_range.1 (List.mem_of_find?_eq_some h), by simpa using List.find?_some h⟩

/-- A PayoutFinalize has Input 1 signed. -/
theorem branch_finalize (junk : DeriveCtx) {ans : Answers} (hans : p.SignsWith ans)
    (hint : st.internalInputs 0 = false)
    (hacc : Accepted E st d.session p.Allows v .payoutFinalize v') : ∃ path leafHash sighash,
    signatures ((Flow.payoutFinalize.branch E st).asked ans
      (acceptedDevice d .payoutFinalize junk v')) =
        [(.standalone, ⟨1, path, leafHash, sighashDefault, sighash⟩)] := by
  cases hacc with
  | leaf hF => exact Bool.noConfusion hF
  | payoutFinalize _ _ _ _ hin hshape =>
    obtain ⟨value, spk, hutxo, -⟩ := hin.utxo
    have hassert : assertM (st.internalInputs 0 = false) = pure () := if_pos hint
    have hb : Flow.payoutFinalize.branch E st = signLeaf E st finalizeLeafShape 1 := by
      show (assertM (st.internalInputs 0 = false) >>= fun _ => _) = _
      rw [hassert]
      rfl
    rw [hb]
    obtain ⟨sighash, hs⟩ := hans.sighash 1 spk _ sighashDefault
    exact ⟨_, _, sighash, signatures_signLeaf (d := acceptedDevice d .payoutFinalize junk _) hans
      (leafSigningInput_via.2
        ⟨_, _, hin.leaf.serves, hshape, ⟨value, hutxo.serves⟩, hin.key.serves, rfl, rfl⟩) hs⟩

/-- A leaf flow has Input 0 signed, with the path of the leaf's key. -/
theorem branch_leaf (junk : DeriveCtx) {ans : Answers} (hF : F.ofLeaf = true)
    (hans : p.SignsWith ans)
    (hflow : LeafFlow E st d.session p.Allows v v') : ∃ cb script path sighash,
    LeafInput E st p.Allows 0 cb script path ∧
      signatures ((F.branch E st).asked ans (acceptedDevice d F junk v')) =
        [(.standalone, ⟨0, path, vaultTaprootLeafHash E script, sighashDefault, sighash⟩)] := by
  obtain ⟨-, cb, script, path, hin, hshape, rfl⟩ := hflow
  obtain ⟨value, spk, hutxo, -⟩ := hin.utxo
  have hne : F ≠ .prepegin := by rintro rfl; exact Bool.noConfusion hF
  rw [Flow.branch_ofLeaf hF]
  obtain ⟨sighash, hs⟩ := hans.sighash 0 spk (vaultTaprootLeafHash E script) sighashDefault
  exact ⟨cb, script, path, sighash, hin, signatures_signLeaf hans (leafSigningInput_via.2
    ⟨cb, script, hin.leaf.serves, (acceptedDevice_session hne).1.symm ▸ hshape,
      ⟨value, hutxo.serves⟩, hin.key.serves, rfl, rfl⟩) hs⟩

/-- The reads of the validator are enough for the signer. -/
theorem branch_once {ans : Answers} (hans : p.SignsWith ans)
    (hpol : st.hasNoWalletPolicy = true → st.internalInputs 0 = false)
    (hacc : Accepted E st d.session p.Allows v F v') :
    (signatures ((F.branch E st).asked ans (acceptedDevice d F junk v'))).length =
      if F.signedInput.isSome then 1 else 0 := by
  have hone {qs : List DevAsk} (h : ∃ sig, signatures qs = [sig]) : (signatures qs).length = 1 := by
    obtain ⟨sig, hs⟩ := h
    rw [hs]
    rfl
  cases hacc with
  | pop | prepegin => rfl
  | @pegin gi _ ha =>
    obtain ⟨value, hin, -⟩ := ha.inOut
    obtain ⟨leaf, hleaf⟩ := hin.leaf
    obtain ⟨spk, hspk, hutxo⟩ := hin.utxo
    have hassert : assertM (gi < d.intent.vaultCount) = pure () := if_pos hin.group
    have hmap : p.Serves (.map .input st.nInputs 0) true := by
      rw [ha.nInputs]
      exact Psbt.serves_map ha.map
    refine hone ?_
    show ∃ sig, signatures ((assertM (gi < d.intent.vaultCount) >>= _).asked ans _) = _
    rw [hassert]
    exact signatures_countingBranch hans (peginSigningInput_via.2
      ⟨hmap, leaf, hleaf, value, hspk, hutxo.serves, rfl, rfl⟩)
  | nopayout _ _ ha =>
    obtain ⟨hci, hkey⟩ := findChallenger_spec ha.challenger
    obtain ⟨value, ⟨spk, hutxo, -⟩, -, -⟩ := ha.value
    exact hone (signatures_countingBranch hans (nopayoutSigningInput_via.2
      ⟨_, _, ha.leaf.serves, ha.shape, hci, hkey.symm, ⟨value, hutxo.serves⟩, rfl, rfl⟩))
  | payout _ _ ha =>
    obtain ⟨leaf, hleaf⟩ := ha.vault.leaf
    obtain ⟨spk, hspk, hutxo⟩ := ha.vault.utxo
    have hmap : p.Serves (.map .input st.nInputs 0) true := by
      rw [ha.nInputs]
      exact Psbt.serves_map ha.map
    exact hone (signatures_countingBranch hans (payoutSigningInput_via.2
      ⟨hmap, leaf, hleaf, _, hspk, hutxo.serves, rfl, rfl⟩))
  | payoutFinalize hver hnw hi ho hin hshape =>
    obtain ⟨_, _, _, hs⟩ := branch_finalize (d := d) junk hans (hpol hnw)
      (.payoutFinalize (v := v) hver hnw hi ho hin hshape)
    exact hone ⟨_, hs⟩
  | leaf hF _ hflow =>
    obtain ⟨_, _, _, _, -, hs⟩ := branch_leaf (d := d) junk hF hans hflow
    have hsome : F.signedInput = some 0 := by
      cases F <;> first | rfl | exact Bool.noConfusion hF
    rw [hsome]
    exact hone ⟨_, hs⟩

/-- After every accepted PSBT the signer signs what was validated. -/
theorem Reach.signer_agrees (h : Reach E ls d)
    (hpol : st.hasNoWalletPolicy = true → ∀ i, st.internalInputs i = false)
    (hv : (validateAndDisplayTransaction E st).Via p.AllowsDev d F d') :
    SignerAgrees E st p d F d' := by
  obtain ⟨-, junk, v', hacc, rfl⟩ := validateAndDisplayTransaction_via hv
  obtain ⟨v₁, hval⟩ := validateAndDisplayTransaction_validated hv
  constructor
  · rintro kind req d'' ⟨tr, hcut, hG⟩
    rw [signCustomInputs_accepted hacc] at hcut
    obtain ⟨hmeant, hctx⟩ := branch_sound (fun hl => ((h.session.loaded hl).intent).depositor) hacc
      hval ⟨tr, hcut, hG⟩
    have hne : F ≠ .prepegin := by
      rintro rfl
      cases hacc with
      | prepegin => exact puts_ret rfl ⟨tr, hcut, hG⟩
      | leaf hF => exact Bool.noConfusion hF
    have hsess : (acceptedDevice d F junk v').session = d.session := (acceptedDevice_session hne).1
    have hc : (acceptedDevice d F junk v').ctx = d.ctx := congrArg Session.ctx hsess
    have htakes := (branch_puts_slot hacc ⟨tr, hcut, hG⟩).1.takes fun hl =>
      ⟨(h.session.loaded hl).counters, (h.session.loaded hl).intent.scalars⟩
    refine ⟨hmeant, hctx, ?_⟩
    rw [hctx, SigKind.count_ctx hsess, hc]
    exact htakes
  · intro ans hans
    rw [signatures_accepted hacc]
    exact branch_once hans (fun hnw => hpol hnw 0) hacc

open Signet in
theorem signer_agrees_payout : SignerAgrees env (parsed payoutSmall 105000 99546) payoutSmall
    (loaded intent) .payout ((validateAndDisplayTransaction env (parsed payoutSmall 105000 99546)).eval
      (payoutSmall.answers (Buf.zero 32)) (loaded intent)).2 :=
  (reach_loaded intent).signer_agrees (fun _ _ => rfl)
    (via_of_eval (payoutSmall.answers_allows _) (by rw [loaded_intent]; decide +kernel))

end BabylonVault
