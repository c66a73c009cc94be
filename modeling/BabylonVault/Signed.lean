/-
  The flow behind a signature.

  * `Flow.pattern`: the shape of the leaves that a flow signs with their own key;
    `Validated.pattern`: its validator has checked it.
  * `Flow.Ran`: the flow whose validator has accepted in a run.
  * `SignatureCall`: a signature that a reachable device asks for, with the run up to there.
  * `SignedLeaf`: the leaf that it commits to, of the session or of the flow's own shape
    (`SignatureCall.signed_leaf`).
-/
import BabylonVault.Agreement
import BabylonVault.Spending

namespace BabylonVault
open Bytes Prog

variable {E : Env} {st : SignPsbtState} {s : Session} {p : Psbt} {F : Flow} {d d' d'' : Device}
  {ls : List Exchange} {v v' : Volatile} {i : ℕ} {cb script leaf : Bytes}
  {kind : SigKind} {req : SigRequest} {n : ℕ} {tr : List devIface.Event}

/-! ## The leaves of the flows that sign with the leaf's own key -/

/-- The shape of the leaves of a flow. -/
def Flow.pattern : Flow → Option LeafPattern
  | .claim | .reclaim => some .claim
  | .refund => some .refund
  | .payoutFinalize => some .payout
  | .assert => some .assert
  | .wc => some .wc
  | _ => none

/-- The leaf of input `i` has the shape `pat`. -/
def Psbt.LeafIs (p : Psbt) (i : ℕ) (pat : LeafPattern) : Prop :=
  ∃ cb script, p.HasLeaf i cb script ∧ pat.Matches script

theorem leafIs_of_read (h : LeafRead p.Allows n i cb script) {pat : LeafPattern}
    (hm : pat.Matches script) : p.LeafIs i pat := ⟨cb, script, (LeafRead.hasLeaf h).2, hm⟩

theorem claimLeaf_matches (hb : (leafMetaOf E s script).buffered = true) {key : Bytes32}
    (h : parseClaimLeafScript (tlsOf cb script).leafScript = some key) :
    LeafPattern.claim.Matches script := by
  rw [leafScript_of_buffered hb] at h
  exact Option.isSome_of_eq_some h

theorem validateDisplayWc_leaf (h : (validateDisplayWc E st s).Via p.Allows v () v') :
    p.LeafIs 0 .wc := by
  simp only [validateDisplayWc, check_bind, checkVersionLocktime_bind, readTapLeaf_bind,
    requireBufferedLeaf_bind] at h
  obtain ⟨-, -, cb, script, hleaf, hb, hwc, -⟩ := h
  exact leafIs_of_read hleaf hwc

theorem validateDisplayRefund_leaf (h : (validateDisplayRefund E st s).Via p.Allows v () v') :
    p.LeafIs 0 .refund := by
  simp only [validateDisplayRefund, check_bind, checkVersionLocktime_bind, getMap_bind,
    checkSighashType_bind, readWitnessUtxo_bind, readTapLeaf_bind, requireBufferedLeaf_bind,
    orReject_bind] at h
  obtain ⟨-, -, -, -, -, -, -, cb, script, hleaf, hb, r, hparse, -⟩ := h
  rw [leafScript_of_buffered hb] at hparse
  exact leafIs_of_read hleaf (Option.isSome_of_eq_some hparse)

theorem validateDisplayClaim_leaf (hleaf : LeafRead p.Allows st.nInputs 0 cb script)
    (h : (validateDisplayClaim E st (tlsOf cb script)).Via p.Allows
      { v with leaf := leafMetaOf E s script } () v') : p.LeafIs 0 .claim := by
  simp only [validateDisplayClaim, check_bind, checkVersionLocktime_bind, requireBufferedLeaf_bind,
    orReject_bind] at h
  obtain ⟨-, -, hb, key, hparse, -⟩ := h
  exact leafIs_of_read hleaf (claimLeaf_matches (E := E) (s := s) hb hparse)

theorem validateDisplayReclaim_leaf (hleaf : LeafRead p.Allows st.nInputs 0 cb script)
    (h : (validateDisplayReclaim E st (tlsOf cb script)).Via p.Allows
      { v with leaf := leafMetaOf E s script } () v') : p.LeafIs 0 .claim := by
  simp only [validateDisplayReclaim, check_bind, checkVersionLocktime_bind,
    requireBufferedLeaf_bind, orReject_bind] at h
  obtain ⟨-, -, hb, key, hparse, -⟩ := h
  exact leafIs_of_read hleaf (claimLeaf_matches (E := E) (s := s) hb hparse)

theorem validateDisplayPayoutFinalize_leaf
    (h : (validateDisplayPayoutFinalize E st s).Via p.Allows v () v') : p.LeafIs 1 .payout := by
  simp only [validateDisplayPayoutFinalize, via_modify_bind, check_bind, readFinalizeUtxo,
    checkVersionLocktime_bind, readTapLeaf_bind, requireBufferedLeaf_bind, orReject_bind] at h
  obtain ⟨-, cb, script, hleaf, hb, r, hparse, -⟩ := h
  rw [leafScript_of_buffered hb] at hparse
  exact leafIs_of_read hleaf (Option.isSome_of_eq_some hparse)

/-- The validator of a flow that signs with the leaf's own key has checked its shape. -/
theorem Validated.pattern {v₁ : Volatile} (hF : F.OwnKey) (hval : Validated E st s p.Allows v₁ F)
    (hacc : Accepted E st s p.Allows v F v') :
    ∃ pat, F.pattern = some pat ∧ ∀ i, F.signedInput = some i → p.LeafIs i pat := by
  have h0 : ∀ {pat}, p.LeafIs 0 pat → ∀ i, some 0 = some i → p.LeafIs i pat := by
    rintro pat h _ ⟨⟩
    exact h
  cases hval with
  | wc h => exact ⟨.wc, rfl, h0 (validateDisplayWc_leaf h)⟩
  | refund h => exact ⟨.refund, rfl, h0 (validateDisplayRefund_leaf h)⟩
  | claim hleaf h => exact ⟨.claim, rfl, h0 (validateDisplayClaim_leaf hleaf h)⟩
  | reclaim hleaf h => exact ⟨.claim, rfl, h0 (validateDisplayReclaim_leaf hleaf h)⟩
  | assert =>
    cases hacc with
    | leaf _ _ _ hassert =>
      obtain ⟨cb, script, ⟨hleaf, -, hshape⟩, -⟩ := hassert rfl
      exact ⟨.assert, rfl, h0 (leafIs_of_read hleaf hshape)⟩
  | payoutFinalize h =>
    refine ⟨.payout, rfl, ?_⟩
    rintro _ ⟨⟩
    exact validateDisplayPayoutFinalize_leaf h
  | pop | prepegin | pegin | nopayout | payout => rcases hF with hF | hF <;> cases hF

/-! ## Behind the validator -/

/-- A call that is made before anything is signed. -/
def DevAsk.Validates (q : DevAsk) : Prop := (∃ q', q = .read q') ∨ q = .scratch

theorem asks_validating {α : Type} {w : Session → V α} :
    Asks (fun q => ∃ q', q = DevAsk.read q') (validating w) := by
  intro d tr q d' hc
  obtain ⟨q', hq⟩ := validating_puts (H := fun _ _ => True) ⟨tr, hc, fun _ _ => trivial⟩
  exact ⟨q', hq.symm⟩

theorem asks_validate : Asks DevAsk.Validates (validateAndDisplayTransaction E st) := by
  refine asks_bind asks_get fun d => ?_
  split_ifs
  · exact asks_bind (asks_ret fun _ => rfl) fun _ => asks_stop
  · refine asks_bind (asks_bind (asks_ask (.inr rfl)) fun _ => asks_ret fun _ => rfl) fun _ => ?_
    refine asks_bind (fun _ _ _ _ hc => .inl (asks_validating hc)) fun F => ?_
    split_ifs
    · exact asks_bind (asks_ret fun _ => rfl) fun _ => asks_pure
    · exact asks_pure

/-- A call that signs: the base app's, or one of the signer's. -/
def DevAsk.Signs (q : DevAsk) : Prop := q = .walletInputs ∨ ∃ kind req, q = .yield kind req

/-- Nothing is signed before the validator has accepted. -/
theorem signPsbt_cut {q : DevAsk} (h : (signPsbt E st d).Cut tr q d'') (hq : q.Signs) :
    ∃ F d' tr₁ tr₂, (validateAndDisplayTransaction E st d).Path tr₁ (.ok F, d') ∧ tr = tr₁ ++ tr₂ ∧
      (tr₂ = [] ∧ q = .walletInputs ∨ ∃ a tr₃, tr₂ = ⟨.walletInputs, a⟩ :: tr₃ ∧
        (signCustomInputs E st d').Cut tr₃ q d'') := by
  have hne : ¬DevAsk.Validates q := by
    rcases hq with rfl | ⟨kind, req, rfl⟩ <;> (rintro (⟨_, h⟩ | h) <;> cases h)
  rcases Course.cut_bind.1 h with h | ⟨tr₁, ⟨r, d'⟩, tr₂, h₁, h₂, rfl⟩
  · exact absurd (asks_validate h) hne
  cases r with
  | error e => cases h₂
  | ok F =>
    refine ⟨F, d', tr₁, tr₂, h₁, rfl, ?_⟩
    cases h₂ with
    | here => exact .inl ⟨rfl, rfl⟩
    | later a h₂ =>
      refine .inr ⟨a, _, rfl, ?_⟩
      cases a with
      | true => cases h₂
      | false => exact h₂

/-- The validator of the flow has accepted in the run `tr` of a SIGN_PSBT. -/
def Flow.Ran (F : Flow) (E : Env) (st : SignPsbtState) (d : Device) (tr : List devIface.Event) :
    Prop :=
  ∃ tr₁ tr₂ d₁, tr = tr₁ ++ tr₂ ∧ (validateAndDisplayTransaction E st d).Path tr₁ (.ok F, d₁)

/-- One flow at most. -/
theorem Flow.Ran.unique {F' : Flow} (h : F.Ran E st d tr) (h' : F'.Ran E st d tr) : F = F' := by
  obtain ⟨tr₁, tr₂, d₁, rfl, hp⟩ := h
  obtain ⟨tr₁', tr₂', d₁', heq, hp'⟩ := h'
  rcases List.append_eq_append_iff.1 heq with ⟨rest, rfl, -⟩ | ⟨rest, rfl, -⟩
  · obtain ⟨-, hend⟩ := hp.unique hp'
    cases hend
    rfl
  · obtain ⟨-, hend⟩ := hp'.unique hp
    cases hend
    rfl

/-- What signs comes after the validator of a flow. -/
theorem signPsbt_ran {q : DevAsk} (hc : (signPsbt E st d).Cut tr q d'') (hq : q.Signs)
    (hG : ∀ e ∈ tr, p.AllowsDev e.1 e.2) : ∃ F d', F.Ran E st d tr ∧
      (validateAndDisplayTransaction E st).Via p.AllowsDev d F d' ∧ ∀ kind req, q = .yield kind req →
        (signCustomInputs E st).Puts p.AllowsDev d' (.yield kind req) d'' := by
  obtain ⟨F, d', tr₁, tr₂, hp, rfl, hrest⟩ := signPsbt_cut hc hq
  obtain ⟨hG₁, hG₂⟩ := List.forall_mem_append.1 hG
  refine ⟨F, d', ⟨tr₁, tr₂, d', rfl, hp⟩, ⟨tr₁, hp, hG₁⟩, ?_⟩
  rintro kind req rfl
  rcases hrest with ⟨-, hq⟩ | ⟨a, tr₃, rfl, hcut⟩
  · cases hq
  · exact ⟨tr₃, hcut, (List.forall_mem_cons.1 hG₂).2⟩

/-- A flow that does not sign with the leaf's own key needs a loaded intent. -/
theorem Accepted.loaded {G : Allow} (h : Accepted E st s G v F v') (hF : ¬F.OwnKey) (hpop : F ≠ .pop) :
    s.ctx.state = .intentLoaded := by
  cases h with
  | pop => exact absurd rfl hpop
  | pegin _ ha => exact ha.loaded
  | nopayout _ _ ha => exact ha.loaded
  | payout _ _ ha => exact ha.loaded
  | prepegin _ _ ha => exact ha.loaded
  | payoutFinalize => exact absurd (.inr rfl) hF
  | leaf hleaf => exact absurd (.inl hleaf) hF

/-- The signature that is asked for after a PSBT was accepted is the one meant. -/
theorem Reach.isMeant {ls : List Exchange} (h : Reach E ls d)
    (hv : (validateAndDisplayTransaction E st).Via p.AllowsDev d F d')
    (hs : (signCustomInputs E st).Puts p.AllowsDev d' (.yield kind req) d'') :
    IsMeant E d.session p F kind req := by
  obtain ⟨-, junk, v', hacc, rfl⟩ := validateAndDisplayTransaction_via hv
  obtain ⟨v₁, hval⟩ := validateAndDisplayTransaction_validated hv
  obtain ⟨tr, hcut, hG⟩ := hs
  rw [signCustomInputs_accepted hacc] at hcut
  exact (branch_sound (fun hl => ((h.session.loaded hl).intent).depositor) hacc hval
    ⟨tr, hcut, hG⟩).1

/-- A signature of the leaf that a flow is for, with the key in front of it. -/
structure SignsOwn (E : Env) (p : Psbt) (F : Flow) (req : SigRequest) (cb leaf : Bytes) : Prop where
  input : F.signedInput = some req.inputIndex
  stands : p.HasLeaf req.inputIndex cb leaf
  shape : ∃ pat, F.pattern = some pat ∧ pat.Matches leaf
  hash : req.leafHash = vaultTaprootLeafHash E leaf
  key : ∃ pk, E.pubkeyAt req.path = some pk ∧ xonly pk = Buf.slice 32 leaf 1

/-! ## Signatures -/

/-- A signature that a reachable device asks for, with the run of the request up to there
    and the PSBT that the host serves. -/
structure SignatureCall (E : Env) where
  st : SignPsbtState
  psbt : Psbt
  device : Device
  trace : List devIface.Event
  kind : SigKind
  req : SigRequest
  reach : ∃ ls, Reach E ls device
  cut : ∃ d', (signPsbt E st device).Cut trace (.yield kind req) d'
  served : ∀ e ∈ trace, psbt.AllowsDev e.1 e.2

/-- A signature that a reachable device may be asked for. -/
theorem SignatureCall.of_puts (h : Reach E ls d)
    (hs : (signPsbt E st).Puts p.AllowsDev d (.yield kind req) d'') : ∃ x : SignatureCall E,
      x.st = st ∧ x.psbt = p ∧ x.device = d ∧ x.kind = kind ∧ x.req = req := by
  obtain ⟨tr, hc, hG⟩ := hs
  exact ⟨⟨st, p, d, tr, kind, req, ⟨ls, h⟩, ⟨d'', hc⟩, hG⟩, rfl, rfl, rfl, rfl, rfl⟩

/-- The leaf that a signature bound to the intent is for. -/
def SigKind.leafCall (s : Session) : SigKind → Option LeafCall
  | .pegin gi => some (.htlc0 gi (s.hashlock gi))
  | .payout gi _ => some (.vaultUtxo gi)
  | .nopayout ci => some (.nopayout ci)
  | .standalone => none

/-- The flows that a leaf is signed in: the depositor's Claim and Reclaim spend one leaf. -/
def LeafCall.flows : LeafCall → List Flow
  | claim => [.claim, .reclaim]
  | htlc0 .. => [.pegin]
  | htlc1 => [.refund]
  | vaultUtxo _ => [.payout]
  | payout .. => [.payoutFinalize]
  | nopayout _ => [.nopayout]

/-- The leaf that a signature commits to: one of the loaded intent, or one that the flow has
    recognized, with the key that signs in front. -/
inductive SignedLeaf (x : SignatureCall E) (F : Flow) (leaf : Bytes) : Prop
  | bound {c : LeafCall} {m : ℕ} : x.device.ctx.state = .intentLoaded →
      x.kind.leafCall x.device.session = some c → F ∈ c.flows →
      c.build x.device.intent m = some leaf →
      x.req.path = x.device.intent.depositorPath.toList → SignedLeaf x F leaf
  | own {block : Bytes} : x.kind = .standalone → SignsOwn E x.psbt F x.req block leaf →
      SignedLeaf x F leaf

/-- Every signature that the device asks for commits to a leaf that stands in the PSBT, at the
    input that its flow signs. -/
theorem SignatureCall.signed_leaf (x : SignatureCall E) : ∃ F leaf, F.Ran E x.st x.device x.trace ∧
    F.signedInput = some x.req.inputIndex ∧ x.psbt.LeafStands x.req.inputIndex leaf ∧
    x.req.leafHash = vaultTaprootLeafHash E leaf ∧ SignedLeaf x F leaf := by
  obtain ⟨ls, hreach⟩ := x.reach
  obtain ⟨d'', hcut⟩ := x.cut
  obtain ⟨F, d', hran, hv, hput⟩ := signPsbt_ran hcut (.inr ⟨_, _, rfl⟩) x.served
  have hs := hput _ _ rfl
  obtain ⟨hin, leaf, key, hmeant, hstands, hhash, hpk⟩ := hreach.isMeant hv hs
  obtain ⟨-, junk, v', hacc, rfl⟩ := validateAndDisplayTransaction_via hv
  obtain ⟨v₁, hval⟩ := validateAndDisplayTransaction_validated hv
  have hpath : x.kind = .standalone ∨
      x.req.path = x.device.intent.depositorPath.toList := by
    obtain ⟨tr, hcut, hG⟩ := hs
    rw [signCustomInputs_accepted hacc] at hcut
    exact (branch_puts_slot hacc ⟨tr, hcut, hG⟩).2
  have hl : F = .pegin ∨ F = .nopayout ∨ F = .payout → x.device.ctx.state = .intentLoaded := by
    rintro (rfl | rfl | rfl) <;> exact hacc.loaded (by rintro (h | h) <;> cases h) (by decide)
  refine ⟨F, leaf, hran, hin, hstands, hhash, ?_⟩
  generalize hkind : x.kind = kind at hmeant hpath
  cases hmeant with
  | @pegin gi _ _ _ _ hb =>
    exact .bound (c := .htlc0 gi _) (hl (.inl rfl)) (by rw [hkind]; rfl) (List.mem_singleton.2 rfl) hb
      (hpath.resolve_left SigKind.noConfusion)
  | @nopayout ci _ _ _ _ hb =>
    exact .bound (c := .nopayout ci) (hl (.inr (.inl rfl))) (by rw [hkind]; rfl)
      (List.mem_singleton.2 rfl) hb (hpath.resolve_left SigKind.noConfusion)
  | @payout gi ci _ _ _ _ _ _ _ hb =>
    exact .bound (c := .vaultUtxo gi) (hl (.inr (.inr rfl))) (by rw [hkind]; rfl)
      (List.mem_singleton.2 rfl) hb (hpath.resolve_left SigKind.noConfusion)
  | own hF hi hleaf =>
    obtain ⟨pat, hpat, his⟩ := hval.pattern hF hacc
    obtain ⟨cb, leaf', hleaf', hm⟩ := his _ hin
    obtain rfl := Option.some.inj (hi.symm.trans hin)
    obtain ⟨rfl, rfl⟩ := hleaf.unique hleaf'
    exact .own hkind ⟨hin, hleaf, ⟨pat, hpat, hm⟩, hhash, hpk⟩

end BabylonVault
