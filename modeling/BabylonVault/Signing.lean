/-
  What a SIGN_PSBT can do.

  * `Mark`, `Runs`: every run of a handler, with the marks it has left so far.
  * `SameSession`: nothing but the transient state has changed.
  * `SignEnd`: every end of the request and every point at which the host may walk
    away (`signPsbt_runs`).
  * `signCustomInputs_run`: after a PSBT was accepted, the signer takes the branch of
    its flow.
-/
import BabylonVault.Accept.Dispatch
import BabylonVault.System

namespace BabylonVault
open Bytes Prog

/-- A signature that left the device. -/
abbrev Sig := SigKind × SigRequest

/-- What a call says about the progress of a SIGN_PSBT. -/
inductive Mark
  /-- The base app has begun to sign: the validator has accepted. -/
  | accepted
  | signature (x : Sig)

/-- The mark a call leaves. -/
def DevAsk.mark : DevAsk → Option Mark
  | .walletInputs => some .accepted
  | .yield kind r => some (.signature (kind, r))
  | _ => none

/-- The marks of the calls of a request. -/
def marks (qs : List DevAsk) : List Mark := qs.filterMap DevAsk.mark

theorem marks_append (qs rs : List DevAsk) : marks (qs ++ rs) = marks qs ++ marks rs :=
  List.filterMap_append

/-- Reading and showing leaves no mark. -/
theorem marks_reads (qs : List ReadAsk) : marks (qs.map readHom.ask) = [] := by
  induction qs with
  | nil => rfl
  | cons q qs ih => exact ih

/-! ## Runs with their marks -/

/-- Every run of `m` from `d`, with the marks `rel` left before: `C` holds wherever the
    host may walk away, counting the mark of that call, and `Q` holds at the end. -/
def Runs {α : Type} (C : List Mark → Device → Prop)
    (Q : List Mark → Except Stop α → Device → Prop) (m : M α) (rel : List Mark) (d : Device) : Prop :=
  ∀ qs, marks qs = rel → m.wp (fun qs (q : DevAsk) d' => q.hostBound = true → C (marks (qs ++ [q])) d')
    (fun qs => Q (marks qs)) qs d

namespace Runs
variable {α β : Type} {C : List Mark → Device → Prop} {Q : List Mark → Except Stop α → Device → Prop}
  {m : M α} {rel : List Mark} {d d' : Device}

theorem ret {r : Except Stop α} (h : m d = .ret (r, d')) (hQ : Q rel r d') : Runs C Q m rel d := by
  rintro qs rfl
  exact (wp_ret h).2 hQ

theorem bind {R : List Mark → Except Stop β → Device → Prop} {f : α → M β}
    (h : Runs C (fun rel => ends (fun a d' => Runs C R (f a) rel d') fun e d' =>
      R rel (.error e) d') m rel d) : Runs C R (m >>= f) rel d := by
  intro qs hqs
  refine wp_bind.2 (wp_mono (fun _ _ _ h => h) ?_ (h qs hqs))
  rintro qs (e | a) d' h
  · exact h
  · exact h qs rfl

theorem mono {P : List Mark → Except Stop α → Device → Prop} (h : Runs C P m rel d)
    (hPQ : ∀ rel r d', P rel r d' → Q rel r d') : Runs C Q m rel d :=
  fun qs hqs => wp_mono (fun _ _ _ h => h) (fun _ => hPQ _) (h qs hqs)

theorem ask (q : DevAsk) {Q : List Mark → Except Stop (devIface.Ans q) → Device → Prop}
    (hC : C (rel ++ marks [q]) d) (h : ∀ a, Q (rel ++ marks [q]) (.ok a) d) :
    Runs C Q (askM q) rel d := by
  rintro qs rfl
  rw [← marks_append] at hC h
  exact wp_ask.2 ⟨fun _ => hC, h⟩

/-- A call that leaves no mark. -/
theorem call (q : DevAsk) {Q : List Mark → Except Stop (devIface.Ans q) → Device → Prop}
    (hq : q.mark = none) (hC : C rel d) (h : ∀ a, Q rel (.ok a) d) :
    Runs C Q (askM q) rel d := by
  have hr : rel ++ marks [q] = rel := by simp [marks, hq]
  refine ask q ?_ ?_ <;> rwa [hr]

theorem modify_bind {R : List Mark → Except Stop β → Device → Prop} {g : Device → Device}
    {f : Unit → M β} (h : Runs C R (f ()) rel (g d)) : Runs C R (Prog.modify g >>= f) rel d :=
  bind (ret rfl h)

theorem get_bind {R : List Mark → Except Stop β → Device → Prop} {f : Device → M β}
    (h : Runs C R (f d) rel d) : Runs C R (Prog.get >>= f) rel d := bind (ret rfl h)

theorem ite {c : Prop} [Decidable c] {n : M α} (hm : c → Runs C Q m rel d)
    (hn : ¬c → Runs C Q n rel d) : Runs C Q (if c then m else n) rel d := by
  split_ifs with h
  · exact hm h
  · exact hn h

/-- A handler that wipes the session on every failure. -/
theorem wiping (h : Runs C (fun rel => ends (fun a d' => Q rel (.ok a) d') fun e d' =>
    Q rel (.error e) (vaultContextInvalidate d')) m rel d) :
    Runs C Q (BabylonVault.wiping m) rel d := by
  intro qs hqs
  refine wp_onError (wp_mono (fun _ _ _ h => h) ?_ (h qs hqs))
  rintro qs (e | a) d' h <;> exact h

/-- A validator leaves no mark and writes the volatile state only. -/
theorem validating {w : Session → V α} {X : Stop → Prop} {P : Volatile → Prop}
    (hk : Keeps X P (w d.session)) (hP : P d.volatile) (hC : ∀ v', P v' → C rel (d.setVolatile v'))
    (hok : ∀ a v', P v' → (w d.session).Via (fun _ _ => True) d.volatile a v' →
      Q rel (.ok a) (d.setVolatile v'))
    (herr : ∀ e v', P v' → X e → Q rel (.error e) (settleStop e (d.setVolatile v'))) :
    Runs C Q (BabylonVault.validating w) rel d := by
  rintro qs rfl
  have hw : (w d.session).wp (fun _ _ v' => P v') (fun _ r v' => (P v' ∧ ∀ e, r = .error e → X e) ∧
      ∀ a, r = .ok a → (w d.session).Via (fun _ _ => True) d.volatile a v') [] d.volatile := by
    refine wp_of_path (fun tr q v' hc => ?_) fun tr r v' hp => ⟨?_, ?_⟩
    · exact Course.wp_cut (hk [] _ hP) hc
    · exact Course.wp_path (hk [] _ hP) hp
    · rintro a rfl
      exact ⟨tr, hp, by simp⟩
  refine wp_onError (wp_embed hw ?_ ?_)
  · intro rs q v' hv' _
    have hr : marks (qs ++ rs.map readHom.ask ++ [readHom.ask q]) = marks qs := by
      rw [marks_append, marks_append, marks_reads]
      simp [marks, readHom, DevAsk.mark]
    rw [hr]
    exact hC v' hv'
  · rintro rs r v' ⟨⟨hv', he⟩, hvia⟩
    have hr : marks (qs ++ rs.map readHom.ask) = marks qs := by
      rw [marks_append, marks_reads, List.append_nil]
    rcases r with e | a
    · show Q (marks _) _ _
      rw [hr]
      exact herr e v' hv' (he e rfl)
    · show Q (marks _) _ _
      rw [hr]
      exact hok a v' hv' (hvia a rfl)

end Runs

/-! ## The branch of a flow -/

variable {E : Env} {st : SignPsbtState} {s : Session} {G : Allow} {v v' : Volatile} {F : Flow}

/-- The branch of the signer that is meant for a flow. -/
def Flow.branch (E : Env) (st : SignPsbtState) : Flow → M Unit
  | .pop | .prepegin => pure ()
  | .pegin => signPegin E st
  | .nopayout => signNopayout E st
  | .payout => signPayout E st
  | .payoutFinalize => signPayoutFinalize E st
  | .wc | .claim | .reclaim | .assert | .refund => signStandalone E st

theorem Flow.branch_ofLeaf (hF : F.ofLeaf = true) : F.branch E st = signStandalone E st := by
  cases F <;> first | rfl | exact Bool.noConfusion hF

/-- After a PSBT was accepted, the signer takes the branch of its flow. -/
theorem signCustomInputs_run {d : Device} (h : Accepted E st s G v F v')
    (hs : d.ctx.state = s.ctx.state) (htr : d.tr = v'.tr) :
    signCustomInputs E st d = F.branch E st d := by
  rw [signCustomInputs, get_bind_run, hs, htr]
  cases h with
  | pop hv hi ho => simp [hv, hi, ho, assertM, Flow.branch]
  | pegin hnw ha =>
    have hv : st.txVersion ≠ 0 := by rw [ha.version]; decide
    simp [hv, ha.loaded, hnw, ha.nInputs, ha.nOutputs, Flow.branch]
  | nopayout hv hnw ha =>
    simp [hv, ha.loaded, hnw, ha.nInputs, ha.nOutputs, signPayoutOrNopayout, Flow.branch]
  | payout hv hnw ha =>
    simp [hv, ha.loaded, hnw, ha.nInputs, signPayoutOrNopayout, Flow.branch]
  | prepegin hv hi ha => simp [hv, ha.policy, hi, Flow.branch]
  | payoutFinalize hv hnw hi ho => simp [hv, hnw, hi, ho, Flow.branch]
  | leaf hF hr hflow =>
    obtain ⟨_, _, _, _, _, _, rfl⟩ := hflow
    rw [Flow.branch_ofLeaf hF, if_neg hr.version, if_neg, if_neg, if_neg, if_neg]
    · exact hr.finalize
    · simpa using hr.prepegin
    · rintro ⟨hl, hnw, h3 | ⟨h2, -⟩⟩
      · exact hr.payout ⟨hl, hnw, .inl h3⟩
      · exact hr.payout ⟨hl, hnw, .inr h2⟩
    · exact fun hc => hr.pegin hc.2

theorem signCustomInputs_accepted {d : Device} {junk : DeriveCtx}
    (h : Accepted E st d.session G v F v') : signCustomInputs E st (acceptedDevice d F junk v') =
      F.branch E st (acceptedDevice d F junk v') :=
  signCustomInputs_run h acceptedDevice_state (acceptedDevice_tr ..)

/-! ## The ends of the request -/

/-- Nothing but the transient state has changed, and of that not the group counter of
    a load. -/
structure SameSession (d d' : Device) : Prop where
  ctx : d'.ctx = d.ctx
  intent : d'.intent = d.intent
  approve : d'.approve = d.approve
  group : d.ctx.state ≠ .intentLoaded → d'.tr.vaultGroupIndex = d.tr.vaultGroupIndex
  stream : d'.streaming.streamingInProgress = false

/-- What a signature of this kind counts, before it leaves the device. -/
def SigKind.count : SigKind → Device → Device
  | .pegin gi => countPegin gi
  | .payout gi ci => countPayout gi ci
  | .nopayout _ => countNopayout
  | .standalone => id

/-- The intent has a slot left for a signature of this kind. -/
def SigKind.Free (d : Device) : SigKind → Prop
  | .pegin gi => d.ctx.state = .intentLoaded ∧ gi < d.intent.vaultCount ∧
      bit d.ctx.peginGroupMask gi = false
  | .payout gi ci => d.ctx.state = .intentLoaded ∧ gi < d.intent.vaultCount ∧
      ci ≤ d.intent.keeperCount + 1 ∧
      bit d.ctx.payoutClaimerMask (payoutSlot d.intent gi ci) = false
  | .nopayout _ => d.ctx.state = .intentLoaded ∧ d.ctx.nopayoutSigned <
      d.intent.vaultCount * (d.intent.keeperCount + d.intent.challengerCount)
  | .standalone => True

/-- The shape the dispatcher gives to the Pre-PegIn flow. -/
def PrepeginShape (st : SignPsbtState) : Prop :=
  st.txVersion ≠ 0 ∧ st.hasNoWalletPolicy = false ∧ st.internalInputs 0 = true

/-- A PSBT of this shape is accepted by the Pre-PegIn flow or not at all. -/
theorem Accepted.prepegin_iff (h : Accepted E st s G v F v') : F = .prepegin ↔ PrepeginShape st := by
  unfold PrepeginShape
  cases h with
  | pop hv => simp [hv]
  | pegin hnw => simp [hnw]
  | nopayout _ hnw => simp [hnw]
  | payout _ hnw => simp [hnw]
  | prepegin hv hi ha => simp [hv, hi, ha.policy]
  | payoutFinalize _ hnw => simp [hnw]
  | leaf hF hr =>
    refine iff_of_false ?_ fun hc => hr.prepegin hc.2
    rintro rfl
    exact Bool.noConfusion hF

/-- The marks of a request that has released nothing. -/
def Unsigned (st : SignPsbtState) (mk : List Mark) : Prop :=
  mk = [] ∨ mk = [.accepted] ∧ ¬PrepeginShape st

/-- The base app has found Input 0 to be one of the wallet, without a policy: its signer
    asserts that this does not happen. -/
def InternalUnpolicied (st : SignPsbtState) : Prop :=
  st.hasNoWalletPolicy = true ∧ st.internalInputs 0 = true

variable (E st) in
/-- The ends of a SIGN_PSBT, and with no result the points at which the host may walk
    away: the marks left, and the device. Only the flows without a counter keep the
    session when the signature does not get through, and only in a loaded session does a
    failure wipe. -/
inductive SignEnd (d : Device) : List Mark → Option (Except Stop Unit) → Device → Prop
  | kept {mk r d'} : Unsigned st mk → (∀ sw, r ≠ some (.error (.wipe sw))) → SameSession d d' →
      SignEnd d mk r d'
  | prepegin {r d₁} : PrepeginShape st → PrepeginAccepted E st d.session (fun _ _ => True) →
      (∀ e, r = some (.error e) → e = .callee) → SameSession d d₁ →
      SignEnd d [.accepted] r (countPrepegin d₁)
  | signed {kind req r d₁} : ¬PrepeginShape st → kind.Free d → SameSession d d₁ →
      (∀ e, r = some (.error e) → kind = .standalone ∧ e = .callee) →
      SignEnd d [.accepted, .signature (kind, req)] r (kind.count d₁)
  | wiped {mk e d₁} : (Unsigned st mk ∨ ¬PrepeginShape st ∧ ∃ kind req,
        mk = [.accepted, .signature (kind, req)] ∧ kind.Free d ∧ e = .callee) →
      d₁.streaming.streamingInProgress = false → d.ctx.state = .intentLoaded →
      SignEnd d mk (some (.error e)) (vaultContextInvalidate d₁)
  | restarted {mk} : Unsigned st mk → (d.ctx.state ≠ .intentLoaded → InternalUnpolicied st) →
      SignEnd d mk (some (.error .restart)) Device.boot

variable {d d₁ : Device} {mk : List Mark}

theorem SameSession.setVolatile (h : SameSession d d₁) (hv : v.tr = d₁.tr) :
    SameSession d (d₁.setVolatile v) :=
  ⟨h.ctx, h.intent, h.approve, fun hs => (congrArg _ hv).trans (h.group hs), h.stream⟩

/-- A validator that fails has kept the session, wiped it or restarted. -/
theorem SignEnd.settle {e : Stop} (hm : Unsigned st mk) (h : SameSession d d₁)
    (he : d.ctx.state ≠ .intentLoaded → IsReject e) :
    SignEnd E st d mk (some (.error e)) (settleStop e d₁) := by
  have hloaded : ¬IsReject e → d.ctx.state = .intentLoaded := fun hn => not_not.1 (mt he hn)
  cases e with
  | reject => exact .kept hm (by simp) h
  | callee => exact .kept hm (by simp) h
  | wipe => exact .wiped (.inl hm) h.stream (hloaded (by simp [IsReject]))
  | restart => exact .restarted hm fun hs => absurd (hloaded (by simp [IsReject])) hs

theorem settleStop_stream {e : Stop} (h : d.streaming.streamingInProgress = false) :
    (settleStop e d).streaming.streamingInProgress = false := by
  cases e <;> first | exact h | rfl

/-! ## The signer -/

/-- The common tail, for a signature that has a slot. -/
theorem signAndYield_runs (kind : SigKind) {input : ℕ} {path : List UInt32} {leafHash : Bytes32}
    {spk : Bytes} {C : List Mark → Device → Prop} {Q : List Mark → Except Stop Unit → Device → Prop}
    (h0 : C mk d₁) (h1 : ∀ req, C (mk ++ [.signature (kind, req)]) (kind.count d₁))
    (hfail : Q mk (.error .callee) d₁)
    (hsent : ∀ req, Q (mk ++ [.signature (kind, req)]) (.error .callee) (kind.count d₁))
    (hok : ∀ req, Q (mk ++ [.signature (kind, req)]) (.ok ()) (kind.count d₁)) :
    Runs C Q (signAndYield kind input path leafHash spk kind.count) mk d₁ := by
  refine .bind (.bind (.call (.sighash ..) rfl h0 ?_))
  rintro (_ | sighash) <;> show Runs _ _ _ _ _
  · exact .ret rfl hfail
  · refine .ret rfl (.modify_bind (.bind (.ask (.yield ..) (h1 _) ?_)))
    rintro (_ | _) <;> show Runs _ _ _ _ _
    · exact .ret rfl (hsent _)
    · exact .ret rfl (hok _)

attribute [local simp] steady_bind steady_pure

section Steady
variable {X : Stop → Prop} [Rejects X] {S : Volatile → Volatile → Prop}

theorem steady_readExpectedUtxo {m : MapRef} {spk : Bytes} : Steady X S (readExpectedUtxo m spk) := by
  simp [readExpectedUtxo]

theorem steady_readAnyUtxo {m : MapRef} : Steady X S (readAnyUtxo m) := by simp [readAnyUtxo]

theorem steady_peginSigningInput {gi : ℕ} : Steady X S (peginSigningInput E st gi s) := by
  unfold peginSigningInput
  repeat refine steady_bind (by simp [steady_readExpectedUtxo]) fun _ => ?_
  simp

theorem steady_payoutSigningInput {gi : ℕ} : Steady X S (payoutSigningInput E st gi s) := by
  unfold payoutSigningInput
  repeat refine steady_bind (by simp [steady_readExpectedUtxo]) fun _ => ?_
  simp

theorem steady_nopayoutSigningInput (hB : LeafBlind S) {ci : ℕ} :
    Steady X S (nopayoutSigningInput E st ci s) := by
  refine steady_readTapLeaf_bind hB fun _ => ?_
  repeat refine steady_bind (by
    simp [steady_requireBufferedLeaf leafSame_sameLeaf, steady_readAnyUtxo]) fun _ => ?_
  simp

theorem steady_leafSigningInput (hB : LeafBlind S) {idx : ℕ} {shape : ℕ → LeafMeta → Bool} :
    Steady X S (leafSigningInput E st shape idx s) := by
  refine steady_readTapLeaf_bind hB fun _ => ?_
  repeat refine steady_bind (by
    simp [steady_leafMeta leafSame_sameLeaf, steady_readAnyUtxo]) fun _ => ?_
  simp

end Steady

/-- A branch that counts: it wipes the session on every failure. -/
theorem countingBranch_runs {w : Session → V (Bytes32 × Bytes)} (kind : SigKind)
    {path : List UInt32} (hk : Keeps AnyStop (fun v => v.tr = d₁.tr) (w d₁.session))
    (hst : d.ctx.state = .intentLoaded) (hshape : ¬PrepeginShape st) (hfree : kind.Free d) (hd : SameSession d d₁) :
    Runs (fun mk => SignEnd E st d mk none) (fun mk r => SignEnd E st d mk (some r))
      (wiping do
        let (leafHash, spk) ← validating w
        signAndYield kind 0 path leafHash spk kind.count) [.accepted] d₁ := by
  have hun : Unsigned st [.accepted] := .inr ⟨rfl, hshape⟩
  refine .wiping (.bind (.validating hk rfl ?_ ?_ ?_))
  · intro v' hv
    exact .kept hun (by simp) (hd.setVolatile hv)
  · rintro ⟨leafHash, spk⟩ v' hv -
    have hd' := hd.setVolatile hv
    have hcount : ∀ d₂, d₂.streaming.streamingInProgress = false →
        (kind.count d₂).streaming.streamingInProgress = false := fun d₂ h => by
      cases kind <;> exact h
    refine signAndYield_runs kind ?_ (fun req => ?_) ?_ (fun req => ?_) fun req => ?_
    · exact .kept hun (by simp) hd'
    · exact .signed hshape hfree hd' (by simp)
    · exact .wiped (.inl hun) hd'.stream hst
    · exact .wiped (.inr ⟨hshape, kind, req, rfl, hfree, rfl⟩) (hcount _ hd'.stream) hst
    · exact .signed hshape hfree hd' (by simp)
  · intro e v' hv _
    exact .wiped (.inl hun) (settleStop_stream (hd.setVolatile hv).stream) hst

/-- A branch that signs with the leaf's own key. -/
theorem signLeaf_runs {shape : ℕ → LeafMeta → Bool} {idx : ℕ} (hshape : ¬PrepeginShape st)
    (hd : SameSession d d₁) :
    Runs (fun mk => SignEnd E st d mk none) (fun mk r => SignEnd E st d mk (some r))
      (signLeaf E st shape idx) [.accepted] d₁ := by
  have hun : Unsigned st [.accepted] := .inr ⟨rfl, hshape⟩
  refine .bind (.validating (X := IsReject) (P := fun v => v.tr = d₁.tr)
    (steady_leafSigningInput (LeafFree.one fun _ _ h => h)).keeps rfl ?_ ?_ ?_)
  · intro v' hv
    exact .kept hun (by simp) (hd.setVolatile hv)
  · rintro ⟨leafHash, spk, path⟩ v' hv -
    have hd' := hd.setVolatile hv
    have hfree : SigKind.Free d .standalone := trivial
    refine signAndYield_runs .standalone ?_ (fun req => ?_) ?_ (fun req => ?_)
      fun req => ?_
    · exact .kept hun (by simp) hd'
    · exact .signed hshape hfree hd' (by simp)
    · exact .kept hun (by simp) hd'
    · exact .signed hshape hfree hd' (by simp)
    · exact .signed hshape hfree hd' (by simp)
  · intro e v' hv he
    exact .settle hun (hd.setVolatile hv) fun _ => he

/-! ## The request -/

theorem SameSession.refl (h : d.streaming.streamingInProgress = false) : SameSession d d :=
  ⟨rfl, rfl, rfl, fun _ => rfl, h⟩

/-- The device after an accepted PSBT that the base app has begun to sign. -/
theorem SignEnd.accepted {junk : DeriveCtx} {r : Option (Except Stop Unit)}
    (hs : d.streaming.streamingInProgress = false)
    (h : Accepted E st d.session (fun _ _ => True) d.volatile F v')
    (hg : d.ctx.state ≠ .intentLoaded → v'.tr.vaultGroupIndex = d.tr.vaultGroupIndex)
    (hr : ∀ e, r = some (.error e) → e = .callee) :
    SignEnd E st d [.accepted] r (acceptedDevice d F junk v') := by
  have hd : SameSession d (({ d with deriveCtx := junk } : Device).setVolatile v') :=
    ⟨rfl, rfl, rfl, hg, hs⟩
  have hshape := h.prepegin_iff
  unfold acceptedDevice
  split_ifs with hF
  · subst hF
    cases h with
    | prepegin _ _ ha => exact .prepegin (hshape.1 rfl) ha hr hd
    | leaf hF => exact Bool.noConfusion hF
  · refine .kept (.inr ⟨rfl, mt hshape.2 hF⟩) ?_ hd
    rintro sw rfl
    cases hr _ rfl

/-- The validator: it accepts, or the request ends. -/
theorem validateAndDisplayTransaction_runs :
    Runs (fun mk => SignEnd E st d mk none) (fun mk => ends
      (fun F d' => mk = [] ∧ d.streaming.streamingInProgress = false ∧ ∃ junk v',
        Accepted E st d.session (fun _ _ => True) d.volatile F v' ∧
        (d.ctx.state ≠ .intentLoaded → v'.tr.vaultGroupIndex = d.tr.vaultGroupIndex) ∧
        d' = acceptedDevice d F junk v')
      fun e => SignEnd E st d mk (some (.error e))) (validateAndDisplayTransaction E st) [] d := by
  have hun : Unsigned st [] := .inl rfl
  refine .get_bind (.ite (fun _ => ?_) fun hs => ?_)
  · exact .modify_bind (.ret rfl (.kept hun (by simp) ⟨rfl, rfl, rfl, fun _ => rfl, rfl⟩))
  have hs' : d.streaming.streamingInProgress = false := by simpa using hs
  refine .bind (.bind (.call .scratch rfl (.kept hun (by simp) (.refl hs')) fun junk => ?_))
  refine .ret rfl (.bind ?_)
  have hk : Keeps (fun e => d.ctx.state ≠ .intentLoaded → IsReject e)
      (fun v => d.ctx.state ≠ .intentLoaded → v.tr.vaultGroupIndex = d.tr.vaultGroupIndex)
      (dispatch E st d.session) := by
    by_cases hl : d.ctx.state = .intentLoaded
    · exact fun qs v _ => wp_of_path (fun _ _ _ _ h => absurd hl h) fun _ _ _ _ =>
        ⟨fun h => absurd hl h, fun _ _ h => absurd hl h⟩
    · exact fun qs v hv => wp_mono (fun _ _ _ h _ => h)
        (fun _ _ _ h => ⟨fun _ => h.1, fun e he _ => h.2 e he⟩)
        (dispatch_idle (s := d.session) hl qs v (hv hl))
  refine .validating (P := fun v => d.ctx.state ≠ .intentLoaded →
    v.tr.vaultGroupIndex = d.tr.vaultGroupIndex) hk (fun _ => rfl) ?_ ?_ ?_
  · exact fun v' hv => .kept hun (by simp) ⟨rfl, rfl, rfl, hv, hs'⟩
  · intro F v' hv hvia
    have hacc := dispatch_via hvia
    refine .ite (fun hF => .modify_bind (.ret rfl ?_)) fun hF => .ret rfl ?_
    · exact ⟨rfl, hs', junk, v', hacc, hv, by rw [acceptedDevice, if_pos hF]⟩
    · exact ⟨rfl, hs', junk, v', hacc, hv, by rw [acceptedDevice, if_neg hF]⟩
  · exact fun e v' hv he => .settle hun ⟨rfl, rfl, rfl, hv, hs'⟩ he

theorem findPeginGroup_lt {it : VaultIntent} {txid : Bytes32} {gi : ℕ}
    (h : findPeginGroup E it txid = some gi) : gi < it.vaultCount :=
  List.mem_range.1 (List.mem_of_find?_eq_some h)

theorem findClaimer_le {it : VaultIntent} {gi ci : ℕ} {key : Bytes32}
    (h : findClaimer it gi key = some ci) : ci ≤ it.keeperCount + 1 := by
  unfold findClaimer at h
  rcases hf : (List.range it.keeperCount).find? fun i => it.keeperPks.pick i = key with _ | i
  · simp only [hf] at h
    split_ifs at h <;> simp only [Option.some.injEq] at h <;> omega
  · have hi := List.mem_range.1 (List.mem_of_find?_eq_some hf)
    simp only [hf] at h
    split_ifs at h <;> simp only [Option.some.injEq] at h <;> omega

/-- The signer, after a PSBT was accepted. -/
theorem branch_runs {junk : DeriveCtx} (hs : d.streaming.streamingInProgress = false)
    (h : Accepted E st d.session (fun _ _ => True) d.volatile F v')
    (hg : d.ctx.state ≠ .intentLoaded → v'.tr.vaultGroupIndex = d.tr.vaultGroupIndex) :
    Runs (fun mk => SignEnd E st d mk none) (fun mk r => SignEnd E st d mk (some r))
      (F.branch E st) [.accepted] (acceptedDevice d F junk v') := by
  have hend : ∀ {r}, (∀ e, r = some (.error e) → e = .callee) →
      SignEnd E st d [.accepted] r (acceptedDevice d F junk v') := fun hr => .accepted hs h hg hr
  have hd : SameSession d (({ d with deriveCtx := junk } : Device).setVolatile v') :=
    ⟨rfl, rfl, rfl, hg, hs⟩
  have hshape := h.prepegin_iff
  cases h with
  | pop => exact .ret rfl (hend (by simp))
  | prepegin => exact .ret rfl (hend (by simp))
  | @pegin gi _ ha =>
    obtain ⟨_, hin, -⟩ := ha.inOut
    have hassert : assertM (gi < d.intent.vaultCount) = pure () := if_pos hin.group
    refine .get_bind (.bind (.ret (r := .ok ()) (congrFun hassert _) ?_))
    exact countingBranch_runs (.pegin gi) steady_peginSigningInput.keeps ha.loaded
      (mt hshape.2 (by decide)) ⟨ha.loaded, hin.group, ha.fresh⟩ hd
  | @nopayout ci _ _ _ _ ha =>
    exact .get_bind (countingBranch_runs (.nopayout ci)
      (steady_nopayoutSigningInput (LeafFree.one fun _ _ h => h)).keeps ha.loaded
      (mt hshape.2 (by decide))
      ⟨ha.loaded, not_le.1 ha.cap⟩ hd)
  | @payout gi ci _ _ _ _ ha =>
    obtain ⟨txid, -, hfind⟩ := ha.found
    exact .get_bind (countingBranch_runs (.payout gi ci) steady_payoutSigningInput.keeps
      ha.loaded (mt hshape.2 (by decide))
      ⟨ha.loaded, findPeginGroup_lt hfind, findClaimer_le ha.claimer, ha.fresh⟩ hd)
  | payoutFinalize _ hnw =>
    refine .bind ?_
    unfold assertM
    have hne := mt hshape.2 (by decide)
    refine .ite (fun _ => .ret rfl (signLeaf_runs hne hd)) fun hin => ?_
    exact .modify_bind (.ret rfl (.restarted (.inr ⟨rfl, hne⟩) fun _ => ⟨hnw, by simpa using hin⟩))
  | leaf hF =>
    rw [Flow.branch_ofLeaf hF]
    have hne : F ≠ .prepegin := by rintro rfl; exact Bool.noConfusion hF
    rw [acceptedDevice, if_neg hne]
    exact signLeaf_runs (mt hshape.2 hne) hd

/-- Every end of a SIGN_PSBT and every point at which the host may walk away. -/
theorem signPsbt_runs : Runs (fun mk => SignEnd E st d mk none)
    (fun mk r => SignEnd E st d mk (some r)) (signPsbt E st) [] d := by
  refine .bind (validateAndDisplayTransaction_runs.mono ?_)
  rintro mk (e | F) d' h
  · exact h
  · obtain ⟨rfl, hs, junk, v', hacc, hg, rfl⟩ := h
    have hend : ∀ {r}, (∀ e, r = some (.error e) → e = .callee) →
        SignEnd E st d [.accepted] r (acceptedDevice d F junk v') :=
      fun hr => .accepted hs hacc hg hr
    refine .bind (.ask .walletInputs (hend (by simp)) ?_)
    rintro (_ | _)
    · refine .bind (.ret (r := .ok ()) rfl ?_)
      intro qs hqs
      unfold Prog.wp
      rw [signCustomInputs_accepted hacc]
      exact branch_runs hs hacc hg qs hqs
    · exact .bind (.ret (r := .error .callee) rfl (hend (by simp)))

end BabylonVault
