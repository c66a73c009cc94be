/-
  The signatures of a session in any order.

  * `VaultContext.counted`: a session with the counters and masks of another.
  * `follows_dispatch`: a PSBT that the dispatcher accepts with some slots spent, it accepts
    with others spent, if there is room for its own; `signPsbt_recounted` is the same for
    the whole request.
  * `Live`, `Signs`: a loaded session, and a SIGN_PSBT on it that succeeds.
  * `Live.any_order`: the signatures of a session can be taken in any order.
  * `Live.fits_iff`: of requests that each succeed now, a session serves those that fit
    into its free slots, and no others.
-/
import BabylonVault.Chain
import BabylonVault.Leftovers

namespace BabylonVault
open Bytes Prog

variable {E : Env} {st : SignPsbtState} {s : Session} {v v' : Volatile} {c : VaultContext}

/-! ## Sessions that differ in what is spent -/

/-- The context with the counters and masks of `c`. -/
def VaultContext.counted (x c : VaultContext) : VaultContext :=
  { x with prePeginSigned := c.prePeginSigned, peginSigned := c.peginSigned,
           payoutSigned := c.payoutSigned, nopayoutSigned := c.nopayoutSigned,
           payoutClaimerMask := c.payoutClaimerMask, peginGroupMask := c.peginGroupMask }

def Session.counted (s : Session) (c : VaultContext) : Session := ⟨s.ctx.counted c, s.intent⟩

theorem readTapLeaf_counted {n idx : ℕ} :
    readTapLeaf E (s.counted c) n idx = readTapLeaf E s n idx := by
  have hscan := @scanKeys_congr E (s.counted c) s (.input idx) rfl
  simp only [readTapLeaf, hscan]

/-- The slot of a flow, as the indices in `tr` name it, is free. -/
def Flow.Room (s : Session) (tr : Transient) : Flow → Prop
  | .prepegin => s.ctx.prePeginSigned = 0
  | .pegin => bit s.ctx.peginGroupMask tr.vaultGroupIndex = false ∧
      s.ctx.peginSigned < s.intent.vaultCount
  | .payout => bit s.ctx.payoutClaimerMask
        (payoutSlot s.intent tr.vaultGroupIndex tr.payoutIndex) = false ∧
      s.ctx.payoutSigned < s.intent.vaultCount * (s.intent.keeperCount + 2)
  | .nopayout => s.ctx.nopayoutSigned <
      s.intent.vaultCount * (s.intent.keeperCount + s.intent.challengerCount)
  | _ => True

/-! ## The validators that count -/

/-- A check of a cap that has room. -/
theorem follows_checkCap {p q : Prop} [Decidable p] [Decidable q] {C : Unit → Volatile → Prop}
    {R : Volatile → Volatile → Prop} (hq : q) (hR : R v v') :
    Follows C R (checkCap p) (checkCap q) v v' := .require (fun _ => hq) hR

theorem follows_validatePegin : Follows (fun _ v' => Flow.pegin.Room (s.counted c) v'.tr) Eq
    (validatePegin E st s) (validatePegin E st (s.counted c)) v v := by
  unfold validatePegin
  iterate 6 refine .bind .refl fun _ _ _ ht => ht ▸ ?_
  refine .bind .refl fun gi _ _ ht => ht ▸ .modify_bind ?_
  -- From here on the group index stays what the room is asked for.
  let S (t t' : Volatile) : Prop := t = t' ∧ t.tr.vaultGroupIndex = gi
  refine .bind ((steady_peginValidateInput (S := S)).follows ⟨rfl, rfl⟩) fun _ t t' ht => ?_
  refine .bind ((steady_peginValidateOutputs (S := S)).follows ht) fun _ t t' ht => ?_
  obtain ⟨rfl, hgi⟩ := ht
  refine .of_end fun tr a v' hp hroom => ?_
  have hvia : Via (fun _ _ => True) _ t a v' := ⟨tr, hp, fun _ _ => trivial⟩
  simp only [checkCap_bind, checkCap_end] at hvia
  obtain ⟨-, -, rfl⟩ := hvia
  rw [Flow.Room, hgi] at hroom
  refine .bind (follows_checkCap hroom.1 rfl) fun _ _ _ ht => ht ▸ ?_
  exact follows_checkCap (not_le.2 hroom.2) rfl

theorem follows_validateNopayout : Follows (fun _ v' => Flow.nopayout.Room (s.counted c) v'.tr) Eq
    (validateNopayout E st s) (validateNopayout E st (s.counted c)) v v := by
  refine .of_end fun tr a v' hp hroom => ?_
  unfold validateNopayout
  rw [readTapLeaf_counted]
  iterate 7 refine .bind .refl fun _ _ _ ht => ht ▸ ?_
  refine .bind (follows_checkCap (not_le.2 hroom) rfl) fun _ _ _ ht => ht ▸ ?_
  exact .refl

theorem follows_validatePayout : Follows (fun _ v' => Flow.payout.Room (s.counted c) v'.tr) Eq
    (validatePayout E st s) (validatePayout E st (s.counted c)) v v := by
  unfold validatePayout
  rw [readTapLeaf_counted]
  iterate 5 refine .bind .refl fun _ _ _ ht => ht ▸ ?_
  refine .bind .refl fun gi _ _ ht => ht ▸ ?_
  iterate 2 refine .bind .refl fun _ _ _ ht => ht ▸ ?_
  refine .bind .refl fun ci _ _ ht => ht ▸ ?_
  refine .bind .refl fun _ t _ ht => ht ▸ .modify_bind ?_
  -- From here on both indices stay what the room is asked for.
  refine .of_keeps (X := AnyStop) (P := fun t => t.tr.vaultGroupIndex = gi ∧ t.tr.payoutIndex = ci)
    (Steady.keeps ?_) ⟨rfl, rfl⟩ fun _ v' hidx hroom => ?_
  · iterate 10 refine steady_bind (by simp [steady_payoutValidateInput0, steady_payoutValidateInput1,
      steady_payoutOutput0, steady_payoutOutput1, steady_payoutOutput2, steady_payoutFee]) fun _ => ?_
    refine steady_modify ?_
    rintro t _ ⟨rfl, ht⟩
    exact ⟨rfl, ht⟩
  rw [Flow.Room, hidx.1, hidx.2] at hroom
  refine .bind (follows_checkCap hroom.1 rfl) fun _ _ _ ht => ht ▸ ?_
  iterate 8 refine .bind .refl fun _ _ _ ht => ht ▸ ?_
  refine .bind (follows_checkCap (not_le.2 hroom.2) rfl) fun _ _ _ ht => ht ▸ ?_
  exact .refl

theorem follows_validatePrepegin : Follows (fun _ v' => Flow.prepegin.Room (s.counted c) v'.tr) Eq
    (validatePrepegin E st s) (validatePrepegin E st (s.counted c)) v v := by
  refine .of_end fun tr a v' hp hroom => ?_
  unfold validatePrepegin
  iterate 12 refine .bind .refl fun _ _ _ ht => ht ▸ ?_
  have hzero : (s.counted c).ctx.prePeginSigned = 0 := hroom
  exact follows_checkCap (show ¬(s.counted c).ctx.prePeginSigned ≥ 1 by omega) rfl

/-! ## The dispatcher -/

/-- The validators that do not count look at no counter. -/
theorem validateDisplay_counted :
    validateDisplayRefund E st (s.counted c) = validateDisplayRefund E st s ∧
    validateDisplayWc E st (s.counted c) = validateDisplayWc E st s ∧
    validateDisplayPayoutFinalize E st (s.counted c) = validateDisplayPayoutFinalize E st s := by
  refine ⟨?_, ?_, ?_⟩
  · rw [validateDisplayRefund, readTapLeaf_counted]
    rfl
  · unfold validateDisplayWc
    rw [readTapLeaf_counted]
  · rw [validateDisplayPayoutFinalize, readTapLeaf_counted]
    rfl

theorem dispatchLeaf_counted : dispatchLeaf E st (s.counted c) = dispatchLeaf E st s := by
  obtain ⟨href, hwc, -⟩ := @validateDisplay_counted E st s c
  simp only [dispatchLeaf, readTapLeaf_counted, href, hwc]

theorem follows_through {F : Flow} {w w' : V Unit} {P : Flow → Volatile → Prop}
    (h : Follows (fun _ v' => P F v') Eq w w' v v) :
    Follows P Eq (through F w) (through F w') v v := by
  intro tr F' v' hp hP
  obtain ⟨tr₁, ⟨_ | u, t⟩, tr₂, h₁, h₂, rfl⟩ := Course.path_bind.1 hp
  · cases h₂
  · cases h₂
    obtain ⟨_, h₁', rfl⟩ := h tr₁ u v' h₁ hP
    exact ⟨v', Course.path_bind.2 ⟨tr₁, _, [], h₁', .ret _, rfl⟩, rfl⟩

theorem follows_dispatchRest : Follows (fun F v' => F.Room (s.counted c) v'.tr) Eq
    (dispatchRest E st s) (dispatchRest E st (s.counted c)) v v := by
  obtain ⟨-, hwc, hfin⟩ := @validateDisplay_counted E st s c
  unfold dispatchRest
  rw [hwc, hfin, dispatchLeaf_counted]
  refine .ite Iff.rfl (fun _ => .ite Iff.rfl (fun _ => ?_) fun _ => .refl) fun _ => .refl
  exact follows_through follows_validatePrepegin

/-- What is accepted with some slots spent is accepted with others spent, if there is room
    for its own. -/
theorem follows_dispatch : Follows (fun F v' => F.Room (s.counted c) v'.tr) Eq (dispatch E st s)
    (dispatch E st (s.counted c)) v v := by
  unfold dispatch
  refine .ite Iff.rfl (fun _ => .refl) fun _ => .ite Iff.rfl (fun _ => ?_) fun _ =>
    .ite Iff.rfl (fun _ => ?_) fun _ => .ite Iff.rfl (fun _ => ?_) fun _ => follows_dispatchRest
  · exact follows_through follows_validatePegin
  · exact follows_through follows_validateNopayout
  refine .ite Iff.rfl (fun _ => follows_through follows_validatePayout) fun _ => ?_
  iterate 2 refine .bind .refl fun _ _ _ ht => ht ▸ ?_
  exact .ite Iff.rfl (fun _ => follows_through follows_validatePayout) fun _ => follows_dispatchRest

/-! ## The device -/

def Device.counted (d : Device) (c : VaultContext) : Device := { d with ctx := d.ctx.counted c }

/-- The devices differ in what is spent, if at all. -/
def Recounted (d e : Device) : Prop := ∃ c, e = d.counted c

variable {d d' e : Device} {kind : SigKind}

theorem recounted_count (h : Recounted d e) : Recounted (kind.count d) (kind.count e) := by
  obtain ⟨c, rfl⟩ := h
  cases kind with
  | pegin gi => exact ⟨((SigKind.pegin gi).count (d.counted c)).ctx, rfl⟩
  | payout gi ci => exact ⟨((SigKind.payout gi ci).count (d.counted c)).ctx, rfl⟩
  | nopayout ci => exact ⟨((SigKind.nopayout ci).count (d.counted c)).ctx, rfl⟩
  | standalone => exact ⟨c, rfl⟩

theorem recounted_invalidate (h : Recounted d e) :
    Recounted (vaultContextInvalidate d) (vaultContextInvalidate e) := by
  obtain ⟨c, rfl⟩ := h
  exact ⟨.zero, rfl⟩

theorem recounted_settle (r : Stop) (h : Recounted d e) :
    Recounted (settleStop r d) (settleStop r e) := by
  cases r with
  | reject | callee => exact h
  | wipe => exact recounted_invalidate h
  | restart => exact ⟨Device.boot.ctx, rfl⟩

theorem steady_validating {α : Type} {w : Session → V α} (hw : ∀ s c, w (s.counted c) = w s) :
    Steady AnyStop Recounted (validating w) := by
  rintro d _ ⟨c, rfl⟩
  have hrun : Alike (fun _ a a' => a = a') AnyStop Recounted (fun a b t t' => a = b ∧ Recounted t t')
      (Prog.onError settleStop (Prog.embed readHom Device.volatile Device.setVolatile (w d.session)))
      (Prog.onError settleStop (Prog.embed readHom Device.volatile Device.setVolatile (w d.session)))
      d (d.counted c) := by
    refine Alike.onError (Alike.embed (steady_eq (fun _ => trivial) _ _ rfl) ?_ ?_ ?_)
      fun r _ _ => recounted_settle r
    · rintro q a _ rfl
      rfl
    · rintro v _ rfl
      exact ⟨c, rfl⟩
    · rintro a _ v _ ⟨rfl, rfl⟩
      exact ⟨rfl, c, rfl⟩
  have hsame : w (d.counted c).session = w d.session := hw d.session c
  unfold Alike at hrun ⊢
  simpa only [validating, hsame] using hrun

theorem follows_validating {α : Type} {w : Session → V α} {C : α → Volatile → Prop}
    (h : Follows C Eq (w d.session) (w (d.session.counted c)) d.volatile d.volatile) :
    Follows (fun a d' => C a d'.volatile) Recounted (validating w) (validating w) d (d.counted c) := by
  have hrun : Follows (fun a (d' : Device) => C a d'.volatile) Recounted
      (Prog.onError settleStop (Prog.embed readHom Device.volatile Device.setVolatile (w d.session)))
      (Prog.onError settleStop (Prog.embed readHom Device.volatile Device.setVolatile
        (w (d.session.counted c)))) d (d.counted c) := by
    refine .onError (.embed h (fun _ _ hC => hC) ?_)
    rintro v _ rfl
    exact ⟨c, rfl⟩
  exact hrun

theorem steady_assertM {p : Prop} [Decidable p] : Steady AnyStop Recounted (assertM p) := by
  refine steady_ite steady_pure (steady_bind (steady_modify ?_) fun _ => steady_stop trivial)
  rintro - - -
  exact ⟨Device.boot.ctx, rfl⟩

/-- The common tail. -/
theorem steady_signAndYield (k : SigKind) {input : ℕ} {path : List UInt32} {leafHash : Bytes32}
    {spk : Bytes} : Steady AnyStop Recounted (signAndYield k input path leafHash spk k.count) := by
  refine steady_bind (steady_bind steady_ask fun _ => steady_orStop trivial) fun _ => ?_
  refine steady_bind (steady_modify fun _ _ => recounted_count) fun _ => ?_
  exact steady_bind steady_ask fun _ => steady_require fun _ => trivial

/-- A branch that counts. -/
theorem steady_countingBranch (k : SigKind) {path : List UInt32} {w : Session → V (Bytes32 × Bytes)}
    (hw : ∀ s c, w (s.counted c) = w s) : Steady AnyStop Recounted (wiping do
      let (leafHash, spk) ← validating w
      signAndYield k 0 path leafHash spk k.count) :=
  steady_onError (steady_bind (steady_validating hw) fun _ => steady_signAndYield k)
    fun _ _ _ => recounted_invalidate

/-- A branch that signs with the leaf's own key. -/
theorem steady_signLeaf {shape : ℕ → LeafMeta → Bool} {idx : ℕ} :
    Steady AnyStop Recounted (signLeaf E st shape idx) := by
  refine steady_bind (steady_validating fun s c => ?_) fun _ => steady_signAndYield .standalone
  rw [leafSigningInput, readTapLeaf_counted]
  rfl

theorem steady_signPegin : Steady AnyStop Recounted (signPegin E st) := by
  rintro d _ ⟨c, rfl⟩
  refine Alike.get_bind ?_
  exact steady_bind steady_assertM (fun _ => steady_countingBranch (.pegin _) fun _ _ => rfl)
    d _ ⟨c, rfl⟩

theorem steady_signNopayout : Steady AnyStop Recounted (signNopayout E st) := by
  rintro d _ ⟨c, rfl⟩
  refine Alike.get_bind ?_
  refine steady_countingBranch (.nopayout _) (fun s c => ?_) d _ ⟨c, rfl⟩
  rw [nopayoutSigningInput, readTapLeaf_counted]
  rfl

theorem steady_signPayout : Steady AnyStop Recounted (signPayout E st) := by
  rintro d _ ⟨c, rfl⟩
  refine Alike.get_bind ?_
  exact steady_countingBranch (.payout _ _) (fun _ _ => rfl) d _ ⟨c, rfl⟩

/-- The signer looks at no counter. -/
theorem steady_signCustomInputs : Steady AnyStop Recounted (signCustomInputs E st) := by
  rintro d _ ⟨c, rfl⟩
  refine Alike.get_bind ?_
  refine steady_ite steady_assertM (steady_ite steady_signPegin (steady_ite ?_ (steady_ite steady_pure
    (steady_ite ?_ steady_signLeaf)))) d _ ⟨c, rfl⟩
  · exact steady_ite steady_signNopayout (steady_ite (steady_bind (steady_modify fun _ _ =>
      recounted_invalidate) fun _ => steady_stop trivial) steady_signPayout)
  · exact steady_bind steady_assertM fun _ => steady_signLeaf

/-- The validator of the device. -/
theorem follows_validateAndDisplay {c : VaultContext} :
    Follows (fun F d' => F.Room (d.session.counted c) d'.tr) Recounted
      (validateAndDisplayTransaction E st) (validateAndDisplayTransaction E st) d (d.counted c) := by
  refine .get_bind (.ite Iff.rfl (fun _ => ?_) fun _ => ?_)
  · intro tr F d' hp
    cases hp
  let S (t t' : Device) : Prop := t' = t.counted c ∧ t.session = d.session
  have hscratch : Steady AnyStop S clobberScratch := by
    refine steady_bind steady_ask fun _ => steady_modify ?_
    rintro t _ ⟨rfl, ht⟩
    exact ⟨rfl, ht⟩
  refine .bind (hscratch.follows ⟨rfl, rfl⟩) fun _ t t' ht => ?_
  obtain ⟨rfl, ht⟩ := ht
  have hval := follows_validating (d := t) (c := c) (w := dispatch E st) follows_dispatch
  rw [ht] at hval
  refine hval.bind_end (fun F u tr F' u' hp hroom => ?_) fun F u u' hu => ?_
  · by_cases hF : F = .prepegin
    · rw [if_pos hF] at hp
      cases hp
      exact hroom
    · rw [if_neg hF] at hp
      cases hp
      exact hroom
  · refine .ite Iff.rfl (fun _ => .modify_bind ?_) fun _ => ?_
    · obtain ⟨c', rfl⟩ := hu
      exact .pure ⟨(countPrepegin (u.counted c')).ctx, rfl⟩
    · exact .pure hu

/-- What a branch has counted, it has asked for. -/
theorem signAndYield_path {input : ℕ} {path : List UInt32} {leafHash : Bytes32} {spk : Bytes}
    {count : Device → Device} {tr : List devIface.Event}
    (h : Course.Path (signAndYield kind input path leafHash spk count d) tr (.ok (), d')) :
    ∃ req, .yield kind req ∈ tr.map (·.1) := by
  obtain ⟨tr₁, ⟨_ | sighash, d₁⟩, tr₂, h₁, h₂, rfl⟩ := Course.path_bind.1 h
  · cases h₂
  obtain ⟨tr₃, ⟨_ | u, d₂⟩, tr₄, h₃, h₄, rfl⟩ := Course.path_bind.1 h₂
  · cases h₄
  obtain ⟨tr₅, ⟨_ | ok, d₃⟩, tr₆, h₅, h₆, rfl⟩ := Course.path_bind.1 h₄
  · cases h₆
  cases h₅ with
  | ask a h₅ => exact ⟨⟨input, path, leafHash, sighashDefault, sighash⟩, by simp⟩

theorem countingBranch_path {path : List UInt32} {w : Session → V (Bytes32 × Bytes)}
    {count : Device → Device} {tr : List devIface.Event}
    (h : Course.Path ((wiping do
      let (leafHash, spk) ← validating w
      signAndYield kind 0 path leafHash spk count) d) tr (.ok (), d')) :
    ∃ req, .yield kind req ∈ tr.map (·.1) := by
  obtain ⟨tr₁, ⟨_ | u, d₁⟩, tr₂, h₁, h₂, rfl⟩ := Course.path_bind.1 h
  · cases h₂
  cases h₂
  obtain ⟨tr₃, ⟨_ | ⟨leafHash, spk⟩, d₂⟩, tr₄, h₃, h₄, rfl⟩ := Course.path_bind.1 h₁
  · cases h₄
  obtain ⟨req, hreq⟩ := signAndYield_path h₄
  refine ⟨req, ?_⟩
  rw [List.append_nil, List.map_append]
  exact List.mem_append_right _ hreq

/-- The signature that a flow counts. -/
def Flow.counts (tr : Transient) : Flow → Option SigKind
  | .pegin => some (.pegin tr.vaultGroupIndex)
  | .payout => some (.payout tr.vaultGroupIndex tr.payoutIndex)
  | .nopayout => some (.nopayout tr.nopayoutChallengerIndex)
  | _ => none

theorem branch_path {F : Flow} {tr : List devIface.Event} (hk : F.counts d.tr = some kind)
    (h : Course.Path (F.branch E st d) tr (.ok (), d')) : ∃ req, .yield kind req ∈ tr.map (·.1) := by
  cases F <;> cases hk
  · obtain ⟨tr₁, ⟨_ | u, d₁⟩, tr₂, h₁, h₂, rfl⟩ := Course.path_bind.1 h
    · cases h₂
    cases h₁
    obtain ⟨tr₃, ⟨_ | u, d₂⟩, tr₄, h₃, h₄, rfl⟩ := Course.path_bind.1 h₂
    · cases h₄
    obtain ⟨req, hreq⟩ := countingBranch_path h₄
    refine ⟨req, ?_⟩
    rw [List.nil_append, List.map_append]
    exact List.mem_append_right _ hreq
  · exact countingBranch_path h
  · exact countingBranch_path h

/-- A free slot is never refused by the cap on the number of signatures. -/
theorem Flow.room_of_free {F : Flow} {tr : Transient} (hc : CountersOk e.ctx e.intent)
    (hk : ∀ kind, F.counts tr = some kind → kind.Free e)
    (hp : F = .prepegin → e.ctx.prePeginSigned = 0) : F.Room e.session tr := by
  cases F with
  | prepegin => exact hp rfl
  | pegin =>
    obtain ⟨-, hg, hbit⟩ := hk _ rfl
    have hlt : popcount e.ctx.peginGroupMask < (Finset.range e.intent.vaultCount).card :=
      popcount_lt (fun i hi => Finset.mem_range.2 (hc.peginBits i hi)) (Finset.mem_range.2 hg) hbit
    rw [Finset.card_range, ← hc.pegin] at hlt
    exact ⟨hbit, hlt⟩
  | payout =>
    obtain ⟨-, hg, hci, hbit⟩ := hk _ rfl
    let slots := (Finset.range e.intent.vaultCount ×ˢ Finset.range (e.intent.keeperCount + 2)).image
      fun p => payoutSlot e.intent p.1 p.2
    have hmem : ∀ gi < e.intent.vaultCount, ∀ ci ≤ e.intent.keeperCount + 1,
        payoutSlot e.intent gi ci ∈ slots := by
      intro gi hg ci hci
      refine Finset.mem_image.2 ⟨(gi, ci), Finset.mem_product.2 ⟨?_, ?_⟩, rfl⟩
      · exact Finset.mem_range.2 hg
      · exact Finset.mem_range.2 (by omega)
    have hlt : popcount e.ctx.payoutClaimerMask < slots.card := by
      refine popcount_lt (fun i hi => ?_) (hmem _ hg _ hci) hbit
      obtain ⟨gi, hg', ci, hci', rfl⟩ := hc.payoutBits i hi
      exact hmem gi hg' ci hci'
    have hcard : slots.card ≤ e.intent.vaultCount * (e.intent.keeperCount + 2) := by
      refine Finset.card_image_le.trans_eq ?_
      rw [Finset.card_product, Finset.card_range, Finset.card_range]
    rw [← hc.payout] at hlt
    exact ⟨hbit, hlt.trans_le hcard⟩
  | nopayout => exact (hk _ rfl).2
  | pop | wc | payoutFinalize | claim | reclaim | assert | refund => trivial

/-! ## Slots -/

/-- What a request that succeeds on a loaded session uses up. -/
inductive Slot
  | none | prepegin | signed (kind : SigKind)

namespace Slot

def Free (d : Device) : Slot → Prop
  | none => True
  | prepegin => d.ctx.prePeginSigned = 0
  | signed kind => kind.Free d

def count : Slot → Device → Device
  | none => id
  | prepegin => countPrepegin
  | signed kind => kind.count

end Slot

/-- The slot that a request has used. -/
def Exchange.Uses (x : Exchange) : Slot → Prop
  | .none => x.released = [] ∧ ¬x.AcceptsPrepegin
  | .prepegin => x.released = [] ∧ x.AcceptsPrepegin
  | .signed kind => (∃ req, x.released = [(kind, req)]) ∧ ¬x.AcceptsPrepegin

variable {x y : Exchange} {u w : Slot}

theorem LiveEnd.uses (h : LiveEnd d x d') (hl : d'.ctx.state = .intentLoaded) :
    ∃ u : Slot, x.Uses u ∧ u.Free d ∧ SameLoaded (u.count d) d' := by
  cases h with
  | nothing hx hx' hd => exact ⟨.none, ⟨hx, hx'⟩, trivial, hd hl⟩
  | prepegin hx hx' h0 hd => exact ⟨.prepegin, ⟨hx, hx'⟩, h0, hd hl⟩
  | @signed kind req hx hx' hf hd => exact ⟨.signed kind, ⟨⟨req, hx⟩, hx'⟩, hf, hd hl⟩

theorem Exchange.Uses.unique (h : x.Uses u) (h' : x.Uses w) : u = w := by
  cases u <;> cases w
  case none.none | prepegin.prepegin => rfl
  case signed.signed =>
    obtain ⟨⟨req, h⟩, -⟩ := h
    obtain ⟨⟨req', h'⟩, -⟩ := h'
    rw [h] at h'
    cases h'
    rfl
  case none.signed | prepegin.signed =>
    obtain ⟨⟨req, h'⟩, -⟩ := h'
    rw [h.1] at h'
    cases h'
  case signed.none | signed.prepegin =>
    obtain ⟨⟨req, h⟩, -⟩ := h
    rw [h'.1] at h
    cases h
  case none.prepegin => exact absurd h'.2 h.2
  case prepegin.none => exact absurd h.2 h'.2

theorem Exchange.Uses.of_released {kind : SigKind} {req : SigRequest} (h : x.Uses u)
    (hin : (kind, req) ∈ x.released) : u = .signed kind := by
  cases u with
  | none | prepegin =>
    rw [h.1] at hin
    cases hin
  | signed kind' =>
    obtain ⟨⟨req', hx⟩, -⟩ := h
    rw [hx] at hin
    obtain ⟨rfl, -⟩ := Prod.mk.inj (List.mem_singleton.1 hin)
    rfl

theorem Exchange.Uses.of_accepts (h : x.Uses u) (hx : x.AcceptsPrepegin) : u = .prepegin := by
  cases u with
  | none => exact absurd hx h.2
  | prepegin => rfl
  | signed => exact absurd hx h.2

/-- What follows the validator. -/
def signAccepted (E : Env) (st : SignPsbtState) : M Unit := do
  let failed : Bool ← askM .walletInputs
  Prog.require (failed = false) .callee
  signCustomInputs E st

theorem signAccepted_path {tr : List devIface.Event}
    (h : Course.Path (signAccepted E st d) tr (.ok (), d')) :
    ∃ failed tr', tr = ⟨.walletInputs, failed⟩ :: tr' ∧
      Course.Path (signCustomInputs E st d) tr' (.ok (), d') := by
  cases h with
  | @ask _ _ _ tr' _ failed h =>
    refine ⟨failed, tr', rfl, ?_⟩
    obtain ⟨tr₁, ⟨_ | w, d₁⟩, tr₂, h₁, h₂, rfl⟩ := Course.path_bind.1 h
    · cases h₂
    cases h₁
    cases failed with
    | false => exact h₂
    | true => cases h₂

theorem steady_signAccepted : Steady AnyStop Recounted (signAccepted E st) :=
  steady_bind steady_ask fun _ => steady_bind (steady_require fun _ => trivial) fun _ =>
    steady_signCustomInputs

/-- A SIGN_PSBT that succeeds with some slots spent succeeds with others spent, if its own is
    free, and puts the same questions. -/
theorem signPsbt_recounted {tr : List devIface.Event} {r : Except Stop Bytes}
    (hp : Course.Path (signPsbt E st d) tr (.ok (), d'))
    (hu : Exchange.Uses ⟨.signPsbt st, tr, .answered r⟩ u) (hf : u.Free e)
    (hc : CountersOk e.ctx e.intent) (he : e = d.counted e.ctx) :
    ∃ e', Course.Path (signPsbt E st e) tr (.ok (), e') := by
  obtain ⟨tr₁, ⟨_ | F, t⟩, tr₂, h₁, h₂, rfl⟩ := Course.path_bind.1 hp
  · cases h₂
  have hvia : (validateAndDisplayTransaction E st).Via (fun _ _ => True) d F t :=
    ⟨tr₁, h₁, fun _ _ => trivial⟩
  obtain ⟨-, junk, v', hacc, rfl⟩ := validateAndDisplayTransaction_via hvia
  obtain ⟨failed, tr₃, rfl, h₃⟩ := signAccepted_path h₂
  have hroom : F.Room (d.session.counted e.ctx) (acceptedDevice d F junk v').tr := by
    have hs : d.session.counted e.ctx = e.session := by
      rw [he]
      rfl
    rw [hs]
    refine Flow.room_of_free hc (fun kind hk => ?_) fun hF => ?_
    · rw [signCustomInputs_accepted hacc] at h₃
      obtain ⟨req, hreq⟩ := branch_path hk h₃
      have hin : (kind, req) ∈ Exchange.released
          ⟨.signPsbt st, tr₁ ++ ⟨.walletInputs, failed⟩ :: tr₃, .answered r⟩ := by
        refine List.mem_filterMap.2 ⟨.yield kind req, ?_, rfl⟩
        rw [Exchange.asked, List.map_append, List.map_cons]
        exact List.mem_append_right _ (List.mem_cons_of_mem _ hreq)
      obtain rfl := hu.of_released hin
      exact hf
    · have hmark : Mark.accepted ∈ marks ((tr₁ ++ ⟨.walletInputs, failed⟩ :: tr₃).map (·.1)) := by
        rw [List.map_append, marks_append]
        exact List.mem_append_right _ (List.mem_cons_self ..)
      obtain rfl := hu.of_accepts ⟨st, rfl, hacc.prepegin_iff.1 hF, hmark⟩
      exact hf
  obtain ⟨t', h₁', hR⟩ := follows_validateAndDisplay tr₁ F _ h₁ hroom
  obtain ⟨e', h₂', -⟩ := steady_signAccepted.follows (C := AnyEnd) hR _ () d' h₂ trivial
  rw [he]
  exact ⟨e', Course.path_bind.2 ⟨tr₁, (.ok F, t'), _, h₁', h₂', rfl⟩⟩

/-! ## Sessions -/

/-- A session that is loaded in some run. -/
structure Live (E : Env) where
  device : Device
  reached : ∃ ls, Reach E ls device
  loaded : device.ctx.state = .intentLoaded

/-- A SIGN_PSBT that succeeds. -/
def Signs (a : Live E) (x : Exchange) (b : Live E) : Prop :=
  (∃ st, x.request = .signPsbt st) ∧ x.Succeeds ∧ Step E a.device x b.device

/-- The two hold the same session. -/
def Live.Same (a b : Live E) : Prop := SameLoaded a.device b.device

namespace Live
variable {a a' b c : Live E}

theorem counters (a : Live E) : CountersOk a.device.ctx a.device.intent := by
  obtain ⟨ls, h⟩ := a.reached
  exact (h.session.loaded a.loaded).counters

theorem not_streaming (a : Live E) : a.device.streaming.streamingInProgress = false := by
  obtain ⟨ls, h⟩ := a.reached
  exact h.session.not_streaming (by rw [a.loaded]; decide)

/-- Both sessions are of one approval. -/
def SameTerms (a b : Live E) : Prop :=
  b.device.intent = a.device.intent ∧ b.device.ctx = a.device.ctx.counted b.device.ctx

end Live

/-- After a SIGN_PSBT that succeeds the session goes on. -/
theorem SignEnd.loaded {mk : List Mark} (h : SignEnd E st d mk (some (.ok ())) d')
    (hl : d.ctx.state = .intentLoaded) : d'.ctx.state = .intentLoaded := by
  cases h with
  | kept _ _ hd => rw [hd.ctx, hl]
  | @prepegin _ d₁ _ _ _ hd =>
    have hst : (countPrepegin d₁).ctx.state = d₁.ctx.state := rfl
    rw [hst, hd.ctx, hl]
  | @signed kind _ _ d₁ _ _ hd => rw [kind.count_state, hd.ctx, hl]

theorem Signs.of_step {a : Live E} {e' : Device} (h : Step E a.device x e')
    (hreq : x.request = .signPsbt st) (hok : x.Succeeds) : ∃ b, Signs a x b ∧ b.device = e' := by
  obtain ⟨ls, hr⟩ := a.reached
  have hl : e'.ctx.state = .intentLoaded := by
    obtain ⟨data, hok⟩ := hok
    cases h.toEnd with
    | derive | approve | getState => cases hreq
    | @sign _ _ r _ _ hend hres =>
      rw [hres] at hok
      rcases r with _ | _ | _
      · cases hok
      · cases hok
      · exact hend.loaded a.loaded
  exact ⟨⟨e', ⟨_, hr.snoc h⟩, hl⟩, ⟨⟨st, hreq⟩, hok, h⟩, rfl⟩

theorem Signs.of_path {a : Live E} {tr : List devIface.Event} {e' : Device}
    (h : Course.Path (signPsbt E st a.device) tr (.ok (), e')) :
    ∃ b, Signs a ⟨.signPsbt st, tr, .answered (.ok [])⟩ b := by
  have hp : Course.Path (handle E (.signPsbt st) a.device) tr (.ok [], e') :=
    Course.path_bind.2 ⟨tr, _, [], h, .ret _, (List.append_nil tr).symm⟩
  obtain ⟨b, hb, -⟩ := Signs.of_step (.done hp) rfl ⟨[], rfl⟩
  exact ⟨b, hb⟩

/-- A SIGN_PSBT that succeeds under given answers. -/
theorem Signs.of_eval {a : Live E} {ans : Answers}
    (h : ((handle E (.signPsbt st)).eval ans a.device).1 = .ok []) :
    ∃ b, Signs a (answer E (.signPsbt st) ans a.device).1 b ∧
      b.device = (answer E (.signPsbt st) ans a.device).2 :=
  Signs.of_step (.answer ..) rfl ⟨[], congrArg some h⟩

/-- A SIGN_PSBT that succeeds, as a path. -/
theorem Signs.path {a b : Live E} (h : Signs a x b) : ∃ st tr,
    x = ⟨.signPsbt st, tr, .answered (.ok [])⟩ ∧
      Course.Path (signPsbt E st a.device) tr (.ok (), b.device) := by
  obtain ⟨⟨st, hreq⟩, ⟨data, hok⟩, hstep⟩ := h
  cases hstep with
  | @done req _ tr r _ hp =>
    obtain rfl : req = .signPsbt st := hreq
    obtain rfl : r = .ok data := Option.some.inj hok
    obtain ⟨tr₁, ⟨_ | w, d₁⟩, tr₂, h₁, h₂, rfl⟩ := Course.path_bind.1 hp
    · cases h₂
    cases h₂
    refine ⟨st, tr₁, ?_, h₁⟩
    rw [List.append_nil]
  | cut => cases hok

namespace Live
variable {a a' b c : Live E}

/-- What a SIGN_PSBT that succeeds uses up, and the session afterwards. -/
theorem uses (h : Signs a x b) :
    ∃ u : Slot, x.Uses u ∧ u.Free a.device ∧ SameLoaded (u.count a.device) b.device := by
  obtain ⟨ls, hr⟩ := a.reached
  exact (h.2.2.toEnd.live hr.session a.loaded).uses b.loaded

/-- It succeeds as well in another session of the same approval, where its slot is free. -/
theorem transfer (h : Signs a x b) (ht : a.SameTerms a') (hu : x.Uses u) (hf : u.Free a'.device) :
    ∃ b', Signs a' x b' := by
  obtain ⟨st, tr, rfl, hp⟩ := h.path
  -- The device of `a'` with the counters of `a`.
  let e : Device := { a'.device with ctx := a.device.ctx }
  have hint : Interchangeable a.device e :=
    ⟨⟨a.not_streaming, a'.not_streaming⟩, .inr ⟨a.loaded, a.loaded,
      ⟨ht.1.symm, rfl, rfl, rfl, rfl, rfl, rfl, rfl, rfl⟩⟩⟩
  obtain ⟨e₁, hp₁, -⟩ := (alike_signPsbt hint).follows (C := AnyEnd) (fun _ _ => .inr rfl)
    (fun _ _ _ _ h => ⟨rfl, h⟩) tr () _ hp trivial
  have he : a'.device = e.counted a'.device.ctx := by
    have hctx : a'.device.ctx = e.ctx.counted a'.device.ctx := ht.2
    rw [Device.counted, ← hctx]
  obtain ⟨e', hp'⟩ := signPsbt_recounted hp₁ hu hf a'.counters he
  exact Signs.of_path hp'

end Live

/-! ## Slots used one after the other -/

/-- The masks have room for every slot of the intent. -/
structure InMasks (d : Device) : Prop where
  pegin : ∀ gi < d.intent.vaultCount, gi < 8 * d.ctx.peginGroupMask.length
  payout : ∀ gi < d.intent.vaultCount, ∀ ci ≤ d.intent.keeperCount + 1,
    payoutSlot d.intent gi ci < 8 * d.ctx.payoutClaimerMask.length

theorem Live.inMasks (a : Live E) : InMasks a.device := by
  obtain ⟨ls, h⟩ := a.reached
  have hok := h.session.loaded a.loaded
  exact ⟨fun gi hg => hok.counters.pegin_lt hok.intent.scalars hg,
    fun gi hg ci hc => hok.counters.payout_lt hok.intent.scalars hg hc⟩

/-- A slot that is free after another was used is another, free before; the other is free after
    it was used. -/
theorem Slot.swap (hm : InMasks d) (hu : u.Free d) (hw : w.Free (u.count d)) :
    w.Free d ∧ u.Free (w.count d) := by
  cases u with
  | none => exact ⟨hw, trivial⟩
  | prepegin =>
    cases w with
    | none => exact ⟨trivial, hu⟩
    | prepegin => exact absurd hw (Nat.succ_ne_zero _)
    | signed kind => exact ⟨by cases kind <;> exact hw, by cases kind <;> exact hu⟩
  | signed kind =>
    cases w with
    | none => exact ⟨trivial, hu⟩
    | prepegin => exact ⟨by cases kind <;> exact hw, by cases kind <;> exact hu⟩
    | signed kind' =>
      cases kind with
      | pegin gi =>
        cases kind' with
        | pegin gj =>
          obtain ⟨hl, hg, hbit⟩ := hu
          obtain ⟨-, hg', hbit'⟩ := hw
          obtain ⟨hne, hclear⟩ := bit_of_setBit (hm.pegin gi hg) hbit'
          exact ⟨⟨hl, hg', hclear⟩, hl, hg, (bit_setBit_of_ne (hm.pegin gj hg') hne.symm).trans hbit⟩
        | payout | nopayout | standalone => exact ⟨hw, hu⟩
      | payout gi ci =>
        cases kind' with
        | payout gj cj =>
          obtain ⟨hl, hg, hc, hbit⟩ := hu
          obtain ⟨-, hg', hc', hbit'⟩ := hw
          obtain ⟨hne, hclear⟩ := bit_of_setBit (hm.payout gi hg ci hc) hbit'
          exact ⟨⟨hl, hg', hc', hclear⟩, hl, hg, hc,
            (bit_setBit_of_ne (hm.payout gj hg' cj hc') hne.symm).trans hbit⟩
        | pegin | nopayout | standalone => exact ⟨hw, hu⟩
      | nopayout ci =>
        cases kind' with
        | nopayout cj =>
          obtain ⟨hl, -⟩ := hu
          obtain ⟨-, hlt⟩ := hw
          exact ⟨⟨hl, (Nat.lt_succ_self _).trans hlt⟩, hl, hlt⟩
        | pegin | payout | standalone => exact ⟨hw, hu⟩
      | standalone => exact ⟨hw, trivial⟩

theorem Slot.count_comm (d : Device) : SameLoaded (w.count (u.count d)) (u.count (w.count d)) := by
  rcases u with _ | _ | (gi | ⟨gi, ci⟩ | ci | _) <;> rcases w with _ | _ | (gj | ⟨gj, cj⟩ | cj | _) <;>
    first
    | exact ⟨rfl, rfl⟩
    | exact ⟨by simp only [count, SigKind.count, countPegin, countPayout, setBit_comm], rfl⟩

theorem Slot.count_same (h : SameLoaded d d') : SameLoaded (u.count d) (u.count d') := by
  obtain ⟨hc, hi⟩ := h
  rcases u with _ | _ | (gi | ⟨gi, ci⟩ | ci | _) <;>
    simp [SameLoaded, count, SigKind.count, countPrepegin, countPegin, countPayout, countNopayout, hc, hi]

theorem Slot.count_counted (d : Device) : (u.count d).intent = d.intent ∧
    (u.count d).ctx = d.ctx.counted (u.count d).ctx := by
  rcases u with _ | _ | (gi | ⟨gi, ci⟩ | ci | _) <;> exact ⟨rfl, rfl⟩

/-! ## Any order -/

theorem SameLoaded.trans {d₁ : Device} (h : SameLoaded d d') (h' : SameLoaded d' d₁) : SameLoaded d d₁ :=
  ⟨h'.1.trans h.1, h'.2.trans h.2⟩

theorem SameLoaded.symm (h : SameLoaded d d') : SameLoaded d' d := ⟨h.1.symm, h.2.symm⟩

theorem SameLoaded.free (h : SameLoaded d d') (hu : u.Free d) : u.Free d' := by
  obtain ⟨hc, hi⟩ := h
  rcases u with _ | _ | (gi | ⟨gi, ci⟩ | ci | _) <;>
    simp only [Slot.Free, SigKind.Free, hc, hi] at hu ⊢ <;> exact hu

namespace Live
variable {a a' b c : Live E}

theorem Same.terms (h : a.Same b) : a.SameTerms b := by
  refine ⟨h.2, ?_⟩
  rw [h.1]
  rfl

/-- A request of the session leaves its approval alone. -/
theorem terms_of_count (h : SameLoaded (u.count a.device) b.device) : a.SameTerms b := by
  obtain ⟨hi, hc⟩ := u.count_counted a.device
  refine ⟨h.2.trans hi, ?_⟩
  rw [h.1]
  exact hc

theorem SameTerms.symm (h : a.SameTerms b) : b.SameTerms a := by
  refine ⟨h.1.symm, ?_⟩
  rw [h.2]
  rfl

theorem SameTerms.trans (h : a.SameTerms b) (h' : b.SameTerms c) : a.SameTerms c := by
  refine ⟨h'.1.trans h.1, ?_⟩
  rw [h'.2, h.2]
  rfl

/-- Two SIGN_PSBTs in a row can be exchanged. -/
theorem swap (h : Signs a x b) (h' : Signs b y c) :
    ∃ b' c', Signs a y b' ∧ Signs b' x c' ∧ c.Same c' := by
  obtain ⟨u, hxu, hu, hab⟩ := uses h
  obtain ⟨w, hyw, hw, hbc⟩ := uses h'
  obtain ⟨hwa, huw⟩ := Slot.swap a.inMasks hu (hab.symm.free hw)
  obtain ⟨b', hb'⟩ := transfer h' (terms_of_count hab).symm hyw hwa
  obtain ⟨w', hyw', -, hab'⟩ := uses hb'
  obtain rfl := hyw.unique hyw'
  obtain ⟨c', hc'⟩ := transfer h (terms_of_count hab') hxu (hab'.free huw)
  obtain ⟨u', hxu', -, hbc'⟩ := uses hc'
  obtain rfl := hxu.unique hxu'
  have hcomm : SameLoaded (w.count (u.count a.device)) (u.count (w.count a.device)) :=
    Slot.count_comm a.device
  refine ⟨b', c', hb', hc', ?_⟩
  have hleft : SameLoaded (w.count (u.count a.device)) c.device := (Slot.count_same hab).trans hbc
  have hright : SameLoaded (u.count (w.count a.device)) c'.device := (Slot.count_same hab').trans hbc'
  exact hleft.symm.trans (hcomm.trans hright)

/-- A SIGN_PSBT on the same session elsewhere. -/
theorem sim (hs : a.Same a') (h : Signs a x b) : ∃ b', Signs a' x b' ∧ b.Same b' := by
  obtain ⟨u, hxu, hu, hab⟩ := uses h
  obtain ⟨b', hb'⟩ := transfer h hs.terms hxu (hs.free hu)
  obtain ⟨u', hxu', -, hab'⟩ := uses hb'
  obtain rfl := hxu.unique hxu'
  exact ⟨b', hb', hab.symm.trans ((Slot.count_same hs).trans hab')⟩

/-- The signatures of a session can be taken in any order: the same requests, with the same
    calls and results, lead to the same session. -/
theorem any_order {xs ys : List Exchange} (h : Run Signs a xs b) (hp : xs.Perm ys) :
    ∃ b', Run Signs a ys b' ∧ b.Same b' :=
  Run.perm (R := Live.Same) (fun _ => ⟨rfl, rfl⟩) (fun _ _ _ => SameLoaded.trans)
    (fun _ _ _ _ => sim) (fun _ _ _ _ _ => swap) hp h

/-! ## What fits -/

/-- The requests take different slots, and no more than the session has left. -/
structure Fits (d : Device) (xs : List Exchange) : Prop where
  once : ((kinds xs).filter SigKind.hasSlot).Nodup
  prepegins : d.ctx.prePeginSigned + prepeginCount xs ≤ 1
  nopayouts : d.ctx.nopayoutSigned + (kinds xs).countP SigKind.isNopayout ≤
    d.intent.vaultCount * (d.intent.keeperCount + d.intent.challengerCount)

/-- So much is left of a session that the requests find their slots. -/
structure Room (d : Device) (xs : List Exchange) : Prop extends Fits d xs where
  free : ∀ kind ∈ kinds xs, kind.Free d

end Live

theorem kinds_cons (x : Exchange) (xs : List Exchange) :
    kinds (x :: xs) = x.released.map (·.1) ++ kinds xs := List.flatMap_cons ..

/-- A slot is used once. -/
theorem SigKind.not_free_count {kind : SigKind} (hm : InMasks d) (hs : kind.hasSlot = true)
    (hf : kind.Free d) : ¬kind.Free (kind.count d) := by
  intro h
  cases kind with
  | pegin gi => exact (bit_of_setBit (hm.pegin gi hf.2.1) h.2.2).1 rfl
  | payout gi ci => exact (bit_of_setBit (hm.payout gi hf.2.1 ci hf.2.2.1) h.2.2.2).1 rfl
  | nopayout | standalone => cases hs

/-- A slot stays free while others are used. -/
theorem SigKind.free_count {kind kind' : SigKind} (hm : InMasks d) (hf : kind.Free d)
    (hf' : kind'.Free d) (hne : kind'.hasSlot = true → kind' ≠ kind)
    (hn : kind.isNopayout = true → kind'.isNopayout = true → d.ctx.nopayoutSigned + 1 <
      d.intent.vaultCount * (d.intent.keeperCount + d.intent.challengerCount)) :
    kind'.Free (kind.count d) := by
  cases kind with
  | pegin gi =>
    cases kind' with
    | pegin gj =>
      have hg : gi ≠ gj := fun h => hne rfl (congrArg SigKind.pegin h.symm)
      exact ⟨hf'.1, hf'.2.1, (bit_setBit_of_ne (hm.pegin gi hf.2.1) hg).trans hf'.2.2⟩
    | payout | nopayout | standalone => exact hf'
  | payout gi ci =>
    cases kind' with
    | payout gj cj =>
      obtain ⟨hl, hg, hc, hbit⟩ := hf'
      have hslot : payoutSlot d.intent gi ci ≠ payoutSlot d.intent gj cj := by
        intro h
        obtain ⟨rfl, rfl⟩ := payoutSlot_inj hf.2.2.1 hc h
        exact hne rfl rfl
      exact ⟨hl, hg, hc, (bit_setBit_of_ne (hm.payout gi hf.2.1 ci hf.2.2.1) hslot).trans hbit⟩
    | pegin | nopayout | standalone => exact hf'
  | nopayout ci =>
    cases kind' with
    | nopayout cj => exact ⟨hf'.1, hn rfl rfl⟩
    | pegin | payout | standalone => exact hf'
  | standalone => exact hf'

theorem SigKind.free_countPrepegin {kind : SigKind} :
    kind.Free (countPrepegin d) ↔ kind.Free d := by
  cases kind <;> exact Iff.rfl

theorem SigKind.count_limit (kind : SigKind) (d : Device) :
    (kind.count d).ctx.prePeginSigned = d.ctx.prePeginSigned ∧
    (kind.count d).ctx.nopayoutSigned = d.ctx.nopayoutSigned + (if kind.isNopayout then 1 else 0) ∧
    (kind.count d).intent = d.intent := by
  cases kind <;> exact ⟨rfl, rfl, rfl⟩

namespace Live

theorem room_iff {xs : List Exchange} : Room d xs ↔ ((kinds xs).filter SigKind.hasSlot).Nodup ∧
    d.ctx.prePeginSigned + prepeginCount xs ≤ 1 ∧
    d.ctx.nopayoutSigned + (kinds xs).countP SigKind.isNopayout ≤
      d.intent.vaultCount * (d.intent.keeperCount + d.intent.challengerCount) ∧
    ∀ kind ∈ kinds xs, kind.Free d :=
  ⟨fun h => ⟨h.once, h.prepegins, h.nopayouts, h.free⟩, fun h => ⟨⟨h.1, h.2.1, h.2.2.1⟩, h.2.2.2⟩⟩

/-- A request that releases a signature, and others behind it. -/
theorem room_signed {xs : List Exchange} {kind : SigKind} (hm : InMasks d)
    (hk : kinds (x :: xs) = kind :: kinds xs) (hp : prepeginCount (x :: xs) = prepeginCount xs) :
    Room d (x :: xs) ↔ kind.Free d ∧ Room (kind.count d) xs := by
  obtain ⟨hpre, hno, hit⟩ := kind.count_limit d
  rw [room_iff, room_iff, hk, hp, hpre, hno, hit, List.filter_cons, List.countP_cons]
  constructor
  · rintro ⟨honce, h2, h3, h4⟩
    have hf := h4 kind (List.mem_cons_self ..)
    refine ⟨hf, ?_, h2, by omega, fun kind' hin => ?_⟩
    · split_ifs at honce with hs
      · exact (List.nodup_cons.1 honce).2
      · exact honce
    refine SigKind.free_count hm hf (h4 kind' (List.mem_cons_of_mem _ hin)) ?_ fun hn hn' => ?_
    · rintro hs rfl
      rw [if_pos hs] at honce
      exact (List.nodup_cons.1 honce).1 (List.mem_filter.2 ⟨hin, hs⟩)
    · have hpos : 0 < (kinds xs).countP SigKind.isNopayout := List.countP_pos_iff.2 ⟨kind', hin, hn'⟩
      rw [if_pos hn] at h3
      omega
  · rintro ⟨hf, honce, h2, h3, h4⟩
    refine ⟨?_, h2, by omega, ?_⟩
    · split_ifs with hs
      · refine List.nodup_cons.2 ⟨fun hin => ?_, honce⟩
        exact SigKind.not_free_count hm hs hf (h4 kind (List.mem_filter.1 hin).1)
      · exact honce
    · rintro kind' (_ | ⟨_, hin⟩)
      · exact hf
      · exact (Slot.swap (u := .signed kind) (w := .signed kind') hm hf (h4 kind' hin)).1

/-- The first request takes its slot, the others find room in what is left. -/
theorem room_cons {xs : List Exchange} (hm : InMasks d) (hx : x.Uses u) :
    Room d (x :: xs) ↔ u.Free d ∧ Room (u.count d) xs := by
  cases u with
  | none =>
    have hk : kinds (x :: xs) = kinds xs := by rw [kinds_cons, hx.1]; rfl
    have hp : prepeginCount (x :: xs) = prepeginCount xs := by
      rw [prepeginCount, List.countP_cons_of_neg (by simpa using hx.2), prepeginCount]
    rw [room_iff, hk, hp]
    exact ⟨fun h => ⟨trivial, room_iff.2 h⟩, fun h => room_iff.1 h.2⟩
  | prepegin =>
    have hk : kinds (x :: xs) = kinds xs := by rw [kinds_cons, hx.1]; rfl
    have hp : prepeginCount (x :: xs) = prepeginCount xs + 1 := by
      rw [prepeginCount, List.countP_cons_of_pos (by simpa using hx.2), prepeginCount]
    have hc : ((Slot.prepegin).count d).ctx.prePeginSigned = d.ctx.prePeginSigned + 1 := rfl
    have hfree : (∀ kind ∈ kinds xs, kind.Free ((Slot.prepegin).count d)) ↔
        ∀ kind ∈ kinds xs, kind.Free d := forall₂_congr fun _ _ => SigKind.free_countPrepegin
    rw [room_iff, room_iff, hk, hp, hc, hfree]
    show _ ↔ d.ctx.prePeginSigned = 0 ∧ _
    constructor
    · rintro ⟨h1, h2, h3, h4⟩
      exact ⟨by omega, h1, by omega, h3, h4⟩
    · rintro ⟨h0, h1, h2, h3, h4⟩
      exact ⟨h1, by omega, h3, h4⟩
  | signed kind =>
    obtain ⟨⟨req, hx⟩, hx'⟩ := hx
    refine room_signed hm ?_ ?_
    · rw [kinds_cons, hx]
      rfl
    · rw [prepeginCount, List.countP_cons_of_neg (by simpa using hx'), prepeginCount]

theorem Room.same {xs : List Exchange} (h : Room d xs) (hd : SameLoaded d d') : Room d' xs := by
  obtain ⟨h1, h2, h3, h4⟩ := room_iff.1 h
  refine room_iff.2 ⟨h1, ?_, ?_, fun kind hin => hd.free (u := .signed kind) (h4 kind hin)⟩
  · rw [hd.1]
    exact h2
  · rw [hd.1, hd.2]
    exact h3

variable {xs : List Exchange}

/-- What a session has signed, it had room for. -/
theorem room_of_run (h : Run Signs a xs b) : Room a.device xs := by
  induction xs generalizing a with
  | nil =>
    have hc := a.counters
    exact ⟨⟨.nil, hc.prepegin, hc.nopayout⟩, fun _ hin => nomatch hin⟩
  | cons x xs ih =>
    obtain ⟨a₁, h₁, hr⟩ := h.uncons
    obtain ⟨u, hxu, hu, hab⟩ := uses h₁
    exact (room_cons a.inMasks hxu).2 ⟨hu, (ih hr).same hab.symm⟩

/-- Requests that each succeed in some session of the approval succeed one after the other
    where there is room. -/
theorem run_of_room (hxs : ∀ x ∈ xs, ∃ a₀ b₀ : Live E, a₀.SameTerms a ∧ Signs a₀ x b₀)
    (h : Room a.device xs) : ∃ b, Run Signs a xs b := by
  induction xs generalizing a with
  | nil => exact ⟨a, .nil⟩
  | cons x xs ih =>
    obtain ⟨a₀, b₀, ht, hx⟩ := hxs x (List.mem_cons_self ..)
    obtain ⟨u, hxu, -, -⟩ := uses hx
    obtain ⟨hu, hroom⟩ := (room_cons a.inMasks hxu).1 h
    obtain ⟨a₁, h₁⟩ := transfer hx ht hxu hu
    obtain ⟨u', hxu', -, hab⟩ := uses h₁
    obtain rfl := hxu.unique hxu'
    obtain ⟨b, hr⟩ := ih (a := a₁) (fun y hy => by
      obtain ⟨a₂, b₂, ht₂, hy₂⟩ := hxs y (List.mem_cons_of_mem _ hy)
      exact ⟨a₂, b₂, ht₂.trans (terms_of_count hab), hy₂⟩) (hroom.same hab)
    exact ⟨b, hr.cons h₁⟩

/-- Of requests that each succeed now, a session can serve exactly those lists that take
    different slots and no more Pre-PegIns and NoPayouts than it has left. -/
theorem fits_iff (hxs : ∀ x ∈ xs, ∃ b, Signs a x b) :
    (∃ b, Run Signs a xs b) ↔ Fits a.device xs := by
  constructor
  · rintro ⟨b, h⟩
    exact (room_of_run h).toFits
  · intro h
    have hfree : ∀ kind ∈ kinds xs, kind.Free a.device := by
      intro kind hin
      obtain ⟨x, hx, hin⟩ := List.mem_flatMap.1 hin
      obtain ⟨⟨kind', req⟩, hreq, rfl⟩ := List.mem_map.1 hin
      obtain ⟨b, hb⟩ := hxs x hx
      obtain ⟨u, hxu, hu, -⟩ := uses hb
      obtain rfl := hxu.of_released hreq
      exact hu
    refine run_of_room (fun x hx => ?_) ⟨h, hfree⟩
    obtain ⟨b, hb⟩ := hxs x hx
    exact ⟨a, b, Same.terms ⟨rfl, rfl⟩, hb⟩

end Live

namespace Signet

theorem reachable : ∃ ls, Reach env ls (loaded intent) := ⟨_, reach_loaded intent⟩

/-- The session of `intent`. -/
def live : Live env where
  device := loaded intent
  reached := reachable
  loaded := loaded_state

theorem live_device : live.device = loaded intent := by rw [live]

/-- A host has the Payout of the first vault signed. -/
def signPayout : Request × Answers :=
  (.signPsbt (parsed payoutSmall 105000 99546), payoutSmall.answers (Buf.zero 32))

/-- The PegIn of the first vault, and its Payout on `d`. -/
def signedPegin : Exchange × Device := answer env signPegin.1 signPegin.2 live.device

def signedPayout (d : Device) : Exchange × Device := answer env signPayout.1 signPayout.2 d

theorem signs_pegin : ∃ b : Live env, Signs live signedPegin.1 b ∧ b.device = signedPegin.2 := by
  have hok : ((handle env (.signPsbt peginState)).eval (pegin.answers (Buf.zero 32))
      live.device).1 = .ok [] := by
    rw [live_device, loaded_intent]
    decide +kernel
  exact Signs.of_eval hok

theorem signs_payout : ∃ b : Live env, Signs live (signedPayout live.device).1 b := by
  have hok : ((handle env (.signPsbt (parsed payoutSmall 105000 99546))).eval
      (payoutSmall.answers (Buf.zero 32)) live.device).1 = .ok [] := by
    rw [live_device, loaded_intent]
    decide +kernel
  obtain ⟨b, hb, -⟩ := Signs.of_eval hok
  exact ⟨b, hb⟩

theorem signs_payout_after {a : Live env} (h : a.device = signedPegin.2) :
    ∃ b : Live env, Signs a (signedPayout a.device).1 b := by
  have hok : ((handle env (.signPsbt (parsed payoutSmall 105000 99546))).eval
      (payoutSmall.answers (Buf.zero 32)) a.device).1 = .ok [] := by
    rw [h, signedPegin, live_device, loaded_intent]
    decide +kernel
  obtain ⟨b, hb, -⟩ := Signs.of_eval hok
  exact ⟨b, hb⟩

end Signet

open Signet in
theorem any_order_signet : ∃ b' : Live env,
    Run Signs live [(signedPayout signedPegin.2).1, signedPegin.1] b' := by
  obtain ⟨b, hb, hd⟩ := signs_pegin
  obtain ⟨c, hc⟩ := signs_payout_after hd
  rw [hd] at hc
  obtain ⟨b', hr, -⟩ := Live.any_order ((Run.nil.cons hc).cons hb) (.swap ..)
  exact ⟨b', hr⟩

open Signet in
theorem fits_iff_signet :
    (∃ b : Live env, Run Signs live [signedPegin.1, (signedPayout live.device).1] b) ↔
    Live.Fits live.device [signedPegin.1, (signedPayout live.device).1] := by
  refine Live.fits_iff fun x hx => ?_
  rcases List.mem_cons.1 hx with rfl | hx
  · obtain ⟨b, hb, -⟩ := signs_pegin
    exact ⟨b, hb⟩
  · obtain rfl := List.mem_singleton.1 hx
    exact signs_payout

end BabylonVault
