/-
  Amounts over exact integers.

  * `PayoutBound`: what a Payout pays; `Reach.payout_bound_iff` says when the fee check,
    which adds in 64 bits, gives it.
  * `PrepeginBound`: what a Pre-PegIn, which no screen shows, can cost.
-/
import BabylonVault.Session
import BabylonVault.Committed

namespace BabylonVault
open Bytes Prog

variable {E : Env} {st : SignPsbtState} {s : Session} {p : Psbt} {F : Flow} {v v' : Volatile}
  {d d' : Device} {ls : List Exchange} {gi ci : ℕ}

/-- A sum that is not smaller than a summand has not wrapped. -/
theorem toNat_add_checked {a b : UInt64} (h : ¬a + b < a) :
    (a + b).toNat = a.toNat + b.toNat := by
  have ha := a.toNat_lt
  have hb := b.toNat_lt
  rw [UInt64.lt_iff_toNat_lt, UInt64.toNat_add] at h
  rw [UInt64.toNat_add]
  omega

/-! ## Payout -/

/-- The largest fee of a Payout. -/
def payoutFeeBound (it : VaultIntent) : ℕ :=
  it.baseFeeRate.toNat * (500 + 55 * (it.keeperCount + it.challengerCount))

/-- The inputs of a Payout of group `gi`. -/
def payoutTotalIn (it : VaultIntent) (p : Psbt) (gi : ℕ) : ℕ :=
  (it.group gi).vaultAmount.toNat + p.utxoValue 1

/-- The fee of a Payout of group `gi`. -/
def payoutExactFee (it : VaultIntent) (p : Psbt) (nOutputs gi : ℕ) : ℤ :=
  payoutTotalIn it p gi - ∑ i ∈ Finset.range nOutputs, (p.outValue i : ℤ)

/-- What a Payout of group `gi` for claimer `ci` pays. -/
structure PayoutBound (E : Env) (it : VaultIntent) (p : Psbt) (nOutputs gi ci : ℕ) : Prop where
  fee : 0 < payoutExactFee it p nOutputs gi ∧ payoutExactFee it p nOutputs gi ≤ payoutFeeBound it
  provider : ci = 0 → bip86P2trSpk E it.depositorPk = some (p.outScript 0) ∧
    (payoutTotalIn it p gi : ℤ) - (it.group gi).commissionFee.toNat - 546 - payoutFeeBound it ≤
      p.outValue 0
  depositor : ci = it.keeperCount + 1 → bip86P2trSpk E it.depositorPk = some (p.outScript 0) ∧
    (payoutTotalIn it p gi : ℤ) - 546 - payoutFeeBound it ≤ p.outValue 0

theorem Accepted.payout_inv (h : Accepted E st s p.Allows v .payout v') :
    ∃ gi ci cb script, PayoutAccepted E st s p.Allows gi ci cb script ∧
      v'.tr.vaultGroupIndex = gi ∧ v'.tr.payoutIndex = ci := by
  cases h with
  | payout _ _ ha => exact ⟨_, _, _, _, ha, rfl, rfl⟩
  | leaf hF => exact Bool.noConfusion hF

/-- The bound that the source computes, without wrapping. -/
theorem toNat_feeBound {it : VaultIntent} {net : Network} (h : ScalarsOk net it) :
    (it.baseFeeRate * (maxPayoutVsizeBase + maxPayoutVsizePerParticipant *
      (UInt64.ofNat it.keeperCount + UInt64.ofNat it.challengerCount))).toNat =
        payoutFeeBound it ∧ payoutFeeBound it < 2 ^ 32 := by
  obtain ⟨⟨-, hk⟩, ⟨-, hc⟩, -⟩ := h.counts
  unfold maxKeepers at hk
  unfold maxChallengers at hc
  have hle : payoutFeeBound it ≤ 10000 * 4020 := Nat.mul_le_mul h.feeRate.2 (by omega)
  have hv : (maxPayoutVsizeBase + maxPayoutVsizePerParticipant *
      (UInt64.ofNat it.keeperCount + UInt64.ofNat it.challengerCount)).toNat =
        500 + 55 * (it.keeperCount + it.challengerCount) := by
    simp only [UInt64.toNat_add, UInt64.toNat_mul, UInt64.toNat_ofNat']
    show (500 + 55 * _ % 2 ^ 64) % 2 ^ 64 = _
    omega
  refine ⟨?_, by omega⟩
  rw [UInt64.toNat_mul, hv]
  exact Nat.mod_eq_of_lt (show payoutFeeBound it < 2 ^ 64 by omega)

/-- The outputs of an accepted Payout, exactly. -/
theorem PayoutOutputs.exact {out0 out1 out2 : UInt64}
    (h : PayoutOutputs E st s p.Allows gi ci out0 out1 out2)
    (hn : st.nOutputs = if ci = 0 then 3 else 2) :
    (out0 + out1 + out2).toNat = out0.toNat + out1.toNat + out2.toNat ∧
      ∑ i ∈ Finset.range st.nOutputs, (p.outValue i : ℤ) =
        (out0.toNat + out1.toNat + out2.toNat : ℕ) := by
  obtain ⟨_, _, h0, -⟩ := h.first
  obtain ⟨_, _, h1⟩ := h.second
  obtain ⟨hs1, hs2⟩ := h.sum
  refine ⟨by rw [toNat_add_checked hs2, toNat_add_checked hs1], ?_⟩
  have h3 := h.third
  split_ifs at hn h3
  · obtain ⟨-, _, _, h2⟩ := h3
    rw [hn] at h0 h1 h2 ⊢
    simp only [Finset.sum_range_succ, Finset.sum_range_zero, (Psbt.reads_output h0).2.1,
      (Psbt.reads_output h1).2.1, (Psbt.reads_output h2).2.1]
    push_cast
    ring
  · rw [hn] at h0 h1 ⊢
    simp only [Finset.sum_range_succ, Finset.sum_range_zero, (Psbt.reads_output h0).2.1,
      (Psbt.reads_output h1).2.1, h3]
    push_cast
    ring

/-- The fee check is exact unless the inputs wrap. -/
theorem PayoutAccepted.bound_iff {cb script : Bytes} {net : Network}
    (h : PayoutAccepted E st s p.Allows gi ci cb script) (hs : ScalarsOk net s.intent) :
    PayoutBound E s.intent p st.nOutputs gi ci ↔ payoutTotalIn s.intent p gi < 2 ^ 64 := by
  obtain ⟨a0, out0, out1, out2, ha0, hout, hfee⟩ := h.value
  obtain ⟨_, hutxo, -⟩ := ha0.utxo
  obtain ⟨hbound, hsmall⟩ := toNat_feeBound hs
  obtain ⟨htotal, hsum⟩ := hout.exact h.nOutputs
  obtain ⟨spk0, _, hread0, hspk0⟩ := hout.first
  obtain ⟨-, hval0, hscript0⟩ := Psbt.reads_output hread0
  have ha := (Psbt.reads_utxo hutxo).1
  have hva := (s.intent.group gi).vaultAmount.toNat_lt
  have hlt0 := a0.toNat_lt
  -- The check over the naturals: the inputs are summed modulo 2 ^ 64.
  have hcov := hfee.covered
  have hpos := hfee.pos
  have hle := hfee.bound
  rw [gt_iff_lt, UInt64.lt_iff_toNat_lt, htotal, UInt64.toNat_add] at hcov
  have hsub : ((s.intent.group gi).vaultAmount + a0 - (out0 + out1 + out2)).toNat =
      ((s.intent.group gi).vaultAmount.toNat + a0.toNat) % 2 ^ 64 -
        (out0.toNat + out1.toNat + out2.toNat) := by
    rw [UInt64.toNat_sub_of_le, htotal, UInt64.toNat_add]
    rw [UInt64.le_iff_toNat_le, htotal, UInt64.toNat_add]
    omega
  rw [gt_iff_lt, UInt64.lt_iff_toNat_lt, hbound, hsub] at hle
  rw [← UInt64.toNat_inj, hsub, UInt64.toNat_zero] at hpos
  have hin : payoutTotalIn s.intent p gi =
      (s.intent.group gi).vaultAmount.toNat + a0.toNat := by rw [payoutTotalIn, ha]
  have hex : payoutExactFee s.intent p st.nOutputs gi = ((s.intent.group gi).vaultAmount.toNat +
      a0.toNat : ℕ) - (out0.toNat + out1.toNat + out2.toNat : ℕ) := by
    rw [payoutExactFee, hsum, hin]
  constructor
  · intro hb
    have hb2 := hb.fee.2
    rw [hex] at hb2
    omega
  · intro hlt
    rw [hin] at hlt
    rw [Nat.mod_eq_of_lt hlt] at hcov hpos hle
    refine ⟨by rw [hex]; omega, ?_, ?_⟩
    · intro hc
      have hcom := UInt64.le_iff_toNat_le.1 (hout.commission hc)
      have h3 := hout.third
      rw [if_pos hc] at h3
      have h2 : out2.toNat = 546 := congrArg UInt64.toNat h3.1
      refine ⟨hscript0 ▸ hspk0 (.inl hc), ?_⟩
      rw [hin, hval0]
      omega
    · intro hc
      have h1 : out1.toNat = 546 := congrArg UInt64.toNat (hout.anchor (by omega))
      have h3 := hout.third
      rw [if_neg (by omega)] at h3
      have h2 : out2.toNat = 0 := congrArg UInt64.toNat h3
      refine ⟨hscript0 ▸ hspk0 (.inr hc), ?_⟩
      rw [hin, hval0]
      omega

/-- A Payout that the device accepts pays what it should exactly when the sum of its
    two inputs fits in 64 bits. -/
theorem Reach.payout_bound_iff (h : Reach E ls d)
    (hv : (validateAndDisplayTransaction E st).Via p.AllowsDev d .payout d') :
    ∃ gi, findPeginGroup E d.intent (p.prevTxid 0) = some gi ∧ d'.tr.vaultGroupIndex = gi ∧
      (PayoutBound E d.intent p st.nOutputs gi d'.tr.payoutIndex ↔
        payoutTotalIn d.intent p gi < 2 ^ 64) := by
  obtain ⟨-, junk, v', hacc, rfl⟩ := validateAndDisplayTransaction_via hv
  obtain ⟨gi, ci, cb, script, ha, hgi, hci⟩ := hacc.payout_inv
  obtain ⟨txid, htxid, hfind⟩ := ha.found
  rw [acceptedDevice_tr, hgi, hci]
  refine ⟨gi, ?_, rfl, ha.bound_iff (h.session.loaded ha.loaded).intent.scalars⟩
  rw [Psbt.prevTxid_eq htxid]
  exact hfind

namespace Signet

/-- An intent over one vault of `2 ^ 64 - 1` satoshi. -/
def intentHuge : VaultIntent := intentOf [group 0 providerKey 0xFFFFFFFFFFFFFFFF]

/-- Its Payout, which leaves the depositor 546 satoshi. -/
def payoutHuge : Psbt :=
  payout intentHuge 0x5ba92c4c8e5218311edae193e4d55954a06132f7d475ab02e028c6e0bd0c685b 5000
    [(546, spk depositorOut), (0, p2trSpk (.be 32 providerKey)),
     (546, p2trSpk (.be 32 providerKey))]

theorem loaded_intentHuge : loaded intentHuge = holding intentHuge [hashlock] 0xa8c6ee5d := by
  decide +kernel

/-- The device after it has validated a Payout. -/
def payoutAccepted (it : VaultIntent) (p : Psbt) : Device :=
  ((validateAndDisplayTransaction env (parsed p 0 0)).eval (p.answers (Buf.zero 32)) (loaded it)).2

/-- A Payout is accepted for the provider of the first vault. -/
theorem payout_accepted {it : VaultIntent} {p : Psbt}
    (h : ((validateAndDisplayTransaction env (parsed p 0 0)).eval (p.answers (Buf.zero 32))
      (loaded it)).1 = .ok .payout) :
    (validateAndDisplayTransaction env (parsed p 0 0)).Via p.AllowsDev (loaded it) .payout
      (payoutAccepted it p) := via_of_eval (p.answers_allows _) h

end Signet

open Signet in
theorem payout_bound_small : PayoutBound env (loaded intent).intent payoutSmall 3 0 0 := by
  have hrun : ((validateAndDisplayTransaction env (parsed payoutSmall 0 0)).eval
      (payoutSmall.answers (Buf.zero 32)) (loaded intent)).1 = .ok .payout ∧
      (payoutAccepted intent payoutSmall).tr.vaultGroupIndex = 0 ∧
      (payoutAccepted intent payoutSmall).tr.payoutIndex = 0 := by
    unfold payoutAccepted
    rw [loaded_intent]
    decide +kernel
  obtain ⟨hok, hg, hc⟩ := hrun
  obtain ⟨gi, -, hgi, hiff⟩ := (reach_loaded intent).payout_bound_iff (payout_accepted hok)
  rw [hg] at hgi
  rw [hc, ← hgi] at hiff
  refine hiff.2 ?_
  rw [loaded_intent]
  decide +kernel

open Signet in
/-- A Payout is accepted that pays all but 1092 satoshi of its inputs as fee. -/
theorem payout_fee_wraps :
    (validateAndDisplayTransaction env (parsed payoutHuge 0 0)).Via payoutHuge.AllowsDev
        (loaded intentHuge) .payout (payoutAccepted intentHuge payoutHuge) ∧
      (payoutAccepted intentHuge payoutHuge).tr.vaultGroupIndex = 0 ∧
      ¬PayoutBound env (loaded intentHuge).intent payoutHuge 3 0 0 := by
  have hrun : ((validateAndDisplayTransaction env (parsed payoutHuge 0 0)).eval
      (payoutHuge.answers (Buf.zero 32)) (loaded intentHuge)).1 = .ok .payout ∧
      (payoutAccepted intentHuge payoutHuge).tr.vaultGroupIndex = 0 := by
    unfold payoutAccepted
    rw [loaded_intentHuge]
    decide +kernel
  refine ⟨payout_accepted hrun.1, hrun.2, fun h => absurd h.fee.2 ?_⟩
  rw [loaded_intentHuge]
  decide +kernel

/-! ## Pre-PegIn -/

/-- What covers a summand of `A` is counted in the sum over `B`. -/
theorem sum_le_of_covered {A B : Finset ℕ} {f w g : ℕ → ℕ}
    (h : ∀ i ∈ A, f i = 0 ∨ ∃ j ∈ B, g j = i ∧ f i ≤ w j) : ∑ i ∈ A, f i ≤ ∑ j ∈ B, w j := by
  calc ∑ i ∈ A, f i ≤ ∑ i ∈ A, ∑ j ∈ B, (if g j = i then w j else 0) := by
        refine Finset.sum_le_sum fun i hi => ?_
        obtain h0 | ⟨j, hj, rfl, hle⟩ := h i hi
        · rw [h0]
          exact Nat.zero_le _
        · have := Finset.single_le_sum (f := fun k => if g k = g j then w k else 0)
            (fun _ _ => Nat.zero_le _) hj
          exact hle.trans (by simpa using this)
    _ = ∑ j ∈ B, ∑ i ∈ A, (if g j = i then w j else 0) := Finset.sum_comm
    _ ≤ ∑ j ∈ B, w j := by
        refine Finset.sum_le_sum fun j _ => ?_
        rw [Finset.sum_ite_eq]
        split_ifs
        · exact le_rfl
        · exact Nat.zero_le _

/-- The least value of the HTLC of a group, and the most above it. -/
def htlcMin (grp : VaultGroup) : ℕ := grp.vaultAmount.toNat + grp.depositorClaimValue.toNat + 240

/-- The HTLC scriptPubKey that the device rebuilds for a group. -/
def htlcSpk (E : Env) (s : Session) (gi : ℕ) : Option Bytes :=
  vaultBuildHtlcScriptpubkey E s.intent gi (s.hashlock gi)

/-- The outputs that pay the depositor. -/
def depositorOutputs (E : Env) (it : VaultIntent) (p : Psbt) (nOutputs : ℕ) : Finset ℕ :=
  (Finset.range nOutputs).filter fun i => bip86P2trSpk E it.depositorPk = some (p.outScript i)

/-- What a Pre-PegIn with these input values can cost the depositor. -/
structure PrepeginBound (E : Env) (st : SignPsbtState) (s : Session) (p : Psbt)
    (inValue : ℕ → ℕ) : Prop where
  spend : ∑ i ∈ Finset.range st.nInputs, (inValue i : ℤ) -
      ∑ i ∈ depositorOutputs E s.intent p st.nOutputs, (p.outValue i : ℤ) ≤
    (∑ gi ∈ Finset.range s.intent.vaultCount, (htlcMin (s.intent.group gi) +
      (s.intent.group gi).peginMaxFee.toNat : ℕ) : ℤ) + s.intent.prepeginMaxFee.toNat
  htlc : ∀ gi < s.intent.vaultCount, (s.intent.group gi).htlcVout.toNat < st.nOutputs ∧
    htlcSpk E s gi = some (p.outScript (s.intent.group gi).htlcVout.toNat) ∧
    htlcMin (s.intent.group gi) ≤ p.outValue (s.intent.group gi).htlcVout.toNat
  /-- Each group has an output of its own. -/
  apart : ∀ gi < s.intent.vaultCount, ∀ gj < s.intent.vaultCount,
    (s.intent.group gi).htlcVout = (s.intent.group gj).htlcVout → gi = gj
  /-- Unless scriptPubKeys collide, no other output is an HTLC of the group. -/
  only : ∀ gi < s.intent.vaultCount, htlcSpk E s gi ≠ bip86P2trSpk E s.intent.depositorPk →
    (∀ gj < s.intent.vaultCount, htlcSpk E s gj = htlcSpk E s gi → gj = gi) →
    ∀ i < st.nOutputs, htlcSpk E s gi = some (p.outScript i) →
      i = (s.intent.group gi).htlcVout.toNat
  other : ∀ i < st.nOutputs, ¬IsHtlcVout s.intent i → p.outValue i = 0 ∨
    bip86P2trSpk E s.intent.depositorPk = some (p.outScript i)

theorem Accepted.prepegin_inv (h : Accepted E st s p.Allows v .prepegin v') :
    PrepeginAccepted E st s p.Allows := by
  cases h with
  | prepegin _ _ ha => exact ha
  | leaf hF => exact Bool.noConfusion hF

/-- The window of an HTLC, exactly. -/
theorem HtlcWindow.exact {grp : VaultGroup} {value : UInt64} (h : HtlcWindow grp value) :
    htlcMin grp ≤ value.toNat ∧ value.toNat ≤ htlcMin grp + grp.peginMaxFee.toNat := by
  obtain ⟨⟨h1, h2, h3⟩, hw⟩ := h
  have hanchor : p2aAnchorValue.toNat = 240 := rfl
  have hmin := toNat_add_checked h2
  rw [toNat_add_checked h1, hanchor] at hmin
  have hmax := toNat_add_checked h3
  rw [hmin] at hmax
  simp only [not_or, gt_iff_lt, UInt64.lt_iff_toNat_lt, not_lt] at hw
  rw [hmin, hmax] at hw
  unfold htlcMin
  omega

/-- A rebuilt HTLC scriptPubKey is a P2TR. -/
theorem htlcSpk_p2tr {spk : Bytes} (h : htlcSpk E s gi = some spk) : ∃ key, spk = p2trSpk key := by
  unfold htlcSpk vaultBuildHtlcScriptpubkey vaultTaprootTweakScriptpubkey at h
  obtain ⟨root, -, h⟩ := Option.bind_eq_some_iff.1 h
  obtain ⟨r, -, rfl⟩ := Option.map_eq_some_iff.1 h
  exact ⟨r.2, rfl⟩

/-- The HTLC output of a group in a committed PSBT. -/
theorem HtlcOutput.exact (h : HtlcOutput E st s p.Allows gi) :
    (s.intent.group gi).htlcVout.toNat < st.nOutputs ∧
      htlcSpk E s gi = some (p.outScript (s.intent.group gi).htlcVout.toNat) ∧
      htlcMin (s.intent.group gi) ≤ p.outValue (s.intent.group gi).htlcVout.toNat ∧
      p.outValue (s.intent.group gi).htlcVout.toNat ≤
        htlcMin (s.intent.group gi) + (s.intent.group gi).peginMaxFee.toNat := by
  obtain ⟨hlt, spk, value, hspk, hread, hw⟩ := h
  obtain ⟨-, hval, hscript⟩ := Psbt.reads_output hread
  rw [hval, hscript]
  exact ⟨hlt, hspk, hw.exact⟩

/-- Every other output carries nothing or pays the depositor. -/
theorem OtherOutput.exact {i : ℕ} (h : OtherOutput E st s p.Allows i) :
    p.outValue i = 0 ∧ p.outScript i = authAnchorSpk s.ctx.authAnchorHash ∨
      bip86P2trSpk E s.intent.depositorPk = some (p.outScript i) := by
  obtain ⟨-, spk, value, hread, hcase⟩ := h
  obtain ⟨-, hval, hscript⟩ := Psbt.reads_output hread
  rw [hval, hscript]
  rcases hcase with ⟨rfl, rfl⟩ | hdep
  · exact .inl ⟨rfl, rfl⟩
  · exact .inr hdep

/-- Two groups of a loaded intent have two outputs. -/
theorem LoadedIntent.apart {it : VaultIntent} (h : LoadedIntent E it) {gi gj : ℕ}
    (hi : gi < it.vaultCount) (hj : gj < it.vaultCount)
    (he : (it.group gi).htlcVout = (it.group gj).htlcVout) : gi = gj := by
  rcases Nat.lt_trichotomy gi gj with hlt | rfl | hlt
  · exact absurd (h.groups.vout_lt hlt hj) (by rw [he]; exact UInt8.lt_irrefl _)
  · rfl
  · exact absurd (h.groups.vout_lt hlt hi) (by rw [he]; exact UInt8.lt_irrefl _)

/-- What leaves the depositor is in the HTLCs and the fee. -/
theorem PrepeginAccepted.spend {inValue : ℕ → ℕ} (h : PrepeginAccepted E st s p.Allows)
    (hin : st.inputsTotalAmount.toNat = ∑ i ∈ Finset.range st.nInputs, inValue i)
    (hout : st.outputsTotalAmount.toNat = ∑ i ∈ Finset.range st.nOutputs, p.outValue i) :
    ∑ i ∈ Finset.range st.nInputs, inValue i ≤
      ∑ i ∈ depositorOutputs E s.intent p st.nOutputs, p.outValue i +
      ∑ gi ∈ Finset.range s.intent.vaultCount, (htlcMin (s.intent.group gi) +
        (s.intent.group gi).peginMaxFee.toNat) + s.intent.prepeginMaxFee.toNat := by
  have hfee := h.fee
  have hcov := h.covered
  rw [gt_iff_lt, UInt64.lt_iff_toNat_lt] at hcov
  rw [gt_iff_lt, UInt64.lt_iff_toNat_lt, UInt64.toNat_sub_of_le _ _
    (UInt64.le_iff_toNat_le.2 (not_lt.1 hcov))] at hfee
  have hrest : ∑ i ∈ (Finset.range st.nOutputs).filter
        (fun i => ¬bip86P2trSpk E s.intent.depositorPk = some (p.outScript i)), p.outValue i ≤
      ∑ gi ∈ Finset.range s.intent.vaultCount, (htlcMin (s.intent.group gi) +
        (s.intent.group gi).peginMaxFee.toNat) := by
    refine sum_le_of_covered (g := fun gi => (s.intent.group gi).htlcVout.toNat) fun i hi => ?_
    obtain ⟨hlt, hnot⟩ := Finset.mem_filter.1 hi
    rcases h.other i (Finset.mem_range.1 hlt) with ⟨gi, hgi, rfl⟩ | ho
    · exact .inr ⟨gi, Finset.mem_range.2 hgi, rfl, (h.htlc gi hgi).exact.2.2.2⟩
    · exact .inl (ho.exact.resolve_right hnot).1
  have hsplit := Finset.sum_filter_add_sum_filter_not (Finset.range st.nOutputs)
    (fun i => bip86P2trSpk E s.intent.depositorPk = some (p.outScript i)) p.outValue
  unfold depositorOutputs
  omega

/-- An accepted Pre-PegIn costs what the intent allows, if the base app's totals are the
    sums of its amounts. -/
theorem Reach.prepegin_bound {inValue : ℕ → ℕ} (h : Reach E ls d)
    (hv : (validateAndDisplayTransaction E st).Via p.AllowsDev d .prepegin d')
    (hin : st.inputsTotalAmount.toNat = ∑ i ∈ Finset.range st.nInputs, inValue i)
    (hout : st.outputsTotalAmount.toNat = ∑ i ∈ Finset.range st.nOutputs, p.outValue i) :
    PrepeginBound E st d.session p inValue := by
  obtain ⟨-, _, _, hacc, -⟩ := validateAndDisplayTransaction_via hv
  have ha := hacc.prepegin_inv
  have hint := (h.session.loaded ha.loaded).intent
  refine ⟨?_, fun gi hgi => ?_, fun gi hi gj hj => hint.apart hi hj, ?_, fun i hi hno => ?_⟩
  · have := ha.spend hin hout
    push_cast at this ⊢
    zify at this
    linarith
  · obtain ⟨h1, h2, h3, -⟩ := (ha.htlc gi hgi).exact
    exact ⟨h1, h2, h3⟩
  · intro gi hgi hdep huniq i hi hspk
    rcases ha.other i hi with ⟨gj, hgj, rfl⟩ | ho
    · rw [huniq gj hgj ((ha.htlc gj hgj).exact.2.1.trans hspk.symm)]
    · rcases ho.exact with ⟨-, hanchor⟩ | hpays
      · obtain ⟨key, hkey⟩ := htlcSpk_p2tr hspk
        rw [hanchor] at hkey
        cases hkey
      · exact absurd (hspk.trans hpays.symm) hdep
  · rcases ha.other i hi with hg | ho
    · exact absurd hg hno
    · exact ho.exact.imp_left And.left

namespace Signet

theorem prepegin_accepted : ∃ d', (validateAndDisplayTransaction env prepeginState).Via
    prepegin.AllowsDev (loaded intent) .prepegin d' :=
  ⟨_, via_of_eval (prepegin.answers_allows (Buf.zero 32)) (by rw [loaded_intent]; decide +kernel)⟩

end Signet

open Signet in
theorem prepegin_bound_signet : PrepeginBound env prepeginState (loaded intent).session prepegin
    (fun i => if i = 0 then 200000 else 160000) := by
  obtain ⟨_, hv⟩ := prepegin_accepted
  exact (reach_loaded intent).prepegin_bound hv (by decide +kernel) (by decide +kernel)

end BabylonVault
