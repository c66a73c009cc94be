/-
  What an approved review binds.

  * `SameTerms`, `SameKeys`: two intents agree on what the mandatory screens of a review show,
    and on its list of keys.
  * `review_iff`: two reviews show the same exactly when the intents agree on both and the
    sessions are for one application.
  * `Reach.review_binds`: then the leaves of the two sessions are the same, but for the keys
    and the hashlocks of the device itself.
-/
import BabylonVault.Amounts
import BabylonVault.Builders
import BabylonVault.Display
import BabylonVault.Lib.Text

namespace BabylonVault
open Bytes Text

/-- Two groups that a review shows alike: all but the output index. -/
structure SameGroup (g g' : VaultGroup) : Prop where
  provider : g.vaultProviderPk = g'.vaultProviderPk
  amount : g.vaultAmount = g'.vaultAmount
  commission : g.commissionFee = g'.commissionFee
  claim : g.depositorClaimValue = g'.depositorClaimValue
  fee : g.peginMaxFee = g'.peginMaxFee

/-- The same terms, but for the keys of keepers and challengers. -/
structure SameTerms (it it' : VaultIntent) : Prop where
  feeRate : it.baseFeeRate = it'.baseFeeRate
  pegin : it.peginCsvTimelock = it'.peginCsvTimelock
  payout : it.payoutTimelock = it'.payoutTimelock
  refund : it.htlcRefundTimelock = it'.htlcRefundTimelock
  prepeginFee : it.prepeginMaxFee = it'.prepeginMaxFee
  keeperCount : it.keeperCount = it'.keeperCount
  challengerCount : it.challengerCount = it'.challengerCount
  vaultCount : it.vaultCount = it'.vaultCount
  groups : ∀ g < it.vaultCount, SameGroup (it.group g) (it'.group g)

/-- The same keepers and challengers. -/
structure SameKeys (it it' : VaultIntent) : Prop where
  keepers : it.keepers = it'.keepers
  challengers : it.challengers = it'.challengers

variable {E : Env} {s s' : Session} {it it' : VaultIntent} {touch : Bool}

/-! ## Texts -/

theorem formatTimelockBlocks_eq (blocks : ℕ) :
    ∃ t, formatTimelockBlocks blocks = blocks.repr ++ (" blocks (~" ++ t) := by
  unfold formatTimelockBlocks
  dsimp only
  split_ifs
  · exact ⟨_, by simp only [String.append_assoc]; rfl⟩
  · exact ⟨_, by simp only [String.append_assoc]; rfl⟩
  · exact ⟨_, by simp only [String.append_assoc]; rfl⟩

/-- A timelock can be read off its text. -/
theorem formatTimelockBlocks_inj {blocks blocks' : ℕ} :
    formatTimelockBlocks blocks = formatTimelockBlocks blocks' ↔ blocks = blocks' := by
  refine ⟨fun h => ?_, congrArg _⟩
  obtain ⟨t, ht⟩ := formatTimelockBlocks_eq blocks
  obtain ⟨t', ht'⟩ := formatTimelockBlocks_eq blocks'
  rw [ht, ht'] at h
  have hstops : Stops " blocks (~" := by decide
  exact repr_append_inj (hstops.append (by decide)) (hstops.append (by decide)) h

theorem count_inj {n m : ℕ} : s!"{n}" = s!"{m}" ↔ n = m := ⟨fun h => repr_inj h, congrArg _⟩

/-- The fee rate is shown whole: the parser has bounded it. -/
theorem feeRate_inj {x y : UInt64} (hx : x.toNat ≤ 10000) (hy : y.toNat ≤ 10000) :
    s!"{x.toUInt32} sat/vB" = s!"{y.toUInt32} sat/vB" ↔ x = y := by
  refine ⟨fun h => ?_, fun h => by rw [h]⟩
  have hn : x.toUInt32.toNat = y.toUInt32.toNat := repr_append_inj (by decide) (by decide) h
  rw [UInt64.toNat_toUInt32, UInt64.toNat_toUInt32, Nat.mod_eq_of_lt (by omega),
    Nat.mod_eq_of_lt (by omega)] at hn
  exact UInt64.toNat_inj.1 hn

/-! ## Screens -/

theorem vaultPairs_iff (h : s.intent.baseFeeRate.toNat ≤ 10000)
    (h' : s'.intent.baseFeeRate.toNat ≤ 10000) : vaultPairs s = vaultPairs s' ↔
      s.ctx.appName = s'.ctx.appName ∧ s.intent.baseFeeRate = s'.intent.baseFeeRate ∧
      s.intent.peginCsvTimelock = s'.intent.peginCsvTimelock ∧
      s.intent.payoutTimelock = s'.intent.payoutTimelock ∧
      s.intent.htlcRefundTimelock = s'.intent.htlcRefundTimelock ∧
      s.intent.prepeginMaxFee = s'.intent.prepeginMaxFee ∧
      s.intent.keeperCount = s'.intent.keeperCount ∧
      s.intent.challengerCount = s'.intent.challengerCount := by
  simp only [vaultPairs, List.cons.injEq, Row.mk.injEq, Shown.bytes.injEq, Shown.string.injEq,
    Shown.amount.injEq, true_and, and_true, feeRate_inj h h', formatTimelockBlocks_inj, count_inj]

theorem groupPairs_iff {i : ℕ} (hc : it.vaultCount = it'.vaultCount) :
    groupPairs touch it i = groupPairs touch it' i ↔ SameGroup (it.group i) (it'.group i) := by
  simp only [groupPairs, List.cons.injEq, Row.mk.injEq, Shown.hex.injEq, Shown.amount.injEq,
    hc, true_and, and_true]
  constructor
  · rintro ⟨h1, h2, h3, h4, h5⟩
    exact ⟨h1, h2, h3, h4, h5⟩
  · rintro ⟨h1, h2, h3, h4, h5⟩
    exact ⟨h1, h2, h3, h4, h5⟩

/-- The mandatory screens show the application and the terms. -/
theorem mandatory_iff (h : s.intent.baseFeeRate.toNat ≤ 10000)
    (h' : s'.intent.baseFeeRate.toNat ≤ 10000) :
    mandatoryScreens touch s = mandatoryScreens touch s' ↔
      s.ctx.appName = s'.ctx.appName ∧ SameTerms s.intent s'.intent := by
  simp only [mandatoryScreens, paramsScreen, List.cons.injEq, Pane.rows.injEq, vaultPairs_iff h h',
    true_and]
  constructor
  · rintro ⟨⟨happ, hrate, hpegin, hpayout, hrefund, hfee, hk, hc⟩, hgroups⟩
    have hv : s.intent.vaultCount = s'.intent.vaultCount := by
      simpa using congrArg List.length hgroups
    refine ⟨happ, hrate, hpegin, hpayout, hrefund, hfee, hk, hc, hv, fun g hg => ?_⟩
    rw [← hv] at hgroups
    exact (groupPairs_iff hv).1 (Pane.rows.inj (List.map_inj_left.1 hgroups g (List.mem_range.2 hg)))
  · rintro ⟨happ, ht⟩
    refine ⟨⟨happ, ht.feeRate, ht.pegin, ht.payout, ht.refund, ht.prepeginFee, ht.keeperCount,
      ht.challengerCount⟩, ?_⟩
    rw [← ht.vaultCount]
    refine List.map_inj_left.2 fun g hg => congrArg Pane.rows ?_
    exact (groupPairs_iff ht.vaultCount).2 (ht.groups g (List.mem_range.1 hg))

/-- The label of a key. -/
def keyLabel (keeperCount j : ℕ) : String :=
  if j < keeperCount then s!"Keeper {j + 1}" else s!"Challenger {j - keeperCount + 1}"

theorem keysScreen_eq (h : it.keeperCount + it.challengerCount < 256) : keysScreen it =
    .rows ((List.range (it.keeperCount + it.challengerCount)).map
      fun j => ⟨keyLabel it.keeperCount j, .hex (storedKey it j)⟩) := by
  rw [keysScreen, Nat.mod_eq_of_lt h]
  congr 1
  rw [← List.filterMap_eq_map]
  refine List.filterMap_congr fun j hj => ?_
  unfold vaultKeyPairCallback keyLabel storedKey
  rw [Nat.mod_eq_of_lt h, if_pos (List.mem_range.1 hj)]
  dsimp only [Function.comp]
  split_ifs <;> rfl

/-- The list of keys shows the keys. -/
theorem keysScreen_iff (hk : it.keeperCount ≤ maxKeepers) (hc : it.challengerCount ≤ maxChallengers)
    (hk' : it.keeperCount = it'.keeperCount) (hc' : it.challengerCount = it'.challengerCount) :
    keysScreen it = keysScreen it' ↔ SameKeys it it' := by
  have hlt : it.keeperCount + it.challengerCount < 256 := by
    unfold maxKeepers at hk
    unfold maxChallengers at hc
    omega
  have hlists : SameKeys it it' ↔ it.keepers ++ it.challengers = it'.keepers ++ it'.challengers := by
    have hl : it.keepers.length = it'.keepers.length := by
      rw [VaultIntent.keepers, VaultIntent.keepers, List.Vector.length_upto hk,
        List.Vector.length_upto (hk' ▸ hk), hk']
    constructor
    · rintro ⟨h1, h2⟩
      rw [h1, h2]
    · intro h
      obtain ⟨h1, h2⟩ := List.append_inj h hl
      exact ⟨h1, h2⟩
  rw [hlists, keepers_append_challengers hk hc, keepers_append_challengers (hk' ▸ hk) (hc' ▸ hc),
    keysScreen_eq hlt, keysScreen_eq (by rwa [← hk', ← hc']), ← hk', ← hc']
  simp only [Pane.rows.injEq, List.map_inj_left, Row.mk.injEq, Shown.hex.injEq, true_and]

/-- Two reviews show the same exactly when the application, the terms and the keys are the
    same. -/
theorem review_iff (hi : LoadedIntent E s.intent) (hi' : LoadedIntent E s'.intent) :
    reviewScreens touch s = reviewScreens touch s' ↔
      s.ctx.appName = s'.ctx.appName ∧ SameTerms s.intent s'.intent ∧ SameKeys s.intent s'.intent := by
  obtain ⟨⟨-, hk⟩, ⟨-, hc⟩, -⟩ := hi.scalars.counts
  have hm : mandatoryScreens touch s = mandatoryScreens touch s' ↔ _ :=
    mandatory_iff hi.scalars.feeRate.2 hi'.scalars.feeRate.2
  have hclosing : closingScreens touch s.intent = closingScreens touch s'.intent ↔
      keysScreen s.intent = keysScreen s'.intent := by
    simp [closingScreens]
  have hlen : (closingScreens touch s.intent).length = (closingScreens touch s'.intent).length := by
    simp [closingScreens]
  rw [reviewScreens_mandatory, reviewScreens_mandatory]
  constructor
  · intro h
    obtain ⟨hmand, hclose⟩ := List.append_inj' h hlen
    have hmand := List.map_injective_iff.2 (fun _ _ h => (Prod.mk.inj h).1) hmand
    obtain ⟨happ, ht⟩ := hm.1 hmand
    exact ⟨happ, ht, (keysScreen_iff hk hc ht.keeperCount ht.challengerCount).1 (hclosing.1 hclose)⟩
  · rintro ⟨happ, ht, hkeys⟩
    rw [hm.2 ⟨happ, ht⟩,
      hclosing.2 ((keysScreen_iff hk hc ht.keeperCount ht.challengerCount).2 hkeys)]

/-! ## Leaves -/

section Leaves
variable (ht : SameTerms it it') (hkeys : SameKeys it it') (hdep : it.depositorPk = it'.depositorPk)

include ht hkeys in
theorem buildAppChallengers_same {gi : ℕ} (hg : gi < it.vaultCount) (ci : ℕ) :
    buildAppChallengers it gi ci = buildAppChallengers it' gi ci := by
  rw [buildAppChallengers, buildAppChallengers, ht.keeperCount, hkeys.keepers,
    (ht.groups gi hg).provider]

include ht hkeys in
/-- A key of a common index. -/
theorem storedKey_same (hk : it.keeperCount ≤ maxKeepers) (hc : it.challengerCount ≤ maxChallengers)
    {j : ℕ} (hj : j < it.keeperCount + it.challengerCount) : storedKey it j = storedKey it' j := by
  have hl := keepers_append_challengers hk hc
  rw [hkeys.keepers, hkeys.challengers, keepers_append_challengers (ht.keeperCount ▸ hk)
    (ht.challengerCount ▸ hc), ← ht.keeperCount, ← ht.challengerCount] at hl
  exact (List.map_inj_left.1 hl j (List.mem_range.2 hj)).symm

include ht hkeys hdep in
theorem claimerPk_same (hk : it.keeperCount ≤ maxKeepers) (hc : it.challengerCount ≤ maxChallengers)
    {gi ci : ℕ} (hg : gi < it.vaultCount) (hci : ci ≤ it.keeperCount + 1) :
    claimerPk it gi ci = claimerPk it' gi ci := by
  unfold claimerPk
  rw [← ht.keeperCount]
  split_ifs with h0 h1
  · exact (ht.groups gi hg).provider
  · exact hdep
  · have hlt : ci - 1 < it.keeperCount := by omega
    have hstored := storedKey_same ht hkeys hk hc (Nat.lt_add_right it.challengerCount hlt)
    rwa [storedKey, storedKey, ← ht.keeperCount, if_pos hlt, if_pos hlt] at hstored

include ht hkeys hdep in
/-- Intents with the same terms, keys and depositor build the same leaves. -/
theorem LeafCall.build_same (hk : it.keeperCount ≤ maxKeepers)
    (hc : it.challengerCount ≤ maxChallengers) (c : LeafCall) (n : ℕ) :
    c.build it n = c.build it' n := by
  have hgroup : ∀ {gi}, ¬gi ≥ it.vaultCount →
      (it.group gi).vaultProviderPk = (it'.group gi).vaultProviderPk := fun hg =>
    (ht.groups _ (not_le.1 hg)).provider
  have hstored : ∀ {j}, j < it.keeperCount + it.challengerCount → storedKey it j = storedKey it' j :=
    storedKey_same ht hkeys hk hc
  cases c with
  | claim => rw [build, build, vaultBuildDepositorClaimLeaf, vaultBuildDepositorClaimLeaf, hdep]
  | htlc1 => rw [build, build, vaultBuildHtlcLeaf1, vaultBuildHtlcLeaf1, hdep, ht.refund]
  | htlc0 gi h =>
    show vaultBuildHtlcLeaf0 it gi h n = vaultBuildHtlcLeaf0 it' gi h n
    unfold vaultBuildHtlcLeaf0
    rw [← ht.vaultCount, ← hdep, ← hkeys.keepers, ← hkeys.challengers]
    split_ifs with hg
    · rfl
    · rw [hgroup hg]
  | vaultUtxo gi =>
    show vaultBuildVaultUtxoLeaf it gi n = vaultBuildVaultUtxoLeaf it' gi n
    unfold vaultBuildVaultUtxoLeaf
    rw [← ht.vaultCount, ← hdep, ← hkeys.keepers, ← hkeys.challengers, ← ht.pegin]
    split_ifs with hg
    · rfl
    · rw [hgroup hg]
  | payout gi ci =>
    show vaultBuildAssert0PayoutLeaf it gi ci n = vaultBuildAssert0PayoutLeaf it' gi ci n
    unfold vaultBuildAssert0PayoutLeaf
    rw [← ht.vaultCount, ← ht.keeperCount, ← hkeys.challengers, ← ht.payout]
    split_ifs with hg hci
    · rfl
    · rfl
    · rw [buildAppChallengers_same ht hkeys (not_le.1 hg),
        claimerPk_same ht hkeys hdep hk hc (not_le.1 hg) (not_lt.1 hci)]
  | nopayout ci =>
    show vaultBuildNopayoutLeaf it ci n = vaultBuildNopayoutLeaf it' ci n
    unfold vaultBuildNopayoutLeaf
    rw [← ht.keeperCount, ← ht.challengerCount, ← hdep]
    split_ifs with hci
    · rfl
    · have hkey : challengerPk it ci = challengerPk it' ci := hstored (not_le.1 hci)
      rw [hkey]

end Leaves

/-! ## Sessions -/

/-- What the review of `s` says of any other session `s'` that is reviewed alike. -/
structure ReviewBinds (touch : Bool) (s s' : Session) : Prop where
  mandatory : mandatoryScreens touch s = mandatoryScreens touch s' ↔
    s.ctx.appName = s'.ctx.appName ∧ SameTerms s.intent s'.intent
  review : reviewScreens touch s = reviewScreens touch s' ↔
    s.ctx.appName = s'.ctx.appName ∧ SameTerms s.intent s'.intent ∧ SameKeys s.intent s'.intent
  /-- The device's own key and the hashlocks, which it derives, are not shown. -/
  leaves : reviewScreens touch s = reviewScreens touch s' →
    s.intent.depositorPk = s'.intent.depositorPk → ∀ (c : LeafCall) (n : ℕ),
      c.build s.intent n = c.build s'.intent n

/-- The review of a loaded intent binds its terms and, with them, every leaf of its vaults. -/
theorem Reach.review_binds {ls ls' : List Exchange} {d d' : Device} (h : Reach E ls d)
    (hl : d.ctx.state = .intentLoaded) (h' : Reach E ls' d') (hl' : d'.ctx.state = .intentLoaded) :
    ReviewBinds touch d.session d'.session := by
  have hi : LoadedIntent E d.session.intent := (h.session.loaded hl).intent
  have hi' : LoadedIntent E d'.session.intent := (h'.session.loaded hl').intent
  refine ⟨mandatory_iff hi.scalars.feeRate.2 hi'.scalars.feeRate.2, review_iff hi hi', ?_⟩
  intro hr hdep
  obtain ⟨⟨-, hk⟩, ⟨-, hc⟩, -⟩ := hi.scalars.counts
  obtain ⟨-, ht, hkeys⟩ := (review_iff hi hi').1 hr
  exact LeafCall.build_same ht hkeys hdep hk hc

open Signet in
theorem review_binds_signet :
    ReviewBinds true (loaded intent).session (loaded intentHuge).session :=
  (reach_loaded intent).review_binds loaded_state (reach_loaded intentHuge)
    (by rw [loaded_intentHuge]; rfl)

end BabylonVault
