/-
  The loader accepts what the specification of an intent asks for, and no more.

  * `VaultIntent.groupList`, `VaultIntent.keyList`: the records of an intent, as a
    host sends them.
  * `Copies`: so far the device holds what the host means.
  * `Reach.admission`: an intent with admissible scalars comes to its review exactly
    when it is as specified for the session.
-/
import BabylonVault.Batching
import BabylonVault.Session

namespace BabylonVault
open Bytes

/-! ## The records of an intent -/

namespace VaultIntent

/-- The groups of an intent. -/
def groupList (it : VaultIntent) : List VaultGroup := (List.range it.vaultCount).map it.group

/-- The record of the key at a global index. -/
def keyRecord (it : VaultIntent) (j : ℕ) : KeyRecord :=
  ⟨UInt16.ofNat (if j < it.keeperCount then tagKeeperPk else tagChallengerPk), storedKey it j⟩

/-- The records of all keys, keepers first. -/
def keyList (it : VaultIntent) : List KeyRecord :=
  (List.range (it.keeperCount + it.challengerCount)).map it.keyRecord

end VaultIntent

/-- The scalars, the groups and `n` keys of `src` have been stored. -/
structure Copies (src it : VaultIntent) (n : ℕ) : Prop where
  scalars : it.copyScalars src = it
  group : ∀ g < src.vaultCount, it.group g = src.group g
  key : ∀ j < n, storedKey it j = storedKey src j

/-- `vault_validate_and_store_key` takes the key. -/
structure StoreOk (it : VaultIntent) (n : ℕ) (key : Bytes32) : Prop where
  order : keyInOrder it n key = true
  vault : ∀ g < it.vaultCount, key ≠ (it.group g).vaultProviderPk
  distinct : ∀ j < n, key ≠ storedKey it j

variable {E : Env} {src it : VaultIntent} {n : ℕ} {key : Bytes32} {t : VaultIntent × ℕ}

namespace Copies
variable (h : Copies src it n)
include h

theorem keeperCount : it.keeperCount = src.keeperCount :=
  (congrArg VaultIntent.keeperCount h.scalars).symm

theorem challengerCount : it.challengerCount = src.challengerCount :=
  (congrArg VaultIntent.challengerCount h.scalars).symm

theorem vaultCount : it.vaultCount = src.vaultCount :=
  (congrArg VaultIntent.vaultCount h.scalars).symm

theorem depositorPath : it.depositorPath = src.depositorPath :=
  (congrArg VaultIntent.depositorPath h.scalars).symm

/-- A key fits what has been stored exactly when it fits what is meant. -/
theorem storeOk_iff : StoreOk it n key ↔ StoreOk src n key := by
  have horder : keyInOrder it n key = keyInOrder src n key := by
    unfold keyInOrder
    rw [h.keeperCount]
    rcases n with _ | n
    · rfl
    · rw [Nat.add_sub_cancel, h.key n (Nat.lt_succ_self n)]
  have hvault : (∀ g < it.vaultCount, key ≠ (it.group g).vaultProviderPk) ↔
      ∀ g < src.vaultCount, key ≠ (src.group g).vaultProviderPk := by
    rw [h.vaultCount]
    exact forall₂_congr fun g hg => by rw [h.group g hg]
  have hkeys : (∀ j < n, key ≠ storedKey it j) ↔ ∀ j < n, key ≠ storedKey src j :=
    forall₂_congr fun j hj => by rw [h.key j hj]
  constructor
  · rintro ⟨h₁, h₂, h₃⟩
    exact ⟨horder ▸ h₁, hvault.1 h₂, hkeys.1 h₃⟩
  · rintro ⟨h₁, h₂, h₃⟩
    exact ⟨horder ▸ h₁, hvault.2 h₂, hkeys.2 h₃⟩

end Copies

/-! ## Groups -/

/-- The groups follow one another exactly when they are well formed. -/
theorem groupsFollow_groupList (hv : it.vaultCount = src.vaultCount) :
    GroupsFollow E it 0 src.groupList ↔ GroupsOk E src src.vaultCount := by
  have hlen : src.groupList.length = src.vaultCount := by simp [VaultIntent.groupList]
  constructor
  · rintro ⟨-, hchecked, -, hasc⟩
    refine ⟨le_rfl, fun g hg => ?_, fun g hg => ?_⟩
    · exact hchecked _ (List.mem_map_of_mem (List.mem_range.2 hg))
    have h := List.isChain_iff_getElem.1 hasc g (by omega)
    simpa [VaultIntent.groupList] using h
  · rintro ⟨-, hgroup, hasc⟩
    refine ⟨fun _ => by omega, ?_, fun h => absurd h (lt_irrefl 0), ?_⟩
    · intro grp hgrp
      obtain ⟨g, hg, rfl⟩ := List.mem_map.1 hgrp
      exact hgroup g (List.mem_range.1 hg)
    · refine List.isChain_iff_getElem.2 fun g hg => ?_
      simpa [VaultIntent.groupList] using hasc g (by omega)

/-- What the group records leave. -/
theorem copies_putGroups (hv : src.vaultCount ≤ maxVaults) :
    Copies src ((VaultIntent.zero.copyScalars src).putGroups 0 src.groupList) 0 := by
  have hlen : src.groupList.length = src.vaultCount := by simp [VaultIntent.groupList]
  have hframe : ∀ {gs : List VaultGroup} {it : VaultIntent} {gi : ℕ}, it.copyScalars src = it →
      (it.putGroups gi gs).copyScalars src = it.putGroups gi gs := by
    intro gs
    induction gs with
    | nil => exact fun h => h
    | cons grp gs ih =>
      intro it gi h
      refine ih ?_
      show (it.copyScalars src).putGroup gi grp = _
      rw [h]
  have hv' : (VaultIntent.zero.copyScalars src).vaultCount ≤ maxVaults := hv
  have hroom : 0 + src.groupList.length ≤ (VaultIntent.zero.copyScalars src).vaultCount := by
    show 0 + src.groupList.length ≤ src.vaultCount
    omega
  refine ⟨hframe rfl, fun g hg => ?_, fun j hj => absurd hj (Nat.not_lt_zero j)⟩
  rw [group_putGroups g hv' fun _ => hroom, if_pos (Nat.zero_le g), Nat.sub_zero,
    List.getElem?_eq_getElem (by omega), Option.getD_some]
  simp [VaultIntent.groupList]

/-! ## Keys -/

theorem vaultValidateAndStoreKey_iff :
    (∃ it', vaultValidateAndStoreKey it n key = some it') ↔ StoreOk it n key := by
  constructor
  · rintro ⟨it', h⟩
    unfold vaultValidateAndStoreKey at h
    split_ifs at h with h1 h2 h3 h4
    · exact ⟨by simpa using h1, by simpa using h2, by simpa using h3⟩
    · exact ⟨by simpa using h1, by simpa using h2, by simpa using h3⟩
  · rintro ⟨h1, h2, h3⟩
    unfold vaultValidateAndStoreKey
    rw [if_neg (by simpa using h1), if_neg (by simpa using h2), if_neg (by simpa using h3)]
    split_ifs
    · exact ⟨_, rfl⟩
    · exact ⟨_, rfl⟩

/-- The key at index `j` is one that the device takes in its turn. -/
def KeyFits (E : Env) (src : VaultIntent) (j : ℕ) : Prop :=
  keyOk E (storedKey src j) = true ∧ StoreOk src j (storedKey src j)

theorem keysOk_iff : KeysOk E src (src.keeperCount + src.challengerCount) ↔
    ∀ j < src.keeperCount + src.challengerCount, KeyFits E src j := by
  constructor
  · intro h j hj
    exact ⟨h.key j hj, h.order j hj, h.vault j hj, h.distinct j hj⟩
  · intro h
    exact ⟨le_rfl, fun j hj => (h j hj).1, fun j hj => (h j hj).2.vault,
      fun j hj => (h j hj).2.distinct, fun j hj => (h j hj).2.order⟩

theorem keyStep_eq (k : KeyRecord) : (keyReader E).step (it, n) (encodeKey k) =
    if n < it.keeperCount + it.challengerCount ∧
        k.tag.toNat = (if n < it.keeperCount then tagKeeperPk else tagChallengerPk) ∧ keyOk E k.key then
      (vaultValidateAndStoreKey it n k.key).map fun it => (it, n + 1)
    else none := by
  have h : storeKey E (encodeKey k ++ []) it n = _ := storeKey_encodeKey k
  rw [List.append_nil] at h
  rw [Reader.step, keyReader, h]
  by_cases hk : n < it.keeperCount + it.challengerCount ∧ k.tag.toNat =
      (if n < it.keeperCount then tagKeeperPk else tagChallengerPk) ∧ keyOk E k.key
  · rw [if_pos hk, if_pos hk]
    simp [Function.comp_def]
  · rw [if_neg hk, if_neg hk]
    rfl

section
variable (hc : Copies src it n) (hk : src.keeperCount ≤ maxKeepers)
  (hch : src.challengerCount ≤ maxChallengers) (hn : n < src.keeperCount + src.challengerCount)
include hc hn

/-- One more key: it is taken exactly when it fits. -/
theorem keyStep_iff : (∃ t, (keyReader E).step (it, n) (encodeKey (src.keyRecord n)) = some t) ↔
    KeyFits E src n := by
  have htag : (src.keyRecord n).tag.toNat =
      if n < src.keeperCount then tagKeeperPk else tagChallengerPk := by
    show (UInt16.ofNat _).toNat = _
    split_ifs
    · rfl
    · rfl
  rw [keyStep_eq, hc.keeperCount, hc.challengerCount, htag, KeyFits, ← hc.storeOk_iff,
    ← vaultValidateAndStoreKey_iff]
  simp only [hn, true_and, Option.ite_none_right_eq_some, Option.map_eq_some_iff]
  constructor
  · rintro ⟨t, hkey, it', hst, -⟩
    exact ⟨hkey, it', hst⟩
  · rintro ⟨hkey, it', hst⟩
    exact ⟨_, hkey, it', hst, rfl⟩

include hk hch in
theorem keyStep_copies (h : (keyReader E).step (it, n) (encodeKey (src.keyRecord n)) = some t) :
    t.2 = n + 1 ∧ Copies src t.1 (n + 1) := by
  rw [keyStep_eq] at h
  obtain ⟨-, h⟩ := Option.ite_none_right_eq_some.1 h
  obtain ⟨it', hst, rfl⟩ := Option.map_eq_some_iff.1 h
  have hn' : n < it.keeperCount + it.challengerCount := by
    rw [hc.keeperCount, hc.challengerCount]
    exact hn
  obtain ⟨-, -, -, ⟨ks, cs, rfl⟩, hkey⟩ := vaultValidateAndStoreKey_some hst
    (hc.keeperCount ▸ hk) (hc.challengerCount ▸ hch) hn'
  refine ⟨rfl, ?_, hc.group, fun j hj => ?_⟩
  · exact congrArg (fun i : VaultIntent => { i with keeperPks := ks, challengerPks := cs })
      hc.scalars
  · rw [hkey j]
    split_ifs with he
    · rw [he]
      rfl
    · exact hc.key j (by omega)

end

section
variable (hk : src.keeperCount ≤ maxKeepers) (hch : src.challengerCount ≤ maxChallengers)
include hk hch

/-- The keys from the `n`-th on are taken exactly when all of them fit. -/
theorem keyRecords_copies : ∀ {m n : ℕ} {it : VaultIntent}, Copies src it n →
    n + m ≤ src.keeperCount + src.challengerCount →
    ((∃ t, keyRecords E ((List.range' n m).map src.keyRecord) (it, n) = some t) ↔
      ∀ j, n ≤ j → j < n + m → KeyFits E src j) ∧
    ∀ t, keyRecords E ((List.range' n m).map src.keyRecord) (it, n) = some t →
      Copies src t.1 (n + m)
  | 0, n, it, hc, _ => by
    refine ⟨⟨fun _ j h h' => absurd h' (by omega), fun _ => ⟨_, rfl⟩⟩, fun t h => ?_⟩
    cases h
    exact hc
  | m + 1, n, it, hc, hroom => by
    have hn : n < src.keeperCount + src.challengerCount := by omega
    have hcons : keyRecords E ((List.range' n (m + 1)).map src.keyRecord) (it, n) =
        ((keyReader E).step (it, n) (encodeKey (src.keyRecord n))).bind
          (keyRecords E ((List.range' (n + 1) m).map src.keyRecord)) := rfl
    have hstep : (∃ t, (keyReader E).step (it, n) (encodeKey (src.keyRecord n)) = some t) ↔ _ :=
      keyStep_iff hc hn
    have hidx : n + (m + 1) = n + 1 + m := by omega
    rw [hcons]
    rcases hs : (keyReader E).step (it, n) (encodeKey (src.keyRecord n)) with _ | ⟨it', n'⟩
    · rw [hs] at hstep
      refine ⟨⟨?_, fun hall => ?_⟩, nofun⟩
      · rintro ⟨t, h⟩
        cases h
      · obtain ⟨t, h⟩ := hstep.2 (hall n le_rfl (by omega))
        cases h
    · obtain ⟨rfl, hc'⟩ := keyStep_copies hc hk hch hn hs
      obtain ⟨hiff, hcopy⟩ := keyRecords_copies hc' (by omega : n + 1 + m ≤ _)
      have hfit : KeyFits E src n := hstep.1 ⟨_, hs⟩
      rw [hidx]
      refine ⟨hiff.trans ⟨fun hall j hj hlt => ?_, fun hall j hj => hall j (by omega)⟩, hcopy⟩
      rcases Nat.eq_or_lt_of_le hj with rfl | hj
      · exact hfit
      · exact hall j hj hlt

end

/-! ## The whole load -/

theorem Copies.keepers (h : Copies src it (src.keeperCount + src.challengerCount))
    (hk : src.keeperCount ≤ maxKeepers) : it.keepers = src.keepers := by
  have hlen : it.keepers.length = src.keepers.length := by
    rw [VaultIntent.keepers, VaultIntent.keepers, h.keeperCount, List.Vector.length_upto hk,
      List.Vector.length_upto hk]
  refine List.ext_getElem hlen fun i hi hi' => ?_
  have hlt : i < src.keeperCount := List.Vector.length_upto (v := src.keeperPks) hk ▸ hi'
  rw [getElem_keepers hi (h.keeperCount ▸ hk), getElem_keepers hi' hk]
  exact h.key i (by omega)

theorem Copies.challengers (h : Copies src it (src.keeperCount + src.challengerCount))
    (hc : src.challengerCount ≤ maxChallengers) : it.challengers = src.challengers := by
  have hlen : it.challengers.length = src.challengers.length := by
    rw [VaultIntent.challengers, VaultIntent.challengers, h.challengerCount,
      List.Vector.length_upto hc, List.Vector.length_upto hc]
  refine List.ext_getElem hlen fun i hi hi' => ?_
  have hlt : i < src.challengerCount := List.Vector.length_upto (v := src.challengerPks) hc ▸ hi'
  rw [getElem_challengers hi, getElem_challengers hi', h.keeperCount]
  exact h.key _ (by omega)

theorem Copies.unique (h : Copies src it (src.keeperCount + src.challengerCount))
    (hk : src.keeperCount ≤ maxKeepers) (hc : src.challengerCount ≤ maxChallengers) :
    vaultCheckDepositorUniqueness it key = vaultCheckDepositorUniqueness src key := by
  have hany : (List.range it.vaultCount).any (fun g => key = (it.group g).vaultProviderPk) =
      (List.range src.vaultCount).any fun g => key = (src.group g).vaultProviderPk := by
    rw [Bool.eq_iff_iff]
    simp only [List.any_eq_true, List.mem_range, decide_eq_true_eq, h.vaultCount]
    exact exists_congr fun g => and_congr_right fun hg => by rw [h.group g hg]
  rw [vaultCheckDepositorUniqueness, vaultCheckDepositorUniqueness, h.keepers hk,
    h.challengers hc, hany]

/-- The last checks, and the session they come to. -/
theorem reviewed_iff {c : VaultContext} {bytes : Bytes} :
    (∃ s, reviewed E c it bytes = some s) ↔ c.derivationPath = it.depositorPath.toList ∧
      c.root ≠ Buf.zero 32 ∧ ∃ pk, E.pubkeyAt it.depositorPath.toList = some pk ∧
        vaultCheckDepositorUniqueness it (xonly pk) = true := by
  unfold reviewed
  by_cases hpath : c.derivationPath = it.depositorPath.toList
  · rw [if_pos hpath]
    rcases E.pubkeyAt it.depositorPath.toList with _ | pk
    · simp
    · simp only [Option.ite_none_right_eq_some, Option.some.injEq, exists_eq_left', hpath, true_and]
      constructor
      · rintro ⟨s, ⟨hu, hr⟩, -⟩
        exact ⟨hr, hu⟩
      · rintro ⟨hr, hu⟩
        exact ⟨_, ⟨hu, hr⟩, rfl⟩
  · simp [hpath]

/-- The context of an intent that is complete: the root is spent on the commitments. -/
def sealedCtx (E : Env) (c : VaultContext) (it : VaultIntent) (bytes : Bytes) : VaultContext :=
  { c with
    htlcHashlock := hashlocks E c.root it it.vaultCount c.htlcHashlock
    authAnchorHash := vaultDeriveAuthAnchorCommitment E c.root
    root := Buf.zero 32
    intentFp := vaultFingerprint E bytes }

theorem reviewed_some {c : VaultContext} {bytes : Bytes} {s : Session}
    (h : reviewed E c it bytes = some s) : s.ctx = sealedCtx E c s.intent bytes ∧
      ∃ pk, E.pubkeyAt it.depositorPath.toList = some pk ∧
        s.intent = { it with depositorPk := xonly pk } := by
  unfold reviewed at h
  obtain ⟨-, h⟩ := Option.ite_none_right_eq_some.1 h
  rcases hpk : E.pubkeyAt it.depositorPath.toList with _ | pk
  · rw [hpk] at h
    cases h
  · rw [hpk] at h
    obtain ⟨-, h⟩ := Option.ite_none_right_eq_some.1 h
    obtain rfl := Option.some.inj h
    exact ⟨rfl, pk, rfl, rfl⟩

/-- The intent with the device's own key. -/
def VaultIntent.withDepositor (src : VaultIntent) (pk : Buf 33) : VaultIntent :=
  { src with depositorPk := xonly pk }

/-- What the session of a context must find of an intent. -/
structure Admitted (E : Env) (c : VaultContext) (src : VaultIntent) : Prop where
  path : c.derivationPath = src.depositorPath.toList
  root : c.root ≠ Buf.zero 32
  spec : ∃ pk, E.pubkeyAt src.depositorPath.toList = some pk ∧ IntentSpec E (src.withDepositor pk)

/-- Over admissible scalars, the specification is all that the checks ask for. -/
theorem loadedIntent_iff (hs : ScalarsOk E.network it) : LoadedIntent E it ↔ IntentSpec E it := by
  obtain ⟨⟨-, hk⟩, ⟨-, hc⟩, -⟩ := hs.counts
  refine ⟨LoadedIntent.spec, fun h => ?_⟩
  have hall : it.keepers ++ it.challengers = _ := keepers_append_challengers hk hc
  have hmem : ∀ j < it.keeperCount + it.challengerCount,
      storedKey it j ∈ it.keepers ++ it.challengers := by
    intro j hj
    rw [hall]
    exact List.mem_map_of_mem (List.mem_range.2 hj)
  have hprovider : ∀ g < it.vaultCount, (it.group g).vaultProviderPk ∈ it.providers := fun g hg =>
    List.mem_map.2 ⟨g, List.mem_range.2 hg, rfl⟩
  have hother : ∀ key,
      key ∈ it.otherKeys ↔ key ∈ it.providers ∨ key ∈ it.keepers ++ it.challengers := by
    intro key
    rw [VaultIntent.otherKeys, List.append_assoc, List.mem_append]
  refine ⟨hs, ⟨le_rfl, fun g hg => ?_, fun g hg => h.vouts g (g + 1) (Nat.lt_succ_self g) hg⟩,
    ⟨le_rfl, fun j hj => ?_, fun j hj g hg he => ?_, fun j hj i hi he => ?_, fun j hj => ?_⟩,
    ?_, ?_⟩
  · obtain ⟨hamount, hcommission, hclaim⟩ := h.amounts g hg
    have hkey := h.valid _ ((hother _).2 (.inl (hprovider g hg)))
    exact ⟨⟨hcommission, hclaim, hamount⟩, keyOk_iff.2 hkey⟩
  · exact keyOk_iff.2 (h.valid _ ((hother _).2 (.inr (hmem j hj))))
  · exact h.disjoint _ (hmem j hj) (he ▸ hprovider g hg)
  · have hnodup := h.distinct
    rw [hall] at hnodup
    have hinj := List.inj_on_of_nodup_map hnodup (List.mem_range.2 hj)
      (List.mem_range.2 (hi.trans hj)) he
    omega
  · -- a key that is not the first of its role follows its neighbour
    rcases j with _ | j
    · rfl
    by_cases hfirst : j + 1 = it.keeperCount
    · simp [keyInOrder, hfirst]
    have hlt : ofBE (storedKey it j).toList < ofBE (storedKey it (j + 1)).toList := by
      have hkl : it.keepers.length = it.keeperCount := List.Vector.length_upto hk
      have hcl : it.challengers.length = it.challengerCount := List.Vector.length_upto hc
      by_cases hlt : j + 1 < it.keeperCount
      · have hp := List.pairwise_iff_getElem.1 h.keepers j (j + 1) (by omega) (by omega) (by omega)
        rw [getElem_keepers _ hk, getElem_keepers _ hk] at hp
        exact memcmp_lt_iff.1 hp
      · have hp := List.pairwise_iff_getElem.1 h.challengers (j - it.keeperCount)
          (j + 1 - it.keeperCount) (by omega) (by omega) (by omega)
        rw [getElem_challengers, getElem_challengers, Nat.add_sub_cancel' (by omega),
          Nat.add_sub_cancel' (by omega)] at hp
        exact memcmp_lt_iff.1 hp
    unfold keyInOrder
    rw [Nat.add_sub_cancel, Bool.or_eq_true, decide_eq_true_eq]
    exact .inr (memcmp_gt_iff.2 hlt)
  · obtain ⟨pk, hpk, he⟩ := h.depositor
    exact ⟨pk, hpk, he.symm⟩
  · have hout := h.depositorOther
    simp only [hother, not_or, List.mem_append] at hout
    obtain ⟨hp, hkeeper, hchallenger⟩ := hout
    simp only [vaultCheckDepositorUniqueness, Bool.and_eq_true, Bool.not_eq_true',
      List.any_eq_false, decide_eq_true_eq]
    refine ⟨⟨fun g hg he => hp ?_, fun key hkey he => hkeeper (he ▸ hkey)⟩,
      fun key hkey he => hchallenger (he ▸ hkey)⟩
    rw [he]
    exact hprovider g (List.mem_range.1 hg)

section
variable (hs : ScalarsOk E.network src) {c : VaultContext} {bytes : Bytes}
include hs

/-- The records of an intent come to its review exactly when it is admitted. -/
theorem loadEnd_iff :
    (∃ s, loadEnd E c src.groupList src.keyList (VaultIntent.zero.copyScalars src) 0 0 bytes =
      some s) ↔ Admitted E c src := by
  obtain ⟨⟨-, hk⟩, ⟨-, hc⟩, -, hv⟩ := hs.counts
  have hv' : (VaultIntent.zero.copyScalars src).vaultCount ≤ maxVaults := hv
  have hcopies := copies_putGroups hv
  have hfollows : GroupsFollow E (VaultIntent.zero.copyScalars src) 0 src.groupList ↔
      GroupsOk E src src.vaultCount := groupsFollow_groupList rfl
  have hrecords : src.keyList = (List.range' 0 (src.keeperCount + src.challengerCount)).map
      src.keyRecord := by rw [VaultIntent.keyList, List.range_eq_range']
  obtain ⟨hkeys, hcopied⟩ := keyRecords_copies (E := E) hk hc hcopies (Nat.zero_add _).le
  rw [← hrecords, Nat.zero_add] at hkeys hcopied
  have hscal : ∀ pk, ScalarsOk E.network (src.withDepositor pk) := fun pk => hs
  constructor
  · rintro ⟨s, h⟩
    obtain ⟨p, hg, h⟩ := Option.bind_eq_some_iff.1 h
    obtain ⟨hfollow, rfl⟩ := (foldlM_groups hv').1 hg
    obtain ⟨q, hq, h⟩ := Option.bind_eq_some_iff.1 h
    obtain ⟨hpath, hroot, pk, hpk, hu⟩ := reviewed_iff.1 ⟨s, h⟩
    have hcp := hcopied q hq
    rw [hcp.depositorPath] at hpath hpk
    have hgroups := hfollows.1 hfollow
    have hkeysOk := keysOk_iff.2 fun j hj => hkeys.1 ⟨q, hq⟩ j (Nat.zero_le j) hj
    refine ⟨hpath, hroot, pk, hpk, (loadedIntent_iff (hscal pk)).1 ?_⟩
    refine ⟨hscal pk, ?_, ?_, ⟨pk, hpk, rfl⟩, ?_⟩
    · exact ⟨hgroups.count, hgroups.group, hgroups.ascending⟩
    · exact ⟨hkeysOk.count, hkeysOk.key, hkeysOk.vault, hkeysOk.distinct, hkeysOk.order⟩
    · exact (hcp.unique hk hc).symm.trans hu
  · rintro ⟨hpath, hroot, pk, hpk, hspec⟩
    obtain ⟨-, hgroups, hkeysOk, -, hu⟩ := (loadedIntent_iff (hscal pk)).2 hspec
    have hfollow := hfollows.2 ⟨hgroups.count, hgroups.group, hgroups.ascending⟩
    have hfits := keysOk_iff.1 (⟨hkeysOk.count, hkeysOk.key, hkeysOk.vault, hkeysOk.distinct,
      hkeysOk.order⟩ : KeysOk E src (src.keeperCount + src.challengerCount))
    obtain ⟨q, hq⟩ := hkeys.2 fun j _ hj => hfits j hj
    have hcp := hcopied q hq
    obtain ⟨s, hrev⟩ : ∃ s, reviewed E c q.1 (bytes ++ src.groupList.flatMap encodeGroup ++
        src.keyList.flatMap encodeKey) = some s :=
      reviewed_iff.2 ⟨hcp.depositorPath ▸ hpath, hroot, pk, hcp.depositorPath ▸ hpk,
        (hcp.unique hk hc).trans hu⟩
    exact ⟨s, Option.bind_eq_some_iff.2 ⟨_, (foldlM_groups hv').2 ⟨hfollow, rfl⟩,
      Option.bind_eq_some_iff.2 ⟨q, hq, hrev⟩⟩⟩

/-- What the review of a load shows is the intent that was sent. -/
theorem loadEnd_copies {s : Session} (h : loadEnd E c src.groupList src.keyList
      (VaultIntent.zero.copyScalars src) 0 0 bytes = some s) :
    Copies src s.intent (src.keeperCount + src.challengerCount) ∧
      (∃ pk, E.pubkeyAt src.depositorPath.toList = some pk ∧ s.intent.depositorPk = xonly pk) ∧
      s.ctx = sealedCtx E c s.intent
        (bytes ++ src.groupList.flatMap encodeGroup ++ src.keyList.flatMap encodeKey) := by
  obtain ⟨⟨-, hk⟩, ⟨-, hc⟩, -, hv⟩ := hs.counts
  have hv' : (VaultIntent.zero.copyScalars src).vaultCount ≤ maxVaults := hv
  obtain ⟨-, hcopied⟩ := keyRecords_copies (E := E) hk hc (copies_putGroups hv) (Nat.zero_add _).le
  obtain ⟨p, hg, h⟩ := Option.bind_eq_some_iff.1 h
  obtain ⟨-, rfl⟩ := (foldlM_groups hv').1 hg
  obtain ⟨q, hq, h⟩ := Option.bind_eq_some_iff.1 h
  rw [VaultIntent.keyList, List.range_eq_range'] at hq
  have hcp := hcopied q hq
  rw [Nat.zero_add] at hcp
  obtain ⟨hctx, pk, hpk, hintent⟩ := reviewed_some h
  rw [hcp.depositorPath] at hpk
  refine ⟨?_, ⟨pk, hpk, by rw [hintent]⟩, hctx⟩
  rw [hintent]
  refine ⟨?_, hcp.group, hcp.key⟩
  exact congrArg (fun i : VaultIntent => { i with depositorPk := xonly pk }) hcp.scalars

end

/-- What comes of a load of `src` in the session of `d`. -/
structure Admission (E : Env) (src : VaultIntent) (d : Device) (xs : List Exchange) (d' : Device) :
    Prop where
  /-- As specified, it is shown as it was sent, with the device's own key. -/
  admitted : Admitted E d.ctx src → ∃ s, reviews xs = [s] ∧
    Copies src s.intent (src.keeperCount + src.challengerCount) ∧
    ∃ pk, E.pubkeyAt src.depositorPath.toList = some pk ∧ s.intent.depositorPk = xonly pk
  refused : ¬Admitted E d.ctx src → Fails xs d'

/-- An intent, sent in any order of its scalars and in any batches, comes to its review
    exactly when it is as specified. -/
theorem Reach.admission {es xs : List Exchange} {d d' : Device} {σ : List ℕ} (h : Reach E es d)
    (hst : d.ctx.state = .hashDerived) (hs : ScalarsOk E.network src)
    (hσ : σ.Perm (List.range 13))
    (hl : Loads E (scalarPayload (scalarValue src) σ) src.groupList src.keyList d xs d') :
    Admission E src d xs d' := by
  have hgs : src.groupList.length = (VaultIntent.zero.copyScalars src).vaultCount := by
    simp [VaultIntent.groupList, VaultIntent.copyScalars]
  have hks : src.keyList.length = (VaultIntent.zero.copyScalars src).keeperCount +
      (VaultIntent.zero.copyScalars src).challengerCount := by
    simp [VaultIntent.keyList, VaultIntent.copyScalars]
  have hcomes := hl.comes h hst (vaultTlvParse_value hs hσ) hgs hks
  have hiff : (∃ s, loadEnd E (loadCtx d) src.groupList src.keyList
      (VaultIntent.zero.copyScalars src) 0 0 (scalarPayload (scalarValue src) σ) = some s) ↔
      Admitted E (loadCtx d) src := loadEnd_iff hs
  have hctx : Admitted E (loadCtx d) src ↔ Admitted E d.ctx src :=
    ⟨fun ⟨h₁, h₂, h₃⟩ => ⟨h₁, h₂, h₃⟩, fun ⟨h₁, h₂, h₃⟩ => ⟨h₁, h₂, h₃⟩⟩
  rw [hctx] at hiff
  constructor
  · intro ha
    obtain ⟨s, he⟩ := hiff.2 ha
    rw [he] at hcomes
    obtain ⟨hcopies, hpk, -⟩ := loadEnd_copies hs he
    exact ⟨s, hcomes, hcopies, hpk⟩
  · intro ha
    rcases he : loadEnd E (loadCtx d) src.groupList src.keyList (VaultIntent.zero.copyScalars src)
      0 0 (scalarPayload (scalarValue src) σ) with _ | s
    · rw [he] at hcomes
      exact hcomes
    · exact absurd (hiff.1 ⟨s, he⟩) ha

namespace Signet

/-- The scalars of `intent`, the last one first. -/
def scalarsBackwards : Bytes := scalarPayload (scalarValue intent) (List.range 13).reverse

/-- Its records, with a request in between. -/
def listApdus : List (Request × Answers) :=
  [(.approve 1 0 (intent.groupList.flatMap encodeGroup), quiet), (.getState 0 0 [], quiet),
   (.approve 2 0 (intent.keyList.flatMap encodeKey), quiet)]

theorem cut_listApdus : Cut intent.groupList intent.keyList listApdus := by
  have hlast : Cut [] intent.keyList [(.approve 2 0 (intent.keyList.flatMap encodeKey), quiet)] :=
    .last _ (List.cons_ne_nil _ _) rfl
  have hcut : Cut (intent.groupList ++ []) intent.keyList listApdus :=
    .groups _ rfl (.noise trivial hlast)
  rwa [List.append_nil] at hcut

/-- `intent` is as specified for the session of `derived`. -/
theorem derived_admits : Admitted env derived.ctx intent := by
  have hspec : IntentSpec env (loaded intent).intent :=
    ((reach_loaded intent).session.loaded loaded_state).intent.spec
  rw [loaded_intent] at hspec
  obtain ⟨pk, hpk, hdep⟩ := hspec.depositor
  refine ⟨by decide +kernel, by decide +kernel, pk, hpk, ?_⟩
  have hself : intent.withDepositor pk = intent := by
    rw [VaultIntent.withDepositor, ← hdep]
    rfl
  rw [hself]
  exact hspec

end Signet

open Signet in
theorem admission_signet : ∃ s,
    reviews (play env ((.approve 0 0 scalarsBackwards, quiet) :: listApdus) derived).1 = [s] ∧
      Copies intent s.intent 2 := by
  have hs : ScalarsOk env.network (loaded intent).intent :=
    ((reach_loaded intent).session.loaded loaded_state).intent.scalars
  rw [loaded_intent] at hs
  have hreach : Reach env _ derived := Run.play _ _
  have hst : derived.ctx.state = .hashDerived := by decide +kernel
  have hok : (answer env (.approve 0 0 scalarsBackwards) quiet derived).1.Succeeds :=
    ⟨[], by decide +kernel⟩
  have hload := Reach.admission hreach hst hs (List.reverse_perm _) (cut_listApdus.loads rfl hok)
  obtain ⟨s, hrev, hcopies, -⟩ := hload.admitted derived_admits
  exact ⟨s, hrev, hcopies⟩

end BabylonVault
