/-
  What a session holds in every reachable state.

  * `IntentSpec`: a loaded intent, over exact integers; `Reach.intent_spec` adds the path
    of the derivation that opened the session.
  * `SessionSpec`: root, commitments and fingerprints, in each state, with the answer
    of GET_VAULT_STATE.
-/
import BabylonVault.History
import BabylonVault.Play

namespace BabylonVault
open Bytes

/-! ## Key lists -/

namespace VaultIntent
variable (it : VaultIntent)

/-- The vault providers' keys. -/
def providers : List Bytes32 := (List.range it.vaultCount).map fun g => (it.group g).vaultProviderPk

/-- All keys of the intent but the depositor's. -/
def otherKeys : List Bytes32 := it.providers ++ it.keepers ++ it.challengers

end VaultIntent

/-- Strictly ascending in the order of `memcmp`. -/
def Ascending (keys : List Bytes32) : Prop :=
  keys.Pairwise fun a b => memcmp a.toList b.toList = .lt

theorem memcmp_lt_iff {a b : Bytes32} :
    memcmp a.toList b.toList = .lt ↔ ofBE a.toList < ofBE b.toList := by
  rw [memcmp_eq_compare (a.toList_length.trans b.toList_length.symm), compare_lt_iff_lt]

theorem memcmp_gt_iff {a b : Bytes32} :
    memcmp a.toList b.toList = .gt ↔ ofBE b.toList < ofBE a.toList := by
  rw [memcmp_eq_compare (a.toList_length.trans b.toList_length.symm), compare_gt_iff_gt]

/-- Neighbours in order make a list in order. -/
theorem ascending_of_neighbours {keys : List Bytes32} (h : ∀ i (hi : i + 1 < keys.length),
    ofBE keys[i].toList < ofBE keys[i + 1].toList) : Ascending keys := by
  refine List.Pairwise.imp (R := fun a b => ofBE a.toList < ofBE b.toList)
    (fun hab => memcmp_lt_iff.2 hab) ?_
  have : Trans (fun a b : Bytes32 => ofBE a.toList < ofBE b.toList)
      (fun a b : Bytes32 => ofBE a.toList < ofBE b.toList)
      (fun a b : Bytes32 => ofBE a.toList < ofBE b.toList) := ⟨fun h h' => lt_trans h h'⟩
  exact List.isChain_iff_pairwise.1 (List.isChain_iff_getElem.2 h)

variable {E : Env} {it : VaultIntent} {n : ℕ}

theorem getElem_keepers {i : ℕ} (hi : i < it.keepers.length) (hk : it.keeperCount ≤ maxKeepers) :
    it.keepers[i] = storedKey it i := by
  have hlt : i < it.keeperCount := List.Vector.length_upto (v := it.keeperPks) hk ▸ hi
  rw [storedKey, if_pos hlt]
  exact List.Vector.getElem_upto hi

theorem getElem_challengers {i : ℕ} (hi : i < it.challengers.length) :
    it.challengers[i] = storedKey it (it.keeperCount + i) := by
  rw [storedKey, if_neg (by omega), Nat.add_sub_cancel_left]
  exact List.Vector.getElem_upto hi

/-- The keys of a complete load, keepers first. -/
theorem keepers_append_challengers (hk : it.keeperCount ≤ maxKeepers)
    (hc : it.challengerCount ≤ maxChallengers) : it.keepers ++ it.challengers =
      (List.range (it.keeperCount + it.challengerCount)).map (storedKey it) := by
  have hkl : it.keepers.length = it.keeperCount := List.Vector.length_upto hk
  have hcl : it.challengers.length = it.challengerCount := List.Vector.length_upto hc
  refine List.ext_getElem (by simp [hkl, hcl]) fun i hi _ => ?_
  rw [List.getElem_map, List.getElem_range, List.getElem_append]
  split_ifs with h
  · exact getElem_keepers h hk
  · rw [getElem_challengers, hkl, Nat.add_sub_cancel' (by omega)]

theorem KeysOk.lt {j : ℕ} (h : KeysOk E it n) (hj : j + 1 < n) (hne : j + 1 ≠ it.keeperCount) :
    ofBE (storedKey it j).toList < ofBE (storedKey it (j + 1)).toList := by
  have hord := h.order (j + 1) hj
  simp only [keyInOrder, Nat.add_sub_cancel, hne, decide_false, Nat.add_one_ne_zero, Bool.false_or,
    decide_eq_true_eq] at hord
  exact memcmp_gt_iff.1 hord

/-! ## The loaded intent -/

/-- What a loaded intent is, over exact integers. -/
structure IntentSpec (E : Env) (it : VaultIntent) : Prop where
  vaultCount : 1 ≤ it.vaultCount ∧ it.vaultCount ≤ 10
  keeperCount : 1 ≤ it.keeperCount ∧ it.keeperCount ≤ 32
  challengerCount : 1 ≤ it.challengerCount ∧ it.challengerCount ≤ 32
  vouts : ∀ g g', g < g' → g' < it.vaultCount → (it.group g).htlcVout < (it.group g').htlcVout
  amounts : ∀ g < it.vaultCount,
    (it.group g).commissionFee.toNat + 1092 < (it.group g).vaultAmount.toNat ∧
    546 ≤ (it.group g).commissionFee.toNat ∧ 546 ≤ (it.group g).depositorClaimValue.toNat
  keepers : Ascending it.keepers
  challengers : Ascending it.challengers
  valid : ∀ key ∈ it.otherKeys,
    ofBE key.toList < 2 ^ 256 - 2 ^ 32 - 977 ∧ E.liftX key = true
  distinct : (it.keepers ++ it.challengers).Nodup
  disjoint : ∀ key ∈ it.keepers ++ it.challengers, key ∉ it.providers
  depositor : ∃ pk, E.pubkeyAt it.depositorPath.toList = some pk ∧ it.depositorPk = xonly pk
  depositorOther : it.depositorPk ∉ it.otherKeys

theorem keyOk_iff {key : Bytes32} : keyOk E key = true ↔
    ofBE key.toList < 2 ^ 256 - 2 ^ 32 - 977 ∧ E.liftX key = true := by
  have hp : ofBE secp256k1P.toList = 2 ^ 256 - 2 ^ 32 - 977 := by decide +kernel
  rw [keyOk, Bool.and_eq_true, vaultXonlyKeyIsCanonical, decide_eq_true_eq, memcmp_lt_iff, hp]

theorem GroupsOk.vout_lt (h : GroupsOk E it n) {g : ℕ} : ∀ {g'}, g < g' → g' < n →
    (it.group g).htlcVout < (it.group g').htlcVout
  | g' + 1, hlt, hn => by
    rcases Nat.lt_succ_iff_lt_or_eq.1 hlt with hg | rfl
    · exact UInt8.lt_trans (h.vout_lt hg (by omega)) (h.ascending g' hn)
    · exact h.ascending g hn

theorem LoadedIntent.spec (h : LoadedIntent E it) : IntentSpec E it := by
  obtain ⟨⟨hk1, hk⟩, ⟨hc1, hc⟩, hv1, hv⟩ := h.scalars.counts
  have hstored : ∀ key ∈ it.keepers ++ it.challengers, ∃ j < it.keeperCount + it.challengerCount,
      storedKey it j = key := by
    rw [keepers_append_challengers hk hc]
    simp
  have hvalid : ∀ key ∈ it.otherKeys, keyOk E key = true := by
    intro key hkey
    rw [VaultIntent.otherKeys, List.append_assoc] at hkey
    rcases List.mem_append.1 hkey with hp | hkc
    · obtain ⟨g, hg, rfl⟩ := List.mem_map.1 hp
      exact (h.groups.group g (List.mem_range.1 hg)).2
    · obtain ⟨j, hj, rfl⟩ := hstored key hkc
      exact h.keys.key j hj
  have hneg := h.unique
  simp only [vaultCheckDepositorUniqueness, Bool.and_eq_true, Bool.not_eq_true', List.any_eq_false,
    decide_eq_true_eq] at hneg
  obtain ⟨⟨hnp, hnk⟩, hnc⟩ := hneg
  refine ⟨⟨hv1, hv⟩, ⟨hk1, hk⟩, ⟨hc1, hc⟩, fun g g' => h.groups.vout_lt, fun g hg => ?_, ?_, ?_,
    fun key hkey => keyOk_iff.1 (hvalid key hkey), ?_, ?_, ?_, ?_⟩
  · obtain ⟨hgrp, -⟩ := h.groups.group g hg
    exact ⟨hgrp.amount, hgrp.commission, hgrp.claim⟩
  · have hkl : it.keepers.length = it.keeperCount := List.Vector.length_upto hk
    refine ascending_of_neighbours fun i hi => ?_
    rw [getElem_keepers _ hk, getElem_keepers _ hk]
    exact h.keys.lt (by omega) (by omega)
  · have hcl : it.challengers.length = it.challengerCount := List.Vector.length_upto hc
    refine ascending_of_neighbours fun i hi => ?_
    rw [getElem_challengers, getElem_challengers]
    exact h.keys.lt (by omega) (by omega)
  · rw [keepers_append_challengers hk hc]
    refine List.Nodup.map_on (fun i hi j hj he => ?_) List.nodup_range
    rcases lt_trichotomy i j with hlt | rfl | hlt
    · exact absurd he.symm (h.keys.distinct j (List.mem_range.1 hj) i hlt)
    · rfl
    · exact absurd he (h.keys.distinct i (List.mem_range.1 hi) j hlt)
  · intro key hkey hp
    obtain ⟨j, hj, rfl⟩ := hstored key hkey
    obtain ⟨g, hg, he⟩ := List.mem_map.1 hp
    exact h.keys.vault j hj g (List.mem_range.1 hg) he.symm
  · obtain ⟨pk, hpk, he⟩ := h.depositor
    exact ⟨pk, hpk, he.symm⟩
  · rw [VaultIntent.otherKeys, List.mem_append, List.mem_append]
    rintro ((hp | hkey) | hkey)
    · obtain ⟨g, hg, he⟩ := List.mem_map.1 hp
      exact hnp g hg he.symm
    · exact hnk _ hkey rfl
    · exact hnc _ hkey rfl

variable {ls : List Exchange} {d d' : Device}

/-- In every run from boot, a loaded intent is as specified, and its path is that of the
    derivation that opened the session. -/
theorem Reach.intent_spec (h : Reach E ls d) (hs : d.ctx.state = .intentLoaded) :
    IntentSpec E d.intent ∧ ∃ c, (Log.ofRun ls).call = some c ∧
      d.intent.depositorPath.toList = c.path := by
  have hl := h.session.loaded hs
  obtain ⟨root, ho, -⟩ := hl.opened
  obtain ⟨c, hc, -, hp, -⟩ := ho.call
  exact ⟨hl.intent.spec, c, hc, hl.path.symm.trans hp⟩

theorem intent_spec_signet : IntentSpec Signet.env (Signet.loaded Signet.intent).intent ∧
    ∃ c, (Log.ofRun (play Signet.env (Signet.load Signet.intent) Device.boot).1).call = some c ∧
      (Signet.loaded Signet.intent).intent.depositorPath.toList = c.path :=
  Reach.intent_spec (Signet.reach_loaded _) Signet.loaded_state

/-! ## Root and commitments -/

/-- The last four bytes of a digest. -/
def lastFour (digest : Bytes32) : Bytes := digest.toList.drop 28

theorem toList_truncateDigest (digest : Bytes32) : (truncateDigest digest).toList = lastFour digest :=
  Buf.toList_ofBytes (by rw [List.length_drop, digest.toList_length])

/-- The answer of GET_VAULT_STATE. -/
def stateResponse (ctx : VaultContext) : Bytes :=
  match ctx.state with
  | .idle => [0x00, 0x00]
  | .hashDerived => [0x00, 0x04] ++ ctx.contextFp.toList
  | .intentLoaded => [0x04] ++ ctx.intentFp.toList ++ [0x04] ++ ctx.contextFp.toList

/-- What a session holds, given the derivation completed last and the payloads of the
    intent. -/
structure SessionSpec (E : Env) (log : Log) (d : Device) : Prop where
  idle : d.ctx.state = .idle → d.ctx = .zero ∧ d.intent = .zero
  derived : d.ctx.state = .hashDerived → ∃ c R, log.call = some c ∧ c.root E = some R ∧
    d.ctx.root = R ∧ d.ctx.contextFp.toList = lastFour (E.sha256 R.toList)
  loaded : d.ctx.state = .intentLoaded → ∃ c R, log.call = some c ∧ c.root E = some R ∧
    d.ctx.root = Buf.zero 32 ∧ d.ctx.contextFp.toList = lastFour (E.sha256 R.toList) ∧
    (∀ i < d.intent.vaultCount, d.ctx.htlcHashlock.pick i =
      vaultDeriveHashlockCommitment E R (d.intent.group i).htlcVout) ∧
    d.ctx.authAnchorHash = vaultDeriveAuthAnchorCommitment E R ∧
    d.ctx.intentFp.toList = lastFour (E.sha256 log.payloads)
  getState : ∀ p1 p2 data tr r d', Step E d ⟨.getState p1 p2 data, tr, .answered r⟩ d' →
    d' = d ∧ (p1 = 0 → p2 = 0 → data = [] → r = .ok (stateResponse d.ctx))

theorem encodeState_eq (ctx : VaultContext) : vaultContextEncodeState ctx = stateResponse ctx := by
  unfold vaultContextEncodeState vaultStateFingerprints stateResponse
  have h4 : UInt8.ofNat fingerprintLen = 0x04 := rfl
  cases ctx.state <;> simp [encodeFingerprint, h4]

theorem getState_step {p1 p2 : UInt8} {data : Bytes} {tr : List devIface.Event}
    {r : Except Stop Bytes} (h : Step E d ⟨.getState p1 p2 data, tr, .answered r⟩ d') :
    d' = d ∧ (p1 = 0 → p2 = 0 → data = [] → r = .ok (stateResponse d.ctx)) := by
  cases h with
  | done hp =>
    refine ⟨(Course.wp_path (getVaultState_quiet []) hp).1, ?_⟩
    rintro rfl rfl rfl
    have hrun : handle E (.getState 0 0 []) d = .ret (.ok (vaultContextEncodeState d.ctx), d) := rfl
    rw [hrun] at hp
    cases hp
    rw [encodeState_eq]

/-- In every run from boot the session is bound to the derivation completed last and to
    the payloads accepted since the last P1=0x00. -/
theorem Reach.session_spec (h : Reach E ls d) : SessionSpec E (Log.ofRun ls) d := by
  have hs := h.session
  refine ⟨fun hst => ⟨(hs.idle hst).1, (hs.idle hst).2.1⟩, fun hst => ?_, fun hst => ?_,
    fun _ _ _ _ _ _ => getState_step⟩
  · obtain ⟨⟨c, hc, hroot, -⟩, hfp⟩ := (hs.derived hst).opened
    exact ⟨c, _, hc, hroot, rfl, by rw [hfp]; exact toList_truncateDigest _⟩
  · obtain ⟨R, ⟨⟨c, hc, hroot, -⟩, hfp⟩, hcom⟩ := (hs.loaded hst).opened
    exact ⟨c, R, hc, hroot, hcom.wiped, by rw [hfp]; exact toList_truncateDigest _, hcom.hashlock,
      hcom.authAnchor, by rw [hcom.fingerprint]; exact toList_truncateDigest _⟩

theorem session_spec_signet : (Signet.loaded Signet.intent).ctx.state = .intentLoaded ∧
    SessionSpec Signet.env (Log.ofRun (play Signet.env (Signet.load Signet.intent) Device.boot).1)
      (Signet.loaded Signet.intent) :=
  ⟨Signet.loaded_state, Reach.session_spec (Signet.reach_loaded _)⟩

end BabylonVault
