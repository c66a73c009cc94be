/-
  What a load has checked of its intent so far.

  * `ScalarsOk`, `GroupsOk`, `KeysOk`: the scalars, the first groups, the first keys;
    each is established record by record by the phase that stores it.
  * `LoadedIntent`: what holds of the intent once all of it is there.
-/
import BabylonVault.Load

namespace BabylonVault
open Bytes

/-! ## Scalars -/

/-- The scalar field of this index has passed its own check. -/
def ScalarOk (net : Network) (it : VaultIntent) : ℕ → Prop
  | 0 => it.structureType = structureType
  | 1 => it.version = protocolVersion
  | 2 => it.coinType = net.coinType
  | 3 => ¬(it.baseFeeRate = 0 ∨ it.baseFeeRate > baseFeeRateMax)
  | 4 => ¬(it.peginCsvTimelock < timelockMin ∨ it.peginCsvTimelock > timelockMax)
  | 5 => ¬(it.payoutTimelock ≤ payoutTimelockMin ∨ it.payoutTimelock ≥ payoutTimelockMax)
  | 7 => ¬(it.htlcRefundTimelock < timelockMin ∨ it.htlcRefundTimelock > htlcRefundTimelockMax)
  | 8 => depositorPathOk it.depositorPath = true
  | 9 => ¬(it.keeperCount < 1 ∨ it.keeperCount > maxKeepers)
  | 10 => ¬(it.challengerCount < 1 ∨ it.challengerCount > maxChallengers)
  | 11 => ¬(it.vaultCount < 1 ∨ it.vaultCount > maxVaults)
  | 12 => ¬(it.prepeginMaxFee = 0 ∨ it.prepeginMaxFee > prepeginMaxFeeLimit)
  | _ => True

/-- All scalars of an accepted P1=0x00; last the check that joins two of them. -/
def ScalarsOk (net : Network) (it : VaultIntent) : Prop := ∀ i < 14, match i with
  | 13 => it.depositorPath.pick 1 = it.coinType ||| hardened
  | i => ScalarOk net it i

theorem ok_bind {ε α β : Type} {x : Except ε α} {f : α → Except ε β} {b : β} :
    (x >>= f) = .ok b ↔ ∃ a, x = .ok a ∧ f a = .ok b := by
  cases x with
  | error e => simp [bind, Except.bind]
  | ok a => simp [bind, Except.bind]

theorem valid_ok {c : Prop} [Decidable c] {u : Unit} : valid c = .ok u ↔ c := by
  unfold valid
  split_ifs with h <;> simp [h]

theorem pure_ok {ε α : Type} {a b : α} : (pure a : Except ε α) = .ok b ↔ a = b := by
  simp [pure, Except.pure]

theorem lenIs_ok {n : ℕ} {v : Bytes} {u : Unit} : lenIs n v = .ok u ↔ v.length = n := by
  unfold lenIs
  split_ifs with h <;> simp_all

/-- A field that is stored passes its own check `Ok` and leaves the others alone. -/
def FieldSound {α : Type} (Ok : α → ℕ → Prop) (x : α) (r : Except TlvErr (ℕ × α)) : Prop :=
  ∀ idx x', r = .ok (idx, x') → Ok x' idx ∧ ∀ j, j ≠ idx → Ok x j → Ok x' j

namespace FieldSound
variable {α : Type} {Ok : α → ℕ → Prop} {x y : α} {r r' : Except TlvErr (ℕ × α)} {n i : ℕ}
  {v : Bytes}

theorem ite {c : Prop} [Decidable c] (h : FieldSound Ok x r) (h' : FieldSound Ok x r') :
    FieldSound Ok x (if c then r else r') := by
  split_ifs
  · exact h
  · exact h'

theorem error {e : TlvErr} : FieldSound Ok x (.error e) := by
  intro idx x' h
  cases h

theorem field {c : Prop} [Decidable c] (h1 : c → Ok y i) (h2 : ∀ j, j ≠ i → Ok x j → Ok y j) :
    FieldSound Ok x (do lenIs n v; valid c; return (i, y)) := by
  intro idx x' h
  simp only [ok_bind, valid_ok, pure_ok] at h
  obtain ⟨_, -, _, hc, he⟩ := h
  obtain ⟨rfl, rfl⟩ := Prod.mk.inj he
  exact ⟨h1 hc, h2⟩

theorem unchecked (h1 : Ok y i) (h2 : ∀ j, j ≠ i → Ok x j → Ok y j) :
    FieldSound Ok x (do lenIs n v; return (i, y)) := by
  intro idx x' h
  simp only [ok_bind, pure_ok] at h
  obtain ⟨_, -, he⟩ := h
  obtain ⟨rfl, rfl⟩ := Prod.mk.inj he
  exact ⟨h1, h2⟩

end FieldSound

theorem tlvField_sound (net : Network) (tag : ℕ) (v : Bytes) (it : VaultIntent) :
    FieldSound (ScalarOk net) it (tlvField net tag v it) := by
  unfold tlvField
  iterate 6
    refine .ite (.field (fun h => h) ?_) ?_
    · intro j hj hp
      unfold ScalarOk
      split <;> first | exact hp | exact absurd rfl hj | trivial
  refine .ite (.unchecked trivial ?_) ?_
  · intro j hj hp
    unfold ScalarOk
    split <;> first | exact hp | exact absurd rfl hj | trivial
  iterate 6
    refine .ite (.field (fun h => h) ?_) ?_
    · intro j hj hp
      unfold ScalarOk
      split <;> first | exact hp | exact absurd rfl hj | trivial
  exact .error

/-- One more field in the mask of the fields seen. -/
theorem seen_step {α : Type} {Ok : α → ℕ → Prop} {x x' : α} {seen idx : ℕ}
    (h : ∀ j, seen.testBit j = true → Ok x j) (h' : Ok x' idx ∧ ∀ j, j ≠ idx → Ok x j → Ok x' j)
    (j : ℕ) (hj : (seen ||| 1 <<< idx).testBit j = true) : Ok x' j := by
  by_cases he : j = idx
  · exact he ▸ h'.1
  · refine h'.2 j he (h j ?_)
    rw [Nat.testBit_or, Nat.one_shiftLeft, Nat.testBit_two_pow_of_ne (Ne.symm he),
      Bool.or_false] at hj
    exact hj

theorem tlvLoop_ok {net : Network} : ∀ {fuel : ℕ} {data : Bytes} {seen seen' : ℕ}
    {it it' : VaultIntent}, tlvLoop net fuel data seen it = .ok (seen', it') →
    (∀ j, seen.testBit j = true → ScalarOk net it j) →
    ∀ j, seen'.testBit j = true → ScalarOk net it' j
  | 0, [], _, _, _, _, h, hs | _ + 1, [], _, _, _, _, h, hs => by
    cases h
    exact hs
  | 0, _ :: _, _, _, _, _, h, _ => by cases h
  | fuel + 1, b :: data, seen, _, it, _, h, hs => by
    simp only [tlvLoop, ok_bind] at h
    obtain ⟨⟨tag, v, rest⟩, -, ⟨idx, out⟩, hf, h⟩ := h
    split_ifs at h
    exact tlvLoop_ok h (seen_step hs (tlvField_sound net tag v it idx out hf))

/-- Every scalar of an accepted payload has passed its check. -/
theorem vaultTlvParse_ok {net : Network} {data : Bytes} {it it' : VaultIntent}
    (h : vaultTlvParse net data it = .ok it') : ScalarsOk net it' := by
  simp only [vaultTlvParse, ok_bind] at h
  obtain ⟨⟨seen, out⟩, hl, h⟩ := h
  split_ifs at h with hseen hcoin
  cases h
  have hmask : seen = 2 ^ 13 - 1 := not_not.1 hseen
  have hall : ∀ j < 13, ScalarOk net out j := fun j hj => by
    refine tlvLoop_ok hl (by simp) j ?_
    rw [hmask, Nat.testBit_two_pow_sub_one]
    exact decide_eq_true hj
  intro j hj
  split
  · exact not_not.1 hcoin
  · rename_i h13
    have hne : j ≠ 13 := h13
    exact hall j (by omega)

/-! ## Groups -/

/-- A field of a group has passed its own check. -/
def GroupFieldOk (grp : VaultGroup) : ℕ → Prop
  | 3 => ¬grp.commissionFee < dustLimit
  | 4 => ¬grp.depositorClaimValue < dustLimit
  | _ => True

/-- What the parser asks of a group, over exact integers. -/
structure GroupOk (grp : VaultGroup) : Prop where
  commission : 546 ≤ grp.commissionFee.toNat
  claim : 546 ≤ grp.depositorClaimValue.toNat
  amount : grp.commissionFee.toNat + 1092 < grp.vaultAmount.toNat

theorem tlvGroupField_sound (tag : ℕ) (v : Bytes) (grp : VaultGroup) :
    FieldSound GroupFieldOk grp (tlvGroupField tag v grp) := by
  unfold tlvGroupField
  iterate 3
    refine .ite (.unchecked trivial ?_) ?_
    · intro j hj hp
      unfold GroupFieldOk
      split <;> first | exact hp | exact absurd rfl hj | trivial
  iterate 2
    refine .ite (.field (fun h => h) ?_) ?_
    · intro j hj hp
      unfold GroupFieldOk
      split <;> first | exact hp | exact absurd rfl hj | trivial
  refine .ite (.unchecked trivial ?_) .error
  intro j hj hp
  unfold GroupFieldOk
  split <;> first | exact hp | exact absurd rfl hj | trivial

theorem tlvGroupLoop_ok : ∀ {fuel : ℕ} {data rest : Bytes} {seen seen' next : ℕ}
    {grp grp' : VaultGroup}, tlvGroupLoop fuel data seen next grp = .ok (seen', grp', rest) →
    (∀ j, seen.testBit j = true → GroupFieldOk grp j) →
    ∀ j, seen'.testBit j = true → GroupFieldOk grp' j
  | 0, [], _, _, _, _, _, _, h, hs | _ + 1, [], _, _, _, _, _, _, h, hs => by
    cases h
    exact hs
  | 0, _ :: _, _, _, _, _, _, _, h, _ => by cases h
  | fuel + 1, b :: data, _, seen, _, next, grp, _, h, hs => by
    simp only [tlvGroupLoop, ok_bind] at h
    obtain ⟨⟨tag, v, rest⟩, -, ⟨idx, out⟩, hf, h⟩ := h
    have hstep := seen_step hs (tlvGroupField_sound tag v grp idx out hf)
    split_ifs at h
    · cases h
      exact hstep
    · exact tlvGroupLoop_ok h hstep

/-- A group that was read has passed the checks. -/
theorem vaultTlvParseGroup_ok {data rest : Bytes} {grp grp' : VaultGroup}
    (h : vaultTlvParseGroup data grp = .ok (grp', rest)) : GroupOk grp' := by
  simp only [vaultTlvParseGroup, ok_bind] at h
  obtain ⟨⟨seen, out, rest'⟩, hl, h⟩ := h
  dsimp only at h
  split_ifs at h with hseen hsum
  cases h
  have hfields := tlvGroupLoop_ok hl (by simp)
  rw [not_not.1 hseen] at hfields
  have h3 : ¬grp'.commissionFee < dustLimit := hfields 3 (by decide)
  have h4 : ¬grp'.depositorClaimValue < dustLimit := hfields 4 (by decide)
  have hdust : dustLimit.toNat = 546 := rfl
  rw [UInt64.lt_iff_toNat_lt, hdust] at h3 h4
  obtain ⟨hc, ha⟩ := not_or.1 hsum
  have htwo : (2 * dustLimit).toNat = 1092 := rfl
  have hmax : (UInt64.ofNat (2 ^ 64 - 1) - 2 * dustLimit).toNat = 2 ^ 64 - 1 - 1092 := rfl
  rw [gt_iff_lt, UInt64.lt_iff_toNat_lt, hmax] at hc
  rw [UInt64.le_iff_toNat_le, UInt64.toNat_add, htwo, Nat.mod_eq_of_lt (by omega)] at ha
  exact ⟨by omega, by omega, by omega⟩

variable {E : Env}

/-- The first `n` groups have been stored. -/
structure GroupsOk (E : Env) (it : VaultIntent) (n : ℕ) : Prop where
  count : n ≤ it.vaultCount
  group : ∀ g < n, GroupOk (it.group g) ∧ keyOk E (it.group g).vaultProviderPk = true
  ascending : ∀ g, g + 1 < n → (it.group g).htlcVout < (it.group (g + 1)).htlcVout

theorem GroupsOk.zero (E : Env) (it : VaultIntent) : GroupsOk E it 0 :=
  ⟨Nat.zero_le _, by simp, by simp⟩

theorem storeGroup_ok {data rest : Bytes} {it it' : VaultIntent} {gi : ℕ}
    (h : storeGroup E data it gi = some (it', rest)) (hv : it.vaultCount ≤ maxVaults)
    (hg : GroupsOk E it gi) : GroupsOk E it' (gi + 1) ∧ ∃ gs, it' = { it with groups := gs } := by
  unfold storeGroup at h
  split at h
  · cases h
  next grp rest' hp =>
    split_ifs at h with hc
    obtain ⟨hlt, -, hkey, hvout⟩ := hc
    cases h
    have hself : (it.groups.put gi grp).pick gi = grp := List.Vector.pick_put_self (by omega)
    have hother : ∀ {g}, g ≠ gi → (it.groups.put gi grp).pick g = it.group g := fun h =>
      List.Vector.pick_put_ne (Ne.symm h)
    refine ⟨⟨hlt, fun g hg' => ?_, fun g hg' => ?_⟩, _, rfl⟩
    · show GroupOk ((it.groups.put gi grp).pick g) ∧
        keyOk E ((it.groups.put gi grp).pick g).vaultProviderPk = true
      by_cases he : g = gi
      · rw [he, hself]
        exact ⟨vaultTlvParseGroup_ok hp, hkey⟩
      · rw [hother he]
        exact hg.group g (by omega)
    · show ((it.groups.put gi grp).pick g).htlcVout < ((it.groups.put gi grp).pick (g + 1)).htlcVout
      rw [hother (by omega)]
      by_cases he : g + 1 = gi
      · rw [he, hself]
        obtain rfl : g = gi - 1 := by omega
        exact UInt8.not_le.1 fun hle => hvout ⟨by omega, hle⟩
      · rw [hother he]
        exact hg.ascending g (by omega)

theorem storeGroups_ok : ∀ {fuel : ℕ} {data : Bytes} {it it' : VaultIntent} {gi gi' : ℕ},
    storeGroups E fuel data it gi = some (it', gi') → it.vaultCount ≤ maxVaults →
    GroupsOk E it gi → GroupsOk E it' gi' ∧ ∃ gs, it' = { it with groups := gs }
  | 0, [], it, _, _, _, h, _, hg | _ + 1, [], it, _, _, _, h, _, hg => by
    cases h
    exact ⟨hg, it.groups, rfl⟩
  | 0, _ :: _, _, _, _, _, h, _, _ => nomatch h
  | fuel + 1, b :: data, it, it', gi, gi', h, hv, hg => by
    obtain ⟨⟨it₁, rest⟩, h₁, h₂⟩ := Option.bind_eq_some_iff.1 h
    obtain ⟨hg₁, gs, rfl⟩ := storeGroup_ok h₁ hv hg
    obtain ⟨hg₂, gs', rfl⟩ := storeGroups_ok h₂ hv hg₁
    exact ⟨hg₂, gs', rfl⟩

/-- Once all groups are there no other can be stored. -/
theorem storeGroups_full {fuel : ℕ} {data : Bytes} {it it' : VaultIntent} {gi' : ℕ}
    (h : storeGroups E fuel data it it.vaultCount = some (it', gi')) :
    it' = it ∧ gi' = it.vaultCount := by
  rcases data with _ | ⟨b, data⟩
  · cases fuel <;> cases h <;> exact ⟨rfl, rfl⟩
  · rcases fuel with _ | fuel
    · cases h
    · obtain ⟨_, h₁, -⟩ := Option.bind_eq_some_iff.1 h
      unfold storeGroup at h₁
      split at h₁
      · cases h₁
      · exact absurd (Option.ite_none_right_eq_some.1 h₁).1.1 (lt_irrefl _)

/-! ## Keys -/

/-- The first `n` keys have been stored: keepers, then challengers. -/
structure KeysOk (E : Env) (it : VaultIntent) (n : ℕ) : Prop where
  count : n ≤ it.keeperCount + it.challengerCount
  key : ∀ j < n, keyOk E (storedKey it j) = true
  vault : ∀ j < n, ∀ g < it.vaultCount, storedKey it j ≠ (it.group g).vaultProviderPk
  distinct : ∀ j < n, ∀ i < j, storedKey it j ≠ storedKey it i
  order : ∀ j < n, keyInOrder it j (storedKey it j) = true

theorem KeysOk.zero (E : Env) (it : VaultIntent) : KeysOk E it 0 :=
  ⟨Nat.zero_le _, by simp, by simp, by simp, by simp⟩

/-- Writing keys leaves the rest of the intent alone. -/
def keysFrame (it it' : VaultIntent) : Prop :=
  ∃ ks cs, it' = { it with keeperPks := ks, challengerPks := cs }

/-- A key that is stored takes its place and leaves the other keys alone. -/
theorem vaultValidateAndStoreKey_some {it it' : VaultIntent} {n : ℕ} {key : Bytes32}
    (h : vaultValidateAndStoreKey it n key = some it') (hk : it.keeperCount ≤ maxKeepers)
    (hc : it.challengerCount ≤ maxChallengers) (hn : n < it.keeperCount + it.challengerCount) :
    keyInOrder it n key = true ∧ (∀ g < it.vaultCount, key ≠ (it.group g).vaultProviderPk) ∧
      (∀ j < n, key ≠ storedKey it j) ∧ keysFrame it it' ∧
      ∀ j, storedKey it' j = if j = n then key else storedKey it j := by
  unfold vaultValidateAndStoreKey at h
  split_ifs at h with h1 h2 h3 h4 <;> cases h <;>
    refine ⟨by simpa using h1, by simpa using h2, by simpa using h3, ?_, fun j => ?_⟩
  · exact ⟨_, _, rfl⟩
  · unfold storedKey
    dsimp only
    by_cases hj : j = n
    · rw [if_pos hj, hj, if_pos h4, List.Vector.pick_put_self (by omega)]
    · rw [if_neg hj, List.Vector.pick_put_ne (Ne.symm hj)]
  · exact ⟨_, _, rfl⟩
  · unfold storedKey
    dsimp only
    by_cases hj : j = n
    · rw [if_pos hj, hj, if_neg h4, List.Vector.pick_put_self (by omega)]
    · rw [if_neg hj]
      split_ifs with hlt
      · rfl
      · rw [List.Vector.pick_put_ne (by omega)]

theorem storeKey_ok {data rest : Bytes} {it it' : VaultIntent} {n : ℕ}
    (h : storeKey E data it n = some (it', rest)) (hk : it.keeperCount ≤ maxKeepers)
    (hc : it.challengerCount ≤ maxChallengers) (hks : KeysOk E it n) :
    KeysOk E it' (n + 1) ∧ keysFrame it it' := by
  rcases data with _ | ⟨hi, _ | ⟨lo, _ | ⟨klen, data⟩⟩⟩
  · cases h
  · cases h
  · cases h
  · unfold storeKey at h
    obtain ⟨⟨-, -, hn, -, hkey⟩, h⟩ := Option.ite_none_right_eq_some.1 h
    obtain ⟨it₁, hs, he⟩ := Option.map_eq_some_iff.1 h
    obtain ⟨rfl, -⟩ := Prod.mk.inj he
    obtain ⟨hord, hvp, hdis, hframe, hst⟩ := vaultValidateAndStoreKey_some hs hk hc hn
    have hself : storedKey it₁ n = Buf.ofBytes 32 data := by rw [hst, if_pos rfl]
    have hother : ∀ j, j ≠ n → storedKey it₁ j = storedKey it j := fun j hj => by
      rw [hst, if_neg hj]
    obtain ⟨ks, cs, rfl⟩ := hframe
    have hinord : ∀ j key, j ≤ n → keyInOrder { it with keeperPks := ks, challengerPks := cs } j key
        = keyInOrder it j key := fun j key hj => by
      unfold keyInOrder
      rcases j with _ | j
      · rfl
      · rw [hother (j + 1 - 1) (by omega)]
    refine ⟨⟨hn, fun j hj => ?_, fun j hj g hg => ?_, fun j hj i hi => ?_, fun j hj => ?_⟩, ks, cs,
      rfl⟩
    · by_cases he : j = n
      · rw [he, hself]
        exact hkey
      · rw [hother j he]
        exact hks.key j (by omega)
    · by_cases he : j = n
      · rw [he, hself]
        exact hvp g hg
      · rw [hother j he]
        exact hks.vault j (by omega) g hg
    · rw [hother i (by omega)]
      by_cases he : j = n
      · rw [he, hself]
        exact hdis i (by omega)
      · rw [hother j he]
        exact hks.distinct j (by omega) i hi
    · rw [hinord j _ (by omega)]
      by_cases he : j = n
      · rw [he, hself]
        exact hord
      · rw [hother j he]
        exact hks.order j (by omega)

theorem storeKeys_ok : ∀ {fuel : ℕ} {data : Bytes} {it it' : VaultIntent} {n n' : ℕ},
    storeKeys E fuel data it n = some (it', n') → it.keeperCount ≤ maxKeepers →
    it.challengerCount ≤ maxChallengers → KeysOk E it n → KeysOk E it' n' ∧ keysFrame it it'
  | 0, [], it, _, _, _, h, _, _, hks | _ + 1, [], it, _, _, _, h, _, _, hks => by
    cases h
    exact ⟨hks, it.keeperPks, it.challengerPks, rfl⟩
  | 0, _ :: _, _, _, _, _, h, _, _, _ => nomatch h
  | fuel + 1, b :: data, it, it', n, n', h, hk, hc, hks => by
    obtain ⟨⟨it₁, rest⟩, h₁, h₂⟩ := Option.bind_eq_some_iff.1 h
    obtain ⟨hks₁, ks, cs, rfl⟩ := storeKey_ok h₁ hk hc hks
    obtain ⟨hks₂, ks', cs', rfl⟩ := storeKeys_ok h₂ hk hc hks₁
    exact ⟨hks₂, ks', cs', rfl⟩

/-! ## The complete intent -/

/-- What holds of the intent of a loaded session. -/
structure LoadedIntent (E : Env) (it : VaultIntent) : Prop where
  scalars : ScalarsOk E.network it
  groups : GroupsOk E it it.vaultCount
  keys : KeysOk E it (it.keeperCount + it.challengerCount)
  depositor : ∃ pk, E.pubkeyAt it.depositorPath.toList = some pk ∧ xonly pk = it.depositorPk
  unique : vaultCheckDepositorUniqueness it it.depositorPk = true

end BabylonVault
