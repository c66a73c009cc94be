/-
  The language of the P1=0x01 payloads.

  * `encodeGroup`: a group record, six entries in the order of their tags; the parser takes
    exactly these off the front of a payload (`vaultTlvParseGroup_iff`).
  * `groupReader`: the loop of the handler as a reader of records; it takes exactly the
    payloads of groups that follow those there are (`storeGroups_iff`).
-/
import BabylonVault.Scalars
import BabylonVault.History
import BabylonVault.Lib.Records

namespace BabylonVault
open Bytes

variable {tag k n fuel seen seen' next next' : ℕ} {v data rest : Bytes} {grp out : VaultGroup}

/-! ## The fields -/

/-- The tag of a group field, by its index. -/
def groupTag : ℕ → ℕ
  | 0 => tagGrpHtlcVout
  | 1 => tagGrpVaultProviderPk
  | 2 => tagGrpVaultAmount
  | 3 => tagGrpCommissionFee
  | 4 => tagGrpDepositorClaimValue
  | _ => tagGrpPeginMaxFee

/-- The length of its value. -/
def groupLen : ℕ → ℕ
  | 0 => 1
  | 1 => 32
  | _ => 8

/-- The value of a field of a group, as it is sent. -/
def groupValue (grp : VaultGroup) : ℕ → Bytes
  | 0 => [grp.htlcVout]
  | 1 => grp.vaultProviderPk.toList
  | 2 => (leBytes 8 grp.vaultAmount.toNat).reverse
  | 3 => (leBytes 8 grp.commissionFee.toNat).reverse
  | 4 => (leBytes 8 grp.depositorClaimValue.toNat).reverse
  | _ => (leBytes 8 grp.peginMaxFee.toNat).reverse

/-- The record of a field. -/
def groupEntry (grp : VaultGroup) (i : ℕ) : ℕ × Bytes := (groupTag i, groupValue grp i)

/-- A group record. -/
def encodeGroup (grp : VaultGroup) : Bytes := encodeEntries ((List.range 6).map (groupEntry grp))

theorem groupTag_inj {i j : ℕ} (hi : i < 6) (hj : j < 6) (h : groupTag i = groupTag j) : i = j := by
  revert h
  interval_cases i <;> interval_cases j <;> decide

theorem length_groupValue (grp : VaultGroup) {i : ℕ} (hi : i < 6) :
    (groupValue grp i).length = groupLen i := by
  interval_cases i
  case «1» => exact grp.vaultProviderPk.toList_length
  all_goals simp [groupValue, groupLen]

theorem groupEntry_fits (grp : VaultGroup) {i : ℕ} (hi : i < 6) : EntryFits (groupEntry grp i) := by
  refine ⟨?_, ?_⟩
  · show groupTag i < 2 ^ 16
    interval_cases i <;> decide
  · show (groupValue grp i).length < 2 ^ 8
    rw [length_groupValue grp hi]
    interval_cases i <;> decide

theorem length_encodeGroup (grp : VaultGroup) : (encodeGroup grp).length = 83 := by
  have h : ∀ i < 6, (groupEntry grp i).2.length = groupLen i := fun i hi => length_groupValue grp hi
  have hr : List.range 6 = [0, 1, 2, 3, 4, 5] := rfl
  rw [encodeGroup, hr]
  simp only [encodeEntries, List.map_cons, List.map_nil, List.flatMap_cons, List.flatMap_nil,
    List.length_append, length_entry, List.length_nil]
  rw [h 0 (by omega), h 1 (by omega), h 2 (by omega), h 3 (by omega), h 4 (by omega),
    h 5 (by omega)]
  rfl

/-- A number that is read back from its bytes. -/
theorem beBytes_ofBE {m : ℕ} (h : v.length = m) : (leBytes m (ofBE v)).reverse = v := by
  have hrev := ofBE_reverse v.reverse
  rw [List.reverse_reverse] at hrev
  subst h
  rw [hrev, show v.length = v.reverse.length from List.length_reverse.symm, leBytes_ofLE, List.reverse_reverse]

theorem beBytes_u64 (h : v.length = 8) :
    (leBytes 8 (UInt64.ofNat (ofBE v)).toNat).reverse = v := by
  rw [toNat_u64 h, beBytes_ofBE h]

theorem beBytes_u64_inj {x y : UInt64}
    (h : (leBytes 8 x.toNat).reverse = (leBytes 8 y.toNat).reverse) : x = y := by
  refine UInt64.toNat_inj.1 ?_
  rw [← ofBE_leBytes (n := 8) x.toNat_lt, h, ofBE_leBytes (n := 8) y.toNat_lt]

/-- A group is its six values. -/
theorem group_ext (h : ∀ i < 6, groupValue grp i = groupValue out i) : grp = out := by
  obtain ⟨vout, pk, amount, commission, claim, fee⟩ := grp
  obtain ⟨vout', pk', amount', commission', claim', fee'⟩ := out
  have h0 : [vout] = [vout'] := h 0 (by omega)
  have h1 : pk.toList = pk'.toList := h 1 (by omega)
  obtain rfl : vout = vout' := (List.cons.inj h0).1
  obtain rfl : pk = pk' := Subtype.ext h1
  obtain rfl : amount = amount' := beBytes_u64_inj (h 2 (by omega))
  obtain rfl : commission = commission' := beBytes_u64_inj (h 3 (by omega))
  obtain rfl : claim = claim' := beBytes_u64_inj (h 4 (by omega))
  obtain rfl : fee = fee' := beBytes_u64_inj (h 5 (by omega))
  rfl

/-- A check looks at one value. -/
theorem groupFieldOk_congr {i : ℕ} (h : groupValue grp i = groupValue out i) :
    GroupFieldOk grp i ↔ GroupFieldOk out i := by
  match i, h with
  | 0, _ | 1, _ | 2, _ | _ + 5, _ => exact Iff.rfl
  | 3, h =>
    have hc : grp.commissionFee = out.commissionFee := beBytes_u64_inj h
    show ¬_ < _ ↔ ¬_ < _
    rw [hc]
  | 4, h =>
    have hc : grp.depositorClaimValue = out.depositorClaimValue := beBytes_u64_inj h
    show ¬_ < _ ↔ ¬_ < _
    rw [hc]

/-- A group with one field taken from another. -/
theorem exists_groupValue (grp out : VaultGroup) (hk : k < 6) : ∃ g,
    groupValue g k = groupValue grp k ∧ ∀ i < 6, i ≠ k → groupValue g i = groupValue out i := by
  interval_cases k
  case «0» =>
    refine ⟨{ out with htlcVout := grp.htlcVout }, rfl, fun i hi h => ?_⟩
    interval_cases i <;> first | rfl | exact absurd rfl h
  case «1» =>
    refine ⟨{ out with vaultProviderPk := grp.vaultProviderPk }, rfl, fun i hi h => ?_⟩
    interval_cases i <;> first | rfl | exact absurd rfl h
  case «2» =>
    refine ⟨{ out with vaultAmount := grp.vaultAmount }, rfl, fun i hi h => ?_⟩
    interval_cases i <;> first | rfl | exact absurd rfl h
  case «3» =>
    refine ⟨{ out with commissionFee := grp.commissionFee }, rfl, fun i hi h => ?_⟩
    interval_cases i <;> first | rfl | exact absurd rfl h
  case «4» =>
    refine ⟨{ out with depositorClaimValue := grp.depositorClaimValue }, rfl, fun i hi h => ?_⟩
    interval_cases i <;> first | rfl | exact absurd rfl h
  case «5» =>
    refine ⟨{ out with peginMaxFee := grp.peginMaxFee }, rfl, fun i hi h => ?_⟩
    interval_cases i <;> first | rfl | exact absurd rfl h

/-! ## The switch -/

/-- A field has been read: its record, its check, and the other fields left alone. -/
def FieldRead (tag : ℕ) (v : Bytes) (out : VaultGroup) (x : ℕ × VaultGroup) : Prop :=
  x.1 < 6 ∧ tag = groupTag x.1 ∧ v = groupValue x.2 x.1 ∧ GroupFieldOk x.2 x.1 ∧
    ∀ i < 6, i ≠ x.1 → groupValue x.2 i = groupValue out i

/-- One case of the `switch`: `g` has the value stored at `k`. -/
theorem fieldRead_iff {g : VaultGroup} {c : Prop} {x : ℕ × VaultGroup} (hk : k < 6)
    (hself : v.length = groupLen k → groupValue g k = v)
    (hother : ∀ i < 6, i ≠ k → groupValue g i = groupValue out i)
    (hc : c ↔ GroupFieldOk g k) :
    v.length = groupLen k ∧ c ∧ x = (k, g) ↔ x.1 = k ∧ FieldRead (groupTag k) v out x := by
  constructor
  · rintro ⟨hl, hok, rfl⟩
    exact ⟨rfl, hk, rfl, (hself hl).symm, hc.1 hok, hother⟩
  · obtain ⟨j, grp⟩ := x
    rintro ⟨rfl, -, -, hv, hok, hrest⟩
    dsimp only at hv hok hrest hk hself hother hc ⊢
    have hl : v.length = groupLen j := by rw [hv, length_groupValue grp hk]
    obtain rfl : g = grp := by
      refine group_ext fun i hi => ?_
      by_cases h : i = j
      · rw [h, hself hl, hv]
      · rw [hother i hi h, hrest i hi h]
    exact ⟨hl, hc.2 hok, rfl⟩

theorem fieldRead_unchecked {g : VaultGroup} {x : ℕ × VaultGroup} (hk : k < 6)
    (hself : v.length = groupLen k → groupValue g k = v)
    (hother : ∀ i < 6, i ≠ k → groupValue g i = groupValue out i) (hok : GroupFieldOk g k) :
    v.length = groupLen k ∧ x = (k, g) ↔ x.1 = k ∧ FieldRead (groupTag k) v out x := by
  rw [← fieldRead_iff hk hself hother (iff_of_true trivial hok), true_and]

theorem groupSwitch_case {r t : Except TlvErr (ℕ × VaultGroup)} {x : ℕ × VaultGroup}
    (hk : k < 6) (hr : r = .ok x ↔ x.1 = k ∧ FieldRead (groupTag k) v out x)
    (ht : tag ≠ groupTag k → (t = .ok x ↔ FieldRead tag v out x)) :
    (if tag = groupTag k then r else t) = .ok x ↔ FieldRead tag v out x := by
  split_ifs with h
  · rw [hr, h]
    refine ⟨fun hs => hs.2, fun hs => ⟨?_, hs⟩⟩
    exact (groupTag_inj hk hs.1 hs.2.1).symm
  · exact ht h

/-- The `switch` of the parser. -/
theorem tlvGroupField_iff {x : ℕ × VaultGroup} :
    tlvGroupField tag v out = .ok x ↔ FieldRead tag v out x := by
  unfold tlvGroupField
  refine groupSwitch_case (k := 0) (by omega) (unchecked_ok.trans ?_) fun _ => ?_
  · refine fieldRead_unchecked (k := 0) (by omega) ?_ ?_ trivial
    · intro hl
      obtain ⟨b, rfl⟩ := List.length_eq_one_iff.1 hl
      rfl
    · intro i hi h
      interval_cases i <;> first | rfl | exact absurd rfl h
  refine groupSwitch_case (k := 1) (by omega) (unchecked_ok.trans ?_) fun _ => ?_
  · refine fieldRead_unchecked (k := 1) (by omega) Buf.toList_ofBytes (fun i hi h => ?_) trivial
    interval_cases i <;> first | rfl | exact absurd rfl h
  refine groupSwitch_case (k := 2) (by omega) (unchecked_ok.trans ?_) fun _ => ?_
  · refine fieldRead_unchecked (k := 2) (by omega) beBytes_u64 (fun i hi h => ?_) trivial
    interval_cases i <;> first | rfl | exact absurd rfl h
  refine groupSwitch_case (k := 3) (by omega) (field_ok.trans ?_) fun _ => ?_
  · refine fieldRead_iff (k := 3) (by omega) beBytes_u64 (fun i hi h => ?_) Iff.rfl
    interval_cases i <;> first | rfl | exact absurd rfl h
  refine groupSwitch_case (k := 4) (by omega) (field_ok.trans ?_) fun _ => ?_
  · refine fieldRead_iff (k := 4) (by omega) beBytes_u64 (fun i hi h => ?_) Iff.rfl
    interval_cases i <;> first | rfl | exact absurd rfl h
  refine groupSwitch_case (k := 5) (by omega) (unchecked_ok.trans ?_) fun _ => ?_
  · refine fieldRead_unchecked (k := 5) (by omega) beBytes_u64 (fun i hi h => ?_) trivial
    interval_cases i <;> first | rfl | exact absurd rfl h
  refine ⟨fun h => (nomatch h), ?_⟩
  rintro ⟨hj, htag, -⟩
  obtain ⟨j, grp⟩ := x
  dsimp only at hj htag
  interval_cases j <;> contradiction

/-! ## The record -/

/-- The fields that were passed over stay as they are in the mask. -/
theorem tlvGroupLoop_below : ∀ {fuel : ℕ} {data : Bytes} {seen next : ℕ} {out : VaultGroup},
    tlvGroupLoop fuel data seen next out = .ok (seen', grp, rest) →
    ∀ j < next, seen'.testBit j = seen.testBit j
  | 0, [], _, _, _, h, j, _ | _ + 1, [], _, _, _, h, j, _ => by
    cases h
    rfl
  | 0, _ :: _, _, _, _, h, _, _ => by cases h
  | fuel + 1, b :: data, seen, next, out, h, j, hj => by
    simp only [tlvGroupLoop, ok_bind] at h
    obtain ⟨⟨tag, v, rest'⟩, -, ⟨idx, out'⟩, -, h⟩ := h
    have hstep : idx ≥ next → (seen ||| 1 <<< idx).testBit j = seen.testBit j := by
      intro hidx
      rw [Nat.testBit_or, Nat.one_shiftLeft, Nat.testBit_two_pow_of_ne (by omega), Bool.or_false]
    split_ifs at h with hidx hfull
    · cases h
      exact hstep (by omega)
    · rw [tlvGroupLoop_below h j (by omega), hstep (by omega)]

/-- The mask of the first fields, and the next one. -/
theorem mask_succ (hk : k < 6) : (2 ^ k - 1) ||| 1 <<< k = 2 ^ (k + 1) - 1 := by
  interval_cases k <;> rfl

/-- A field that was passed over is missing. -/
theorem mask_gap {j : ℕ} (h : k < j) : ((2 ^ k - 1) ||| 1 <<< j).testBit k = false := by
  rw [Nat.testBit_or, Nat.testBit_two_pow_sub_one, Nat.one_shiftLeft,
    Nat.testBit_two_pow_of_ne (by omega), Bool.or_false]
  exact decide_eq_false (lt_irrefl k)

/-- One turn, when the record is complete in the end: the next field. -/
theorem tlvGroupLoop_turn (hk : k < 6) (hfuel : data.length ≤ fuel) :
    tlvGroupLoop fuel data (2 ^ k - 1) k out = .ok (2 ^ 6 - 1, grp, rest) ↔
      ∃ out' rest', data = entry (groupTag k) (groupValue out' k) ++ rest' ∧ GroupFieldOk out' k ∧
        (∀ i < 6, i ≠ k → groupValue out' i = groupValue out i) ∧
        if k = 5 then out' = grp ∧ rest' = rest
        else tlvGroupLoop (fuel - 1) rest' (2 ^ (k + 1) - 1) (k + 1) out' =
          .ok (2 ^ 6 - 1, grp, rest) := by
  rcases data with _ | ⟨b, data⟩
  · constructor
    · intro h
      have hmask : 2 ^ k - 1 = 2 ^ 6 - 1 := by cases fuel <;> exact (Prod.mk.inj (Except.ok.inj h)).1
      interval_cases k <;> contradiction
    · rintro ⟨out', rest', hdata, -⟩
      have hlen := congrArg List.length hdata
      rw [List.length_append, length_entry, List.length_nil] at hlen
      omega
  rcases fuel with _ | fuel
  · exact absurd hfuel (Nat.not_succ_le_zero _)
  simp only [tlvGroupLoop, ok_bind, Nat.add_sub_cancel]
  have hend : ∀ {out' rest'}, (if 2 ^ (k + 1) - 1 = 2 ^ 6 - 1 then
        .ok (2 ^ (k + 1) - 1, out', rest')
      else tlvGroupLoop fuel rest' (2 ^ (k + 1) - 1) (k + 1) out' :
        Except TlvErr (ℕ × VaultGroup × Bytes)) = .ok (2 ^ 6 - 1, grp, rest) ↔
      if k = 5 then out' = grp ∧ rest' = rest
      else tlvGroupLoop fuel rest' (2 ^ (k + 1) - 1) (k + 1) out' =
        .ok (2 ^ 6 - 1, grp, rest) := by
    intro out' rest'
    by_cases h5 : k = 5
    · subst h5
      rw [if_pos rfl, if_pos rfl, Except.ok.injEq, Prod.mk.injEq, Prod.mk.injEq]
      exact and_iff_right rfl
    · rw [if_neg h5, if_neg (by interval_cases k <;> first | decide | exact absurd rfl h5)]
  constructor
  · rintro ⟨⟨tag, v, rest'⟩, he, ⟨j, out'⟩, hf, h⟩
    obtain ⟨hj, rfl, rfl, hok, hrest⟩ := tlvGroupField_iff.1 hf
    dsimp only at hj hok hrest h he
    have hlt : ¬j < k := by
      intro hlt
      rw [if_pos hlt] at h
      cases h
    rw [if_neg hlt] at h
    by_cases hjk : j = k
    · subst hjk
      rw [mask_succ hk] at h
      exact ⟨out', rest', (tlvEntry_iff.1 he).2, hok, hrest, hend.1 h⟩
    · have hgap := mask_gap (k := k) (j := j) (by omega)
      have hfull : (2 ^ 6 - 1).testBit k = true := by
        rw [Nat.testBit_two_pow_sub_one]
        exact decide_eq_true hk
      split_ifs at h with hall
      · rw [hall, hfull] at hgap
        cases hgap
      · have hbelow := tlvGroupLoop_below h k (by omega)
        rw [hgap, hfull] at hbelow
        cases hbelow
  · rintro ⟨out', rest', hdata, hok, hrest, h⟩
    refine ⟨_, hdata ▸ tlvEntry_entry rest' (groupEntry_fits out' hk), (k, out'),
      tlvGroupField_iff.2 ⟨hk, rfl, rfl, hok, hrest⟩, ?_⟩
    dsimp only
    rw [if_neg (lt_irrefl k), mask_succ hk]
    exact hend.2 h

/-- The loop from field `k` on. -/
theorem tlvGroupLoop_iff : ∀ {m k fuel : ℕ} {data : Bytes} {out : VaultGroup}, k + m = 5 →
    data.length ≤ fuel →
    (tlvGroupLoop fuel data (2 ^ k - 1) k out = .ok (2 ^ 6 - 1, grp, rest) ↔
      (∀ i < k, groupValue grp i = groupValue out i) ∧
      (∀ i, k ≤ i → i < 6 → GroupFieldOk grp i) ∧
      data = encodeEntries ((List.range' k (m + 1)).map (groupEntry grp)) ++ rest)
  | 0, k, fuel, data, out, hm, hfuel => by
    obtain rfl : k = 5 := hm
    rw [tlvGroupLoop_turn (by omega) hfuel]
    have hlast : encodeEntries ((List.range' 5 (0 + 1)).map (groupEntry grp)) =
        entry (groupTag 5) (groupValue grp 5) := List.append_nil _
    rw [hlast]
    constructor
    · rintro ⟨out', rest', hdata, hok, hrest, h⟩
      obtain ⟨rfl, rfl⟩ : out' = grp ∧ rest' = rest := h
      refine ⟨fun i hi => hrest i (by omega) (by omega), fun i hi hi' => ?_, hdata⟩
      obtain rfl : i = 5 := by omega
      exact hok
    · rintro ⟨hbefore, hok, hdata⟩
      exact ⟨grp, rest, hdata, hok 5 le_rfl (by omega), fun i hi h => hbefore i (by omega), rfl, rfl⟩
  | m + 1, k, fuel, data, out, hm, hfuel => by
    rw [tlvGroupLoop_turn (by omega) hfuel]
    have hcons : encodeEntries ((List.range' k (m + 1 + 1)).map (groupEntry grp)) =
        entry (groupTag k) (groupValue grp k) ++
          encodeEntries ((List.range' (k + 1) (m + 1)).map (groupEntry grp)) := rfl
    have hlen : ∀ {out' rest'}, data = entry (groupTag k) (groupValue out' k) ++ rest' →
        rest'.length ≤ fuel - 1 := by
      intro out' rest' hdata
      have := congrArg List.length hdata
      rw [List.length_append, length_entry] at this
      omega
    rw [hcons, List.append_assoc]
    constructor
    · rintro ⟨out', rest', hdata, hok, hrest, h⟩
      rw [if_neg (by omega), tlvGroupLoop_iff (m := m) (by omega) (hlen hdata)] at h
      obtain ⟨hbefore, hafter, rfl⟩ := h
      have hval : groupValue grp k = groupValue out' k := hbefore k (by omega)
      refine ⟨fun i hi => ?_, fun i hi hi' => ?_, ?_⟩
      · rw [hbefore i (by omega), hrest i (by omega) (by omega)]
      · by_cases h : i = k
        · rw [h]
          exact (groupFieldOk_congr hval).2 hok
        · exact hafter i (by omega) hi'
      · rw [hval]
        exact hdata
    · rintro ⟨hbefore, hok, hdata⟩
      obtain ⟨out', hself, hother⟩ := exists_groupValue grp out (k := k) (by omega)
      rw [← hself] at hdata
      refine ⟨out', _, hdata, (groupFieldOk_congr hself).2 (hok k le_rfl (by omega)), hother, ?_⟩
      · rw [if_neg (by omega), tlvGroupLoop_iff (m := m) (by omega) (hlen hdata)]
        refine ⟨fun i hi => ?_, fun i hi hi' => hok i (by omega) hi', rfl⟩
        by_cases h : i = k
        · rw [h, hself]
        · rw [hother i (by omega) h, hbefore i (by omega)]

/-- What the parser takes off the front of a payload: a record, whatever follows. -/
theorem vaultTlvParseGroup_iff : vaultTlvParseGroup data out = .ok (grp, rest) ↔
    GroupOk grp ∧ data = encodeGroup grp ++ rest := by
  have hloop := @tlvGroupLoop_iff rest grp 5 0 data.length data out rfl le_rfl
  constructor
  · intro h
    refine ⟨vaultTlvParseGroup_ok h, ?_⟩
    simp only [vaultTlvParseGroup, ok_bind] at h
    obtain ⟨⟨seen, out', rest'⟩, hl, h⟩ := h
    dsimp only at h
    split_ifs at h with hseen hsum
    cases h
    rw [not_not.1 hseen] at hl
    exact (hloop.1 hl).2.2
  · rintro ⟨hok, hdata⟩
    have hdust : dustLimit.toNat = 546 := rfl
    have htwo : (2 * dustLimit).toNat = 1092 := rfl
    have hmax : (UInt64.ofNat (2 ^ 64 - 1) - 2 * dustLimit).toNat = 2 ^ 64 - 1 - 1092 := rfl
    have hlt := grp.vaultAmount.toNat_lt
    obtain ⟨hcommission, hclaim, hamount⟩ := hok
    have hfields : ∀ i, 0 ≤ i → i < 6 → GroupFieldOk grp i := by
      intro i _ hi
      interval_cases i
      case «3» =>
        show ¬grp.commissionFee < dustLimit
        rw [UInt64.lt_iff_toNat_lt]
        omega
      case «4» =>
        show ¬grp.depositorClaimValue < dustLimit
        rw [UInt64.lt_iff_toNat_lt]
        omega
      all_goals trivial
    have hsum : ¬(grp.commissionFee > UInt64.ofNat (2 ^ 64 - 1) - 2 * dustLimit ∨
        grp.vaultAmount ≤ grp.commissionFee + 2 * dustLimit) := by
      rw [gt_iff_lt, UInt64.lt_iff_toNat_lt, UInt64.le_iff_toNat_le, UInt64.toNat_add, hmax, htwo,
        Nat.mod_eq_of_lt (by omega)]
      omega
    have hl := hloop.2 ⟨by simp, hfields, hdata⟩
    unfold vaultTlvParseGroup
    rw [show tlvGroupLoop data.length data 0 0 out = _ from hl]
    show (if 2 ^ 6 - 1 ≠ 2 ^ 6 - 1 then Except.error TlvErr.missingField
      else if _ then Except.error TlvErr.validation else Except.ok (grp, rest)) = _
    rw [if_neg (not_not.2 rfl), if_neg hsum]

theorem encodeGroup_ne_nil (grp : VaultGroup) : encodeGroup grp ≠ [] :=
  List.ne_nil_of_length_pos (by rw [length_encodeGroup]; omega)

/-- A record is told by its bytes. -/
theorem encodeGroup_inj {a b : VaultGroup} {rest' : Bytes}
    (h : encodeGroup a ++ rest = encodeGroup b ++ rest') : a = b ∧ rest = rest' := by
  obtain ⟨hab, hrest⟩ := List.append_inj h (by rw [length_encodeGroup, length_encodeGroup])
  refine ⟨group_ext fun i hi => ?_, hrest⟩
  have hfits : ∀ (g : VaultGroup), ∀ e ∈ (List.range 6).map (groupEntry g), EntryFits e := by
    intro g e he
    obtain ⟨j, hj, rfl⟩ := List.mem_map.1 he
    exact groupEntry_fits g (List.mem_range.1 hj)
  have hes := encodeEntries_inj (hfits a) (hfits b) hab
  exact (Prod.mk.inj (List.map_inj_left.1 hes i (List.mem_range.2 hi))).2

/-! ## The payload -/

variable {E : Env} {it it' : VaultIntent} {gi gi' : ℕ} {grps : List VaultGroup}

/-- A group that follows the first `gi` groups of an intent. -/
structure GroupFollows (E : Env) (it : VaultIntent) (gi : ℕ) (grp : VaultGroup) : Prop where
  room : gi < it.vaultCount
  checked : GroupOk grp
  key : keyOk E grp.vaultProviderPk = true
  ascends : 0 < gi → (it.group (gi - 1)).htlcVout < grp.htlcVout

def VaultIntent.putGroup (it : VaultIntent) (gi : ℕ) (grp : VaultGroup) : VaultIntent :=
  { it with groups := it.groups.put gi grp }

theorem storeGroup_iff : storeGroup E data it gi = some (it', rest) ↔
    ∃ grp, GroupFollows E it gi grp ∧ data = encodeGroup grp ++ rest ∧ it' = it.putGroup gi grp := by
  unfold storeGroup
  constructor
  · intro h
    split at h
    · cases h
    next grp rest' hp =>
      obtain ⟨⟨hroom, -, hkey, hvout⟩, h⟩ := Option.ite_none_right_eq_some.1 h
      cases h
      obtain ⟨hok, hdata⟩ := vaultTlvParseGroup_iff.1 hp
      exact ⟨grp, ⟨hroom, hok, hkey, fun hpos => UInt8.not_le.1 fun hle => hvout ⟨hpos, hle⟩⟩, hdata, rfl⟩
  · rintro ⟨grp, hf, hdata, rfl⟩
    have hlen := congrArg List.length hdata
    rw [List.length_append, length_encodeGroup] at hlen
    rw [vaultTlvParseGroup_iff.2 ⟨hf.checked, hdata⟩]
    dsimp only
    refine if_pos ⟨hf.room, by omega, hf.key, ?_⟩
    rintro ⟨hpos, hle⟩
    exact UInt8.not_le.2 (hf.ascends hpos) hle

/-- A turn of the loop, over the intent and the number of its groups. -/
def groupReader (E : Env) : Reader UInt8 (VaultIntent × ℕ) := fun data s =>
  (storeGroup E data s.1 s.2).map fun r => ((r.1, s.2 + 1), r.2)

theorem storeGroups_eq_readAll : ∀ {fuel : ℕ} {data : Bytes} {it : VaultIntent} {gi : ℕ},
    storeGroups E fuel data it gi = (groupReader E).readAll fuel data (it, gi)
  | 0, [], _, _ | _ + 1, [], _, _ | 0, _ :: _, _, _ => rfl
  | fuel + 1, b :: data, it, gi => by
    rw [storeGroups, Reader.readAll, groupReader]
    rcases storeGroup E (b :: data) it gi with _ | ⟨it', rest⟩
    · rfl
    · exact storeGroups_eq_readAll

theorem groupReader_iff {s s' : VaultIntent × ℕ} : groupReader E data s = some (s', rest) ↔
    ∃ grp, GroupFollows E s.1 s.2 grp ∧ data = encodeGroup grp ++ rest ∧
      s' = (s.1.putGroup s.2 grp, s.2 + 1) := by
  rw [groupReader, Option.map_eq_some_iff]
  constructor
  · rintro ⟨⟨it', rest'⟩, h, he⟩
    obtain ⟨rfl, rfl⟩ := Prod.mk.inj he
    obtain ⟨grp, hf, hdata, rfl⟩ := storeGroup_iff.1 h
    exact ⟨grp, hf, hdata, rfl⟩
  · rintro ⟨grp, hf, hdata, rfl⟩
    exact ⟨_, storeGroup_iff.2 ⟨grp, hf, hdata, rfl⟩, rfl⟩

/-- A record has 83 bytes. -/
theorem groupReader_progress {s s' : VaultIntent × ℕ} (h : groupReader E data s = some (s', rest)) :
    rest.length + 83 = data.length := by
  obtain ⟨grp, -, rfl, -⟩ := groupReader_iff.1 h
  rw [List.length_append, length_encodeGroup, Nat.add_comm]

theorem groupReader_lawful : (groupReader E).Lawful := by
  constructor
  · intro data rest s s' h
    have := groupReader_progress h
    omega
  · intro data rest s s' more h
    obtain ⟨grp, hf, rfl, hs⟩ := groupReader_iff.1 h
    exact groupReader_iff.2 ⟨grp, hf, List.append_assoc _ _ _, hs⟩

theorem groupReader_step {s s' : VaultIntent × ℕ} :
    (groupReader E).step s (encodeGroup grp) = some s' ↔
      GroupFollows E s.1 s.2 grp ∧ s' = (s.1.putGroup s.2 grp, s.2 + 1) := by
  rw [Reader.step, Option.map_eq_some_iff]
  constructor
  · rintro ⟨⟨s'', rest⟩, h, rfl⟩
    obtain ⟨g, hf, hdata, hs⟩ := groupReader_iff.1 h
    rw [← List.append_nil (encodeGroup grp)] at hdata
    obtain ⟨rfl, -⟩ := encodeGroup_inj hdata
    exact ⟨hf, hs⟩
  · rintro ⟨hf, rfl⟩
    exact ⟨_, groupReader_iff.2 ⟨grp, hf, (List.append_nil _).symm, rfl⟩, rfl⟩

/-- A group record is taken as a whole or refused, whatever follows. -/
theorem groupReader_whole (grp : VaultGroup) : (groupReader E).Whole (encodeGroup grp) := by
  refine ⟨encodeGroup_ne_nil grp, fun s more => Option.ext fun ⟨s', rest⟩ => ?_⟩
  rw [groupReader_iff, Option.map_eq_some_iff]
  constructor
  · rintro ⟨g, hf, hdata, hs⟩
    obtain ⟨rfl, rfl⟩ := encodeGroup_inj hdata
    exact ⟨s', groupReader_step.2 ⟨hf, hs⟩, rfl⟩
  · rintro ⟨s'', h, he⟩
    obtain ⟨rfl, rfl⟩ := Prod.mk.inj he
    obtain ⟨hf, rfl⟩ := groupReader_step.1 h
    exact ⟨grp, hf, rfl, rfl⟩

/-- Groups that follow the first `gi` groups of an intent. -/
structure GroupsFollow (E : Env) (it : VaultIntent) (gi : ℕ) (grps : List VaultGroup) : Prop where
  room : grps ≠ [] → gi + grps.length ≤ it.vaultCount
  checked : ∀ grp ∈ grps, GroupOk grp ∧ keyOk E grp.vaultProviderPk = true
  first : 0 < gi → ∀ grp ∈ grps.head?, (it.group (gi - 1)).htlcVout < grp.htlcVout
  ascending : grps.IsChain fun a b => a.htlcVout < b.htlcVout

/-- The groups stored from place `gi` on. -/
def VaultIntent.putGroups (it : VaultIntent) : ℕ → List VaultGroup → VaultIntent
  | _, [] => it
  | gi, grp :: grps => (it.putGroup gi grp).putGroups (gi + 1) grps

theorem group_putGroup (hv : it.vaultCount ≤ maxVaults) (hgi : gi < it.vaultCount) (g : ℕ) :
    (it.putGroup gi grp).group g = if g = gi then grp else it.group g := by
  show (it.groups.put gi grp).pick g = _
  rw [List.Vector.pick_put (by omega)]
  by_cases h : g = gi
  · rw [if_pos h, if_pos h.symm]
  · rw [if_neg h, if_neg (Ne.symm h)]
    rfl

theorem groupsFollow_cons (hv : it.vaultCount ≤ maxVaults) :
    GroupsFollow E it gi (grp :: grps) ↔
      GroupFollows E it gi grp ∧ GroupsFollow E (it.putGroup gi grp) (gi + 1) grps := by
  have hself : gi < it.vaultCount → ((it.putGroup gi grp).group (gi + 1 - 1)) = grp := by
    intro hgi
    rw [Nat.add_sub_cancel, group_putGroup hv hgi, if_pos rfl]
  constructor
  · rintro ⟨hroom, hchecked, hfirst, hasc⟩
    have hroom := hroom (List.cons_ne_nil _ _)
    rw [List.length_cons] at hroom
    obtain ⟨⟨hok, hkey⟩, hchecked⟩ := List.forall_mem_cons.1 hchecked
    refine ⟨⟨by omega, hok, hkey, fun hpos => hfirst hpos grp rfl⟩, fun _ => ?_, hchecked, ?_, ?_⟩
    · show gi + 1 + grps.length ≤ it.vaultCount
      omega
    · intro _ next hnext
      rw [hself (by omega)]
      exact (List.isChain_cons.1 hasc).1 next hnext
    · exact (List.isChain_cons.1 hasc).2
  · rintro ⟨⟨hgi, hok, hkey, hasc⟩, hroom, hchecked, hfirst, hchain⟩
    refine ⟨fun _ => ?_, List.forall_mem_cons.2 ⟨⟨hok, hkey⟩, hchecked⟩, ?_, ?_⟩
    · rw [List.length_cons]
      rcases grps with _ | ⟨next, grps⟩
      · exact hgi
      · have hroom : gi + 1 + (next :: grps).length ≤ it.vaultCount := hroom (List.cons_ne_nil _ _)
        omega
    · rintro hpos g ⟨⟩
      exact hasc hpos
    · refine List.isChain_cons.2 ⟨fun next hnext => ?_, hchain⟩
      have h := hfirst (Nat.succ_pos gi) next hnext
      rw [hself hgi] at h
      exact h

/-- The records that are stored one after the other. -/
theorem foldlM_groups : ∀ {grps : List VaultGroup} {it : VaultIntent} {gi : ℕ}
    {t : VaultIntent × ℕ}, it.vaultCount ≤ maxVaults →
    (grps.foldlM (fun s grp => (groupReader E).step s (encodeGroup grp)) (it, gi) = some t ↔
      GroupsFollow E it gi grps ∧ t = (it.putGroups gi grps, gi + grps.length))
  | [], it, gi, t, _ => by
    constructor
    · intro h
      cases h
      exact ⟨⟨fun h => absurd rfl h, by simp, by simp, List.isChain_nil⟩, rfl⟩
    · rintro ⟨-, rfl⟩
      rfl
  | grp :: grps, it, gi, t, hv => by
    rw [groupsFollow_cons hv, List.foldlM_cons]
    have hlen : gi + (grp :: grps).length = gi + 1 + grps.length := by
      rw [List.length_cons]
      omega
    constructor
    · intro h
      obtain ⟨s', h₁, h₂⟩ := Option.bind_eq_some_iff.1 h
      obtain ⟨hf, rfl⟩ := groupReader_step.1 h₁
      have hv' : (it.putGroup gi grp).vaultCount ≤ maxVaults := hv
      obtain ⟨hfs, rfl⟩ := (foldlM_groups hv').1 h₂
      exact ⟨⟨hf, hfs⟩, hlen ▸ rfl⟩
    · rintro ⟨⟨hf, hfs⟩, rfl⟩
      refine Option.bind_eq_some_iff.2 ⟨_, groupReader_step.2 ⟨hf, rfl⟩, ?_⟩
      have hv' : (it.putGroup gi grp).vaultCount ≤ maxVaults := hv
      exact (foldlM_groups hv').2 ⟨hfs, hlen ▸ rfl⟩

/-- The payloads of groups that the loop stores. -/
theorem storeGroups_iff (hv : it.vaultCount ≤ maxVaults) (hfuel : data.length ≤ fuel) :
    storeGroups E fuel data it gi = some (it', gi') ↔ ∃ grps, data = grps.flatMap encodeGroup ∧
      GroupsFollow E it gi grps ∧ it' = it.putGroups gi grps ∧ gi' = gi + grps.length := by
  rw [storeGroups_eq_readAll, Reader.readAll_eq_run groupReader_lawful hfuel,
    Reader.run_iff groupReader_lawful groupReader_whole]
  · simp only [foldlM_groups hv, Prod.mk.injEq]
  · intro data rest s s' h
    obtain ⟨grp, -, hdata, -⟩ := groupReader_iff.1 h
    exact ⟨grp, hdata⟩

/-- What is stored where. -/
theorem group_putGroups : ∀ {grps : List VaultGroup} {it : VaultIntent} {gi : ℕ} (g : ℕ),
    it.vaultCount ≤ maxVaults → (grps ≠ [] → gi + grps.length ≤ it.vaultCount) →
    (it.putGroups gi grps).group g = if gi ≤ g then (grps[g - gi]?).getD (it.group g) else it.group g
  | [], it, gi, g, _, _ => by
    show it.group g = _
    split_ifs <;> rfl
  | grp :: grps, it, gi, g, hv, hroom => by
    have hroom := hroom (List.cons_ne_nil _ _)
    rw [List.length_cons] at hroom
    rw [VaultIntent.putGroups, group_putGroups g (show (it.putGroup gi grp).vaultCount ≤ maxVaults from hv)
      (fun _ => by show gi + 1 + grps.length ≤ it.vaultCount; omega),
      group_putGroup hv (by omega)]
    rcases Nat.lt_trichotomy g gi with h | rfl | h
    · rw [if_neg (by omega), if_neg (by omega), if_neg (by omega)]
    · rw [if_neg (by omega), if_pos rfl, if_pos le_rfl, Nat.sub_self]
      rfl
    · rw [if_pos (by omega), if_neg (by omega), if_pos (by omega),
        show g - gi = g - (gi + 1) + 1 by omega, List.getElem?_cons_succ]

/-! ## The loop on a device -/

/-- The language of the P1=0x01 payloads on a device. -/
structure GroupLanguage (E : Env) (d : Device) : Prop where
  record : ∀ data n out grp, (∃ rest, vaultTlvParseGroup data out = .ok (grp, rest) ∧
      data.length = n + rest.length) ↔
    GroupOk grp ∧ n ≤ data.length ∧ data.take n = encodeGroup grp
  stored : ∀ grps, GroupsFollow E d.intent d.tr.vaultGroupIndex grps →
    groupLoop E (grps.flatMap encodeGroup).length (grps.flatMap encodeGroup) d =
      .ret (.ok (), d.setGroups (d.intent.putGroups d.tr.vaultGroupIndex grps)
        (d.tr.vaultGroupIndex + grps.length))
  places : ∀ grps, GroupsFollow E d.intent d.tr.vaultGroupIndex grps → ∀ g,
    (d.intent.putGroups d.tr.vaultGroupIndex grps).group g =
      if d.tr.vaultGroupIndex ≤ g then (grps[g - d.tr.vaultGroupIndex]?).getD (d.intent.group g)
      else d.intent.group g
  refused : ∀ data, (¬∃ grps, data = grps.flatMap encodeGroup ∧
      GroupsFollow E d.intent d.tr.vaultGroupIndex grps) →
    handlerApproveVaultIntent E 1 0 data d =
      .ret (.error (.reject .incorrectData), vaultContextInvalidate d)
  progress : ∀ data rest d' d'', groupRecord E data d' = .ret (.ok rest, d'') →
    rest.length + 83 = data.length
  ends : ∀ fuel data, data.length ≤ fuel → groupLoop E fuel data d = groupLoop E data.length data d

theorem vaultTlvParseGroup_take : (∃ rest, vaultTlvParseGroup data out = .ok (grp, rest) ∧
      data.length = n + rest.length) ↔
    GroupOk grp ∧ n ≤ data.length ∧ data.take n = encodeGroup grp := by
  constructor
  · rintro ⟨rest, h, hlen⟩
    obtain ⟨hok, rfl⟩ := vaultTlvParseGroup_iff.1 h
    rw [List.length_append] at hlen ⊢
    exact ⟨hok, by omega, List.take_left' (by omega)⟩
  · rintro ⟨hok, hn, htake⟩
    refine ⟨data.drop n, vaultTlvParseGroup_iff.2 ⟨hok, ?_⟩, ?_⟩
    · rw [← htake, List.take_append_drop]
    · rw [List.length_drop]
      omega

/-- Group records decode one by one, and the loop stores exactly those that follow. -/
theorem Reach.group_language {es : List Exchange} {d : Device} (h : Reach E es d)
    (hs : d.approve.scalarsLoaded = true) : GroupLanguage E d := by
  have hd := (h.session.derived (h.session.loading hs)).load hs
  have hv : d.intent.vaultCount ≤ maxVaults := hd.1.counts.2.2.2
  constructor
  · intro data n out grp
    exact vaultTlvParseGroup_take
  · intro grps hf
    rw [groupLoop_run, (storeGroups_iff hv le_rfl).2 ⟨grps, rfl, hf, rfl, rfl⟩]
    rfl
  · intro grps hf g
    exact group_putGroups g hv hf.room
  · intro data hno
    have hnone : storeGroups E data.length data d.intent d.tr.vaultGroupIndex = none := by
      rw [Option.eq_none_iff_forall_ne_some]
      rintro ⟨it, gi⟩ hsome
      obtain ⟨grps, hdata, hf, -⟩ := (storeGroups_iff hv le_rfl).1 hsome
      exact hno ⟨grps, hdata, hf⟩
    have hloop : groupLoop E data.length data d =
        .ret (.error (.reject .incorrectData), vaultContextInvalidate d) := by
      rw [groupLoop_run, hnone]
      rfl
    show handleGroupPayload E data d = _
    rw [handleGroupPayload, Prog.get_bind_run, if_neg (by rw [hs]; exact Bool.noConfusion),
      Prog.run_bind, hloop]
    rfl
  · intro data rest d' d'' hrun
    rw [groupRecord_run] at hrun
    rcases hst : storeGroup E data d'.intent d'.tr.vaultGroupIndex with _ | ⟨it, rest'⟩
    · rw [hst] at hrun
      cases hrun
    · rw [hst] at hrun
      cases hrun
      have hstep : groupReader E data (d'.intent, d'.tr.vaultGroupIndex) =
          some ((it, d'.tr.vaultGroupIndex + 1), rest) := by
        rw [groupReader, hst]
        rfl
      exact groupReader_progress hstep
  · intro fuel data hfuel
    rw [groupLoop_run, groupLoop_run, storeGroups_eq_readAll, storeGroups_eq_readAll,
      Reader.readAll_eq_run groupReader_lawful hfuel, Reader.readAll_eq_run groupReader_lawful le_rfl]

/-- A load on signet that waits for its groups. -/
theorem group_language_signet :
    GroupLanguage Signet.env (play Signet.env ((Signet.load Signet.intent).take 2) Device.boot).2 :=
  Reach.group_language (Run.play _ _) (by decide +kernel)

end BabylonVault
