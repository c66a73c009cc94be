/-
  The language of the P1=0x00 payload.

  * `scalarTag`, `scalarLen`, `ScalarDocumented`: the 13 fields as `apdu.md` lists them;
    `ScalarCapped` is what the device asks on top of it.
  * `tlvField_iff`: the `switch` of the parser accepts a value of the right length that
    passes both checks, and stores it.
  * `vaultTlvParse_iff`: the parser accepts one record of each field, in any order.
  * `vaultTlvParseAt`: the parser with every read of the payload checked.
-/
import Mathlib.Data.Nat.Bitwise
import BabylonVault.Play

namespace BabylonVault
open Bytes

variable {net : Network} {tag i n seen : ℕ} {v data : Bytes} {out it : VaultIntent}
  {σ τ : List ℕ} {vals : ℕ → Bytes}

/-! ## The fields -/

/-- The tag of a scalar field, by its index. -/
def scalarTag : ℕ → ℕ
  | 0 => tagStructureType
  | 1 => tagVersion
  | 2 => tagCoinType
  | 3 => tagBaseFeeRate
  | 4 => tagPeginCsvTimelock
  | 5 => tagPayoutTimelock
  | 6 => tagPrepeginTxid
  | 7 => tagHtlcRefundTimelock
  | 8 => tagDepositorDerivationPath
  | 9 => tagKeeperCount
  | 10 => tagChallengerCount
  | 11 => tagVaultCount
  | _ => tagPrepeginMaxFee

/-- The length of its value. -/
def scalarLen : ℕ → ℕ
  | 0 | 1 | 9 | 10 | 11 => 1
  | 2 | 4 | 5 | 7 => 4
  | 6 => 32
  | 8 => 20
  | _ => 8

/-- A level of a path, as it is sent. -/
def pathLevel (v : Bytes) (i : ℕ) : ℕ := ofBE ((v.drop (4 * i)).take 4)

/-- The validation rule of a field, on the big-endian value. -/
def ScalarDocumented (net : Network) (v : Bytes) : ℕ → Prop
  | 0 => ofBE v = structureType.toNat
  | 1 => ofBE v = protocolVersion.toNat
  | 2 => ofBE v = net.coinType.toNat
  | 3 => 1 ≤ ofBE v ∧ ofBE v ≤ 10000
  | 4 => 72 ≤ ofBE v ∧ ofBE v ≤ 1008
  | 5 => 90 < ofBE v ∧ ofBE v < 4032
  | 7 => 72 ≤ ofBE v ∧ ofBE v ≤ 4320
  | 8 => pathLevel v 0 = 0x80000000 + 86 ∧ 0x80000000 ≤ pathLevel v 1 ∧
      0x80000000 ≤ pathLevel v 2 ∧ pathLevel v 3 < 0x80000000 ∧ pathLevel v 4 < 0x80000000
  | 9 => 1 ≤ ofBE v ∧ ofBE v ≤ 32
  | 10 => 1 ≤ ofBE v ∧ ofBE v ≤ 32
  | 11 => 1 ≤ ofBE v ∧ ofBE v ≤ 10
  | 12 => 1 ≤ ofBE v
  | _ => True

/-- What the device asks beyond the rule: the bounds of `check_bip86_path` on the path,
    and a fee of at most 1 BTC. -/
def ScalarCapped (v : Bytes) : ℕ → Prop
  | 8 => pathLevel v 2 ≤ 0x80000000 + 100 ∧ pathLevel v 3 ≤ 1 ∧ pathLevel v 4 ≤ 10000
  | 12 => ofBE v ≤ 100000000
  | _ => True

instance (net : Network) (v : Bytes) : ∀ i, Decidable (ScalarDocumented net v i)
  | 0 | 1 | 2 => inferInstanceAs (Decidable (_ = _))
  | 3 | 4 | 5 | 7 | 8 | 9 | 10 | 11 => inferInstanceAs (Decidable (_ ∧ _))
  | 12 => inferInstanceAs (Decidable (1 ≤ _))
  | 6 | _ + 13 => .isTrue trivial

instance (v : Bytes) : ∀ i, Decidable (ScalarCapped v i)
  | 8 => inferInstanceAs (Decidable (_ ∧ _))
  | 12 => inferInstanceAs (Decidable (_ ≤ 100000000))
  | 0 | 1 | 2 | 3 | 4 | 5 | 6 | 7 | 9 | 10 | 11 | _ + 13 => .isTrue trivial

/-- The intent with one scalar field stored. -/
def VaultIntent.setScalar (out : VaultIntent) (v : Bytes) : ℕ → VaultIntent
  | 0 => { out with structureType := v.headD 0 }
  | 1 => { out with version := v.headD 0 }
  | 2 => { out with coinType := UInt32.ofNat (ofBE v) }
  | 3 => { out with baseFeeRate := UInt64.ofNat (ofBE v) }
  | 4 => { out with peginCsvTimelock := ofBE v }
  | 5 => { out with payoutTimelock := ofBE v }
  | 6 => { out with prepeginTxid := Buf.ofBytes 32 v }
  | 7 => { out with htlcRefundTimelock := ofBE v }
  | 8 => { out with depositorPath := pathOf depositorPathLen v }
  | 9 => { out with keeperCount := ofBE v }
  | 10 => { out with challengerCount := ofBE v }
  | 11 => { out with vaultCount := ofBE v }
  | _ => { out with prepeginMaxFee := UInt64.ofNat (ofBE v) }

/-- The intent with all of them stored. -/
def VaultIntent.withScalars (out : VaultIntent) (vals : ℕ → Bytes) : VaultIntent :=
  { out with
    structureType := (vals 0).headD 0
    version := (vals 1).headD 0
    coinType := UInt32.ofNat (ofBE (vals 2))
    baseFeeRate := UInt64.ofNat (ofBE (vals 3))
    peginCsvTimelock := ofBE (vals 4)
    payoutTimelock := ofBE (vals 5)
    prepeginTxid := Buf.ofBytes 32 (vals 6)
    htlcRefundTimelock := ofBE (vals 7)
    depositorPath := pathOf depositorPathLen (vals 8)
    keeperCount := ofBE (vals 9)
    challengerCount := ofBE (vals 10)
    vaultCount := ofBE (vals 11)
    prepeginMaxFee := UInt64.ofNat (ofBE (vals 12)) }

theorem headD_toNat {b : Bytes} (h : b.length = 1) : (b.headD 0).toNat = ofBE b := by
  rcases b with _ | ⟨x, _ | ⟨y, b⟩⟩
  · cases h
  · show x.toNat = 256 * 0 + x.toNat
    omega
  · simp at h

theorem toNat_u32 {b : Bytes} (h : b.length = 4) : (UInt32.ofNat (ofBE b)).toNat = ofBE b := by
  have hlt := ofBE_lt b
  rw [h] at hlt
  rw [UInt32.toNat_ofNat', Nat.mod_eq_of_lt (by omega)]

theorem toNat_u64 {b : Bytes} (h : b.length = 8) : (UInt64.ofNat (ofBE b)).toNat = ofBE b := by
  have hlt := ofBE_lt b
  rw [h] at hlt
  rw [UInt64.toNat_ofNat', Nat.mod_eq_of_lt (by omega)]

/-- A level of the path, as the device stores it. -/
theorem toNat_pathOf (hv : v.length = 20) (hi : i < 5) :
    ((pathOf depositorPathLen v).pick i).toNat = pathLevel v i := by
  have hl : ((v.drop (4 * i)).take 4).length = 4 := by
    rw [List.length_take, List.length_drop]
    omega
  have hget : (pathOf depositorPathLen v).pick i = UInt32.ofNat (pathLevel v i) := by
    interval_cases i <;> rfl
  rw [hget, pathLevel, toNat_u32 hl]

/-- The hardening bit. -/
theorem hardened_iff (x : UInt32) : x &&& hardened = 0 ↔ x.toNat < 0x80000000 := by
  have hx := x.toNat_lt
  have hand : (x &&& hardened).toNat = x.toNat &&& 2 ^ 31 := UInt32.toNat_and x hardened
  rw [← UInt32.toNat_inj, hand, Nat.and_two_pow, Nat.testBit_eq_decide_div_mod_eq]
  show (decide (x.toNat / 2 ^ 31 % 2 = 1)).toNat * 2 ^ 31 = 0 ↔ _
  by_cases h : x.toNat / 2 ^ 31 % 2 = 1
  · rw [decide_eq_true h]
    simp
    omega
  · rw [decide_eq_false h]
    simp
    omega

/-- The rest of a path level. -/
theorem toNat_unhardened (x : UInt32) : (x &&& ~~~hardened).toNat = x.toNat % 2 ^ 31 := by
  rw [UInt32.toNat_and, show (~~~hardened).toNat = 2 ^ 31 - 1 from rfl,
    Nat.and_two_pow_sub_one_eq_mod]

theorem hardened_ne_iff (x : UInt32) : x &&& hardened ≠ 0 ↔ 0x80000000 ≤ x.toNat := by
  rw [ne_eq, hardened_iff, not_lt]

/-- The checks on the path, level by level. -/
theorem depositorPathOk_iff (hv : v.length = 20) :
    depositorPathOk (pathOf depositorPathLen v) = true ↔
      ScalarDocumented net v 8 ∧ ScalarCapped v 8 := by
  have h0 := toNat_pathOf (i := 0) hv (by omega)
  have h1 := toNat_pathOf (i := 1) hv (by omega)
  have h2 := toNat_pathOf (i := 2) hv (by omega)
  have h3 := toNat_pathOf (i := 3) hv (by omega)
  have h4 := toNat_pathOf (i := 4) hv (by omega)
  have hb := (pathOf depositorPathLen v).pick 2 |>.toNat_lt
  have hpurpose : (bip86Purpose ||| hardened).toNat = 0x80000000 + 86 := rfl
  have hacct : bip86MaxAccount.toNat = 100 := rfl
  have hidx : bip86MaxAddressIndex.toNat = 10000 := rfl
  have hone : (1 : UInt32).toNat = 1 := rfl
  simp only [depositorPathOk, Bool.and_eq_true, decide_eq_true_eq, hardened_ne_iff, hardened_iff,
    UInt32.le_iff_toNat_le, toNat_unhardened, hacct, hidx, h1, h2, h3, h4, hone]
  rw [← UInt32.toNat_inj, h0, hpurpose]
  rw [h2] at hb
  show _ ↔ (pathLevel v 0 = 0x80000000 + 86 ∧ 0x80000000 ≤ pathLevel v 1 ∧
      0x80000000 ≤ pathLevel v 2 ∧ pathLevel v 3 < 0x80000000 ∧ pathLevel v 4 < 0x80000000) ∧
    pathLevel v 2 ≤ 0x80000000 + 100 ∧ pathLevel v 3 ≤ 1 ∧ pathLevel v 4 ≤ 10000
  omega

/-- The device's check of a field is the rule and the cap. -/
theorem scalarOk_iff (hi : i < 13) (hv : v.length = scalarLen i) :
    ScalarOk net (out.setScalar v i) i ↔ ScalarDocumented net v i ∧ ScalarCapped v i := by
  interval_cases i
  · show v.headD 0 = structureType ↔ ofBE v = structureType.toNat ∧ True
    rw [and_true, ← UInt8.toNat_inj, headD_toNat hv]
  · show v.headD 0 = protocolVersion ↔ ofBE v = protocolVersion.toNat ∧ True
    rw [and_true, ← UInt8.toNat_inj, headD_toNat hv]
  · show UInt32.ofNat (ofBE v) = net.coinType ↔ ofBE v = net.coinType.toNat ∧ True
    rw [and_true, ← UInt32.toNat_inj, toNat_u32 hv]
  · show ¬(UInt64.ofNat (ofBE v) = 0 ∨ UInt64.ofNat (ofBE v) > baseFeeRateMax) ↔
      (1 ≤ ofBE v ∧ ofBE v ≤ 10000) ∧ True
    have hmax : baseFeeRateMax.toNat = 10000 := rfl
    have hzero : (0 : UInt64).toNat = 0 := rfl
    rw [gt_iff_lt, UInt64.lt_iff_toNat_lt, ← UInt64.toNat_inj, toNat_u64 hv, hmax, hzero,
      and_true]
    omega
  · show ¬(ofBE v < 72 ∨ ofBE v > 1008) ↔ (72 ≤ ofBE v ∧ ofBE v ≤ 1008) ∧ True
    rw [and_true]
    omega
  · show ¬(ofBE v ≤ 90 ∨ ofBE v ≥ 4032) ↔ (90 < ofBE v ∧ ofBE v < 4032) ∧ True
    rw [and_true]
    omega
  · exact ⟨fun _ => ⟨trivial, trivial⟩, fun _ => trivial⟩
  · show ¬(ofBE v < 72 ∨ ofBE v > 4320) ↔ (72 ≤ ofBE v ∧ ofBE v ≤ 4320) ∧ True
    rw [and_true]
    omega
  · exact depositorPathOk_iff hv
  · show ¬(ofBE v < 1 ∨ ofBE v > 32) ↔ (1 ≤ ofBE v ∧ ofBE v ≤ 32) ∧ True
    rw [and_true]
    omega
  · show ¬(ofBE v < 1 ∨ ofBE v > 32) ↔ (1 ≤ ofBE v ∧ ofBE v ≤ 32) ∧ True
    rw [and_true]
    omega
  · show ¬(ofBE v < 1 ∨ ofBE v > 10) ↔ (1 ≤ ofBE v ∧ ofBE v ≤ 10) ∧ True
    rw [and_true]
    omega
  · show ¬(UInt64.ofNat (ofBE v) = 0 ∨ UInt64.ofNat (ofBE v) > prepeginMaxFeeLimit) ↔
      1 ≤ ofBE v ∧ ofBE v ≤ 100000000
    have hmax : prepeginMaxFeeLimit.toNat = 100000000 := rfl
    have hzero : (0 : UInt64).toNat = 0 := rfl
    rw [gt_iff_lt, UInt64.lt_iff_toNat_lt, ← UInt64.toNat_inj, toNat_u64 hv, hmax, hzero]
    omega

/-! ## The switch -/

theorem scalarTag_inj {j : ℕ} (hi : i < 13) (hj : j < 13) (h : scalarTag i = scalarTag j) :
    i = j := by
  revert h
  interval_cases i <;> interval_cases j <;> decide

theorem scalarTag_lt (i : ℕ) : scalarTag i < 2 ^ 16 := by
  unfold scalarTag
  split <;> decide

theorem scalarLen_lt (i : ℕ) : scalarLen i < 2 ^ 8 := by
  unfold scalarLen
  split <;> decide

theorem field_ok {α : Type} {c : Prop} [Decidable c] {x y : α} :
    (do lenIs n v; valid c; return y : Except TlvErr α) = .ok x ↔ v.length = n ∧ c ∧ x = y := by
  simp only [ok_bind, lenIs_ok, valid_ok, pure_ok]
  constructor
  · rintro ⟨_, hl, _, hc, rfl⟩
    exact ⟨hl, hc, rfl⟩
  · rintro ⟨hl, hc, rfl⟩
    exact ⟨(), hl, (), hc, rfl⟩

theorem unchecked_ok {α : Type} {x y : α} :
    (do lenIs n v; return y : Except TlvErr α) = .ok x ↔ v.length = n ∧ x = y := by
  simp only [ok_bind, lenIs_ok, pure_ok]
  constructor
  · rintro ⟨_, hl, rfl⟩
    exact ⟨hl, rfl⟩
  · rintro ⟨hl, rfl⟩
    exact ⟨(), hl, rfl⟩

/-- What the field at an index accepts, and what it stores. -/
def StoresScalar (net : Network) (v : Bytes) (out : VaultIntent) (k : ℕ) (x : ℕ × VaultIntent) :
    Prop :=
  v.length = scalarLen k ∧ ScalarOk net (out.setScalar v k) k ∧ x = (k, out.setScalar v k)

/-- One case of the `switch`, and the cases behind it. -/
theorem switch_case {k : ℕ} {r t : Except TlvErr (ℕ × VaultIntent)} {x : ℕ × VaultIntent}
    (hk : k < 13) (hr : r = .ok x ↔ StoresScalar net v out k x)
    (ht : tag ≠ scalarTag k → (t = .ok x ↔ ∃ j < 13, tag = scalarTag j ∧ StoresScalar net v out j x)) :
    (if tag = scalarTag k then r else t) = .ok x ↔
      ∃ j < 13, tag = scalarTag j ∧ StoresScalar net v out j x := by
  split_ifs with h
  · rw [hr]
    refine ⟨fun hs => ⟨k, hk, h, hs⟩, ?_⟩
    rintro ⟨j, hj, htag, hs⟩
    obtain rfl := scalarTag_inj hk hj (h.symm.trans htag)
    exact hs
  · exact ht h

/-- The `switch` of the parser. -/
theorem tlvField_iff {x : ℕ × VaultIntent} : tlvField net tag v out = .ok x ↔
    ∃ j < 13, tag = scalarTag j ∧ StoresScalar net v out j x := by
  unfold tlvField
  refine switch_case (k := 0) (by omega) field_ok fun h0 => ?_
  refine switch_case (k := 1) (by omega) field_ok fun h1 => ?_
  refine switch_case (k := 2) (by omega) field_ok fun h2 => ?_
  refine switch_case (k := 3) (by omega) field_ok fun h3 => ?_
  refine switch_case (k := 4) (by omega) field_ok fun h4 => ?_
  refine switch_case (k := 5) (by omega) field_ok fun h5 => ?_
  refine switch_case (k := 6) (by omega) (unchecked_ok.trans ?_) fun h6 => ?_
  · exact and_congr_right fun _ => ⟨fun h => ⟨trivial, h⟩, fun h => h.2⟩
  refine switch_case (k := 7) (by omega) field_ok fun h7 => ?_
  refine switch_case (k := 8) (by omega) field_ok fun h8 => ?_
  refine switch_case (k := 9) (by omega) field_ok fun h9 => ?_
  refine switch_case (k := 10) (by omega) field_ok fun h10 => ?_
  refine switch_case (k := 11) (by omega) field_ok fun h11 => ?_
  refine switch_case (k := 12) (by omega) field_ok fun h12 => ?_
  refine ⟨fun h => (nomatch h), ?_⟩
  rintro ⟨j, hj, rfl, -⟩
  interval_cases j <;> contradiction

/-! ## The fold over the records -/

/-- A value the device takes for the field at an index. -/
structure ScalarTaken (net : Network) (v : Bytes) (i : ℕ) : Prop where
  len : v.length = scalarLen i
  rule : ScalarDocumented net v i
  cap : ScalarCapped v i

/-- The record of the field at an index. -/
def scalarEntry (vals : ℕ → Bytes) (i : ℕ) : ℕ × Bytes := (scalarTag i, vals i)

theorem ScalarTaken.fits (h : ScalarTaken net (vals i) i) : EntryFits (scalarEntry vals i) :=
  ⟨scalarTag_lt i, (congrArg (· < 2 ^ 8) h.len).mpr (scalarLen_lt i)⟩

/-- One record: a new field. -/
theorem tlvStep_ok {e : ℕ × Bytes} {r : ℕ × VaultIntent} :
    tlvStep net (seen, out) e = .ok r ↔ ∃ i < 13, e.1 = scalarTag i ∧ ScalarTaken net e.2 i ∧
      seen.testBit i = false ∧ r = (seen ||| 1 <<< i, out.setScalar e.2 i) := by
  unfold tlvStep
  simp only [ok_bind, tlvField_iff]
  constructor
  · rintro ⟨_, ⟨i, hi, htag, hl, hok, rfl⟩, h⟩
    obtain ⟨hrule, hcap⟩ := (scalarOk_iff hi hl).1 hok
    dsimp only at h
    split_ifs at h with hseen
    cases h
    exact ⟨i, hi, htag, ⟨hl, hrule, hcap⟩, Bool.not_eq_true _ ▸ hseen, rfl⟩
  · rintro ⟨i, hi, htag, ht, hseen, rfl⟩
    refine ⟨_, ⟨i, hi, htag, ht.len, (scalarOk_iff hi ht.len).2 ⟨ht.rule, ht.cap⟩, rfl⟩, ?_⟩
    dsimp only
    rw [if_neg (by rw [hseen]; exact Bool.false_ne_true)]

/-- The fields at these indices stored, one after the other. -/
def VaultIntent.setScalars (out : VaultIntent) (vals : ℕ → Bytes) (σ : List ℕ) : VaultIntent :=
  σ.foldl (fun it i => it.setScalar (vals i) i) out

/-- The mask with these fields seen. -/
def seenAll (seen : ℕ) (σ : List ℕ) : ℕ := σ.foldl (fun m i => m ||| 1 <<< i) seen

theorem testBit_seen {j : ℕ} :
    (seen ||| 1 <<< i).testBit j = true ↔ seen.testBit j = true ∨ i = j := by
  rw [Nat.testBit_or, Nat.one_shiftLeft, Nat.testBit_two_pow, Bool.or_eq_true, decide_eq_true_eq]

theorem testBit_seenAll {j : ℕ} : ∀ {σ : List ℕ} {seen : ℕ},
    (seenAll seen σ).testBit j = true ↔ seen.testBit j = true ∨ j ∈ σ
  | [], seen => by simp [seenAll]
  | i :: σ, seen => by
    show (seenAll (seen ||| 1 <<< i) σ).testBit j = true ↔ _
    rw [testBit_seenAll, testBit_seen, List.mem_cons, or_assoc, @eq_comm _ i j]

/-- The records that are taken, and the result: each field is new. -/
theorem foldlM_tlvStep_ok : ∀ {es : List (ℕ × Bytes)} {seen : ℕ} {out : VaultIntent}
    {r : ℕ × VaultIntent}, es.foldlM (tlvStep net) (seen, out) = .ok r ↔
      ∃ σ vals, es = σ.map (scalarEntry vals) ∧ σ.Nodup ∧
        (∀ i ∈ σ, i < 13 ∧ ScalarTaken net (vals i) i ∧ seen.testBit i = false) ∧
        r = (seenAll seen σ, out.setScalars vals σ)
  | [], seen, out, r => by
    constructor
    · intro h
      cases h
      exact ⟨[], fun _ => [], rfl, List.nodup_nil, by simp, rfl⟩
    · rintro ⟨σ, vals, hes, -, -, rfl⟩
      obtain rfl := List.map_eq_nil_iff.1 hes.symm
      rfl
  | e :: es, seen, out, r => by
    rw [List.foldlM_cons, ok_bind]
    constructor
    · rintro ⟨r₁, h₁, h⟩
      obtain ⟨i, hi, htag, ht, hseen, rfl⟩ := tlvStep_ok.1 h₁
      obtain ⟨σ, vals, rfl, hnd, hall, rfl⟩ := foldlM_tlvStep_ok.1 h
      have hnew : ∀ j ∈ σ, j ≠ i ∧ seen.testBit j = false := by
        intro j hj
        have hbit := (hall j hj).2.2
        rw [← Bool.not_eq_true, testBit_seen, not_or, Bool.not_eq_true] at hbit
        exact ⟨fun he => hbit.2 he.symm, hbit.1⟩
      have hold : ∀ j ∈ σ, Function.update vals i e.2 j = vals j := fun j hj =>
        Function.update_of_ne (hnew j hj).1 ..
      refine ⟨i :: σ, Function.update vals i e.2, ?_, ?_, ?_, ?_⟩
      · rw [List.map_cons, scalarEntry, Function.update_self, ← htag]
        congr 1
        refine List.map_congr_left fun j hj => ?_
        rw [scalarEntry, scalarEntry, hold j hj]
      · exact List.nodup_cons.2 ⟨fun hmem => (hnew i hmem).1 rfl, hnd⟩
      · intro j hj
        rcases List.mem_cons.1 hj with rfl | hj
        · rw [Function.update_self]
          exact ⟨hi, ht, hseen⟩
        · rw [hold j hj]
          exact ⟨(hall j hj).1, (hall j hj).2.1, (hnew j hj).2⟩
      · congr 1
        rw [VaultIntent.setScalars, VaultIntent.setScalars, List.foldl_cons, Function.update_self]
        exact List.foldl_ext _ _ _ fun it j hj => by rw [hold j hj]
    · rintro ⟨_ | ⟨i, σ⟩, vals, hes, hnd, hall, rfl⟩
      · cases hes
      · obtain ⟨rfl, rfl⟩ := List.cons.inj hes
        obtain ⟨hnot, hnd⟩ := List.nodup_cons.1 hnd
        obtain ⟨⟨hi, ht, hseen⟩, hall⟩ := List.forall_mem_cons.1 hall
        refine ⟨_, tlvStep_ok.2 ⟨i, hi, rfl, ht, hseen, rfl⟩, foldlM_tlvStep_ok.2 ?_⟩
        refine ⟨σ, vals, rfl, hnd, fun j hj => ⟨(hall j hj).1, (hall j hj).2.1, ?_⟩, rfl⟩
        rw [← Bool.not_eq_true, testBit_seen, not_or, Bool.not_eq_true]
        exact ⟨(hall j hj).2.2, fun he => hnot (he ▸ hj)⟩

/-- Two fields are stored in any order. -/
theorem setScalar_comm {j : ℕ} {w : Bytes} (hi : i < 13) (hj : j < 13) (h : i ≠ j) :
    (out.setScalar v i).setScalar w j = (out.setScalar w j).setScalar v i := by
  interval_cases i <;> interval_cases j <;> first | rfl | exact absurd rfl h

theorem setScalars_perm (hp : σ.Perm τ) (hlt : ∀ i ∈ σ, i < 13) :
    out.setScalars vals σ = out.setScalars vals τ := by
  refine hp.foldl_eq' (fun i hi j hj it => ?_) out
  by_cases h : i = j
  · rw [h]
  · exact setScalar_comm (hlt i hi) (hlt j hj) h

theorem setScalars_range : out.setScalars vals (List.range 13) = out.withScalars vals := rfl

/-- The mask is full when every field is there. -/
theorem seenAll_full (hlt : ∀ i ∈ σ, i < 13) (hnd : σ.Nodup) :
    seenAll 0 σ = 2 ^ 13 - 1 ↔ σ.Perm (List.range 13) := by
  constructor
  · intro h
    refine (List.perm_ext_iff_of_nodup hnd List.nodup_range).2 fun j => ?_
    rw [List.mem_range]
    refine ⟨hlt j, fun hj => ?_⟩
    have hbit : (seenAll 0 σ).testBit j = true := by
      rw [h, Nat.testBit_two_pow_sub_one]
      exact decide_eq_true hj
    rcases testBit_seenAll.1 hbit with hz | hm
    · simp at hz
    · exact hm
  · intro h
    refine Nat.eq_of_testBit_eq fun j => ?_
    rw [Nat.testBit_two_pow_sub_one, Bool.eq_iff_iff, testBit_seenAll, decide_eq_true_eq, h.mem_iff,
      List.mem_range]
    simp

/-! ## The language -/

/-- The payload with a record of each field, in the order of `σ`. -/
def scalarPayload (vals : ℕ → Bytes) (σ : List ℕ) : Bytes := encodeEntries (σ.map (scalarEntry vals))

/-- Values of the 13 fields that the device takes together. -/
structure ScalarsTaken (net : Network) (vals : ℕ → Bytes) : Prop where
  field : ∀ i < 13, ScalarTaken net (vals i) i
  coin : pathLevel (vals 8) 1 = 0x80000000 + ofBE (vals 2)

/-- The coin level of the path, against the coin type. -/
theorem coin_iff (hp : (vals 8).length = 20) (hc : (vals 2).length = 4) (net : Network)
    (hn : ofBE (vals 2) = net.coinType.toNat) :
    (pathOf depositorPathLen (vals 8)).pick 1 = UInt32.ofNat (ofBE (vals 2)) ||| hardened ↔
      pathLevel (vals 8) 1 = 0x80000000 + ofBE (vals 2) := by
  have hor : (UInt32.ofNat (ofBE (vals 2)) ||| hardened).toNat = 0x80000000 + ofBE (vals 2) := by
    rw [UInt32.toNat_or, toNat_u32 hc, hn]
    cases net <;> rfl
  rw [← UInt32.toNat_inj, toNat_pathOf hp (by omega), hor]

/-- What the parser accepts, and what it then stores. -/
theorem vaultTlvParse_iff : vaultTlvParse net data out = .ok it ↔
    ∃ σ vals, σ.Perm (List.range 13) ∧ ScalarsTaken net vals ∧ data = scalarPayload vals σ ∧
      it = out.withScalars vals := by
  constructor
  · intro h
    simp only [vaultTlvParse, ok_bind] at h
    obtain ⟨⟨seen, it'⟩, hl, h⟩ := h
    split_ifs at h with hseen hcoin
    cases h
    obtain ⟨es, hf, rfl⟩ := tlvLoop_ok_entries hl
    rw [tlvLoop_entries hf le_rfl] at hl
    obtain ⟨σ, vals, rfl, hnd, hall, he⟩ := foldlM_tlvStep_ok.1 hl
    obtain ⟨rfl, rfl⟩ := Prod.mk.inj he
    have hlt : ∀ i ∈ σ, i < 13 := fun i hi => (hall i hi).1
    have hperm := (seenAll_full hlt hnd).1 (not_not.1 hseen)
    have htaken : ∀ i < 13, ScalarTaken net (vals i) i := fun i hi =>
      (hall i (hperm.mem_iff.2 (List.mem_range.2 hi))).2.1
    have hset : out.setScalars vals σ = out.withScalars vals :=
      (setScalars_perm hperm hlt).trans setScalars_range
    rw [hset] at hcoin ⊢
    refine ⟨σ, vals, hperm, ⟨htaken, ?_⟩, rfl, rfl⟩
    exact (coin_iff (htaken 8 (by omega)).len (htaken 2 (by omega)).len net
      (htaken 2 (by omega)).rule).1 (not_not.1 hcoin)
  · rintro ⟨σ, vals, hperm, hv, rfl, rfl⟩
    have hlt : ∀ i ∈ σ, i < 13 := fun i hi => List.mem_range.1 (hperm.mem_iff.1 hi)
    have hnd : σ.Nodup := hperm.nodup_iff.2 List.nodup_range
    have hf : ∀ e ∈ σ.map (scalarEntry vals), EntryFits e := by
      intro e he
      obtain ⟨i, hi, rfl⟩ := List.mem_map.1 he
      exact (hv.field i (hlt i hi)).fits
    have hfold : (σ.map (scalarEntry vals)).foldlM (tlvStep net) (0, out) =
        .ok (seenAll 0 σ, out.setScalars vals σ) :=
      foldlM_tlvStep_ok.2 ⟨σ, vals, rfl, hnd, fun i hi =>
        ⟨hlt i hi, hv.field i (hlt i hi), Nat.zero_testBit i⟩, rfl⟩
    have hset : out.setScalars vals σ = out.withScalars vals :=
      (setScalars_perm hperm hlt).trans setScalars_range
    have hcoin := (coin_iff (hv.field 8 (by omega)).len (hv.field 2 (by omega)).len net
      (hv.field 2 (by omega)).rule).2 hv.coin
    unfold vaultTlvParse scalarPayload
    rw [tlvLoop_entries hf le_rfl, hfold, (seenAll_full hlt hnd).2 hperm, hset]
    show (if 2 ^ 13 - 1 ≠ 2 ^ 13 - 1 then Except.error TlvErr.missingField
      else if (pathOf depositorPathLen (vals 8)).pick 1 ≠ UInt32.ofNat (ofBE (vals 2)) ||| hardened
        then .error .validation else .ok (out.withScalars vals)) = _
    rw [if_neg (not_not.2 rfl), if_neg (not_not.2 hcoin)]

/-- A payload with a record of each field, whatever the values. -/
theorem scalarPayload_iff (hσ : σ.Perm (List.range 13)) (hf : ∀ i < 13, (vals i).length < 2 ^ 8) :
    vaultTlvParse net (scalarPayload vals σ) out = .ok it ↔
      ScalarsTaken net vals ∧ it = out.withScalars vals := by
  have hlt : ∀ i ∈ σ, i < 13 := fun i hi => List.mem_range.1 (hσ.mem_iff.1 hi)
  rw [vaultTlvParse_iff]
  constructor
  · rintro ⟨τ, vals', hτ, hv, hdata, rfl⟩
    have hlt' : ∀ i ∈ τ, i < 13 := fun i hi => List.mem_range.1 (hτ.mem_iff.1 hi)
    have hes : σ.map (scalarEntry vals) = τ.map (scalarEntry vals') := by
      refine encodeEntries_inj (fun e he => ?_) (fun e he => ?_) hdata
      · obtain ⟨i, hi, rfl⟩ := List.mem_map.1 he
        exact ⟨scalarTag_lt i, hf i (hlt i hi)⟩
      · obtain ⟨i, hi, rfl⟩ := List.mem_map.1 he
        exact (hv.field i (hlt' i hi)).fits
    have hval : ∀ i < 13, vals i = vals' i := by
      intro i hi
      have hmem : scalarEntry vals i ∈ τ.map (scalarEntry vals') :=
        hes ▸ List.mem_map_of_mem (hσ.mem_iff.2 (List.mem_range.2 hi))
      obtain ⟨j, hj, he⟩ := List.mem_map.1 hmem
      obtain ⟨htag, hv⟩ := Prod.mk.inj he
      obtain rfl := scalarTag_inj (hlt' j hj) hi htag
      exact hv.symm
    have hwith : out.withScalars vals = out.withScalars vals' := by
      unfold VaultIntent.withScalars
      rw [hval 0 (by omega), hval 1 (by omega), hval 2 (by omega), hval 3 (by omega),
        hval 4 (by omega), hval 5 (by omega), hval 6 (by omega), hval 7 (by omega),
        hval 8 (by omega), hval 9 (by omega), hval 10 (by omega), hval 11 (by omega),
        hval 12 (by omega)]
    refine ⟨⟨fun i hi => ?_, ?_⟩, hwith.symm⟩
    · rw [hval i hi]
      exact hv.field i hi
    · rw [hval 8 (by omega), hval 2 (by omega)]
      exact hv.coin
  · rintro ⟨hv, rfl⟩
    exact ⟨σ, vals, hσ, hv, rfl, rfl⟩

/-! ## The fields of an intent -/

/-- The value of a field of an intent, as it is sent. -/
def scalarValue (it : VaultIntent) : ℕ → Bytes
  | 0 => [it.structureType]
  | 1 => [it.version]
  | 2 => (leBytes 4 it.coinType.toNat).reverse
  | 3 => (leBytes 8 it.baseFeeRate.toNat).reverse
  | 4 => (leBytes 4 it.peginCsvTimelock).reverse
  | 5 => (leBytes 4 it.payoutTimelock).reverse
  | 6 => it.prepeginTxid.toList
  | 7 => (leBytes 4 it.htlcRefundTimelock).reverse
  | 8 => it.depositorPath.toList.flatMap fun x => (leBytes 4 x.toNat).reverse
  | 9 => (leBytes 1 it.keeperCount).reverse
  | 10 => (leBytes 1 it.challengerCount).reverse
  | 11 => (leBytes 1 it.vaultCount).reverse
  | _ => (leBytes 8 it.prepeginMaxFee.toNat).reverse

/-- An intent with the 13 scalar fields of another. -/
def VaultIntent.copyScalars (out it : VaultIntent) : VaultIntent :=
  { out with
    structureType := it.structureType
    version := it.version
    coinType := it.coinType
    baseFeeRate := it.baseFeeRate
    peginCsvTimelock := it.peginCsvTimelock
    payoutTimelock := it.payoutTimelock
    prepeginTxid := it.prepeginTxid
    htlcRefundTimelock := it.htlcRefundTimelock
    depositorPath := it.depositorPath
    keeperCount := it.keeperCount
    challengerCount := it.challengerCount
    vaultCount := it.vaultCount
    prepeginMaxFee := it.prepeginMaxFee }

variable {src : VaultIntent}

theorem length_flatMap_path : ∀ xs : List UInt32,
    (xs.flatMap fun x => (leBytes 4 x.toNat).reverse).length = 4 * xs.length
  | [] => rfl
  | x :: xs => by
    rw [List.flatMap_cons, List.length_append, length_flatMap_path xs, List.length_reverse,
      length_leBytes, List.length_cons]
    omega

theorem pathLevel_flatMap : ∀ {xs : List UInt32} {i : ℕ}, i < xs.length →
    pathLevel (xs.flatMap fun x => (leBytes 4 x.toNat).reverse) i = (xs.getD i 0).toNat
  | [], _, h => absurd h (Nat.not_lt_zero _)
  | x :: xs, i, h => by
    have h4 : (leBytes 4 x.toNat).reverse.length = 4 := by simp
    rw [List.flatMap_cons, pathLevel]
    rcases i with _ | i
    · rw [Nat.mul_zero, List.drop_zero, List.take_left' h4, List.getD_cons_zero]
      exact ofBE_leBytes x.toNat_lt
    · have hdrop : ∀ ys : Bytes, ((leBytes 4 x.toNat).reverse ++ ys).drop (4 * (i + 1)) =
          ys.drop (4 * i) := by
        intro ys
        rw [show 4 * (i + 1) = 4 + 4 * i by omega, ← List.drop_drop, List.drop_left' h4]
      rw [hdrop, List.getD_cons_succ]
      exact pathLevel_flatMap (by rw [List.length_cons] at h; omega)

theorem pathOf_flatMap (p : List.Vector UInt32 depositorPathLen) :
    pathOf depositorPathLen (p.toList.flatMap fun x => (leBytes 4 x.toNat).reverse) = p := by
  have hlen : p.toList.length = 5 := p.toList_length
  have hv : (p.toList.flatMap fun x => (leBytes 4 x.toNat).reverse).length = 20 := by
    rw [length_flatMap_path, hlen]
  refine List.Vector.ext fun i => ?_
  have hi : (i : ℕ) < p.toList.length := hlen ▸ i.isLt
  rw [pathOf, List.Vector.get_ofFn, ← UInt32.toNat_inj]
  show (UInt32.ofNat (pathLevel _ i)).toNat = _
  have hl : (((p.toList.flatMap fun x => (leBytes 4 x.toNat).reverse).drop (4 * i)).take 4).length
      = 4 := by
    have := i.isLt
    rw [List.length_take, List.length_drop, hv]
    have h5 : (i : ℕ) < 5 := i.isLt
    omega
  rw [pathLevel, toNat_u32 hl, ← pathLevel, pathLevel_flatMap hi, List.getD_eq_getElem _ _ hi]
  rfl

theorem length_scalarValue (hi : i < 13) : (scalarValue src i).length = scalarLen i := by
  interval_cases i
  case «6» => exact src.prepeginTxid.toList_length
  case «8» =>
    show (src.depositorPath.toList.flatMap _).length = 20
    rw [length_flatMap_path, List.Vector.toList_length]
    rfl
  all_goals simp [scalarValue, scalarLen]

/-- Storing the sent fields of an admissible intent copies them. -/
theorem withScalars_value (hs : ScalarsOk net src) :
    out.withScalars (scalarValue src) = out.copyScalars src := by
  have hpegin : ¬(src.peginCsvTimelock < 72 ∨ src.peginCsvTimelock > 1008) := hs 4 (by omega)
  have hpayout : ¬(src.payoutTimelock ≤ 90 ∨ src.payoutTimelock ≥ 4032) := hs 5 (by omega)
  have hrefund : ¬(src.htlcRefundTimelock < 72 ∨ src.htlcRefundTimelock > 4320) := hs 7 (by omega)
  have hkeepers : ¬(src.keeperCount < 1 ∨ src.keeperCount > 32) := hs 9 (by omega)
  have hchallengers : ¬(src.challengerCount < 1 ∨ src.challengerCount > 32) := hs 10 (by omega)
  have hvaults : ¬(src.vaultCount < 1 ∨ src.vaultCount > 10) := hs 11 (by omega)
  have htxid : Buf.ofBytes 32 src.prepeginTxid.toList = src.prepeginTxid :=
    Subtype.ext (Buf.toList_ofBytes src.prepeginTxid.toList_length)
  unfold VaultIntent.withScalars VaultIntent.copyScalars
  simp only [scalarValue, List.headD_cons]
  rw [ofBE_leBytes (n := 4) src.coinType.toNat_lt, ofBE_leBytes (n := 8) src.baseFeeRate.toNat_lt,
    ofBE_leBytes (n := 4) (v := src.peginCsvTimelock) (by omega),
    ofBE_leBytes (n := 4) (v := src.payoutTimelock) (by omega),
    ofBE_leBytes (n := 4) (v := src.htlcRefundTimelock) (by omega),
    ofBE_leBytes (n := 1) (v := src.keeperCount) (by omega),
    ofBE_leBytes (n := 1) (v := src.challengerCount) (by omega),
    ofBE_leBytes (n := 1) (v := src.vaultCount) (by omega),
    ofBE_leBytes (n := 8) src.prepeginMaxFee.toNat_lt, htxid, pathOf_flatMap, UInt32.ofNat_toNat,
    UInt64.ofNat_toNat, UInt64.ofNat_toNat]

/-- The check of a field looks at this field only. -/
theorem scalarOk_withScalars (hi : i < 13) :
    ScalarOk net (out.setScalar (vals i) i) i ↔ ScalarOk net (out.withScalars vals) i := by
  interval_cases i <;> exact Iff.rfl

theorem scalarOk_copyScalars (hi : i < 13) :
    ScalarOk net (out.copyScalars src) i ↔ ScalarOk net src i := by
  interval_cases i <;> exact Iff.rfl

/-- The device takes the fields of an admissible intent. -/
theorem scalarsTaken_value (hs : ScalarsOk net src) : ScalarsTaken net (scalarValue src) := by
  have hfield : ∀ i < 13, ScalarTaken net (scalarValue src i) i := by
    intro i hi
    have hl : (scalarValue src i).length = scalarLen i := length_scalarValue hi
    have hok : ScalarOk net src i := by
      have h := hs i (by omega)
      interval_cases i <;> exact h
    rw [← @scalarOk_copyScalars _ _ src src hi, ← withScalars_value hs, ← scalarOk_withScalars hi,
      scalarOk_iff hi hl] at hok
    exact ⟨hl, hok.1, hok.2⟩
  have h2 := hfield 2 (by omega)
  refine ⟨hfield, (coin_iff (hfield 8 (by omega)).len h2.len net h2.rule).1 ?_⟩
  have hcoin : src.depositorPath.pick 1 = src.coinType ||| hardened := hs 13 (by omega)
  show (pathOf depositorPathLen
      (src.depositorPath.toList.flatMap fun x => (leBytes 4 x.toNat).reverse)).pick 1 =
    UInt32.ofNat (ofBE (leBytes 4 src.coinType.toNat).reverse) ||| hardened
  rw [pathOf_flatMap, ofBE_leBytes (n := 4) src.coinType.toNat_lt, UInt32.ofNat_toNat, hcoin]

/-- The fields of an admissible intent, sent in any order, are read back. -/
theorem vaultTlvParse_value (hs : ScalarsOk net src) (hσ : σ.Perm (List.range 13)) :
    vaultTlvParse net (scalarPayload (scalarValue src) σ) out = .ok (out.copyScalars src) :=
  vaultTlvParse_iff.2 ⟨σ, _, hσ, scalarsTaken_value hs, rfl, (withScalars_value hs).symm⟩

/-! ## The reads -/

/-- The loop of `vault_tlv_parse` at a position of the payload, every read checked: none
    when one of them lies outside. -/
def tlvLoopAt (net : Network) (data : Bytes) (pos seen : ℕ) (out : VaultIntent) :
    Option (Except TlvErr (ℕ × VaultIntent)) :=
  if pos < data.length then
    if pos + 3 > data.length then some (.error .overflow)
    else
      (readAt data pos 2).bind fun tag =>
      (readAt data (pos + 2) 1).bind fun fieldLen =>
      if pos + 3 + ofBE fieldLen > data.length then some (.error .overflow)
      else
        (readAt data (pos + 3) (ofBE fieldLen)).bind fun v =>
        match tlvField net (ofBE tag) v out with
        | .error e => some (.error e)
        | .ok (idx, out) =>
          if seen.testBit idx then some (.error .duplicateTag)
          else tlvLoopAt net data (pos + 3 + ofBE fieldLen) (seen ||| 1 <<< idx) out
  else some (.ok (seen, out))
  termination_by data.length - pos

/-- `vault_tlv_parse` over the payload in place. -/
def vaultTlvParseAt (net : Network) (data : Bytes) (out : VaultIntent) :
    Option (Except TlvErr VaultIntent) :=
  (tlvLoopAt net data 0 0 out).map fun r => do
    let (seen, out) ← r
    if seen ≠ 2 ^ 13 - 1 then .error .missingField
    else if out.depositorPath.pick 1 ≠ out.coinType ||| hardened then .error .validation
    else return out

theorem tlvEntry_short : ∀ {data : Bytes}, data.length < 3 → tlvEntry data = .error .overflow
  | [], _ | [_], _ | [_, _], _ => rfl
  | _ :: _ :: _ :: _, h => by
    simp only [List.length_cons] at h
    omega

/-- The front of a payload that is long enough, read in place. -/
theorem tlvEntry_drop {pos : ℕ} (h : pos + 3 ≤ data.length) : ∃ tag fieldLen,
    readAt data pos 2 = some tag ∧ readAt data (pos + 2) 1 = some fieldLen ∧
      tlvEntry (data.drop pos) = if pos + 3 + ofBE fieldLen > data.length then .error .overflow
        else .ok (ofBE tag, (data.drop (pos + 3)).take (ofBE fieldLen),
          data.drop (pos + 3 + ofBE fieldLen)) := by
  have h0 := List.drop_eq_getElem_cons (l := data) (i := pos) (by omega)
  have h1 := List.drop_eq_getElem_cons (l := data) (i := pos + 1) (by omega)
  have h2 := List.drop_eq_getElem_cons (l := data) (i := pos + 2) (by omega)
  have htag : readAt data pos 2 = some [data[pos], data[pos + 1]] := by
    rw [readAt_of_le (by omega), h0, h1]
    rfl
  have hfl : readAt data (pos + 2) 1 = some [data[pos + 2]] := by
    rw [readAt_of_le (by omega), h2]
    rfl
  refine ⟨_, _, htag, hfl, ?_⟩
  have hlen : (data.drop (pos + 2 + 1)).length = data.length - (pos + 3) := List.length_drop
  have hone : ofBE [data[pos + 2]] = data[pos + 2].toNat := by simp [ofBE]
  rw [h0, h1, h2, hone]
  unfold tlvEntry
  dsimp only
  rw [hlen, List.drop_drop]
  split_ifs with hc hc' hc'
  · rfl
  · omega
  · omega
  · rfl

/-- No read lies outside, and the turns are those of the loop over what is left. -/
theorem tlvLoopAt_eq (net : Network) (data : Bytes) : ∀ (fuel pos seen : ℕ) (out : VaultIntent),
    data.length - pos ≤ fuel →
      tlvLoopAt net data pos seen out = some (tlvLoop net fuel (data.drop pos) seen out) := by
  intro fuel
  induction fuel with
  | zero =>
    intro pos seen out hfuel
    rw [tlvLoopAt, if_neg (by omega), List.drop_eq_nil_of_le (by omega)]
    rfl
  | succ fuel ih =>
    intro pos seen out hfuel
    rw [tlvLoopAt]
    by_cases hpos : pos < data.length
    · have hcons := List.drop_eq_getElem_cons hpos
      rw [if_pos hpos, hcons, tlvLoop, ← hcons]
      by_cases h3 : pos + 3 > data.length
      · rw [if_pos h3, tlvEntry_short (by rw [List.length_drop]; omega)]
        rfl
      · obtain ⟨tag, fieldLen, ht, hl, he⟩ := tlvEntry_drop (show pos + 3 ≤ data.length by omega)
        rw [if_neg h3, ht, hl, he]
        simp only [Option.bind_some]
        split_ifs with hover
        · rfl
        · rw [readAt_of_le (by omega), Option.bind_some]
          show _ = some (tlvField net (ofBE tag) _ out >>= _)
          rcases tlvField net (ofBE tag) ((data.drop (pos + 3)).take (ofBE fieldLen)) out with
            e | ⟨idx, out'⟩
          · rfl
          · show (if _ then _ else _) = some (if _ then _ else _)
            split_ifs
            · rfl
            · exact ih _ _ _ (by omega)
    · rw [if_neg hpos, List.drop_eq_nil_of_le (by omega)]
      rfl

theorem vaultTlvParseAt_eq (net : Network) (data : Bytes) (out : VaultIntent) :
    vaultTlvParseAt net data out = some (vaultTlvParse net data out) := by
  rw [vaultTlvParseAt, tlvLoopAt_eq net data data.length 0 0 out (by omega), List.drop_zero]
  rfl

/-! ## The parser -/

/-- The language of the P1=0x00 payload on a network. -/
structure ScalarLanguage (net : Network) : Prop where
  accepts : ∀ data out it, vaultTlvParse net data out = .ok it ↔
    ∃ σ vals, σ.Perm (List.range 13) ∧ ScalarsTaken net vals ∧ data = scalarPayload vals σ ∧
      it = out.withScalars vals
  order : ∀ vals σ τ out it, σ.Perm (List.range 13) → τ.Perm (List.range 13) →
    (∀ i < 13, (vals i).length < 2 ^ 8) →
    (vaultTlvParse net (scalarPayload vals σ) out = .ok it ↔
      vaultTlvParse net (scalarPayload vals τ) out = .ok it)
  inverts : ∀ src σ out, ScalarsOk net src → σ.Perm (List.range 13) →
    vaultTlvParse net (scalarPayload (scalarValue src) σ) out = .ok (out.copyScalars src)
  inside : ∀ data out, vaultTlvParseAt net data out = some (vaultTlvParse net data out)

/-- The parser takes exactly this language. -/
theorem scalar_language (net : Network) : ScalarLanguage net := by
  constructor
  · intro data out it
    exact vaultTlvParse_iff
  · intro vals σ τ out it hσ hτ hf
    rw [scalarPayload_iff hσ hf, scalarPayload_iff hτ hf]
  · intro src σ out hs hσ
    exact vaultTlvParse_value hs hσ
  · exact vaultTlvParseAt_eq net

/-- A fee of 1 BTC and a satoshi follows the rules, and is not taken. -/
theorem scalar_language_cap : ¬∀ data out,
    (∃ it, vaultTlvParse .signet data out = .ok it) ↔ ∃ σ vals, σ.Perm (List.range 13) ∧
      (∀ i < 13, (vals i).length = scalarLen i ∧ ScalarDocumented .signet (vals i) i) ∧
      pathLevel (vals 8) 1 = 0x80000000 + ofBE (vals 2) ∧ data = scalarPayload vals σ := by
  intro h
  let src : VaultIntent := { Signet.intent with prepeginMaxFee := 100000001 }
  have hdoc : ∀ i < 13, (scalarValue src i).length = scalarLen i ∧
      ScalarDocumented .signet (scalarValue src i) i := by
    intro i hi
    refine ⟨length_scalarValue hi, ?_⟩
    interval_cases i <;> decide +kernel
  have hlen : ∀ i < 13, (scalarValue src i).length < 2 ^ 8 := fun i hi =>
    (hdoc i hi).1 ▸ scalarLen_lt i
  obtain ⟨it, hit⟩ := (h (scalarPayload (scalarValue src) (List.range 13)) .zero).2
    ⟨_, _, List.Perm.refl _, hdoc, by decide +kernel, rfl⟩
  have hcap := (((scalarPayload_iff (List.Perm.refl _) hlen).1 hit).1.field 12 (by omega)).cap
  revert hcap
  decide +kernel

end BabylonVault
