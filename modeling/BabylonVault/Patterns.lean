/-
  The shapes of leaves.

  * `LeafPattern.Matches`: the six shapes that the device tells apart; no script has
    two of them (`LeafPattern.unique`).
  * `vaultUtxoLeaf_eq` and the like: the leaves that the device builds, as scripts.
  * `Reach.leaf_patterns`: each of them has its own shape and no other.
-/
import BabylonVault.Commitment
import BabylonVault.Validate.Dispatch

namespace BabylonVault
open Bytes Prog

variable {E : Env} {s : Session} {d : Device} {ls : List Exchange} {it : VaultIntent}
  {key : Bytes32} {op : UInt8} {script rest leaf : Bytes} {gi ci n : ℕ}

/-- The shapes of leaves, each the business of one policy. -/
inductive LeafPattern
  | claim | refund | payout | assert | wc | nopayout
  deriving DecidableEq

/-- A script has a shape, as the source tests it. -/
def LeafPattern.Matches (script : Bytes) : LeafPattern → Prop
  | claim => (parseClaimLeafScript script).isSome = true
  | refund => (parseRefundLeafScript script).isSome = true
  | payout => (parsePayoutLeafScript script).isSome = true
  | assert => leafHasAssertShape script.length (Buf.ofBytes 68 script) (script.getLastD 0) = true
  | wc => wcLeafShape (tlsOf [] script) = true
  | nopayout => ∃ it, nopayoutLeafShape it (tlsOf [] script) = true

/-- What tells the shapes apart: the length, the opcodes behind the first key and the second,
    and the last opcode. -/
def LeafPattern.Shape (script : Bytes) : LeafPattern → Prop
  | claim => script.length = 34
  | refund => 36 ≤ script.length ∧ script.length ≤ 41
  | payout => script.getD 34 0 = opPushbytes32 ∧ script.getLastD 0 = opCsv ∧
    68 < script.length ∧ script.getD 67 0 = opChecksig
  | assert => script.getD 34 0 = opPushbytes32 ∧ script.getLastD 0 = opTrue ∧
    68 < script.length ∧ script.getD 67 0 = opChecksig
  | wc => script.getD 34 0 = opSize ∧ script.length = 73
  | nopayout => script.length = 68 ∧ script.getD 67 0 = opChecksig

/-! ## The six shapes -/

theorem parseClaimLeafScript_iff : parseClaimLeafScript script = some key ↔
    script.length = 34 ∧ script.getD 0 0 = opPushbytes32 ∧ script.getD 33 0 = opChecksig ∧
      Buf.slice 32 script 1 = key := by
  unfold parseClaimLeafScript depositorClaimLeafLen
  split_ifs with h1 h2 h3
  · exact ⟨fun h => (nomatch h), fun h => absurd h.1 h1⟩
  · exact ⟨fun h => (nomatch h), fun h => absurd h.2.1 h2⟩
  · exact ⟨fun h => (nomatch h), fun h => absurd h.2.2.1 h3⟩
  · rw [Option.some.injEq]
    exact ⟨fun h => ⟨not_not.1 h1, not_not.1 h2, not_not.1 h3, h⟩, fun h => h.2.2.2⟩

/-- A minimal push takes at most six bytes. -/
theorem parseCsvPush_length {csv : ℕ} (h : parseCsvPush script = some (csv, rest)) :
    script.length ≤ rest.length + 6 := by
  rcases script with _ | ⟨pushOp, script⟩
  · exact Nat.zero_le _
  rw [List.length_cons]
  unfold parseCsvPush at h
  dsimp only at h
  -- The operand has at most four bytes, behind a length byte or two.
  split_ifs at h
  · cases h
    rw [List.length_drop]
    omega
  · rcases script with _ | ⟨len, script⟩
    · cases h
    · dsimp only at h
      split_ifs at h
      · cases h
        simp
      · cases h
        rw [List.length_cons, List.length_drop]
        omega
  · cases h
    omega

theorem parseRefundLeafScript_iff {csv : ℕ} : parseRefundLeafScript script = some (key, csv) ↔
    36 ≤ script.length ∧ script.getD 0 0 = opPushbytes32 ∧ script.getD 33 0 = opChecksigverify ∧
      parseCsvPush (script.drop 34) = some (csv, [opCsv]) ∧ (1 ≤ csv ∧ csv ≤ 0xFFFF) ∧
      Buf.slice 32 script 1 = key := by
  have hmask : bip68SequenceMask.toNat = 0xFFFF := rfl
  unfold parseRefundLeafScript
  split_ifs with h1 h2 h3
  · exact ⟨fun h => (nomatch h), fun h => absurd h.1 (by omega)⟩
  · exact ⟨fun h => (nomatch h), fun h => absurd h.2.1 h2⟩
  · exact ⟨fun h => (nomatch h), fun h => absurd h.2.2.1 h3⟩
  · rcases parseCsvPush (script.drop 34) with _ | ⟨n, rest⟩
    · exact ⟨fun h => (nomatch h), fun h => (nomatch h.2.2.2.1)⟩
    · dsimp only
      rw [hmask]
      split_ifs with h4 h5 h6
      · refine ⟨fun h => (nomatch h), ?_⟩
        rintro ⟨-, -, -, he, hb, -⟩
        cases he
        omega
      · refine ⟨fun h => (nomatch h), ?_⟩
        rintro ⟨-, -, -, he, hb, -⟩
        cases he
        omega
      · refine ⟨fun h => (nomatch h), ?_⟩
        rintro ⟨-, -, -, he, -⟩
        cases he
        exact absurd rfl h6
      · rw [not_not] at h6
        subst h6
        constructor
        · intro h
          cases h
          exact ⟨by omega, not_not.1 h2, not_not.1 h3, rfl, by omega, rfl⟩
        · rintro ⟨-, -, -, he, -, rfl⟩
          cases he
          rfl

/-- The last byte. -/
theorem getLastD_eq_getD : script.getLastD 0 = script.getD (script.length - 1) 0 := by
  rw [List.getLastD_eq_getLast?, List.getLast?_eq_getElem?, List.getD_eq_getElem?_getD]

/-- The timelock at the end of a payout leaf. -/
def payoutTail (script : Bytes) : Option ℕ :=
  let n := script.length
  let two := (script.getD (n - 3) 0).toNat + 256 * (script.getD (n - 2) 0).toNat
  let one := (script.getD (n - 2) 0).toNat
  if script.getD (n - 4) 0 = opPushbytes2 ∧ script.getD (n - 2) 0 &&& 0x80 = 0 ∧
      payoutTimelockMin ≤ two ∧ two ≤ payoutTimelockMax then some two
  else if script.getD (n - 3) 0 = opPushbytes1 ∧ payoutTimelockMin ≤ one ∧
      one ≤ payoutTimelockMax ∧ one ≤ 0x7F then some one
  else none

theorem parsePayoutLeafScript_iff {csv : ℕ} : parsePayoutLeafScript script = some (key, csv) ↔
    68 < script.length ∧ script.getD 0 0 = opPushbytes32 ∧ script.getD 33 0 = opChecksigverify ∧
      script.getLastD 0 = opCsv ∧ script.getD 34 0 = opPushbytes32 ∧
      script.getD 67 0 = opChecksig ∧ payoutTail script = some csv ∧
      Buf.slice 32 script 1 = key := by
  rw [getLastD_eq_getD]
  unfold parsePayoutLeafScript nopayoutLeafLen leafGroup0PushOff leafGroup0OpOff
  dsimp only
  split_ifs with h1 h2 h3 h4 h5 h6 h7 h8
  · exact ⟨fun h => (nomatch h), fun h => absurd h.1 (by omega)⟩
  · exact ⟨fun h => (nomatch h), fun h => absurd h.2.1 h2⟩
  · exact ⟨fun h => (nomatch h), fun h => absurd h.2.2.1 h3⟩
  · exact ⟨fun h => (nomatch h), fun h => absurd h.2.2.2.1 h4⟩
  · exact ⟨fun h => (nomatch h), fun h => absurd h.2.2.2.2.1 h5⟩
  · exact ⟨fun h => (nomatch h), fun h => absurd h.2.2.2.2.2.1 h6⟩
  all_goals
    have hhead : 68 < script.length ∧ script.getD 0 0 = opPushbytes32 ∧
        script.getD 33 0 = opChecksigverify ∧ script.getD (script.length - 1) 0 = opCsv ∧
        script.getD 34 0 = opPushbytes32 ∧ script.getD 67 0 = opChecksig :=
      ⟨by omega, not_not.1 h2, not_not.1 h3, not_not.1 h4, not_not.1 h5, not_not.1 h6⟩
    obtain ⟨a1, a2, a3, a4, a5, a6⟩ := hhead
    simp only [payoutTail, a1, a2, a3, a4, a5, a6, true_and]
  · rw [if_pos h7, Option.some.injEq, Option.some.injEq, Prod.mk.injEq, and_comm]
  · rw [if_neg h7, if_pos h8, Option.some.injEq, Option.some.injEq, Prod.mk.injEq, and_comm]
  · rw [if_neg h7, if_neg h8]
    simp

theorem tlsOf_leafScript (h : script.length ≤ 2560) : (tlsOf [] script).leafScript = script :=
  if_pos h

theorem leafHasAssertShape_iff {lastByte : UInt8} :
    leafHasAssertShape n (Buf.ofBytes 68 script) lastByte = true ↔
      68 < n ∧ script.getD 0 0 = opPushbytes32 ∧ script.getD 33 0 = opChecksigverify ∧
        script.getD 34 0 = opPushbytes32 ∧ script.getD 67 0 = opChecksig ∧ lastByte = opTrue := by
  unfold leafHasAssertShape nopayoutLeafLen leafGroup0PushOff leafGroup0OpOff
  rw [Buf.pick_ofBytes (by decide), Buf.pick_ofBytes (by decide), Buf.pick_ofBytes (by decide),
    Buf.pick_ofBytes (by decide)]
  simp only [Bool.and_eq_true, decide_eq_true_eq, and_assoc]

/-- A shape shows. -/
theorem LeafPattern.Matches.shape {p : LeafPattern} (h : p.Matches script) :
    script.getD 0 0 = opPushbytes32 ∧ p.Shape script := by
  cases p with
  | claim =>
    obtain ⟨key, hkey⟩ := Option.isSome_iff_exists.1 h
    obtain ⟨hlen, h0, -⟩ := parseClaimLeafScript_iff.1 hkey
    exact ⟨h0, hlen⟩
  | refund =>
    obtain ⟨⟨key, csv⟩, hr⟩ := Option.isSome_iff_exists.1 h
    obtain ⟨h36, h0, -, hpush, -⟩ := parseRefundLeafScript_iff.1 hr
    have hle := parseCsvPush_length hpush
    rw [List.length_drop, List.length_singleton] at hle
    exact ⟨h0, h36, by omega⟩
  | payout =>
    obtain ⟨⟨key, csv⟩, hp⟩ := Option.isSome_iff_exists.1 h
    obtain ⟨hlen, h0, -, hlast, h34, h67, -⟩ := parsePayoutLeafScript_iff.1 hp
    exact ⟨h0, h34, hlast, hlen, h67⟩
  | assert =>
    obtain ⟨hlen, h0, -, h34, h67, hlast⟩ := leafHasAssertShape_iff.1 h
    exact ⟨h0, h34, hlast, hlen, h67⟩
  | wc =>
    simp only [LeafPattern.Matches, wcLeafShape, Bool.and_eq_true, decide_eq_true_eq, and_assoc]
      at h
    obtain ⟨hlen, h0, -, h34, -⟩ := h
    have hlen : script.length = 73 := hlen
    rw [tlsOf_leafScript (by omega)] at h0 h34
    exact ⟨h0, h34, hlen⟩
  | nopayout =>
    obtain ⟨it, h⟩ := h
    simp only [nopayoutLeafShape, Bool.and_eq_true, decide_eq_true_eq, and_assoc] at h
    obtain ⟨hlen, h0, -, -, h67, -⟩ := h
    have hlen : script.length = 68 := hlen
    rw [tlsOf_leafScript (by omega)] at h0 h67
    exact ⟨h0, hlen, h67⟩

/-- No script has two shapes. -/
theorem LeafPattern.unique {p q : LeafPattern} (hp : p.Matches script) (hq : q.Matches script) :
    p = q := by
  have hp := hp.shape.2
  have hq := hq.shape.2
  have h1 : opPushbytes32 ≠ opSize := by decide
  have h2 : opCsv ≠ opTrue := by decide
  cases p <;> cases q <;> simp only [LeafPattern.Shape] at hp hq <;>
    first
    | rfl
    | (exfalso; omega)
    | exact absurd (hp.1.symm.trans hq.1) h1
    | exact absurd (hq.1.symm.trans hp.1) h1
    | exact absurd (hp.2.1.symm.trans hq.2.1) h2
    | exact absurd (hq.2.1.symm.trans hp.2.1) h2

/-! ## The leaves that the device builds -/

/-- A script behind its first key. -/
theorem head_keyEntry (key : Bytes32) (op : UInt8) (rest : Bytes) :
    (keyEntry key op ++ rest).getD 0 0 = opPushbytes32 ∧
    (keyEntry key op ++ rest).getD 33 0 = op ∧ Buf.slice 32 (keyEntry key op ++ rest) 1 = key := by
  have hl : key.toList.length = 32 := key.toList_length
  refine ⟨rfl, ?_, ?_⟩
  · rw [List.getD_append _ _ _ _ (by simp), getD_keyEntry (by omega)]
    rfl
  · refine Buf.toList_inj.1 ?_
    show ((key.toList ++ [op] ++ rest).takeD 32 0) = key.toList
    rw [List.append_assoc, List.takeD_eq_take _ (by simp [hl]), List.take_left' hl]

theorem getD_behind_keyEntry (key : Bytes32) (op : UInt8) (rest : Bytes) (n : ℕ) :
    (keyEntry key op ++ rest).getD (34 + n) 0 = rest.getD n 0 := by
  rw [List.getD_append_right _ _ _ _ (by simp), length_keyEntry, Nat.add_sub_cancel_left]

theorem emit_some {bufMax need : ℕ} {piece buf b : Bytes} :
    emit bufMax need piece buf = some b ↔ buf.length + need ≤ bufMax ∧ b = buf ++ piece := by
  unfold emit
  split_ifs with h
  · exact ⟨fun h => (nomatch h), fun hb => absurd hb.1 (by omega)⟩
  · rw [Option.some.injEq]
    exact ⟨fun hb => ⟨by omega, hb.symm⟩, fun hb => hb.2.symm⟩

theorem encodeMultisigGroup_some {keys : List Bytes32} {isFinal : Bool} {bufMax : ℕ} {buf b : Bytes} :
    encodeMultisigGroup keys isFinal bufMax buf = some b ↔ keys ≠ [] ∧
      buf.length + (keys.length * 34 + 6) ≤ bufMax ∧
      b = buf ++ multisigGroup keys (if isFinal then opNumequal else opNumequalverify) := by
  unfold encodeMultisigGroup
  by_cases h : keys.length = 0
  · rw [if_pos h]
    exact ⟨fun h => (nomatch h), fun hb => absurd (List.length_eq_zero_iff.1 h) hb.1⟩
  · rw [if_neg h, emit_some]
    exact ⟨fun hb => ⟨fun hk => h (List.length_eq_zero_iff.2 hk), hb⟩, fun hb => hb.2⟩

theorem claimLeaf_eq (h : vaultBuildDepositorClaimLeaf it n = some leaf) :
    leaf = keyEntry it.depositorPk opChecksig := (emit_some.1 h).2

theorem htlcLeaf1_eq (h : vaultBuildHtlcLeaf1 it n = some leaf) :
    leaf = keyEntry it.depositorPk opChecksigverify ++
      (pushNumber it.htlcRefundTimelock ++ [opCsv]) := by
  rw [(emit_some.1 h).2, List.nil_append, List.append_assoc]

theorem nopayoutLeaf_eq (h : vaultBuildNopayoutLeaf it ci n = some leaf) :
    leaf = keyEntry it.depositorPk opChecksigverify ++ keyEntry (challengerPk it ci) opChecksig := by
  unfold vaultBuildNopayoutLeaf at h
  split_ifs at h
  exact (emit_some.1 h).2

theorem htlcLeaf0_eq {h : Bytes32} (hl : vaultBuildHtlcLeaf0 it gi h n = some leaf) :
    ∃ rest, leaf = opSize :: rest := by
  unfold vaultBuildHtlcLeaf0 at hl
  split_ifs at hl
  simp only [Option.bind_eq_bind, Option.bind_eq_some_iff, emit_some,
    encodeMultisigGroup_some] at hl
  obtain ⟨_, ⟨-, rfl⟩, _, ⟨-, rfl⟩, _, ⟨-, rfl⟩, _, ⟨-, rfl⟩, _, ⟨-, -, rfl⟩, -, -, rfl⟩ := hl
  exact ⟨_, rfl⟩

/-- A script of two keys or a key and a signer group, which ends in a timelock. -/
theorem vaultUtxoLeaf_eq (h : vaultBuildVaultUtxoLeaf it gi n = some leaf) :
    ∃ mid, leaf = keyEntry it.depositorPk opChecksigverify ++
      (keyEntry (it.group gi).vaultProviderPk opChecksigverify ++ mid) := by
  unfold vaultBuildVaultUtxoLeaf at h
  split_ifs at h
  simp only [Option.bind_eq_bind, Option.bind_eq_some_iff, emit_some,
    encodeMultisigGroup_some] at h
  obtain ⟨_, ⟨-, rfl⟩, _, ⟨-, rfl⟩, _, ⟨-, -, rfl⟩, _, ⟨-, -, rfl⟩, -, rfl⟩ := h
  exact ⟨_, by simp only [List.nil_append, List.append_assoc]; rfl⟩

theorem payoutLeaf_eq (h : vaultBuildAssert0PayoutLeaf it gi ci n = some leaf) :
    buildAppChallengers it gi ci ≠ [] ∧ it.challengers ≠ [] ∧
      leaf = keyEntry (claimerPk it gi ci) opChecksigverify ++
        (multisigGroup (buildAppChallengers it gi ci) opNumequalverify ++
          (multisigGroup it.challengers opNumequalverify ++
            (pushNumber it.payoutTimelock ++ [opCsv]))) := by
  unfold vaultBuildAssert0PayoutLeaf at h
  split_ifs at h
  simp only [Option.bind_eq_bind, Option.bind_eq_some_iff, emit_some,
    encodeMultisigGroup_some] at h
  obtain ⟨_, ⟨-, rfl⟩, _, ⟨h1, -, rfl⟩, _, ⟨h2, -, rfl⟩, -, rfl⟩ := h
  exact ⟨h1, h2, by simp only [List.nil_append, List.append_assoc]; rfl⟩

/-! ## Timelocks -/

/-- The push of a number that takes two bytes at most. -/
theorem pushNumber_eq {t : ℕ} (h16 : 16 < t) (ht : t < 2 ^ 15) :
    pushNumber t = if t < 128 then [1, UInt8.ofNat t]
      else [2, UInt8.ofNat t, UInt8.ofNat (t / 256)] := by
  unfold pushNumber
  rw [if_neg (by omega), if_neg (by omega)]
  have h0 : ¬t = 0 := by omega
  by_cases h256 : t < 256
  · have hd : t / 256 = 0 := Nat.div_eq_of_lt h256
    have hbytes : numBytes 4 t = [UInt8.ofNat t] := by
      rw [numBytes, if_neg h0, hd]
      rfl
    have hs := sign_iff (UInt8.ofNat t)
    rw [toNat_ofNat_byte h256] at hs
    rw [hbytes, hd]
    show (let tmp : Bytes := if UInt8.ofNat t &&& 0x80 ≠ 0 then [UInt8.ofNat t, 0]
      else [UInt8.ofNat t]; UInt8.ofNat tmp.length :: tmp) = _
    by_cases h128 : t < 128
    · rw [if_neg (not_not.2 (hs.2 h128)), if_pos h128]
      rfl
    · rw [if_pos (hs.not.2 h128), if_neg h128]
      rfl
  · have hd : ¬t / 256 = 0 := by omega
    have hdd : t / 256 / 256 = 0 := by omega
    have hbytes : numBytes 4 t = [UInt8.ofNat t, UInt8.ofNat (t / 256)] := by
      rw [numBytes, if_neg h0, numBytes, if_neg hd, hdd]
      rfl
    have hs := sign_iff (UInt8.ofNat (t / 256))
    rw [toNat_ofNat_byte (by omega)] at hs
    rw [hbytes, if_neg (by omega)]
    show (let tmp : Bytes := if UInt8.ofNat (t / 256) &&& 0x80 ≠ 0
      then [UInt8.ofNat t, UInt8.ofNat (t / 256), 0] else [UInt8.ofNat t, UInt8.ofNat (t / 256)]
      UInt8.ofNat tmp.length :: tmp) = _
    rw [if_neg (not_not.2 (hs.2 (by omega)))]
    rfl

/-- The push is read back. -/
theorem parseCsvPush_pushNumber {t : ℕ} (h16 : 16 < t) (ht : t < 2 ^ 15) :
    parseCsvPush (pushNumber t ++ rest) = some (t, rest) := by
  rw [pushNumber_eq h16 ht]
  have hlo : (UInt8.ofNat t).toNat = t % 256 := UInt8.toNat_ofNat'
  split_ifs with h128
  · have hs : UInt8.ofNat t &&& 0x80 = 0 :=
      (sign_iff _).2 (by rw [toNat_ofNat_byte (by omega)]; exact h128)
    show (if (1 : ℕ) > 4 ∨ 1 > (UInt8.ofNat t :: rest).length then none
      else if UInt8.ofNat t &&& 0x80 ≠ 0 then none
      else some (ofLE [UInt8.ofNat t], rest)) = some (t, rest)
    have hval : ofLE [UInt8.ofNat t] = t := by
      show (UInt8.ofNat t).toNat + 256 * 0 = t
      omega
    rw [if_neg (by simp), if_neg (not_not.2 hs), hval]
  · have hhi : (UInt8.ofNat (t / 256)).toNat = t / 256 := toNat_ofNat_byte (by omega)
    have hs : UInt8.ofNat (t / 256) &&& 0x80 = 0 := (sign_iff _).2 (by omega)
    show (if (2 : ℕ) > 4 ∨ 2 > (UInt8.ofNat t :: UInt8.ofNat (t / 256) :: rest).length then none
      else if UInt8.ofNat (t / 256) &&& 0x80 ≠ 0 then none
      else some (ofLE [UInt8.ofNat t, UInt8.ofNat (t / 256)], rest)) = some (t, rest)
    have hval : ofLE [UInt8.ofNat t, UInt8.ofNat (t / 256)] = t := by
      show (UInt8.ofNat t).toNat + 256 * ((UInt8.ofNat (t / 256)).toNat + 256 * 0) = t
      omega
    rw [if_neg (by simp), if_neg (not_not.2 hs), hval]

/-- The timelock of a payout leaf is read off its end. -/
theorem payoutTail_pushNumber (mid : Bytes) {t : ℕ} (hmin : 90 ≤ t) (hmax : t ≤ 4032)
    (hmid : mid.getLastD 0 = opNumequalverify) (hne : mid ≠ []) :
    payoutTail (mid ++ (pushNumber t ++ [opCsv])) = some t := by
  have hm : 0 < mid.length := List.length_pos_iff.2 hne
  rw [getLastD_eq_getD] at hmid
  rw [pushNumber_eq (by omega) (by omega)]
  by_cases h128 : t < 128
  · have ht := toNat_ofNat_byte (show t < 256 by omega)
    rw [if_pos h128]
    have hn : (mid ++ ([1, UInt8.ofNat t] ++ [opCsv])).length = mid.length + 3 := by simp
    have h4 : (mid ++ ([1, UInt8.ofNat t] ++ [opCsv])).getD (mid.length + 3 - 4) 0 =
        opNumequalverify := by
      rw [List.getD_append _ _ _ _ (by omega), show mid.length + 3 - 4 = mid.length - 1 by omega,
        hmid]
    have h3 : (mid ++ ([1, UInt8.ofNat t] ++ [opCsv])).getD (mid.length + 3 - 3) 0 = 1 := by
      rw [List.getD_append_right _ _ _ _ (by omega), Nat.add_sub_cancel, Nat.sub_self]
      rfl
    have h2 : (mid ++ ([1, UInt8.ofNat t] ++ [opCsv])).getD (mid.length + 3 - 2) 0 =
        UInt8.ofNat t := by
      rw [List.getD_append_right _ _ _ _ (by omega),
        show mid.length + 3 - 2 - mid.length = 1 by omega]
      rfl
    unfold payoutTail payoutTimelockMin payoutTimelockMax
    simp only [hn, h4, h3, h2, ht]
    rw [if_neg fun h => absurd h.1 (by decide), if_pos ⟨rfl, by omega, by omega, by omega⟩]
  · have hhi : (UInt8.ofNat (t / 256)).toNat = t / 256 := toNat_ofNat_byte (by omega)
    have hlo : (UInt8.ofNat t).toNat = t % 256 := UInt8.toNat_ofNat'
    have hs : UInt8.ofNat (t / 256) &&& 0x80 = 0 := (sign_iff _).2 (by omega)
    rw [if_neg h128]
    set tail : Bytes := [2, UInt8.ofNat t, UInt8.ofNat (t / 256)] ++ [opCsv] with htail
    have hn : (mid ++ tail).length = mid.length + 4 := by simp [htail]
    have hget {i : ℕ} (hi : 4 ≥ i) : (mid ++ tail).getD (mid.length + 4 - i) 0 = tail.getD (4 - i) 0 := by
      rw [List.getD_append_right _ _ _ _ (by omega),
        show mid.length + 4 - i - mid.length = 4 - i by omega]
    unfold payoutTail payoutTimelockMin payoutTimelockMax
    simp only [hn, hget (show 4 ≥ 4 by omega), hget (show 4 ≥ 3 by omega),
      hget (show 4 ≥ 2 by omega)]
    show (if (2 : UInt8) = opPushbytes2 ∧ UInt8.ofNat (t / 256) &&& 0x80 = 0 ∧
        90 ≤ (UInt8.ofNat t).toNat + 256 * (UInt8.ofNat (t / 256)).toNat ∧
        (UInt8.ofNat t).toNat + 256 * (UInt8.ofNat (t / 256)).toNat ≤ 4032
      then some ((UInt8.ofNat t).toNat + 256 * (UInt8.ofNat (t / 256)).toNat) else _) = some t
    rw [hlo, hhi, if_pos ⟨rfl, hs, by omega, by omega⟩]
    congr 1
    omega

/-! ## Shapes of the built leaves -/

/-- A leaf has this shape only. -/
def OnlyMatches (leaf : Bytes) (p : LeafPattern) : Prop := ∀ q : LeafPattern, q.Matches leaf ↔ q = p

theorem onlyMatches {p : LeafPattern} (h : p.Matches leaf) : OnlyMatches leaf p :=
  fun _ => ⟨fun hq => LeafPattern.unique hq h, fun he => he ▸ h⟩

/-- A builder writes a leaf within the device's buffer, and `P` holds of every leaf that it
    writes. -/
def Builds (build : ℕ → Option Bytes) (P : Bytes → Prop) : Prop :=
  (build scriptMaxLen).isSome = true ∧ ∀ n leaf, build n = some leaf → P leaf

/-- The leaves of an intent, by their shapes. -/
structure LeafShapes (it : VaultIntent) : Prop where
  claim : Builds (vaultBuildDepositorClaimLeaf it) fun leaf =>
    OnlyMatches leaf .claim ∧ parseClaimLeafScript leaf = some it.depositorPk
  refund : Builds (vaultBuildHtlcLeaf1 it) fun leaf =>
    OnlyMatches leaf .refund ∧
      parseRefundLeafScript leaf = some (it.depositorPk, it.htlcRefundTimelock)
  payout : ∀ gi < it.vaultCount, ∀ ci ≤ it.keeperCount + 1,
    Builds (vaultBuildAssert0PayoutLeaf it gi ci) fun leaf => OnlyMatches leaf .payout ∧
      parsePayoutLeafScript leaf = some (claimerPk it gi ci, it.payoutTimelock)
  nopayout : ∀ ci < it.keeperCount + it.challengerCount,
    Builds (vaultBuildNopayoutLeaf it ci) fun leaf =>
      OnlyMatches leaf .nopayout ∧ nopayoutLeafShape it (tlsOf [] leaf) = true
  vaultUtxo : ∀ gi < it.vaultCount,
    Builds (vaultBuildVaultUtxoLeaf it gi) fun leaf => ∀ p : LeafPattern, ¬p.Matches leaf
  htlcLeaf0 : ∀ gi < it.vaultCount, ∀ h,
    Builds (vaultBuildHtlcLeaf0 it gi h) fun leaf => ∀ p : LeafPattern, ¬p.Matches leaf

/-! Every builder has room in the device's buffer. -/

theorem length_pushNumber_count : ∀ {k : ℕ}, k ≤ 32 → (pushNumber k).length ≤ 2 := by
  intro k hk
  interval_cases k <;> decide

theorem length_multisigGroup (op : UInt8) {keys : List Bytes32} (hne : keys ≠ []) (hk : keys.length ≤ 32) :
    (multisigGroup keys op).length ≤ 34 * keys.length + 3 := by
  have := length_pushNumber_count hk
  rw [multisigGroup_eq hne]
  simp only [List.length_append, length_keyEntries, List.length_singleton]
  omega

theorem length_insertVp : ∀ {keys : List Bytes32}, (insertVp key keys).length = keys.length + 1
  | [] => rfl
  | k :: keys => by
    unfold insertVp
    split_ifs
    · rfl
    · rw [List.length_cons, length_insertVp, List.length_cons]

theorem length_buildAppChallengers (gi : ℕ) (hci : ci ≤ it.keeperCount + 1)
    (hk : it.keepers.length = it.keeperCount) :
    (buildAppChallengers it gi ci).length = it.keeperCount := by
  unfold buildAppChallengers
  split_ifs with h
  · exact hk
  · rw [length_insertVp, List.length_eraseIdx, if_pos (by omega)]
    omega

section Builds
variable (hk : 1 ≤ it.keepers.length ∧ it.keepers.length ≤ 32)
  (hc : 1 ≤ it.challengers.length ∧ it.challengers.length ≤ 32)
include hk hc

theorem builds_vaultUtxoLeaf (hgi : gi < it.vaultCount) :
    (vaultBuildVaultUtxoLeaf it gi scriptMaxLen).isSome = true := by
  have hkne := List.ne_nil_of_length_pos hk.1
  have hcne := List.ne_nil_of_length_pos hc.1
  have hkl := length_multisigGroup opNumequalverify hkne hk.2
  have hcl := length_multisigGroup opNumequalverify hcne hc.2
  unfold vaultBuildVaultUtxoLeaf
  rw [if_neg (by omega), Option.isSome_iff_exists]
  simp only [Option.bind_eq_bind, Option.bind_eq_some_iff, emit_some, encodeMultisigGroup_some]
  refine ⟨_, _, ⟨?_, rfl⟩, _, ⟨?_, rfl⟩, _, ⟨hkne, ?_, rfl⟩, _, ⟨hcne, ?_, rfl⟩, ?_, rfl⟩
  all_goals
    simp only [scriptMaxLen, List.length_append, List.length_nil, length_keyEntry, Bool.false_eq_true,
      if_false]
    omega

theorem builds_htlcLeaf0 (hgi : gi < it.vaultCount) (h : Bytes32) :
    (vaultBuildHtlcLeaf0 it gi h scriptMaxLen).isSome = true := by
  have hkne := List.ne_nil_of_length_pos hk.1
  have hcne := List.ne_nil_of_length_pos hc.1
  have hkl := length_multisigGroup opNumequalverify hkne hk.2
  unfold vaultBuildHtlcLeaf0
  rw [if_neg (by omega), Option.isSome_iff_exists]
  simp only [Option.bind_eq_bind, Option.bind_eq_some_iff, emit_some, encodeMultisigGroup_some]
  refine ⟨_, _, ⟨?_, rfl⟩, _, ⟨?_, rfl⟩, _, ⟨?_, rfl⟩, _, ⟨?_, rfl⟩, _, ⟨hkne, ?_, rfl⟩,
    hcne, ?_, rfl⟩
  all_goals
    have h32 : (pushNumber 32).length = 2 := rfl
    simp only [scriptMaxLen, List.length_append, List.length_nil, List.length_cons, length_keyEntry,
      h32, Bool.false_eq_true, if_false]
    omega

theorem builds_payoutLeaf (hgi : gi < it.vaultCount) (hci : ci ≤ it.keeperCount + 1)
    (hkc : it.keepers.length = it.keeperCount) :
    (vaultBuildAssert0PayoutLeaf it gi ci scriptMaxLen).isSome = true := by
  have hbl := length_buildAppChallengers gi hci hkc
  have hbne := List.ne_nil_of_length_pos (l := buildAppChallengers it gi ci) (by omega)
  have hcne := List.ne_nil_of_length_pos hc.1
  have hkl := length_multisigGroup opNumequalverify hbne (by omega)
  have hcl := length_multisigGroup opNumequalverify hcne hc.2
  unfold vaultBuildAssert0PayoutLeaf
  rw [if_neg (by omega), if_neg (by omega), Option.isSome_iff_exists]
  simp only [Option.bind_eq_bind, Option.bind_eq_some_iff, emit_some, encodeMultisigGroup_some]
  refine ⟨_, _, ⟨?_, rfl⟩, _, ⟨hbne, ?_, rfl⟩, _, ⟨hcne, ?_, rfl⟩, ?_, rfl⟩
  all_goals
    simp only [scriptMaxLen, List.length_append, List.length_nil, length_keyEntry, Bool.false_eq_true,
      if_false]
    omega

end Builds

/-! ## The leaves of a loaded intent -/

theorem leafShapes_claim : Builds (vaultBuildDepositorClaimLeaf it) fun leaf =>
    OnlyMatches leaf .claim ∧ parseClaimLeafScript leaf = some it.depositorPk := by
  refine ⟨Option.isSome_iff_exists.2 ⟨_, emit_some.2 ⟨by decide, rfl⟩⟩, fun n leaf h => ?_⟩
  obtain rfl := claimLeaf_eq h
  obtain ⟨h0, h33, hkey⟩ := head_keyEntry it.depositorPk opChecksig []
  rw [List.append_nil] at h0 h33 hkey
  have hp := parseClaimLeafScript_iff.2 ⟨length_keyEntry, h0, h33, hkey⟩
  exact ⟨onlyMatches (Option.isSome_of_eq_some hp), hp⟩

theorem leafShapes_refund (hmin : 72 ≤ it.htlcRefundTimelock)
    (hmax : it.htlcRefundTimelock ≤ 4320) : Builds (vaultBuildHtlcLeaf1 it) fun leaf =>
    OnlyMatches leaf .refund ∧
      parseRefundLeafScript leaf = some (it.depositorPk, it.htlcRefundTimelock) := by
  refine ⟨Option.isSome_iff_exists.2 ⟨_, emit_some.2 ⟨by decide, rfl⟩⟩, fun n leaf h => ?_⟩
  obtain rfl := htlcLeaf1_eq h
  obtain ⟨h0, h33, hkey⟩ := head_keyEntry it.depositorPk opChecksigverify
    (pushNumber it.htlcRefundTimelock ++ [opCsv])
  have hdrop : (keyEntry it.depositorPk opChecksigverify ++
      (pushNumber it.htlcRefundTimelock ++ [opCsv])).drop 34 =
        pushNumber it.htlcRefundTimelock ++ [opCsv] := List.drop_left' length_keyEntry
  have hpush : parseCsvPush (pushNumber it.htlcRefundTimelock ++ [opCsv]) =
      some (it.htlcRefundTimelock, [opCsv]) := parseCsvPush_pushNumber (by omega) (by omega)
  have hp := parseRefundLeafScript_iff.2 ⟨?_, h0, h33, hdrop ▸ hpush, by omega, hkey⟩
  · exact ⟨onlyMatches (Option.isSome_of_eq_some hp), hp⟩
  · rw [List.length_append, length_keyEntry, pushNumber_eq (by omega) (by omega)]
    split_ifs <;> simp

theorem leafShapes_nopayout (hci : ci < it.keeperCount + it.challengerCount) :
    Builds (vaultBuildNopayoutLeaf it ci) fun leaf =>
      OnlyMatches leaf .nopayout ∧ nopayoutLeafShape it (tlsOf [] leaf) = true := by
  refine ⟨?_, fun n leaf h => ?_⟩
  · rw [vaultBuildNopayoutLeaf, if_neg (by omega)]
    exact Option.isSome_iff_exists.2 ⟨_, emit_some.2 ⟨by decide, rfl⟩⟩
  obtain rfl := nopayoutLeaf_eq h
  have hlen : (keyEntry it.depositorPk opChecksigverify ++
      keyEntry (challengerPk it ci) opChecksig).length = 68 := by simp
  obtain ⟨h0, h33, hkey⟩ := head_keyEntry it.depositorPk opChecksigverify
    (keyEntry (challengerPk it ci) opChecksig)
  have h34 := getD_behind_keyEntry it.depositorPk opChecksigverify
    (keyEntry (challengerPk it ci) opChecksig) 0
  have h67 := getD_behind_keyEntry it.depositorPk opChecksigverify
    (keyEntry (challengerPk it ci) opChecksig) 33
  rw [getD_keyEntry (by omega)] at h34 h67
  have hp : nopayoutLeafShape it (tlsOf [] (keyEntry it.depositorPk opChecksigverify ++
      keyEntry (challengerPk it ci) opChecksig)) = true := by
    unfold nopayoutLeafShape
    rw [tlsOf_leafScript (by omega)]
    simp only [Bool.and_eq_true, decide_eq_true_eq, and_assoc]
    exact ⟨hlen, h0, h33, h34, h67, hkey⟩
  exact ⟨onlyMatches ⟨it, hp⟩, hp⟩

/-- The second key of a vault UTXO leaf is checked at once. -/
theorem vaultUtxoLeaf_matches (h : vaultBuildVaultUtxoLeaf it gi n = some leaf) (p : LeafPattern) :
    ¬p.Matches leaf := by
  obtain ⟨mid, rfl⟩ := vaultUtxoLeaf_eq h
  have h34 := getD_behind_keyEntry it.depositorPk opChecksigverify
    (keyEntry (it.group gi).vaultProviderPk opChecksigverify ++ mid) 0
  have h67 := getD_behind_keyEntry it.depositorPk opChecksigverify
    (keyEntry (it.group gi).vaultProviderPk opChecksigverify ++ mid) 33
  obtain ⟨h0, h33, -⟩ := head_keyEntry (it.group gi).vaultProviderPk opChecksigverify mid
  rw [h0] at h34
  rw [h33] at h67
  have h1 : opPushbytes32 ≠ opSize := by decide
  have h2 : opChecksigverify ≠ opChecksig := by decide
  intro hp
  have hshape := hp.shape.2
  have hlen : 68 ≤ (keyEntry it.depositorPk opChecksigverify ++
      (keyEntry (it.group gi).vaultProviderPk opChecksigverify ++ mid)).length := by
    simp only [List.length_append, length_keyEntry]
    omega
  cases p with
  | claim =>
    have hshape : _ = 34 := hshape
    omega
  | refund => exact absurd hshape.2 (by omega)
  | payout => exact h2 (h67.symm.trans hshape.2.2.2)
  | assert => exact h2 (h67.symm.trans hshape.2.2.2)
  | wc => exact h1 (h34.symm.trans hshape.1)
  | nopayout => exact h2 (h67.symm.trans hshape.2)

/-- A hashlock leaf does not begin with a key. -/
theorem htlcLeaf0_matches {h : Bytes32} (hl : vaultBuildHtlcLeaf0 it gi h n = some leaf)
    (p : LeafPattern) : ¬p.Matches leaf := by
  obtain ⟨rest, rfl⟩ := htlcLeaf0_eq hl
  intro hp
  exact absurd hp.shape.1 (by show ¬opSize = opPushbytes32; decide)

theorem leafShapes_payout (hk : 1 ≤ it.keepers.length ∧ it.keepers.length ≤ 32)
    (hc : 1 ≤ it.challengers.length ∧ it.challengers.length ≤ 32)
    (hkc : it.keepers.length = it.keeperCount) (hmin : 90 ≤ it.payoutTimelock)
    (hmax : it.payoutTimelock ≤ 4032) (hgi : gi < it.vaultCount) (hci : ci ≤ it.keeperCount + 1) :
    Builds (vaultBuildAssert0PayoutLeaf it gi ci) fun leaf => OnlyMatches leaf .payout ∧
      parsePayoutLeafScript leaf = some (claimerPk it gi ci, it.payoutTimelock) := by
  refine ⟨builds_payoutLeaf hk hc hgi hci hkc, fun n leaf h => ?_⟩
  obtain ⟨hbne, hcne, rfl⟩ := payoutLeaf_eq h
  set tail := pushNumber it.payoutTimelock ++ [opCsv] with htail
  set groups := multisigGroup (buildAppChallengers it gi ci) opNumequalverify ++
    (multisigGroup it.challengers opNumequalverify ++ tail) with hgroups
  obtain ⟨h0, h33, hkey⟩ := head_keyEntry (claimerPk it gi ci) opChecksigverify groups
  have h34 := getD_behind_keyEntry (claimerPk it gi ci) opChecksigverify groups 0
  have h67 := getD_behind_keyEntry (claimerPk it gi ci) opChecksigverify groups 33
  -- The first application challenger is the second key of the leaf.
  obtain ⟨key, keys, hkeys⟩ := List.exists_cons_of_ne_nil hbne
  have hfirst : ∃ rest, groups = keyEntry key opChecksig ++ rest := by
    rw [hgroups, hkeys]
    exact ⟨_, by simp only [multisigGroup, List.append_assoc]; rfl⟩
  obtain ⟨rest, hrest⟩ := hfirst
  obtain ⟨g0, g33, -⟩ := head_keyEntry key opChecksig rest
  rw [hrest, g0] at h34
  rw [hrest, g33] at h67
  rw [← hrest] at h34 h67
  have hmid : keyEntry (claimerPk it gi ci) opChecksigverify ++ groups =
      (keyEntry (claimerPk it gi ci) opChecksigverify ++
        multisigGroup (buildAppChallengers it gi ci) opNumequalverify ++
          multisigGroup it.challengers opNumequalverify) ++ tail := by
    simp only [hgroups, List.append_assoc]
  have htl := payoutTail_pushNumber (keyEntry (claimerPk it gi ci) opChecksigverify ++
    multisigGroup (buildAppChallengers it gi ci) opNumequalverify ++
      multisigGroup it.challengers opNumequalverify) hmin hmax
    (by simp [multisigGroup_eq hcne]) (by simp [keyEntry])
  have hp : parsePayoutLeafScript (keyEntry (claimerPk it gi ci) opChecksigverify ++ groups) =
      some (claimerPk it gi ci, it.payoutTimelock) := by
    refine parsePayoutLeafScript_iff.2 ⟨?_, h0, h33, ?_, h34, h67, hmid ▸ htl, hkey⟩
    · have htpos : 0 < tail.length := by simp [htail]
      rw [hmid]
      simp only [List.length_append, length_keyEntry, multisigGroup_eq hbne, length_keyEntries,
        multisigGroup_eq hcne]
      have hbpos := List.length_pos_iff.2 hbne
      omega
    · rw [hmid, htail]
      simp
  exact ⟨onlyMatches (Option.isSome_of_eq_some hp), hp⟩

/-- The bounds of an intent that the builders rely on. -/
structure LeafBounds (it : VaultIntent) : Prop where
  keepers : it.keepers.length = it.keeperCount
  keepersLen : 1 ≤ it.keepers.length ∧ it.keepers.length ≤ 32
  challengersLen : 1 ≤ it.challengers.length ∧ it.challengers.length ≤ 32
  pegin : 16 < it.peginCsvTimelock ∧ it.peginCsvTimelock < 2 ^ 15
  payout : 90 < it.payoutTimelock ∧ it.payoutTimelock < 4032
  refund : 72 ≤ it.htlcRefundTimelock ∧ it.htlcRefundTimelock ≤ 4320

theorem LoadedIntent.leafBounds (h : LoadedIntent E it) : LeafBounds it := by
  obtain ⟨hk, hc, -⟩ := h.scalars.counts
  have hkl : it.keepers.length = it.keeperCount := List.Vector.length_upto hk.2
  have hcl : it.challengers.length = it.challengerCount := List.Vector.length_upto hc.2
  have hpegin : ¬(it.peginCsvTimelock < timelockMin ∨ it.peginCsvTimelock > timelockMax) :=
    h.scalars 4 (by decide)
  have hpay : ¬(it.payoutTimelock ≤ payoutTimelockMin ∨ it.payoutTimelock ≥ payoutTimelockMax) :=
    h.scalars 5 (by decide)
  have hrefund : ¬(it.htlcRefundTimelock < timelockMin ∨
    it.htlcRefundTimelock > htlcRefundTimelockMax) := h.scalars 7 (by decide)
  unfold timelockMin timelockMax at hpegin
  unfold payoutTimelockMin payoutTimelockMax at hpay
  unfold timelockMin htlcRefundTimelockMax at hrefund
  unfold maxKeepers at hk
  unfold maxChallengers at hc
  exact ⟨hkl, by omega, by omega, by omega, by omega, by omega⟩

/-- Every leaf of a loaded intent has its own shape. -/
theorem LoadedIntent.leafShapes (h : LoadedIntent E it) : LeafShapes it := by
  have hb := h.leafBounds
  exact {
    claim := leafShapes_claim
    refund := leafShapes_refund hb.refund.1 hb.refund.2
    payout := fun gi hgi ci hci => leafShapes_payout hb.keepersLen hb.challengersLen hb.keepers
      hb.payout.1.le hb.payout.2.le hgi hci
    nopayout := fun ci hci => leafShapes_nopayout hci
    vaultUtxo := fun gi hgi =>
      ⟨builds_vaultUtxoLeaf hb.keepersLen hb.challengersLen hgi, fun _ _ h => vaultUtxoLeaf_matches h⟩
    htlcLeaf0 := fun gi hgi h =>
      ⟨builds_htlcLeaf0 hb.keepersLen hb.challengersLen hgi h, fun _ _ hl => htlcLeaf0_matches hl⟩ }

/-- No script has two shapes, and each leaf of a loaded intent has its own. -/
theorem Reach.leaf_patterns (h : Reach E ls d) (hl : d.ctx.state = .intentLoaded) :
    (∀ (script : Bytes) (p q : LeafPattern), p.Matches script → q.Matches script → p = q) ∧
      LeafShapes d.intent :=
  ⟨fun _ _ _ hp hq => LeafPattern.unique hp hq, ((h.session.loaded hl).intent).leafShapes⟩

open Signet in
theorem leaf_patterns_signet : LeafShapes (loaded intent).intent :=
  ((reach_loaded intent).leaf_patterns loaded_state).2

end BabylonVault
