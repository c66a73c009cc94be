/-
  The leaf builders.

  * `keyEntry_append_inj`, `multisigGroup_append_inj`: what a key or a signer group writes is
    told apart from what follows it.
  * `LeafCall`: the six builders, each with its arguments and the buffer its callers pass;
    `LeafContent`: who must sign a leaf and when. A loaded intent has every leaf built within
    the buffer, and the bytes of a leaf give its content (`Reach.leaf_builders`).
  * `assertPrefixBuf`: the signer prefix of an Assert leaf as the builders write it; the
    random-access description gives the same bytes (`assert_prefix_streamed`).
-/
import BabylonVault.Patterns
import BabylonVault.Pushes

namespace BabylonVault
open Bytes

variable {E E' : Env} {it it' : VaultIntent} {key key' : Bytes32} {op : UInt8}
  {r r' leaf : Bytes} {n n' gi ci : ℕ}

/-! ## Cancelling -/

theorem keyEntry_append_inj (h : keyEntry key op ++ r = keyEntry key' op ++ r') :
    key = key' ∧ r = r' := by
  obtain ⟨hk, hr⟩ := List.append_inj h (by rw [length_keyEntry, length_keyEntry])
  refine ⟨Subtype.ext ?_, hr⟩
  exact (List.append_inj' (List.cons.inj hk).2 rfl).1

/-- Entries are told from what follows them by their first byte. -/
theorem flatMap_keyEntry_append_inj : ∀ {keys keys' : List Bytes32} {r r' : Bytes},
    r.headD 0 ≠ opPushbytes32 → r'.headD 0 ≠ opPushbytes32 →
    keys.flatMap (keyEntry · op) ++ r = keys'.flatMap (keyEntry · op) ++ r' → keys = keys' ∧ r = r'
  | [], [], _, _, _, _, h => ⟨rfl, h⟩
  | [], key :: keys', r, r', hr, _, h => by
    have hr' : r = keyEntry key op ++ (keys'.flatMap (keyEntry · op) ++ r') := by
      rw [← List.append_assoc]
      exact h
    rw [hr'] at hr
    exact absurd rfl hr
  | key :: keys, [], r, r', _, hr', h => by
    have hr : r' = keyEntry key op ++ (keys.flatMap (keyEntry · op) ++ r) := by
      rw [← List.append_assoc]
      exact h.symm
    rw [hr] at hr'
    exact absurd rfl hr'
  | key :: keys, key' :: keys', r, r', hr, hr', h => by
    rw [List.flatMap_cons, List.flatMap_cons, List.append_assoc, List.append_assoc] at h
    obtain ⟨rfl, hrest⟩ := keyEntry_append_inj h
    obtain ⟨rfl, hend⟩ := flatMap_keyEntry_append_inj hr hr' hrest
    exact ⟨rfl, hend⟩

/-- The count of a signer group does not begin like an entry. -/
theorem headD_pushNumber {k : ℕ} (h1 : 1 ≤ k) (h32 : k ≤ 32) (r : Bytes) :
    (pushNumber k ++ r).headD 0 ≠ opPushbytes32 := by
  have h : ∀ k < 33, 1 ≤ k → (pushNumber k).headD 0 ≠ opPushbytes32 ∧ pushNumber k ≠ [] := by
    decide +kernel
  obtain ⟨hne, hnil⟩ := h k (by omega) h1
  rcases hp : pushNumber k with _ | ⟨b, num⟩
  · exact absurd hp hnil
  · rw [hp] at hne
    exact hne

/-- A signer group is told from what follows it. -/
theorem multisigGroup_append_inj {keys keys' : List Bytes32} (hne : keys ≠ []) (hne' : keys' ≠ [])
    (hl : keys.length ≤ 32) (hl' : keys'.length ≤ 32)
    (h : multisigGroup keys op ++ r = multisigGroup keys' op ++ r') : keys = keys' ∧ r = r' := by
  rcases keys with _ | ⟨key, keys⟩
  · exact absurd rfl hne
  rcases keys' with _ | ⟨key', keys'⟩
  · exact absurd rfl hne'
  simp only [multisigGroup, List.append_assoc] at h
  obtain ⟨rfl, hrest⟩ := keyEntry_append_inj h
  obtain ⟨rfl, hend⟩ := flatMap_keyEntry_append_inj (headD_pushNumber (Nat.succ_pos _) hl _)
    (headD_pushNumber (Nat.succ_pos _) hl' _) hrest
  exact ⟨rfl, List.append_cancel_left (List.append_cancel_left hend)⟩

/-! ## The six builders -/

/-- A call of a leaf builder. -/
inductive LeafCall
  | claim
  | htlc0 (gi : ℕ) (h : Bytes32)
  | htlc1
  | vaultUtxo (gi : ℕ)
  | payout (gi ci : ℕ)
  | nopayout (ci : ℕ)

/-- Who must sign a leaf and when: the preimage's hash, the keys that sign alone, the two
    signer groups, the timelock. -/
structure LeafContent where
  hashlock : Option Bytes32
  signers : List Bytes32
  group1 : List Bytes32
  group2 : List Bytes32
  timelock : Option ℕ

namespace LeafCall
variable (it : VaultIntent)

/-- The builder. -/
def build : LeafCall → ℕ → Option Bytes
  | claim => vaultBuildDepositorClaimLeaf it
  | htlc0 gi h => vaultBuildHtlcLeaf0 it gi h
  | htlc1 => vaultBuildHtlcLeaf1 it
  | vaultUtxo gi => vaultBuildVaultUtxoLeaf it gi
  | payout gi ci => vaultBuildAssert0PayoutLeaf it gi ci
  | nopayout ci => vaultBuildNopayoutLeaf it ci

/-- The size of the buffer that the callers pass. -/
def bufSize : LeafCall → ℕ
  | claim => p2trSpkLen
  | nopayout _ => nopayoutLeafLen
  | _ => scriptMaxLen

/-- The indices are those of the intent. -/
def Valid : LeafCall → Prop
  | claim | htlc1 => True
  | htlc0 gi _ | vaultUtxo gi => gi < it.vaultCount
  | payout gi ci => gi < it.vaultCount ∧ ci ≤ it.keeperCount + 1
  | nopayout ci => ci < it.keeperCount + it.challengerCount

/-- What is embedded. -/
def content : LeafCall → LeafContent
  | claim => ⟨none, [it.depositorPk], [], [], none⟩
  | htlc0 gi h =>
    ⟨some h, [it.depositorPk, (it.group gi).vaultProviderPk], it.keepers, it.challengers, none⟩
  | htlc1 => ⟨none, [it.depositorPk], [], [], some it.htlcRefundTimelock⟩
  | vaultUtxo gi => ⟨none, [it.depositorPk, (it.group gi).vaultProviderPk], it.keepers,
      it.challengers, some it.peginCsvTimelock⟩
  | payout gi ci => ⟨none, [claimerPk it gi ci], buildAppChallengers it gi ci, it.challengers,
      some it.payoutTimelock⟩
  | nopayout ci => ⟨none, [it.depositorPk, challengerPk it ci], [], [], none⟩

/-- Calls of one builder. -/
def Same : LeafCall → LeafCall → Prop
  | claim, claim | htlc1, htlc1 | htlc0 _ _, htlc0 _ _ | vaultUtxo _, vaultUtxo _
  | payout _ _, payout _ _ | nopayout _, nopayout _ => True
  | _, _ => False

end LeafCall

/-! ### The bytes -/

theorem length_timelock {t : ℕ} (h16 : 16 < t) (ht : t < 2 ^ 15) : (pushNumber t).length ≤ 3 := by
  rw [pushNumber_eq h16 ht]
  split_ifs <;> simp

theorem LeafBounds.lengths (h : LeafBounds it) : it.keepers ≠ [] ∧ it.challengers ≠ [] ∧
    (multisigGroup it.keepers op).length ≤ 34 * it.keepers.length + 3 ∧
    (multisigGroup it.challengers op).length ≤ 34 * it.challengers.length + 3 := by
  have hkne := List.ne_nil_of_length_pos h.keepersLen.1
  have hcne := List.ne_nil_of_length_pos h.challengersLen.1
  exact ⟨hkne, hcne, length_multisigGroup op hkne h.keepersLen.2,
    length_multisigGroup op hcne h.challengersLen.2⟩

theorem vaultUtxoLeaf_bytes (hb : LeafBounds it) (h : vaultBuildVaultUtxoLeaf it gi n = some leaf) :
    leaf = keyEntry it.depositorPk opChecksigverify ++
      (keyEntry (it.group gi).vaultProviderPk opChecksigverify ++
        (multisigGroup it.keepers opNumequalverify ++
          (multisigGroup it.challengers opNumequalverify ++
            (pushNumber it.peginCsvTimelock ++ [opCsv])))) ∧ leaf.length ≤ n := by
  have ht := length_timelock hb.pegin.1 hb.pegin.2
  unfold vaultBuildVaultUtxoLeaf at h
  split_ifs at h
  simp only [Option.bind_eq_bind, Option.bind_eq_some_iff, emit_some, encodeMultisigGroup_some,
    Bool.false_eq_true, if_false] at h
  obtain ⟨_, ⟨-, rfl⟩, _, ⟨-, rfl⟩, _, ⟨-, -, rfl⟩, _, ⟨-, -, rfl⟩, hroom, rfl⟩ := h
  simp only [List.nil_append, List.append_assoc, List.length_append, List.length_singleton] at hroom ⊢
  exact ⟨trivial, by omega⟩

theorem htlcLeaf0_bytes {h : Bytes32} (hb : LeafBounds it)
    (hl : vaultBuildHtlcLeaf0 it gi h n = some leaf) :
    leaf = opSize :: pushNumber 32 ++ [opEqualverify] ++ (opSha256 :: (keyEntry h opEqualverify ++
      (keyEntry it.depositorPk opChecksigverify ++
        (keyEntry (it.group gi).vaultProviderPk opChecksigverify ++
          (multisigGroup it.keepers opNumequalverify ++
            multisigGroup it.challengers opNumequal))))) ∧ leaf.length ≤ n := by
  obtain ⟨-, -, -, hcl⟩ := @LeafBounds.lengths it opNumequal hb
  unfold vaultBuildHtlcLeaf0 at hl
  split_ifs at hl
  simp only [Option.bind_eq_bind, Option.bind_eq_some_iff, emit_some, encodeMultisigGroup_some,
    Bool.false_eq_true, if_false, if_true] at hl
  obtain ⟨_, ⟨-, rfl⟩, _, ⟨-, rfl⟩, _, ⟨-, rfl⟩, _, ⟨-, rfl⟩, _, ⟨-, -, rfl⟩, -, hroom, rfl⟩ := hl
  simp only [List.nil_append, List.append_assoc, List.cons_append, List.length_append,
    List.length_cons] at hroom ⊢
  exact ⟨trivial, by omega⟩

theorem payoutLeaf_length (hb : LeafBounds it)
    (h : vaultBuildAssert0PayoutLeaf it gi ci n = some leaf) : leaf.length ≤ n := by
  have ht := length_timelock (t := it.payoutTimelock) (by have := hb.payout; omega)
    (by have := hb.payout; omega)
  unfold vaultBuildAssert0PayoutLeaf at h
  split_ifs at h
  simp only [Option.bind_eq_bind, Option.bind_eq_some_iff, emit_some, encodeMultisigGroup_some] at h
  obtain ⟨_, ⟨-, rfl⟩, _, ⟨-, -, rfl⟩, _, ⟨-, -, rfl⟩, hroom, rfl⟩ := h
  simp only [List.length_append, List.length_singleton] at hroom ⊢
  omega

theorem LeafBounds.appChallengers (hb : LeafBounds it)
    (h : vaultBuildAssert0PayoutLeaf it gi ci n = some leaf) :
    (buildAppChallengers it gi ci).length ≤ 32 := by
  have hci : ci ≤ it.keeperCount + 1 := by
    unfold vaultBuildAssert0PayoutLeaf at h
    split_ifs at h
    omega
  rw [length_buildAppChallengers gi hci hb.keepers, ← hb.keepers]
  exact hb.keepersLen.2

/-! ### Total and injective -/

/-- Every leaf of the intent is built, and fits its buffer. -/
theorem LeafBounds.fits (hb : LeafBounds it) {c : LeafCall} (hc : c.Valid it) :
    ∃ leaf, c.build it c.bufSize = some leaf ∧ leaf.length ≤ c.bufSize := by
  cases c with
  | claim =>
    show ∃ leaf, emit 34 34 (keyEntry it.depositorPk opChecksig) [] = some leaf ∧ leaf.length ≤ 34
    exact ⟨_, emit_some.2 ⟨le_rfl, rfl⟩, by simp⟩
  | htlc0 gi h =>
    obtain ⟨leaf, hl⟩ := Option.isSome_iff_exists.1
      (builds_htlcLeaf0 hb.keepersLen hb.challengersLen hc h)
    exact ⟨leaf, hl, (htlcLeaf0_bytes hb hl).2⟩
  | htlc1 =>
    have ht := length_timelock (t := it.htlcRefundTimelock) (by have := hb.refund; omega)
      (by have := hb.refund; omega)
    show ∃ leaf, emit scriptMaxLen 38 (keyEntry it.depositorPk opChecksigverify ++
      pushNumber it.htlcRefundTimelock ++ [opCsv]) [] = some leaf ∧ leaf.length ≤ scriptMaxLen
    refine ⟨_, emit_some.2 ⟨by decide, rfl⟩, ?_⟩
    simp only [List.nil_append, List.length_append, length_keyEntry, List.length_singleton,
      scriptMaxLen]
    omega
  | vaultUtxo gi =>
    obtain ⟨leaf, hl⟩ := Option.isSome_iff_exists.1
      (builds_vaultUtxoLeaf hb.keepersLen hb.challengersLen hc)
    exact ⟨leaf, hl, (vaultUtxoLeaf_bytes hb hl).2⟩
  | payout gi ci =>
    obtain ⟨leaf, hl⟩ := Option.isSome_iff_exists.1
      (builds_payoutLeaf hb.keepersLen hb.challengersLen hc.1 hc.2 hb.keepers)
    exact ⟨leaf, hl, payoutLeaf_length hb hl⟩
  | nopayout ci =>
    have hlt : ¬ci ≥ it.keeperCount + it.challengerCount := Nat.not_le.2 hc
    show ∃ leaf, vaultBuildNopayoutLeaf it ci 68 = some leaf ∧ leaf.length ≤ 68
    rw [vaultBuildNopayoutLeaf, if_neg hlt]
    exact ⟨_, emit_some.2 ⟨le_rfl, rfl⟩, by simp⟩

/-- The bytes of a leaf give its content. -/
theorem LeafBounds.content_inj (hb : LeafBounds it) (hb' : LeafBounds it') {c c' : LeafCall}
    (hs : c.Same c') (h : c.build it n = some leaf) (h' : c'.build it' n' = some leaf) :
    c.content it = c'.content it' := by
  obtain ⟨hkne, hcne, -⟩ := @LeafBounds.lengths it opNumequal hb
  obtain ⟨hkne', hcne', -⟩ := @LeafBounds.lengths it' opNumequal hb'
  have hpay := hb.payout
  have hpay' := hb'.payout
  have hrefund := hb.refund
  have hrefund' := hb'.refund
  cases c <;> cases c' <;> first | exact hs.elim | skip
  case claim.claim =>
    have heq := (claimLeaf_eq h).symm.trans (claimLeaf_eq h')
    rw [← List.append_nil (keyEntry _ _), ← List.append_nil (keyEntry it'.depositorPk _)] at heq
    obtain ⟨hd, -⟩ := keyEntry_append_inj heq
    rw [LeafCall.content, LeafCall.content, hd]
  case htlc0.htlc0 gi hash gi' hash' =>
    have heq := (htlcLeaf0_bytes hb h).1.symm.trans (htlcLeaf0_bytes hb' h').1
    obtain ⟨rfl, h1⟩ := keyEntry_append_inj (List.cons.inj (List.append_cancel_left heq)).2
    obtain ⟨hd, h2⟩ := keyEntry_append_inj h1
    obtain ⟨hvp, h3⟩ := keyEntry_append_inj h2
    obtain ⟨hk, h4⟩ := multisigGroup_append_inj hkne hkne' hb.keepersLen.2 hb'.keepersLen.2 h3
    rw [← List.append_nil (multisigGroup _ _), ← List.append_nil (multisigGroup it'.challengers _)] at h4
    obtain ⟨hc, -⟩ := multisigGroup_append_inj hcne hcne' hb.challengersLen.2 hb'.challengersLen.2 h4
    rw [LeafCall.content, LeafCall.content, hd, hvp, hk, hc]
  case htlc1.htlc1 =>
    have heq := (htlcLeaf1_eq h).symm.trans (htlcLeaf1_eq h')
    obtain ⟨hd, h1⟩ := keyEntry_append_inj heq
    have ht := pushNumber_append_inj (by omega) (by omega) h1
    rw [LeafCall.content, LeafCall.content, hd, ht]
  case vaultUtxo.vaultUtxo gi gi' =>
    have heq := (vaultUtxoLeaf_bytes hb h).1.symm.trans (vaultUtxoLeaf_bytes hb' h').1
    obtain ⟨hd, h1⟩ := keyEntry_append_inj heq
    obtain ⟨hvp, h2⟩ := keyEntry_append_inj h1
    obtain ⟨hk, h3⟩ := multisigGroup_append_inj hkne hkne' hb.keepersLen.2 hb'.keepersLen.2 h2
    obtain ⟨hc, h4⟩ := multisigGroup_append_inj hcne hcne' hb.challengersLen.2 hb'.challengersLen.2 h3
    have ht := pushNumber_append_inj (hb.pegin.2.trans (by decide)) (hb'.pegin.2.trans (by decide)) h4
    rw [LeafCall.content, LeafCall.content, hd, hvp, hk, hc, ht]
  case payout.payout gi ci gi' ci' =>
    obtain ⟨hane, -, hl⟩ := payoutLeaf_eq h
    obtain ⟨hane', -, hl'⟩ := payoutLeaf_eq h'
    obtain ⟨hclaimer, h1⟩ := keyEntry_append_inj (hl.symm.trans hl')
    obtain ⟨ha, h2⟩ := multisigGroup_append_inj hane hane' (hb.appChallengers h) (hb'.appChallengers h') h1
    obtain ⟨hc, h3⟩ := multisigGroup_append_inj hcne hcne' hb.challengersLen.2 hb'.challengersLen.2 h2
    have ht := pushNumber_append_inj (by omega) (by omega) h3
    rw [LeafCall.content, LeafCall.content, hclaimer, ha, hc, ht]
  case nopayout.nopayout ci ci' =>
    have heq := (nopayoutLeaf_eq h).symm.trans (nopayoutLeaf_eq h')
    obtain ⟨hd, h1⟩ := keyEntry_append_inj heq
    rw [← List.append_nil (keyEntry (challengerPk it ci) _),
      ← List.append_nil (keyEntry (challengerPk it' ci') _)] at h1
    obtain ⟨hch, -⟩ := keyEntry_append_inj h1
    rw [LeafCall.content, LeafCall.content, hd, hch]

/-- The builders are total on a loaded intent, and injective over any two. -/
theorem Reach.leaf_builders {es es' : List Exchange} {d d' : Device} (h : Reach E es d)
    (hl : d.ctx.state = .intentLoaded) (h' : Reach E' es' d') (hl' : d'.ctx.state = .intentLoaded) :
    (∀ c : LeafCall, c.Valid d.intent →
      ∃ leaf, c.build d.intent c.bufSize = some leaf ∧ leaf.length ≤ c.bufSize) ∧
    ∀ (c c' : LeafCall) n n' leaf, c.Same c' → c.build d.intent n = some leaf →
      c'.build d'.intent n' = some leaf → c.content d.intent = c'.content d'.intent := by
  have hb := ((h.session.loaded hl).intent).leafBounds
  have hb' := ((h'.session.loaded hl').intent).leafBounds
  constructor
  · intro c hc
    exact hb.fits hc
  · intro c c' n n' leaf hs hbuild hbuild'
    exact hb.content_inj hb' hs hbuild hbuild'

open Signet in
theorem leaf_builders_signet : (∀ c : LeafCall, c.Valid (loaded intent).intent →
      ∃ leaf, c.build (loaded intent).intent c.bufSize = some leaf ∧ leaf.length ≤ c.bufSize) ∧
    ∀ (c c' : LeafCall) n n' leaf, c.Same c' → c.build (loaded intent).intent n = some leaf →
      c'.build (loaded intent).intent n' = some leaf →
      c.content (loaded intent).intent = c'.content (loaded intent).intent :=
  (reach_loaded intent).leaf_builders loaded_state (reach_loaded intent) loaded_state

/-! ## The Assert signer prefix -/

/-- The signer prefix of an Assert leaf, as the builders would write it. -/
def assertPrefixBuf (it : VaultIntent) (bufMax : ℕ) : Option Bytes := do
  let buf ← emit bufMax 34 (keyEntry it.depositorPk opChecksigverify) []
  let buf ← encodeMultisigGroup it.keepers false bufMax buf
  encodeMultisigGroup it.challengers false bufMax buf

theorem assertPrefixBuf_some {P : Bytes} (h : assertPrefixBuf it n = some P) :
    P = assertPrefix it := by
  simp only [assertPrefixBuf, Option.bind_eq_bind, Option.bind_eq_some_iff, emit_some,
    encodeMultisigGroup_some, Bool.false_eq_true, if_false] at h
  obtain ⟨_, ⟨-, rfl⟩, _, ⟨-, -, rfl⟩, -, -, rfl⟩ := h
  rfl

/-- The random-access description of the prefix is the prefix as it is written. -/
structure StreamsPrefix (it : VaultIntent) : Prop where
  written : 1 ≤ it.keeperCount ∧ it.keeperCount ≤ 32 →
    1 ≤ it.challengerCount ∧ it.challengerCount ≤ 32 →
    ∃ P, assertPrefixBuf it scriptMaxLen = some P ∧ vaultAssertPrefixLen it = some P.length ∧
      ∀ off, vaultAssertPrefixByte it off = if h : off < P.length then some P[off] else none
  empty : it.keeperCount = 0 ∨ it.challengerCount = 0 →
    vaultAssertPrefixLen it = none ∧ ∀ off, vaultAssertPrefixByte it off = none

/-- The streamed Assert prefix is the materialised one. -/
theorem assert_prefix_streamed (it : VaultIntent) : StreamsPrefix it := by
  constructor
  · intro hk hc
    have hkl : it.keepers.length = it.keeperCount := List.Vector.length_upto hk.2
    have hcl : it.challengers.length = it.challengerCount := List.Vector.length_upto hc.2
    have hkne : it.keepers ≠ [] := List.ne_nil_of_length_pos (by omega)
    have hcne : it.challengers ≠ [] := List.ne_nil_of_length_pos (by omega)
    have hlen := length_multisigGroup opNumequalverify hkne (by omega)
    obtain ⟨hspec, hbyte⟩ := assertPrefix_spec hk hc
    have hsome : (assertPrefixBuf it scriptMaxLen).isSome = true := by
      rw [Option.isSome_iff_exists]
      simp only [assertPrefixBuf, Option.bind_eq_bind, Option.bind_eq_some_iff, emit_some,
        encodeMultisigGroup_some, Bool.false_eq_true, if_false]
      refine ⟨_, _, ⟨by decide, rfl⟩, _, ⟨hkne, ?_, rfl⟩, hcne, ?_, rfl⟩
      all_goals
        simp only [scriptMaxLen, List.length_append, List.length_nil, length_keyEntry]
        omega
    obtain ⟨P, hP⟩ := Option.isSome_iff_exists.1 hsome
    obtain rfl := assertPrefixBuf_some hP
    refine ⟨_, hP, hspec, fun off => ?_⟩
    rw [hbyte off]
    split_ifs with h
    · exact List.getElem?_eq_getElem h
    · exact List.getElem?_eq_none (Nat.le_of_not_lt h)
  · intro hz
    exact ⟨if_pos hz, fun off => if_pos hz⟩

end BabylonVault
