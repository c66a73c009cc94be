/-
  Who can spend the leaves that the device builds.

  * `LeafContent.Met`: the witness that a leaf is meant for: the preimage, a signature for
    each key in its order, and the timelock that has passed.
  * `LeafBounds.spends_iff`: it satisfies the leaf under the rules of tapscript, and no other
    witness does.
-/
import BabylonVault.AssertSafety
import BabylonVault.Builders
import BabylonVault.Lib.Policy

namespace BabylonVault
open Bytes Opcodes Tapscript Rules

/-- The keys of a leaf, in the order of their checks. -/
def LeafContent.keys (c : LeafContent) : List Bytes32 := c.signers ++ (c.group1 ++ c.group2)

/-- The elements of a witness, from the first that is used to the last. -/
structure LeafContent.Met (R : Rules) (sha : Bytes → Bytes) (S : Spend) (c : LeafContent)
    (args : List Bytes) : Prop where
  elements : ∃ pre sigs, args = pre ++ sigs ∧
    List.Forall₂ (fun (h : Bytes32) x => x.length = 32 ∧ sha x = h.toList) c.hashlock.toList pre ∧
    List.Forall₂ R.Signs (c.keys.map (·.toList)) sigs
  timelock : ∀ t ∈ c.timelock, S.Meets t

variable {E : Env} {ls : List Exchange} {d : Device} {it : VaultIntent} {R : Rules} {key : Bytes32}
  {keys : List Bytes32} {op : UInt8} {leaf : Bytes} {n : ℕ} {sha : Bytes → Bytes} {S : Spend}
  {P : Prop}

/-! ## The pieces -/

theorem checks_keyEntry (key : Bytes32) :
    Checks R (keyEntry key opChecksigverify) (List.Forall₂ R.Signs [key.toList]) 1 :=
  ⟨_, ops_keyEntry key (by decide), rfl, gate_sig key.toList_length⟩

theorem ends_keyEntry (key : Bytes32) : Asks R (keyEntry key opChecksig) [key.toList] True :=
  Ends.asks ⟨_, ops_keyEntry key (by decide), rfl, final_sig key.toList_length⟩

/-- A number of two bytes at most, as the device pushes it. -/
theorem pushesNumber (h : n < 2 ^ 15) : ∃ num, IsOp (pushNumber n) num ∧ PushesNumber num n := by
  obtain ⟨num, hop, hnum, -⟩ := isOp_pushNumber (n := n) (h.trans (by decide))
  have hlen : (pushNumber n).length ≤ 3 := by
    by_cases h16 : n ≤ 16
    · obtain ⟨-, -, -, -, h1⟩ := isOp_pushNumber_small h16
      omega
    · exact length_timelock (by omega) h
  obtain ⟨pre, hsplit, -⟩ := hop.split
  have hl := congrArg List.length hsplit
  rw [List.length_cons, List.length_append] at hl
  exact ⟨num, hop, hnum, by omega⟩

/-- The operations of a signer group. -/
theorem ops_signerGroup (hop : 0x4E < op.toNat) (hs : isSuccess op = false) (hne : keys ≠ [])
    (hk : keys.length ≤ 32) : ∃ num, PushesNumber num (keys.map (·.toList)).length ∧
      ops (multisigGroup keys op) = some (signerOps (keys.map (·.toList)) ++ [num, ⟨op, []⟩]) ∧
      (signerOps (keys.map (·.toList)) ++ [num, ⟨op, []⟩]).any (isSuccess ·.code) = false := by
  rcases keys with _ | ⟨key, keys⟩
  · exact absurd rfl hne
  · obtain ⟨num, hnum, hpush⟩ := pushesNumber (n := (key :: keys).length) (by omega)
    have hlast := ops_isOp_append (s := []) (isOp_plain hop)
    rw [List.append_nil] at hlast
    refine ⟨num, by rwa [List.length_map], ?_, ?_⟩
    · rw [multisigGroup, List.append_assoc, List.append_assoc,
        ops_append (ops_keyEntry key (by decide)), ops_append (ops_keyEntries (by decide) keys),
        ops_isOp_append hnum, hlast]
      simp [signerOps, addOps, List.flatMap_map, opPushbytes32, opChecksig, opChecksigadd]
    · have hcodes : isSuccess 0x20 = false ∧ isSuccess 0xAC = false ∧ isSuccess 0xBA = false := by
        decide
      simp [signerOps, addOps, hpush.not_success, hs, hcodes]

theorem checks_multisigGroup (hne : keys ≠ []) (hk : keys.length ≤ 32) :
    Checks R (multisigGroup keys opNumequalverify) (List.Forall₂ R.Signs (keys.map (·.toList)))
      (keys.map (·.toList)).length := by
  obtain ⟨num, hnum, hops, hplain⟩ := ops_signerGroup (show 0x4E < opNumequalverify.toNat by decide)
    (by decide) hne hk
  refine ⟨_, hops, hplain, gate_all (by simpa using hne) ?_ (by rw [List.length_map]; omega) hnum⟩
  simp only [List.mem_map, forall_exists_index, and_imp]
  rintro _ key - rfl
  exact key.toList_length

theorem ends_multisigGroup (hne : keys ≠ []) (hk : keys.length ≤ 32) :
    Asks (R.standard sha S) (multisigGroup keys opNumequal) (keys.map (·.toList)) True := by
  obtain ⟨num, hnum, hops, hplain⟩ := ops_signerGroup (show 0x4E < opNumequal.toNat by decide)
    (by decide) hne hk
  refine Ends.asks ⟨_, hops, hplain, final_all (by simpa using hne) ?_ (by rw [List.length_map]; omega)
    hnum⟩
  simp only [List.mem_map, forall_exists_index, and_imp]
  rintro _ key - rfl
  exact key.toList_length

theorem ends_timelock (h0 : 0 < n) (hn : n < 2 ^ 15) :
    Asks (R.standard sha S) (pushNumber n ++ [opCsv]) [] (S.Meets n) := by
  obtain ⟨num, hnum, hpush⟩ := pushesNumber hn
  have hlast := ops_isOp_append (s := []) (isOp_plain (show 0x4E < opCsv.toNat by decide))
  rw [List.append_nil] at hlast
  have hops : ops (pushNumber n ++ [opCsv]) = some [num, ⟨opCsv, []⟩] := by
    rw [ops_isOp_append hnum, hlast]
    rfl
  have hcsv : isSuccess opCsv = false := by decide
  refine Ends.congr ⟨_, hops, by simp [hpush.not_success, hcsv],
    final_after hpush h0 (hn.trans (by decide))⟩ fun args => ?_
  rw [List.forall₂_nil_left_iff]

/-- The hashlock in front of an HTLC leaf. -/
theorem checks_hashlock (h : Bytes32) : Checks (R.standard sha S)
    (opSize :: pushNumber 32 ++ [opEqualverify] ++ opSha256 :: keyEntry h opEqualverify)
      (fun args => ∃ x, args = [x] ∧ x.length = 32 ∧ sha x = h.toList) 0 := by
  have hpush : IsOp (0x20 :: h.toList) ⟨0x20, h.toList⟩ :=
    isOp_push (by rw [h.toList_length]; rfl) (by rw [h.toList_length]; decide)
  have hlast := ops_isOp_append (s := []) (isOp_plain (show 0x4E < (0x88 : UInt8).toNat by decide))
  have hops : ops (opSize :: pushNumber 32 ++ [opEqualverify] ++ opSha256 :: keyEntry h opEqualverify) =
      some [⟨0x82, []⟩, ⟨0x01, [0x20]⟩, ⟨0x88, []⟩, ⟨0xA8, []⟩, ⟨0x20, h.toList⟩, ⟨0x88, []⟩] := by
    have h1 : ops (opSize :: pushNumber 32 ++ [opEqualverify]) =
        some [⟨0x82, []⟩, ⟨0x01, [0x20]⟩, ⟨0x88, []⟩] := by decide
    have h2 : ops (keyEntry h opEqualverify) = some [⟨0x20, h.toList⟩, ⟨0x88, []⟩] :=
      ops_keyEntry h (by decide)
    rw [ops_append h1, show opSha256 :: keyEntry h opEqualverify = [opSha256] ++ keyEntry h opEqualverify
      from rfl, ops_isOp_append (isOp_plain (by decide)), h2]
    rfl
  exact ⟨_, hops, rfl, gate_hash h.toList_length⟩

/-! ## The leaves -/

/-- A leaf without a hashlock asks for its keys and its timelock. -/
theorem ends_of_asks {c : LeafContent} (hc : c.hashlock = none)
    (h : Asks (R.standard sha S) leaf (c.keys.map (·.toList)) P) (hP : P ↔ ∀ t ∈ c.timelock, S.Meets t) :
    Ends (R.standard sha S) leaf (c.Met R sha S) c.keys.length := by
  rw [Asks, List.length_map] at h
  refine h.congr fun args => ?_
  constructor
  · rintro ⟨hsigs, hp⟩
    exact ⟨⟨[], args, rfl, by rw [hc]; exact .nil, hsigs⟩, hP.1 hp⟩
  · rintro ⟨⟨pre, sigs, rfl, hpre, hsigs⟩, ht⟩
    rw [hc] at hpre
    cases hpre
    exact ⟨hsigs, hP.2 ht⟩

/-- A leaf behind a hashlock asks for the preimage first. -/
theorem ends_of_hashlock {c : LeafContent} {hash : Bytes32} (hc : c.hashlock = some hash)
    (ht : c.timelock = none) (h : Asks (R.standard sha S) leaf (c.keys.map (·.toList)) True) :
    Ends (R.standard sha S)
      (opSize :: pushNumber 32 ++ [opEqualverify] ++ opSha256 :: keyEntry hash opEqualverify ++ leaf)
      (c.Met R sha S) c.keys.length := by
  rw [Asks, List.length_map] at h
  have hend := (checks_hashlock hash).ends h
  rw [Nat.zero_add] at hend
  refine hend.congr fun args => ?_
  constructor
  · rintro ⟨_, sigs, rfl, ⟨x, rfl, hx⟩, hsigs, -⟩
    exact ⟨⟨[x], sigs, rfl, by rw [hc]; exact .cons hx .nil, hsigs⟩, fun t h => by rw [ht] at h; cases h⟩
  · rintro ⟨⟨pre, sigs, rfl, hpre, hsigs⟩, -⟩
    rw [hc] at hpre
    obtain ⟨x, _, hx, hnil, rfl⟩ := List.forall₂_cons_left_iff.1 hpre
    cases hnil
    exact ⟨[x], sigs, rfl, ⟨x, rfl, hx⟩, hsigs, trivial⟩

/-- What each leaf asks for is its content. -/
theorem LeafBounds.ends (hb : LeafBounds it) {c : LeafCall} (h : c.build it n = some leaf) :
    Ends (R.standard sha S) leaf ((c.content it).Met R sha S) (c.content it).keys.length := by
  obtain ⟨hkne, hcne, -⟩ := @LeafBounds.lengths it opNumequal hb
  have hk := checks_multisigGroup (R := R.standard sha S) hkne hb.keepersLen.2
  have hch := checks_multisigGroup (R := R.standard sha S) hcne hb.challengersLen.2
  have hd := checks_keyEntry (R := R.standard sha S) it.depositorPk
  cases c with
  | claim =>
    rw [claimLeaf_eq h]
    exact ends_of_asks rfl (ends_keyEntry _) (by simp [LeafCall.content])
  | htlc0 gi hash =>
    rw [(htlcLeaf0_bytes hb h).1]
    have hvp := checks_keyEntry (R := R.standard sha S) (it.group gi).vaultProviderPk
    have hsigs := hd.asks (hvp.asks (hk.asks (ends_multisigGroup hcne hb.challengersLen.2)))
    rw [← List.cons_append, ← List.append_assoc]
    refine ends_of_hashlock rfl rfl ?_
    simpa [LeafContent.keys, LeafCall.content] using hsigs
  | htlc1 =>
    have hrefund := hb.refund
    rw [htlcLeaf1_eq h]
    exact ends_of_asks rfl (hd.asks (ends_timelock (by omega) (by omega))) (by simp [LeafCall.content])
  | vaultUtxo gi =>
    have hpegin := hb.pegin
    rw [(vaultUtxoLeaf_bytes hb h).1]
    have hvp := checks_keyEntry (R := R.standard sha S) (it.group gi).vaultProviderPk
    have hsigs := hd.asks (hvp.asks (hk.asks (hch.asks
      (ends_timelock (n := it.peginCsvTimelock) (by omega) (by omega)))))
    refine ends_of_asks (P := S.Meets it.peginCsvTimelock) rfl ?_ (by simp [LeafCall.content])
    simpa [LeafContent.keys, LeafCall.content] using hsigs
  | payout gi ci =>
    have hpay := hb.payout
    have happ := hb.appChallengers h
    obtain ⟨hane, -, rfl⟩ := payoutLeaf_eq h
    have hcl := checks_keyEntry (R := R.standard sha S) (claimerPk it gi ci)
    have hsigs := hcl.asks ((checks_multisigGroup hane happ).asks (hch.asks
      (ends_timelock (n := it.payoutTimelock) (by omega) (by omega))))
    refine ends_of_asks (P := S.Meets it.payoutTimelock) rfl ?_ (by simp [LeafCall.content])
    simpa [LeafContent.keys, LeafCall.content] using hsigs
  | nopayout ci =>
    rw [nopayoutLeaf_eq h]
    exact ends_of_asks rfl (hd.asks (ends_keyEntry _)) (by simp [LeafCall.content])

theorem LeafContent.Met.length {c : LeafContent} {args : List Bytes} (h : c.Met R sha S args) :
    args.length ≤ c.keys.length + 1 := by
  obtain ⟨pre, sigs, rfl, hpre, hsigs⟩ := h.elements
  have hp := hpre.length_eq
  have hs := hsigs.length_eq
  have hone : c.hashlock.toList.length ≤ 1 := by cases c.hashlock <;> simp
  rw [List.length_map] at hs
  rw [List.length_append]
  omega

theorem LeafBounds.length_keys (hb : LeafBounds it) {c : LeafCall} (h : c.build it n = some leaf) :
    (c.content it).keys.length ≤ 66 := by
  have hk := hb.keepersLen.2
  have hc := hb.challengersLen.2
  cases c <;> simp only [LeafContent.keys, LeafCall.content, List.length_append, List.length_cons,
    List.length_nil] <;> try omega
  have happ := hb.appChallengers h
  omega

/-- A leaf is satisfied by the witnesses that meet its content, and by no others. -/
theorem LeafBounds.spends_iff (hb : LeafBounds it) {c : LeafCall} {w : List Bytes}
    (h : c.build it n = some leaf) : (R.standard sha S).accepts leaf w = true ↔
      (c.content it).Met R sha S w.reverse ∧ Affords (R.budget w) (c.content it).keys.length ∧
        ∀ b ∈ w, b.length ≤ 520 := by
  refine (hb.ends h).accepts_iff fun args hmet => ?_
  have hl := hmet.length
  have hk := hb.length_keys h
  omega

/-- Each leaf of a loaded intent is spent by those whose it is, when it is time, and by nobody
    else: whatever the signatures, the hash and the spending transaction are. -/
theorem Reach.leaf_spends_iff (h : Reach E ls d) (hl : d.ctx.state = .intentLoaded) (c : LeafCall)
    (hc : c.Valid d.intent) : ∃ leaf, c.build d.intent c.bufSize = some leaf ∧
      ∀ (R : Rules) (sha : Bytes → Bytes) (S : Spend) (w : List Bytes),
        (R.standard sha S).accepts leaf w = true ↔ (c.content d.intent).Met R sha S w.reverse ∧
          Affords (R.budget w) (c.content d.intent).keys.length ∧ ∀ b ∈ w, b.length ≤ 520 := by
  have hb := ((h.session.loaded hl).intent).leafBounds
  obtain ⟨leaf, hleaf, -⟩ := hb.fits hc
  exact ⟨leaf, hleaf, fun R sha S w => hb.spends_iff hleaf⟩

open Signet in
theorem leaf_spends_signet : ∃ leaf,
    (LeafCall.vaultUtxo 0).build (loaded intent).intent scriptMaxLen = some leaf ∧
      ∀ (R : Rules) (sha : Bytes → Bytes) (S : Spend) (w : List Bytes),
        (R.standard sha S).accepts leaf w = true ↔
          ((LeafCall.vaultUtxo 0).content (loaded intent).intent).Met R sha S w.reverse ∧
          Affords (R.budget w) ((LeafCall.vaultUtxo 0).content (loaded intent).intent).keys.length ∧
          ∀ b ∈ w, b.length ≤ 520 := by
  refine (reach_loaded intent).leaf_spends_iff loaded_state (.vaultUtxo 0) ?_
  show 0 < (loaded intent).intent.vaultCount
  rw [loaded_intent]
  decide

end BabylonVault
