/-
  What binds a leaf.

  * `Bip341Commits`: the script-path rule for a tapscript leaf under the NUMS key.
    `taproot_commitment_iff` says when `refundVerifyTaprootCommitment` decides it.
  * `assertPrefix`: the signer prefix of an Assert leaf as a script.
  * `LeafFacts`: what one reading of a whole leaf gives; `Reach.stream_iff` says that a
    streamed reading gives the same, whatever the chunks.
-/
import Mathlib.Data.List.GetD
import BabylonVault.Accept.Leaf
import BabylonVault.Session

namespace BabylonVault
open Bytes Prog

variable {E : Env} {st : SignPsbtState} {s : Session} {p : Psbt} {v v' : Volatile}
  {d : Device} {ls : List Exchange} {it : VaultIntent} {cb script : Bytes} {tls : Tls}

/-! ## The control block -/

/-- The siblings of a control block, from the leaf up. -/
def siblings (cb : Bytes) : List Bytes32 :=
  (List.range ((cb.length - 33) / 32)).map fun i => Buf.slice 32 cb (33 + 32 * i)

/-- A control block of whole steps for a leaf of version `0xC0`. -/
def WellFormedControlBlock (cb : Bytes) : Prop :=
  (∃ k ≤ 128, cb.length = 33 + 32 * k) ∧ cb.headD 0 &&& 0xFE = tapscriptLeafVersion

/-- The script-path rule of BIP-341 for a leaf of version `0xC0` with this hash, under the
    NUMS internal key. -/
structure Bip341Commits (E : Env) (cb : Bytes) (leafHash : Bytes32) (spk : Bytes) : Prop where
  wellFormed : WellFormedControlBlock cb
  internalKey : (cb.drop 1).take 32 = vaultNumsXonly.toList
  output : ∃ parity key, E.tweakPubkey vaultNumsXonly
    (some ((siblings cb).foldl E.combineTaptreeHashes leafHash)) = some (parity, key) ∧
    cb.headD 0 &&& 1 = parity ∧ spk = p2trSpk key

/-- A control block cut back to whole steps, its version bits replaced by `0xC0`. -/
def normalControlBlock (cb : Bytes) : Bytes :=
  (tapscriptLeafVersion ||| cb.headD 0 &&& 1) :: (cb.drop 1).take (32 + 32 * ((cb.length - 33) / 32))

theorem controlBlockSteps_eq : ∀ {n : ℕ} {b : Bytes}, controlBlockSteps n b =
    (List.range n).map fun i => Buf.slice 32 b (32 * i)
  | 0, _ => rfl
  | n + 1, b => by
    rw [controlBlockSteps, controlBlockSteps_eq, List.range_succ_eq_map, List.map_cons,
      List.map_map]
    refine congrArg _ (List.map_congr_left fun i _ => ?_)
    rw [Function.comp_apply, Buf.slice, Buf.slice, List.drop_drop, Nat.mul_succ, Nat.add_comm]

theorem controlBlockRoot_eq {leafHash : Bytes32} :
    controlBlockRoot E cb leafHash = (siblings cb).foldl E.combineTaptreeHashes leafHash := by
  rw [controlBlockRoot, controlBlockSteps_eq, siblings]
  refine congrArg _ (List.map_congr_left fun i _ => ?_)
  rw [Buf.slice, Buf.slice, List.drop_drop]

section NormalForm
variable (h : 33 ≤ cb.length)
include h

theorem length_normalControlBlock :
    (normalControlBlock cb).length = 33 + 32 * ((cb.length - 33) / 32) := by
  rw [normalControlBlock, List.length_cons, List.length_take, List.length_drop]
  omega

omit h in
theorem slice_normalControlBlock {i : ℕ} (hi : i < (cb.length - 33) / 32) :
    Buf.slice 32 (normalControlBlock cb) (33 + 32 * i) = Buf.slice 32 cb (33 + 32 * i) := by
  refine Buf.ofBytes_ext fun j hj => ?_
  simp only [List.getD_eq_getElem?_getD, List.getElem?_drop]
  rw [normalControlBlock, show 33 + 32 * i + j = 32 + 32 * i + j + 1 by omega,
    List.getElem?_cons_succ, List.getElem?_take_of_lt (by omega), List.getElem?_drop]
  congr 2
  omega

theorem siblings_normalControlBlock : siblings (normalControlBlock cb) = siblings cb := by
  have hk : ((normalControlBlock cb).length - 33) / 32 = (cb.length - 33) / 32 := by
    rw [length_normalControlBlock h]
    omega
  rw [siblings, hk]
  exact List.map_congr_left fun i hi => slice_normalControlBlock (List.mem_range.1 hi)

omit h in
theorem key_normalControlBlock :
    ((normalControlBlock cb).drop 1).take 32 = (cb.drop 1).take 32 := by
  rw [normalControlBlock, List.drop_succ_cons, List.drop_zero, List.take_take,
    Nat.min_eq_left (by omega)]

end NormalForm

theorem version_parity (x : UInt8) : (tapscriptLeafVersion ||| x &&& 1) &&& 0xFE = 0xC0 ∧
    (tapscriptLeafVersion ||| x &&& 1) &&& 1 = x &&& 1 := by
  revert x
  exact forall_byte (by decide +kernel)

theorem version_or_parity (x : UInt8) (h : x &&& 0xFE = tapscriptLeafVersion) :
    tapscriptLeafVersion ||| x &&& 1 = x := by
  revert x
  exact forall_byte (by decide +kernel)

/-- The check of the source is the rule of BIP-341 on the normal form. -/
theorem committedBy_iff {leafHash : Bytes32} {spk : Bytes}
    (hcb : tls.controlBlock.length ≤ controlBlockMaxLen) :
    CommittedBy E tls leafHash spk ↔
      Bip341Commits E (normalControlBlock tls.controlBlock) leafHash spk := by
  set cb := tls.controlBlock
  unfold controlBlockMaxLen at hcb
  constructor
  · rintro ⟨h33, hkey, key, htweak, hspk⟩
    rw [controlBlockRoot_eq] at htweak
    refine ⟨⟨⟨(cb.length - 33) / 32, by omega, length_normalControlBlock h33⟩,
      (version_parity _).1⟩, key_normalControlBlock.trans hkey, _, key, ?_, rfl, hspk⟩
    rw [siblings_normalControlBlock h33]
    exact htweak.trans (congrArg _ (congrArg (·, key) (version_parity _).2.symm))
  · rintro ⟨⟨⟨k, -, hlen⟩, -⟩, hkey, parity, key, htweak, hpar, hspk⟩
    have h33 : 33 ≤ cb.length := by
      rw [normalControlBlock, List.length_cons, List.length_take, List.length_drop] at hlen
      omega
    rw [siblings_normalControlBlock h33] at htweak
    refine ⟨h33, key_normalControlBlock.symm.trans hkey, key, ?_, hspk⟩
    rw [controlBlockRoot_eq, htweak, ← hpar]
    exact congrArg _ (congrArg (·, key) (version_parity _).2)

theorem normalControlBlock_of_wellFormed (h : WellFormedControlBlock cb) :
    normalControlBlock cb = cb := by
  obtain ⟨⟨k, -, hlen⟩, hver⟩ := h
  rcases cb with _ | ⟨x, cb⟩
  · simp at hlen
    omega
  · rw [List.length_cons] at hlen
    rw [normalControlBlock, List.headD_cons, version_or_parity x hver, List.drop_succ_cons, List.drop_zero,
      List.take_of_length_le]
    rw [List.length_cons]
    omega

/-- What `refundVerifyTaprootCommitment` accepts. -/
theorem refundVerifyTaprootCommitment_iff {ans : ∀ q, readIface.Ans q} {spk : Bytes} :
    ((refundVerifyTaprootCommitment E tls spk).eval ans v).1 = .ok () ↔
      CommittedBy E tls v.leaf.hash spk := by
  have hvia {v' : Volatile} :
      (refundVerifyTaprootCommitment E tls spk).Via (fun q a => ans q = a) v () v' ↔
        CommittedBy E tls v.leaf.hash spk ∧ v = v' := by
    rw [← via_bind_pure, refundVerifyTaprootCommitment_bind, via_pure]
    simp
  constructor
  · intro h
    exact (hvia.1 (via_eval.2 (Prod.ext h rfl))).1
  · intro h
    exact congrArg Prod.fst (via_eval.1 (hvia.2 ⟨h, rfl⟩))

/-- The state after a leaf with this script was read. -/
def Volatile.withLeaf (E : Env) (script : Bytes) (v : Volatile) : Volatile :=
  { v with leaf := { v.leaf with hash := vaultTaprootLeafHash E script } }

/-- The check decides the rule of BIP-341, except for a control block that is not well
    formed and whose normal form commits to the leaf. -/
theorem taproot_commitment_iff (E : Env) (tls : Tls) (script spk : Bytes) (v : Volatile)
    (ans : ∀ q, readIface.Ans q) (hcb : tls.controlBlock.length ≤ controlBlockMaxLen) :
    (((refundVerifyTaprootCommitment E tls spk).eval ans (v.withLeaf E script)).1 = .ok () ↔
        Bip341Commits E tls.controlBlock (vaultTaprootLeafHash E script) spk) ↔
      (WellFormedControlBlock tls.controlBlock ∨ ¬Bip341Commits E
        (normalControlBlock tls.controlBlock) (vaultTaprootLeafHash E script) spk) := by
  rw [refundVerifyTaprootCommitment_iff, committedBy_iff hcb]
  show (Bip341Commits E (normalControlBlock tls.controlBlock) (vaultTaprootLeafHash E script) spk ↔
    Bip341Commits E tls.controlBlock (vaultTaprootLeafHash E script) spk) ↔ _
  constructor
  · intro h
    by_cases hn : Bip341Commits E (normalControlBlock tls.controlBlock)
        (vaultTaprootLeafHash E script) spk
    · exact .inl (h.1 hn).wellFormed
    · exact .inr hn
  · rintro (hw | hn)
    · rw [normalControlBlock_of_wellFormed hw]
    · refine ⟨fun h => absurd h hn, fun h => ?_⟩
      rwa [normalControlBlock_of_wellFormed h.wellFormed]

namespace Signet

/-- The claim leaf of the depositor. -/
def claimLeaf : Bytes := keyEntry (.be 32 depositorKey) opChecksig

/-- A leaf found behind a control block. -/
def foundBehind (cb : Bytes) : Tls := { Tls.zero with found := true, controlBlock := cb }

/-- Under a control block that opens the claim output. -/
def claimBlock : Tls := foundBehind ((tapscriptLeafVersion ||| claimOut.1) :: vaultNumsXonly.toList)

/-- Under one with another leaf version, and three bytes that are no sibling. -/
def looseBlock : Tls := foundBehind (claimOut.1 :: (vaultNumsXonly.toList ++ [1, 2, 3]))

/-- Answers where nothing is asked. -/
def noAnswers : ∀ q, readIface.Ans q := Psbt.serve ⟨[], [], []⟩

end Signet

open Signet in
theorem taproot_commitment_claim :
    ((refundVerifyTaprootCommitment env claimBlock (spk claimOut)).eval noAnswers
        (Volatile.withLeaf env claimLeaf ⟨.zero, .zero⟩)).1 = .ok () ↔
      Bip341Commits env claimBlock.controlBlock (vaultTaprootLeafHash env claimLeaf)
        (spk claimOut) :=
  (taproot_commitment_iff env claimBlock claimLeaf (spk claimOut) ⟨.zero, .zero⟩ noAnswers
    (by decide)).2 (.inl ⟨⟨0, by decide, by decide⟩, by decide⟩)

open Signet in
/-- A control block that opens nothing is accepted. -/
theorem taproot_commitment_loose :
    ((refundVerifyTaprootCommitment env looseBlock (spk claimOut)).eval noAnswers
        (Volatile.withLeaf env claimLeaf ⟨.zero, .zero⟩)).1 = .ok () ∧
      ¬Bip341Commits env looseBlock.controlBlock (vaultTaprootLeafHash env claimLeaf)
        (spk claimOut) := by
  refine ⟨by decide +kernel, fun h => ?_⟩
  obtain ⟨⟨k, -, hlen⟩, -⟩ := h.wellFormed
  have hlen' : 36 = 33 + 32 * k := hlen
  omega

/-! ## The Assert signer prefix -/

/-- The signer prefix of an Assert leaf. -/
def assertPrefix (it : VaultIntent) : Bytes :=
  keyEntry it.depositorPk opChecksigverify ++ multisigGroup it.keepers opNumequalverify ++
    multisigGroup it.challengers opNumequalverify

/-- The entries of a signer list, without its count. -/
def keyEntries : List Bytes32 → Bytes
  | [] => []
  | key :: rest => keyEntry key opChecksig ++ rest.flatMap (keyEntry · opChecksigadd)

theorem multisigGroup_eq {keys : List Bytes32} {op : UInt8} (h : keys ≠ []) :
    multisigGroup keys op = keyEntries keys ++ (pushNumber keys.length ++ [op]) := by
  cases keys with
  | nil => exact absurd rfl h
  | cons key rest => simp [multisigGroup, keyEntries]

@[simp] theorem length_keyEntry {key : Bytes32} {op : UInt8} : (keyEntry key op).length = 34 := by
  simp [keyEntry]

theorem length_flatMap_keyEntry {op : UInt8} : ∀ {keys : List Bytes32},
    (keys.flatMap (keyEntry · op)).length = 34 * keys.length
  | [] => rfl
  | key :: keys => by
    rw [List.flatMap_cons, List.length_append, length_flatMap_keyEntry, length_keyEntry,
      List.length_cons]
    omega

@[simp] theorem length_keyEntries : ∀ {keys : List Bytes32}, (keyEntries keys).length = 34 * keys.length
  | [] => rfl
  | key :: keys => by
    rw [keyEntries, List.length_append, length_flatMap_keyEntry, length_keyEntry, List.length_cons]
    omega

/-- A byte of an entry. -/
theorem getD_keyEntry {key : Bytes32} {op : UInt8} {k : ℕ} (hk : k < 34) :
    (keyEntry key op).getD k 0 =
      if k = 0 then opPushbytes32 else if k < 33 then key.toList.getD (k - 1) 0 else op := by
  have hl : key.toList.length = 32 := key.toList_length
  rcases k with _ | k
  · rfl
  · rw [keyEntry, List.cons_append, List.getD_cons_succ, if_neg (Nat.succ_ne_zero k),
      Nat.succ_sub_one]
    split_ifs with h
    · rw [List.getD_append _ _ _ _ (by omega)]
    · rw [List.getD_append_right _ _ _ _ (by omega), show k - key.toList.length = 0 by omega]
      rfl

/-- A byte of a list of entries. -/
theorem getD_flatMap_keyEntry {op : UInt8} : ∀ {keys : List Bytes32} {off : ℕ},
    off < 34 * keys.length → (keys.flatMap (keyEntry · op)).getD off 0 =
      (keyEntry (keys.getD (off / 34) default) op).getD (off % 34) 0
  | key :: keys, off, h => by
    rw [List.flatMap_cons]
    by_cases hoff : off < 34
    · rw [List.getD_append _ _ _ _ (by simpa using hoff), Nat.div_eq_of_lt hoff,
        Nat.mod_eq_of_lt hoff]
      rfl
    · rw [List.length_cons] at h
      rw [List.getD_append_right _ _ _ _ (by simp; omega), length_keyEntry,
        getD_flatMap_keyEntry (by omega), show off / 34 = (off - 34) / 34 + 1 by omega,
        show off % 34 = (off - 34) % 34 by omega]
      rfl

/-- A byte of the entries of a signer list. -/
theorem getD_keyEntries {keys : List Bytes32} {off : ℕ} (h : off < 34 * keys.length) :
    (keyEntries keys).getD off 0 = (keyEntry (keys.getD (off / 34) default)
      (if off / 34 = 0 then opChecksig else opChecksigadd)).getD (off % 34) 0 := by
  cases keys with
  | nil => simp at h
  | cons key keys =>
    rw [keyEntries]
    by_cases hoff : off < 34
    · rw [List.getD_append _ _ _ _ (by simpa using hoff), Nat.div_eq_of_lt hoff,
        Nat.mod_eq_of_lt hoff]
      rfl
    · rw [List.length_cons] at h
      rw [List.getD_append_right _ _ _ _ (by simp; omega), length_keyEntry,
        getD_flatMap_keyEntry (by omega), show off / 34 = (off - 34) / 34 + 1 by omega,
        show off % 34 = (off - 34) % 34 by omega, if_neg (Nat.succ_ne_zero _)]
      rfl

/-- The source's byte of a group is that of the group as written. -/
theorem prefixGroupByte_eq (f : ℕ → Bytes32) (off : ℕ) {keys : List Bytes32} (hne : keys ≠ [])
    (hf : ∀ i < keys.length, f i = keys.getD i default) :
    prefixGroupByte f keys.length off =
      if off < (multisigGroup keys opNumequalverify).length then
        .inl ((multisigGroup keys opNumequalverify).getD off 0)
      else .inr (off - (multisigGroup keys opNumequalverify).length) := by
  have hlen : (multisigGroup keys opNumequalverify).length =
      34 * keys.length + (pushNumber keys.length).length + 1 := by
    simp [multisigGroup_eq hne]
    omega
  rw [hlen, multisigGroup_eq hne, prefixGroupByte]
  by_cases h1 : off < 34 * keys.length
  · have hlt : off < 34 * keys.length + (pushNumber keys.length).length + 1 := by omega
    rw [if_pos h1, if_pos hlt, List.getD_append _ _ _ _ (by simpa using h1), getD_keyEntries h1, getD_keyEntry (Nat.mod_lt _ (by omega)), ← hf _ (by omega)]
    dsimp only
    split_ifs <;> rfl
  · rw [if_neg h1, List.getD_append_right _ _ _ _ (by simp; omega), length_keyEntries]
    by_cases h2 : off - 34 * keys.length < (pushNumber keys.length).length
    · simp only [if_pos h2]
      rw [if_pos (by omega), List.getD_append _ _ _ _ h2]
    · simp only [if_neg h2]
      by_cases h3 : off - 34 * keys.length = (pushNumber keys.length).length
      · rw [if_pos h3, if_pos (by omega), List.getD_append_right _ _ _ _ (by omega), h3,
          Nat.sub_self]
        rfl
      · rw [if_neg h3, if_neg (by omega)]
        congr 1
        omega

/-- The keys of a group, as the source indexes them. -/
theorem pick_eq_getD {n k i : ℕ} {l : List.Vector Bytes32 n} (hi : i < (l.upto k).length) :
    l.pick i = (l.upto k).getD i default := by
  rw [List.getD_eq_getElem _ _ hi, List.Vector.getElem_upto hi]

theorem getElem?_eq_getD {l : Bytes} {i : ℕ} (h : i < l.length) : l[i]? = some (l.getD i 0) := by
  rw [List.getD_eq_getElem _ _ h, List.getElem?_eq_getElem h]

/-- The source's Assert prefix is the script. -/
theorem assertPrefix_spec (hk : 1 ≤ it.keeperCount ∧ it.keeperCount ≤ maxKeepers)
    (hc : 1 ≤ it.challengerCount ∧ it.challengerCount ≤ maxChallengers) :
    vaultAssertPrefixLen it = some (assertPrefix it).length ∧
      ∀ off, vaultAssertPrefixByte it off = (assertPrefix it)[off]? := by
  have hkl : it.keepers.length = it.keeperCount := List.Vector.length_upto hk.2
  have hcl : it.challengers.length = it.challengerCount := List.Vector.length_upto hc.2
  have hkne : it.keepers ≠ [] := List.ne_nil_of_length_pos (by omega)
  have hcne : it.challengers ≠ [] := List.ne_nil_of_length_pos (by omega)
  have hzero : ¬(it.keeperCount = 0 ∨ it.challengerCount = 0) := by omega
  constructor
  · rw [vaultAssertPrefixLen, if_neg hzero, assertPrefix, multisigGroup_eq hkne,
      multisigGroup_eq hcne, multisigGroupLen, multisigGroupLen]
    simp [hkl, hcl]
    omega
  · intro off
    have hkg := prefixGroupByte_eq it.keeperPks.pick (off - 34) hkne fun i hi =>
      pick_eq_getD hi
    have hcg (off : ℕ) := prefixGroupByte_eq it.challengerPks.pick off hcne
      fun i hi => pick_eq_getD hi
    rw [hkl] at hkg
    rw [hcl] at hcg
    have hk34 : (keyEntry it.depositorPk opChecksigverify).length = 34 := length_keyEntry
    rw [vaultAssertPrefixByte, if_neg hzero, hkg, assertPrefix, List.append_assoc]
    by_cases hoff : off < 34
    · rw [List.getElem?_append_left (by omega), getElem?_eq_getD (by omega), getD_keyEntry hoff]
      split_ifs
      · rfl
      · rfl
      · rfl
      · omega
      · omega
    · rw [if_neg (show ¬off = 0 by omega), if_neg (show ¬off < 33 by omega),
        if_neg (show ¬off = 33 by omega), List.getElem?_append_right (by omega), hk34]
      by_cases hfirst : off - 34 < (multisigGroup it.keepers opNumequalverify).length
      · rw [if_pos hfirst, List.getElem?_append_left hfirst, getElem?_eq_getD hfirst]
      · rw [if_neg hfirst, List.getElem?_append_right (Nat.le_of_not_lt hfirst)]
        dsimp only
        rw [hcg]
        by_cases hlast : off - 34 - (multisigGroup it.keepers opNumequalverify).length <
            (multisigGroup it.challengers opNumequalverify).length
        · rw [if_pos hlast, getElem?_eq_getD hlast]
        · rw [if_neg hlast, List.getElem?_eq_none (Nat.le_of_not_lt hlast)]

/-! ## The streamed leaf -/

/-- What one reading of a whole leaf script gives. -/
structure LeafFacts (E : Env) (s : Session) (script : Bytes) (tls : Tls) (leaf : LeafMeta) :
    Prop where
  hash : leaf.hash = vaultTaprootLeafHash E script
  pfx : leaf.pfx.toList = script.take 68 ++ List.replicate (68 - script.length) 0
  lastByte : script.getLast? = some leaf.lastByte
  length : tls.leafScriptLen = script.length
  buffered : leaf.buffered = true ↔ script.length ≤ 2560
  whole : leaf.buffered = true → tls.leafScript = script
  signers : leaf.assertPrefixOk = true ↔ s.ctx.state = .intentLoaded ∧
    (assertPrefix s.intent).length < script.length ∧ assertPrefix s.intent <+: script

/-- The host hands over the value, in order, in chunks of its choice: the length first,
    then some of the bytes. -/
structure Delivers (r : Streamed) (value : Bytes) : Prop where
  declared : r.declared = some value.length
  order : r.chunks.flatten <+: value

/-- The value is a tapscript leaf, and all of it was delivered. -/
structure Complete (r : Streamed) (value : Bytes) : Prop where
  length : 2 ≤ value.length ∧ value.length ≤ 16384
  delivered : r.chunks.flatten.length = value.length
  rc : r.rc = some value.length
  version : value.getLast? = some 0xC0

theorem complete_iff {r : Streamed} {value : Bytes} (h : Delivers r value) :
    Complete r value ↔ ∃ script, StreamOk r script := by
  have hfull : r.chunks.flatten.length = value.length ↔ r.chunks.flatten = value :=
    ⟨h.order.eq_of_length, congrArg List.length⟩
  constructor
  · rintro ⟨⟨h2, hmax⟩, hlen, hrc, hver⟩
    obtain ⟨script, rfl⟩ : ∃ script, value = script ++ [tapscriptLeafVersion] :=
      ⟨value.dropLast, (List.dropLast_append_getLast? _ hver).symm⟩
    rw [List.length_append] at h2 hmax hrc
    have hdecl := h.declared
    rw [List.length_append] at hdecl
    exact ⟨script, hdecl, hrc, hfull.1 hlen, by simpa using h2, hmax⟩
  · rintro ⟨script, hdecl, hrc, hbytes, hpos, hle⟩
    have hlen : value.length = script.length + 1 := Option.some.inj (h.declared.symm.trans hdecl)
    have hval : value = script ++ [tapscriptLeafVersion] := by
      rw [← hfull.1, hbytes]
      rw [hbytes, hlen]
      simp
    unfold assertScriptMaxLen at hle
    refine ⟨by omega, by rw [hbytes, hlen]; simp, by rw [hrc, hlen], ?_⟩
    rw [hval, List.getLast?_concat]
    rfl

/-- `assert_prefix_ok`, on the whole script. -/
theorem prefixOk_iff (h : s.ctx.state = .intentLoaded → LoadedIntent E s.intent) :
    prefixOk s script = true ↔ s.ctx.state = .intentLoaded ∧
      (assertPrefix s.intent).length < script.length ∧ assertPrefix s.intent <+: script := by
  by_cases hl : s.ctx.state = .intentLoaded
  · obtain ⟨hk, hc, -⟩ := (h hl).scalars.counts
    obtain ⟨hlen, hbyte⟩ := assertPrefix_spec hk hc
    have hpos : 0 < (assertPrefix s.intent).length := by
      simp [assertPrefix]
    simp only [prefixOk, hl, if_true, hlen, hbyte, hpos, decide_true, Bool.true_and,
      Bool.and_eq_true, decide_eq_true_eq, true_and]
    rw [and_comm, List.prefix_iff_getElem?]
    refine and_congr_right fun _ => forall_congr' fun i => forall_congr' fun hi => ?_
    rw [List.getElem?_eq_getElem hi, eq_comm]
  · simp [prefixOk, hl]

/-- What is left behind of a leaf with this script. -/
theorem leafFacts_of (h : s.ctx.state = .intentLoaded → LoadedIntent E s.intent)
    (hpos : 1 ≤ script.length) : LeafFacts E s script (tlsOf cb script) (leafMetaOf E s script) := by
  have hbuf : (leafMetaOf E s script).buffered = true ↔ script.length ≤ 2560 :=
    decide_eq_true_iff
  refine ⟨rfl, ?_, ?_, rfl, hbuf, fun hb => if_pos (hbuf.1 hb), prefixOk_iff h⟩
  · show (Buf.ofBytes 68 script).toList = _
    rcases Nat.le_total script.length 68 with hle | hge
    · rw [Buf.toList_ofBytes_le hle, List.take_of_length_le hle]
    · rw [Nat.sub_eq_zero_of_le hge, List.replicate_zero, List.append_nil]
      exact List.takeD_eq_take _ hge
  · have hne : script ≠ [] := List.ne_nil_of_length_pos hpos
    show script.getLast? = some (script.getLastD 0)
    rw [List.getLastD_eq_getLast?, List.getLast?_eq_some_getLast hne, Option.getD_some]

/-- What the host hands over, where a value is streamed. -/
def streamAnswers (r : Streamed) : ∀ q, readIface.Ans q
  | .stream .. => r
  | .map .. => false
  | .value .. => none
  | .field .. => .error
  | .keys .. => ([], false)
  | .show .. => false

/-- `_stream_tap_leaf_value` for a leaf found behind a control block. -/
def streamLeafValue (E : Env) (s : Session) (m : MapRef) (i : ℕ) (cb : Bytes) (r : Streamed)
    (v : Volatile) : Except Stop (Tls × Bool) × Volatile :=
  (streamTapLeafValue E s m i (tlsFound cb)).eval (streamAnswers r) v

theorem streamLeafValue_iff {m : MapRef} {i : ℕ} {r : Streamed} {value : Bytes}
    (hv : v.leaf = .zero) (h : Delivers r value) {tls : Tls} :
    streamLeafValue E s m i cb r v = (.ok (tls, true), v') ↔ Complete r value ∧
      tls = tlsOf cb value.dropLast ∧ v' = { v with leaf := leafMetaOf E s value.dropLast } := by
  have hval {script : Bytes} (hok : StreamOk r script) : value.dropLast = script := by
    have hc := (complete_iff h).2 ⟨script, hok⟩
    rw [← h.order.eq_of_length hc.delivered, hok.bytes, List.dropLast_concat]
  rw [streamLeafValue, ← via_eval, streamTapLeafValue_true hv, complete_iff h]
  constructor
  · rintro ⟨r', script, hr, hok, rfl, rfl⟩
    have hr : r = r' := hr
    subst hr
    rw [hval hok]
    exact ⟨⟨script, hok⟩, rfl, rfl⟩
  · rintro ⟨⟨script, hok⟩, rfl, rfl⟩
    rw [hval hok]
    exact ⟨r, script, rfl, hok, rfl, rfl⟩

/-- A leaf is taken as if it were read in one piece, however the host splits it. -/
theorem Reach.stream_iff (h : Reach E ls d) (m : MapRef) (i : ℕ) (cb : Bytes)
    (hv : v.leaf = .zero) {r : Streamed} {value : Bytes} (hr : Delivers r value) :
    ((∃ tls, (streamLeafValue E d.session m i cb r v).1 = .ok (tls, true)) ↔ Complete r value) ∧
      (∀ tls, (streamLeafValue E d.session m i cb r v).1 = .ok (tls, true) →
        LeafFacts E d.session value.dropLast tls
            (streamLeafValue E d.session m i cb r v).2.leaf ∧
          streamLeafValue E d.session m i cb r v = streamLeafValue E d.session m i cb
            ⟨some value.length, [value], some value.length⟩ v) := by
  have hiff (tls v') : streamLeafValue E d.session m i cb r v = (.ok (tls, true), v') ↔ _ :=
    streamLeafValue_iff hv hr
  have hrun (hc : Complete r value) := (hiff _ _).2 ⟨hc, rfl, rfl⟩
  constructor
  · constructor
    · rintro ⟨tls, ht⟩
      exact ((hiff tls _).1 (Prod.ext ht rfl)).1
    · intro hc
      exact ⟨_, congrArg Prod.fst (hrun hc)⟩
  · intro tls ht
    obtain ⟨hc, rfl, -⟩ := (hiff tls _).1 (Prod.ext ht rfl)
    have hpos : 1 ≤ value.dropLast.length := by
      rw [List.length_dropLast]
      have := hc.length.1
      omega
    have hone : Delivers ⟨some value.length, [value], some value.length⟩ value :=
      ⟨rfl, by simp⟩
    have hcone : Complete ⟨some value.length, [value], some value.length⟩ value :=
      ⟨hc.length, by simp, rfl, hc.version⟩
    rw [hrun hc, (streamLeafValue_iff hv hone).2 ⟨hcone, rfl, rfl⟩]
    exact ⟨leafFacts_of (fun hl => (h.session.loaded hl).intent) hpos, rfl⟩

open Signet in
theorem stream_claim_leaf : ∃ tls, (streamLeafValue env (loaded intent).session (.input 0) 3 []
    ⟨some 35, [claimLeaf.take 20, [], claimLeaf.drop 20 ++ [0xC0]], some 35⟩
    ⟨.zero, .zero⟩).1 = .ok (tls, true) := by
  have hr : Delivers ⟨some 35, [claimLeaf.take 20, [], claimLeaf.drop 20 ++ [0xC0]], some 35⟩
      (claimLeaf ++ [0xC0]) := ⟨rfl, by decide⟩
  exact ((reach_loaded intent).stream_iff (.input 0) 3 [] rfl hr).1.2
    ⟨by decide, by decide, by decide, by decide⟩

end BabylonVault
