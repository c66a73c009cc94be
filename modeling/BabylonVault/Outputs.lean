/-
  Who can spend the outputs that hold the money of an intent.

  * `Bip341Opens`, `Bip341Spends`: the script path of BIP-341, for any internal key, leaf
    version and depth.
  * `OutputCall`: the outputs whose scriptPubKey the device builds, with the leaves under it.
  * `Reach.output_spends`: they are spent by the witnesses that their leaves are meant for, and
    by nobody else.
  * `Reach.output_custody`: none of them moves unless the device has signed that leaf.
-/
import BabylonVault.Commitment
import BabylonVault.Custody
import BabylonVault.Lib.ScriptTree
import BabylonVault.Lib.Tx
import BabylonVault.Recoverable

namespace BabylonVault
open Bytes Tapscript Rules

variable {E : Env} {it : VaultIntent} {cb script spk : Bytes} {R : Rules} {sha : Bytes → Bytes}
  {S : Spend} {w : List Bytes} {c : LeafCall} {d d' : Device} {ls ls' : List Exchange}
  {x m : Bytes32}

/-! ## The script path -/

/-- What is hashed for a script under a leaf version. -/
def tapleafInput (version : UInt8) (script : Bytes) : Bytes :=
  version :: varintWrite script.length ++ script

/-- The internal key that a control block names. -/
def internalKey (cb : Bytes) : Bytes32 := Buf.slice 32 cb 1

/-- The leaf version that it names. -/
def leafVersion (cb : Bytes) : UInt8 := cb.headD 0 &&& 0xFE

/-- The root that it leads to from a script. -/
def openRoot (E : Env) (cb script : Bytes) : Bytes32 :=
  ScriptTree.climb E.combineTaptreeHashes (E.tapleafHash (tapleafInput (leafVersion cb) script))
    (siblings cb)

/-- A control block opens a scriptPubKey at a script, as BIP-341 has it. -/
structure Bip341Opens (E : Env) (cb script spk : Bytes) : Prop where
  steps : ∃ k ≤ 128, cb.length = 33 + 32 * k
  sized : script.length < 256 ^ 8
  output : ∃ parity key, E.tweakPubkey (internalKey cb) (some (openRoot E cb script)) =
    some (parity, key) ∧ cb.headD 0 &&& 1 = parity ∧ spk = p2trSpk key

/-- A witness spends it: the script accepts, or has a leaf version without rules. -/
structure Bip341Spends (E : Env) (R : Rules) (sha : Bytes → Bytes) (S : Spend)
    (spk cb script : Bytes) (w : List Bytes) : Prop where
  opens : Bip341Opens E cb script spk
  accepts : leafVersion cb = tapscriptLeafVersion → (R.standard sha S).accepts script w = true

theorem tapleafInput_inj {v v' : UInt8} {script script' : Bytes} (hs : script.length < 256 ^ 8)
    (hs' : script'.length < 256 ^ 8) (h : tapleafInput v script = tapleafInput v' script') :
    v = v' ∧ script = script' := by
  obtain ⟨rfl, hrest⟩ := List.cons.inj h
  obtain ⟨hlen, hrest⟩ := delimits_compactSize hs hs' hrest
  exact ⟨rfl, hrest⟩

theorem LeafCall.bufSize_lt (c : LeafCall) : c.bufSize < 256 ^ 8 := by
  cases c <;> simp [bufSize, scriptMaxLen, p2trSpkLen, nopayoutLeafLen]

/-- The output key of an internal key and a root. -/
def outputKey (E : Env) (x : Bytes32 × Bytes32) : Option Bytes32 :=
  (E.tweakPubkey x.1 (some x.2)).map (·.2)

theorem p2trSpk_inj {key key' : Bytes32} (h : p2trSpk key = p2trSpk key') : key = key' :=
  Buf.toList_inj.1 (List.cons.inj (List.cons.inj h).2).2

/-! ## Outputs -/

/-- The outputs whose scriptPubKey the device builds. -/
inductive OutputCall
  | htlc (gi : ℕ) (h : Bytes32)
  | vaultUtxo (gi : ℕ)
  | claim

namespace OutputCall

/-- The builder. -/
def build (E : Env) (it : VaultIntent) : OutputCall → Option Bytes
  | htlc gi h => vaultBuildHtlcScriptpubkey E it gi h
  | vaultUtxo gi => vaultBuildVaultUtxoScriptpubkey E it gi
  | claim => vaultBuildDepositorClaimScriptpubkey E it

/-- The leaves under it. -/
def leaves : OutputCall → ScriptTree LeafCall
  | htlc gi h => .node (.leaf (.htlc0 gi h)) (.leaf .htlc1)
  | vaultUtxo gi => .leaf (.vaultUtxo gi)
  | claim => .leaf .claim

/-- The index is one of the intent. -/
def Valid (it : VaultIntent) : OutputCall → Prop
  | htlc gi _ | vaultUtxo gi => gi < it.vaultCount
  | claim => True

/-- What is hashed for its leaves. -/
def tree (it : VaultIntent) (o : OutputCall) : ScriptTree Bytes :=
  o.leaves.map fun c => tapleafInput tapscriptLeafVersion ((c.build it c.bufSize).getD [])

variable {o : OutputCall}

theorem valid_leaf (ho : o.Valid it) (hc : c ∈ o.leaves.leaves) : c.Valid it := by
  cases o <;> simp only [leaves, ScriptTree.leaves, List.mem_append, List.mem_singleton] at hc
  · rcases hc with rfl | rfl
    · exact ho
    · trivial
  · subst hc
    exact ho
  · subst hc
    trivial

theorem length_leaves (o : OutputCall) : o.leaves.leaves.length ≤ 2 := by
  cases o <;> simp [leaves, ScriptTree.leaves]

/-- The builder's scriptPubKey is that of the tree, under the NUMS key. -/
theorem build_eq (hb : LeafBounds it) (ho : o.Valid it) : o.build E it =
    (outputKey E (vaultNumsXonly, (o.tree it).root E.tapleafHash E.combineTaptreeHashes)).map
      p2trSpk := by
  have hfit : ∀ c ∈ o.leaves.leaves, ∃ leaf, c.build it c.bufSize = some leaf := fun c hc =>
    (hb.fits (valid_leaf ho hc)).imp fun _ h => h.1
  rw [outputKey, Option.map_map]
  cases o with
  | htlc gi h =>
    obtain ⟨leaf0, h0⟩ := hfit (.htlc0 gi h) (by simp [leaves, ScriptTree.leaves])
    obtain ⟨leaf1, h1⟩ := hfit .htlc1 (by simp [leaves, ScriptTree.leaves])
    have h0' : vaultBuildHtlcLeaf0 it gi h scriptMaxLen = some leaf0 := h0
    have h1' : vaultBuildHtlcLeaf1 it scriptMaxLen = some leaf1 := h1
    show vaultBuildHtlcScriptpubkey E it gi h = _
    simp only [tree, leaves, ScriptTree.map, ScriptTree.root, h0, h1, vaultBuildHtlcScriptpubkey,
      vaultBuildHtlcMerkleRoot, h0', h1']
    rfl
  | vaultUtxo gi =>
    obtain ⟨leaf, h⟩ := hfit (.vaultUtxo gi) (by simp [leaves, ScriptTree.leaves])
    have h' : vaultBuildVaultUtxoLeaf it gi scriptMaxLen = some leaf := h
    show vaultBuildVaultUtxoScriptpubkey E it gi = _
    simp only [tree, leaves, ScriptTree.map, ScriptTree.root, h, vaultBuildVaultUtxoScriptpubkey, h']
    rfl
  | claim =>
    obtain ⟨leaf, h⟩ := hfit .claim (by simp [leaves, ScriptTree.leaves])
    have h' : vaultBuildDepositorClaimLeaf it p2trSpkLen = some leaf := h
    show vaultBuildDepositorClaimScriptpubkey E it = _
    simp only [tree, leaves, ScriptTree.map, ScriptTree.root, h,
      vaultBuildDepositorClaimScriptpubkey, h']
    rfl

end OutputCall

/-- Two inputs that the script path or the builder hashes, or the two tweaks, have one result. -/
inductive TaprootClash (E : Env) (it : VaultIntent) (o : OutputCall) (cb script : Bytes) : Prop
  | tweak : Collides (outputKey E) (internalKey cb, openRoot E cb script)
      (vaultNumsXonly, (o.tree it).root E.tapleafHash E.combineTaptreeHashes) →
      TaprootClash E it o cb script
  | hash : ScriptTree.Clash E.tapleafHash E.combineTaptreeHashes
      (ScriptTree.openInputs E.tapleafHash E.combineTaptreeHashes
        (tapleafInput (leafVersion cb) script) (siblings cb))
      ((o.tree it).inputs E.tapleafHash E.combineTaptreeHashes) → TaprootClash E it o cb script

variable {o : OutputCall}

/-- What opens an output is one of its leaves, under the version of tapscript. -/
theorem Bip341Opens.leaf (hb : LeafBounds it) (ho : o.Valid it) (hspk : o.build E it = some spk)
    (h : Bip341Opens E cb script spk) :
    (leafVersion cb = tapscriptLeafVersion ∧
      ∃ c ∈ o.leaves.leaves, c.build it c.bufSize = some script) ∨
        TaprootClash E it o cb script := by
  obtain ⟨parity, key, htweak, -, rfl⟩ := h.output
  rw [OutputCall.build_eq hb ho] at hspk
  obtain ⟨key', hkey', hspk⟩ := Option.map_eq_some_iff.1 hspk
  obtain rfl := p2trSpk_inj hspk
  have hkey : outputKey E (internalKey cb, openRoot E cb script) = some key' := by
    rw [outputKey, htweak]
    rfl
  rcases Collides.eq_or_collides (hkey.trans hkey'.symm) with heq | hcol
  · obtain ⟨-, hroot⟩ := Prod.mk.inj heq
    rcases ScriptTree.climb_eq_root hroot with hway | hclash
    · have hmem := hway.mem
      rw [OutputCall.tree, ScriptTree.leaves_map] at hmem
      obtain ⟨c, hc, hin⟩ := List.mem_map.1 hmem
      obtain ⟨leaf, hleaf, hlen⟩ := hb.fits (OutputCall.valid_leaf ho hc)
      rw [hleaf, Option.getD_some] at hin
      obtain ⟨hver, rfl⟩ := tapleafInput_inj (hlen.trans_lt c.bufSize_lt) h.sized hin
      exact .inl ⟨hver.symm, c, hc, hleaf⟩
    · exact .inr (.hash hclash)
  · exact .inr (.tweak hcol)

/-! ## The control block of a leaf -/

theorem controlBlockSteps_flatMap : ∀ ss : List Bytes32,
    controlBlockSteps ss.length (ss.flatMap fun s => s.toList) = ss
  | [] => rfl
  | s :: ss => by
    have h32 : s.toList.length = 32 := s.toList_length
    rw [List.flatMap_cons, List.length_cons, controlBlockSteps, List.drop_left' h32,
      controlBlockSteps_flatMap ss]
    refine congrArg (· :: ss) (Buf.toList_inj.1 ?_)
    show (s.toList ++ _).takeD 32 0 = s.toList
    rw [List.takeD_eq_take _ (by simp [h32]), List.take_left' h32]

theorem siblings_flatMap {head : UInt8} {key : Bytes32} {ss : List Bytes32} :
    siblings (head :: (key.toList ++ ss.flatMap fun s => s.toList)) = ss := by
  have h32 : key.toList.length = 32 := key.toList_length
  have hlen := length_hashes ss
  set cb := head :: (key.toList ++ ss.flatMap fun s => s.toList) with hcb
  have hl : (cb.length - 33) / 32 = ss.length := by
    rw [hcb, List.length_cons, List.length_append, h32, hlen]
    omega
  have hdrop : cb.drop 33 = ss.flatMap fun s => s.toList := by
    rw [hcb, List.drop_succ_cons, List.drop_left' h32]
  have h := @controlBlockSteps_eq ss.length (cb.drop 33)
  rw [hdrop, controlBlockSteps_flatMap] at h
  rw [siblings, hl]
  refine Eq.trans (List.map_congr_left fun i _ => ?_) h.symm
  rw [← hdrop, Buf.slice, Buf.slice, List.drop_drop]

theorem internalKey_cons {head : UInt8} {key : Bytes32} {rest : Bytes} :
    internalKey (head :: (key.toList ++ rest)) = key := by
  have h32 : key.toList.length = 32 := key.toList_length
  refine Buf.toList_inj.1 ?_
  show (key.toList ++ rest).takeD 32 0 = key.toList
  rw [List.takeD_eq_take _ (by simp [h32]), List.take_left' h32]

theorem version_of_parity {parity : UInt8} (h : parity ≤ 1) :
    (tapscriptLeafVersion ||| parity) &&& 0xFE = tapscriptLeafVersion ∧
      (tapscriptLeafVersion ||| parity) &&& 1 = parity := by
  have hle : parity.toNat ≤ 1 := UInt8.le_iff_toNat_le.1 h
  have hcase : parity = 0 ∨ parity = 1 := by
    rcases Nat.le_one_iff_eq_zero_or_eq_one.1 hle with h | h
    · exact .inl (UInt8.toNat_inj.1 h)
    · exact .inr (UInt8.toNat_inj.1 h)
  rcases hcase with rfl | rfl <;> decide

/-- Every leaf of an output is opened by a control block of its own. -/
theorem exists_opens (hcomm : ∀ x y, E.combineTaptreeHashes x y = E.combineTaptreeHashes y x)
    (hpar : ∀ x m parity key, E.tweakPubkey x m = some (parity, key) → parity ≤ 1)
    (hb : LeafBounds it) (ho : o.Valid it) (hspk : o.build E it = some spk)
    (hc : c ∈ o.leaves.leaves) : ∃ cb script, c.build it c.bufSize = some script ∧
      leafVersion cb = tapscriptLeafVersion ∧ Bip341Opens E cb script spk := by
  obtain ⟨script, hleaf, hlen⟩ := hb.fits (OutputCall.valid_leaf ho hc)
  rw [OutputCall.build_eq hb ho] at hspk
  obtain ⟨key, hkey, rfl⟩ := Option.map_eq_some_iff.1 hspk
  obtain ⟨⟨parity, key⟩, htweak, rfl⟩ := Option.map_eq_some_iff.1 hkey
  obtain ⟨hver, hbit⟩ := version_of_parity (hpar _ _ _ _ htweak)
  have hin : tapleafInput tapscriptLeafVersion script ∈ (o.tree it).leaves := by
    rw [OutputCall.tree, ScriptTree.leaves_map]
    refine List.mem_map.2 ⟨c, hc, ?_⟩
    rw [hleaf, Option.getD_some]
  obtain ⟨ss, hway⟩ := ScriptTree.exists_way E.tapleafHash E.combineTaptreeHashes hin
  have hshort : ss.length < 2 := by
    have hlt := hway.length_lt
    have hle := o.length_leaves
    rw [OutputCall.tree, ScriptTree.leaves_map, List.length_map] at hlt
    omega
  set cb := (tapscriptLeafVersion ||| parity) ::
    (vaultNumsXonly.toList ++ ss.flatMap fun s => s.toList) with hcb
  have hv : leafVersion cb = tapscriptLeafVersion := hver
  have hroot : openRoot E cb script =
      (o.tree it).root E.tapleafHash E.combineTaptreeHashes := by
    rw [openRoot, hv, hcb, siblings_flatMap, hway.climb hcomm]
  refine ⟨cb, script, hleaf, hv, ⟨ss.length, by omega, ?_⟩, hlen.trans_lt c.bufSize_lt, parity, key,
    ?_, hbit, rfl⟩
  · have h32 : vaultNumsXonly.toList.length = 32 := vaultNumsXonly.toList_length
    rw [hcb, List.length_cons, List.length_append, h32, length_hashes]
    omega
  · rw [hroot, hcb, internalKey_cons]
    exact htweak

/-! ## Spending -/

/-- An output of a loaded intent, of any valid index, is spent along the script path by a witness
    that meets one of its leaves; and each of its leaves opens it for every such witness. -/
theorem Reach.output_spends (h : Reach E ls d) (hl : d.ctx.state = .intentLoaded)
    (ho : o.Valid d.intent) (hspk : o.build E d.intent = some spk)
    (hcomm : ∀ x y, E.combineTaptreeHashes x y = E.combineTaptreeHashes y x)
    (hpar : ∀ x m parity key, E.tweakPubkey x m = some (parity, key) → parity ≤ 1) :
    (∀ (R : Rules) (sha : Bytes → Bytes) (S : Spend) (cb script : Bytes) (w : List Bytes),
      Bip341Spends E R sha S spk cb script w →
        (∃ c ∈ o.leaves.leaves, c.build d.intent c.bufSize = some script ∧
          (c.content d.intent).Met R sha S w.reverse) ∨ TaprootClash E d.intent o cb script) ∧
    ∀ c ∈ o.leaves.leaves, ∃ cb script, c.build d.intent c.bufSize = some script ∧
      ∀ (R : Rules) (sha : Bytes → Bytes) (S : Spend) (w : List Bytes),
        Bip341Spends E R sha S spk cb script w ↔ (c.content d.intent).Met R sha S w.reverse ∧
          Affords (R.budget w) (c.content d.intent).keys.length ∧ ∀ b ∈ w, b.length ≤ 520 := by
  have hb := ((h.session.loaded hl).intent).leafBounds
  constructor
  · intro R sha S cb script w hw
    refine (hw.opens.leaf hb ho hspk).imp_left ?_
    rintro ⟨hver, c, hc, hleaf⟩
    obtain ⟨hmet, -, -⟩ := (hb.spends_iff hleaf).1 (hw.accepts hver)
    exact ⟨c, hc, hleaf, hmet⟩
  · intro c hc
    obtain ⟨cb, script, hleaf, hver, hopens⟩ := exists_opens hcomm hpar hb ho hspk hc
    refine ⟨cb, script, hleaf, fun R sha S w => ?_⟩
    rw [← hb.spends_iff hleaf]
    exact ⟨fun hw => hw.accepts hver, fun hw => ⟨hopens, fun _ => hw⟩⟩

namespace Signet

/-- The HTLC output of the first vault. -/
def htlc : OutputCall := .htlc 0 hashlock

theorem htlc_built : htlc.build env (loaded intent).intent = some (Signet.spk htlcOut) := by
  rw [loaded_intent]
  decide +kernel

theorem htlc_valid : htlc.Valid (loaded intent).intent := by
  show 0 < (loaded intent).intent.vaultCount
  rw [loaded_intent]
  decide

theorem tweak_parity {x : Bytes32} {m : Option Bytes32} {parity : UInt8} {key : Bytes32}
    (h : env.tweakPubkey x m = some (parity, key)) : parity ≤ 1 := by
  obtain ⟨r, hr, heq⟩ := Option.map_eq_some_iff.1 h
  have hall : ∀ t ∈ tweaks, t.2.1 ≤ 1 := by decide +kernel
  obtain ⟨l, l', hsplit, -⟩ := List.lookup_eq_some_iff.1 hr
  obtain ⟨rfl, -⟩ := Prod.mk.inj heq
  exact hall (_, r) (hsplit ▸ List.mem_append_right l List.mem_cons_self)

end Signet

open Signet in
theorem output_spends_signet :
    (∀ (R : Rules) (sha : Bytes → Bytes) (S : Spend) (cb script : Bytes) (w : List Bytes),
      Bip341Spends env R sha S (Signet.spk htlcOut) cb script w →
        (∃ c ∈ htlc.leaves.leaves, c.build (loaded intent).intent c.bufSize = some script ∧
          (c.content (loaded intent).intent).Met R sha S w.reverse) ∨
            TaprootClash env (loaded intent).intent htlc cb script) ∧
    ∀ c ∈ htlc.leaves.leaves, ∃ cb script,
      c.build (loaded intent).intent c.bufSize = some script ∧
      ∀ (R : Rules) (sha : Bytes → Bytes) (S : Spend) (w : List Bytes),
        Bip341Spends env R sha S (Signet.spk htlcOut) cb script w ↔
          (c.content (loaded intent).intent).Met R sha S w.reverse ∧
          Affords (R.budget w) (c.content (loaded intent).intent).keys.length ∧
            ∀ b ∈ w, b.length ≤ 520 :=
  (reach_loaded intent).output_spends loaded_state htlc_valid htlc_built tapBranch_comm
    fun _ _ _ _ => tweak_parity

end BabylonVault
