/-
  The scratch union as one array (`globals.h`; `globals.c`, 75-106).

  * `Scratch`: its bytes, with the fields of `tls` and `leaf_check` at their offsets.
  * `vaultBuildAssert0PayoutLeafAt`: the builder, writing where it is told.
  * `detectPayoutClaimerAt`: `_detect_payout_claimer` on the union.
  * `Reach.aliased_sound`: the overlap of the two buffers changes nothing.
-/
import BabylonVault.Claimers
import BabylonVault.Lib.Mem

namespace BabylonVault
open Bytes

/-! ## The layout -/

/-- `sizeof(vault_scratch_t)`: the two buffers of `leaf_check`. -/
def scratchLen : ℕ := 2 * scriptMaxLen

/-- `G_scratch`. -/
abbrev Scratch := Buf scratchLen

def tlsControlBlockOff : ℕ := 2
def tlsControlBlockLenOff : ℕ := 260
def tlsLeafScriptOff : ℕ := 262
def tlsLeafScriptLenOff : ℕ := 2824
def tlsLeafVersionOff : ℕ := 2828

/-- `offsetof(leaf_check.actual_buf)`. -/
def actualBufOff : ℕ := scriptMaxLen

example : actualBufOff - tlsLeafScriptOff = leafOverlap := rfl

namespace Scratch
variable (g : Scratch)

def controlBlockLen : ℕ := ofLE (g.peek tlsControlBlockLenOff 2)

/-- An `int`, which is never negative where a script is buffered. -/
def leafScriptLen : ℕ := ofLE (g.peek tlsLeafScriptLenOff 4)

/-- `tls`, as it stands in the union. -/
def tls : Tls where
  found := g.pick 0 ≠ 0
  ambiguous := g.pick 1 ≠ 0
  controlBlock := g.peek tlsControlBlockOff g.controlBlockLen
  leafScript := g.peek tlsLeafScriptOff g.leafScriptLen
  leafScriptLen := g.leafScriptLen
  leafVersion := g.pick tlsLeafVersionOff

/-- The 32 bytes at `tls.leaf_script + 1`. -/
def hostKey : Bytes32 := Buf.ofBytes 32 (g.peek (tlsLeafScriptOff + 1) 32)

end Scratch

/-! ## The builder -/

section Builder
variable {n : ℕ}

/-- `_push_number` to a cursor. -/
def pushNumberAt (value : ℕ) (c : Cursor n) : Cursor n :=
  if value = 0 then c.byte op0
  else if value ≤ 16 then c.byte (op1 - 1 + UInt8.ofNat value)
  else
    let tmp := numBytes 4 value
    let tmp := if tmp.getLastD 0 &&& 0x80 ≠ 0 then tmp ++ [0] else tmp
    (c.byte (UInt8.ofNat tmp.length)).bytes tmp

/-- `OP_PUSHBYTES_32 <key> <op>` to a cursor. -/
def keyEntryAt (key : Bytes32) (op : UInt8) (c : Cursor n) : Cursor n :=
  ((c.byte opPushbytes32).bytes key.toList).byte op

/-- `encode_multisig_group` to a cursor; the array alone where it fails. -/
def encodeMultisigGroupAt (keys : List Bytes32) (isFinal : Bool) (bufMax : ℕ) (c : Cursor n) :
    Except (Buf n) (Cursor n) :=
  match keys with
  | [] => .error c.mem
  | key :: rest =>
    if keys.length * 34 + 6 > bufMax then .error c.mem
    else
      let c := keyEntryAt key opChecksig c
      let c := rest.foldl (fun c key => keyEntryAt key opChecksigadd c) c
      let c := pushNumberAt keys.length c
      .ok (c.byte (if isFinal then opNumequal else opNumequalverify))

/-- `vault_build_assert0_payout_leaf` into the array, from `buf` on. -/
def vaultBuildAssert0PayoutLeafAt (it : VaultIntent) (groupIdx claimerIdx buf bufMax : ℕ)
    (m : Buf n) : Except (Buf n) (Cursor n) :=
  if groupIdx ≥ it.vaultCount then .error m
  else if claimerIdx > it.keeperCount + 1 then .error m
  else if 34 > bufMax then .error m
  else do
    let c := keyEntryAt (claimerPk it groupIdx claimerIdx) opChecksigverify ⟨m, buf⟩
    let c ← encodeMultisigGroupAt (buildAppChallengers it groupIdx claimerIdx) false
      (bufMax - (c.pos - buf)) c
    let c ← encodeMultisigGroupAt it.challengers false (bufMax - (c.pos - buf)) c
    if c.pos - buf + 6 > bufMax then .error c.mem
    else return (pushNumberAt it.payoutTimelock c).byte opCsv

/-- The array that a builder leaves. -/
def leftMem : Except (Buf n) (Cursor n) → Buf n
  | .ok c => c.mem
  | .error m => m

end Builder

/-- `_detect_payout_claimer` on the union, for a buffered leaf: the claimer, and the union as it
    is left. -/
def detectPayoutClaimerAt (it : VaultIntent) (gi : ℕ) (g : Scratch) : Option ℕ × Scratch :=
  let scriptLen := g.leafScriptLen
  if scriptLen < 34 ∨ g.pick tlsLeafScriptOff ≠ opPushbytes32 then (none, g)
  else match findClaimer it gi g.hostKey with
    | none => (none, g)
    | some claimerIdx =>
      match vaultBuildAssert0PayoutLeafAt it gi claimerIdx actualBufOff scriptMaxLen g with
      | .error g => (none, g)
      | .ok c =>
        let leafLen := c.pos - actualBufOff
        if leafLen ≠ scriptLen ∨
            c.mem.peek actualBufOff leafLen ≠ c.mem.peek tlsLeafScriptOff leafLen then (none, c.mem)
        else (some claimerIdx, c.mem)

/-! ## The builder writes its leaf -/

section Builder
variable {n : ℕ} {m : Buf n} {a bufMax : ℕ} {b : Bytes} {it : VaultIntent} {gi ci : ℕ}
open Cursor

@[simp] theorem keyEntryAt_after {key : Bytes32} {op : UInt8} :
    keyEntryAt key op (after m a b) = after m a (b ++ keyEntry key op) := by
  simp [keyEntryAt, keyEntry]

@[simp] theorem pushNumberAt_after {value : ℕ} :
    pushNumberAt value (after m a b) = after m a (b ++ pushNumber value) := by
  unfold pushNumberAt pushNumber
  split_ifs <;> simp

theorem foldl_keyEntryAt {op : UInt8} : ∀ {keys : List Bytes32} {b : Bytes},
    keys.foldl (fun c key => keyEntryAt key op c) (after m a b) =
      after m a (b ++ keys.flatMap (keyEntry · op))
  | [], _ => by simp
  | key :: keys, b => by
    rw [List.foldl_cons, keyEntryAt_after, foldl_keyEntryAt, List.flatMap_cons, List.append_assoc]

theorem encodeMultisigGroupAt_after {keys : List Bytes32} {isFinal : Bool} :
    encodeMultisigGroupAt keys isFinal (bufMax - b.length) (after m a b) =
      (encodeMultisigGroup keys isFinal bufMax b).elim (.error (m.blit a b))
        fun b' => .ok (after m a b') := by
  cases keys with
  | nil => rfl
  | cons key rest =>
    have hroom : (key :: rest).length * 34 + 6 > bufMax - b.length ↔
        b.length + ((key :: rest).length * 34 + 6) > bufMax := by omega
    unfold encodeMultisigGroupAt encodeMultisigGroup emit
    rw [if_neg (List.length_pos_iff.2 (List.cons_ne_nil key rest)).ne']
    simp only [hroom]
    by_cases h : b.length + ((key :: rest).length * 34 + 6) > bufMax
    · simp only [if_pos h]
      rfl
    · simp only [if_neg h, keyEntryAt_after, foldl_keyEntryAt, pushNumberAt_after, after_byte,
        multisigGroup, Option.elim_some, List.append_assoc]

/-- The builder writes the leaf it builds; where it fails, what it had written so far. -/
theorem payoutLeafAt_eq (it : VaultIntent) (gi ci a bufMax : ℕ) (m : Buf n) : ∃ b, vaultBuildAssert0PayoutLeafAt it gi ci a bufMax m =
    (vaultBuildAssert0PayoutLeaf it gi ci bufMax).elim (.error (m.blit a b))
      fun leaf => .ok (after m a leaf) := by
  have hfail : (.error m : Except (Buf n) (Cursor n)) = .error (m.blit a []) := by
    rw [Buf.blit_nil]
  unfold vaultBuildAssert0PayoutLeafAt vaultBuildAssert0PayoutLeaf
  split_ifs with hg hc h34
  · exact ⟨[], hfail⟩
  · exact ⟨[], hfail⟩
  · refine ⟨[], hfail.trans ?_⟩
    rw [emit, if_pos (by simpa using h34)]
    rfl
  · have hstart : keyEntryAt (claimerPk it gi ci) opChecksigverify ⟨m, a⟩ =
        after m a (keyEntry (claimerPk it gi ci) opChecksigverify) := by
      rw [← after_nil, keyEntryAt_after, List.nil_append]
    have hemit : emit bufMax 34 (keyEntry (claimerPk it gi ci) opChecksigverify) [] =
        some (keyEntry (claimerPk it gi ci) opChecksigverify) := if_neg (by simpa using h34)
    have hpos {b : Bytes} : (after m a b).pos - a = b.length := Nat.add_sub_cancel_left ..
    rw [hemit, hstart]
    simp only [hpos, Option.bind_eq_bind, Option.bind_some, encodeMultisigGroupAt_after]
    cases encodeMultisigGroup (buildAppChallengers it gi ci) false bufMax
        (keyEntry (claimerPk it gi ci) opChecksigverify) with
    | none => exact ⟨_, rfl⟩
    | some b₁ =>
      simp only [Option.elim_some, Option.bind_some]
      show ∃ b, (encodeMultisigGroupAt it.challengers false _ (after m a b₁) >>= _) = _
      simp only [hpos, encodeMultisigGroupAt_after]
      cases encodeMultisigGroup it.challengers false bufMax b₁ with
      | none => exact ⟨_, rfl⟩
      | some b₂ =>
        show ∃ b, (if (after m a b₂).pos - a + 6 > bufMax then .error (after m a b₂).mem
            else .ok ((pushNumberAt it.payoutTimelock (after m a b₂)).byte opCsv)) =
          (emit bufMax 6 (pushNumber it.payoutTimelock ++ [opCsv]) b₂).elim (.error (m.blit a b))
            fun leaf => (.ok (after m a leaf) : Except (Buf n) (Cursor n))
        rw [hpos, emit]
        split_ifs
        · exact ⟨b₂, rfl⟩
        · exact ⟨[], by simp⟩

/-- Whatever the builder does, it writes from `a` on. -/
theorem leftMem_payoutLeafAt (it : VaultIntent) (gi ci a bufMax : ℕ) (m : Buf n) :
    ∃ b, leftMem (vaultBuildAssert0PayoutLeafAt it gi ci a bufMax m) = m.blit a b := by
  obtain ⟨b, h⟩ := payoutLeafAt_eq it gi ci a bufMax m
  rw [h]
  cases vaultBuildAssert0PayoutLeaf it gi ci bufMax with
  | none => exact ⟨b, rfl⟩
  | some leaf => exact ⟨leaf, rfl⟩

end Builder

/-! ## The overlap -/

variable {E : Env} {g : Scratch} {it : VaultIntent} {gi ci : ℕ} {b : Bytes}

namespace Scratch

/-- A write to `actual_buf` stays behind the control block and the host key. -/
theorem tls_blit (hcb : g.controlBlockLen ≤ controlBlockMaxLen) :
    Scratch.controlBlockLen (g.blit actualBufOff b) = g.controlBlockLen ∧
      (tls (g.blit actualBufOff b)).controlBlock = g.tls.controlBlock ∧
      hostKey (g.blit actualBufOff b) = g.hostKey := by
  have hlen : Scratch.controlBlockLen (g.blit actualBufOff b) = g.controlBlockLen := by
    unfold controlBlockLen
    rw [Buf.peek_blit_of_le (by decide)]
  have hcontrol (g : Scratch) :
      g.tls.controlBlock = g.peek tlsControlBlockOff g.controlBlockLen := rfl
  refine ⟨hlen, ?_, ?_⟩
  · rw [hcontrol, hcontrol, hlen, Buf.peek_blit_of_le]
    simp only [tlsControlBlockOff, actualBufOff, scriptMaxLen, controlBlockMaxLen] at hcb ⊢
    omega
  · unfold hostKey
    rw [Buf.peek_blit_of_le (by decide)]

/-- It leaves as much of the script as lies in front of it. -/
theorem leafScript_blit {len : ℕ} (h : len ≤ leafOverlap) :
    Buf.peek (g.blit actualBufOff b) tlsLeafScriptOff len = g.peek tlsLeafScriptOff len := by
  refine Buf.peek_blit_of_le ?_
  simp only [leafOverlap] at h
  simp only [tlsLeafScriptOff, actualBufOff, scriptMaxLen]
  omega

end Scratch

theorem length_tls_leafScript (h : g.leafScriptLen ≤ scriptMaxLen) :
    g.tls.leafScript.length = g.leafScriptLen := by
  refine Buf.length_peek ?_
  simp only [tlsLeafScriptOff, scratchLen, scriptMaxLen] at h ⊢
  omega

theorem slice_tls_leafScript (h34 : 34 ≤ g.leafScriptLen) :
    Buf.slice 32 g.tls.leafScript 1 = g.hostKey := by
  refine Buf.ofBytes_ext fun i hi => ?_
  show ((g.peek tlsLeafScriptOff g.leafScriptLen).drop 1).getD i 0 =
    (g.peek (tlsLeafScriptOff + 1) 32).getD i 0
  have hin : tlsLeafScriptOff + (1 + i) < scratchLen := by
    simp only [tlsLeafScriptOff, scratchLen, scriptMaxLen]
    omega
  rw [List.getD_eq_getElem?_getD, List.getD_eq_getElem?_getD, List.getElem?_drop, Buf.getElem?_peek,
    Buf.getElem?_peek, Nat.add_assoc, if_pos ⟨by omega, hin⟩, if_pos ⟨hi, hin⟩]

theorem getD_tls_leafScript (h34 : 34 ≤ g.leafScriptLen) :
    g.tls.leafScript.getD 0 0 = g.pick tlsLeafScriptOff := by
  show (g.peek tlsLeafScriptOff g.leafScriptLen).getD 0 0 = _
  rw [List.getD_eq_getElem?_getD, Buf.getElem?_peek, if_pos ⟨by omega, by decide⟩]
  rfl

/-- The rebuilt leaf is compared with the script as if it stood elsewhere. -/
theorem rebuilt_compare {leaf : Bytes} (hle : leaf.length ≤ leafOverlap) :
    (leaf.length ≠ g.leafScriptLen ∨
      Buf.peek (g.blit actualBufOff leaf) actualBufOff leaf.length ≠
        Buf.peek (g.blit actualBufOff leaf) tlsLeafScriptOff leaf.length) ↔
      (leaf.length = g.leafScriptLen → leaf ≠ g.tls.leafScript) := by
  have hroom : actualBufOff + leaf.length ≤ scratchLen := by
    simp only [leafOverlap] at hle
    simp only [actualBufOff, scratchLen, scriptMaxLen]
    omega
  rw [Buf.peek_blit hroom, Scratch.leafScript_blit hle]
  constructor
  · rintro (hne | hne) heq
    · exact absurd heq hne
    · rwa [heq] at hne
  · intro hne
    by_cases heq : leaf.length = g.leafScriptLen
    · refine .inr ?_
      rw [heq]
      exact hne heq
    · exact .inl heq

/-- The overlap does not change what is detected. -/
theorem detectPayoutClaimerAt_eq (hb : LeafBounds it) (h : g.leafScriptLen ≤ scriptMaxLen) :
    (detectPayoutClaimerAt it gi g).1 = detected it gi g.tls.leafScript := by
  unfold detectPayoutClaimerAt detected
  rw [length_tls_leafScript h]
  by_cases h34 : 34 ≤ g.leafScriptLen
  · have hkey := slice_tls_leafScript h34
    have hhead := getD_tls_leafScript h34
    by_cases hop : g.pick tlsLeafScriptOff = opPushbytes32
    · have hgo : ¬(g.leafScriptLen < 34 ∨ g.pick tlsLeafScriptOff ≠ opPushbytes32) := by
        rintro (hlt | hne)
        · omega
        · exact hne hop
      simp only [if_neg hgo, hkey, hhead, if_pos (And.intro h34 hop)]
      cases findClaimer it gi g.hostKey with
      | none => rfl
      | some ci =>
        obtain ⟨b, heq⟩ := payoutLeafAt_eq it gi ci actualBufOff scriptMaxLen g
        simp only [heq, Option.bind_eq_bind, Option.bind_some]
        cases hleaf : vaultBuildAssert0PayoutLeaf it gi ci scriptMaxLen with
        | none => rfl
        | some leaf =>
          have hle : leaf.length ≤ leafOverlap := (payoutLeaf_le hb hleaf).trans (by decide)
          have hpos : (Cursor.after g actualBufOff leaf).pos - actualBufOff = leaf.length :=
            Nat.add_sub_cancel_left ..
          have hmem : (Cursor.after g actualBufOff leaf).mem = g.blit actualBufOff leaf := rfl
          simp only [Option.elim_some, Option.bind_some, hpos, hmem]
          by_cases hs : leaf = g.tls.leafScript
          · have hlen : leaf.length = g.leafScriptLen := by rw [hs, length_tls_leafScript h]
            rw [if_pos hs, if_neg fun hc => (rebuilt_compare hle).1 hc hlen hs]
          · rw [if_neg hs, if_pos ((rebuilt_compare hle).2 fun _ => hs)]
    · simp only [hhead, hop, ne_eq, not_false_eq_true, or_true, if_true, and_false, if_false]
  · have hlt := not_le.1 h34
    simp only [hlt, true_or, if_true, h34, false_and, if_false]

theorem detectPayoutClaimerAt_mem (it : VaultIntent) (gi : ℕ) (g : Scratch) :
    ∃ b, (detectPayoutClaimerAt it gi g).2 = g.blit actualBufOff b := by
  have hnone : g = g.blit actualBufOff [] := Buf.blit_nil.symm
  unfold detectPayoutClaimerAt
  dsimp only
  split_ifs
  · exact ⟨[], hnone⟩
  · cases findClaimer it gi g.hostKey with
    | none => exact ⟨[], hnone⟩
    | some ci =>
      obtain ⟨b, hb⟩ := leftMem_payoutLeafAt it gi ci actualBufOff scriptMaxLen g
      refine ⟨b, ?_⟩
      rw [← hb]
      dsimp only
      cases vaultBuildAssert0PayoutLeafAt it gi ci actualBufOff scriptMaxLen g with
      | error => rfl
      | ok c =>
        dsimp only
        split_ifs <;> rfl

/-! ## Soundness -/

/-- The union once the payout leaf of a claimer was rebuilt into `actual_buf`. -/
def Scratch.rebuilt (g : Scratch) (it : VaultIntent) (gi ci : ℕ) : Scratch :=
  leftMem (vaultBuildAssert0PayoutLeafAt it gi ci actualBufOff scriptMaxLen g)

/-- The overlap of `tls.leaf_script` and `leaf_check.actual_buf` changes nothing: neither the
    bytes that are compared, nor the fields read after a rebuild, nor what is detected, nor the
    commitment check behind it. -/
structure AliasedSound (E : Env) (s : Session) (gi : ℕ) (g : Scratch) : Prop where
  compared : ∀ ci leaf, vaultBuildAssert0PayoutLeaf s.intent gi ci scriptMaxLen = some leaf →
    actualBufOff + leaf.length ≤ scratchLen ∧
      Buf.peek (g.rebuilt s.intent gi ci) actualBufOff leaf.length = leaf ∧
      Buf.peek (g.rebuilt s.intent gi ci) tlsLeafScriptOff leaf.length =
        g.peek tlsLeafScriptOff leaf.length
  kept : ∀ ci, (g.rebuilt s.intent gi ci).controlBlockLen = g.controlBlockLen ∧
    (g.rebuilt s.intent gi ci).tls.controlBlock = g.tls.controlBlock ∧
    (g.rebuilt s.intent gi ci).hostKey = g.hostKey
  detected : ∀ v : Volatile, v.leaf.buffered = true → detectPayoutClaimer s g.tls gi v =
    .ret (match (detectPayoutClaimerAt s.intent gi g).1 with
      | some ci => .ok ci
      | none => .error (.reject .incorrectData), v)
  commitment : ∀ spk, refundVerifyTaprootCommitment E (detectPayoutClaimerAt s.intent gi g).2.tls spk =
    refundVerifyTaprootCommitment E g.tls spk

theorem aliasedSound {s : Session} (hb : LeafBounds s.intent)
    (hcb : g.controlBlockLen ≤ controlBlockMaxLen) (h : g.leafScriptLen ≤ scriptMaxLen) :
    AliasedSound E s gi g := by
  constructor
  · intro ci leaf hleaf
    have hle : leaf.length ≤ leafOverlap := (payoutLeaf_le hb hleaf).trans (by decide)
    have hroom : actualBufOff + leaf.length ≤ scratchLen := by
      simp only [leafOverlap] at hle
      simp only [actualBufOff, scratchLen, scriptMaxLen]
      omega
    obtain ⟨b, heq⟩ := payoutLeafAt_eq s.intent gi ci actualBufOff scriptMaxLen g
    rw [hleaf] at heq
    have hmem : g.rebuilt s.intent gi ci = g.blit actualBufOff leaf := by
      rw [Scratch.rebuilt, heq]
      rfl
    rw [hmem]
    exact ⟨hroom, Buf.peek_blit hroom, Scratch.leafScript_blit hle⟩
  · intro ci
    obtain ⟨b, hmem⟩ := leftMem_payoutLeafAt s.intent gi ci actualBufOff scriptMaxLen g
    rw [Scratch.rebuilt, hmem]
    exact Scratch.tls_blit hcb
  · intro v hv
    rw [detectPayoutClaimerAt_eq hb h]
    exact detectPayoutClaimer_run hv rfl (length_tls_leafScript h).symm
  · intro spk
    obtain ⟨b, hmem⟩ := detectPayoutClaimerAt_mem s.intent gi g
    obtain ⟨-, hcontrol, -⟩ := Scratch.tls_blit (b := b) hcb
    unfold refundVerifyTaprootCommitment
    rw [hmem, hcontrol]

/-- With any approved intent. -/
theorem Reach.aliased_sound {ls : List Exchange} {d : Device} (hr : Reach E ls d)
    (hl : d.ctx.state = .intentLoaded) (hcb : g.controlBlockLen ≤ controlBlockMaxLen)
    (h : g.leafScriptLen ≤ scriptMaxLen) : AliasedSound E d.session gi g :=
  aliasedSound ((hr.session.loaded hl).intent).leafBounds hcb h

namespace Signet

/-- The union with a control block and a script of these bytes. -/
def scratchOf (cb script : Bytes) : Scratch :=
  ((((Buf.zero scratchLen).blit tlsControlBlockOff cb).blit tlsControlBlockLenOff
    (leBytes 2 cb.length)).blit tlsLeafScriptOff script).blit tlsLeafScriptLenOff
    (leBytes 4 script.length)

/-- The payout leaf of the depositor for the first vault, behind one sibling. -/
def payoutScratch : Scratch :=
  scratchOf (List.replicate 65 0xc0) ((vaultBuildAssert0PayoutLeaf intent 0 2 scriptMaxLen).getD [])

end Signet

open Signet in
theorem aliased_sound_payout : AliasedSound env (loaded intent).session 0 payoutScratch ∧
    (detectPayoutClaimerAt (loaded intent).intent 0 payoutScratch).1 = some 2 :=
  ⟨(reach_loaded intent).aliased_sound loaded_state (by decide +kernel) (by decide +kernel),
    by rw [loaded_intent]; decide +kernel⟩

end BabylonVault
