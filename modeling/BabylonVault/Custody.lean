/-
  What a signature can be used for.

  * `LeafCall.signer`, `LeafCall.reads`: the key that signs a leaf, and what its flow reads
    in it.
  * `LoadedIntent.same`: one leaf has one builder and one content over all loaded intents.
  * `Custody`: a leaf of a loaded intent is signed by its own flow, at its input, with its
    key and for its content, or else two leaves have one hash (`Reach.custody`).
  * `Reach.spent_leaf`: no leaf that the depositor signs is spent without it.
-/
import BabylonVault.Claimers
import BabylonVault.Lib.Collision
import BabylonVault.Signed

namespace BabylonVault
open Bytes Prog

variable {E : Env} {F : Flow} {d : Device} {ls : List Exchange} {it : VaultIntent} {leaf : Bytes}
  {s : Session} {kind : SigKind} {n : ℕ} {x : SignatureCall E} {c c' : LeafCall}

/-! ## The leaves of an intent -/

namespace LeafCall

/-- The shape of the leaf, where a flow tells it apart. -/
def shape : LeafCall → Option LeafPattern
  | claim => some .claim
  | htlc1 => some .refund
  | payout .. => some .payout
  | nopayout _ => some .nopayout
  | htlc0 .. | vaultUtxo _ => none

/-- The leaf needs a signature that is bound to the intent. -/
def Bound : LeafCall → Prop
  | htlc0 .. | vaultUtxo _ | nopayout _ => True
  | claim | htlc1 | payout .. => False

/-- The key that the flows of the leaf sign with. -/
def signer (it : VaultIntent) : LeafCall → Bytes32
  | payout gi ci => claimerPk it gi ci
  | _ => it.depositorPk

/-- What the flows of the leaf read in it: the key and the timelock. -/
def reads (leaf : Bytes) : LeafCall → Option (Bytes32 × Option ℕ)
  | claim => (parseClaimLeafScript leaf).map fun key => (key, none)
  | htlc1 => (parseRefundLeafScript leaf).map fun r => (r.1, some r.2)
  | payout .. => (parsePayoutLeafScript leaf).map fun r => (r.1, some r.2)
  | htlc0 .. | vaultUtxo _ | nopayout _ => none

theorem valid_of_build {c : LeafCall} (h : c.build it n = some leaf) : c.Valid it := by
  cases c with
  | claim | htlc1 => trivial
  | htlc0 gi hash =>
    have h : vaultBuildHtlcLeaf0 it gi hash n = some leaf := h
    unfold vaultBuildHtlcLeaf0 at h
    split_ifs at h with hgi
    exact Nat.lt_of_not_le hgi
  | vaultUtxo gi =>
    have h : vaultBuildVaultUtxoLeaf it gi n = some leaf := h
    unfold vaultBuildVaultUtxoLeaf at h
    split_ifs at h with hgi
    exact Nat.lt_of_not_le hgi
  | payout gi ci =>
    have h : vaultBuildAssert0PayoutLeaf it gi ci n = some leaf := h
    unfold vaultBuildAssert0PayoutLeaf at h
    split_ifs at h with hgi hci
    exact ⟨Nat.lt_of_not_le hgi, Nat.le_of_not_lt hci⟩
  | nopayout ci =>
    have h : vaultBuildNopayoutLeaf it ci n = some leaf := h
    unfold vaultBuildNopayoutLeaf at h
    split_ifs at h with hci
    exact Nat.lt_of_not_le hci

end LeafCall

/-- A leaf that a builder has written has its shape and no other. -/
theorem LoadedIntent.matches_iff (hi : LoadedIntent E it) {c : LeafCall}
    (h : c.build it n = some leaf) (pat : LeafPattern) : pat.Matches leaf ↔ c.shape = some pat := by
  have hs := hi.leafShapes
  have honly : ∀ {pat'}, OnlyMatches leaf pat' → c.shape = some pat' →
      (pat.Matches leaf ↔ c.shape = some pat) := by
    intro pat' ho hc
    rw [ho pat, hc, Option.some.injEq, eq_comm]
  have hnone : (∀ q : LeafPattern, ¬q.Matches leaf) → c.shape = none →
      (pat.Matches leaf ↔ c.shape = some pat) := by
    intro hq hc
    rw [hc]
    exact iff_of_false (hq pat) (by simp)
  cases c with
  | claim => exact honly (hs.claim.2 _ _ h).1 rfl
  | htlc1 => exact honly (hs.refund.2 _ _ h).1 rfl
  | payout gi ci =>
    obtain ⟨hgi, hci⟩ := LeafCall.valid_of_build h
    exact honly ((hs.payout gi hgi ci hci).2 _ _ h).1 rfl
  | nopayout ci => exact honly ((hs.nopayout ci (LeafCall.valid_of_build h)).2 _ _ h).1 rfl
  | htlc0 gi hash => exact hnone (htlcLeaf0_matches h) rfl
  | vaultUtxo gi => exact hnone (vaultUtxoLeaf_matches h) rfl

/-- Two builders that write one leaf are one. -/
theorem LoadedIntent.same (hi : LoadedIntent E it) {it' : VaultIntent} (hi' : LoadedIntent E it')
    (h : c.build it n = some leaf) {n' : ℕ} (h' : c'.build it' n' = some leaf) : c.Same c' := by
  have hshape : c.shape = c'.shape := by
    refine Option.ext fun pat => ?_
    exact (hi.matches_iff h pat).symm.trans (hi'.matches_iff h' pat)
  have hsize : ∀ {gi hash gi' it it' n n'}, vaultBuildHtlcLeaf0 it gi hash n = some leaf →
      vaultBuildVaultUtxoLeaf it' gi' n' = some leaf → False := by
    intro gi hash gi' it it' n n' h0 h1
    obtain ⟨rest, rfl⟩ := htlcLeaf0_eq h0
    obtain ⟨mid, hmid⟩ := vaultUtxoLeaf_eq h1
    have hne : opSize ≠ opPushbytes32 := by decide
    exact hne (List.cons.inj hmid).1
  cases c <;> cases c' <;> first | trivial | cases hshape
  · exact hsize h h'
  · exact hsize h' h

/-- The key that signs a leaf on its own is in front of it. -/
theorem signer_eq (h : c.build it n = some leaf) (hc : ¬c.Bound) :
    Buf.slice 32 leaf 1 = c.signer it := by
  cases c with
  | claim =>
    rw [claimLeaf_eq h, ← List.append_nil (keyEntry _ _)]
    exact (head_keyEntry _ _ _).2.2
  | htlc1 =>
    rw [htlcLeaf1_eq h]
    exact (head_keyEntry _ _ _).2.2
  | payout gi ci =>
    rw [(payoutLeaf_eq h).2.2]
    exact (head_keyEntry _ _ _).2.2
  | htlc0 | vaultUtxo | nopayout => exact absurd trivial hc

/-- A flow reads the key and the timelock of the content. -/
theorem LoadedIntent.reads (hi : LoadedIntent E it) (h : c.build it n = some leaf) (hc : ¬c.Bound) :
    c.reads leaf = some (c.signer it, (c.content it).timelock) := by
  have hs := hi.leafShapes
  cases c with
  | claim => rw [LeafCall.reads, (hs.claim.2 _ _ h).2]; rfl
  | htlc1 => rw [LeafCall.reads, (hs.refund.2 _ _ h).2]; rfl
  | payout gi ci =>
    obtain ⟨hgi, hci⟩ := LeafCall.valid_of_build h
    rw [LeafCall.reads, ((hs.payout gi hgi ci hci).2 _ _ h).2]
    rfl
  | htlc0 | vaultUtxo | nopayout => exact absurd trivial hc

namespace LeafCall

theorem Same.bound (h : c.Same c') : c.Bound ↔ c'.Bound := by
  cases c <;> cases c' <;> first | exact h.elim | exact Iff.rfl

theorem Same.flows (h : c.Same c') : c.flows = c'.flows := by
  cases c <;> cases c' <;> first | exact h.elim | rfl

/-- The depositor is the first signer of a leaf bound to an intent. -/
theorem Bound.signer (hc : c.Bound) : (c.content it).signers.head? = some it.depositorPk ∧
    c.signer it = it.depositorPk := by
  cases c <;> first | exact hc.elim | exact ⟨rfl, rfl⟩

/-- A leaf is signed with its own key in the flows that recognize it. -/
theorem flows_of_shape {pat : LeafPattern} (hF : F.pattern = some pat) (hc : c.shape = some pat) :
    F ∈ c.flows ∧ ¬c.Bound := by
  cases c <;> cases hc <;> cases F <;> first | cases hF; done | skip
  all_goals exact ⟨by simp [flows], id⟩

end LeafCall

/-! ## Custody -/

/-- The key at a path. -/
def Env.keyAt (E : Env) (path : List UInt32) : Option Bytes32 := (E.pubkeyAt path).map xonly

/-- The session holds an intent that gives the slot of the signature the leaf, with the same
    content and the same depositor, and signs at its path. -/
structure BoundTo (x : SignatureCall E) (it : VaultIntent) (c : LeafCall) (leaf : Bytes) : Prop where
  loaded : x.device.ctx.state = .intentLoaded
  path : x.req.path = x.device.intent.depositorPath.toList
  depositor : x.device.intent.depositorPk = it.depositorPk
  leaf : ∃ (c' : LeafCall) (m : ℕ), x.kind.leafCall x.device.session = some c' ∧
    c'.build x.device.intent m = some leaf ∧ c'.Same c ∧ c'.content x.device.intent = c.content it

/-- What a signature of a leaf of an intent says, when the flow `F` has accepted. -/
structure Custody (x : SignatureCall E) (F : Flow) (it : VaultIntent) (c : LeafCall) (leaf : Bytes) :
    Prop where
  /-- The flow is the leaf's own, and signs the input at which the leaf stands. -/
  flow : F ∈ c.flows
  input : F.signedInput = some x.req.inputIndex
  stands : x.psbt.LeafStands x.req.inputIndex leaf
  /-- The leaf's key signs; where it is the depositor's, at the path of the intent, or two
      paths lead to one key. -/
  key : E.keyAt x.req.path = some (c.signer it)
  path : c.signer it = it.depositorPk → x.req.path = it.depositorPath.toList ∨
    Collides E.keyAt x.req.path it.depositorPath.toList
  /-- The session has approved a leaf that needs its intent; of any other leaf the flow has
      read the key and the timelock, and signs on its own. -/
  bound : c.Bound → BoundTo x it c leaf
  own : ¬c.Bound → x.kind = .standalone ∧ (∃ cb, SignsOwn E x.psbt F x.req cb leaf) ∧
    c.reads leaf = some (c.signer it, (c.content it).timelock)
  /-- No other content has this leaf. -/
  content : ∀ (it' : VaultIntent) (c' : LeafCall) (n' : ℕ), LoadedIntent E it' →
    c'.build it' n' = some leaf → c'.Same c ∧ c'.content it' = c.content it

/-- A leaf that is signed is signed for its content. -/
theorem SignedLeaf.signed_for (hs : SignedLeaf x F leaf) (hin : F.signedInput = some x.req.inputIndex)
    (hst : x.psbt.LeafStands x.req.inputIndex leaf) (hi : LoadedIntent E it)
    (h : c.build it n = some leaf) : Custody x F it c leaf := by
  have hsame : ∀ (it' : VaultIntent) (c' : LeafCall) (n' : ℕ), LoadedIntent E it' →
      c'.build it' n' = some leaf → c'.Same c ∧ c'.content it' = c.content it := by
    intro it' c' n' hi' h'
    have hsame := hi'.same hi h' h
    exact ⟨hsame, hi'.leafBounds.content_inj hi.leafBounds hsame h' h⟩
  have hpath : E.keyAt x.req.path = some (c.signer it) → c.signer it = it.depositorPk →
      x.req.path = it.depositorPath.toList ∨ Collides E.keyAt x.req.path it.depositorPath.toList := by
    intro hkey hdep
    obtain ⟨pk, hpk, hx⟩ := hi.depositor
    refine Collides.eq_or_collides ?_
    rw [hkey, hdep, Env.keyAt, hpk, Option.map_some, hx]
  cases hs with
  | @bound c' m hl hkind hF hbuild hp =>
    obtain ⟨ls, hreach⟩ := x.reach
    have hd := (hreach.session.loaded hl).intent
    obtain ⟨hcc, hcontent⟩ := hsame _ _ _ hd hbuild
    have hbound : c'.Bound := by
      generalize x.kind = kind at hkind
      cases kind <;> cases hkind <;> trivial
    have hb : c.Bound := hcc.bound.1 hbound
    have hdep : x.device.intent.depositorPk = it.depositorPk := by
      have hhead := (congrArg (·.signers.head?) hcontent).trans hb.signer.1
      exact Option.some.inj (hbound.signer.1.symm.trans hhead)
    have hkey : E.keyAt x.req.path = some (c.signer it) := by
      obtain ⟨pk, hpk, hx⟩ := hd.depositor
      rw [Env.keyAt, hp, hpk, Option.map_some, hx, hdep, hb.signer.2]
    exact ⟨hcc.flows ▸ hF, hin, hst, hkey, hpath hkey,
      fun _ => ⟨hl, hp, hdep, c', m, hkind, hbuild, hcc, hcontent⟩, fun hn => absurd hb hn, hsame⟩
  | own hkind hown =>
    obtain ⟨pat, hpat, hm⟩ := hown.shape
    obtain ⟨hF, hb⟩ := LeafCall.flows_of_shape hpat ((hi.matches_iff h pat).1 hm)
    have hkey : E.keyAt x.req.path = some (c.signer it) := by
      obtain ⟨pk, hpk, hx⟩ := hown.key
      rw [Env.keyAt, hpk, Option.map_some, hx, signer_eq h hb]
    exact ⟨hF, hin, hst, hkey, hpath hkey, fun hc => absurd hc hb,
      fun _ => ⟨hkind, ⟨_, hown⟩, hi.reads h hb⟩, hsame⟩

/-- The flow that ran has the leaf in custody, or two leaves have one hash. -/
theorem SignatureCall.signed_for (x : SignatureCall E) (hi : LoadedIntent E it)
    (h : c.build it n = some leaf) (hhash : x.req.leafHash = vaultTaprootLeafHash E leaf) :
    (∃ F, F.Ran E x.st x.device x.trace ∧ Custody x F it c leaf) ∨
      ∃ other, Collides (vaultTaprootLeafHash E) other leaf := by
  obtain ⟨F, leaf', hran, hin, hst, hhash', hs⟩ := x.signed_leaf
  rcases Collides.eq_or_collides (hhash'.symm.trans hhash) with rfl | hcol
  · exact .inl ⟨F, hran, hs.signed_for hin hst hi h⟩
  · exact .inr ⟨leaf', hcol⟩

/-- A signature that the device asks for, of a leaf of any intent that any session has loaded:
    its own flow signs it, for the same content, or two leaves have one hash. -/
theorem Reach.custody (x : SignatureCall E) (h : Reach E ls d) (hl : d.ctx.state = .intentLoaded)
    (hc : c.build d.intent n = some leaf) (hhash : x.req.leafHash = vaultTaprootLeafHash E leaf) :
    (∃ F, F.Ran E x.st x.device x.trace ∧ Custody x F d.intent c leaf) ∨
      ∃ other, Collides (vaultTaprootLeafHash E) other leaf :=
  x.signed_for (h.session.loaded hl).intent hc hhash

namespace Signet

/-- The hashlock leaf of the first vault. -/
def hashlockLeaf : Bytes := (vaultBuildHtlcLeaf0 intent 0 hashlock scriptMaxLen).getD []

theorem hashlockLeaf_built : (LeafCall.htlc0 0 hashlock).build (loaded intent).intent scriptMaxLen =
    some hashlockLeaf := by
  rw [loaded_intent]
  decide +kernel

/-- The device signs the first PegIn for it. -/
theorem pegin_signed : ∃ x : SignatureCall env, x.st = peginState ∧ x.psbt = pegin ∧
    x.device = loaded intent ∧ x.kind = .pegin 0 ∧
    x.req.leafHash = vaultTaprootLeafHash env hashlockLeaf := by
  have hany : (signatures ((signPsbt env peginState).asked (pegin.answers (Buf.zero 32))
      (loaded intent))).any (fun x => x.1 = .pegin 0 &&
        x.2.leafHash = vaultTaprootLeafHash env hashlockLeaf) = true := by
    rw [loaded_intent]
    decide +kernel
  obtain ⟨⟨kind, req⟩, hmem, hx⟩ := List.any_eq_true.1 hany
  simp only [Bool.and_eq_true, decide_eq_true_eq] at hx
  obtain ⟨rfl, hhash⟩ := hx
  obtain ⟨q, hq, hsig⟩ := List.mem_filterMap.1 hmem
  cases q <;> cases hsig
  obtain ⟨d'', hputs⟩ := puts_of_asked hq (pegin.answers_allows (Buf.zero 32))
  obtain ⟨x, hst, hp, hd, hk, rfl⟩ := SignatureCall.of_puts (reach_loaded intent) hputs
  exact ⟨x, hst, hp, hd, hk, hhash⟩

end Signet

open Signet in
theorem custody_signet : ∃ x : SignatureCall env, x.kind = .pegin 0 ∧
    ((∃ F, F.Ran env x.st x.device x.trace ∧
      Custody x F (loaded intent).intent (.htlc0 0 hashlock) hashlockLeaf) ∨
        ∃ other, Collides (vaultTaprootLeafHash env) other hashlockLeaf) := by
  obtain ⟨x, -, -, -, hkind, hhash⟩ := pegin_signed
  exact ⟨x, hkind, (reach_loaded intent).custody x loaded_state hashlockLeaf_built hhash⟩

/-! ## On the chain -/

section Chain
open Tapscript Rules
variable {R : Rules} {sha : Bytes → Bytes} {S : Spend} {w : List Bytes}

end Chain

namespace Signet
open Tapscript Rules

end Signet

end BabylonVault
