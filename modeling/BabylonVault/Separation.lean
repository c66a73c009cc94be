/-
  Domain separation of what is derived from the seed (`derive_vault_secrets_core.h`,
  `derive_context_hash_core.h`).

  * `expandInfo_inj`, `rootInfo_inj`: the messages determine their variable parts.
  * `CommitmentCollision`: what it takes for two commitments of one root to be equal.
  * `domain_separation`: distinct vouts, labels and contexts separate, or the hashes
    collide at the messages named; `Reach.commitments_separate` says it of a session.
-/
import BabylonVault.Lib.Collision
import BabylonVault.Session

namespace BabylonVault
open Bytes Collides

/-! ## The messages -/

/-- The info of an expansion determines its label and its context. -/
theorem expandInfo_inj {label label' context context' : Bytes} (hl : label.length ≤ 255)
    (hl' : label'.length ≤ 255) (h : expandInfo label context = expandInfo label' context') :
    label = label' ∧ context = context' := by
  have hmsg : UInt8.ofNat label.length :: (label ++
      ([UInt8.ofNat (context.length / 256), UInt8.ofNat context.length] ++ (context ++ [0x01]))) =
      UInt8.ofNat label'.length :: (label' ++
      ([UInt8.ofNat (context'.length / 256), UInt8.ofNat context'.length] ++
        (context' ++ [0x01]))) := by
    simpa only [expandInfo, List.append_assoc, List.append_cancel_left_eq, List.cons_append,
      List.nil_append] using h
  -- the length byte aligns the labels, and the two bytes after them the contexts
  obtain ⟨hlen, hrest⟩ := List.cons.inj hmsg
  have hlength : label.length = label'.length := by
    have hmod := congrArg UInt8.toNat hlen
    rw [UInt8.toNat_ofNat', UInt8.toNat_ofNat', Nat.mod_eq_of_lt (by omega),
      Nat.mod_eq_of_lt (by omega)] at hmod
    exact hmod
  obtain ⟨hlabel, hrest⟩ := List.append_inj hrest hlength
  obtain ⟨-, hrest⟩ := List.append_inj hrest rfl
  exact ⟨hlabel, List.append_cancel_right hrest⟩

variable {E : Env}

/-- The info of a root determines the digest of the name, the key and the context. -/
theorem rootInfo_inj {name name' context context' : Bytes} {pk pk' : Buf 33}
    (h : rootInfo E name pk.toList context = rootInfo E name' pk'.toList context') :
    E.sha256 name = E.sha256 name' ∧ pk = pk' ∧ context = context' := by
  have hmsg : (E.sha256 name).toList ++ ((E.sha256 E.network.canonicalName).toList ++
      (pk.toList ++ (context ++ [0x01]))) =
      (E.sha256 name').toList ++ ((E.sha256 E.network.canonicalName).toList ++
      (pk'.toList ++ (context' ++ [0x01]))) := by
    simpa only [rootInfo, List.append_assoc] using h
  -- the three fixed widths in front, the counter at the end
  obtain ⟨hname, hrest⟩ := List.append_inj hmsg (by simp)
  have hrest := List.append_cancel_left hrest
  obtain ⟨hpk, hrest⟩ := List.append_inj hrest (by simp)
  exact ⟨Buf.toList_inj.1 hname, Buf.toList_inj.1 hpk, List.append_cancel_right hrest⟩

/-! ## What is derived from them -/

variable (E)

/-- The secret of an expansion, before its hash. -/
def vaultSecret (root : Bytes32) (label context : Bytes) : Bytes :=
  (E.hmacSha256 root.toList (expandInfo label context)).toList

/-- HMAC under the root collides at the two infos, or SHA-256 at the two secrets. -/
def CommitmentCollision (root : Bytes32) (label context label' context' : Bytes) : Prop :=
  Collides (E.hmacSha256 root.toList) (expandInfo label context) (expandInfo label' context') ∨
    Collides E.sha256 (vaultSecret E root label context) (vaultSecret E root label' context')

/-- Two vouts collide under a root. -/
def HashlockCollision (root : Bytes32) (v w : UInt8) : Prop :=
  CommitmentCollision E root (ascii "hashlock") [0, 0, 0, v] (ascii "hashlock") [0, 0, 0, w]

/-- A vout collides with the auth anchor under a root. -/
def AnchorCollision (root : Bytes32) (v : UInt8) : Prop :=
  CommitmentCollision E root (ascii "hashlock") [0, 0, 0, v] (ascii "auth-anchor") []

/-- HMAC under the extracted key collides at the infos of two roots. -/
def RootCollision (name name' context context' : Bytes) (pk pk' : Buf 33) : Prop :=
  Collides (E.hmacSha256 (E.hkdfExtract E.vaultPrivkey.toList (ascii "derive-context-hash")).toList)
    (rootInfo E name pk.toList context) (rootInfo E name' pk'.toList context')

/-- What separates the values derived from one seed. -/
structure DomainSeparation : Prop where
  expand : ∀ label label' context context' : Bytes, label.length ≤ 255 → label'.length ≤ 255 →
    expandInfo label context = expandInfo label' context' → label = label' ∧ context = context'
  info : ∀ (name name' context context' : Bytes) (pk pk' : Buf 33),
    rootInfo E name pk.toList context = rootInfo E name' pk'.toList context' →
      (name = name' ∨ Collides E.sha256 name name') ∧ pk = pk' ∧ context = context'
  hashlocks : ∀ (root : Bytes32) (v w : UInt8), v ≠ w →
    vaultDeriveHashlockCommitment E root v ≠ vaultDeriveHashlockCommitment E root w ∨
      HashlockCollision E root v w
  anchor : ∀ (root : Bytes32) (v : UInt8),
    vaultDeriveHashlockCommitment E root v ≠ vaultDeriveAuthAnchorCommitment E root ∨
      AnchorCollision E root v
  roots : ∀ (name name' context context' : Bytes) (pk pk' : Buf 33), context ≠ context' →
    hkdfDeriveRoot E name pk.toList context ≠ hkdfDeriveRoot E name' pk'.toList context' ∨
      RootCollision E name name' context context' pk pk'

variable {E}

/-- Equal commitments of one root: equal labels and contexts, or a collision on the way. -/
theorem expandCommitment_inj {root : Bytes32} {label label' context context' : Bytes}
    (hl : label.length ≤ 255) (hl' : label'.length ≤ 255)
    (h : vaultExpandCommitment E root label context =
      vaultExpandCommitment E root label' context') :
    label = label' ∧ context = context' ∨
      CommitmentCollision E root label context label' context' := by
  have hsecret : E.sha256 (vaultSecret E root label context) =
      E.sha256 (vaultSecret E root label' context') := h
  rcases eq_or_collides hsecret with heq | hc
  · rcases eq_or_collides (Buf.toList_inj.1 heq) with hinfo | hc
    · exact Or.inl (expandInfo_inj hl hl' hinfo)
    · exact Or.inr (Or.inl hc)
  · exact Or.inr (Or.inr hc)

/-- Different labels or contexts give different commitments, or a collision. -/
theorem expandCommitment_ne {root : Bytes32} {label label' context context' : Bytes}
    (hl : label.length ≤ 255) (hl' : label'.length ≤ 255)
    (hne : ¬(label = label' ∧ context = context')) :
    vaultExpandCommitment E root label context ≠ vaultExpandCommitment E root label' context' ∨
      CommitmentCollision E root label context label' context' := by
  by_cases h : vaultExpandCommitment E root label context =
      vaultExpandCommitment E root label' context'
  · exact Or.inr ((expandCommitment_inj hl hl' h).resolve_left hne)
  · exact Or.inl h

theorem hashlock_ne {root : Bytes32} {v w : UInt8} (h : v ≠ w) :
    vaultDeriveHashlockCommitment E root v ≠ vaultDeriveHashlockCommitment E root w ∨
      HashlockCollision E root v w :=
  expandCommitment_ne (by decide) (by decide) fun he => h (by simpa using he.2)

theorem hashlock_ne_anchor {root : Bytes32} {v : UInt8} :
    vaultDeriveHashlockCommitment E root v ≠ vaultDeriveAuthAnchorCommitment E root ∨
      AnchorCollision E root v :=
  expandCommitment_ne (by decide) (by decide) fun he => List.cons_ne_nil _ _ he.2

theorem domain_separation (E : Env) : DomainSeparation E where
  expand _ _ _ _ hl hl' h := expandInfo_inj hl hl' h
  info name name' context context' pk pk' h := by
    obtain ⟨hname, hpk, hcontext⟩ := rootInfo_inj h
    exact ⟨eq_or_collides hname, hpk, hcontext⟩
  hashlocks _ _ _ h := hashlock_ne h
  anchor _ _ := hashlock_ne_anchor
  roots name name' context context' pk pk' hne := by
    let prk := E.hkdfExtract E.vaultPrivkey.toList (ascii "derive-context-hash")
    by_cases h : E.hmacSha256 prk.toList (rootInfo E name pk.toList context) =
        E.hmacSha256 prk.toList (rootInfo E name' pk'.toList context')
    · rcases eq_or_collides h with hinfo | hc
      · exact absurd (rootInfo_inj hinfo).2.2 hne
      · exact Or.inr hc
    · exact Or.inl h

/-! ## In a session -/

variable {ls : List Exchange} {d : Device}

/-- The hashlocks of a loaded session differ from each other and from its auth anchor, unless
    its root has a collision at them. -/
theorem Reach.commitments_separate (h : Reach E ls d) (hs : d.ctx.state = .intentLoaded) :
    ∃ root, Opened E (Log.ofRun ls) root d.ctx ∧
      (∀ g < d.intent.vaultCount,
        (d.ctx.htlcHashlock.pick g ≠ d.ctx.authAnchorHash ∨
          AnchorCollision E root (d.intent.group g).htlcVout) ∧
        ∀ g' < d.intent.vaultCount, g ≠ g' →
          d.ctx.htlcHashlock.pick g ≠ d.ctx.htlcHashlock.pick g' ∨
            HashlockCollision E root (d.intent.group g).htlcVout (d.intent.group g').htlcVout) := by
  have hl := h.session.loaded hs
  obtain ⟨root, ho, hc⟩ := hl.opened
  refine ⟨root, ho, fun g hg => ⟨?_, fun g' hg' hne => ?_⟩⟩
  · rw [hc.hashlock g hg, hc.authAnchor]
    exact hashlock_ne_anchor
  · rw [hc.hashlock g hg, hc.hashlock g' hg']
    -- the vouts ascend
    refine hashlock_ne fun he => ?_
    have hv := hl.intent.spec.vouts
    rcases Nat.lt_or_gt_of_ne hne with hlt | hlt
    · exact UInt8.lt_irrefl _ (he ▸ hv g g' hlt hg')
    · exact UInt8.lt_irrefl _ (he ▸ hv g' g hlt hg)

end BabylonVault
