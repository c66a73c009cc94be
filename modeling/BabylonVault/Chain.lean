/-
  The chain of transactions of an intent.

  * `peginTransaction`: the PegIn of a group; its serialization is the 150 bytes that
    `vaultComputePeginTxid` hashes (`encode_peginTransaction`).
  * `AcceptedIn`: a PSBT accepted in the session of a loaded intent.
  * `Reach.tx_chain`: every PegIn accepted for a group is that transaction and spends the
    group's output of the Pre-PegIn, and every Payout spends its first output.
-/
import BabylonVault.Caps
import BabylonVault.Committed
import BabylonVault.Sighash

namespace BabylonVault
open Bytes Prog

variable {E : Env} {st : SignPsbtState} {s : Session} {p : Psbt} {d d' d₀ : Device}
  {ls ls₀ : List Exchange} {it : VaultIntent} {x : Exchange} {gi : ℕ} {vaultSpk claimSpk : Bytes}
  {F : Flow}

/-! ## The PegIn of a group -/

/-- The PegIn of a group, given its scriptPubKeys. -/
def peginTransaction (it : VaultIntent) (gi : ℕ) (vaultSpk claimSpk : Bytes) : Tx where
  version := peginTxVersion
  ins := [⟨it.prepeginTxid, UInt32.ofNat (it.group gi).htlcVout.toNat, peginTxSequence⟩]
  outs := [⟨(it.group gi).vaultAmount, vaultSpk⟩, ⟨(it.group gi).depositorClaimValue, claimSpk⟩,
    ⟨p2aAnchorValue, p2aScript⟩]
  lockTime := 0

/-- The source's serializer writes the transaction. -/
theorem encode_peginTransaction (hv : vaultSpk.length = p2trSpkLen)
    (hc : claimSpk.length = p2trSpkLen) :
    (peginTransaction it gi vaultSpk claimSpk).encode = peginTx it gi vaultSpk claimSpk := by
  have hvout : (UInt32.ofNat (it.group gi).htlcVout.toNat).toNat = (it.group gi).htlcVout.toNat := by
    have hlt := (it.group gi).htlcVout.toNat_lt
    rw [UInt32.toNat_ofNat', Nat.mod_eq_of_lt (by omega)]
  have h1 : compactSize 1 = leBytes 1 1 := rfl
  have h3 : compactSize 3 = leBytes 1 3 := rfl
  have h34 : compactSize p2trSpkLen = leBytes 1 p2trSpkLen := rfl
  have h4 : compactSize p2aScript.length = leBytes 1 4 := rfl
  have h0 : leBytes 1 0 = [0] := rfl
  have hl : (0 : UInt32).toNat = 0 := rfl
  simp only [Tx.encode, peginTransaction, List.length_cons, List.length_nil, List.flatMap_cons,
    List.flatMap_nil, TxIn.encode, TxOut.encode, hvout, hv, hc, h34, h4, peginTx, h0, hl,
    List.append_nil, List.append_assoc]
  rw [← h1, ← h3]

theorem length_peginTx (hv : vaultSpk.length = p2trSpkLen) (hc : claimSpk.length = p2trSpkLen) :
    (peginTx it gi vaultSpk claimSpk).length = 150 := by
  unfold p2trSpkLen at hv hc
  simp only [peginTx, List.length_append, length_leBytes, List.Vector.toList_length, hv,
    hc]
  rfl

theorem length_tweakScriptpubkey {root : Bytes32} {spk : Bytes}
    (h : vaultTaprootTweakScriptpubkey E root = some spk) : spk.length = p2trSpkLen := by
  obtain ⟨r, -, rfl⟩ := Option.map_eq_some_iff.1 h
  simp [p2trSpk, p2trSpkLen]

/-- The transaction whose txid the source computes for a group. -/
def IsPegin (E : Env) (it : VaultIntent) (gi : ℕ) (t : Tx) : Prop :=
  ∃ vaultSpk claimSpk, vaultBuildVaultUtxoScriptpubkey E it gi = some vaultSpk ∧
    vaultBuildDepositorClaimScriptpubkey E it = some claimSpk ∧
    t = peginTransaction it gi vaultSpk claimSpk

namespace IsPegin
variable {t u : Tx} {g g' : ℕ}

theorem length_spk (hv : vaultBuildVaultUtxoScriptpubkey E it gi = some vaultSpk)
    (hc : vaultBuildDepositorClaimScriptpubkey E it = some claimSpk) :
    vaultSpk.length = p2trSpkLen ∧ claimSpk.length = p2trSpkLen := by
  simp only [vaultBuildVaultUtxoScriptpubkey, vaultBuildDepositorClaimScriptpubkey,
    Option.bind_eq_bind, Option.bind_eq_some_iff] at hv hc
  obtain ⟨_, -, hv'⟩ := hv
  obtain ⟨_, -, hc'⟩ := hc
  exact ⟨length_tweakScriptpubkey hv', length_tweakScriptpubkey hc'⟩

/-- There is one for each group at most. -/
theorem unique (h : IsPegin E it gi t) (h' : IsPegin E it gi u) : t = u := by
  obtain ⟨v, c, hv, hc, rfl⟩ := h
  obtain ⟨v', c', hv', hc', rfl⟩ := h'
  obtain rfl := Option.some.inj (hv.symm.trans hv')
  obtain rfl := Option.some.inj (hc.symm.trans hc')
  rfl

/-- The source hashes its 150 bytes. -/
theorem encode (h : IsPegin E it gi t) : ∃ vaultSpk claimSpk,
    vaultBuildVaultUtxoScriptpubkey E it gi = some vaultSpk ∧
    vaultBuildDepositorClaimScriptpubkey E it = some claimSpk ∧
    t.encode = peginTx it gi vaultSpk claimSpk ∧ t.encode.length = 150 := by
  obtain ⟨v, c, hv, hc, rfl⟩ := h
  obtain ⟨hvl, hcl⟩ := length_spk hv hc
  exact ⟨v, c, hv, hc, encode_peginTransaction hvl hcl,
    by rw [encode_peginTransaction hvl hcl, length_peginTx hvl hcl]⟩

theorem txid (h : IsPegin E it gi t) :
    vaultComputePeginTxid E it gi = some (doubleSha256 E t.encode) := by
  obtain ⟨v, c, hv, hc, he, -⟩ := h.encode
  rw [he]
  simp [vaultComputePeginTxid, hv, hc]

theorem of_txid {txid : Bytes32} (h : vaultComputePeginTxid E it gi = some txid) :
    ∃ t, IsPegin E it gi t ∧ txid = doubleSha256 E t.encode := by
  obtain ⟨v, hv, h'⟩ := Option.bind_eq_some_iff.1 h
  obtain ⟨c, hc, h''⟩ := Option.bind_eq_some_iff.1 h'
  have ht : IsPegin E it gi (peginTransaction it gi v c) := ⟨v, c, hv, hc, rfl⟩
  exact ⟨_, ht, Option.some.inj (h.symm.trans ht.txid)⟩

theorem sized (h : IsPegin E it gi t) : t.Sized := by
  obtain ⟨v, c, hv, hc, rfl⟩ := h
  obtain ⟨hvl, hcl⟩ := length_spk hv hc
  refine ⟨show 1 < 256 ^ 8 by omega, show 3 < 256 ^ 8 by omega, ?_⟩
  simp only [peginTransaction, List.forall_mem_cons, hvl, hcl, p2trSpkLen]
  decide

/-- The PegIns of two groups are two transactions. -/
theorem group_eq (hs : LoadedIntent E it) (hg : g < it.vaultCount) (hg' : g' < it.vaultCount)
    (h : IsPegin E it g t) (h' : IsPegin E it g' u) (he : t.encode = u.encode) : g = g' := by
  obtain rfl := Tx.encode_inj h.sized h'.sized he
  obtain ⟨v, c, -, -, rfl⟩ := h
  obtain ⟨v', c', -, -, ht⟩ := h'
  have hvout : (it.group g).htlcVout = (it.group g').htlcVout := by
    have hin := congrArg (fun t : Tx => t.ins.map (·.vout.toNat)) ht
    have hlt := (it.group g).htlcVout.toNat_lt
    have hlt' := (it.group g').htlcVout.toNat_lt
    simp only [peginTransaction, List.map_cons, List.map_nil, List.cons.injEq, and_true,
      UInt32.toNat_ofNat', Nat.mod_eq_of_lt (show (it.group g).htlcVout.toNat < 2 ^ 32 by omega),
      Nat.mod_eq_of_lt (show (it.group g').htlcVout.toNat < 2 ^ 32 by omega)] at hin
    exact UInt8.toNat_inj.1 hin
  rcases lt_trichotomy g g' with hlt | heq | hlt
  · have := hs.groups.vout_lt hlt hg'
    rw [hvout] at this
    exact absurd this (UInt8.lt_irrefl _)
  · exact heq
  · have := hs.groups.vout_lt hlt hg
    rw [hvout] at this
    exact absurd this (UInt8.lt_irrefl _)

end IsPegin

/-! ## The session of an intent -/

/-- The session still holds the intent of `d₀` and its hashlocks. -/
structure SameIntent (d₀ d : Device) : Prop where
  intent : d.intent = d₀.intent
  hashlock : d.ctx.htlcHashlock = d₀.ctx.htlcHashlock

theorem SameIntent.refl (d : Device) : SameIntent d d := ⟨rfl, rfl⟩

theorem SameIntent.trans (h : SameIntent d₀ d) (h' : SameIntent d d') : SameIntent d₀ d' :=
  ⟨h'.intent.trans h.intent, h'.hashlock.trans h.hashlock⟩

theorem SameLoaded.sameIntent (h : SameLoaded d d') : SameIntent d d' :=
  ⟨h.2, congrArg VaultContext.htlcHashlock h.1⟩

theorem SigKind.count_sameIntent (kind : SigKind) (d : Device) : SameIntent d (kind.count d) := by
  cases kind <;> exact ⟨rfl, rfl⟩

theorem LiveEnd.sameIntent (h : LiveEnd d x d') (hl : d'.ctx.state = .intentLoaded) :
    SameIntent d d' := by
  cases h with
  | nothing _ _ hd => exact (hd hl).sameIntent
  | prepegin _ _ _ hd =>
    have hc : SameIntent d (countPrepegin d) := ⟨rfl, rfl⟩
    exact hc.trans (hd hl).sameIntent
  | @signed kind _ _ _ _ hd => exact (kind.count_sameIntent d).trans (hd hl).sameIntent

/-- While a session lasts it holds one intent. -/
theorem Reach.sameIntent (h : Reach E ls₀ d₀) (hr : Run (LiveStep E) d₀ ls d) :
    (∃ ls', Reach E ls' d) ∧ (d.ctx.state = .intentLoaded → SameIntent d₀ d) := by
  refine Run.inv (P := fun d => (∃ ls', Reach E ls' d) ∧
    (d.ctx.state = .intentLoaded → SameIntent d₀ d)) ⟨⟨ls₀, h⟩, fun _ => .refl d₀⟩ ?_ hr
  rintro d x d' ⟨⟨ls', hd⟩, hsame⟩ ⟨hl, hx⟩
  exact ⟨⟨_, hd.snoc hx⟩, fun hl' =>
    (hsame hl).trans ((hx.toEnd.live hd.session hl).sameIntent hl')⟩

/-- A PSBT accepted in the session that was loaded at `d₀`. -/
def AcceptedIn (E : Env) (d₀ : Device) (st : SignPsbtState) (p : Psbt) (F : Flow) (d' : Device) :
    Prop :=
  ∃ ls d, Run (LiveStep E) d₀ ls d ∧ (validateAndDisplayTransaction E st).Via p.AllowsDev d F d'

/-! ## The chain -/

/-- Serializations that the hash tells apart, those of an intent's PegIns among them. -/
structure HashedApart (E : Env) (it : VaultIntent) (T : Set Bytes) : Prop where
  inj : Set.InjOn (doubleSha256 E) T
  pegins : ∀ gi < it.vaultCount, ∀ t, IsPegin E it gi t → t.encode ∈ T

/-- What holds of a PegIn of group `gi` and of every Pre-PegIn of its session: the bytes, the
    outpoint it spends, and the transaction and the script behind that outpoint. -/
structure PeginLink (E : Env) (T : Set Bytes) (d₀ : Device) (gi : ℕ) (st : SignPsbtState)
    (p : Psbt) : Prop where
  group : gi < d₀.intent.vaultCount
  bytes : ∃ vaultSpk claimSpk, vaultBuildVaultUtxoScriptpubkey E d₀.intent gi = some vaultSpk ∧
    vaultBuildDepositorClaimScriptpubkey E d₀.intent = some claimSpk ∧
    (p.tx st).encode = peginTx d₀.intent gi vaultSpk claimSpk ∧ (p.tx st).encode.length = 150
  txid : vaultComputePeginTxid E d₀.intent gi = some (doubleSha256 E (p.tx st).encode)
  spends : st.nInputs = 1 ∧ p.prevTxid 0 = d₀.intent.prepeginTxid ∧
    (p.txIn 0).vout.toNat = (d₀.intent.group gi).htlcVout.toNat
  funded : ∀ {st' p' d'}, AcceptedIn E d₀ st' p' .prepegin d' →
    doubleSha256 E (p'.tx st').encode = p.prevTxid 0 ∧
    (∃ value spk, (p'.tx st').outs[(p.txIn 0).vout.toNat]? = some ⟨value, spk⟩ ∧
      vaultBuildHtlcScriptpubkey E d₀.intent gi (d₀.ctx.htlcHashlock.pick gi) = some spk ∧
      p.utxoScript 0 = spk) ∧
    ((p'.tx st').encode ∈ T → ∀ b ∈ T, doubleSha256 E b = p.prevTxid 0 → b = (p'.tx st').encode)

/-- What holds of a Payout of group `gi`: the transaction and the output behind Input 0. -/
structure PayoutLink (E : Env) (T : Set Bytes) (d₀ : Device) (gi : ℕ) (p : Psbt) : Prop where
  group : gi < d₀.intent.vaultCount
  spends : ∃ t, IsPegin E d₀.intent gi t ∧ p.prevTxid 0 = doubleSha256 E t.encode ∧
    (p.txIn 0).vout = 0 ∧ t.outs[0]? = some ⟨(d₀.intent.group gi).vaultAmount, p.utxoScript 0⟩ ∧
    p.utxoValue 0 = (d₀.intent.group gi).vaultAmount.toNat ∧
    (∀ b ∈ T, doubleSha256 E b = p.prevTxid 0 → b = t.encode) ∧
    ∀ {st' p' d'}, AcceptedIn E d₀ st' p' .pegin d' → d'.tr.vaultGroupIndex = gi → p'.tx st' = t
  unique : ∀ g < d₀.intent.vaultCount,
    vaultComputePeginTxid E d₀.intent g = some (p.prevTxid 0) → g = gi

/-- The transactions of a session hang together. -/
structure TxChain (E : Env) (T : Set Bytes) (d₀ : Device) : Prop where
  pegin : ∀ {st p d'}, AcceptedIn E d₀ st p .pegin d' →
    PeginLink E T d₀ d'.tr.vaultGroupIndex st p
  payout : ∀ {st p d'}, AcceptedIn E d₀ st p .payout d' →
    PayoutLink E T d₀ d'.tr.vaultGroupIndex p
  distinct : ∀ g < d₀.intent.vaultCount, ∀ g' < d₀.intent.vaultCount, g ≠ g' → ∀ {x x'},
    vaultComputePeginTxid E d₀.intent g = some x →
    vaultComputePeginTxid E d₀.intent g' = some x' → x ≠ x'

variable {T : Set Bytes} {g g' : ℕ} {b : Bytes} {t : Tx}

theorem HashedApart.eq (h : HashedApart E it T) (hg : gi < it.vaultCount)
    (ht : IsPegin E it gi t) (hb : b ∈ T) (he : doubleSha256 E b = doubleSha256 E t.encode) :
    b = t.encode :=
  h.inj hb (h.pegins gi hg t ht) he

theorem HashedApart.group_eq (h : HashedApart E it T) (hs : LoadedIntent E it)
    (hg : g < it.vaultCount) (hg' : g' < it.vaultCount) {x : Bytes32}
    (hx : vaultComputePeginTxid E it g = some x) (hx' : vaultComputePeginTxid E it g' = some x) :
    g = g' := by
  obtain ⟨t, ht, rfl⟩ := IsPegin.of_txid hx
  obtain ⟨u, hu, he⟩ := IsPegin.of_txid hx'
  exact ht.group_eq hs hg hg' hu (h.eq hg' hu (h.pegins g hg t ht) he)

theorem PeginAccepted.isPegin (h : PeginAccepted E st s p.Allows gi) :
    IsPegin E s.intent gi (p.tx st) := by
  obtain ⟨value, hin, hout⟩ := h.inOut
  obtain ⟨vaultSpk, hv, -, hr0⟩ := hout.vault
  obtain ⟨claimSpk, hc, -, hr1⟩ := hout.claim
  obtain ⟨x, hx, hxe⟩ := hin.vout
  have hxin : p.txIn 0 =
      ⟨s.intent.prepeginTxid, UInt32.ofNat (s.intent.group gi).htlcVout.toNat, peginTxSequence⟩ := by
    rw [Psbt.txIn, Psbt.prevTxid_eq hin.txid, Psbt.uint32_eq hx, Psbt.uint32_eq hin.sequence, ← hxe,
      UInt32.ofNat_toNat]
  refine ⟨vaultSpk, claimSpk, hv, hc, ?_⟩
  rw [Psbt.tx, h.version, h.locktime, h.nInputs, h.nOutputs, peginTransaction]
  simp only [List.range_succ, List.range_zero, List.nil_append, List.map_cons, List.map_nil,
    List.cons_append, hxin, Psbt.txOut_eq hr0, Psbt.txOut_eq hr1,
    Psbt.txOut_eq hout.anchor]

/-- The session in which a PSBT of an intent's flow was accepted. -/
theorem AcceptedIn.session (h : Reach E ls₀ d₀) (ha : AcceptedIn E d₀ st p F d')
    (hl : ∀ s v v', Accepted E st s p.Allows v F v' → s.ctx.state = .intentLoaded) :
    ∃ d junk v', SameIntent d₀ d ∧ Accepted E st d.session p.Allows d.volatile F v' ∧
      d' = acceptedDevice d F junk v' := by
  obtain ⟨ls, d, hr, hv⟩ := ha
  obtain ⟨-, junk, v', hacc, rfl⟩ := validateAndDisplayTransaction_via hv
  exact ⟨d, junk, v', (h.sameIntent hr).2 (hl _ _ _ hacc), hacc, rfl⟩

theorem AcceptedIn.pegin (h : Reach E ls₀ d₀) (ha : AcceptedIn E d₀ st p .pegin d') :
    ∃ s : Session, s.intent = d₀.intent ∧ s.ctx.htlcHashlock = d₀.ctx.htlcHashlock ∧
      PeginAccepted E st s p.Allows d'.tr.vaultGroupIndex := by
  obtain ⟨d, junk, v', hsame, hacc, rfl⟩ := ha.session h fun _ _ _ hacc => by
    cases hacc with
    | pegin _ ha => exact ha.loaded
    | leaf hF => exact Bool.noConfusion hF
  cases hacc with
  | pegin _ hp => exact ⟨d.session, hsame.intent, hsame.hashlock, hp⟩
  | leaf hF => exact Bool.noConfusion hF

theorem AcceptedIn.payout (h : Reach E ls₀ d₀) (ha : AcceptedIn E d₀ st p .payout d') :
    ∃ (s : Session) (ci : ℕ) (cb script : Bytes), s.intent = d₀.intent ∧
      PayoutAccepted E st s p.Allows d'.tr.vaultGroupIndex ci cb script := by
  obtain ⟨d, junk, v', hsame, hacc, rfl⟩ := ha.session h fun _ _ _ hacc => by
    cases hacc with
    | payout _ _ ha => exact ha.loaded
    | leaf hF => exact Bool.noConfusion hF
  cases hacc with
  | payout _ _ hp => exact ⟨d.session, _, _, _, hsame.intent, hp⟩
  | leaf hF => exact Bool.noConfusion hF

theorem AcceptedIn.prepegin (h : Reach E ls₀ d₀) (ha : AcceptedIn E d₀ st p .prepegin d') :
    ∃ s : Session, s.intent = d₀.intent ∧ s.ctx.htlcHashlock = d₀.ctx.htlcHashlock ∧
      PrepeginAccepted E st s p.Allows := by
  obtain ⟨d, junk, v', hsame, hacc, -⟩ := ha.session h fun _ _ _ hacc => by
    cases hacc with
    | prepegin _ _ ha => exact ha.loaded
    | leaf hF => exact Bool.noConfusion hF
  cases hacc with
  | prepegin _ _ hp => exact ⟨d.session, hsame.intent, hsame.hashlock, hp⟩
  | leaf hF => exact Bool.noConfusion hF

theorem PeginAccepted.link (h : Reach E ls₀ d₀)
    (hw : ∀ n, E.hashUpdateVarint n = compactSize n) (hT : HashedApart E d₀.intent T)
    (hi : s.intent = d₀.intent) (hh : s.ctx.htlcHashlock = d₀.ctx.htlcHashlock)
    (ha : PeginAccepted E st s p.Allows gi) : PeginLink E T d₀ gi st p := by
  obtain ⟨value, hin, -⟩ := ha.inOut
  have ht : IsPegin E d₀.intent gi (p.tx st) := hi ▸ ha.isPegin
  have hg : gi < d₀.intent.vaultCount := hi ▸ hin.group
  obtain ⟨x, hx, hxe⟩ := hin.vout
  have hvout : (p.txIn 0).vout = x := Psbt.uint32_eq hx
  have hprev : p.prevTxid 0 = d₀.intent.prepeginTxid := hi ▸ Psbt.prevTxid_eq hin.txid
  obtain ⟨spk, hspk, hutxo⟩ := hin.utxo
  refine ⟨hg, ht.encode, ht.txid, ⟨ha.nInputs, hprev, by rw [hvout, hxe, hi]⟩, ?_⟩
  intro st' p' d' hpre
  obtain ⟨s', hi', hh', ha'⟩ := hpre.prepegin h
  obtain ⟨t, htx, htxid⟩ := ha'.tx
  have hhash : doubleSha256 E (p'.tx st').encode = p.prevTxid 0 := by
    rw [Psbt.tx_eq htx, ← Env.encodeTx_eq hw, htxid, hi', hprev]
  refine ⟨hhash, ?_, fun hmem b hb he => hT.inj hb hmem (he.trans hhash.symm)⟩
  -- the output that the Pre-PegIn validator compared is the one spent here
  obtain ⟨hlt, spk', value', hspk', hr, -⟩ := ha'.htlc gi (hi' ▸ hg)
  rw [hi', hh'] at hspk'
  rw [hi'] at hlt hr
  have hspk₀ : vaultBuildHtlcScriptpubkey E d₀.intent gi (d₀.ctx.htlcHashlock.pick gi) = some spk := by
    rw [← hi, ← hh]
    exact hspk
  obtain rfl : spk' = spk := Option.some.inj (hspk'.symm.trans hspk₀)
  refine ⟨value', spk', ?_, hspk₀, (Psbt.reads_utxo hutxo).2⟩
  have hout : (p'.tx st').outs[(d₀.intent.group gi).htlcVout.toNat]? =
      some (p'.txOut (d₀.intent.group gi).htlcVout.toNat) := by
    simp [Psbt.tx, hlt]
  rw [hvout, hxe, hi, hout, Psbt.txOut_eq hr]

theorem PayoutAccepted.link {ci : ℕ} {cb script : Bytes} (h : Reach E ls₀ d₀)
    (h₀ : LoadedIntent E d₀.intent) (hT : HashedApart E d₀.intent T) (hi : s.intent = d₀.intent)
    (ha : PayoutAccepted E st s p.Allows gi ci cb script) : PayoutLink E T d₀ gi p := by
  obtain ⟨txid, hread, hfind⟩ := ha.found
  rw [hi] at hfind
  have hmem := List.mem_of_find?_eq_some hfind
  have hg : gi < d₀.intent.vaultCount := List.mem_range.1 hmem
  have hprev : p.prevTxid 0 = txid := Psbt.prevTxid_eq hread
  have htxid : vaultComputePeginTxid E d₀.intent gi = some (p.prevTxid 0) := by
    rw [hprev]
    simpa using List.find?_some hfind
  obtain ⟨t, ht, he⟩ := IsPegin.of_txid htxid
  obtain ⟨spk, hspk, hutxo⟩ := ha.vault.utxo
  rw [hi] at hspk hutxo
  obtain ⟨hvalue, hscript⟩ := Psbt.reads_utxo hutxo
  refine ⟨hg, ⟨t, ht, he, Psbt.uint32_eq ha.vault.vout, ?_, hvalue, ?_, ?_⟩, ?_⟩
  · obtain ⟨vaultSpk, _, hv, -, rfl⟩ := ht
    obtain rfl := Option.some.inj (hspk.symm.trans hv)
    rw [hscript]
    rfl
  · intro b hb hb'
    exact hT.eq hg ht hb (hb'.trans he)
  · intro st' p' d' hpegin hgi
    obtain ⟨s', hi', -, ha'⟩ := hpegin.pegin h
    rw [hgi] at ha'
    exact (hi' ▸ ha'.isPegin : IsPegin E d₀.intent gi (p'.tx st')).unique ht
  · intro g hg' hgx
    exact hT.group_eq h₀ hg' hg hgx htxid

/-- In the session of a loaded intent, every PegIn and every Payout that is accepted belongs
    to the chain of one group. -/
theorem Reach.tx_chain (h : Reach E ls₀ d₀) (h₀ : d₀.ctx.state = .intentLoaded)
    (hw : ∀ n, E.hashUpdateVarint n = compactSize n) (hT : HashedApart E d₀.intent T) :
    TxChain E T d₀ := by
  have hs : LoadedIntent E d₀.intent := (h.session.loaded h₀).intent
  constructor
  · intro st p d' ha
    obtain ⟨s, hi, hh, hp⟩ := ha.pegin h
    exact hp.link h hw hT hi hh
  · intro st p d' ha
    obtain ⟨s, ci, cb, script, hi, hp⟩ := ha.payout h
    exact hp.link h hs hT hi
  · rintro g hg g' hg' hne x x' hx hx' rfl
    exact hne (hT.group_eq hs hg hg' hx hx')

/-- A PSBT that is accepted at once, for this group. -/
theorem AcceptedIn.of_eval (ans : Answers) (hans : ∀ q, p.AllowsDev q (ans q))
    (h : Prod.map id (·.tr.vaultGroupIndex) ((validateAndDisplayTransaction E st).eval ans d₀) =
      (.ok F, g)) : ∃ d', AcceptedIn E d₀ st p F d' ∧ d'.tr.vaultGroupIndex = g := by
  obtain ⟨hok, hg⟩ := Prod.mk.inj h
  exact ⟨_, ⟨[], d₀, .nil, via_of_eval hans hok⟩, hg⟩

namespace Signet

/-- The serializations of the Pre-PegIn and of the PegIns. -/
def chainBytes : Set Bytes :=
  {b | b = (prepegin.tx prepeginState).encode ∨
    ∃ gi < intent.vaultCount, ∃ t, IsPegin env intent gi t ∧ b = t.encode}

theorem chain_txids : [some (doubleSha256 env (prepegin.tx prepeginState).encode),
    vaultComputePeginTxid env intent 0, vaultComputePeginTxid env intent 1].Nodup := by
  decide +kernel

theorem chain_apart : HashedApart env intent chainBytes := by
  have hne := chain_txids
  simp only [List.nodup_cons, List.mem_cons, List.not_mem_nil, or_false, not_or, List.nodup_nil,
    not_false_eq_true, and_true] at hne
  obtain ⟨⟨h0, h1⟩, h01⟩ := hne
  have htwo : ∀ {gi}, gi < intent.vaultCount → gi = 0 ∨ gi = 1 := by
    intro gi hg
    have : intent.vaultCount = 2 := rfl
    omega
  refine ⟨?_, fun gi hg t ht => .inr ⟨gi, hg, t, ht, rfl⟩⟩
  rintro _ (rfl | ⟨g, hg, t, ht, rfl⟩) _ (rfl | ⟨g', hg', u, hu, rfl⟩) he
  · rfl
  · have hx := hu.txid
    rw [← he] at hx
    rcases htwo hg' with rfl | rfl
    · exact absurd hx.symm h0
    · exact absurd hx.symm h1
  · have hx := ht.txid
    rw [he] at hx
    rcases htwo hg with rfl | rfl
    · exact absurd hx.symm h0
    · exact absurd hx.symm h1
  · have hx := ht.txid
    have hx' := hu.txid
    rw [he, ← hx'] at hx
    rcases htwo hg with rfl | rfl <;> rcases htwo hg' with rfl | rfl
    · exact congrArg Tx.encode (ht.unique hu)
    · exact absurd hx h01
    · exact absurd hx.symm h01
    · exact congrArg Tx.encode (ht.unique hu)

/-- The first vault: its Pre-PegIn, its PegIn and a Payout of it. -/
theorem tx_chain_loaded : TxChain env chainBytes (loaded intent) ∧
    PeginLink env chainBytes (loaded intent) 0 peginState pegin ∧
    doubleSha256 env (prepegin.tx prepeginState).encode = pegin.prevTxid 0 ∧
    PayoutLink env chainBytes (loaded intent) 0 payoutSmall := by
  have hi : (loaded intent).intent = intent := by
    rw [loaded_intent]
    rfl
  have hchain : TxChain env chainBytes (loaded intent) := by
    refine Reach.tx_chain (reach_loaded intent) loaded_state (fun _ => rfl) ?_
    rw [hi]
    exact chain_apart
  obtain ⟨d₁, hpre, -⟩ : ∃ d', AcceptedIn env (loaded intent) prepeginState prepegin .prepegin d' ∧
      d'.tr.vaultGroupIndex = 2 :=
    AcceptedIn.of_eval _ (prepegin.answers_allows (Buf.zero 32))
      (by rw [loaded_intent]; decide +kernel)
  obtain ⟨d₂, hpegin, h₂⟩ : ∃ d', AcceptedIn env (loaded intent) peginState pegin .pegin d' ∧
      d'.tr.vaultGroupIndex = 0 :=
    AcceptedIn.of_eval _ (pegin.answers_allows (Buf.zero 32)) (by rw [loaded_intent]; decide +kernel)
  obtain ⟨d₃, hpayout, h₃⟩ : ∃ d', AcceptedIn env (loaded intent) (parsed payoutSmall 105000 99546)
      payoutSmall .payout d' ∧ d'.tr.vaultGroupIndex = 0 :=
    AcceptedIn.of_eval _ (payoutSmall.answers_allows (Buf.zero 32))
      (by rw [loaded_intent]; decide +kernel)
  have hlink := hchain.pegin hpegin
  have hlink' := hchain.payout hpayout
  rw [h₂] at hlink
  rw [h₃] at hlink'
  exact ⟨hchain, hlink, (hlink.funded hpre).1, hlink'⟩

end Signet

end BabylonVault
