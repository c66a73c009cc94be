/-
  Every specified intent can be loaded.

  * `derive_opens`: a derivation in one APDU opens its session, whatever came before.
  * `finishIntent_approved`: the last handler, when the user approves.
  * `Cut.approved`: however the records are cut, the session that was shown is the one
    that is loaded.
  * `Reach.loadable`: no reachable device is stuck; a derivation and a load bring it to
    any intent as specified.
-/
import BabylonVault.Admission

namespace BabylonVault
open Bytes

variable {E : Env} {src it : VaultIntent} {n : ℕ}

/-! ## Opening a session -/

theorem transitionM_run {a b : VaultState} {d : Device} (hst : d.ctx.state = a)
    (hab : vaultTransitionAllowed a b = true) :
    transitionM a b d = .ret (.ok (), { d with ctx := { d.ctx with state := b } }) := by
  have hnext : vaultContextTransition a b d =
      some { d with ctx := { d.ctx with state := b } } := by
    rw [vaultContextTransition, if_neg (by simp [hst, hab])]
  rw [transitionM, Prog.get_bind_run, hnext]
  rfl

/-- The user's approval of a derivation that is asked for. -/
theorem confirmDerive_approved {ans : Answers} {d : Device}
    (ha : (ans (.read (.show (.deriveContextHash d.deriveCtx.appNameBuf))) : Bool) = true) :
    Reviews ans confirmDerive d [] fun r d' => r = .ok true ∧ d' = d := by
  refine .get_bind ?_
  split_ifs
  · exact (Reviews.ask (q := .read (.show (.deriveContextHash d.deriveCtx.appNameBuf)))
      ⟨congrArg Except.ok ha, rfl⟩)
  · exact .ret rfl ⟨rfl, rfl⟩

/-- A session of the derivation `c`. -/
structure Derived (E : Env) (c : InitialChunk) (d : Device) : Prop where
  state : d.ctx.state = .hashDerived
  path : d.ctx.derivationPath = c.path
  name : d.ctx.appName = c.appName
  root : ∃ pk, E.pubkeyAt c.path = some pk ∧
    d.ctx.root = hkdfDeriveRoot E c.appName pk.toList c.firstChunk

theorem openSession_opens {ans : Answers} {d : Device} {c : InitialChunk} {pk : Buf 33}
    (hf : ans .fault = false) (hst : d.ctx.state = .idle)
    (hd : d.deriveCtx = ⟨c.appName, c.path, c.firstChunk⟩) (hpk : E.pubkeyAt c.path = some pk) :
    Reviews ans (openSession E pk) d [] fun _ d' => Derived E c d' := by
  refine .modify_bind (.modify_bind (.callM_bind hf (.callM_bind hf (.modify_bind ?_))))
  refine .next (.ret (transitionM_run ?_ rfl) ?_)
  · exact hst
  refine .modify_bind (.get_bind (.ret rfl ⟨rfl, ?_, ?_, pk, hpk, ?_⟩))
  · exact congrArg DeriveCtx.path hd
  · exact congrArg DeriveCtx.appNameBuf hd
  · show hkdfDeriveRoot E d.deriveCtx.appNameBuf pk.toList d.deriveCtx.contextBuf = _
    rw [hd]

theorem finalizeDerive_opens {ans : Answers} {d : Device} {c : InitialChunk} {pk : Buf 33}
    (hf : ans .fault = false) (hst : d.ctx.state = .idle)
    (hd : d.deriveCtx = ⟨c.appName, c.path, c.firstChunk⟩) (hpk : E.pubkeyAt c.path = some pk)
    (ha : (ans (.read (.show (.deriveContextHash c.appName))) : Bool) = true) :
    Reviews ans (finalizeDerive E) d [] fun _ d' => Derived E c d' := by
  refine .modify_bind (.get_bind (.next (.ask (q := .fault) ?_)))
  have hpk' : E.pubkeyAt d.deriveCtx.path = some pk := by
    rw [hd]
    exact hpk
  dsimp only [Prog.ends]
  rw [hf, if_neg Bool.false_ne_true, hpk']
  refine .next ((confirmDerive_approved ?_).mono ?_)
  · show (ans (.read (.show (.deriveContextHash d.deriveCtx.appNameBuf))) : Bool) = true
    rw [hd]
    exact ha
  · rintro r d' ⟨rfl, rfl⟩
    exact openSession_opens hf hst hd hpk

/-- The derivation `c` in one APDU, no call of which fails, approved if it is asked for. -/
structure DerivesAtOnce (c : InitialChunk) (p2 : UInt8) (data : Bytes) (ans : Answers) : Prop where
  mode : p2 = 0 ∨ p2 = 1
  parsed : parseInitialChunk data = .ok c
  whole : ¬c.firstChunk.length < c.contextTotalLen
  calls : ans .fault = false
  approved : (ans (.read (.show (.deriveContextHash c.appName))) : Bool) = true

/-- A derivation in one APDU opens its session, whatever the device was doing. -/
theorem derive_opens {ans : Answers} {d : Device} {c : InitialChunk} {pk : Buf 33} {p2 : UInt8}
    {data : Bytes} (h : DerivesAtOnce c p2 data ans) (hpk : E.pubkeyAt c.path = some pk) :
    Derived E c (answer E (.derive 0 p2 data) ans d).2 := by
  suffices hr : Reviews ans (handleInitialChunk E p2 data) d [] fun _ d' => Derived E c d' from hr.2
  have hmode : ¬(p2 ≠ 0 ∧ p2 ≠ 1) := fun hne => h.mode.elim hne.1 hne.2
  unfold handleInitialChunk
  rw [if_neg hmode]
  refine .modify_bind (.modify_bind ?_)
  rw [h.parsed]
  refine .modify_bind ?_
  rw [if_neg h.whole]
  refine finalizeDerive_opens h.calls ?_ rfl hpk h.approved
  show (if d.ctx.state ≠ .idle then vaultContextInvalidate d else d).ctx.state = .idle
  split_ifs with hst
  · rfl
  · exact not_not.1 hst

/-! ## The user's approval -/

/-- A session that the user has approved. -/
def Session.approved (s : Session) : Session :=
  { s with ctx := { s.ctx with state := .intentLoaded } }

/-- The user approves every review. -/
def Approving (ans : Answers) : Prop := ∀ s, (ans (.read (.show (.vaultIntent s))) : Bool) = true

theorem Reviews.answer {ans : Answers} {d : Device} {l : List Session} {p1 p2 : UInt8}
    {data : Bytes} {P : Device → Prop}
    (h : Reviews ans (handlerApproveVaultIntent E p1 p2 data) d l fun _ d' => P d') :
    P (answer E (.approve p1 p2 data) ans d).2 := by
  have hh : Reviews ans (handle E (.approve p1 p2 data)) d (l ++ []) fun _ d' => P d' := by
    refine .bind (h.mono fun r d' hP => ?_)
    rcases r with e | u
    · exact ⟨rfl, hP⟩
    · exact .ret rfl hP
  exact hh.2

section
variable {ans : Answers} {d : Device} {s : Session} {c : VaultContext} {bytes : Bytes}
  {gs : List VaultGroup} {ks : List KeyRecord} {gi : ℕ}
  (hf : ans .fault = false)
include hf

/-- Admissible scalars begin a load. -/
theorem scalars_begin {scal : Bytes} (hst : d.ctx.state = .hashDerived)
    (hparse : vaultTlvParse E.network scal .zero = .ok it) :
    (answer E (.approve 0 0 scal) ans d).2 = scalarsDevice d it scal := by
  refine Reviews.answer (l := []) (P := fun d' => d' = scalarsDevice d it scal) ?_
  refine .get_bind ?_
  rw [if_neg (not_not.2 hst)]
  refine .modify_bind (.next (.ret (r := .ok ()) rfl (.get_bind ?_)))
  have hfresh : (restartLoad d).intent = .zero := rfl
  dsimp only
  rw [hfresh, hparse]
  exact .modify_bind (.modify_bind (.next (absorbIntentApdu_reviews hf (.ret rfl rfl))))

variable (ha : Approving ans)
include ha

omit hf in
theorem review_approved (hst : d.ctx.state = .hashDerived) : Reviews ans (do
    let approved : Bool ← askM (.read (.show (.vaultIntent s)))
    requireM (approved = true) .deny
    transitionM .hashDerived .intentLoaded) d [s] fun _ d' => d'.session = d.session.approved := by
  refine .bind (l := [s]) (.ask ?_)
  show Reviews ans (requireM ((ans (.read (.show (.vaultIntent s))) : Bool) = true) .deny >>= _)
    _ _ _
  exact .requireM_bind (ha s) (.ret (transitionM_run hst rfl) rfl)

theorem finishIntent_approved (hst : d.ctx.state = .hashDerived)
    (h : reviewed E d.ctx d.intent d.approve.intentHash = some s) :
    Reviews ans (finishIntent E) d [s] fun _ d' => d'.session = s.approved := by
  obtain ⟨hpath, hroot, pk, hpk, hu⟩ := reviewed_iff.1 ⟨s, h⟩
  rw [reviewed, if_pos hpath, hpk] at h
  obtain ⟨-, h⟩ := Option.ite_none_right_eq_some.1 h
  obtain rfl := Option.some.inj h
  refine .get_bind (.requireM_bind hpath (.callM_bind hf ?_))
  rw [hpk]
  refine .requireM_bind hu (.modify_bind (.requireM_bind hroot ?_))
  refine .next (deriveHashlocks_reviews (d := d.setDepositor pk) (v := d.ctx.htlcHashlock) hf
    (Nat.zero_add d.intent.vaultCount) ?_)
  refine .callM_bind hf (.modify_bind (.modify_bind (.callM_bind hf ?_)))
  refine .modify_bind (.modify_bind (.get_bind ?_))
  refine .next (.next (.ask (q := .scratch) (.ret rfl ?_)))
  refine (review_approved ha ?_).mono fun _ _ h => h
  exact hst

/-- The last keys, and the user's approval. -/
theorem Loading.approved (h : Loading c it it.vaultCount n bytes d) (hst : c.state = .hashDerived)
    (hn : n + ks.length = it.keeperCount + it.challengerCount)
    (hc : completed E c ks it n bytes = some s) :
    (answer E (.approve 2 0 (ks.flatMap encodeKey)) ans d).2.session = s.approved := by
  have hs : d.approve.scalarsLoaded = true := by rw [h.approve]
  have hd : d.ctx.state = .hashDerived := by rw [h.ctx, hst]
  have hv : d.tr.vaultGroupIndex = d.intent.vaultCount := by rw [h.group, h.intent]
  have hr : d.approve.keysReceived = n := by rw [h.approve]
  have hstore : storeKeys E _ _ it n = keyRecords E ks (it, n) := storeKeys_records
  obtain ⟨⟨it', n'⟩, hk, hrev⟩ := Option.bind_eq_some_iff.1 hc
  obtain ⟨rfl, v, w, rfl⟩ := keyRecords_frame hk
  refine Reviews.answer (l := [s]) (P := fun d' => d'.session = s.approved)
    (handleKeyBatch_reviews hf hs hv hd ?_)
  rw [h.intent, hr, hstore, hk]
  dsimp only
  rw [if_neg hn.not_lt]
  refine finishIntent_approved hf ha hd ?_
  have hbytes : ((d.setKeys { it with keeperPks := v, challengerPks := w } (n + ks.length)).absorb
      (ks.flatMap encodeKey)).approve.intentHash = bytes ++ ks.flatMap encodeKey := by
    show d.approve.intentHash ++ _ = _
    rw [h.approve]
  rw [hbytes]
  show reviewed E d.ctx _ _ = _
  rw [h.ctx]
  exact hrev

end

/-! ## The whole load -/

/-- However the records are cut, a load that comes to its review is approved as it was
    shown. -/
theorem Cut.approved {gs : List VaultGroup} {ks : List KeyRecord} {rs : List (Request × Answers)}
    {c : VaultContext} {bytes : Bytes} {gi : ℕ} {s : Session} {d : Device} (h : Cut gs ks rs)
    (ha : ∀ r ∈ rs, Approving r.2) (hl : Loading c it gi n bytes d) (hst : c.state = .hashDerived)
    (hgs : gi + gs.length = it.vaultCount)
    (hks : n + ks.length = it.keeperCount + it.challengerCount)
    (he : loadEnd E c gs ks it gi n bytes = some s) : (play E rs d).2.session = s.approved := by
  induction h generalizing it gi n bytes d with
  | @last ks ans _ hf =>
    obtain rfl : gi = it.vaultCount := hgs
    have hend : loadEnd E c [] ks it it.vaultCount n bytes = completed E c ks it n bytes := by
      simp [loadEnd, groupRecords]
    rw [hend] at he
    exact hl.approved hf (ha _ List.mem_cons_self) hst hks he
  | @noise _ _ req ans _ hn _ ih =>
    have hun : c.state ≠ .intentLoaded := by
      rw [hst]
      decide
    have hsame := hn.same (Step.answer (E := E) req ans d) hl.stream (hl.ctx ▸ hun)
    exact ih (fun r hr => ha r (List.mem_cons_of_mem _ hr)) (hl.same hsame hun) hgs hks he
  | @groups gs gs' ks ans rs hf _ ih =>
    rw [loadEnd_groups] at he
    obtain ⟨⟨it', gi'⟩, hg, he⟩ := Option.bind_eq_some_iff.1 he
    obtain ⟨-, hcase⟩ := hl.groups (.answer hf)
    rw [hg] at hcase
    obtain ⟨rfl, v, rfl⟩ := groupRecords_frame hg
    refine ih (fun r hr => ha r (List.mem_cons_of_mem _ hr)) hcase ?_ hks he
    rw [← hgs, List.length_append, Nat.add_assoc]
  | @keys ks ks' ans rs hf hrest ih =>
    obtain rfl : gi = it.vaultCount := hgs
    have hpos := List.length_pos_iff.2 (hrest.carries (E := E) (d := d)).ne_nil
    rw [List.length_append] at hks
    rw [loadEnd_keys] at he
    obtain ⟨⟨it', n'⟩, hk, he⟩ := Option.bind_eq_some_iff.1 he
    have hsend : Sends E (.approve 2 0 (ks.flatMap encodeKey)) d _ _ := .answer hf
    obtain ⟨-, hcase⟩ := hl.keys hst (by omega) hsend
    rw [hk] at hcase
    obtain ⟨rfl, v, w, rfl⟩ := keyRecords_frame hk
    refine ih (fun r hr => ha r (List.mem_cons_of_mem _ hr)) hcase rfl ?_ he
    rw [← hks, Nat.add_assoc]

/-- The intent `src` is loaded in the session of `d₀`, from these payloads. -/
structure LoadedFrom (E : Env) (src : VaultIntent) (bytes : Bytes) (d₀ d : Device) : Prop where
  intent : Copies src d.intent (src.keeperCount + src.challengerCount)
  depositor : ∃ pk, E.pubkeyAt src.depositorPath.toList = some pk ∧ d.intent.depositorPk = xonly pk
  ctx : d.ctx = { sealedCtx E (loadCtx d₀) d.intent bytes with state := .intentLoaded }

/-- A host that sends an intent as specified, with no failing call and a user who approves,
    brings an open session to it. -/
theorem Reach.loads_derived {es : List Exchange} {d : Device} {σ : List ℕ} {ans : Answers}
    {rs : List (Request × Answers)} (h : Reach E es d) (hs : ScalarsOk E.network src)
    (hst : d.ctx.state = .hashDerived) (hadm : Admitted E d.ctx src)
    (hσ : σ.Perm (List.range 13)) (hf : ans .fault = false)
    (hcut : Cut src.groupList src.keyList rs) (ha : ∀ r ∈ rs, Approving r.2) :
    LoadedFrom E src (scalarPayload (scalarValue src) σ ++ src.groupList.flatMap encodeGroup ++
        src.keyList.flatMap encodeKey) d
      (play E ((.approve 0 0 (scalarPayload (scalarValue src) σ), ans) :: rs) d).2 := by
  have hstart : d.streaming.streamingInProgress = false := by
    by_contra hstream
    have hidle := (h.session.stream (by simpa using hstream)).1
    exact absurd (hidle.symm.trans hst) (by decide)
  have hbegin := scalars_begin (E := E) hf hst (vaultTlvParse_value hs hσ)
  have hload : Loading (loadCtx d) (VaultIntent.zero.copyScalars src) 0 0
      (scalarPayload (scalarValue src) σ)
      (answer E (.approve 0 0 (scalarPayload (scalarValue src) σ)) ans d).2 := by
    rw [hbegin]
    exact ⟨rfl, rfl, rfl, rfl, hstart⟩
  have hctx : Admitted E (loadCtx d) src := ⟨hadm.path, hadm.root, hadm.spec⟩
  obtain ⟨s, he⟩ := (loadEnd_iff hs).2 hctx
  obtain ⟨hcopies, hpk, hsealed⟩ := loadEnd_copies hs he
  have hend := hcut.approved ha hload rfl (by simp [VaultIntent.groupList, VaultIntent.copyScalars])
    (by simp [VaultIntent.keyList, VaultIntent.copyScalars]) he
  generalize hd' : (play E ((.approve 0 0 (scalarPayload (scalarValue src) σ), ans) :: rs) d).2 = d'
  have hsession : d'.session = s.approved := hd' ▸ hend
  have hintent : d'.intent = s.intent := congrArg Session.intent hsession
  have hctx' : d'.ctx = { s.ctx with state := .intentLoaded } := congrArg Session.ctx hsession
  constructor
  · rw [hintent]
    exact hcopies
  · rw [hintent]
    exact hpk
  · rw [hctx', hintent, hsealed]

/-- The derivation `c` opens a session for `src`. -/
structure OpensFor (E : Env) (c : InitialChunk) (src : VaultIntent) : Prop where
  path : c.path = src.depositorPath.toList
  spec : ∃ pk, E.pubkeyAt src.depositorPath.toList = some pk ∧ IntentSpec E (src.withDepositor pk) ∧
    hkdfDeriveRoot E c.appName pk.toList c.firstChunk ≠ Buf.zero 32

/-- Every intent as specified can be loaded, and from every reachable state: a derivation
    for it, its scalars in any order and its records in any batches end in its session,
    if no call fails and the user approves. -/
theorem Reach.loadable {es : List Exchange} {d : Device} {σ : List ℕ} {c : InitialChunk}
    {p2 : UInt8} {data : Bytes} {ans ans' : Answers} {rs : List (Request × Answers)}
    (h : Reach E es d)
    (hs : ScalarsOk E.network src) (hopens : OpensFor E c src) (hd : DerivesAtOnce c p2 data ans)
    (hσ : σ.Perm (List.range 13)) (hf : ans' .fault = false)
    (hcut : Cut src.groupList src.keyList rs) (ha : ∀ r ∈ rs, Approving r.2) :
    ∃ d₁, Derived E c d₁ ∧ LoadedFrom E src
      (scalarPayload (scalarValue src) σ ++ src.groupList.flatMap encodeGroup ++
        src.keyList.flatMap encodeKey) d₁
      (play E ((.derive 0 p2 data, ans) ::
        (.approve 0 0 (scalarPayload (scalarValue src) σ), ans') :: rs) d).2 := by
  obtain ⟨pk, hpk, hspec, hroot⟩ := hopens.spec
  have hpk' : E.pubkeyAt c.path = some pk := hopens.path ▸ hpk
  have hder : Derived E c (answer E (.derive 0 p2 data) ans d).2 := derive_opens hd hpk'
  have hreach : Reach E _ (answer E (.derive 0 p2 data) ans d).2 := .snoc h (.answer _ _ _)
  have hadm : Admitted E (answer E (.derive 0 p2 data) ans d).2.ctx src := by
    obtain ⟨pk₁, hpk₁, hr⟩ := hder.root
    obtain rfl : pk₁ = pk := Option.some.inj (hpk₁.symm.trans hpk')
    exact ⟨hder.path.trans hopens.path, hr ▸ hroot, pk₁, hpk, hspec⟩
  exact ⟨_, hder, hreach.loads_derived hs hder.state hadm hσ hf hcut ha⟩

namespace Signet

/-- The derivation of the session's root, as the device reads it. -/
def chunk : InitialChunk :=
  ⟨ascii "babylon-vault", path.toList, 32, (List.range 32).map fun i => UInt8.ofNat (i + 1)⟩

theorem derives_chunk : DerivesAtOnce chunk 1 derivation quiet where
  mode := .inr rfl
  parsed := by rfl
  whole := by decide
  calls := rfl
  approved := rfl

/-- The derivation opens a session for `intent`: `derived` is one. -/
theorem chunk_opens : OpensFor env chunk intent := by
  obtain ⟨pk, hpk, hspec⟩ := derived_admits.spec
  have hder : Derived env chunk derived := derive_opens derives_chunk hpk
  obtain ⟨pk₁, hpk₁, hroot⟩ := hder.root
  obtain rfl : pk₁ = pk := Option.some.inj (hpk₁.symm.trans hpk)
  exact ⟨rfl, pk₁, hpk, hspec, hroot ▸ derived_admits.root⟩

end Signet

open Signet in
theorem loadable_signet : ∃ d₁, Derived env chunk d₁ ∧ LoadedFrom env intent
    (scalarsBackwards ++ intent.groupList.flatMap encodeGroup ++
      intent.keyList.flatMap encodeKey) d₁
    (play env ((.derive 0 1 derivation, quiet) :: (.approve 0 0 scalarsBackwards, quiet) ::
      listApdus) (loaded intent)).2 := by
  have hloaded : LoadedIntent env (loaded intent).intent :=
    ((reach_loaded intent).session.loaded loaded_state).intent
  rw [loaded_intent] at hloaded
  have happ : ∀ r ∈ listApdus, Approving r.2 := by
    intro r hr
    rcases List.mem_cons.1 hr with rfl | hr
    · exact fun _ => rfl
    rcases List.mem_cons.1 hr with rfl | hr
    · exact fun _ => rfl
    rcases List.mem_singleton.1 hr with rfl
    exact fun _ => rfl
  exact (reach_loaded intent).loadable hloaded.scalars chunk_opens derives_chunk
    (List.reverse_perm _) rfl cut_listApdus happ

end BabylonVault
