/-
  What the signer asks for.

  * `*SigningInput_via`: what a branch has read when it goes on to sign.
  * `signAndYield_puts`, `signLeaf_puts`, `countingBranch_puts`: the signature that a
    branch asks for.
  * `signatures`: the signatures that are asked of a given host.
-/
import BabylonVault.Serve
import BabylonVault.Sighash
import BabylonVault.Signing

namespace BabylonVault
open Bytes Prog

variable {E : Env} {st : SignPsbtState} {s : Session} {G : Allow} {v v' : Volatile}
  {H : ∀ q, devIface.Ans q → Prop} {d d' : Device} {gi ci idx : ℕ} {spk : Bytes}
  {leafHash : Bytes32} {path : List UInt32} {kind kind' : SigKind} {req : SigRequest}

/-! ## What a branch reads -/

theorem readExpectedUtxo_bind {α : Type} {b : α} {m : MapRef} {f : Bytes → V α} :
    (readExpectedUtxo m spk >>= f).Via G v b v' ↔
      ∃ value, ReadsUtxo G m value spk ∧ (f spk).Via G v b v' := by
  simp only [readExpectedUtxo, Prog.bind_assoc, readWitnessUtxo_bind, check_bind, via_pure_bind]
  constructor
  · rintro ⟨value, _, hu, rfl, h⟩
    exact ⟨value, hu, h⟩
  · rintro ⟨value, hu, h⟩
    exact ⟨value, spk, hu, rfl, h⟩

theorem readAnyUtxo_bind {α : Type} {b : α} {m : MapRef} {f : Bytes → V α} :
    (readAnyUtxo m >>= f).Via G v b v' ↔
      ∃ value spk, ReadsUtxo G m value spk ∧ (f spk).Via G v b v' := by
  simp only [readAnyUtxo, Prog.bind_assoc, readWitnessUtxo_bind, via_pure_bind]

theorem peginSigningInput_via : (peginSigningInput E st gi s).Via G v (leafHash, spk) v' ↔
    G (.map .input st.nInputs 0) true ∧ ∃ leaf,
      vaultBuildHtlcLeaf0 s.intent gi (s.hashlock gi) scriptMaxLen = some leaf ∧ ∃ value,
      vaultBuildHtlcScriptpubkey E s.intent gi (s.hashlock gi) = some spk ∧
      ReadsUtxo G (.input 0) value spk ∧ vaultTaprootLeafHash E leaf = leafHash ∧ v = v' := by
  simp only [peginSigningInput, getMap_bind, orReject_bind, readExpectedUtxo_bind, via_pure,
    Prod.mk.injEq]
  refine and_congr_right fun _ => exists_congr fun leaf => and_congr_right fun _ => ?_
  constructor
  · rintro ⟨_, hspk, value, hu, ⟨rfl, rfl⟩, rfl⟩
    exact ⟨value, hspk, hu, rfl, rfl⟩
  · rintro ⟨value, hspk, hu, rfl, rfl⟩
    exact ⟨spk, hspk, value, hu, ⟨rfl, rfl⟩, rfl⟩

theorem payoutSigningInput_via : (payoutSigningInput E st gi s).Via G v (leafHash, spk) v' ↔
    G (.map .input st.nInputs 0) true ∧ ∃ leaf,
      vaultBuildVaultUtxoLeaf s.intent gi scriptMaxLen = some leaf ∧ ∃ value,
      vaultBuildVaultUtxoScriptpubkey E s.intent gi = some spk ∧
      ReadsUtxo G (.input 0) value spk ∧ vaultTaprootLeafHash E leaf = leafHash ∧ v = v' := by
  simp only [payoutSigningInput, getMap_bind, orReject_bind, readExpectedUtxo_bind, via_pure,
    Prod.mk.injEq]
  refine and_congr_right fun _ => exists_congr fun leaf => and_congr_right fun _ => ?_
  constructor
  · rintro ⟨_, hspk, value, hu, ⟨rfl, rfl⟩, rfl⟩
    exact ⟨value, hspk, hu, rfl, rfl⟩
  · rintro ⟨value, hspk, hu, rfl, rfl⟩
    exact ⟨spk, hspk, value, hu, ⟨rfl, rfl⟩, rfl⟩

/-- A leaf of 68 bytes is hashed as it stands. -/
theorem take_leafScript {cb script : Bytes} (h : nopayoutLeafShape s.intent (tlsOf cb script) = true) :
    (tlsOf cb script).leafScript = script ∧
      (tlsOf cb script).leafScript.take (tlsOf cb script).leafScriptLen = script := by
  simp only [nopayoutLeafShape, Bool.and_eq_true, decide_eq_true_eq, and_assoc] at h
  have hlen : script.length = 68 := h.1
  have hs : (tlsOf cb script).leafScript = script := if_pos (by unfold scriptMaxLen; omega)
  exact ⟨hs, by rw [hs]; exact List.take_length⟩

theorem nopayoutSigningInput_via : (nopayoutSigningInput E st ci s).Via G v (leafHash, spk) v' ↔
    ∃ cb script, LeafRead G st.nInputs 0 cb script ∧
      nopayoutLeafShape s.intent (tlsOf cb script) = true ∧
      ci < s.intent.keeperCount + s.intent.challengerCount ∧
      Buf.slice 32 script 35 = challengerPk s.intent ci ∧ (∃ value, ReadsUtxo G (.input 0) value spk) ∧
      vaultTaprootLeafHash E script = leafHash ∧ { v with leaf := leafMetaOf E s script } = v' := by
  simp only [nopayoutSigningInput, readTapLeaf_bind, requireBufferedLeaf_bind, check_bind,
    readAnyUtxo_bind, via_pure, Prod.mk.injEq]
  refine exists_congr fun cb => exists_congr fun script => and_congr_right fun _ => ?_
  constructor
  · rintro ⟨-, hshape, hci, hkey, value, _, hu, ⟨hhash, rfl⟩, hv⟩
    obtain ⟨hs, ht⟩ := take_leafScript hshape
    rw [hs] at hkey
    rw [ht] at hhash
    exact ⟨hshape, hci, hkey, ⟨value, hu⟩, hhash, hv⟩
  · rintro ⟨hshape, hci, hkey, ⟨value, hu⟩, hhash, hv⟩
    obtain ⟨hs, ht⟩ := take_leafScript hshape
    have hlen : (leafMetaOf E s script).buffered = true := by
      simp only [nopayoutLeafShape, Bool.and_eq_true, decide_eq_true_eq, and_assoc] at hshape
      have hlen : script.length = 68 := hshape.1
      exact decide_eq_true (by unfold scriptMaxLen; omega)
    exact ⟨hlen, hshape, hci, by rw [hs]; exact hkey, value, spk, hu, ⟨by rw [ht]; exact hhash, rfl⟩, hv⟩

theorem leafSigningInput_via {shape : ℕ → LeafMeta → Bool} :
    (leafSigningInput E st shape idx s).Via G v (leafHash, spk, path) v' ↔
      ∃ cb script, LeafRead G st.nInputs idx cb script ∧
        shape script.length (leafMetaOf E s script) = true ∧
        (∃ value, ReadsUtxo G (.input idx) value spk) ∧
        LeafKeyOk E st G (.input idx) (Buf.slice 32 script 1) path ∧
        vaultTaprootLeafHash E script = leafHash ∧ { v with leaf := leafMetaOf E s script } = v' := by
  simp only [leafSigningInput, readTapLeaf_bind, leafMeta_bind, check_bind, readAnyUtxo_bind,
    checkLeafKey_bind, via_pure, Prod.mk.injEq]
  refine exists_congr fun cb => exists_congr fun script => and_congr_right fun _ => ?_
  have hslice : (Buf.slice 32 (leafMetaOf E s script).pfx.toList 1 : Bytes32) =
      Buf.slice 32 script 1 := slice_pfx script
  rw [hslice]
  constructor
  · rintro ⟨hshape, value, _, hu, _, hkey, ⟨rfl, rfl, rfl⟩, hv⟩
    exact ⟨hshape, ⟨value, hu⟩, hkey, rfl, hv⟩
  · rintro ⟨hshape, ⟨value, hu⟩, hkey, rfl, hv⟩
    exact ⟨hshape, value, spk, hu, path, hkey, ⟨rfl, rfl, rfl⟩, hv⟩

/-! ## The signature of a branch -/

theorem validating_puts {α : Type} {w : Session → V α} {q : DevAsk}
    (h : (validating w).Puts H d q d') : ∃ q', DevAsk.read q' = q :=
  puts_embed (puts_onError.1 h)

theorem assertM_bind_puts {α : Type} {c : Prop} [Decidable c] {f : Unit → M α} {q : DevAsk}
    (h : (assertM c >>= f).Puts H d q d') : c ∧ (f ()).Puts H d q d' := by
  unfold assertM at h
  split_ifs at h with hc
  · exact ⟨hc, h⟩
  · rcases puts_bind.1 h with h | ⟨_, _, hv, -⟩
    · exact (puts_ret rfl h).elim
    · rw [via_modify_bind] at hv
      exact (via_stop.1 hv).elim

/-- The common tail asks for one signature. -/
theorem signAndYield_puts {input : ℕ} {count : Device → Device}
    (h : (signAndYield kind input path leafHash spk count).Puts H d (.yield kind' req) d') :
    kind' = kind ∧ (∃ sighash, req = ⟨input, path, leafHash, sighashDefault, sighash⟩) ∧
      d' = count d := by
  unfold signAndYield computeSighash signSighashSchnorrAndYield at h
  rcases puts_bind.1 h with h | ⟨sighash, d₁, hs, h⟩
  · rcases puts_bind.1 h with h | ⟨r, _, -, h⟩
    · cases (puts_ask.1 h).1
    · cases r <;> exact (puts_ret rfl h).elim
  · obtain ⟨_, _, hask, hstop⟩ := via_bind.1 hs
    obtain ⟨-, rfl⟩ := via_ask.1 hask
    obtain ⟨-, rfl⟩ := via_orStop.1 hstop
    rcases puts_bind.1 h with h | ⟨_, _, hm, h⟩
    · exact (puts_ret rfl h).elim
    · obtain rfl := via_modify.1 hm
      rcases puts_bind.1 h with h | ⟨ok, _, -, h⟩
      · obtain ⟨hq, rfl⟩ := puts_ask.1 h
        cases hq
        exact ⟨rfl, ⟨sighash, rfl⟩, rfl⟩
      · cases ok <;> exact (puts_ret rfl h).elim

/-- A branch that counts asks for a signature of the input it has read. -/
theorem countingBranch_puts {w : Session → V (Bytes32 × Bytes)} {count : Device → Device}
    (h : (wiping do
        let (leafHash, spk) ← validating w
        signAndYield kind 0 path leafHash spk count).Puts H d (.yield kind' req) d') :
    ∃ leafHash spk v' sighash, (w d.session).Via (readAllow H) d.volatile (leafHash, spk) v' ∧
      kind' = kind ∧ req = ⟨0, path, leafHash, sighashDefault, sighash⟩ ∧
      d' = count (d.setVolatile v') := by
  rcases puts_bind.1 (puts_onError.1 h) with h | ⟨⟨leafHash, spk⟩, _, hw, h⟩
  · obtain ⟨_, hq⟩ := validating_puts h
    cases hq
  · obtain ⟨v', hv, rfl⟩ := validating_via.1 hw
    obtain ⟨hk, ⟨sighash, hr⟩, hd⟩ := signAndYield_puts h
    exact ⟨leafHash, spk, v', sighash, hv, hk, hr, hd⟩

/-- A branch that signs with the leaf's own key. -/
theorem signLeaf_puts {shape : ℕ → LeafMeta → Bool}
    (h : (signLeaf E st shape idx).Puts H d (.yield kind req) d') :
    ∃ leafHash spk path v' sighash, (leafSigningInput E st shape idx d.session).Via (readAllow H)
        d.volatile (leafHash, spk, path) v' ∧ kind = .standalone ∧
      req = ⟨idx, path, leafHash, sighashDefault, sighash⟩ ∧ d' = d.setVolatile v' := by
  rcases puts_bind.1 h with h | ⟨⟨leafHash, spk, path⟩, _, hw, h⟩
  · obtain ⟨_, hq⟩ := validating_puts h
    cases hq
  · obtain ⟨v', hv, rfl⟩ := validating_via.1 hw
    obtain ⟨hk, ⟨sighash, hr⟩, hd⟩ := signAndYield_puts h
    exact ⟨leafHash, spk, path, v', sighash, hv, hk, hr, hd⟩

/-- A signature by the own key of the leaf of input `i`. -/
structure SignsLeaf (E : Env) (st : SignPsbtState) (G : Allow) (i : ℕ) (cb script : Bytes)
    (req : SigRequest) : Prop where
  leaf : LeafRead G st.nInputs i cb script
  input : req.inputIndex = i
  key : LeafKeyOk E st G (.input i) (Buf.slice 32 script 1) req.path
  hash : req.leafHash = vaultTaprootLeafHash E script
  type : req.sighashType = sighashDefault

/-- A flow that signs with the leaf's own key. -/
def Flow.OwnKey (F : Flow) : Prop := F.ofLeaf = true ∨ F = .payoutFinalize

theorem Flow.OwnKey.branch_eq (E : Env) (st : SignPsbtState) {F : Flow} (hF : F.OwnKey) : ∃ i shape,
    F.signedInput = some i ∧ (F.branch E st = signLeaf E st shape i ∨
      F.branch E st = assertM (st.internalInputs 0 = false) >>= fun _ => signLeaf E st shape i) := by
  rcases hF with hF | rfl
  · refine ⟨0, standaloneLeafShape, ?_, .inl (Flow.branch_ofLeaf hF)⟩
    cases F <;> first | rfl | exact Bool.noConfusion hF
  · exact ⟨1, finalizeLeafShape, rfl, .inr rfl⟩

theorem branch_puts_own {F : Flow} (hF : F.OwnKey)
    (h : (F.branch E st).Puts H d (.yield kind req) d') :
    ∃ i cb script v', F.signedInput = some i ∧ SignsLeaf E st (readAllow H) i cb script req ∧
      kind = .standalone ∧ d' = d.setVolatile v' := by
  obtain ⟨i, shape, hi, hb⟩ := hF.branch_eq E st
  have hsign : (signLeaf E st shape i).Puts H d (.yield kind req) d' := by
    rcases hb with hb | hb
    · rwa [hb] at h
    · rw [hb] at h
      exact (assertM_bind_puts h).2
  obtain ⟨leafHash, spk, path, v', sighash, hv, hk, rfl, hd⟩ := signLeaf_puts hsign
  obtain ⟨cb, script, hleaf, -, -, hkey, rfl, -⟩ := leafSigningInput_via.1 hv
  exact ⟨i, cb, script, v', hi, ⟨hleaf, rfl, hkey, rfl, rfl⟩, hk, hd⟩

/-! ## The signatures asked of one host -/

/-- The signatures among some calls. -/
def signatures (qs : List DevAsk) : List Sig := qs.filterMap DevAsk.signature

theorem signatures_append (qs rs : List DevAsk) :
    signatures (qs ++ rs) = signatures qs ++ signatures rs := List.filterMap_append

theorem signatures_reads (qs : List ReadAsk) : signatures (qs.map readHom.ask) = [] := by
  induction qs with
  | nil => rfl
  | cons q qs ih => exact ih

/-- The signatures asked for after a PSBT was accepted are those of its flow's branch. -/
theorem signatures_accepted {F : Flow} {junk : DeriveCtx} {ans : Answers}
    (h : Accepted E st d.session G v F v') :
    signatures ((signCustomInputs E st).asked ans (acceptedDevice d F junk v')) =
      signatures ((F.branch E st).asked ans (acceptedDevice d F junk v')) :=
  congrArg (fun t => signatures (Course.asked ans t)) (signCustomInputs_accepted h)

/-- A host that serves its PSBT again, and a base app whose sighash does not fail. -/
structure Psbt.SignsWith (p : Psbt) (ans : Answers) : Prop where
  read : ∀ q, ans (.read q) = p.serve q
  sighash : ∀ i spk leafHash type, ∃ h : Bytes32, ans (.sighash i spk leafHash type) = some h

/-- The common tail asks for its signature. -/
theorem signatures_signAndYield {ans : Answers} {input : ℕ} {count : Device → Device}
    {sighash : Bytes32}
    (hs : ans (.sighash input spk leafHash sighashDefault) = some sighash) :
    signatures ((signAndYield kind input path leafHash spk count).asked ans d) =
      [(kind, ⟨input, path, leafHash, sighashDefault, sighash⟩)] := by
  have heval : (computeSighash input spk leafHash).eval ans d = (.ok sighash, d) := by
    refine via_eval.1 (via_ask_bind.2 ⟨some sighash, hs, via_orStop.2 ⟨rfl, rfl⟩⟩)
  have hasked : (computeSighash input spk leafHash).asked ans d =
      [.sighash input spk leafHash sighashDefault] := by
    unfold computeSighash
    rw [asked_bind]
    show _ ++ (andThen _ (.ok (ans (.sighash input spk leafHash sighashDefault)), d)).asked ans = _
    rw [hs]
    rfl
  unfold signAndYield
  rw [asked_bind, signatures_append, heval, hasked]
  show [] ++ signatures ((signSighashSchnorrAndYield kind _).asked ans (count d)) = _
  unfold signSighashSchnorrAndYield
  rw [asked_bind, signatures_append]
  show [] ++ ([(kind, _)] ++ signatures ((andThen _ (.ok (ans (.yield kind _)), _)).asked ans)) = _
  rcases ans (.yield kind _) with _ | _ <;> rfl

section Asked
variable {p : Psbt} {ans : Answers} (hans : p.SignsWith ans)
include hans

/-- A validator that succeeds with a serving host. -/
theorem eval_validating {α : Type} {w : Session → V α} {a : α}
    (h : (w d.session).Via p.Serves d.volatile a v') :
    (validating w).eval ans d = (.ok a, d.setVolatile v') := by
  refine via_eval.1 (validating_via.2 ⟨v', h.mono fun q a hq => ?_, rfl⟩)
  exact (hans.read q).trans hq

theorem signatures_validating_bind {α β : Type} {w : Session → V α} {a : α} {f : α → M β}
    (h : (w d.session).Via p.Serves d.volatile a v') :
    signatures ((validating w >>= f).asked ans d) =
      signatures ((f a).asked ans (d.setVolatile v')) := by
  have hreads : signatures ((validating w).asked ans d) = [] := by
    have hq : (validating w).asked ans d = (Prog.onError settleStop (Prog.embed readHom
      Device.volatile Device.setVolatile (w d.session))).asked ans d := rfl
    rw [hq, asked_onError, asked_embed, signatures_reads]
  rw [asked_bind, signatures_append, hreads, eval_validating hans h]
  rfl

theorem signatures_countingBranch {w : Session → V (Bytes32 × Bytes)} {count : Device → Device}
    (h : (w d.session).Via p.Serves d.volatile (leafHash, spk) v') :
    ∃ sig, signatures ((wiping do
        let (leafHash, spk) ← validating w
        signAndYield kind 0 path leafHash spk count).asked ans d) = [sig] := by
  unfold wiping
  rw [asked_onError, signatures_validating_bind hans h]
  obtain ⟨sighash, hs⟩ := hans.sighash 0 spk leafHash sighashDefault
  exact ⟨_, signatures_signAndYield hs⟩

theorem signatures_signLeaf {shape : ℕ → LeafMeta → Bool} {sighash : Bytes32}
    (h : (leafSigningInput E st shape idx d.session).Via p.Serves d.volatile
      (leafHash, spk, path) v')
    (hs : ans (.sighash idx spk leafHash sighashDefault) = some sighash) :
    signatures ((signLeaf E st shape idx).asked ans d) =
      [(.standalone, ⟨idx, path, leafHash, sighashDefault, sighash⟩)] := by
  unfold signLeaf
  rw [signatures_validating_bind hans h]
  exact signatures_signAndYield hs

end Asked

end BabylonVault
