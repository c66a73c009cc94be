/-
  Where the dispatcher sends a PSBT, and which documented PSBTs its shape rules catch first.

  * `route`: the dispatcher up to the validator it calls; `dispatch_eq_route` puts the two
    back together.
  * `Reaches`: the validator that a device comes to, for a host that serves its PSBT.
  * `AssertPsbt`, `WcPsbt`: the documented patterns of Assert and WC.
  * `Reach.routing_exact`: the counts at which the documented pattern is reached.
-/
import BabylonVault.AssertSafety
import BabylonVault.Sighash

namespace BabylonVault
open Bytes Prog

variable (E : Env) (st : SignPsbtState) (s : Session)

/-! ## The route -/

/-- The route by a leaf: the flow, with the leaf that its validator is handed. -/
def leafRoute (tls : Tls) (lm : LeafMeta) : V (Flow × Tls) :=
  let leafLen := tls.leafScriptLen
  if leafLen < depositorClaimLeafLen ∨ lm.pfx.pick 0 ≠ opPushbytes32 then reject .incorrectData
  else if leafLen = depositorClaimLeafLen ∧ lm.pfx.pick 33 = opChecksig then
    if st.nOutputs = 2 then return (.claim, tls)
    else if st.nOutputs = 1 then return (.reclaim, tls)
    else reject .incorrectData
  else if leafLen > depositorClaimLeafLen ∧ lm.pfx.pick 33 = opChecksigverify then
    if lm.pfx.pick 34 = opSize then return (.wc, tls)
    else if leafHasAssertShape leafLen lm.pfx lm.lastByte then do
      check (lm.assertPrefixOk = true) .incorrectData
      return (.assert, tls)
    else if lm.lastByte = opCsv then return (.refund, tls)
    else reject .incorrectData
  else reject .incorrectData

/-- The route by Input 0's leaf. -/
def routeLeaf : V (Flow × Tls) := do
  let (_, tls) ← readTapLeaf E s st.nInputs 0
  let lm ← leafMeta
  leafRoute st tls lm

/-- The route behind the intent-bound flows. -/
def routeRest : V (Flow × Tls) :=
  if st.hasNoWalletPolicy = false then
    if st.internalInputs 0 then return (.prepegin, .zero) else return (.wc, .zero)
  else if st.nInputs = 2 ∧ st.nOutputs = 2 then return (.payoutFinalize, .zero)
  else routeLeaf E st s

/-- The validator that the dispatcher calls. -/
def route : V (Flow × Tls) :=
  if st.txVersion = 0 then return (.pop, .zero)
  else if st.hasNoWalletPolicy ∧ st.nInputs = 1 ∧ st.nOutputs = 3 then return (.pegin, .zero)
  else if st.hasNoWalletPolicy ∧ st.nInputs = 3 ∧ st.nOutputs = 1 then return (.nopayout, .zero)
  else if s.ctx.state = .intentLoaded ∧ st.hasNoWalletPolicy ∧ st.nInputs = 2 then
    if st.nOutputs ≠ 2 then return (.payout, .zero)
    else do
      let m ← getMap .input 2 0
      let txid ← getPreviousTxid m
      if (findPeginGroup E s.intent txid).isSome then return (.payout, .zero)
      else routeRest E st s
  else routeRest E st s

/-- The validator of a flow, on the leaf that it is handed. -/
def validatorOf (tls : Tls) : Flow → V Unit
  | .pop => validateDisplayPop E st s
  | .prepegin => validatePrepegin E st s
  | .wc => validateDisplayWc E st s
  | .pegin => validatePegin E st s
  | .nopayout => validateNopayout E st s
  | .payout => validatePayout E st s
  | .payoutFinalize => validateDisplayPayoutFinalize E st s
  | .claim => validateDisplayClaim E st tls
  | .reclaim => validateDisplayReclaim E st tls
  | .assert => validateDisplayAssert E st tls
  | .refund => validateDisplayRefund E st s

theorem ite_then {α β : Type} {c : Prop} [Decidable c] {m n : V α} {f : α → V β} :
    (if c then m else n) >>= f = if c then m >>= f else n >>= f := by
  split_ifs <;> rfl

theorem reject_then {α β : Type} {sw : Sw} {f : α → V β} : (reject sw : V α) >>= f = reject sw := rfl

theorem pure_then {α β : Type} {a : α} {f : α → V β} : (pure a : V α) >>= f = f a := rfl

/-- Run the validator that the route names. -/
def runRoute (r : Flow × Tls) : V Flow := through r.1 (validatorOf E st s r.2 r.1)

theorem dispatchLeaf_eq_route : dispatchLeaf E st s = routeLeaf E st s >>= runRoute E st s := by
  simp only [dispatchLeaf, routeLeaf, leafRoute, Prog.bind_assoc, ite_then, reject_then, pure_then,
    runRoute, validatorOf]

theorem dispatchRest_eq_route : dispatchRest E st s = routeRest E st s >>= runRoute E st s := by
  simp only [dispatchRest, routeRest, ite_then, pure_then, runRoute, validatorOf,
    dispatchLeaf_eq_route]

/-- The dispatcher is the route, followed by the validator it names. -/
theorem dispatch_eq_route : dispatch E st s = route E st s >>= runRoute E st s := by
  simp only [dispatch, route, ite_then, Prog.bind_assoc, pure_then, dispatchRest_eq_route, runRoute,
    validatorOf]

/-! ## The documented patterns -/

/-- An Assert leaf: the signer prefix of the intent, a body, OP_TRUE. -/
def IsAssertLeaf (it : VaultIntent) (script : Bytes) : Prop :=
  ∃ body, script = assertPrefix it ++ (body ++ [opTrue])

/-- The 73 bytes of a WC leaf. -/
def IsWcLeaf (script : Bytes) : Prop := ∃ key labelHash : Bytes32,
  script = keyEntry key opChecksigverify ++
    ([opSize, opPushbytes1, 32, opEqualverify, opSha256, opPushbytes32] ++ labelHash.toList ++
      [opEqual])

variable (p : Psbt)

/-- A PSBT without a wallet policy, of version 2 or later and locktime 0, with the inputs that
    the base app counted. -/
structure StandalonePsbt : Prop where
  policy : st.hasNoWalletPolicy = true
  version : 2 ≤ st.txVersion
  locktime : st.locktime = 0
  inputs : st.nInputs = p.inputs.length

/-- The Assert pattern: one input, any number of outputs. -/
structure AssertPsbt (it : VaultIntent) : Prop extends StandalonePsbt st p where
  one : st.nInputs = 1
  leaf : ∃ cb script, p.HasLeaf 0 cb script ∧ IsAssertLeaf it script

/-- The WC pattern: any number of inputs, one output. -/
structure WcPsbt : Prop extends StandalonePsbt st p where
  one : 1 ≤ st.nInputs
  outputs : st.nOutputs = 1
  leaf : ∃ cb script, p.HasLeaf 0 cb script ∧ IsWcLeaf script

/-- `validate_and_display_transaction` comes to the validator of `F`. -/
def Reaches (d : Device) (F : Flow) : Prop := d.streaming.streamingInProgress = false ∧
  ∃ tls v', (route E st d.session).Via p.Serves d.volatile (F, tls) v'

variable {E st s p} {it : VaultIntent} {cb script : Bytes} {v v' : Volatile} {F : Flow}

theorem StandalonePsbt.version_ne (h : StandalonePsbt st p) : st.txVersion ≠ 0 := by
  intro h0
  exact absurd (h0 ▸ h.version) (by decide)

/-- The bytes that the dispatcher reads of a leaf. -/
theorem pick_leafMetaOf {i : ℕ} (hi : i < 68) :
    (leafMetaOf E s script).pfx.pick i = script.getD i 0 := Buf.pick_ofBytes hi

theorem pick_key_op {key : Bytes32} {op : UInt8} {rest : Bytes} :
    (leafMetaOf E s (keyEntry key op ++ rest)).pfx.pick 33 = op := by
  rw [pick_leafMetaOf (by decide), List.getD_append _ _ _ _ (by simp), getD_keyEntry (by decide)]
  rfl

theorem pick_behind_key {key : Bytes32} {op : UInt8} {rest : Bytes} {i : ℕ} (hi : 34 + i < 68) :
    (leafMetaOf E s (keyEntry key op ++ rest)).pfx.pick (34 + i) = rest.getD i 0 := by
  rw [pick_leafMetaOf hi, getD_behind_keyEntry]

/-- The leaf that begins with `key` and OP_CHECKSIGVERIFY is told by what is behind them. -/
theorem leafRoute_key {key : Bytes32} {rest : Bytes} (hr : rest ≠ []) :
    leafRoute st (tlsOf cb (keyEntry key opChecksigverify ++ rest))
        (leafMetaOf E s (keyEntry key opChecksigverify ++ rest)) =
      let lm := leafMetaOf E s (keyEntry key opChecksigverify ++ rest)
      if rest.getD 0 0 = opSize then
        pure (.wc, tlsOf cb (keyEntry key opChecksigverify ++ rest))
      else if leafHasAssertShape (34 + rest.length) lm.pfx lm.lastByte then do
        check (lm.assertPrefixOk = true) .incorrectData
        pure (.assert, tlsOf cb (keyEntry key opChecksigverify ++ rest))
      else if lm.lastByte = opCsv then
        pure (.refund, tlsOf cb (keyEntry key opChecksigverify ++ rest))
      else reject .incorrectData := by
  set script := keyEntry key opChecksigverify ++ rest with hscript
  have hpos : 0 < rest.length := List.length_pos_iff.2 hr
  have hlen : (tlsOf cb script).leafScriptLen = 34 + rest.length := by simp [tlsOf, hscript]
  have h0 : (leafMetaOf E s script).pfx.pick 0 = opPushbytes32 := rfl
  have h33 : (leafMetaOf E s script).pfx.pick 33 = opChecksigverify := pick_key_op
  have h34 : (leafMetaOf E s script).pfx.pick 34 = rest.getD 0 0 :=
    pick_behind_key (i := 0) (by decide)
  unfold leafRoute depositorClaimLeafLen
  simp only [hlen, h0, h33, h34]
  rw [if_neg (by simp), if_neg (by omega), if_pos ⟨by omega, trivial⟩]

theorem leafRoute_wc (h : IsWcLeaf script) :
    leafRoute st (tlsOf cb script) (leafMetaOf E s script) = pure (.wc, tlsOf cb script) := by
  obtain ⟨key, labelHash, rfl⟩ := h
  rw [leafRoute_key (by simp)]
  exact if_pos rfl

/-- The signer prefix begins with two keys: the depositor's and the first keeper's. -/
theorem assertPrefix_keys (hk : it.keepers ≠ []) : ∃ key rest,
    assertPrefix it = keyEntry it.depositorPk opChecksigverify ++ (keyEntry key opChecksig ++ rest) := by
  obtain ⟨key, keys, hkeys⟩ := List.exists_cons_of_ne_nil hk
  refine ⟨key, keys.flatMap (keyEntry · opChecksigadd) ++ pushNumber it.keepers.length ++
    [opNumequalverify] ++ multisigGroup it.challengers opNumequalverify, ?_⟩
  rw [assertPrefix, hkeys, multisigGroup]
  simp

theorem leafRoute_assert (hk : it.keepers ≠ []) (h : IsAssertLeaf it script)
    (hok : prefixOk s script = true) :
    leafRoute st (tlsOf cb script) (leafMetaOf E s script) = pure (.assert, tlsOf cb script) := by
  obtain ⟨body, hbody⟩ := h
  obtain ⟨key, rest, hpre⟩ := assertPrefix_keys hk
  rw [hpre, List.append_assoc, List.append_assoc] at hbody
  subst hbody
  set tail := keyEntry key opChecksig ++ (rest ++ (body ++ [opTrue])) with htail
  have hlen : tail.length = 35 + rest.length + body.length := by
    simp [htail]
    omega
  have hlast : (keyEntry it.depositorPk opChecksigverify ++ tail).getLastD 0 = opTrue := by
    rw [htail, ← List.append_assoc, ← List.append_assoc, ← List.append_assoc]
    exact List.getLastD_concat
  have h34 : tail.getD 0 0 = opPushbytes32 := rfl
  have h67 : tail.getD 33 0 = opChecksig := by
    rw [htail, List.getD_append _ _ _ _ (by simp), getD_keyEntry (by decide)]
    rfl
  have hshape : leafHasAssertShape (34 + tail.length)
      (leafMetaOf E s (keyEntry it.depositorPk opChecksigverify ++ tail)).pfx
      (leafMetaOf E s (keyEntry it.depositorPk opChecksigverify ++ tail)).lastByte = true := by
    have h0 : (leafMetaOf E s (keyEntry it.depositorPk opChecksigverify ++ tail)).pfx.pick 0 =
        opPushbytes32 := rfl
    have hpick {i : ℕ} (hi : 34 + i < 68) : (leafMetaOf E s (keyEntry it.depositorPk
        opChecksigverify ++ tail)).pfx.pick (34 + i) = tail.getD i 0 := pick_behind_key hi
    have hp34 := hpick (i := 0) (by decide)
    have hp67 := hpick (i := 33) (by decide)
    have hl : (leafMetaOf E s (keyEntry it.depositorPk opChecksigverify ++ tail)).lastByte =
        opTrue := hlast
    simp only [leafHasAssertShape, nopayoutLeafLen, leafGroup0PushOff, leafGroup0OpOff, h0, pick_key_op,
      hp34, hp67, h34, h67, hl, decide_true, Bool.and_true]
    exact decide_eq_true (by omega)
  rw [leafRoute_key (List.ne_nil_of_length_pos (by omega)), if_neg (by rw [h34]; decide),
    if_pos hshape]
  show check (prefixOk s _ = true) _ >>= _ = _
  rw [hok]
  rfl

/-! ## The counts -/

theorem routeLeaf_via {r : Flow × Tls} (hl : LeafRead p.Serves st.nInputs 0 cb script)
    (h : leafRoute st (tlsOf cb script) (leafMetaOf E s script) = pure r) :
    ∃ v', (routeLeaf E st s).Via p.Serves v r v' := by
  refine ⟨{ v with leaf := leafMetaOf E s script }, ?_⟩
  refine readTapLeaf_bind.2 ⟨cb, script, hl, leafMeta_bind.2 ?_⟩
  rw [h]
  exact via_pure.2 ⟨rfl, rfl⟩

/-- With one input, three outputs make a PegIn of everything. -/
theorem route_one (hp : StandalonePsbt st p) (h1 : st.nInputs = 1) :
    route E st s = if st.nOutputs = 3 then pure (.pegin, .zero) else routeLeaf E st s := by
  simp only [route, routeRest, hp.policy, h1, if_neg hp.version_ne, true_and, OfNat.one_ne_ofNat,
    false_and, and_false, if_false, Bool.true_eq_false]

/-- With one output, three inputs make a NoPayout of everything, and two a Payout while an
    intent is loaded. -/
theorem route_single_output (hp : StandalonePsbt st p) (h1 : st.nOutputs = 1) :
    route E st s =
      if st.nInputs = 3 then pure (.nopayout, .zero)
      else if s.ctx.state = .intentLoaded ∧ st.nInputs = 2 then pure (.payout, .zero)
      else routeLeaf E st s := by
  simp only [route, routeRest, hp.policy, h1, if_neg hp.version_ne, true_and, OfNat.one_ne_ofNat,
    and_false, and_true, if_false, Bool.true_eq_false, ne_eq, not_false_eq_true, if_true]

/-- The documented patterns are reached at exactly these counts. -/
structure RoutingExact (E : Env) (st : SignPsbtState) (p : Psbt) (d : Device) : Prop where
  assert : d.ctx.state = .intentLoaded → AssertPsbt st p d.intent →
    (Reaches E st p d .assert ↔ st.nOutputs ≠ 3)
  wc : d.ctx.state = .intentLoaded ∨ d.streaming.streamingInProgress = false → WcPsbt st p →
    (Reaches E st p d .wc ↔ st.nInputs ≠ 3 ∧ ¬(d.ctx.state = .intentLoaded ∧ st.nInputs = 2))

variable {ls : List Exchange} {d : Device}

/-- No derivation is under way while an intent is loaded. -/
theorem Reach.not_streaming (h : Reach E ls d) (hs : d.ctx.state = .intentLoaded) :
    d.streaming.streamingInProgress = false := by
  by_contra hstream
  have hidle := (h.session.stream (Bool.not_eq_false _ ▸ hstream)).1
  rw [hs] at hidle
  cases hidle

theorem Reach.reaches_assert_iff (h : Reach E ls d) (hs : d.ctx.state = .intentLoaded)
    (hp : AssertPsbt st p d.intent) : Reaches E st p d .assert ↔ st.nOutputs ≠ 3 := by
  have hroute := route_one (E := E) (s := d.session) hp.toStandalonePsbt hp.one
  constructor
  · rintro ⟨-, tls, v', hvia⟩ h3
    rw [hroute, if_pos h3] at hvia
    cases (via_pure.1 hvia).1
  · intro h3
    obtain ⟨cb, script, hleaf, hassert⟩ := hp.leaf
    have hi := (h.session.loaded hs).intent
    have hk : d.intent.keepers ≠ [] := List.ne_nil_of_length_pos (hi.leafBounds.keepersLen.1)
    have hok : prefixOk d.session script = true := by
      obtain ⟨body, rfl⟩ := hassert
      refine (prefixOk_iff (E := E) fun _ => hi).2 ⟨hs, ?_, List.prefix_append _ _⟩
      show (assertPrefix d.intent).length < _
      simp
    have hread : LeafRead p.Serves st.nInputs 0 cb script :=
      hp.inputs ▸ hleaf.serves (hp.inputs ▸ hp.one ▸ Nat.one_pos)
    obtain ⟨v', hvia⟩ := routeLeaf_via hread (leafRoute_assert hk hassert hok)
    exact ⟨h.not_streaming hs, _, v', by rwa [hroute, if_neg h3]⟩

theorem reaches_wc_iff (hd : d.streaming.streamingInProgress = false) (hp : WcPsbt st p) :
    Reaches E st p d .wc ↔
      st.nInputs ≠ 3 ∧ ¬(d.ctx.state = .intentLoaded ∧ st.nInputs = 2) := by
  have hroute : route E st d.session = if st.nInputs = 3 then pure (.nopayout, .zero)
      else if d.ctx.state = .intentLoaded ∧ st.nInputs = 2 then pure (.payout, .zero)
      else routeLeaf E st d.session := route_single_output hp.toStandalonePsbt hp.outputs
  constructor
  · rintro ⟨-, tls, v', hvia⟩
    rw [hroute] at hvia
    refine ⟨fun h3 => ?_, fun h2 => ?_⟩
    · rw [if_pos h3] at hvia
      cases (via_pure.1 hvia).1
    · rw [if_neg (by omega), if_pos h2] at hvia
      cases (via_pure.1 hvia).1
  · rintro ⟨h3, h2⟩
    obtain ⟨cb, script, hleaf, hwc⟩ := hp.leaf
    have hread : LeafRead p.Serves st.nInputs 0 cb script :=
      hp.inputs ▸ hleaf.serves (hp.inputs ▸ hp.one)
    obtain ⟨v', hvia⟩ := routeLeaf_via hread (leafRoute_wc hwc)
    exact ⟨hd, _, v', by rwa [hroute, if_neg h3, if_neg h2]⟩

theorem Reach.routing_exact (h : Reach E ls d) : RoutingExact E st p d where
  assert hs hp := h.reaches_assert_iff hs hp
  wc hd hp := reaches_wc_iff (hd.elim h.not_streaming id) hp

namespace Signet

/-- The Assert of `assertion` with `n` outputs. -/
def assertOf (n : ℕ) : Psbt :=
  { assertion assertOut [0x61] with outputs := List.replicate n (output 500 (spk payoutOut)) }

def assertOfState (n : ℕ) : SignPsbtState := parsed (assertOf n) 3000 2000

/-- A WC with `n` inputs for its fee. -/
def wcOf (n : ℕ) : Psbt :=
  { wc 0 with inputs := (wc 0).inputs.take 1 ++ List.replicate n (outpoint 5 1 sequenceFinal) }

def wcOfState (n : ℕ) : SignPsbtState := parsed (wcOf n) 3000 1500

theorem assertOf_pattern (n : ℕ) :
    AssertPsbt (assertOfState n) (assertOf n) (loaded intent).intent := by
  have hi : (loaded intent).intent = intent := by
    rw [loaded_intent]
    rfl
  have hlen : (assertLeaf [0x61]).length < 16384 := by decide +kernel
  have hleaf := assertion_leaf assertOut hlen
  exact ⟨⟨rfl, UInt32.le_refl 2, rfl, rfl⟩, rfl, _, _,
    ⟨hleaf.entry, hleaf.controlBlock, hleaf.pos, hleaf.le⟩, [0x61], by rw [hi, assertLeaf]⟩

theorem wcOf_pattern (n : ℕ) : WcPsbt (wcOfState n) (wcOf n) := by
  refine ⟨⟨rfl, UInt32.le_refl 2, rfl, rfl⟩, ?_, rfl, _, wcLeaf, ⟨⟨utxo 1000 (spk wcOut) :: outpoint _ _ _,
    [depositorRecord], rfl, ?_, ?_⟩, ?_, ?_, ?_⟩, .be 32 depositorKey, _, rfl⟩
  · exact Nat.succ_le_of_lt (Nat.succ_pos _)
  · simp [NoLeaf, utxo, outpoint, psbtInWitnessUtxo, psbtInPreviousTxid, psbtInOutputIndex,
      psbtInSequence, psbtInTapLeafScript]
  · simp [NoLeaf, depositorRecord, psbtInTapBip32Derivation, psbtInTapLeafScript]
  · simp [vaultNumsXonly, controlBlockMaxLen]
  · decide
  · decide

end Signet

open Signet in
theorem routing_exact_signet : RoutingExact env (assertOfState 4) (assertOf 4) (loaded intent) ∧
    Reaches env (assertOfState 4) (assertOf 4) (loaded intent) .assert ∧
    Reaches env (wcOfState 3) (wcOf 3) (loaded intent) .wc :=
  ⟨Reach.routing_exact (reach_loaded intent),
    ((Reach.routing_exact (reach_loaded intent)).assert loaded_state (assertOf_pattern 4)).2 (by decide),
    ((Reach.routing_exact (reach_loaded intent)).wc (.inl loaded_state) (wcOf_pattern 3)).2
      ⟨by decide, fun h => absurd h.2 (by decide)⟩⟩

open Signet in
/-- An Assert with three outputs is taken for a PegIn and rejected; so is a WC with two inputs
    for a Payout while an intent is loaded, and with three inputs for a NoPayout from boot on.
    With one more output or input each is accepted. -/
theorem routing_swallows :
    (AssertPsbt (assertOfState 3) (assertOf 3) (loaded intent).intent ∧
      ¬Reaches env (assertOfState 3) (assertOf 3) (loaded intent) .assert ∧
      ((dispatch env (assertOfState 3) (loaded intent).session).eval (assertOf 3).serve
        (loaded intent).volatile).1 = .error (.reject .incorrectData) ∧
      ((dispatch env (assertOfState 4) (loaded intent).session).eval (assertOf 4).serve
        (loaded intent).volatile).1 = .ok .assert) ∧
    (WcPsbt (wcOfState 1) (wcOf 1) ∧
      ¬Reaches env (wcOfState 1) (wcOf 1) (loaded intent) .wc ∧
      ((dispatch env (wcOfState 1) Device.boot.session).eval (wcOf 1).serve
        Device.boot.volatile).1 = .ok .wc) ∧
    WcPsbt (wcOfState 2) (wcOf 2) ∧ ¬Reaches env (wcOfState 2) (wcOf 2) Device.boot .wc ∧
      ((dispatch env (wcOfState 3) Device.boot.session).eval (wcOf 3).serve
        Device.boot.volatile).1 = .ok .wc := by
  have hreach := reach_loaded intent
  refine ⟨⟨assertOf_pattern 3, ?_, ?_, ?_⟩, ⟨wcOf_pattern 1, ?_, by decide +kernel⟩, wcOf_pattern 2,
    ?_, by decide +kernel⟩
  · exact fun h => (hreach.reaches_assert_iff loaded_state (assertOf_pattern 3)).1 h rfl
  · rw [loaded_intent]
    decide +kernel
  · rw [loaded_intent]
    decide +kernel
  · intro h
    exact ((reaches_wc_iff (hreach.not_streaming loaded_state) (wcOf_pattern 1)).1 h).2
      ⟨loaded_state, rfl⟩
  · exact fun h => ((reaches_wc_iff rfl (wcOf_pattern 2)).1 h).1 rfl

end BabylonVault
