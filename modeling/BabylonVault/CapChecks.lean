/-
  The dedup and cap checks.

  * `CapCheck`: the six checks, each with the slot that it asks for.
  * `peginToSlot` and the like: the validators up to a check; each validator goes on from
    there (`validatePegin_slot` and the like).
  * `ComesTo`: the answers of the host lead the dispatcher to a check.
  * `Exchange.ComesTo.stops`: a request that comes to a check with its slot consumed ends
    with `SW_CAP_EXCEEDED`, and the session with it.
-/
import BabylonVault.Atomic

namespace BabylonVault
open Bytes Prog

/-- A dedup or cap check. -/
inductive CapCheck
  | peginDedup (gi : ℕ)
  | peginCap
  | payoutDedup (gi claimerIdx : ℕ)
  | payoutCap
  | nopayoutCap
  | prepeginCap

/-- The slot that the check asks for is consumed: its bit is set, or the counter is full. -/
def CapCheck.Consumed (s : Session) : CapCheck → Prop
  | peginDedup gi => bit s.ctx.peginGroupMask gi = true
  | peginCap => s.intent.vaultCount ≤ s.ctx.peginSigned
  | payoutDedup gi ci => bit s.ctx.payoutClaimerMask (payoutSlot s.intent gi ci) = true
  | payoutCap => s.intent.vaultCount * (s.intent.keeperCount + 2) ≤ s.ctx.payoutSigned
  | nopayoutCap => s.intent.vaultCount * (s.intent.keeperCount + s.intent.challengerCount) ≤
      s.ctx.nopayoutSigned
  | prepeginCap => 1 ≤ s.ctx.prePeginSigned

/-! ## The validators up to a check -/

section
variable (E : Env) (st : SignPsbtState) (s : Session)

/-- `_validate_pegin` up to its dedup check: the group. -/
def peginToSlot : V ℕ := do
  check (s.ctx.state = .intentLoaded) .badState
  check (¬(st.txVersion ≠ peginTxVersion ∨ st.locktime ≠ 0)) .incorrectData
  check (¬(st.nInputs ≠ 1 ∨ st.nOutputs ≠ 3)) .incorrectData
  let m ← getMap .input 1 0
  let htlcVout ← getField m psbtInOutputIndex
  check (¬htlcVout > 0xFF) .incorrectData
  let groupIdx ← orReject (findGroupByVout s.intent htlcVout)
  Prog.modify fun v => { v with tr := { v.tr with vaultGroupIndex := groupIdx } }
  let htlcValue ← peginValidateInput E s m groupIdx
  peginValidateOutputs E s groupIdx htlcValue
  return groupIdx

/-- `_validate_pegin` up to its cap check. -/
def peginToCount : V Unit := do
  let groupIdx ← peginToSlot E st s
  checkCap (bit s.ctx.peginGroupMask groupIdx = false)

/-- `_validate_payout` up to its dedup check: the two inputs, the group, the claimer and the
    value of Input 1. -/
def payoutToSlot : V (MapRef × MapRef × ℕ × ℕ × UInt64) := do
  check (s.ctx.state = .intentLoaded) .badState
  check (¬(st.txVersion < 2 ∨ st.locktime ≠ 0)) .incorrectData
  check (¬st.nInputs ≠ 2) .incorrectData
  let m ← getMap .input 2 0
  let txid ← getPreviousTxid m
  let gi ← orReject (findPeginGroup E s.intent txid)
  check (gi < s.intent.vaultCount) .incorrectData
  let (m1, tls) ← readTapLeaf E s st.nInputs 1
  let claimerIdx ← detectPayoutClaimer s tls gi
  let assert0Value ← readAssert0Value E s m1 tls
  Prog.modify fun v =>
    { v with tr := { v.tr with vaultGroupIndex := gi, payoutIndex := claimerIdx } }
  return (m, m1, gi, claimerIdx, assert0Value)

/-- `_validate_payout` between its two checks. -/
def payoutFromSlot (m m1 : MapRef) (gi claimerIdx : ℕ) (assert0Value : UInt64) : V Unit := do
  check (st.nOutputs = if claimerIdx = 0 then 3 else 2) .incorrectData
  payoutValidateInput0 E s m gi
  payoutValidateInput1 s m1
  let out0 ← payoutOutput0 E st s claimerIdx
  let out1 ← payoutOutput1 E st s gi claimerIdx
  let totalOut ← addChecked out0 out1
  let totalOut ← payoutOutput2 E st claimerIdx totalOut
  payoutFee s gi assert0Value totalOut

/-- `_validate_payout` up to its cap check. -/
def payoutToCount : V Unit := do
  let (m, m1, gi, claimerIdx, assert0Value) ← payoutToSlot E st s
  checkCap (bit s.ctx.payoutClaimerMask (payoutSlot s.intent gi claimerIdx) = false)
  payoutFromSlot E st s m m1 gi claimerIdx assert0Value

/-- `_validate_nopayout` up to its cap check: Input 0 with its leaf, and the challenger. -/
def nopayoutToCount : V (MapRef × Tls × ℕ) := do
  check (s.ctx.state = .intentLoaded) .badState
  check (¬(st.txVersion < 2 ∨ st.locktime ≠ 0)) .incorrectData
  check (¬(st.nInputs ≠ 3 ∨ st.nOutputs ≠ 1)) .incorrectData
  let (m, tls) ← readTapLeaf E s st.nInputs 0
  requireBufferedLeaf
  check (nopayoutLeafShape s.intent tls = true) .incorrectData
  let challengerIdx ← orReject (findChallenger s.intent (Buf.slice 32 tls.leafScript 35))
  return (m, tls, challengerIdx)

/-- `_validate_nopayout` behind its cap check. -/
def nopayoutFromCount (m : MapRef) (tls : Tls) (challengerIdx : ℕ) : V Unit := do
  check (vaultBuildNopayoutLeaf s.intent challengerIdx nopayoutLeafLen = some tls.leafScript)
    .incorrectData
  checkSighashType m [sighashDefault]
  let _ ← readAssert0Value E s m tls
  let vout ← getField m psbtInOutputIndex
  check (vout = 0) .incorrectData
  let (_, tweaked) ← orReject (E.tweakPubkey (Buf.slice 32 tls.leafScript 35) none)
  let (outSpk, outValue) ← readOutput st.nOutputs 0
  check (outSpk = p2trSpk tweaked) .incorrectData
  check (¬st.inputsTotalAmount < st.outputsTotalAmount) .incorrectData
  check (¬outValue < dustLimit) .incorrectData
  let fee := st.inputsTotalAmount - st.outputsTotalAmount
  check (¬(maxNopayoutVsize > uint64Max / s.intent.baseFeeRate ∨
    fee > s.intent.baseFeeRate * maxNopayoutVsize)) .incorrectData
  Prog.modify fun v => { v with tr := { v.tr with nopayoutChallengerIndex := challengerIdx } }

/-- `_validate_prepegin` up to its cap check. -/
def prepeginToCount : V Unit := do
  check (s.ctx.state = .intentLoaded) .badState
  check (¬(List.range s.intent.vaultCount).any fun gi => s.ctx.htlcHashlock.pick gi = Buf.zero 32)
    .badState
  check ((List.range st.nInputs).all st.internalInputs) .incorrectData
  check (prepeginPolicyIsNativeSegwit st) .incorrectData
  check (¬(st.txVersion < 2 ∨ st.locktime ≠ 0)) .incorrectData
  forUpto st.nInputs (prepeginSighash st)
  validatePrepeginHtlcOutputs E st s
  validatePrepeginOutputs E st s
  check (¬st.outputsTotalAmount > st.inputsTotalAmount) .incorrectData
  check (¬st.inputsTotalAmount - st.outputsTotalAmount > s.intent.prepeginMaxFee) .incorrectData
  let txid ← computePrepeginTxid E st
  check (txid = s.intent.prepeginTxid) .incorrectData

/-- The look at Input 0's txid by which the dispatcher tells a Payout with two outputs from
    a PayoutFinalize. -/
def payoutPeek : V Unit :=
  if st.nOutputs ≠ 2 then pure ()
  else do
    let m ← getMap .input 2 0
    let txid ← getPreviousTxid m
    check ((findPeginGroup E s.intent txid).isSome) .incorrectData

end

variable {E : Env} {st : SignPsbtState} {s : Session} {v v' : Volatile}

theorem validatePegin_slot : validatePegin E st s = (do
    let groupIdx ← peginToSlot E st s
    checkCap (bit s.ctx.peginGroupMask groupIdx = false)
    checkCap (¬s.ctx.peginSigned ≥ s.intent.vaultCount)) := by
  simp only [validatePegin, peginToSlot, Prog.bind_assoc, Prog.pure_bind]

theorem validatePegin_count : validatePegin E st s = (do
    peginToCount E st s
    checkCap (¬s.ctx.peginSigned ≥ s.intent.vaultCount)) := by
  simp only [validatePegin_slot, peginToCount, Prog.bind_assoc]

theorem validatePayout_slot : validatePayout E st s = (do
    let (m, m1, gi, claimerIdx, assert0Value) ← payoutToSlot E st s
    checkCap (bit s.ctx.payoutClaimerMask (payoutSlot s.intent gi claimerIdx) = false)
    payoutFromSlot E st s m m1 gi claimerIdx assert0Value
    checkCap (¬s.ctx.payoutSigned ≥ s.intent.vaultCount * (s.intent.keeperCount + 2))
    Prog.modify fun v => { v with tr := { v.tr with isPayoutSigning := true } }) := by
  simp only [validatePayout, payoutToSlot, payoutFromSlot, Prog.bind_assoc, Prog.pure_bind]

theorem validatePayout_count : validatePayout E st s = (do
    payoutToCount E st s
    checkCap (¬s.ctx.payoutSigned ≥ s.intent.vaultCount * (s.intent.keeperCount + 2))
    Prog.modify fun v => { v with tr := { v.tr with isPayoutSigning := true } }) := by
  simp only [validatePayout_slot, payoutToCount, Prog.bind_assoc]

theorem validateNopayout_count : validateNopayout E st s = (do
    let (m, tls, challengerIdx) ← nopayoutToCount E st s
    checkCap (¬s.ctx.nopayoutSigned ≥
      s.intent.vaultCount * (s.intent.keeperCount + s.intent.challengerCount))
    nopayoutFromCount E st s m tls challengerIdx) := by
  simp only [validateNopayout, nopayoutToCount, nopayoutFromCount, Prog.bind_assoc, Prog.pure_bind]

theorem validatePrepegin_count : validatePrepegin E st s = (do
    prepeginToCount E st s
    checkCap (¬s.ctx.prePeginSigned ≥ 1)) := by
  simp only [validatePrepegin, prepeginToCount, Prog.bind_assoc]

/-! ## Coming to a check -/

/-- With the answers `tr`, the dispatcher comes to the check `c` in the state `v'`. -/
inductive ComesTo (E : Env) (st : SignPsbtState) (s : Session) (v : Volatile) :
    List readIface.Event → Volatile → CapCheck → Prop
  | peginDedup {tr v' gi} : st.txVersion ≠ 0 → st.hasNoWalletPolicy = true → st.nInputs = 1 →
      st.nOutputs = 3 → (peginToSlot E st s v).Path tr (.ok gi, v') →
      ComesTo E st s v tr v' (.peginDedup gi)
  | peginCap {tr v'} : st.txVersion ≠ 0 → st.hasNoWalletPolicy = true → st.nInputs = 1 →
      st.nOutputs = 3 → (peginToCount E st s v).Path tr (.ok (), v') →
      ComesTo E st s v tr v' .peginCap
  | payoutDedup {tr tr' v₁ v' m m1 gi ci value} : st.txVersion ≠ 0 → st.hasNoWalletPolicy = true →
      st.nInputs = 2 → (payoutPeek E st s v).Path tr (.ok (), v₁) →
      (payoutToSlot E st s v₁).Path tr' (.ok (m, m1, gi, ci, value), v') →
      ComesTo E st s v (tr ++ tr') v' (.payoutDedup gi ci)
  | payoutCap {tr tr' v₁ v'} : st.txVersion ≠ 0 → st.hasNoWalletPolicy = true → st.nInputs = 2 →
      (payoutPeek E st s v).Path tr (.ok (), v₁) →
      (payoutToCount E st s v₁).Path tr' (.ok (), v') →
      ComesTo E st s v (tr ++ tr') v' .payoutCap
  | nopayoutCap {tr v' x} : st.txVersion ≠ 0 → st.hasNoWalletPolicy = true → st.nInputs = 3 →
      st.nOutputs = 1 → (nopayoutToCount E st s v).Path tr (.ok x, v') →
      ComesTo E st s v tr v' .nopayoutCap
  | prepeginCap {tr v'} : PrepeginShape st → (prepeginToCount E st s v).Path tr (.ok (), v') →
      ComesTo E st s v tr v' .prepeginCap

/-- A cap check that fails. -/
theorem checkCap_fails {c : Prop} [Decidable c] (h : ¬c) :
    (checkCap c v).Path [] (.error (.wipe .capExceeded), v) := by
  have hstop : checkCap c = Prog.stop (.wipe .capExceeded) := if_neg h
  rw [hstop]
  exact .ret _

/-- What stops at once behind `m` stops where `m` ends. -/
theorem path_bind_at_once {α β : Type} {m : V α} {f : α → V β} {tr : List readIface.Event} {a : α}
    {r : Except Stop β × Volatile} (h : (m v).Path tr (.ok a, v')) (hf : (f a v').Path [] r) :
    ((m >>= f) v).Path tr r := by
  have hb := Prog.path_ok_bind h hf
  rwa [List.append_nil] at hb

/-- One input and three outputs are a PegIn's. -/
theorem dispatch_pegin (hv : st.txVersion ≠ 0) (hnw : st.hasNoWalletPolicy = true)
    (hi : st.nInputs = 1) (ho : st.nOutputs = 3) :
    dispatch E st s = through .pegin (validatePegin E st s) := by
  simp [dispatch, hv, hnw, hi, ho]

/-- With two inputs, what the dispatcher looks at before it goes to the Payout. -/
theorem payoutPeek_dispatch {tr tr' : List readIface.Event} {v₁ : Volatile}
    {r : Except Stop Flow × Volatile} (hv : st.txVersion ≠ 0) (hnw : st.hasNoWalletPolicy = true)
    (h2 : st.nInputs = 2) (hl : s.ctx.state = .intentLoaded)
    (hp : (payoutPeek E st s v).Path tr (.ok (), v₁))
    (h : (through .payout (validatePayout E st s) v₁).Path tr' r) :
    (dispatch E st s v).Path (tr ++ tr') r := by
  have hd : dispatch E st s = (if st.nOutputs ≠ 2 then through .payout (validatePayout E st s)
      else do
        let m ← getMap .input 2 0
        let txid ← getPreviousTxid m
        if (findPeginGroup E s.intent txid).isSome then through .payout (validatePayout E st s)
        else dispatchRest E st s) := by
    simp [dispatch, hv, hnw, h2, hl]
  rw [hd]
  unfold payoutPeek at hp
  by_cases ho : st.nOutputs ≠ 2
  · rw [if_pos ho] at hp ⊢
    obtain ⟨rfl, hr⟩ := Prog.path_ret_ok rfl hp
    cases hr
    exact h
  · rw [if_neg ho] at hp ⊢
    obtain ⟨tr₁, m, v₂, _, h₁, hp₁, rfl⟩ := Prog.path_bind_ok hp
    obtain ⟨tr₂, txid, v₃, tr₃, h₂, hp₂, rfl⟩ := Prog.path_bind_ok hp₁
    by_cases hg : (findPeginGroup E s.intent txid).isSome
    · have hck : check ((findPeginGroup E s.intent txid).isSome) .incorrectData = pure () :=
        if_pos hg
      rw [hck] at hp₂
      obtain ⟨rfl, hr⟩ := Prog.path_ret_ok rfl hp₂
      cases hr
      rw [List.append_nil, List.append_assoc]
      refine Prog.path_ok_bind h₁ (Prog.path_ok_bind h₂ ?_)
      rw [if_pos hg]
      exact h
    · have hck : check ((findPeginGroup E s.intent txid).isSome) .incorrectData
          = Prog.stop (.reject .incorrectData) := if_neg hg
      rw [hck] at hp₂
      obtain ⟨-, hr⟩ := Prog.path_ret_ok rfl hp₂
      cases hr

/-- The dispatcher, at a check whose slot is consumed. -/
theorem ComesTo.stops {tr : List readIface.Event} {c : CapCheck} (h : ComesTo E st s v tr v' c)
    (hl : s.ctx.state = .intentLoaded) (hc : c.Consumed s) :
    (dispatch E st s v).Path tr (.error (.wipe .capExceeded), v') := by
  cases h with
  | peginDedup hv hnw hi ho h =>
    rw [dispatch_pegin hv hnw hi ho, validatePegin_slot]
    exact Prog.path_error_bind
      (path_bind_at_once h (Prog.path_error_bind (checkCap_fails (ne_false_of_eq_true hc))))
  | peginCap hv hnw hi ho h =>
    rw [dispatch_pegin hv hnw hi ho, validatePegin_count]
    exact Prog.path_error_bind (path_bind_at_once h (checkCap_fails (not_not.2 hc)))
  | payoutDedup hv hnw h2 hp h =>
    refine payoutPeek_dispatch hv hnw h2 hl hp ?_
    rw [validatePayout_slot]
    exact Prog.path_error_bind
      (path_bind_at_once h (Prog.path_error_bind (checkCap_fails (ne_false_of_eq_true hc))))
  | payoutCap hv hnw h2 hp h =>
    refine payoutPeek_dispatch hv hnw h2 hl hp ?_
    rw [validatePayout_count]
    exact Prog.path_error_bind
      (path_bind_at_once h (Prog.path_error_bind (checkCap_fails (not_not.2 hc))))
  | nopayoutCap hv hnw hi ho h =>
    have hd : dispatch E st s = through .nopayout (validateNopayout E st s) := by
      simp [dispatch, hv, hnw, hi, ho]
    rw [hd, validateNopayout_count]
    exact Prog.path_error_bind
      (path_bind_at_once h (Prog.path_error_bind (checkCap_fails (not_not.2 hc))))
  | prepeginCap hshape h =>
    obtain ⟨hv, hnw, hint⟩ := hshape
    have hd : dispatch E st s = through .prepegin (validatePrepegin E st s) := by
      simp [dispatch, dispatchRest, hv, hnw, hint]
    rw [hd, validatePrepegin_count]
    exact Prog.path_error_bind (path_bind_at_once h (checkCap_fails (not_not.2 hc)))

/-! ## Requests -/

/-- What a validator reads, as a call of the handler. -/
def readEvent (e : readIface.Event) : devIface.Event := ⟨.read e.1, e.2⟩

theorem asked_readEvent (tr : List readIface.Event) :
    (tr.map readEvent).map (·.1) = (tr.map (·.1)).map readHom.ask := by
  simp only [List.map_map]
  rfl

/-- A SIGN_PSBT whose answers lead the dispatcher to the check `c`. -/
def Exchange.ComesTo (E : Env) (d : Device) (x : Exchange) (c : CapCheck) : Prop :=
  ∃ st junk tr rest v', x.request = .signPsbt st ∧
    x.trace = ⟨.scratch, junk⟩ :: (tr.map readEvent ++ rest) ∧
    BabylonVault.ComesTo E st d.session d.volatile tr v' c

variable {d d' : Device}

theorem lift_readEvent (tr : List readIface.Event) :
    List.Forall₂ (Course.Event.Lifts readHom) (tr.map readEvent) tr := by
  induction tr with
  | nil => exact .nil
  | cons e tr ih => exact .cons .mk ih

/-- A validator that fails inside a handler. -/
theorem validating_error {α : Type} {w : Session → V α} {tr : List readIface.Event} {e : Stop}
    (h : (w d.session d.volatile).Path tr (.error e, v')) :
    (validating w d).Path (tr.map readEvent) (.error e, settleStop e (d.setVolatile v')) :=
  Prog.path_onError (Prog.path_embed (lift_readEvent tr) h)

/-- A SIGN_PSBT on a loaded session that comes to a check whose slot is consumed. -/
theorem signPsbt_capExceeded {c : CapCheck} {tr : List readIface.Event} (junk : DeriveCtx)
    (hs : d.streaming.streamingInProgress = false) (hl : d.ctx.state = .intentLoaded)
    (h : ComesTo E st d.session d.volatile tr v' c) (hc : c.Consumed d.session) :
    (handle E (.signPsbt st) d).Path (⟨.scratch, junk⟩ :: tr.map readEvent)
      (.error (.wipe .capExceeded),
        vaultContextInvalidate (({ d with deriveCtx := junk } : Device).setVolatile v')) := by
  refine Prog.path_error_bind (Prog.path_error_bind ?_)
  unfold validateAndDisplayTransaction
  rw [Prog.get_bind_run, if_neg (by simp [hs])]
  have hscratch : (clobberScratch d).Path [⟨.scratch, junk⟩]
      (.ok (), { d with deriveCtx := junk }) :=
    Course.Path.ask (I := devIface) (q := .scratch) junk (.ret _)
  exact Prog.path_ok_bind hscratch (Prog.path_error_bind (validating_error (h.stops hl hc)))

variable {x : Exchange}

/-- A request that comes to a check whose slot is consumed ends with `SW_CAP_EXCEEDED`,
    before the base app has begun to sign, and the session with it. -/
theorem Exchange.ComesTo.stops {c : CapCheck} (h : x.ComesTo E d c) (hx : Step E d x d')
    (hs : d.streaming.streamingInProgress = false) (hl : d.ctx.state = .intentLoaded)
    (hc : c.Consumed d.session) :
    x.result = some (.error (.wipe .capExceeded)) ∧ marks x.asked = [] ∧ d'.view = .zero := by
  obtain ⟨st, junk, tr, rest, v', hreq, htr, h⟩ := h
  have hp := signPsbt_capExceeded junk hs hl h hc
  rw [← List.cons_append] at htr
  obtain ⟨req, tr₀, e⟩ := x
  cases hreq
  cases htr
  cases hx with
  | done hx =>
    obtain ⟨rfl, hr⟩ := hp.unique hx
    cases hr
    refine ⟨rfl, ?_, rfl⟩
    show marks (List.map _ (_ ++ [])) = []
    rw [List.append_nil, asked_readEvent]
    exact marks_reads _
  | cut hx => exact absurd hx hp.not_cut

/-- There is a request for every way to a check whose slot is consumed. -/
theorem ComesTo.request {c : CapCheck} {tr : List readIface.Event}
    (h : ComesTo E st d.session d.volatile tr v' c) (hs : d.streaming.streamingInProgress = false)
    (hl : d.ctx.state = .intentLoaded) (hc : c.Consumed d.session) :
    ∃ y d', Step E d y d' ∧ y.ComesTo E d c := by
  refine ⟨_, _, .done (signPsbt_capExceeded .zero hs hl h hc), st, .zero, tr, [], v', rfl, ?_, h⟩
  rw [List.append_nil]

end BabylonVault
