/-
  What a session is bound to.

  * `Log`: what a run says about the session, from its requests and their results
    alone: the derivation under way, the last one completed, the intent payloads.
  * `SessionOk`: the device agrees with the log, in each state of the session;
    every step keeps it (`SessionOk.step`), so every run does (`Reach.session`).
-/
import BabylonVault.Request
import BabylonVault.Wellformed

namespace BabylonVault
open Bytes

/-! ## The log of a run -/

/-- A derivation, as the host asked for it. -/
structure DeriveCall where
  appName : Bytes
  path : List UInt32
  context : Bytes

/-- The root a derivation computes. -/
def DeriveCall.root (E : Env) (c : DeriveCall) : Option Bytes32 :=
  (E.pubkeyAt c.path).map fun pk => hkdfDeriveRoot E c.appName pk.toList c.context

/-- What a run says about the session. -/
structure Log where
  /-- The header of a derivation under way, and its context so far. -/
  pending : Option (InitialChunk × Bytes)
  /-- The last derivation that was completed. -/
  call : Option DeriveCall
  /-- The payloads of the intent, from the last P1=0x00 on. -/
  payloads : Bytes

namespace Log

def empty : Log := ⟨none, none, []⟩

/-- A derivation whose context so far is `buf`. -/
def derive (log : Log) (c : InitialChunk) (buf : Bytes) : Log :=
  if buf.length < c.contextTotalLen then { log with pending := some (c, buf) }
  else { log with pending := none, call := some ⟨c.appName, c.path, buf⟩ }

/-- A request that succeeded. -/
def succeed (log : Log) : Request → Log
  | .derive p1 _ data =>
    if p1 = 0 then
      match parseInitialChunk data with
      | .ok c => log.derive c c.firstChunk
      | .error _ => log
    else
      match log.pending with
      | some (c, buf) => log.derive c (buf ++ data)
      | none => log
  | .approve p1 _ data =>
    if p1 = 0 then { log with payloads := data }
    else { log with payloads := log.payloads ++ data }
  | _ => log

/-- One exchange. -/
def step (log : Log) (x : Exchange) : Log :=
  match x.result with
  | some (.ok _) => log.succeed x.request
  | _ => log

theorem step_ok {log : Log} {req : Request} {tr : List devIface.Event} {out : Bytes} :
    log.step ⟨req, tr, .answered (.ok out)⟩ = log.succeed req := rfl

/-- A SIGN_PSBT is not recorded. -/
theorem step_sign {log : Log} {x : Exchange} {st : SignPsbtState} (h : x.request = .signPsbt st) :
    log.step x = log := by
  rw [step, h]
  rcases x.result with _ | _ | _ <;> rfl

/-- The log of a run. -/
def ofRun (ls : List Exchange) : Log := ls.foldl step empty

theorem ofRun_snoc (ls : List Exchange) (x : Exchange) :
    ofRun (ls ++ [x]) = (ofRun ls).step x := List.foldl_append

end Log

/-! ## The invariant -/

variable (E : Env) (log : Log)

/-- The session was opened by the last derivation, whose root this is. -/
structure Opened (root : Bytes32) (ctx : VaultContext) : Prop where
  call : ∃ c, log.call = some c ∧ c.root E = some root ∧ ctx.derivationPath = c.path ∧
    ctx.appName = c.appName
  fingerprint : ctx.contextFp = vaultFingerprint E root.toList

/-- A session in state HASH_DERIVED, with the load under way. -/
structure DerivedOk (d : Device) : Prop where
  opened : Opened E log d.ctx.root d.ctx
  fresh : d.ctx = { VaultContext.zero with
    root := d.ctx.root, state := .hashDerived, derivationPath := d.ctx.derivationPath,
    appName := d.ctx.appName, contextFp := d.ctx.contextFp }
  load : d.approve.scalarsLoaded = true → ScalarsOk E.network d.intent ∧
    GroupsOk E d.intent d.tr.vaultGroupIndex ∧ KeysOk E d.intent d.approve.keysReceived ∧
    (d.approve.keysReceived = 0 ∨ d.tr.vaultGroupIndex = d.intent.vaultCount) ∧
    d.approve.intentHash = log.payloads

/-- The counters and masks of a loaded session. -/
structure CountersOk (ctx : VaultContext) (it : VaultIntent) : Prop where
  prepegin : ctx.prePeginSigned ≤ 1
  peginLen : ctx.peginGroupMask.length = groupMaskLen
  pegin : ctx.peginSigned = popcount ctx.peginGroupMask
  peginBits : ∀ i, bit ctx.peginGroupMask i = true → i < it.vaultCount
  payoutLen : ctx.payoutClaimerMask.length = payoutMaskLen
  payout : ctx.payoutSigned = popcount ctx.payoutClaimerMask
  payoutBits : ∀ i, bit ctx.payoutClaimerMask i = true →
    ∃ gi < it.vaultCount, ∃ ci ≤ it.keeperCount + 1, i = payoutSlot it gi ci
  nopayout : ctx.nopayoutSigned ≤ it.vaultCount * (it.keeperCount + it.challengerCount)

/-- The commitments of a loaded session to its root. -/
structure CommitsTo (root : Bytes32) (ctx : VaultContext) (it : VaultIntent) : Prop where
  wiped : ctx.root = Buf.zero 32
  hashlock : ∀ gi < it.vaultCount,
    ctx.htlcHashlock.pick gi = vaultDeriveHashlockCommitment E root (it.group gi).htlcVout
  authAnchor : ctx.authAnchorHash = vaultDeriveAuthAnchorCommitment E root
  fingerprint : ctx.intentFp = vaultFingerprint E log.payloads

/-- A session in state INTENT_LOADED. -/
structure LoadedOk (d : Device) : Prop where
  opened : ∃ root, Opened E log root d.ctx ∧ CommitsTo E log root d.ctx d.intent
  intent : LoadedIntent E d.intent
  path : d.ctx.derivationPath = d.intent.depositorPath.toList
  counters : CountersOk d.ctx d.intent
  approve : d.approve = .zero

/-- The device holds what the log says of a derivation under way. -/
def StreamOpen (d : Device) : Prop :=
  d.ctx.state = .idle ∧ ∃ c buf, log.pending = some (c, buf) ∧
    d.deriveCtx = ⟨c.appName, c.path, buf⟩ ∧ d.streaming.contextTotalLen = c.contextTotalLen ∧
    d.streaming.contextReceivedLen = buf.length

/-- The device agrees with the log. -/
structure SessionOk (d : Device) : Prop where
  stream : d.streaming.streamingInProgress = true → StreamOpen log d
  idle : d.ctx.state = .idle → d.ctx = .zero ∧ d.intent = .zero ∧ d.approve = .zero
  derived : d.ctx.state = .hashDerived → DerivedOk E log d
  loaded : d.ctx.state = .intentLoaded → LoadedOk E log d

variable {E log} {d d' d₁ : Device}

theorem SessionOk.boot : SessionOk E log Device.boot :=
  ⟨fun h => Bool.noConfusion h, fun _ => ⟨rfl, rfl, rfl⟩, (nomatch ·), (nomatch ·)⟩

/-- A session that is all zero agrees with every log. -/
theorem SessionOk.zero (hc : d.ctx = .zero) (hi : d.intent = .zero) (ha : d.approve = .zero)
    (hs : d.streaming.streamingInProgress = true → StreamOpen log d) : SessionOk E log d := by
  refine ⟨hs, fun _ => ⟨hc, hi, ha⟩, fun h => ?_, fun h => ?_⟩ <;> rw [hc] at h <;> cases h

/-- The session alone matters, but for the group counter of a load. -/
theorem SessionOk.same (h : SessionOk E log d) (hd : SameSession d d') : SessionOk E log d' := by
  obtain ⟨hc, hi, ha, hg, hs⟩ := hd
  refine ⟨fun hs' => ?_, fun hst => ?_, fun hst => ?_, fun hst => ?_⟩
  · rw [hs] at hs'
    exact Bool.noConfusion hs'
  · rw [hc] at hst ⊢
    rw [hi, ha]
    exact h.idle hst
  · rw [hc] at hst
    have hd := h.derived hst
    have hg' := hg (by rw [hst]; decide)
    exact ⟨hc ▸ hd.opened, hc ▸ hd.fresh, by rw [ha, hi, hg']; exact hd.load⟩
  · rw [hc] at hst
    have hl := h.loaded hst
    exact ⟨by rw [hc, hi]; exact hl.opened, hi ▸ hl.intent, by rw [hc, hi]; exact hl.path,
      by rw [hc, hi]; exact hl.counters, ha ▸ hl.approve⟩

theorem SessionOk.wiped (hs : d₁.streaming.streamingInProgress = false) :
    SessionOk E log (vaultContextInvalidate d₁) :=
  .zero rfl rfl rfl fun h => by
    rw [show (vaultContextInvalidate d₁).streaming = d₁.streaming from rfl, hs] at h
    exact Bool.noConfusion h

/-! ## Derivations -/

/-- A derivation that was completed has opened the session. -/
theorem finalizeEnd_ok {c : InitialChunk} {buf : Bytes} {r : Except Stop Bytes}
    (h : FinalizeEnd E d r d') (hc : d.ctx = .zero) (hi : d.intent = .zero)
    (ha : d.approve = .zero) (hd : d.deriveCtx = ⟨c.appName, c.path, buf⟩)
    (hlt : ¬buf.length < c.contextTotalLen) :
    (∃ e, r = .error e) ∧ SessionOk E log d' ∨ (∃ out, r = .ok out) ∧
      SessionOk E (log.derive c buf) d' := by
  cases h with
  | kept => exact .inl ⟨⟨_, rfl⟩, .zero hc hi ha fun h => Bool.noConfusion h⟩
  | wiped => exact .inl ⟨⟨_, rfl⟩, .wiped rfl⟩
  | @opened pk out hpk hst =>
    refine .inr ⟨⟨_, rfl⟩, fun h => Bool.noConfusion h, (nomatch ·), fun _ => ?_, (nomatch ·)⟩
    have hcall : (log.derive c buf).call = some ⟨c.appName, c.path, buf⟩ := by
      rw [Log.derive, if_neg hlt]
    have hroot : scratchRoot E (d.setStream false) pk = hkdfDeriveRoot E c.appName pk.toList buf := by
      show hkdfDeriveRoot E d.deriveCtx.appNameBuf pk.toList d.deriveCtx.contextBuf = _
      rw [hd]
    refine ⟨⟨⟨_, hcall, ?_, ?_, ?_⟩, rfl⟩, ?_, fun h => ?_⟩
    · show (E.pubkeyAt c.path).map _ = some (scratchRoot E (d.setStream false) pk)
      rw [hd] at hpk
      rw [hroot, show E.pubkeyAt c.path = some pk from hpk]
      rfl
    · show d.deriveCtx.path = c.path
      rw [hd]
    · show d.deriveCtx.appNameBuf = c.appName
      rw [hd]
    · simp only [derivedDevice, Device.dropContext, Device.setStream, hc]
    · rw [show (derivedDevice E (d.setStream false) pk).approve = d.approve from rfl, ha] at h
      exact Bool.noConfusion h

/-- What a P1=0x00 leaves of the session: nothing. -/
theorem startDerive_zero (h : SessionOk E log d) :
    (startDerive d).ctx = .zero ∧ (startDerive d).intent = .zero := by
  unfold startDerive
  by_cases hs : d.ctx.state = .idle
  · have hz := h.idle hs
    simp only [hs, ne_eq, not_true_eq_false, if_false]
    exact ⟨hz.1, hz.2.1⟩
  · simp only [ne_eq, hs, not_false_eq_true, if_true]
    exact ⟨rfl, rfl⟩

/-- What a derivation does to the session and the log. -/
theorem SessionOk.derive {p1 p2 : UInt8} {data : Bytes} {tr : List devIface.Event}
    {r : Except Stop Bytes} (h : SessionOk E log d) (hend : DeriveEnd E d p1 p2 data r d') :
    SessionOk E (log.step ⟨.derive p1 p2 data, tr, .answered r⟩) d' := by
  have hfin : ∀ {c buf r d₁}, FinalizeEnd E d₁ r d' → d₁.ctx = .zero → d₁.intent = .zero →
      d₁.approve = .zero → d₁.deriveCtx = ⟨c.appName, c.path, buf⟩ →
      ¬buf.length < c.contextTotalLen →
      (∀ out, r = .ok out → log.step ⟨.derive p1 p2 data, tr, .answered r⟩ = log.derive c buf) →
      SessionOk E (log.step ⟨.derive p1 p2 data, tr, .answered r⟩) d' := by
    intro c buf r d₁ hf hc hi ha hd hlt hlog
    have hend : (∃ e, r = .error e) ∧ SessionOk E log d' ∨ (∃ out, r = .ok out) ∧
        SessionOk E (log.derive c buf) d' := finalizeEnd_ok hf hc hi ha hd hlt
    rcases hend with ⟨⟨e, rfl⟩, hok⟩ | ⟨⟨out, rfl⟩, hok⟩
    · exact hok
    · rwa [hlog out rfl]
  have hidle : d.streaming.streamingInProgress = true → d.ctx = .zero ∧ d.intent = .zero ∧
      d.approve = .zero := fun hs => h.idle (h.stream hs).1
  cases hend with
  | refused => exact h
  | malformed =>
    exact .zero (startDerive_zero h).1 (startDerive_zero h).2 rfl fun h => Bool.noConfusion h
  | @begun c hp1 hp hlt =>
    have hz := startDerive_zero h
    refine .zero hz.1 hz.2 rfl fun _ => ⟨?_, c, c.firstChunk, ?_, rfl, rfl, rfl⟩
    · show (startDerive d).ctx.state = .idle
      rw [hz.1]
      rfl
    · simp only [Log.step_ok, Log.succeed, if_pos hp1, hp, Log.derive, if_pos hlt]
  | @atOnce c _ _ hp1 hp hlt hf =>
    have hz := startDerive_zero h
    refine hfin hf hz.1 hz.2 rfl rfl hlt ?_
    rintro out rfl
    simp only [Log.step_ok, Log.succeed, if_pos hp1, hp]
  | dropped => exact .zero rfl rfl rfl fun h => Bool.noConfusion h
  | fed hp1 hs hlt =>
    obtain ⟨hst, c, buf, hpend, hctx, htot, hrec⟩ := h.stream hs
    obtain ⟨hc, hi, ha⟩ := hidle hs
    refine .zero hc hi ha fun _ => ⟨hst, c, buf ++ data, ?_, ?_, htot, ?_⟩
    · have hne : ¬p1 = 0 := by rw [hp1]; decide
      have hlt' : (buf ++ data).length < c.contextTotalLen := by
        rw [List.length_append, ← hrec, ← htot]
        exact hlt
      simp only [Log.step_ok, Log.succeed, if_neg hne, hpend, Log.derive, if_pos hlt']
    · show ({ d.deriveCtx with contextBuf := d.deriveCtx.contextBuf ++ data } : DeriveCtx) = _
      rw [hctx]
    · show d.streaming.contextReceivedLen + data.length = _
      rw [hrec, List.length_append]
  | @last r d' hp1 hs hlt hf =>
    obtain ⟨hst, c, buf, hpend, hctx, htot, hrec⟩ := h.stream hs
    obtain ⟨hc, hi, ha⟩ := hidle hs
    have hlt' : ¬(buf ++ data).length < c.contextTotalLen := by
      rw [List.length_append, ← hrec, ← htot]
      exact hlt
    refine hfin (c := c) hf hc hi ha ?_ hlt' ?_
    · show ({ d.deriveCtx with contextBuf := d.deriveCtx.contextBuf ++ data } : DeriveCtx) = _
      rw [hctx]
    · rintro out rfl
      have hne : ¬p1 = 0 := by rw [hp1]; decide
      simp only [Log.step_ok, Log.succeed, if_neg hne, hpend]

/-! ## The load -/

/-- While a load is under way the session is open and no derivation is. -/
theorem SessionOk.loading (h : SessionOk E log d) (hs : d.approve.scalarsLoaded = true) :
    d.ctx.state = .hashDerived := by
  rcases hst : d.ctx.state
  · rw [(h.idle hst).2.2] at hs
    exact Bool.noConfusion hs
  · rfl
  · rw [(h.loaded hst).approve] at hs
    exact Bool.noConfusion hs

theorem SessionOk.not_streaming (h : SessionOk E log d) (hst : d.ctx.state ≠ .idle) :
    d.streaming.streamingInProgress = false := by
  by_contra hs
  exact hst (h.stream (by simpa using hs)).1

/-- A request that may wipe finds no derivation under way. -/
theorem SessionOk.not_streaming_of_accepted {p1 p2 : UInt8} (h : SessionOk E log d)
    (hr : ¬ApproveRefused d p1 p2) : d.streaming.streamingInProgress = false := by
  refine h.not_streaming fun hst => hr ?_
  have hz := (h.idle hst).2.2
  by_cases h0 : p1 = 0
  · exact .inr (.inl ⟨h0, by rw [hst]; decide⟩)
  · by_cases h12 : p1 = 1 ∨ p1 = 2
    · exact .inr (.inr (.inl ⟨h12, by rw [hz]; rfl⟩))
    · exact .inr (.inr (.inr ⟨h0, fun h1 => h12 (.inl h1), fun h2 => h12 (.inr h2)⟩))

theorem hashlocks_pick {root : Bytes32} {it : VaultIntent} {v : List.Vector Bytes32 maxVaults} :
    ∀ {n gi : ℕ}, n ≤ maxVaults → gi < n → (hashlocks E root it n v).pick gi =
      vaultDeriveHashlockCommitment E root (it.group gi).htlcVout
  | n + 1, gi, hn, hg => by
    rw [hashlocks]
    by_cases he : gi = n
    · rw [he, List.Vector.pick_put_self (by omega)]
    · rw [List.Vector.pick_put_ne (Ne.symm he), hashlocks_pick (by omega) (by omega)]

/-- The counts a load has accepted. -/
theorem ScalarsOk.counts {net : Network} {it : VaultIntent} (h : ScalarsOk net it) :
    (1 ≤ it.keeperCount ∧ it.keeperCount ≤ maxKeepers) ∧
      (1 ≤ it.challengerCount ∧ it.challengerCount ≤ maxChallengers) ∧
      1 ≤ it.vaultCount ∧ it.vaultCount ≤ maxVaults := by
  have h9 : ¬(it.keeperCount < 1 ∨ it.keeperCount > maxKeepers) := h 9 (by decide)
  have h10 : ¬(it.challengerCount < 1 ∨ it.challengerCount > maxChallengers) := h 10 (by decide)
  have h11 : ¬(it.vaultCount < 1 ∨ it.vaultCount > maxVaults) := h 11 (by decide)
  omega

/-- The fee rate a load has accepted. -/
theorem ScalarsOk.feeRate {net : Network} {it : VaultIntent} (h : ScalarsOk net it) :
    1 ≤ it.baseFeeRate.toNat ∧ it.baseFeeRate.toNat ≤ 10000 := by
  have h3 : ¬(it.baseFeeRate = 0 ∨ it.baseFeeRate > baseFeeRateMax) := h 3 (by decide)
  rw [not_or, ← UInt64.toNat_inj] at h3
  exact ⟨Nat.one_le_iff_ne_zero.2 h3.1, UInt64.le_iff_toNat_le.1 (UInt64.not_lt.1 h3.2)⟩

theorem CountersOk.zero (it : VaultIntent) : CountersOk VaultContext.zero it where
  prepegin := Nat.zero_le _
  peginLen := rfl
  pegin := (popcount_replicate_zero _).symm
  peginBits i h := by
    rw [show VaultContext.zero.peginGroupMask = List.replicate groupMaskLen 0 from rfl,
      bit_replicate_zero] at h
    exact Bool.noConfusion h
  payoutLen := rfl
  payout := (popcount_replicate_zero _).symm
  payoutBits i h := by
    rw [show VaultContext.zero.payoutClaimerMask = List.replicate payoutMaskLen 0 from rfl,
      bit_replicate_zero] at h
    exact Bool.noConfusion h
  nopayout := Nat.zero_le _

/-- A load that goes on. -/
theorem SessionOk.loadMore {log' : Log} (h : SessionOk E log d) (hst : d.ctx.state = .hashDerived)
    (ho : Opened E log' d'.ctx.root d'.ctx) (hf : d'.ctx = { VaultContext.zero with
      root := d'.ctx.root, state := .hashDerived, derivationPath := d'.ctx.derivationPath,
      appName := d'.ctx.appName, contextFp := d'.ctx.contextFp })
    (hl : ScalarsOk E.network d'.intent ∧ GroupsOk E d'.intent d'.tr.vaultGroupIndex ∧
      KeysOk E d'.intent d'.approve.keysReceived ∧
      (d'.approve.keysReceived = 0 ∨ d'.tr.vaultGroupIndex = d'.intent.vaultCount) ∧
      d'.approve.intentHash = log'.payloads)
    (hs : d'.streaming = d.streaming) : SessionOk E log' d' := by
  have hst' : d'.ctx.state = .hashDerived := by rw [hf]
  refine ⟨fun hs' => ?_, fun h' => ?_, fun _ => ⟨ho, hf, fun _ => hl⟩, fun h' => ?_⟩
  · rw [hs, h.not_streaming (by rw [hst]; decide)] at hs'
    exact Bool.noConfusion hs'
  · exact absurd (hst'.symm.trans h') (by decide)
  · exact absurd (hst'.symm.trans h') (by decide)

/-- A load that is approved. -/
theorem DerivedOk.toLoaded {pk : Buf 33} {junk : DeriveCtx} (h : DerivedOk E log d)
    (hl : d.approve.scalarsLoaded = true) (hg : d.tr.vaultGroupIndex = d.intent.vaultCount)
    (hk : ¬d.approve.keysReceived < d.intent.keeperCount + d.intent.challengerCount)
    (hc : LoadChecks E d pk) : LoadedOk E log (loadedDevice E d pk junk) := by
  obtain ⟨hs, hgs, hks, -, hhash⟩ := h.load hl
  have hn : d.approve.keysReceived = d.intent.keeperCount + d.intent.challengerCount :=
    le_antisymm hks.count (not_lt.1 hk)
  refine ⟨⟨d.ctx.root, ⟨h.opened.call, h.opened.fingerprint⟩, rfl, fun gi hgi => ?_, rfl, ?_⟩, ?_,
    hc.path, ?_, rfl⟩
  · exact hashlocks_pick hs.counts.2.2.2 hgi
  · show vaultFingerprint E d.approve.intentHash = _
    rw [hhash]
  · refine ⟨fun i hi => hs i hi, ?_, ?_, ⟨pk, hc.pubkey, rfl⟩, hc.unique⟩
    · rw [hg] at hgs
      exact ⟨hgs.count, hgs.group, hgs.ascending⟩
    · rw [hn] at hks
      exact ⟨hks.count, hks.key, hks.vault, hks.distinct, hks.order⟩
  · have hz := CountersOk.zero (d.setDepositor pk).intent
    have hf := h.fresh
    have hctx : (loadedDevice E d pk junk).ctx.prePeginSigned = 0 ∧
        (loadedDevice E d pk junk).ctx.peginSigned = 0 ∧
        (loadedDevice E d pk junk).ctx.payoutSigned = 0 ∧
        (loadedDevice E d pk junk).ctx.nopayoutSigned = 0 ∧
        (loadedDevice E d pk junk).ctx.peginGroupMask = VaultContext.zero.peginGroupMask ∧
        (loadedDevice E d pk junk).ctx.payoutClaimerMask = VaultContext.zero.payoutClaimerMask := by
      unfold loadedDevice
      rw [hf]
      exact ⟨rfl, rfl, rfl, rfl, rfl, rfl⟩
    obtain ⟨h1, h2, h3, h4, h5, h6⟩ := hctx
    exact ⟨h1 ▸ hz.prepegin, h5 ▸ hz.peginLen, by rw [h2, h5]; exact hz.pegin, h5 ▸ hz.peginBits,
      h6 ▸ hz.payoutLen, by rw [h3, h6]; exact hz.payout, h6 ▸ hz.payoutBits, h4 ▸ hz.nopayout⟩

/-- What the intent payloads do to the session and the log. -/
theorem SessionOk.approve {p1 p2 : UInt8} {data : Bytes} {tr : List devIface.Event}
    {r : Except Stop Unit} (h : SessionOk E log d) (hend : ApproveEnd E d p1 p2 data r d') :
    SessionOk E (log.step ⟨.approve p1 p2 data, tr, .answered (r.map fun _ => [])⟩) d' := by
  have hmore : p1 ≠ 0 → log.step ⟨.approve p1 p2 data, tr, .answered (.ok [])⟩ =
      { log with payloads := log.payloads ++ data } := fun hne => by
    simp only [Log.step_ok, Log.succeed, if_neg hne]
  cases hend with
  | refused => exact h
  | wiped hr => exact .wiped (h.not_streaming_of_accepted hr)
  | @scalars it hp hst hparse =>
    have hd := h.derived hst
    have hs := h.not_streaming (by rw [hst]; decide)
    have hlog : log.step ⟨.approve p1 p2 data, tr, .answered (.ok [])⟩ = { log with payloads := data } := by
      simp only [Log.step_ok, Log.succeed, if_pos hp]
    show SessionOk E (log.step ⟨.approve p1 p2 data, tr, .answered (.ok [])⟩) _
    rw [hlog]
    refine ⟨fun hs' => ?_, (nomatch ·), fun _ => ?_, (nomatch ·)⟩
    · rw [show (scalarsDevice d it data).streaming = d.streaming from rfl, hs] at hs'
      exact Bool.noConfusion hs'
    · exact ⟨⟨hd.opened.call, hd.opened.fingerprint⟩, rfl, fun _ => ⟨vaultTlvParse_ok hparse,
        .zero E it, .zero E it, .inl rfl, rfl⟩⟩
  | @groups it gi hp hl hg =>
    have hst := h.loading hl
    have hd := h.derived hst
    obtain ⟨hsc, hgs, hks, hfull, hhash⟩ := hd.load hl
    obtain ⟨hgs', gs, rfl⟩ := storeGroups_ok hg hsc.counts.2.2.2 hgs
    have hks' : KeysOk E { d.intent with groups := gs } d.approve.keysReceived ∧
        (d.approve.keysReceived = 0 ∨ gi = d.intent.vaultCount) := by
      rcases hfull with h0 | hv
      · exact ⟨h0 ▸ .zero E _, .inl h0⟩
      · rw [hv] at hg
        obtain ⟨he, rfl⟩ := storeGroups_full hg
        exact ⟨he ▸ hks, .inr rfl⟩
    show SessionOk E (log.step ⟨.approve p1 p2 data, tr, .answered (.ok [])⟩) _
    rw [hmore (by rw [hp]; decide)]
    exact .loadMore h hst ⟨hd.opened.call, hd.opened.fingerprint⟩ hd.fresh ⟨fun i hi => hsc i hi, hgs',
      hks'.1, hks'.2, congrArg (· ++ data) hhash⟩ rfl
  | @keys it n hp hl hv hst hk hn =>
    have hd := h.derived hst
    obtain ⟨hsc, hgs, hks, -, hhash⟩ := hd.load hl
    obtain ⟨hks', ks, cs, rfl⟩ := storeKeys_ok hk hsc.counts.1.2 hsc.counts.2.1.2 hks
    show SessionOk E (log.step ⟨.approve p1 p2 data, tr, .answered (.ok [])⟩) _
    rw [hmore (by rw [hp]; decide)]
    exact .loadMore h hst ⟨hd.opened.call, hd.opened.fingerprint⟩ hd.fresh ⟨fun i hi => hsc i hi,
      ⟨hgs.count, hgs.group, hgs.ascending⟩, hks', .inr hv, congrArg (· ++ data) hhash⟩ rfl
  | @loaded it n pk junk hp hl hv hk hn hc =>
    have hst : d.ctx.state = .hashDerived := hc.state
    have hd := h.derived hst
    obtain ⟨hsc, hgs, hks, -, hhash⟩ := hd.load hl
    obtain ⟨hks', ks, cs, rfl⟩ := storeKeys_ok hk hsc.counts.1.2 hsc.counts.2.1.2 hks
    show SessionOk E (log.step ⟨.approve p1 p2 data, tr, .answered (.ok [])⟩) _
    rw [hmore (by rw [hp]; decide)]
    have hd' : DerivedOk E { log with payloads := log.payloads ++ data }
        ((d.setKeys { d.intent with keeperPks := ks, challengerPks := cs } n).absorb data) :=
      ⟨⟨hd.opened.call, hd.opened.fingerprint⟩, hd.fresh, fun _ => ⟨fun i hi => hsc i hi,
        ⟨hgs.count, hgs.group, hgs.ascending⟩, hks', .inr hv, congrArg (· ++ data) hhash⟩⟩
    refine ⟨fun hs' => ?_, (nomatch ·), (nomatch ·), fun _ => hd'.toLoaded hl hv hn hc⟩
    exact absurd (h.stream hs').1 (by rw [hst]; decide)

/-! ## Signatures -/

/-- Every slot lies inside the mask. -/
theorem payoutSlot_lt {it : VaultIntent} {gi ci : ℕ} (hs : ScalarsOk E.network it)
    (hg : gi < it.vaultCount) (hc : ci ≤ it.keeperCount + 1) :
    payoutSlot it gi ci < 8 * payoutMaskLen := by
  obtain ⟨⟨-, hk⟩, -, -, hv⟩ := hs.counts
  simp only [maxKeepers, maxVaults] at hk hv
  have hmul : gi * (it.keeperCount + 2) ≤ 9 * 34 := Nat.mul_le_mul (by omega) (by omega)
  simp only [payoutSlot, payoutMaskLen]
  omega

/-- The masks have room for every slot of the intent. -/
theorem CountersOk.pegin_lt {ctx : VaultContext} {it : VaultIntent} {gi : ℕ} (h : CountersOk ctx it)
    (hs : ScalarsOk E.network it) (hg : gi < it.vaultCount) : gi < 8 * ctx.peginGroupMask.length := by
  have hv := hs.counts.2.2.2
  rw [h.peginLen]
  simp only [groupMaskLen, maxVaults] at hv ⊢
  omega

theorem CountersOk.payout_lt {ctx : VaultContext} {it : VaultIntent} {gi ci : ℕ}
    (h : CountersOk ctx it) (hs : ScalarsOk E.network it) (hg : gi < it.vaultCount)
    (hc : ci ≤ it.keeperCount + 1) : payoutSlot it gi ci < 8 * ctx.payoutClaimerMask.length := by
  rw [h.payoutLen]
  exact payoutSlot_lt hs hg hc

/-- A signature of a kind with a free slot keeps the counters in step with the masks. -/
theorem CountersOk.count {kind : SigKind} (h : CountersOk d.ctx d.intent)
    (hs : ScalarsOk E.network d.intent) (hf : kind.Free d) :
    CountersOk (kind.count d).ctx d.intent := by
  cases kind with
  | standalone => exact h
  | nopayout ci =>
    exact { h with nopayout := Nat.succ_le_of_lt hf.2 }
  | pegin gi =>
    obtain ⟨-, hg, hbit⟩ := hf
    have hlt := h.pegin_lt hs hg
    refine { h with peginLen := ?_, pegin := ?_, peginBits := ?_ }
    · exact (length_setBit _ _).trans h.peginLen
    · show d.ctx.peginSigned + 1 = popcount (setBit d.ctx.peginGroupMask gi)
      rw [popcount_setBit hlt hbit, h.pegin]
    · intro i hi
      have hi' : bit (setBit d.ctx.peginGroupMask gi) i = true := hi
      rw [bit_setBit hlt, Bool.or_eq_true, decide_eq_true_eq] at hi'
      rcases hi' with rfl | hi'
      · exact hg
      · exact h.peginBits i hi'
  | payout gi ci =>
    obtain ⟨-, hg, hci, hbit⟩ := hf
    have hlt := h.payout_lt hs hg hci
    refine { h with payoutLen := ?_, payout := ?_, payoutBits := ?_ }
    · exact (length_setBit _ _).trans h.payoutLen
    · show d.ctx.payoutSigned + 1 =
        popcount (setBit d.ctx.payoutClaimerMask (payoutSlot d.intent gi ci))
      rw [popcount_setBit hlt hbit, h.payout]
    · intro i hi
      have hi' : bit (setBit d.ctx.payoutClaimerMask (payoutSlot d.intent gi ci)) i = true := hi
      rw [bit_setBit hlt, Bool.or_eq_true, decide_eq_true_eq] at hi'
      rcases hi' with rfl | hi'
      · exact ⟨gi, hg, ci, hci, rfl⟩
      · exact h.payoutBits i hi'

/-- Only the counters and masks of a loaded session have changed. -/
theorem SessionOk.counted {c₁ c₂ c₃ c₄ : ℕ} {m₁ m₂ : Bytes} (h : SessionOk E log d)
    (hst : d.ctx.state = .intentLoaded) (hc : CountersOk { d.ctx with
      prePeginSigned := c₁, peginSigned := c₂, payoutSigned := c₃, nopayoutSigned := c₄,
      payoutClaimerMask := m₁, peginGroupMask := m₂ } d.intent) :
    SessionOk E log { d with ctx := { d.ctx with
      prePeginSigned := c₁, peginSigned := c₂, payoutSigned := c₃, nopayoutSigned := c₄,
      payoutClaimerMask := m₁, peginGroupMask := m₂ } } := by
  have hl := h.loaded hst
  obtain ⟨root, ho, hcom⟩ := hl.opened
  refine ⟨fun hs => absurd (h.stream hs).1 (by rw [hst]; decide), fun hst' => ?_, fun hst' => ?_,
    fun _ => ⟨⟨root, ⟨ho.call, ho.fingerprint⟩,
      ⟨hcom.wiped, hcom.hashlock, hcom.authAnchor, hcom.fingerprint⟩⟩, hl.intent, hl.path, hc,
      hl.approve⟩⟩
  · exact absurd (hst.symm.trans hst') (by decide)
  · exact absurd (hst.symm.trans hst') (by decide)

/-- The slot of a kind is that of the session, whatever the transient state. -/
theorem SigKind.Free.same {kind : SigKind} (hf : kind.Free d) (hd : SameSession d d₁) :
    kind.Free d₁ := by
  cases kind <;> simp only [SigKind.Free, hd.ctx, hd.intent] <;> exact hf

/-- What a SIGN_PSBT does to the session. -/
theorem SessionOk.sign {st : SignPsbtState} {mk : List Mark} {r : Option (Except Stop Unit)}
    (h : SessionOk E log d) (hend : SignEnd E st d mk r d') : SessionOk E log d' := by
  cases hend with
  | kept _ _ hd => exact h.same hd
  | prepegin _ ha _ hd =>
    have h₁ := h.same hd
    have hst₁ := (congrArg VaultContext.state hd.ctx).trans ha.loaded
    refine h₁.counted hst₁ { (h₁.loaded hst₁).counters with prepegin := ?_ }
    have h0 : d.ctx.prePeginSigned = 0 := ha.fresh
    simp [hd.ctx, h0]
  | @signed kind req r d₁ _ hf hd =>
    have h₁ := h.same hd
    have hf₁ := hf.same hd
    rcases hk : kind with gi | ⟨gi, ci⟩ | ci | _ <;> rw [hk] at hf₁
    · exact h₁.counted hf₁.1 ((h₁.loaded hf₁.1).counters.count (h₁.loaded hf₁.1).intent.scalars hf₁)
    · exact h₁.counted hf₁.1 ((h₁.loaded hf₁.1).counters.count (h₁.loaded hf₁.1).intent.scalars hf₁)
    · exact h₁.counted hf₁.1 ((h₁.loaded hf₁.1).counters.count (h₁.loaded hf₁.1).intent.scalars hf₁)
    · exact h₁
  | wiped _ hs => exact .wiped hs
  | restarted => exact .boot

/-! ## Runs -/

/-- Every step keeps the device and the log in agreement. -/
theorem SessionOk.step {x : Exchange} (h : SessionOk E log d) (hx : StepEnd E d x d') :
    SessionOk E (log.step x) d' := by
  cases hx with
  | derive hend => exact h.derive hend
  | approve hend => exact h.approve hend
  | @getState _ _ _ _ r => cases r <;> exact h
  | sign hreq hend =>
    rw [Log.step_sign hreq]
    exact h.sign hend

/-- In every reachable state the device agrees with the log of the run. -/
theorem Reach.session {ls : List Exchange} (h : Reach E ls d) : SessionOk E (.ofRun ls) d :=
  Run.hist (P := fun ls d => SessionOk E (Log.ofRun ls) d) SessionOk.boot
    (fun ls d x d' _ hd hx => by
      rw [Log.ofRun_snoc]
      exact hd.step hx.toEnd) h

end BabylonVault
