/-
  The context of a derivation, chunk by chunk.

  * `Assembled`: the header accepted last in a run, and the context sent since, read off the
    exchanges alone; the log's derivation under way is one (`Log.pending_assembled`).
  * `beforeFinalize`: DERIVE_CONTEXT_HASH up to `_finalize`, which asks nothing
    (`derive_run`).
  * `Reach.context_reassembled`: what `_finalize` gets is what was sent, and what ends or
    leaves a stream.
-/
import BabylonVault.History
import BabylonVault.Play

namespace BabylonVault
open Bytes Prog

variable {E : Env} {es : List Exchange} {d d' : Device} {p1 p2 : UInt8} {data buf : Bytes}
  {c : InitialChunk}

/-! ## What was sent -/

/-- The header of an accepted P1=0x00. -/
def Exchange.header (x : Exchange) : Option InitialChunk :=
  match x.request, x.result with
  | .derive p1 _ data, some (.ok _) => if p1 = 0 then (parseInitialChunk data).toOption else none
  | _, _ => none

/-- The bytes of an accepted continuation chunk. -/
def Exchange.chunk (x : Exchange) : Bytes :=
  match x.request, x.result with
  | .derive p1 _ data, some (.ok _) => if p1 = 0 then [] else data
  | _, _ => []

/-- `c` is the header accepted last, and `buf` the context accepted from it on. -/
def Assembled (es : List Exchange) (c : InitialChunk) (buf : Bytes) : Prop :=
  ∃ before x after, es = before ++ x :: after ∧ x.header = some c ∧
    (∀ y ∈ after, y.header = none) ∧ buf = c.firstChunk ++ after.flatMap Exchange.chunk

theorem Assembled.snoc {x : Exchange} (h : Assembled es c buf) (hx : x.header = none) :
    Assembled (es ++ [x]) c (buf ++ x.chunk) := by
  obtain ⟨before, y, after, rfl, hy, hafter, rfl⟩ := h
  refine ⟨before, y, after ++ [x], by simp, hy, ?_, ?_⟩
  · intro z hz
    rcases List.mem_append.1 hz with hz | hz
    · exact hafter z hz
    · rw [List.mem_singleton.1 hz]
      exact hx
  · rw [List.flatMap_append, List.flatMap_singleton, List.append_assoc]

/-- The declared length is that of a context, and the first chunk is no longer. -/
theorem parseInitialChunk_bounds (h : parseInitialChunk data = .ok c) :
    1 ≤ c.contextTotalLen ∧ c.contextTotalLen ≤ contextMaxLen ∧
      c.firstChunk.length ≤ c.contextTotalLen := by
  unfold parseInitialChunk at h
  rcases data with _ | ⟨nameLen, data⟩
  · cases h
  dsimp only at h
  split_ifs at h with h1 h2
  split at h
  · cases h
  split_ifs at h with h3
  split at h
  · split_ifs at h with h4 h5
    cases h
    exact ⟨Nat.pos_of_ne_zero fun h0 => h4 (.inl h0), Nat.le_of_not_lt fun hlt => h4 (.inr hlt),
      Nat.le_of_not_lt h5⟩
  · cases h

theorem Exchange.header_bounds {x : Exchange} (h : x.header = some c) :
    1 ≤ c.contextTotalLen ∧ c.contextTotalLen ≤ contextMaxLen := by
  unfold Exchange.header at h
  split at h
  · rename_i data _ _ _
    obtain ⟨-, hc⟩ := Option.ite_none_right_eq_some.1 h
    rcases hp : parseInitialChunk data with sw | c'
    · rw [hp] at hc
      cases hc
    · rw [hp] at hc
      cases hc
      obtain ⟨h1, h2, -⟩ := parseInitialChunk_bounds hp
      exact ⟨h1, h2⟩
  · cases h

/-- A derivation under way is the header accepted last with the chunks accepted since. -/
structure Pending (es : List Exchange) (c : InitialChunk) (buf : Bytes) : Prop where
  assembled : Assembled es c buf
  short : buf.length < c.contextTotalLen
  total : 1 ≤ c.contextTotalLen ∧ c.contextTotalLen ≤ contextMaxLen

theorem Log.derive_pending {log : Log} {c' : InitialChunk} {buf' : Bytes}
    (h : (log.derive c' buf').pending = some (c, buf)) :
    buf'.length < c'.contextTotalLen ∧ c' = c ∧ buf' = buf := by
  unfold Log.derive at h
  split_ifs at h with hlt
  · cases h
    exact ⟨hlt, rfl, rfl⟩

theorem Log.pending_assembled : ∀ {es : List Exchange} {c : InitialChunk} {buf : Bytes},
    (Log.ofRun es).pending = some (c, buf) → Pending es c buf := by
  intro es
  induction es using List.reverseRecOn with
  | nil =>
    intro c buf h
    cases h
  | append_singleton es x ih =>
    intro c buf h
    rw [Log.ofRun_snoc] at h
    -- An exchange that is no accepted derivation changes neither side.
    have hother : x.header = none → x.chunk = [] →
        ((Log.ofRun es).step x).pending = (Log.ofRun es).pending → Pending (es ++ [x]) c buf := by
      intro hh hc hp
      rw [hp] at h
      have hpend := ih h
      have hsnoc := hpend.assembled.snoc hh
      rw [hc, List.append_nil] at hsnoc
      exact ⟨hsnoc, hpend.short, hpend.total⟩
    obtain ⟨req, tr, (e | out) | q⟩ := x
    · exact hother (by cases req <;> rfl) (by cases req <;> rfl) rfl
    · rcases req with ⟨p1, p2, data⟩ | ⟨p1, p2, data⟩ | ⟨p1, p2, data⟩ | st
      · by_cases hp1 : p1 = 0
        · rcases hparse : parseInitialChunk data with sw | c'
          · refine hother ?_ ?_ ?_
            · simp only [Exchange.header, Exchange.result, if_pos hp1, hparse]
              rfl
            · simp only [Exchange.chunk, Exchange.result, if_pos hp1]
            · simp only [Log.step_ok, Log.succeed, if_pos hp1, hparse]
          · simp only [Log.step_ok, Log.succeed, if_pos hp1, hparse] at h
            obtain ⟨hlt, rfl, rfl⟩ := Log.derive_pending h
            have hh : Exchange.header ⟨.derive p1 p2 data, tr, .answered (.ok out)⟩ = some c' := by
              simp only [Exchange.header, Exchange.result, if_pos hp1, hparse]
              rfl
            refine ⟨⟨es, _, [], rfl, hh, List.forall_mem_nil _, by simp⟩, hlt, ?_⟩
            exact Exchange.header_bounds hh
        · have hh : Exchange.header ⟨.derive p1 p2 data, tr, .answered (.ok out)⟩ = none := by
            simp only [Exchange.header, Exchange.result, if_neg hp1]
          have hc : Exchange.chunk ⟨.derive p1 p2 data, tr, .answered (.ok out)⟩ = data := by
            simp only [Exchange.chunk, Exchange.result, if_neg hp1]
          rcases hpend : (Log.ofRun es).pending with _ | ⟨c', buf'⟩
          · simp only [Log.step_ok, Log.succeed, if_neg hp1, hpend] at h
            cases h
          · simp only [Log.step_ok, Log.succeed, if_neg hp1, hpend] at h
            obtain ⟨hlt, rfl, rfl⟩ := Log.derive_pending h
            have hprev := ih hpend
            have hsnoc := hprev.assembled.snoc hh
            rw [hc] at hsnoc
            exact ⟨hsnoc, hlt, hprev.total⟩
      · exact hother rfl rfl (by simp only [Log.step_ok, Log.succeed]; split_ifs <;> rfl)
      · exact hother rfl rfl rfl
      · exact hother rfl rfl rfl
    · exact hother (by cases req <;> rfl) (by cases req <;> rfl) rfl

/-! ## The handler, up to `_finalize` -/

/-- DERIVE_CONTEXT_HASH before `_finalize`: how it ends, or what `_finalize` starts from. -/
def beforeFinalize (d : Device) (p1 p2 : UInt8) (data : Bytes) :
    (Except Stop Bytes × Device) ⊕ Device :=
  if p1 = 0 then
    if p2 ≠ 0 ∧ p2 ≠ 1 then .inl (.error (.reject .wrongP1P2), d)
    else match parseInitialChunk data with
      | .error sw => .inl (.error (.reject sw), startDerive d)
      | .ok c =>
        if c.firstChunk.length < c.contextTotalLen then
          .inl (.ok [], (begunDevice d p2 c).setStream true)
        else .inr (begunDevice d p2 c)
  else if p1 = 1 then
    if d.streaming.streamingInProgress = false then .inl (.error (.reject .badState), d)
    else if p2 ≠ d.streaming.p2Mode then .inl (.error (.reject .wrongP1P2), d)
    else if data.length = 0 then .inl (.error (.reject .wrongDataLength), d)
    else if d.streaming.contextReceivedLen ≥ d.streaming.contextTotalLen ∨
        d.streaming.contextTotalLen > contextMaxLen then
      .inl (.error (.reject .badState), (vaultContextInvalidate d).setStream false)
    else if data.length > d.streaming.contextTotalLen - d.streaming.contextReceivedLen then
      .inl (.error (.reject .incorrectData), (vaultContextInvalidate d).setStream false)
    else if d.streaming.contextReceivedLen + data.length < d.streaming.contextTotalLen then
      .inl (.ok [], fedDevice d data)
    else .inr (fedDevice d data)
  else .inl (.error (.reject .wrongP1P2), d)

/-- The handler asks nothing before `_finalize`. -/
theorem derive_run : handlerDeriveContextHash E p1 p2 data d =
    match beforeFinalize d p1 p2 data with
    | .inl r => .ret r
    | .inr d₁ => finalizeDerive E d₁ := by
  unfold handlerDeriveContextHash beforeFinalize
  by_cases h0 : p1 = 0
  · rw [if_pos h0, if_pos h0, handleInitialChunk]
    by_cases hp2 : p2 ≠ 0 ∧ p2 ≠ 1
    · rw [if_pos hp2, if_pos hp2]
      rfl
    rw [if_neg hp2, if_neg hp2, modify_bind_run, modify_bind_run]
    rcases parseInitialChunk data with sw | c
    · rfl
    dsimp only
    rw [modify_bind_run]
    by_cases hlt : c.firstChunk.length < c.contextTotalLen
    · rw [if_pos hlt, if_pos hlt]
      rfl
    · rw [if_neg hlt, if_neg hlt]
      rfl
  rw [if_neg h0, if_neg h0]
  by_cases h1 : p1 = 1
  · rw [if_pos h1, if_pos h1, handleContinuationChunk, get_bind_run]
    split_ifs <;> rfl
  · rw [if_neg h1, if_neg h1]
    rfl

/-! ## Reassembly -/

/-- `_finalize` derives the key and the root of a call, or opens nothing. -/
structure FinalizesCall (E : Env) (d₁ : Device) (call : DeriveCall) : Prop where
  scratch : d₁.deriveCtx = ⟨call.appName, call.path, call.context⟩
  opened : ∀ tr out d', (finalizeDerive E d₁).Path tr (.ok out, d') →
    d'.ctx.state = .hashDerived ∧ call.root E = some d'.ctx.root ∧
      d'.ctx.derivationPath = call.path ∧ d'.ctx.appName = call.appName
  failed : ∀ tr e d', (finalizeDerive E d₁).Path tr (.error e, d') → d'.ctx = .zero

theorem finalizesCall {d₁ : Device} {call : DeriveCall} (hc : d₁.ctx = .zero)
    (hs : d₁.deriveCtx = ⟨call.appName, call.path, call.context⟩) : FinalizesCall E d₁ call := by
  have hend : ∀ {tr r d'}, (finalizeDerive E d₁).Path tr (r, d') → FinalizeEnd E d₁ r d' :=
    fun hp => (Course.wp_path finalizeDerive_quiet.wp_marks hp).2
  refine ⟨hs, fun tr out d' hp => ?_, fun tr e d' hp => ?_⟩
  · cases hend hp with
    | @opened pk _ hpk _ =>
      rw [hs] at hpk
      have hroot : scratchRoot E (d₁.setStream false) pk =
          hkdfDeriveRoot E call.appName pk.toList call.context := by
        show hkdfDeriveRoot E d₁.deriveCtx.appNameBuf pk.toList d₁.deriveCtx.contextBuf = _
        rw [hs]
      refine ⟨rfl, ?_, congrArg DeriveCtx.path hs, congrArg DeriveCtx.appNameBuf hs⟩
      show (E.pubkeyAt call.path).map _ = some (scratchRoot E (d₁.setStream false) pk)
      rw [hroot, show E.pubkeyAt call.path = some pk from hpk]
      rfl
  · cases hend hp with
    | kept => exact hc
    | wiped => rfl

/-- The context of a derivation is what the host sent, however it was split, and a stream
    ends or goes on as a whole. -/
structure ContextReassembly (E : Env) (es : List Exchange) (d : Device) : Prop where
  run : ∀ p1 p2 data, handlerDeriveContextHash E p1 p2 data d =
    match beforeFinalize d p1 p2 data with
    | .inl r => .ret r
    | .inr d₁ => finalizeDerive E d₁
  finalizes : ∀ p1 p2 data d₁, beforeFinalize d p1 p2 data = .inr d₁ → ∃ c context,
    (p1 = 0 ∧ parseInitialChunk data = .ok c ∧ context = c.firstChunk ∨
      p1 = 1 ∧ ∃ buf, Assembled es c buf ∧ context = buf ++ data) ∧
    context.length = c.contextTotalLen ∧ 1 ≤ c.contextTotalLen ∧ c.contextTotalLen ≤ 1024 ∧
    FinalizesCall E d₁ ⟨c.appName, c.path, context⟩
  split : ∀ es' d', Reach E es' d' → d.ctx.state = .hashDerived → d'.ctx.state = .hashDerived →
    (Log.ofRun es).call = (Log.ofRun es').call → d.ctx.root = d'.ctx.root
  streaming : d.streaming.streamingInProgress = true → d.ctx.state = .idle ∧
    d.streaming.contextReceivedLen < d.streaming.contextTotalLen ∧
    d.streaming.contextTotalLen ≤ 1024 ∧
    d.deriveCtx.contextBuf.length = d.streaming.contextReceivedLen
  writes : ∀ p1 p2 data d₁, beforeFinalize d p1 p2 data = .inl (.ok [], d₁) ∨
    beforeFinalize d p1 p2 data = .inr d₁ → d₁.deriveCtx.contextBuf.length ≤ 1024
  tooLong : d.streaming.streamingInProgress = true → ∀ data,
    data.length > d.streaming.contextTotalLen - d.streaming.contextReceivedLen →
    handlerDeriveContextHash E 1 d.streaming.p2Mode data d =
      .ret (.error (.reject .incorrectData), (vaultContextInvalidate d).setStream false)
  signs : d.streaming.streamingInProgress = true → ∀ st,
    handle E (.signPsbt st) d = .ret (.error (.reject .badState), { d with streaming := .zero })
  wrongP2 : d.streaming.streamingInProgress = true → ∀ p1 p2 data,
    p1 = 0 ∧ p2 ≠ 0 ∧ p2 ≠ 1 ∨ p1 = 1 ∧ p2 ≠ d.streaming.p2Mode →
    handlerDeriveContextHash E p1 p2 data d = .ret (.error (.reject .wrongP1P2), d)
  empty : d.streaming.streamingInProgress = true →
    handlerDeriveContextHash E 1 d.streaming.p2Mode [] d =
      .ret (.error (.reject .wrongDataLength), d)
  getState : ∀ p1 p2 data tr e d', Step E d ⟨.getState p1 p2 data, tr, e⟩ d' → d' = d
  approve : d.streaming.streamingInProgress = true → ∀ p1 p2 data tr e d',
    Step E d ⟨.approve p1 p2 data, tr, e⟩ d' → d' = d

/-- A stream that runs is the log's. -/
theorem SessionOk.streaming (h : SessionOk E (.ofRun es) d)
    (hs : d.streaming.streamingInProgress = true) : ∃ c buf, Pending es c buf ∧ d.ctx = .zero ∧
      d.deriveCtx = ⟨c.appName, c.path, buf⟩ ∧ d.streaming.contextTotalLen = c.contextTotalLen ∧
      d.streaming.contextReceivedLen = buf.length := by
  obtain ⟨hst, c, buf, hpend, hctx, htot, hrec⟩ := h.stream hs
  exact ⟨c, buf, Log.pending_assembled hpend, (h.idle hst).1, hctx, htot, hrec⟩

/-- What `_finalize` starts from, by the chunk that completes the context. -/
theorem beforeFinalize_inr {d₁ : Device} (h : beforeFinalize d p1 p2 data = .inr d₁) :
    (∃ c, p1 = 0 ∧ parseInitialChunk data = .ok c ∧ ¬c.firstChunk.length < c.contextTotalLen ∧
      d₁ = begunDevice d p2 c) ∨
    p1 = 1 ∧ d.streaming.streamingInProgress = true ∧
      data.length = d.streaming.contextTotalLen - d.streaming.contextReceivedLen ∧
      d₁ = fedDevice d data := by
  unfold beforeFinalize at h
  by_cases h0 : p1 = 0
  · rw [if_pos h0] at h
    split_ifs at h
    rcases hp : parseInitialChunk data with sw | c
    · rw [hp] at h
      cases h
    · rw [hp] at h
      dsimp only at h
      split_ifs at h with hlt
      cases h
      exact .inl ⟨c, h0, rfl, hlt, rfl⟩
  · rw [if_neg h0] at h
    split_ifs at h with h1 h2 h3 h4 h5 h6 h7
    cases h
    exact .inr ⟨h1, by simpa using h2, by omega, rfl⟩

/-- What a write leaves in the buffer is a context of at most the declared length. -/
theorem beforeFinalize_written (h : SessionOk E (.ofRun es) d) {d₁ : Device}
    (hw : beforeFinalize d p1 p2 data = .inl (.ok [], d₁) ∨
      beforeFinalize d p1 p2 data = .inr d₁) : d₁.deriveCtx.contextBuf.length ≤ 1024 := by
  unfold beforeFinalize at hw
  by_cases h0 : p1 = 0
  · rw [if_pos h0] at hw
    split_ifs at hw
    · simp at hw
    rcases hp : parseInitialChunk data with sw | c
    · rw [hp] at hw
      simp at hw
    have hb := parseInitialChunk_bounds hp
    rw [hp] at hw
    dsimp only at hw
    have hlen : d₁.deriveCtx.contextBuf = c.firstChunk := by
      split_ifs at hw with hlt
      · obtain ⟨rfl⟩ : (begunDevice d p2 c).setStream true = d₁ := by simpa using hw
        rfl
      · obtain ⟨rfl⟩ : begunDevice d p2 c = d₁ := by simpa using hw
        rfl
    rw [hlen]
    exact hb.2.2.trans hb.2.1
  · rw [if_neg h0] at hw
    split_ifs at hw with h1 h2 h3 h4 h5 h6 h7 <;> try simp at hw
    all_goals
      obtain ⟨c, buf, hpend, -, hctx, htot, hrec⟩ := h.streaming (by simpa using h2)
      subst hw
      show (d.deriveCtx.contextBuf ++ data).length ≤ 1024
      have hle : c.contextTotalLen ≤ 1024 := hpend.total.2
      have hbuf : d.deriveCtx.contextBuf = buf := congrArg DeriveCtx.contextBuf hctx
      rw [List.length_append, hbuf]
      omega

/-- `_finalize` gets what the host sent, and nothing else comes between. -/
theorem Reach.context_reassembled (h : Reach E es d) : ContextReassembly E es d := by
  have hok := h.session
  constructor
  case run => exact fun _ _ _ => derive_run
  case finalizes =>
    intro p1 p2 data d₁ hbf
    rcases beforeFinalize_inr hbf with ⟨c, hp1, hp, hlt, rfl⟩ | ⟨hp1, hs, hlen, rfl⟩
    · obtain ⟨h1, h2, hle⟩ := parseInitialChunk_bounds hp
      exact ⟨c, c.firstChunk, .inl ⟨hp1, hp, rfl⟩, le_antisymm hle (Nat.le_of_not_lt hlt), h1, h2,
        finalizesCall (startDerive_zero hok).1 rfl⟩
    · obtain ⟨c, buf, hpend, hz, hctx, htot, hrec⟩ := hok.streaming hs
      have hshort := hpend.short
      refine ⟨c, buf ++ data, .inr ⟨hp1, buf, hpend.assembled, rfl⟩, ?_, hpend.total.1,
        hpend.total.2, finalizesCall hz ?_⟩
      · rw [List.length_append]
        omega
      · show ({ d.deriveCtx with contextBuf := d.deriveCtx.contextBuf ++ data } : DeriveCtx) = _
        rw [hctx]
  case split =>
    intro es' d' h' hst hst' hcall
    obtain ⟨c, hc, hroot, -⟩ := (hok.derived hst).opened.call
    obtain ⟨c', hc', hroot', -⟩ := (h'.session.derived hst').opened.call
    obtain rfl : c = c' := Option.some.inj ((hc.symm.trans hcall).trans hc')
    exact Option.some.inj (hroot.symm.trans hroot')
  case streaming =>
    intro hs
    obtain ⟨c, buf, hpend, hz, hctx, htot, hrec⟩ := hok.streaming hs
    have hle : c.contextTotalLen ≤ 1024 := hpend.total.2
    have hshort := hpend.short
    refine ⟨by rw [hz]; rfl, by omega, by omega, ?_⟩
    rw [hctx, hrec]
  case writes => exact fun _ _ _ _ hw => beforeFinalize_written hok hw
  case tooLong =>
    intro hs data hlong
    obtain ⟨c, buf, hpend, hz, hctx, htot, hrec⟩ := hok.streaming hs
    have hle : c.contextTotalLen ≤ 1024 := hpend.total.2
    have hshort := hpend.short
    have hinside : ¬(d.streaming.contextReceivedLen ≥ d.streaming.contextTotalLen ∨
        d.streaming.contextTotalLen > contextMaxLen) := by
      unfold contextMaxLen
      omega
    rw [derive_run, beforeFinalize, if_neg (by decide), if_pos rfl, if_neg (by rw [hs]; decide),
      if_neg (not_not.2 rfl), if_neg (by omega), if_neg hinside, if_pos hlong]
  case signs =>
    intro hs st
    have hval : validateAndDisplayTransaction E st d =
        .ret (.error (.reject .badState), { d with streaming := .zero }) := by
      rw [validateAndDisplayTransaction, get_bind_run, if_pos hs]
      rfl
    show (signPsbt E st >>= fun _ => (pure [] : M Bytes)) d = _
    rw [signPsbt, run_bind, run_bind, hval]
    rfl
  case wrongP2 =>
    rintro hs p1 p2 data (⟨rfl, hp2⟩ | ⟨rfl, hp2⟩)
    · rw [derive_run, beforeFinalize, if_pos rfl, if_pos hp2]
    · rw [derive_run, beforeFinalize, if_neg (by decide), if_pos rfl, if_neg (by rw [hs]; decide),
        if_pos hp2]
  case empty =>
    intro hs
    rw [derive_run, beforeFinalize, if_neg (by decide), if_pos rfl, if_neg (by rw [hs]; decide),
      if_neg (not_not.2 rfl), if_pos List.length_nil]
  case getState =>
    intro p1 p2 data tr e d' hstep
    cases hstep.toEnd with
    | getState => rfl
    | sign hreq => cases hreq
  case approve =>
    intro hs p1 p2 data tr e d' hstep
    cases hstep.toEnd with
    | sign hreq => cases hreq
    | approve hend =>
      have hst : d.ctx.state = .idle := (hok.stream hs).1
      have hload : d.approve.scalarsLoaded = true → False := fun hl => by
        have := hok.loading hl
        rw [hst] at this
        cases this
      cases hend with
      | refused => rfl
      | wiped hr =>
        rw [hok.not_streaming_of_accepted hr] at hs
        cases hs
      | scalars _ hst' => exact absurd (hst.symm.trans hst') (by decide)
      | groups _ hl => exact (hload hl).elim
      | keys _ hl => exact (hload hl).elim
      | loaded _ hl => exact (hload hl).elim

namespace Signet

/-- The first half of a context of 64 bytes. -/
def firstHalf : Bytes :=
  let name := ascii "babylon-vault"
  let context : Bytes := (List.range 32).map fun i => UInt8.ofNat (i + 1)
  [UInt8.ofNat name.length] ++ name ++ [5] ++
    (path.toList.flatMap fun x => (leBytes 4 x.toNat).reverse) ++ [0, 64] ++ context

end Signet

/-- After the first half: the stream runs, and a second half of the same length is what
    completes the context. -/
theorem context_reassembled_signet : ∃ es d,
    ContextReassembly Signet.env es d ∧ d.streaming.streamingInProgress = true ∧
    d.streaming.contextReceivedLen = 32 ∧ d.streaming.contextTotalLen = 64 ∧
    ∀ data, data.length = 32 →
      beforeFinalize d 1 d.streaming.p2Mode data = .inr (fedDevice d data) := by
  obtain ⟨es, d, hplay⟩ : ∃ es d, (es, d) =
      play Signet.env [(.derive 0 1 Signet.firstHalf, Signet.quiet)] Device.boot := ⟨_, _, rfl⟩
  have hreach : Reach Signet.env es d := by
    have h := Run.play (E := Signet.env) [(.derive 0 1 Signet.firstHalf, Signet.quiet)] Device.boot
    rwa [← hplay] at h
  obtain ⟨hs, hrec, htot⟩ : d.streaming.streamingInProgress = true ∧
      d.streaming.contextReceivedLen = 32 ∧ d.streaming.contextTotalLen = 64 := by
    rw [show d = _ from congrArg Prod.snd hplay]
    decide +kernel
  refine ⟨es, d, hreach.context_reassembled, hs, hrec, htot, fun data hdata => ?_⟩
  rw [beforeFinalize, if_neg (by decide), if_pos rfl, if_neg (by rw [hs]; decide),
    if_neg (not_not.2 rfl), if_neg (by omega), if_neg (by rw [hrec, htot]; decide),
    if_neg (by omega), if_neg (by omega)]

end BabylonVault
