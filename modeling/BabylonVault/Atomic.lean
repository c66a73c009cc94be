/-
  Requests change the session as a whole or not at all.

  * `View`: the session, with the progress of a load while one is possible.
  * `ScalarsAccepted`: a load is under way, from the requests of the run alone.
  * `AllOrNothing`: what a request that fails does to the session, and which rejections
    of APPROVE_VAULT_INTENT wipe it.
-/
import BabylonVault.Session

namespace BabylonVault
open Bytes Prog

/-! ## The session -/

/-- The session, and in state HASH_DERIVED the progress of the load with its group
    count. -/
structure View where
  ctx : VaultContext
  intent : VaultIntent
  load : Option (ApproveIntentState × ℕ)

/-- The session of a device. -/
def Device.view (d : Device) : View :=
  ⟨d.ctx, d.intent, if d.ctx.state = .hashDerived then some (d.approve, d.tr.vaultGroupIndex)
    else none⟩

/-- A session that is all zero. -/
def View.zero : View := ⟨.zero, .zero, none⟩

variable {E : Env} {d d' d₁ : Device}

theorem view_eq (hc : d'.ctx = d.ctx) (hi : d'.intent = d.intent)
    (hl : d.ctx.state = .hashDerived →
      d'.approve = d.approve ∧ d'.tr.vaultGroupIndex = d.tr.vaultGroupIndex) : d'.view = d.view := by
  simp only [Device.view, hc, hi]
  split_ifs with h
  · rw [(hl h).1, (hl h).2]
  · rfl

/-- Outside HASH_DERIVED context and intent are all of it. -/
theorem view_eq_of_idle (hc : d'.ctx = d.ctx) (hi : d'.intent = d.intent)
    (hst : d.ctx.state = .idle) : d'.view = d.view :=
  view_eq hc hi fun h => absurd (hst.symm.trans h) (by decide)

theorem SameSession.view (h : SameSession d d') : d'.view = d.view :=
  view_eq h.ctx h.intent fun hst => ⟨h.approve, h.group (by rw [hst]; decide)⟩

theorem SameSession.view_count (h : SameSession d d') (hst : d.ctx.state = .intentLoaded) :
    (countPrepegin d').view = (countPrepegin d).view := by
  refine view_eq ?_ h.intent fun h' => absurd (hst.symm.trans h') (by decide)
  simp only [countPrepegin, h.ctx]

/-! ## Requests that fail -/

theorem startDerive_ctx (h : SessionOk E log d) :
    (startDerive d).ctx = .zero ∧ (startDerive d).intent = .zero := by
  unfold startDerive
  split_ifs with hst
  · exact ⟨rfl, rfl⟩
  · obtain ⟨hc, hi, -⟩ := h.idle (not_not.1 hst)
    exact ⟨hc, hi⟩

/-- A derivation that fails at its end keeps the idle session. -/
theorem FinalizeEnd.view {r : Except Stop Bytes} {e : Stop} (h : FinalizeEnd E d r d')
    (hr : r = .error e) (hc : d.ctx = .zero) (hi : d.intent = .zero) : d'.view = .zero := by
  cases h with
  | kept => exact view_eq_of_idle (d := Device.boot) hc hi rfl
  | wiped => rfl
  | opened => cases hr

theorem DeriveEnd.view {p1 p2 : UInt8} {data : Bytes} {r : Except Stop Bytes} {e : Stop}
    (h : DeriveEnd E d p1 p2 data r d') (hr : r = .error e) (hs : SessionOk E log d) :
    d'.view = d.view ∨ d'.view = .zero := by
  obtain ⟨hc, hi⟩ := startDerive_ctx hs
  have hidle : d.streaming.streamingInProgress = true → d.ctx = .zero ∧ d.intent = .zero :=
    fun hstream => by
      obtain ⟨hc, hi, -⟩ := hs.idle (hs.stream hstream).1
      exact ⟨hc, hi⟩
  cases h with
  | refused => exact .inl rfl
  | malformed => exact .inr (view_eq_of_idle (d := Device.boot) hc hi rfl)
  | begun => cases hr
  | atOnce _ _ _ hf => exact .inr (hf.view hr hc hi)
  | dropped => exact .inr rfl
  | fed => cases hr
  | last _ hstream _ hf => exact .inr (hf.view hr (hidle hstream).1 (hidle hstream).2)

theorem ApproveEnd.view {p1 p2 : UInt8} {data : Bytes} {r : Except Stop Unit} {e : Stop}
    (h : ApproveEnd E d p1 p2 data r d') (hr : r = .error e) :
    d' = d ∧ ApproveRefused d p1 p2 ∨ d'.view = .zero ∧ ¬ApproveRefused d p1 p2 := by
  cases h with
  | refused href => exact .inl ⟨rfl, href⟩
  | wiped hacc => exact .inr ⟨rfl, hacc⟩
  | scalars | groups | keys | loaded => cases hr

/-- The slot a Pre-PegIn keeps when the base app fails after it was accepted. -/
def KeepsPrepegin (E : Env) (d : Device) (x : Exchange) (d' : Device) : Prop :=
  ∃ st, x.request = .signPsbt st ∧ PrepeginAccepted E st d.session (fun _ _ => True) ∧
    .accepted ∈ marks x.asked ∧ d'.view = (countPrepegin d).view

theorem SignEnd.view {st : SignPsbtState} {mk : List Mark} {r : Option (Except Stop Unit)} {e : Stop}
    (h : SignEnd E st d mk r d') (hr : r = some (.error e)) :
    d'.view = d.view ∨ d'.view = .zero ∨ PrepeginAccepted E st d.session (fun _ _ => True) ∧
      .accepted ∈ mk ∧ d'.view = (countPrepegin d).view := by
  cases h with
  | kept _ _ hd => exact .inl hd.view
  | prepegin _ ha _ hd => exact .inr (.inr ⟨ha, by simp, hd.view_count ha.loaded⟩)
  | signed _ _ hd hend =>
    obtain ⟨rfl, -⟩ := hend e hr
    exact .inl hd.view
  | wiped => exact .inr (.inl rfl)
  | restarted => exact .inr (.inl rfl)

/-- A request that fails keeps the session or wipes it. -/
theorem StepEnd.view {x : Exchange} {e : Stop} (h : StepEnd E d x d')
    (hx : x.result = some (.error e)) (hs : SessionOk E log d) :
    d'.view = d.view ∨ d'.view = .zero ∨ KeepsPrepegin E d x d' := by
  cases h with
  | @derive _ _ _ _ r _ hend =>
    rcases hend.view (Option.some.inj hx) hs with h | h
    · exact .inl h
    · exact .inr (.inl h)
  | @approve _ _ _ _ r _ hend =>
    rcases r with e' | u
    · rcases hend.view rfl with ⟨rfl, -⟩ | ⟨h, -⟩
      · exact .inl rfl
      · exact .inr (.inl h)
    · cases hx
  | getState => exact .inl rfl
  | @sign _ st r _ hreq hend hres =>
    rw [hres] at hx
    rcases r with _ | e' | u
    · cases hx
    · rcases hend.view rfl with h | h | ⟨ha, hm, hv⟩
      · exact .inl h
      · exact .inr (.inl h)
      · exact .inr (.inr ⟨st, hreq, ha, hm, hv⟩)
    · cases hx

/-! ## Loads under way -/

namespace Exchange
variable (x : Exchange)

/-- A P1=0x00 that was accepted. -/
def AcceptsScalars : Prop := (∃ p2 data, x.request = .approve 0 p2 data) ∧ x.Succeeds

/-- A chunk of a derivation that was accepted. -/
def Derives : Prop := (∃ p1 p2 data, x.request = .derive p1 p2 data) ∧ x.Succeeds

end Exchange

/-- A P1=0x00 was accepted, and no derivation has gone on since. -/
def ScalarsAccepted (ls : List Exchange) : Prop :=
  ∃ pre x post, ls = pre ++ x :: post ∧ x.AcceptsScalars ∧ ∀ y ∈ post, ¬y.Derives

variable {ls : List Exchange} {x : Exchange}

theorem scalarsAccepted_snoc :
    ScalarsAccepted (ls ++ [x]) ↔ x.AcceptsScalars ∨ ScalarsAccepted ls ∧ ¬x.Derives := by
  constructor
  · rintro ⟨pre, y, post, he, hy, hpost⟩
    rcases List.eq_nil_or_concat post with rfl | ⟨post, z, rfl⟩
    · obtain ⟨-, hxy⟩ := List.append_inj' he rfl
      obtain rfl : x = y := by simpa using hxy
      exact .inl hy
    · rw [List.concat_eq_append, ← List.cons_append, ← List.append_assoc] at he
      obtain ⟨rfl, hxz⟩ := List.append_inj' he rfl
      obtain rfl : x = z := by simpa using hxz
      exact .inr ⟨⟨pre, y, post, rfl, hy, fun w hw => hpost w (by simp [hw])⟩, hpost x (by simp)⟩
  · rintro (hx | ⟨⟨pre, y, post, rfl, hy, hpost⟩, hx⟩)
    · exact ⟨ls, x, [], rfl, hx, by simp⟩
    · refine ⟨pre, y, post ++ [x], by simp, hy, fun w hw => ?_⟩
      rcases List.mem_append.1 hw with hw | hw
      · exact hpost w hw
      · rw [List.mem_singleton.1 hw]
        exact hx

/-- The flag of a load, in state HASH_DERIVED. -/
def LoadFlag (ls : List Exchange) (d : Device) : Prop :=
  d.ctx.state = .hashDerived → (d.approve.scalarsLoaded = true ↔ ScalarsAccepted ls)

/-- An exchange that is neither a derivation nor a P1=0x00 keeps the flag. -/
theorem LoadFlag.keep (h : LoadFlag ls d) (hx : ¬x.AcceptsScalars) (hx' : ¬x.Derives)
    (hst : d'.ctx.state = d.ctx.state) (ha : d'.approve.scalarsLoaded = d.approve.scalarsLoaded) :
    LoadFlag (ls ++ [x]) d' := fun hd => by
  rw [scalarsAccepted_snoc, ha, h (hst.symm.trans hd)]
  simp [hx, hx']

theorem LoadFlag.idle (hst : d'.ctx = .zero) : LoadFlag ls d' := fun h => by
  rw [hst] at h
  cases h

/-- A derivation that is completed starts without a load. -/
theorem FinalizeEnd.flag {r : Except Stop Bytes} {p1 p2 : UInt8} {data : Bytes}
    {tr : List devIface.Event} (h : FinalizeEnd E d r d') (hc : d.ctx = .zero) (ha : d.approve = .zero) :
    LoadFlag (ls ++ [⟨.derive p1 p2 data, tr, .answered r⟩]) d' := by
  cases h with
  | kept => exact .idle hc
  | wiped => exact .idle rfl
  | @opened pk out =>
    intro _
    rw [scalarsAccepted_snoc]
    have hne : ¬(⟨.derive p1 p2 data, tr, .answered (.ok out)⟩ : Exchange).AcceptsScalars := by
      rintro ⟨⟨_, _, h⟩, -⟩
      cases h
    have hder : (⟨.derive p1 p2 data, tr, .answered (.ok out)⟩ : Exchange).Derives :=
      ⟨⟨_, _, _, rfl⟩, _, rfl⟩
    have hflag : (derivedDevice E (d.setStream false) pk).approve.scalarsLoaded = false := by
      show d.approve.scalarsLoaded = false
      rw [ha]
      rfl
    simp [hflag, hne, hder]

theorem SigKind.count_state (kind : SigKind) : (kind.count d).ctx.state = d.ctx.state := by
  cases kind <;> rfl

theorem SigKind.count_approve (kind : SigKind) : (kind.count d).approve = d.approve := by
  cases kind <;> rfl

theorem LoadFlag.step (h : LoadFlag ls d) (hs : SessionOk E log d) (hx : StepEnd E d x d') :
    LoadFlag (ls ++ [x]) d' := by
  have hfail : ∀ {req tr e}, ¬(⟨req, tr, .answered (.error e)⟩ : Exchange).Succeeds := by
    rintro _ _ _ ⟨_, h⟩
    cases h
  have hother : ∀ {p1 : UInt8} {p2 data tr r}, p1 ≠ 0 →
      ¬(⟨.approve p1 p2 data, tr, r⟩ : Exchange).AcceptsScalars := by
    rintro p1 _ _ _ _ hp ⟨⟨_, _, h⟩, -⟩
    cases h
    exact hp rfl
  have hnot : ∀ {p1 p2 data tr r}, ¬(⟨.approve p1 p2 data, tr, r⟩ : Exchange).Derives := by
    rintro _ _ _ _ _ ⟨⟨_, _, _, h⟩, -⟩
    cases h
  cases hx with
  | @derive p1 p2 data tr r d' hend =>
    have hc := (startDerive_ctx hs).1
    have hidle := fun hstream => hs.idle (hs.stream hstream).1
    cases hend with
    | refused => exact h.keep (fun hx => hfail hx.2) (fun hx => hfail hx.2) rfl rfl
    | malformed => exact .idle hc
    | begun => exact .idle hc
    | atOnce _ _ _ hf => exact hf.flag hc rfl
    | dropped => exact .idle rfl
    | fed _ hstream => exact .idle (hidle hstream).1
    | last _ hstream _ hf => exact hf.flag (hidle hstream).1 (hidle hstream).2.2
  | @approve p1 p2 data tr r d' hend =>
    cases hend with
    | refused => exact h.keep (fun hx => hfail hx.2) (fun hx => hfail hx.2) rfl rfl
    | wiped => exact .idle rfl
    | scalars hp =>
      subst hp
      exact fun _ => iff_of_true rfl (scalarsAccepted_snoc.2 (.inl ⟨⟨_, _, rfl⟩, _, rfl⟩))
    | groups hp => exact h.keep (hother (by rw [hp]; decide)) hnot rfl rfl
    | keys hp => exact h.keep (hother (by rw [hp]; decide)) hnot rfl rfl
    | loaded => exact fun hst => absurd (show VaultState.intentLoaded = .hashDerived from hst) (by decide)
  | getState =>
    refine h.keep ?_ ?_ rfl rfl <;> rintro ⟨⟨_, _, h⟩, -⟩
    · cases h
    · obtain ⟨_, h⟩ := h
      cases h
  | sign hreq hend =>
    generalize marks x.asked = mk at hend
    have hn : ¬x.AcceptsScalars := by
      rintro ⟨⟨_, _, h⟩, -⟩
      cases hreq.symm.trans h
    have hn' : ¬x.Derives := by
      rintro ⟨⟨_, _, _, h⟩, -⟩
      cases hreq.symm.trans h
    cases hend with
    | kept _ _ hd => exact h.keep hn hn' (by rw [hd.ctx]) (by rw [hd.approve])
    | prepegin _ _ _ hd =>
      refine h.keep hn hn' ?_ ?_
      · have hst := congrArg VaultContext.state hd.ctx
        exact hst
      · exact congrArg ApproveIntentState.scalarsLoaded hd.approve
    | @signed kind _ _ d₁ _ _ hd =>
      refine h.keep hn hn' ?_ ?_
      · rw [kind.count_state, hd.ctx]
      · rw [kind.count_approve, hd.approve]
    | wiped => exact .idle rfl
    | restarted => exact .idle rfl

/-- In state HASH_DERIVED the flag says that a load is under way. -/
theorem Reach.flag (h : Reach E ls d) : LoadFlag ls d :=
  Run.hist (P := LoadFlag) (.idle rfl)
    (fun _ _ _ _ hr hp hx => hp.step (Reach.session hr) hx.toEnd) h

/-! ## All or nothing -/

/-- What a request that fails does to the session; `ls` are the requests before it. -/
structure AllOrNothing (E : Env) (ls : List Exchange) (d : Device) (x : Exchange) (d' : Device) :
    Prop where
  /-- The session is kept, wiped, or keeps the slot of an accepted Pre-PegIn. -/
  whole : ∀ e, x.result = some (.error e) →
    d'.view = d.view ∨ d'.view = .zero ∨ KeepsPrepegin E d x d'
  /-- While a load is under way a rejected P1=0x01 or P1=0x02 wipes. -/
  wipes : d.ctx.state = .hashDerived → ScalarsAccepted ls → ∀ p1 data e, p1 = 1 ∨ p1 = 2 →
    x.request = .approve p1 0 data → x.result = some (.error e) → d'.view = .zero
  /-- Any other rejection of APPROVE_VAULT_INTENT before its payload keeps the session. -/
  keeps : ∀ p1 p2 data, x.request = .approve p1 p2 data →
    p2 ≠ 0 ∨ (p1 ≠ 0 ∧ p1 ≠ 1 ∧ p1 ≠ 2) ∨ (p1 = 0 ∧ d.ctx.state ≠ .hashDerived) ∨
      ((p1 = 1 ∨ p1 = 2) ∧ ¬(d.ctx.state = .hashDerived ∧ ScalarsAccepted ls)) →
    d' = d ∧ ∃ e, x.result = some (.error e)

/-- Without an accepted P1=0x00 no load is under way. -/
theorem SessionOk.not_loading (h : SessionOk E log d) (hf : LoadFlag ls d)
    (hn : ¬(d.ctx.state = .hashDerived ∧ ScalarsAccepted ls)) : d.approve.scalarsLoaded = false := by
  by_contra hl
  have hl' : d.approve.scalarsLoaded = true := by simpa using hl
  have hst := h.loading hl'
  exact hn ⟨hst, (hf hst).1 hl'⟩

/-- A rejection before the payload is looked at changes nothing. -/
theorem approve_refused_run {p1 p2 : UInt8} {data : Bytes} (h : ApproveRefused d p1 p2) :
    ∃ sw, handlerApproveVaultIntent E p1 p2 data d = .ret (.error (.reject sw), d) := by
  unfold handlerApproveVaultIntent
  by_cases h2 : p2 = 0
  · rw [if_neg (not_not.2 h2)]
    rcases h with h | ⟨rfl, hst⟩ | ⟨rfl | rfl, hl⟩ | ⟨h0, h1, h2'⟩
    · exact absurd h2 h
    · refine ⟨.badState, ?_⟩
      rw [if_pos rfl, handleScalarPayload, get_bind_run, if_pos hst]
      rfl
    · refine ⟨.badState, ?_⟩
      rw [if_neg (by decide), if_pos rfl, handleGroupPayload, get_bind_run, if_pos hl]
      rfl
    · refine ⟨.badState, ?_⟩
      rw [if_neg (by decide), if_neg (by decide), if_pos rfl, handleKeyBatch, get_bind_run, if_pos hl]
      rfl
    · refine ⟨.wrongP1P2, ?_⟩
      rw [if_neg h0, if_neg h1, if_neg h2']
      rfl
  · exact ⟨.wrongP1P2, by rw [if_pos h2]; rfl⟩

theorem Step.approve_refused {p1 p2 : UInt8} {data : Bytes} (h : Step E d x d')
    (hx : x.request = .approve p1 p2 data) (hr : ApproveRefused d p1 p2) :
    d' = d ∧ ∃ e, x.result = some (.error e) := by
  obtain ⟨sw, hrun'⟩ : ∃ sw, handlerApproveVaultIntent E p1 p2 data d =
      .ret (.error (.reject sw), d) := approve_refused_run hr
  have hrun : handle E (.approve p1 p2 data) d = .ret (.error (.reject sw), d) := by
    rw [handle, run_bind, hrun']
    rfl
  cases h with
  | done hp =>
    obtain rfl : _ = Request.approve p1 p2 data := hx
    rw [hrun] at hp
    cases hp
    exact ⟨rfl, _, rfl⟩
  | cut hc =>
    obtain rfl : _ = Request.approve p1 p2 data := hx
    rw [hrun] at hc
    cases hc

/-- In every reachable state a request is all or nothing. -/
theorem Reach.all_or_nothing (h : Reach E ls d) (hx : Step E d x d') : AllOrNothing E ls d x d' := by
  have hs := h.session
  have hend := hx.toEnd
  refine ⟨fun e he => hend.view he hs, ?_, ?_⟩
  · intro hst hacc p1 data e hp hreq hres
    have hl : d.approve.scalarsLoaded = true := (h.flag hst).2 hacc
    have hne : ¬ApproveRefused d p1 0 := by
      rintro (h2 | ⟨rfl, -⟩ | ⟨-, hn⟩ | ⟨-, h1, h2⟩)
      · exact h2 rfl
      · rcases hp with hp | hp <;> exact absurd hp (by decide)
      · rw [hl] at hn
        cases hn
      · exact hp.elim h1 h2
    cases hend with
    | @approve _ _ _ _ r _ ha =>
      cases hreq
      rcases r with e' | u
      · exact (ha.view rfl).elim (fun h => absurd h.2 hne) fun h => h.1
      · cases hres
    | derive | getState => cases hreq
    | sign hsign => cases hsign.symm.trans hreq
  · intro p1 p2 data hreq hcase
    refine hx.approve_refused hreq ?_
    rcases hcase with h2 | h012 | h0 | ⟨hp, hn⟩
    · exact .inl h2
    · exact .inr (.inr (.inr h012))
    · exact .inr (.inl h0)
    · exact .inr (.inr (.inl ⟨hp, hs.not_loading h.flag hn⟩))

namespace Signet

/-- After the scalars of a load. -/
def started : List Exchange × Device := play env ((load intent).take 2) Device.boot

/-- Its keys before its groups. -/
def early : Exchange × Device := answer env (.approve 2 0 (intentKeys intent)) quiet started.2

end Signet

theorem all_or_nothing_signet :
    (Signet.started.2.ctx.state = .hashDerived ∧ Signet.early.2.ctx.state = .idle) ∧
      AllOrNothing Signet.env Signet.started.1 Signet.started.2 Signet.early.1 Signet.early.2 :=
  ⟨by decide +kernel, Reach.all_or_nothing (Run.play _ _) (Step.answer _ _ _)⟩

end BabylonVault
