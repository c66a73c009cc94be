/-
  Nothing is signed without consent.

  * `Approved`: the request that loads an intent asks for its review and for nothing else, and
    the user approves.
  * `Reviewed`: a run has come to its session by such a request and has held the intent since;
    every run that holds one has (`Reach.reviewed`).
  * `Reach.consent`: what is signed has been confirmed on the screen of its flow or is bound
    to an intent that was reviewed.
-/
import BabylonVault.Chain
import BabylonVault.Shown

namespace BabylonVault
open Bytes Prog

section
variable (E : Env)

/-- The request `x`, put to `d₀`, asks for the review of the session `s` and shows nothing
    else; it is approved, and that session is loaded. -/
structure Approved (d₀ : Device) (x : Exchange) (d₁ : Device) (s : Session) : Prop where
  fresh : d₀.ctx.state ≠ .intentLoaded
  run : ∃ p2 data tr, (handle E (.approve 2 p2 data) d₀).Path tr (.ok [], d₁) ∧
    x = ⟨.approve 2 p2 data, tr, .answered (.ok [])⟩ ∧ screens tr = [(.vaultIntent s, true)]
  loaded : d₁.session = { s with ctx := { s.ctx with state := .intentLoaded } }

/-- The run `ls` loaded the intent that `d` holds by an approved request, and has not left
    the session since. -/
def Reviewed (ls : List Exchange) (d : Device) : Prop :=
  ∃ pre d₀ x d₁ s post, Reach E pre d₀ ∧ Approved E d₀ x d₁ s ∧ Run (LiveStep E) d₁ post d ∧
    ls = pre ++ x :: post ∧ d.intent = s.intent ∧ d.ctx.htlcHashlock = s.ctx.htlcHashlock

/-- What stands behind the signatures of a request in which the flow `F` has accepted: the
    flow's own screen, or if it has none the review of the intent. -/
structure Consent (st : SignPsbtState) (p : Psbt) (value : ℕ → ℕ) (ls : List Exchange) (d : Device)
    (tr : List devIface.Event) (F : Flow) : Prop where
  ran : F.Ran E st d tr
  screen : F.Screened → TrueScreen E st p value F tr
  review : ¬F.Screened → d.ctx.state = .intentLoaded ∧ Reviewed E ls d

end

variable {E : Env} {st : SignPsbtState} {p : Psbt} {value : ℕ → ℕ} {ls : List Exchange}
  {d d' d'' : Device} {tr : List devIface.Event} {x : Exchange} {F : Flow} {sw : Sw}
  {H : ∀ q, devIface.Ans q → Prop} {data : Bytes} {p1 p2 : UInt8} {s : Session}

/-! ## The screen of the review -/

theorem unseen_wipeM {α : Type} : Asks UnseenDev (wipeM sw : M α) :=
  asks_bind (asks_ret fun _ => rfl) fun _ => asks_stop

theorem unseen_requireM {c : Prop} [Decidable c] : Asks UnseenDev (requireM c sw) := by
  unfold requireM
  split_ifs
  · exact asks_pure
  · exact unseen_wipeM

theorem unseen_callM : Asks UnseenDev (callM sw) := by
  refine asks_bind (asks_ask fun _ => nofun) ?_
  rintro (_ | _)
  · exact asks_pure
  · exact unseen_wipeM

theorem unseen_absorbIntentApdu : Asks UnseenDev (absorbIntentApdu data) := by
  unfold absorbIntentApdu
  split_ifs
  · exact asks_pure
  · exact asks_bind unseen_callM fun _ => asks_ret fun _ => rfl

theorem cut_loopEnd {α : Type} {put : α → Device} {o : Option α} {tr : List devIface.Event}
    {q : DevAsk} : ¬ (loopEnd put d o).Cut tr q d' := by
  rcases o with _ | a
  · exact nofun
  · exact nofun

theorem unseen_keyLoop {fuel : ℕ} : Asks UnseenDev (keyLoop E fuel data) := by
  intro d tr q d' hc
  rw [keyLoop_run] at hc
  exact (cut_loopEnd hc).elim

theorem unseen_transitionM (src dst : VaultState) : Asks UnseenDev (transitionM src dst) := by
  refine asks_bind asks_get fun d => ?_
  rcases vaultContextTransition src dst d with _ | d'
  · exact unseen_wipeM
  · exact asks_ret fun _ => rfl

/-- A handler's program that is not seen, in front of one that is. -/
theorem UnseenDev.before {α β : Type} {w : M α} {f : α → M β} {Q : β → List (Screen × Bool) → Prop}
    (h : Asks UnseenDev w) (hf : ∀ a, Shows deviceScreen Q (f a)) :
    Shows deviceScreen Q (w >>= f) := (h.unseen deviceScreen_unseen).after hf

/-- The end of a load shows one screen, and it was approved. -/
theorem finishIntent_shows : Shows deviceScreen (fun _ l => OneScreen l) (finishIntent E) := by
  refine UnseenDev.before asks_get fun _ => UnseenDev.before unseen_requireM fun _ =>
    UnseenDev.before unseen_callM fun _ => ?_
  split
  · exact fun _ _ _ _ hp => by cases hp
  · refine UnseenDev.before unseen_requireM fun _ => UnseenDev.before (asks_ret fun _ => rfl) fun _ =>
      UnseenDev.before unseen_requireM fun _ => UnseenDev.before (asks_loop fun _ _ => ?_) fun _ =>
      UnseenDev.before unseen_callM fun _ => UnseenDev.before (asks_ret fun _ => rfl) fun _ => ?_
    · exact asks_bind unseen_callM fun _ => asks_ret fun _ => rfl
    refine UnseenDev.before (asks_ret fun _ => rfl) fun _ => UnseenDev.before unseen_callM fun _ =>
      UnseenDev.before (asks_ret fun _ => rfl) fun _ => UnseenDev.before (asks_ret fun _ => rfl) fun _ =>
      UnseenDev.before asks_get fun s => UnseenDev.before unseen_clobberScratch fun _ => ?_
    intro d tr u d' hp
    cases hp with
    | ask approved hp =>
      have htail := UnseenDev.before (w := requireM (approved = true) .deny) unseen_requireM
        (fun _ => (unseen_transitionM .hashDerived .intentLoaded).unseen
          deviceScreen_unseen) hp
      cases approved with
      | false => cases hp
      | true => exact ⟨.vaultIntent s.session, by rw [List.filterMap_cons, htail]; rfl⟩

theorem requireM_via {c : Prop} [Decidable c] (h : (requireM c sw).Via H d () d') : c ∧ d = d' := by
  unfold requireM at h
  split_ifs at h with hc
  · exact ⟨hc, (via_pure.1 h).2⟩
  · rw [wipeM, via_modify_bind] at h
    exact (via_stop.1 h).elim

theorem transitionM_via {src dst : VaultState} (h : (transitionM src dst).Via H d () d') :
    d' = d.setState dst := by
  rw [transitionM, via_get_bind] at h
  split at h
  next d₁ hd₁ =>
    obtain rfl := via_modify.1 h
    unfold vaultContextTransition at hd₁
    split_ifs at hd₁
    exact (Option.some.inj hd₁).symm
  · rw [wipeM, via_modify_bind] at h
    exact (via_stop.1 h).elim

/-- The screen is that of the session which is loaded. -/
theorem finishIntent_via (h : (finishIntent E).Via H d () d') : ∃ s : Session,
    H (.read (.show (.vaultIntent s))) true ∧
      d'.session = { s with ctx := { s.ctx with state := .intentLoaded } } := by
  rw [finishIntent, via_get_bind] at h
  obtain ⟨_, _, -, h⟩ := via_bind.1 h
  obtain ⟨_, _, -, h⟩ := via_bind.1 h
  split at h
  · rw [wipeM, via_modify_bind] at h
    exact (via_stop.1 h).elim
  · obtain ⟨_, _, -, h⟩ := via_bind.1 h
    rw [via_modify_bind] at h
    obtain ⟨_, _, -, h⟩ := via_bind.1 h
    obtain ⟨_, _, -, h⟩ := via_bind.1 h
    obtain ⟨_, _, -, h⟩ := via_bind.1 h
    rw [via_modify_bind, via_modify_bind] at h
    obtain ⟨_, s, -, h⟩ := via_bind.1 h
    rw [via_modify_bind, via_modify_bind, via_get_bind] at h
    obtain ⟨_, s', hclobber, h⟩ := via_bind.1 h
    obtain ⟨junk, hj, hmod⟩ := via_ask_bind.1 hclobber
    obtain rfl := via_modify.1 hmod
    obtain ⟨approved, hshow, h⟩ := via_ask_bind.1 h
    obtain ⟨_, _, happ, h⟩ := via_bind.1 h
    obtain ⟨rfl, rfl⟩ := requireM_via happ
    refine ⟨_, hshow, ?_⟩
    rw [transitionM_via h]
    rfl

/-! ## The request that loads -/

theorem Quiet.path {α : Type} {m : M α} {Q : Except Stop α → Device → Prop} {r : Except Stop α}
    (h : Quiet m d Q) (hp : (m d).Path tr (r, d')) : Q r d' := Course.wp_path (h []) hp

theorem Quiet.via {α : Type} {m : M α} {Q : Except Stop α → Device → Prop} {a : α}
    (h : Quiet m d Q) (hv : m.Via H d a d') : Q (.ok a) d' := by
  obtain ⟨tr, hp, -⟩ := hv
  exact h.path hp

/-- The loop ends well only with what it stored. -/
theorem path_loopEnd {α : Type} {put : α → Device} {o : Option α} {tr : List devIface.Event}
    (h : (loopEnd put d o).Path tr (.ok (), d')) : ∃ a, d' = put a := by
  rcases o with _ | a
  · cases h
  · cases h
    exact ⟨a, rfl⟩

/-- Keys that do not complete an intent do not load it. -/
theorem handleKeyBatch_via (h : (handleKeyBatch E data).Via H d () d')
    (hd : d.ctx.state ≠ .intentLoaded) (hl : d'.ctx.state = .intentLoaded) : ∃ s : Session,
    H (.read (.show (.vaultIntent s))) true ∧
      d'.session = { s with ctx := { s.ctx with state := .intentLoaded } } := by
  rw [handleKeyBatch, via_get_bind] at h
  split_ifs at h
  · exact (via_stop.1 h).elim
  obtain ⟨_, d₁, hr, h⟩ := via_bind.1 h
  obtain ⟨-, rfl⟩ := requireM_via hr
  obtain ⟨_, d₂, hr, h⟩ := via_bind.1 h
  obtain ⟨-, rfl⟩ := requireM_via hr
  obtain ⟨_, d₃, hloop, h⟩ := via_bind.1 h
  obtain ⟨_, d₄, habs, h⟩ := via_bind.1 h
  have h₃ : d₃.ctx.state ≠ .intentLoaded := by
    obtain ⟨tr, hp, -⟩ := hloop
    rw [keyLoop_run] at hp
    obtain ⟨p, rfl⟩ := path_loopEnd hp
    exact hd
  have h₄ : d₄.ctx.state ≠ .intentLoaded := by
    refine (absorbIntentApdu_quiet (Q := fun _ d => d.ctx.state ≠ .intentLoaded) ?_ h₃).via habs
    intro hw
    cases hw
  rw [via_get_bind] at h
  split_ifs at h
  · obtain ⟨-, rfl⟩ := via_pure.1 h
    exact absurd hl h₄
  · exact finishIntent_via h

theorem handleKeyBatch_shows :
    Shows deviceScreen (fun _ l => l = [] ∨ OneScreen l) (handleKeyBatch E data) := by
  refine UnseenDev.before asks_get fun d => shows_ite (fun _ => shows_stop) fun _ => ?_
  refine UnseenDev.before unseen_requireM fun _ => UnseenDev.before unseen_requireM fun _ =>
    UnseenDev.before unseen_keyLoop fun _ => UnseenDev.before unseen_absorbIntentApdu fun _ =>
    UnseenDev.before asks_get fun _ => shows_ite (fun _ => ?_) fun _ => ?_
  · exact ((asks_pure).unseen deviceScreen_unseen).mono fun _ _ h => .inl h
  · exact finishIntent_shows.mono fun _ _ h => .inr h

theorem startDerive_unloaded : (startDerive d).ctx.state ≠ .intentLoaded := by
  unfold startDerive
  split_ifs with h
  · exact nofun
  · rw [not_not.1 h]
    exact nofun

/-- A derivation does not load an intent. -/
theorem DeriveEnd.unloaded {r : Except Stop Bytes} (h : DeriveEnd E d p1 p2 data r d')
    (hd : d.ctx.state ≠ .intentLoaded) : d'.ctx.state ≠ .intentLoaded := by
  have hfin : ∀ {d₁ : Device}, d₁.ctx.state ≠ .intentLoaded → FinalizeEnd E d₁ r d' →
      d'.ctx.state ≠ .intentLoaded := by
    rintro d₁ h₁ (_ | _ | _)
    · exact h₁
    · exact nofun
    · exact nofun
  cases h with
  | refused => exact hd
  | malformed => exact startDerive_unloaded
  | begun => exact startDerive_unloaded (d := d)
  | @atOnce c _ _ _ _ _ hf =>
    have hb : (begunDevice d p2 c).ctx.state ≠ .intentLoaded := startDerive_unloaded (d := d)
    exact hfin hb hf
  | dropped => exact nofun
  | fed => exact hd
  | last _ _ _ hf =>
    have hb : (fedDevice d data).ctx.state ≠ .intentLoaded := hd
    exact hfin hb hf

/-- Nor does a signature. -/
theorem SignEnd.unloaded {mk : List Mark} {r : Option (Except Stop Unit)}
    (h : SignEnd E st d mk r d') (hd : d.ctx.state ≠ .intentLoaded) :
    d'.ctx.state ≠ .intentLoaded := by
  cases h with
  | kept _ _ hs => rwa [hs.ctx]
  | prepegin _ ha => exact absurd ha.loaded hd
  | @signed kind _ _ d₁ _ _ hs =>
    have hst : (kind.count d₁).ctx.state = d.ctx.state := by
      rw [← hs.ctx]
      cases kind <;> rfl
    rwa [hst]
  | wiped => exact nofun
  | restarted => exact nofun

/-- Only the last keys load an intent. -/
theorem ApproveEnd.loads {r : Except Stop Unit} (h : ApproveEnd E d p1 p2 data r d')
    (hd : d.ctx.state ≠ .intentLoaded) (hl : d'.ctx.state = .intentLoaded) : p1 = 2 ∧ r = .ok () := by
  cases h with
  | refused => exact absurd hl hd
  | wiped => cases hl
  | scalars => cases hl
  | groups => exact absurd hl hd
  | keys => exact absurd hl hd
  | loaded hp1 => exact ⟨hp1, rfl⟩

/-- They show what they load. -/
theorem handlerApprove_shows {r : Except Stop Unit}
    (h : (handlerApproveVaultIntent E p1 p2 data d).Path tr (r, d'))
    (hd : d.ctx.state ≠ .intentLoaded) (hl : d'.ctx.state = .intentLoaded) :
    p1 = 2 ∧ r = .ok () ∧ ∃ s : Session, screens tr = [(.vaultIntent s, true)] ∧
      d'.session = { s with ctx := { s.ctx with state := .intentLoaded } } := by
  obtain ⟨rfl, rfl⟩ := (approve_quiet.path h).loads hd hl
  refine ⟨rfl, rfl, ?_⟩
  unfold handlerApproveVaultIntent at h
  split_ifs at h with h2 h0 h1 h3
  · cases h
  · cases h0
  · cases h1
  · obtain ⟨s, hmem, hs⟩ := handleKeyBatch_via (H := fun q a => ⟨q, a⟩ ∈ tr) ⟨tr, h, fun _ he => he⟩
      hd hl
    have hshown : (.vaultIntent s, true) ∈ screens tr := List.mem_filterMap.2 ⟨_, hmem, rfl⟩
    rcases handleKeyBatch_shows h with hnil | ⟨sc, hone⟩
    · rw [screens, hnil] at hshown
      cases hshown
    · rw [screens, hone, List.mem_singleton] at hshown
      obtain ⟨rfl, -⟩ := Prod.mk.inj hshown
      exact ⟨s, hone, hs⟩
  · exact absurd rfl h3

/-- Only an intent payload that comes to its end can load an intent. -/
theorem StepEnd.unloaded (h : StepEnd E d x d') (hd : d.ctx.state ≠ .intentLoaded) :
    d'.ctx.state ≠ .intentLoaded ∨
      (∃ p1 p2 data, x.request = .approve p1 p2 data) ∧ x.result ≠ none := by
  cases h with
  | derive hder => exact .inl (hder.unloaded hd)
  | approve => exact .inr ⟨⟨_, _, _, rfl⟩, nofun⟩
  | getState => exact .inl hd
  | sign _ hs => exact .inl (hs.unloaded hd)

/-- The request that loads an intent shows what it loads. -/
theorem Step.approved (h : Step E d x d') (hd : d.ctx.state ≠ .intentLoaded)
    (hl : d'.ctx.state = .intentLoaded) : ∃ s, Approved E d x d' s := by
  obtain hn | ⟨⟨p1, p2, data, hreq⟩, hres⟩ := h.toEnd.unloaded hd
  · exact absurd hl hn
  cases h with
  | cut => exact absurd rfl hres
  | @done req _ tr r _ hp =>
    obtain rfl : req = .approve p1 p2 data := hreq
    obtain ⟨tr₁, ⟨r₁, d₁⟩, tr₂, h₁, h₂, rfl⟩ := Course.path_bind.1 hp
    obtain rfl : d₁ = d' := by
      cases r₁ <;> cases h₂ <;> rfl
    obtain ⟨rfl, rfl, s, hs, hsession⟩ := handlerApprove_shows h₁ hd hl
    cases h₂
    rw [List.append_nil] at hp ⊢
    exact ⟨s, hd, ⟨p2, data, tr₁, hp, rfl, hs⟩, hsession⟩

/-- A session that holds an intent came to it by a review that was approved. -/
theorem Reach.reviewed (h : Reach E ls d) (hl : d.ctx.state = .intentLoaded) : Reviewed E ls d := by
  obtain ⟨pre, d₀, x, d₁, post, hpre, hn, hx, hl₁, hpost, rfl⟩ :=
    h.entered (P := fun d => d.ctx.state = .intentLoaded) nofun hl
  obtain ⟨s, ha⟩ := hx.approved hn hl₁
  obtain ⟨-, hsame⟩ := Reach.sameIntent (hpre.snoc hx) hpost
  obtain ⟨hctx, hint⟩ := Session.mk.inj ha.loaded
  have hhash : d₁.ctx.htlcHashlock = s.ctx.htlcHashlock := by rw [hctx]
  exact ⟨pre, d₀, x, d₁, s, post, hpre, ha, hpost, rfl, (hsame hl).intent.trans hint,
    (hsame hl).hashlock.trans hhash⟩

/-- Whatever is signed has been consented to: the one screen of the flow that ran was
    confirmed, and says what is so, or the intent was reviewed; and what is signed is what the
    flow has validated. -/
theorem Reach.consent {q : DevAsk} (h : Reach E ls d) (ht : Totals st p value)
    (hc : (signPsbt E st d).Cut tr q d'') (hq : q.Signs) (hG : ∀ e ∈ tr, p.AllowsDev e.1 e.2) :
    ∃ F, Consent E st p value ls d tr F ∧
      ∀ kind req, q = .yield kind req → IsMeant E d.session p F kind req := by
  obtain ⟨F, d', hran, hv, hput⟩ := signPsbt_ran hc hq hG
  refine ⟨F, ⟨hran, hran.screen ht hc hq hG, fun hF => ?_⟩,
    fun kind req hyield => h.isMeant hv (hput kind req hyield)⟩
  obtain ⟨-, junk, v', hacc, -⟩ := validateAndDisplayTransaction_via hv
  have hl := hacc.loaded (fun h => hF (.inl h)) (fun h => hF (.inr h))
  exact ⟨hl, h.reviewed hl⟩

namespace Signet

theorem pegin_totals : Totals peginState pegin pegin.utxoValue where
  inputs := by decide +kernel
  outputs := by decide +kernel
  witness := fun _ _ => rfl

end Signet

open Signet in
theorem consent_signet : ∃ tr req F, Consent env peginState pegin pegin.utxoValue
    (play env (load intent) Device.boot).1 (loaded intent) tr F ∧
      IsMeant env (loaded intent).session pegin F (.pegin 0) req := by
  obtain ⟨x, hst, hp, hd, hk, -⟩ := pegin_signed
  obtain ⟨d'', hc⟩ := x.cut
  have hG := x.served
  rw [hst, hd, hk] at hc
  rw [hp] at hG
  obtain ⟨F, hF, hmeant⟩ := (reach_loaded intent).consent pegin_totals hc (.inr ⟨_, _, rfl⟩) hG
  exact ⟨x.trace, x.req, F, hF, hmeant _ _ rfl⟩

end BabylonVault
