/-
  The review of a vault intent (`display.c`, 395-762).

  * `Ui`: what NBGL shows, with the callback registered for it, and the file-scope state.
  * `vaultStreamGroup` and the other callbacks of the review.
  * `Ui.deliver`: an event, handed to its callback.
  * `ReviewSound`: what an approval has shown.
-/
import BabylonVault.Intent
import BabylonVault.Lib.Review

namespace BabylonVault
open Review

/-! ## Rows -/

/-- A value as it is formatted. -/
inductive Shown
  | bytes (text : Bytes)
  | string (text : String)
  | amount (sats : UInt64)
  | hex (key : Bytes32)
  deriving DecidableEq

/-- `nbgl_layoutTagValue_t`. -/
structure Row where
  item : String
  value : Shown
  deriving DecidableEq

/-- `format_timelock_blocks`. -/
def formatTimelockBlocks (blocks : ℕ) : String :=
  let minutes := blocks * 10
  if minutes < 60 then s!"{blocks} blocks (~{minutes} min)"
  else if minutes < 1440 then s!"{blocks} blocks (~{minutes / 60} h)"
  else s!"{blocks} blocks (~{minutes / 1440} days)"

section Texts
variable (touch : Bool)

def vaultIntentReviewTitle : String :=
  if touch then "Review vault intent\nto approve vault\nparameters" else "Review vault intent"

def vaultIntentFinishTitle : String :=
  if touch then "Approve vault\nintent?" else "Approve intent?"

def vaultVpKeyLabel : String := if touch then "Vault provider key" else "Provider key"

/-- The title of the second review, which a nano build does not have. -/
def vaultKeysReviewTitle : String := "Review participant\nkeys"

end Texts

/-- The global parameters. -/
def vaultPairs (s : Session) : List Row :=
  [⟨"App name", .bytes s.ctx.appName⟩,
    ⟨"Base fee rate", .string s!"{s.intent.baseFeeRate.toUInt32} sat/vB"⟩,
    ⟨"PegIn timelock", .string (formatTimelockBlocks s.intent.peginCsvTimelock)⟩,
    ⟨"Payout timelock", .string (formatTimelockBlocks s.intent.payoutTimelock)⟩,
    ⟨"Refund timelock", .string (formatTimelockBlocks s.intent.htlcRefundTimelock)⟩,
    ⟨"Max Pre-PegIn fee", .amount s.intent.prepeginMaxFee⟩,
    ⟨"Keepers", .string s!"{s.intent.keeperCount}"⟩,
    ⟨"Challengers", .string s!"{s.intent.challengerCount}"⟩]

/-- `VAULT_INTENT_MAX_PAIRS`. -/
def vaultIntentMaxPairs : ℕ := 9

example (s : Session) : (vaultPairs s).length ≤ vaultIntentMaxPairs := Nat.le_succ 8

/-- The rows of `groups[i]`. -/
def groupPairs (touch : Bool) (it : VaultIntent) (i : ℕ) : List Row :=
  let grp := it.group i
  [⟨"Vault", .string s!"{i + 1} of {it.vaultCount}"⟩,
    ⟨vaultVpKeyLabel touch, .hex grp.vaultProviderPk⟩,
    ⟨"Vault amount", .amount grp.vaultAmount⟩,
    ⟨"Max commission fee", .amount grp.commissionFee⟩,
    ⟨"Depositor claim", .amount grp.depositorClaimValue⟩,
    ⟨"Max PegIn fee", .amount grp.peginMaxFee⟩]

/-- `_vault_key_pair_callback`; none where it asserts. -/
def vaultKeyPairCallback (it : VaultIntent) (pairIndex : ℕ) : Option Row :=
  if pairIndex < (it.keeperCount + it.challengerCount) % 256 then
    if pairIndex < it.keeperCount then
      some ⟨s!"Keeper {pairIndex + 1}", .hex (it.keeperPks.pick pairIndex)⟩
    else
      let ci := pairIndex - it.keeperCount
      some ⟨s!"Challenger {ci + 1}", .hex (it.challengerPks.pick ci)⟩
  else none

/-! ## The screen -/

/-- The file-scope lists of the review. -/
inductive PairList
  | params | group | keys
  deriving DecidableEq

/-- The callbacks that take a choice. -/
inductive ChoiceCallback
  | vaultStreamIntroChoice | vaultAfterParams | vaultAfterGroup | vaultStreamKeysStart
  | vaultAfterKeys | vaultStreamFinalChoice
  deriving DecidableEq

/-- The one callback that is ever passed for Skip. -/
inductive SkipCallback
  | vaultStreamFinish
  deriving DecidableEq

/-- What NBGL shows; a status page registers nothing. -/
inductive Page
  | start (title : String) (choice : ChoiceCallback)
  | content (list : PairList) (choice : ChoiceCallback) (skip : Option SkipCallback)
  | finish (title : String) (choice : ChoiceCallback)
  | status (signed : Bool)
  deriving DecidableEq

namespace Page

def choice : Page → Option ChoiceCallback
  | start _ c | content _ c _ | finish _ c => some c
  | status _ => none

def skip : Page → Option SkipCallback
  | content _ _ s => s
  | _ => none

end Page

/-- The screen with the state of the review. A list is shown by reference: its rows are those
    that it has at the time. -/
structure Ui where
  page : Page
  /-- SKIPPABLE_OPERATION in the type of the review under way. -/
  skippable : Bool
  paramsList : List Row
  keysNbPairs : ℕ
  grpPairs : List Row
  streamVaultIdx : UInt8
  /-- `set_ux_flow_response`. -/
  response : Option Bool
  deriving DecidableEq

/-- What a user sees. -/
inductive Pane
  | title (text : String)
  | rows (rs : List Row)
  | approve (title : String)
  | status (signed : Bool)
  deriving DecidableEq

/-- `nbgl_useCaseReviewStreamingStart`. -/
def reviewStreamingStart (skippable : Bool) (title : String) (choice : ChoiceCallback) (ui : Ui) : Ui :=
  { ui with page := .start title choice, skippable := skippable }

/-- `nbgl_useCaseReviewStreamingContinueExt`. -/
def reviewStreamingContinueExt (list : PairList) (choice : ChoiceCallback)
    (skip : Option SkipCallback) (ui : Ui) : Ui := { ui with page := .content list choice skip }

/-- `nbgl_useCaseReviewStreamingFinish`. -/
def reviewStreamingFinish (title : String) (choice : ChoiceCallback) (ui : Ui) : Ui :=
  { ui with page := .finish title choice }

/-- `set_ux_flow_response`, then `nbgl_useCaseReviewStatus`. -/
def respond (approved : Bool) (ui : Ui) : Ui :=
  { ui with response := some approved, page := .status approved }

/-! ## The callbacks -/

section Callbacks
variable (touch : Bool) (it : VaultIntent) (confirm : Bool) (ui : Ui)

def vaultStreamReject : Ui := respond false ui

def vaultStreamFinalChoice (approved : Bool) : Ui := respond approved ui

def vaultStreamFinish : Ui :=
  reviewStreamingFinish (vaultIntentFinishTitle touch) .vaultStreamFinalChoice ui

def vaultAfterKeys : Ui := if !confirm then vaultStreamReject ui else vaultStreamFinish touch ui

/-- `VAULT_SKIP_CB`. -/
def vaultSkipCb (cb : SkipCallback) : Option SkipCallback := if touch then some cb else none

def vaultStreamKeys : Ui :=
  reviewStreamingContinueExt .keys .vaultAfterKeys (vaultSkipCb touch .vaultStreamFinish) ui

def vaultStreamKeysStart : Ui :=
  if !confirm then vaultStreamReject ui else vaultStreamKeys touch ui

def vaultStreamKeysReview : Ui :=
  if touch then reviewStreamingStart true vaultKeysReviewTitle .vaultStreamKeysStart ui
  else vaultStreamKeys touch ui

def vaultStreamGroup : Ui :=
  if ui.streamVaultIdx.toNat ≥ it.vaultCount then vaultStreamKeysReview touch ui
  else
    let i := ui.streamVaultIdx
    reviewStreamingContinueExt .group .vaultAfterGroup none
      { ui with streamVaultIdx := i + 1, grpPairs := groupPairs touch it i.toNat }

def vaultAfterGroup : Ui :=
  if !confirm then vaultStreamReject ui else vaultStreamGroup touch it ui

def vaultAfterParams : Ui :=
  if !confirm then vaultStreamReject ui
  else vaultStreamGroup touch it { ui with streamVaultIdx := 0 }

def vaultStreamIntroChoice : Ui :=
  if !confirm then vaultStreamReject ui
  else reviewStreamingContinueExt .params .vaultAfterParams none ui

/-- Call a callback. -/
def ChoiceCallback.call : ChoiceCallback → Ui
  | vaultStreamIntroChoice => BabylonVault.vaultStreamIntroChoice confirm ui
  | vaultAfterParams => BabylonVault.vaultAfterParams touch it confirm ui
  | vaultAfterGroup => BabylonVault.vaultAfterGroup touch it confirm ui
  | vaultStreamKeysStart => BabylonVault.vaultStreamKeysStart touch confirm ui
  | vaultAfterKeys => BabylonVault.vaultAfterKeys touch confirm ui
  | vaultStreamFinalChoice => BabylonVault.vaultStreamFinalChoice ui confirm

def SkipCallback.call : SkipCallback → Ui
  | vaultStreamFinish => BabylonVault.vaultStreamFinish touch ui

end Callbacks

/-! ## Events -/

/-- What the screen shows now. -/
def Ui.shows (it : VaultIntent) (ui : Ui) : Pane :=
  match ui.page with
  | .start title _ => .title title
  | .content .params _ _ => .rows ui.paramsList
  | .content .group _ _ => .rows ui.grpPairs
  | .content .keys _ _ => .rows ((List.range ui.keysNbPairs).filterMap (vaultKeyPairCallback it))
  | .finish title _ => .approve title
  | .status signed => .status signed

/-- An event is handed to the callback registered for it, if there is one. -/
def Ui.deliver (touch : Bool) (it : VaultIntent) (ui : Ui) : Event → Option Ui
  | .confirm => ui.page.choice.map fun c => c.call touch it true ui
  | .reject => ui.page.choice.map fun c => c.call touch it false ui
  | .skip => ui.page.skip.map fun c => c.call touch ui

/-- `display_vault_intent` up to `io_ui_process`, on whatever the last review left. -/
def startVaultReview (touch : Bool) (s : Session) (ui : Ui) : Ui :=
  reviewStreamingStart false (vaultIntentReviewTitle touch) .vaultStreamIntroChoice
    { ui with
      paramsList := vaultPairs s,
      keysNbPairs := (s.intent.keeperCount + s.intent.challengerCount) % 256,
      response := none }

/-- Deliver events as they come; one that nothing is registered for is lost. -/
def Ui.play (touch : Bool) (it : VaultIntent) : List Event → Ui → List (Pane × Event) × Ui
  | [], ui => ([], ui)
  | e :: es, ui =>
    match ui.deliver touch it e with
    | none => ui.play touch it es
    | some ui' =>
      let (ls, ui'') := ui'.play touch it es
      ((ui.shows it, e) :: ls, ui'')

/-- `display_vault_intent`, which answers the question `Screen.vaultIntent s`: none until the
    events have led to an answer. -/
def displayVaultIntent (touch : Bool) (s : Session) (ui : Ui) (es : List Event) : Option Bool :=
  ((startVaultReview touch s ui).play touch s.intent es).2.response

variable (touch : Bool) (it : VaultIntent) (s : Session)

/-- One event, with what the screen showed. -/
def Ui.Step (ui : Ui) (l : Pane × Event) (ui' : Ui) : Prop :=
  ui.shows it = l.1 ∧ ui.deliver touch it l.2 = some ui'

/-! ## The screens -/

def introScreen : Pane := .title (vaultIntentReviewTitle touch)

def paramsScreen : Pane := .rows (vaultPairs s)

def groupScreen (i : ℕ) : Pane := .rows (groupPairs touch it i)

def keysScreen : Pane :=
  .rows ((List.range ((it.keeperCount + it.challengerCount) % 256)).filterMap (vaultKeyPairCallback it))

def approveScreen : Pane := .approve (vaultIntentFinishTitle touch)

/-- The screens that no one may skip: the intro, the parameters and every group. -/
def mandatoryScreens : List Pane :=
  introScreen touch :: paramsScreen s ::
    (List.range s.intent.vaultCount).map (groupScreen touch s.intent)

/-- The intro of the key list, for a touch build. -/
def keysIntro : List Pane := if touch then [.title vaultKeysReviewTitle] else []

/-- The screens of the review, each with whether it may be skipped. -/
def reviewScreens : List (Pane × Bool) :=
  (mandatoryScreens touch s ++ keysIntro touch).map (fun v => (v, false)) ++
    [(keysScreen s.intent, touch), (approveScreen touch, false)]

/-- What an approval has shown, after the events `ls`. -/
structure ReviewSound (ls : List (Pane × Event)) (ui : Ui) : Prop where
  approved : ui.response = some true → ∃ e, (e = .confirm ∨ touch = true ∧ e = .skip) ∧
    ls = (mandatoryScreens touch s ++ keysIntro touch).map (fun v => (v, .confirm)) ++
      [(keysScreen s.intent, e), (approveScreen touch, .confirm)]
  rejected : ∀ v, (v, .reject) ∈ ls → ui.response = some false
  group : ∀ c sk, ui.page = .content .group c sk → ∃ i < s.intent.vaultCount,
    ls.length = i + 2 ∧ ui.shows s.intent = groupScreen touch s.intent i
  skip : ui.response = none → ui.skippable = true ∨ ui.page.skip ≠ none →
    (mandatoryScreens touch s).map (fun v => (v, .confirm)) <+: ls

/-! ## The review is the one of these screens -/

variable {touch it s} {ui ui' : Ui} {r : Review.State Pane} {l : Pane × Event}

/-- The file-scope lists of the review. -/
structure Listed (s : Session) (ui : Ui) : Prop where
  params : ui.paramsList = vaultPairs s
  keys : ui.keysNbPairs = (s.intent.keeperCount + s.intent.challengerCount) % 256
  response : ui.response = none

/-- What is left behind the groups. -/
def closingScreens (touch : Bool) (it : VaultIntent) : List (Pane × Bool) :=
  (keysIntro touch).map (fun v => (v, false)) ++ [(keysScreen it, touch), (approveScreen touch, false)]

/-- What is left from group `i` on. -/
def groupsFrom (touch : Bool) (it : VaultIntent) (i : ℕ) : List (Pane × Bool) :=
  ((List.range it.vaultCount).drop i).map (fun i => (groupScreen touch it i, false)) ++
    closingScreens touch it

/-- Where the callbacks stand in the review. -/
inductive Stage (touch : Bool) (s : Session) (ui : Ui) : Review.State Pane → Prop
  | intro : Listed s ui → ui.skippable = false →
      ui.page = .start (vaultIntentReviewTitle touch) .vaultStreamIntroChoice →
      Stage touch s ui (some (reviewScreens touch s))
  | params : Listed s ui → ui.skippable = false → ui.page = .content .params .vaultAfterParams none →
      Stage touch s ui (some ((paramsScreen s, false) :: groupsFrom touch s.intent 0))
  | group {i} : Listed s ui → ui.skippable = false → i < s.intent.vaultCount →
      ui.page = .content .group .vaultAfterGroup none → ui.streamVaultIdx.toNat = i + 1 →
      ui.grpPairs = groupPairs touch s.intent i → Stage touch s ui (some (groupsFrom touch s.intent i))
  | keysIntro : Listed s ui → touch = true →
      ui.page = .start vaultKeysReviewTitle .vaultStreamKeysStart →
      Stage touch s ui (some (closingScreens touch s.intent))
  | keys : Listed s ui → ui.page =
        .content .keys .vaultAfterKeys (if touch then some .vaultStreamFinish else none) →
      Stage touch s ui (some [(keysScreen s.intent, touch), (approveScreen touch, false)])
  | finish : Listed s ui →
      ui.page = .finish (vaultIntentFinishTitle touch) .vaultStreamFinalChoice →
      Stage touch s ui (some [(approveScreen touch, false)])
  | approved : ui.response = some true → ui.page = .status true → Stage touch s ui (some [])
  | rejected : ui.response = some false → ui.page = .status false → Stage touch s ui none

theorem reviewScreens_eq : reviewScreens touch s =
    (introScreen touch, false) :: (paramsScreen s, false) :: groupsFrom touch s.intent 0 := by
  simp [reviewScreens, mandatoryScreens, groupsFrom, closingScreens]

theorem groupsFrom_of_lt {i : ℕ} (h : i < it.vaultCount) :
    groupsFrom touch it i = (groupScreen touch it i, false) :: groupsFrom touch it (i + 1) := by
  rw [groupsFrom, List.drop_eq_getElem_cons (by simpa using h)]
  simp [groupsFrom]

theorem groupsFrom_end : groupsFrom touch it it.vaultCount = closingScreens touch it := by
  simp [groupsFrom]

theorem call_reject (c : ChoiceCallback) : c.call touch it false ui = respond false ui := by
  cases c <;> rfl

/-- Only a page with a callback takes an event. -/
theorem deliver_some {e : Event} (h : ui.deliver touch it e = some ui') :
    (e = .confirm ∧ ∃ c, ui.page.choice = some c ∧ c.call touch it true ui = ui') ∨
    (e = .reject ∧ (∃ c, ui.page.choice = some c) ∧ respond false ui = ui') ∨
    (e = .skip ∧ ui.page.skip = some .vaultStreamFinish ∧ vaultStreamFinish touch ui = ui') := by
  cases e with
  | confirm =>
    obtain ⟨c, hc, rfl⟩ := Option.map_eq_some_iff.1 h
    exact .inl ⟨rfl, c, hc, rfl⟩
  | reject =>
    obtain ⟨c, hc, rfl⟩ := Option.map_eq_some_iff.1 h
    exact .inr (.inl ⟨rfl, ⟨c, hc⟩, (call_reject c).symm⟩)
  | skip =>
    obtain ⟨⟨⟩, hc, rfl⟩ := Option.map_eq_some_iff.1 h
    exact .inr (.inr ⟨rfl, hc, rfl⟩)

/-- The page after a group, or after the last one. -/
theorem stage_group (ui : Ui) (hl : Listed s ui) (hsk : ui.skippable = false)
    (hi : ui.streamVaultIdx.toNat ≤ s.intent.vaultCount) (hv : s.intent.vaultCount ≤ maxVaults) :
    Stage touch s (vaultStreamGroup touch s.intent ui)
      (some (groupsFrom touch s.intent ui.streamVaultIdx.toNat)) := by
  unfold vaultStreamGroup
  split_ifs with hend
  · rw [le_antisymm hi hend, groupsFrom_end]
    unfold vaultStreamKeysReview
    split_ifs with ht
    · exact .keysIntro ⟨hl.params, hl.keys, hl.response⟩ ht rfl
    · have hc : closingScreens touch s.intent =
          [(keysScreen s.intent, touch), (approveScreen touch, false)] := by
        simp [closingScreens, BabylonVault.keysIntro, ht]
      rw [hc]
      refine .keys ⟨hl.params, hl.keys, hl.response⟩ ?_
      rfl
  · refine .group ⟨hl.params, hl.keys, hl.response⟩ hsk (not_le.1 hend) rfl ?_ rfl
    show (ui.streamVaultIdx + 1).toNat = _
    rw [UInt8.toNat_add]
    simp only [maxVaults] at hv
    have h1 : (1 : UInt8).toNat = 1 := rfl
    omega

/-- A page that takes its choice: rejected, or on to what confirming it leads to. -/
theorem stage_step {c : ChoiceCallback} {v : Pane} {rest : List (Pane × Bool)} {sk : Bool}
    (hc : ui.page.choice = some c) (hshow : ui.shows s.intent = v)
    (hskip : ui.page.skip = some .vaultStreamFinish →
      sk = true ∧ Stage touch s (vaultStreamFinish touch ui) (some rest))
    (hnext : Stage touch s (c.call touch s.intent true ui) (some rest))
    (hs : ui.Step touch s.intent l ui') :
    ∃ r', Review.Step (some ((v, sk) :: rest)) l r' ∧ Stage touch s ui' r' := by
  obtain ⟨w, e⟩ := l
  obtain ⟨hw, hd⟩ := hs
  obtain rfl : v = w := hshow.symm.trans hw
  rcases deliver_some hd with ⟨rfl, c', hc', rfl⟩ | ⟨rfl, -, rfl⟩ | ⟨rfl, hsk, rfl⟩
  · obtain rfl : c = c' := Option.some.inj (hc.symm.trans hc')
    exact ⟨_, .confirm, hnext⟩
  · exact ⟨_, .reject, .rejected rfl rfl⟩
  · obtain ⟨rfl, hf⟩ := hskip hsk
    exact ⟨_, .skip, hf⟩

/-- Every event is one on the review of these screens. -/
theorem Stage.step (hv : s.intent.vaultCount ≤ maxVaults) (h : Stage touch s ui r)
    (hs : ui.Step touch s.intent l ui') : ∃ r', Review.Step r l r' ∧ Stage touch s ui' r' := by
  have hnone {page : Page} (hp : ui.page = page) (hn : page.skip = none) {P : Prop}
      (h : ui.page.skip = some .vaultStreamFinish) : P := by
    rw [hp, hn] at h
    cases h
  cases h with
  | intro hl hsk hp =>
    rw [reviewScreens_eq]
    refine stage_step (by rw [hp]; rfl) (by rw [Ui.shows, hp]; rfl) (hnone hp rfl) ?_ hs
    exact .params ⟨hl.params, hl.keys, hl.response⟩ hsk rfl
  | params hl hsk hp =>
    refine stage_step (by rw [hp]; rfl) (by rw [Ui.shows, hp, paramsScreen, ← hl.params])
      (hnone hp rfl) ?_ hs
    exact stage_group { ui with streamVaultIdx := 0 } ⟨hl.params, hl.keys, hl.response⟩ hsk
      (Nat.zero_le _) hv
  | @group i hl hsk hi hp hidx hg =>
    rw [groupsFrom_of_lt hi, ← hidx]
    refine stage_step (by rw [hp]; rfl) (by rw [Ui.shows, hp, groupScreen, ← hg]) (hnone hp rfl) ?_ hs
    exact stage_group ui hl hsk (hidx ▸ hi) hv
  | keysIntro hl ht hp =>
    have hc : closingScreens touch s.intent = (.title vaultKeysReviewTitle, false) ::
        [(keysScreen s.intent, touch), (approveScreen touch, false)] := by
      simp [closingScreens, BabylonVault.keysIntro, ht]
    rw [hc]
    refine stage_step (by rw [hp]; rfl) (by rw [Ui.shows, hp]) (hnone hp rfl) ?_ hs
    exact .keys ⟨hl.params, hl.keys, hl.response⟩ rfl
  | keys hl hp =>
    have hfin : Stage touch s (vaultStreamFinish touch ui) (some [(approveScreen touch, false)]) :=
      .finish ⟨hl.params, hl.keys, hl.response⟩ rfl
    refine stage_step (c := .vaultAfterKeys) (by rw [hp]; rfl)
      (by rw [Ui.shows, hp, keysScreen, ← hl.keys]) ?_ hfin hs
    intro hsk
    rw [hp] at hsk
    refine ⟨?_, hfin⟩
    by_contra ht
    rw [Page.skip, if_neg ht] at hsk
    cases hsk
  | finish hl hp =>
    refine stage_step (by rw [hp]; rfl) (by rw [Ui.shows, hp]; rfl) (hnone hp rfl) ?_ hs
    exact .approved rfl rfl
  | approved _ hp | rejected _ hp =>
    obtain ⟨-, hd⟩ := hs
    rcases deliver_some hd with ⟨-, c, hc, -⟩ | ⟨-, ⟨c, hc⟩, -⟩ | ⟨-, hsk, -⟩
    · rw [hp] at hc
      cases hc
    · rw [hp] at hc
      cases hc
    · exact hnone hp rfl hsk

variable {ui₀ : Ui} {ls : List (Pane × Event)}

theorem stage_start : Stage touch s (startVaultReview touch s ui₀) (some (reviewScreens touch s)) :=
  .intro ⟨rfl, rfl, rfl⟩ rfl rfl

/-- What has been shown, for where the callbacks stand. -/
theorem progress_of_run (hv : s.intent.vaultCount ≤ maxVaults)
    (h : Run (Ui.Step touch s.intent) (startVaultReview touch s ui₀) ls ui) :
    ∃ r, Review.Progress (reviewScreens touch s) ls r ∧ Stage touch s ui r := by
  have hstep : ∀ ui r l ui', Stage touch s ui r → ui.Step touch s.intent l ui' →
      ∃ r', Review.Step r l r' ∧ Stage touch s ui' r' := fun _ _ _ _ hst hs => hst.step hv hs
  obtain ⟨r, hr, hst⟩ := h.sim stage_start hstep
  exact ⟨r, Review.of_run hr, hst⟩

theorem length_groupsFrom (i : ℕ) : (groupsFrom touch it i).length =
    it.vaultCount - i + (closingScreens touch it).length := by
  simp [groupsFrom]

theorem reviewScreens_mandatory : reviewScreens touch s =
    (mandatoryScreens touch s).map (fun v => (v, false)) ++ closingScreens touch s.intent := by
  simp [reviewScreens, closingScreens]

/-- Behind the groups, all that may not be skipped has been confirmed. -/
theorem mandatory_shown (mid : List (Pane × Bool)) {rest : List (Pane × Bool)}
    (hp : Review.Progress (reviewScreens touch s) ls (some rest))
    (hc : closingScreens touch s.intent = mid ++ rest) :
    (mandatoryScreens touch s).map (fun v => (v, .confirm)) <+: ls := by
  cases hp with
  | going heq hpass =>
    rw [reviewScreens_mandatory, hc, ← List.append_assoc] at heq
    rw [← List.append_cancel_right heq] at hpass
    exact confirmed_prefix hpass

/-- An approval has passed every screen. -/
theorem approved_shown (hp : Review.Progress (reviewScreens touch s) ls (some [])) :
    ∃ e, (e = .confirm ∨ touch = true ∧ e = .skip) ∧
      ls = (mandatoryScreens touch s ++ keysIntro touch).map (fun v => (v, .confirm)) ++
        [(keysScreen s.intent, e), (approveScreen touch, .confirm)] := by
  cases hp with
  | going heq hpass =>
    rw [List.append_nil] at heq
    rw [← heq] at hpass
    obtain ⟨ls₁, ls₂, rfl, h₁, h₂⟩ := passes_append hpass
    rw [passes_mandatory h₁]
    cases h₂ with
    | @cons _ l _ ls hkeys h₂ =>
      cases h₂ with
      | @cons _ l' _ _ happ h₂ =>
        cases h₂
        obtain ⟨v, e⟩ := l
        obtain ⟨v', e'⟩ := l'
        obtain ⟨rfl, he⟩ := hkeys
        obtain ⟨rfl, rfl | ⟨hsk, -⟩⟩ := happ
        · exact ⟨e, he, rfl⟩
        · cases hsk

theorem reviewSound_of_run (hv : s.intent.vaultCount ≤ maxVaults)
    (h : Run (Ui.Step touch s.intent) (startVaultReview touch s ui₀) ls ui) :
    ReviewSound touch s ls ui := by
  obtain ⟨r, hprog, hst⟩ := progress_of_run hv h
  constructor
  · intro happ
    have hlive (hl : Listed s ui) : False := by
      have hr := hl.response
      rw [happ] at hr
      cases hr
    cases hst with
    | approved => exact approved_shown hprog
    | rejected hr => rw [happ] at hr; cases hr
    | intro hl | params hl | group hl | keysIntro hl | keys hl | finish hl => exact (hlive hl).elim
  · intro v hrej
    obtain rfl := hprog.eq_none hrej
    cases hst with
    | rejected hr => exact hr
  · intro c sk hp
    have hother {page : Page} (hp' : ui.page = page) (hne : ∀ c sk, page ≠ .content .group c sk)
        {P : Prop} : P := absurd (hp'.symm.trans hp) (hne c sk)
    cases hst with
    | @group i _ _ hi _ _ hg =>
      cases hprog with
      | going heq hpass =>
        refine ⟨i, hi, ?_, by rw [Ui.shows, hp, groupScreen, ← hg]⟩
        rw [reviewScreens_eq] at heq
        have hlen := congrArg List.length heq
        rw [List.length_append, List.length_cons, List.length_cons, length_groupsFrom,
          length_groupsFrom, hpass.length_eq] at hlen
        omega
    | intro _ _ hp' | params _ _ hp' | keysIntro _ _ hp' | keys _ hp' | finish _ hp'
    | approved _ hp' | rejected _ hp' => exact hother hp' (by simp)
  · intro hnone hsk
    have hdead {page : Page} (hs : ui.skippable = false) (hp : ui.page = page)
        (hn : page.skip = none) {P : Prop} : P := by
      rw [hs, hp] at hsk
      exact absurd hn (hsk.resolve_left Bool.false_ne_true)
    cases hst with
    | intro _ hs hp | params _ hs hp => exact hdead hs hp rfl
    | group _ hs _ hp => exact hdead hs hp rfl
    | keysIntro => exact mandatory_shown [] hprog rfl
    | keys => exact mandatory_shown _ hprog rfl
    | finish => exact mandatory_shown ((keysIntro touch).map (fun v => (v, false)) ++
        [(keysScreen s.intent, touch)]) hprog (by simp [closingScreens])
    | approved hr | rejected hr =>
      rw [hnone] at hr
      cases hr

theorem run_play (es : List Event) (ui : Ui) :
    Run (Ui.Step touch it) ui (ui.play touch it es).1 (ui.play touch it es).2 := by
  induction es generalizing ui with
  | nil => exact .nil
  | cons e es ih =>
    unfold Ui.play
    cases hd : ui.deliver touch it e with
    | none => exact ih ui
    | some ui' => exact (ih ui').cons ⟨rfl, hd⟩

/-- The review of an intent is not bypassed, whatever the user does. -/
theorem review_sound (hv : s.intent.vaultCount ≤ maxVaults) (ui₀ : Ui) (es : List Event) :
    ReviewSound touch s ((startVaultReview touch s ui₀).play touch s.intent es).1
      ((startVaultReview touch s ui₀).play touch s.intent es).2 :=
  reviewSound_of_run hv (run_play es _)

/-- Two vaults, to review on a screen that still shows the last rejection. -/
def twoVaults : Session :=
  ⟨.zero, { VaultIntent.zero with keeperCount := 1, challengerCount := 1, vaultCount := 2 }⟩

def rejectedUi : Ui := ⟨.status false, true, [], 0, [], 7, some false⟩

theorem review_sound_skip :
    ReviewSound true twoVaults
      ((startVaultReview true twoVaults rejectedUi).play true twoVaults.intent
        [.confirm, .skip, .confirm, .confirm, .skip, .confirm, .confirm, .skip, .confirm]).1
      ((startVaultReview true twoVaults rejectedUi).play true twoVaults.intent
        [.confirm, .skip, .confirm, .confirm, .skip, .confirm, .confirm, .skip, .confirm]).2 ∧
    displayVaultIntent true twoVaults rejectedUi
      [.confirm, .skip, .confirm, .confirm, .skip, .confirm, .confirm, .skip, .confirm] =
        some true :=
  ⟨review_sound (by decide) rejectedUi _, by decide +kernel⟩

end BabylonVault
