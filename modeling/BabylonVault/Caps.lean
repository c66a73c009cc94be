/-
  The caps on signatures over a session.

  * `kinds`, `prepeginCount`: what a sequence of requests has released and accepted.
  * `LiveEnd`: what a request does to a loaded session (`StepEnd.live`).
  * `Spent`: what was released is spent in the counters and masks; every step of the
    session keeps it.
  * `StopsAt`: what a consumed slot does to a request (`Exchange.ComesTo.stops`).
  * `Reach.caps`: over a whole session no cap is exceeded.
-/
import BabylonVault.CapChecks

namespace BabylonVault
open Bytes Prog

/-! ## What was released -/

/-- The signature of a mark. -/
def Mark.sig : Mark → Option Sig
  | .accepted => none
  | .signature x => some x

/-- A kind of which the intent has one slot for each group, or group and claimer. -/
def SigKind.hasSlot : SigKind → Bool
  | .pegin _ | .payout .. => true
  | _ => false

def SigKind.isPegin : SigKind → Bool
  | .pegin _ => true
  | _ => false

def SigKind.isPayout : SigKind → Bool
  | .payout .. => true
  | _ => false

def SigKind.isNopayout : SigKind → Bool
  | .nopayout _ => true
  | _ => false

namespace Exchange
variable (x : Exchange)

/-- A PSBT of the Pre-PegIn shape that was accepted. -/
def AcceptsPrepegin : Prop :=
  ∃ st, x.request = .signPsbt st ∧ PrepeginShape st ∧ .accepted ∈ marks x.asked

theorem released_eq : x.released = (marks x.asked).filterMap Mark.sig := by
  rw [released, marks, List.filterMap_filterMap]
  refine List.filterMap_congr fun q _ => ?_
  cases q <;> rfl

end Exchange

/-- The kinds of the signatures released over some requests. -/
def kinds (ls : List Exchange) : List SigKind := ls.flatMap fun x => x.released.map (·.1)

open Classical in
/-- How many Pre-PegIns were accepted over some requests. -/
noncomputable def prepeginCount (ls : List Exchange) : ℕ := ls.countP fun x => x.AcceptsPrepegin

variable {E : Env} {ls : List Exchange} {d d' d₁ : Device} {x : Exchange} {it : VaultIntent}

theorem kinds_snoc (ls : List Exchange) (x : Exchange) :
    kinds (ls ++ [x]) = kinds ls ++ x.released.map (·.1) := by simp [kinds]

theorem prepeginCount_snoc (h : x.AcceptsPrepegin) :
    prepeginCount (ls ++ [x]) = prepeginCount ls + 1 := by
  simp [prepeginCount, List.countP_append, h]

theorem prepeginCount_snoc_not (h : ¬x.AcceptsPrepegin) :
    prepeginCount (ls ++ [x]) = prepeginCount ls := by
  simp [prepeginCount, List.countP_append, h]

/-! ## A request on a loaded session -/

/-- The device holds the session of `d`. -/
def SameLoaded (d d' : Device) : Prop := d'.ctx = d.ctx ∧ d'.intent = d.intent

/-- What a request does to a loaded session: what it releases, and the session
    afterwards unless it has ended. -/
inductive LiveEnd (d : Device) (x : Exchange) (d' : Device) : Prop
  | nothing : x.released = [] → ¬x.AcceptsPrepegin →
      (d'.ctx.state = .intentLoaded → SameLoaded d d') → LiveEnd d x d'
  | prepegin : x.released = [] → x.AcceptsPrepegin → d.ctx.prePeginSigned = 0 →
      (d'.ctx.state = .intentLoaded → SameLoaded (countPrepegin d) d') → LiveEnd d x d'
  | signed {kind req} : x.released = [(kind, req)] → ¬x.AcceptsPrepegin → kind.Free d →
      (d'.ctx.state = .intentLoaded → SameLoaded (kind.count d) d') → LiveEnd d x d'

theorem SameSession.count (h : SameSession d d₁) (kind : SigKind) :
    SameLoaded (kind.count d) (kind.count d₁) := by
  obtain ⟨hc, hi, -⟩ := h
  cases kind with
  | pegin gi =>
    refine ⟨?_, hi⟩
    simp only [SigKind.count, countPegin, hc]
  | payout gi ci =>
    refine ⟨?_, hi⟩
    simp only [SigKind.count, countPayout, hc, hi]
  | nopayout ci =>
    refine ⟨?_, hi⟩
    simp only [SigKind.count, countNopayout, hc]
  | standalone => exact ⟨hc, hi⟩

/-- A request without marks releases and accepts nothing. -/
theorem Exchange.nothing_of_unmarked (hm : marks x.asked = []) :
    x.released = [] ∧ ¬x.AcceptsPrepegin := by
  refine ⟨by rw [x.released_eq, hm]; rfl, ?_⟩
  rintro ⟨_, -, -, hacc⟩
  rw [hm] at hacc
  cases hacc

theorem LiveEnd.of_unmarked (hm : marks x.asked = [])
    (h : d'.ctx.state = .intentLoaded → SameLoaded d d') : LiveEnd d x d' := by
  obtain ⟨hrel, hacc⟩ := Exchange.nothing_of_unmarked hm
  exact .nothing hrel hacc h

/-- A derivation leaves a loaded session alone or ends it. -/
theorem DeriveEnd.live {p1 p2 : UInt8} {data : Bytes} {r : Except Stop Bytes} {log : Log}
    (h : DeriveEnd E d p1 p2 data r d') (hs : SessionOk E log d) (hl : d.ctx.state = .intentLoaded)
    (hl' : d'.ctx.state = .intentLoaded) : SameLoaded d d' := by
  have hstream : d.streaming.streamingInProgress = false := hs.not_streaming (by rw [hl]; decide)
  have hnot : ∀ {P : Prop}, d.streaming.streamingInProgress = true → P := fun h => by
    rw [hstream] at h
    cases h
  have hstart : (startDerive d).ctx = .zero := by
    rw [startDerive, if_pos (by rw [hl]; decide)]
    rfl
  cases h with
  | refused => exact ⟨rfl, rfl⟩
  | malformed | begun =>
    have hz : (startDerive d).ctx.state = .intentLoaded := hl'
    rw [hstart] at hz
    cases hz
  | atOnce _ _ _ hf =>
    cases hf with
    | kept =>
      have hz : (startDerive d).ctx.state = .intentLoaded := hl'
      rw [hstart] at hz
      cases hz
    | wiped => cases hl'
    | opened => cases hl'
  | dropped _ h => exact hnot h
  | fed _ h => exact hnot h
  | last _ h => exact hnot h

/-- The intent payloads leave a loaded session alone. -/
theorem ApproveEnd.live {p1 p2 : UInt8} {data : Bytes} {r : Except Stop Unit} {log : Log}
    (h : ApproveEnd E d p1 p2 data r d') (hs : SessionOk E log d) (hl : d.ctx.state = .intentLoaded)
    (hl' : d'.ctx.state = .intentLoaded) : SameLoaded d d' := by
  have hnot : ∀ {P : Prop}, d.approve.scalarsLoaded = true → P := fun h => by
    rw [(hs.loaded hl).approve] at h
    cases h
  cases h with
  | refused => exact ⟨rfl, rfl⟩
  | wiped => cases hl'
  | scalars _ hst => exact absurd (hl.symm.trans hst) (by decide)
  | groups _ h => exact hnot h
  | keys _ h => exact hnot h
  | loaded _ h => exact hnot h

/-- What a SIGN_PSBT does to a loaded session. -/
theorem SignEnd.live {st : SignPsbtState} {r : Option (Except Stop Unit)}
    (h : SignEnd E st d (marks x.asked) r d') (hreq : x.request = .signPsbt st) : LiveEnd d x d' := by
  have hnot : ¬PrepeginShape st → ¬x.AcceptsPrepegin := by
    rintro hshape ⟨st', he, hs, -⟩
    cases hreq.symm.trans he
    exact hshape hs
  have hun : ∀ {d'}, Unsigned st (marks x.asked) →
      (d'.ctx.state = .intentLoaded → SameLoaded d d') → LiveEnd d x d' := by
    rintro d' (hm | ⟨hm, hshape⟩) h
    · exact .of_unmarked hm h
    · exact .nothing (by rw [x.released_eq, hm]; rfl) (hnot hshape) h
  have hsig : ∀ {d' kind req}, marks x.asked = [.accepted, .signature (kind, req)] →
      ¬PrepeginShape st → kind.Free d → (d'.ctx.state = .intentLoaded →
      SameLoaded (kind.count d) d') → LiveEnd d x d' := by
    intro d' kind req hm hshape hf h
    have hrel : x.released = [(kind, req)] := by
      rw [x.released_eq, hm]
      rfl
    exact .signed hrel (hnot hshape) hf h
  generalize hm : marks x.asked = mk at h
  cases h with
  | kept hu _ hd => exact hun (hm ▸ hu) fun _ => ⟨hd.ctx, hd.intent⟩
  | prepegin hshape ha _ hd =>
    refine .prepegin (by rw [x.released_eq, hm]; rfl) ⟨st, hreq, hshape, by simp [hm]⟩ ha.fresh
      fun _ => ⟨?_, hd.intent⟩
    simp only [countPrepegin, hd.ctx]
  | signed hshape hf hd => exact hsig hm hshape hf fun _ => hd.count _
  | wiped hu =>
    rcases hu with hu | ⟨hshape, kind, req, rfl, hf, -⟩
    · exact hun (hm ▸ hu) fun hz => by cases hz
    · exact hsig hm hshape hf fun hz => by cases hz
  | restarted hu => exact hun (hm ▸ hu) fun hz => by cases hz

/-- What any request does to a loaded session. -/
theorem StepEnd.live {log : Log} (h : StepEnd E d x d') (hs : SessionOk E log d)
    (hl : d.ctx.state = .intentLoaded) : LiveEnd d x d' := by
  cases h with
  | derive hend hm => exact .of_unmarked hm (hend.live hs hl)
  | approve hend hm => exact .of_unmarked hm (hend.live hs hl)
  | getState _ hm => exact .of_unmarked hm fun _ => ⟨rfl, rfl⟩
  | sign hreq hend => exact hend.live hreq

/-! ## What is spent -/

/-- Nothing was released that the counters and masks do not show. -/
structure Spent (ls : List Exchange) (d : Device) : Prop where
  pegin : ∀ gi, .pegin gi ∈ kinds ls → bit d.ctx.peginGroupMask gi = true
  payout : ∀ gi ci, .payout gi ci ∈ kinds ls →
    bit d.ctx.payoutClaimerMask (payoutSlot d.intent gi ci) = true
  prepegins : prepeginCount ls ≤ d.ctx.prePeginSigned
  pegins : (kinds ls).countP SigKind.isPegin ≤ d.ctx.peginSigned
  payouts : (kinds ls).countP SigKind.isPayout ≤ d.ctx.payoutSigned
  nopayouts : (kinds ls).countP SigKind.isNopayout ≤ d.ctx.nopayoutSigned

/-- The caps on what an intent may release. -/
structure Capped (it : VaultIntent) (ls : List Exchange) : Prop where
  /-- At most one signature for each group, and for each group and claimer. -/
  once : ((kinds ls).filter SigKind.hasSlot).Nodup
  pegin : ∀ gi, .pegin gi ∈ kinds ls → gi < it.vaultCount
  payout : ∀ gi ci, .payout gi ci ∈ kinds ls → gi < it.vaultCount ∧ ci ≤ it.keeperCount + 1
  prepegins : prepeginCount ls ≤ 1
  nopayouts : (kinds ls).countP SigKind.isNopayout ≤
    it.vaultCount * (it.keeperCount + it.challengerCount)

theorem Spent.nil (d : Device) : Spent [] d :=
  ⟨fun _ h => (nomatch h), fun _ _ h => (nomatch h), Nat.zero_le _, Nat.zero_le _, Nat.zero_le _,
    Nat.zero_le _⟩

theorem Capped.nil (it : VaultIntent) : Capped it [] :=
  ⟨.nil, fun _ h => (nomatch h), fun _ _ h => (nomatch h), Nat.zero_le _, Nat.zero_le _⟩

theorem Spent.same (h : Spent ls d) (hd : SameLoaded d d') : Spent ls d' := by
  obtain ⟨hc, hi⟩ := hd
  refine ⟨?_, ?_, ?_, ?_, ?_, ?_⟩
  · rw [hc]; exact h.pegin
  · rw [hc, hi]; exact h.payout
  · rw [hc]; exact h.prepegins
  · rw [hc]; exact h.pegins
  · rw [hc]; exact h.payouts
  · rw [hc]; exact h.nopayouts

/-- A signature that is counted is spent. -/
theorem Spent.count {kind : SigKind} {req : SigRequest} (h : Spent ls d)
    (hc : CountersOk d.ctx d.intent) (hs : ScalarsOk E.network d.intent) (hf : kind.Free d)
    (hx : x.released = [(kind, req)]) (hx' : ¬x.AcceptsPrepegin) :
    Spent (ls ++ [x]) (kind.count d) := by
  have hk : kinds (ls ++ [x]) = kinds ls ++ [kind] := by rw [kinds_snoc, hx]; rfl
  have hp : prepeginCount (ls ++ [x]) ≤ d.ctx.prePeginSigned := by
    rw [prepeginCount_snoc_not hx']
    exact h.prepegins
  have hmem : ∀ {k}, k ∈ kinds (ls ++ [x]) → k ∈ kinds ls ∨ k = kind := by
    intro k hk'
    rw [hk] at hk'
    simpa using hk'
  have hcount : ∀ P : SigKind → Bool, (kinds (ls ++ [x])).countP P =
      (kinds ls).countP P + (if P kind then 1 else 0) := by
    intro P
    rw [hk, List.countP_append, List.countP_singleton]
  cases kind with
  | pegin gi =>
    have hlt := hc.pegin_lt hs hf.2.1
    refine ⟨fun gj hj => ?_, fun gj cj hj => ?_, hp, ?_, ?_, ?_⟩
    · show bit (setBit d.ctx.peginGroupMask gi) gj = true
      rw [bit_setBit hlt, Bool.or_eq_true, decide_eq_true_eq]
      rcases hmem hj with hj | hj
      · exact .inr (h.pegin gj hj)
      · exact .inl (SigKind.pegin.inj hj).symm
    · rcases hmem hj with hj | hj
      · exact h.payout gj cj hj
      · cases hj
    · rw [hcount]; exact Nat.succ_le_succ h.pegins
    · rw [hcount]; exact h.payouts
    · rw [hcount]; exact h.nopayouts
  | payout gi ci =>
    have hlt := hc.payout_lt hs hf.2.1 hf.2.2.1
    refine ⟨fun gj hj => ?_, fun gj cj hj => ?_, hp, ?_, ?_, ?_⟩
    · rcases hmem hj with hj | hj
      · exact h.pegin gj hj
      · cases hj
    · show bit (setBit d.ctx.payoutClaimerMask (payoutSlot d.intent gi ci))
        (payoutSlot d.intent gj cj) = true
      rw [bit_setBit hlt, Bool.or_eq_true, decide_eq_true_eq]
      rcases hmem hj with hj | hj
      · exact .inr (h.payout gj cj hj)
      · obtain ⟨rfl, rfl⟩ := SigKind.payout.inj hj
        exact .inl rfl
    · rw [hcount]; exact h.pegins
    · rw [hcount]; exact Nat.succ_le_succ h.payouts
    · rw [hcount]; exact h.nopayouts
  | nopayout ci =>
    refine ⟨fun gj hj => ?_, fun gj cj hj => ?_, hp, ?_, ?_, ?_⟩
    · exact h.pegin gj ((hmem hj).resolve_right SigKind.noConfusion)
    · exact h.payout gj cj ((hmem hj).resolve_right SigKind.noConfusion)
    · rw [hcount]; exact h.pegins
    · rw [hcount]; exact h.payouts
    · rw [hcount]; exact Nat.succ_le_succ h.nopayouts
  | standalone =>
    refine ⟨fun gj hj => ?_, fun gj cj hj => ?_, hp, ?_, ?_, ?_⟩
    · exact h.pegin gj ((hmem hj).resolve_right SigKind.noConfusion)
    · exact h.payout gj cj ((hmem hj).resolve_right SigKind.noConfusion)
    · rw [hcount]; exact h.pegins
    · rw [hcount]; exact h.payouts
    · rw [hcount]; exact h.nopayouts

/-- A signature with a free slot stays within the caps. -/
theorem Capped.sign {kind : SigKind} {req : SigRequest} (h : Capped d.intent ls) (hsp : Spent ls d)
    (hf : kind.Free d) (hx : x.released = [(kind, req)]) (hx' : ¬x.AcceptsPrepegin) :
    Capped d.intent (ls ++ [x]) := by
  have hk : kinds (ls ++ [x]) = kinds ls ++ [kind] := by rw [kinds_snoc, hx]; rfl
  have hmem : ∀ {k}, k ∈ kinds (ls ++ [x]) → k ∈ kinds ls ∨ k = kind := by
    intro k hk'
    rw [hk] at hk'
    simpa using hk'
  -- A kind that was released before has no free slot.
  have hnew : kind.hasSlot = true → kind ∉ kinds ls := by
    intro hslot hin
    cases kind with
    | pegin gi => exact absurd (hsp.pegin gi hin) (by rw [hf.2.2]; decide)
    | payout gi ci => exact absurd (hsp.payout gi ci hin) (by rw [hf.2.2.2]; decide)
    | nopayout | standalone => cases hslot
  refine ⟨?_, fun gi hg => ?_, fun gi ci hg => ?_, ?_, ?_⟩
  · rw [hk, List.filter_append]
    refine List.Nodup.append h.once (List.Nodup.filter _ (List.nodup_singleton _)) ?_
    intro k hk₁ hk₂
    obtain ⟨hin, hslot⟩ := List.mem_filter.1 hk₁
    obtain rfl : k = kind := by simpa using (List.mem_filter.1 hk₂).1
    exact hnew hslot hin
  · rcases hmem hg with hg | rfl
    · exact h.pegin gi hg
    · exact hf.2.1
  · rcases hmem hg with hg | rfl
    · exact h.payout gi ci hg
    · exact ⟨hf.2.1, hf.2.2.1⟩
  · rw [prepeginCount_snoc_not hx']
    exact h.prepegins
  · rw [hk, List.countP_append, List.countP_singleton]
    split_ifs with hn
    · cases kind with
      | nopayout ci => exact (Nat.succ_le_succ hsp.nopayouts).trans hf.2
      | pegin | payout | standalone => cases hn
    · exact h.nopayouts

/-- Requests that release and accept nothing. -/
theorem kinds_snoc_of_nil (hx : x.released = []) : kinds (ls ++ [x]) = kinds ls := by
  rw [kinds_snoc, hx, List.map_nil, List.append_nil]

theorem Spent.nothing (h : Spent ls d) (hx : x.released = []) (hx' : ¬x.AcceptsPrepegin) :
    Spent (ls ++ [x]) d := by
  obtain ⟨h1, h2, h3, h4, h5, h6⟩ := h
  rw [← prepeginCount_snoc_not hx'] at h3
  rw [← kinds_snoc_of_nil hx] at h1 h2 h4 h5 h6
  exact ⟨h1, h2, h3, h4, h5, h6⟩

theorem Capped.nothing (h : Capped it ls) (hx : x.released = []) (hp : prepeginCount (ls ++ [x]) ≤ 1) :
    Capped it (ls ++ [x]) := by
  obtain ⟨h1, h2, h3, -, h5⟩ := h
  rw [← kinds_snoc_of_nil hx] at h1 h2 h3 h5
  exact ⟨h1, h2, h3, hp, h5⟩

/-- A Pre-PegIn that is accepted is spent. -/
theorem Spent.prepegin (h : Spent ls d) (hx : x.released = []) (hx' : x.AcceptsPrepegin) :
    Spent (ls ++ [x]) (countPrepegin d) := by
  obtain ⟨h1, h2, h3, h4, h5, h6⟩ := h
  have h3' := Nat.succ_le_succ h3
  rw [Nat.succ_eq_add_one, ← prepeginCount_snoc hx'] at h3'
  rw [← kinds_snoc_of_nil hx] at h1 h2 h4 h5 h6
  exact ⟨h1, h2, h3', h4, h5, h6⟩

/-! ## Sessions -/

/-- A request on a loaded session. -/
def LiveStep (E : Env) (d : Device) (x : Exchange) (d' : Device) : Prop :=
  d.ctx.state = .intentLoaded ∧ Step E d x d'

/-- One request keeps what was released within the caps, and spent while the session
    goes on. -/
theorem LiveEnd.step (h : LiveEnd d x d') (hc : CountersOk d.ctx d.intent)
    (hs : ScalarsOk E.network d.intent) (hsp : Spent ls d) (hcap : Capped d.intent ls) :
    Capped d.intent (ls ++ [x]) ∧ (d'.ctx.state = .intentLoaded →
      d'.intent = d.intent ∧ Spent (ls ++ [x]) d') := by
  cases h with
  | nothing hx hx' hd =>
    refine ⟨hcap.nothing hx ?_, fun hl => ⟨(hd hl).2, (hsp.nothing hx hx').same (hd hl)⟩⟩
    rw [prepeginCount_snoc_not hx']
    exact hcap.prepegins
  | prepegin hx hx' h0 hd =>
    refine ⟨hcap.nothing hx ?_, fun hl => ⟨(hd hl).2, (hsp.prepegin hx hx').same (hd hl)⟩⟩
    rw [prepeginCount_snoc hx']
    have := hsp.prepegins
    omega
  | @signed kind req hx hx' hf hd =>
    refine ⟨hcap.sign hsp hf hx hx', fun hl => ⟨(hd hl).2.trans ?_, ?_⟩⟩
    · cases kind <;> rfl
    · exact (hsp.count hc hs hf hx hx').same (hd hl)

/-- What a cap or a spent slot does to a request. -/
structure StopsAt (E : Env) (d : Device) (x : Exchange) (d' : Device) : Prop where
  /-- A signature needs a free slot. -/
  free : ∀ kind req, (kind, req) ∈ x.released → kind.Free d
  prepegin : x.AcceptsPrepegin → d.ctx.prePeginSigned = 0
  /-- A request that comes to a check whose slot is consumed ends the session there. -/
  consumed : ∀ c, x.ComesTo E d c → c.Consumed d.session →
    x.result = some (.error (.wipe .capExceeded)) ∧ x.released = [] ∧ ¬x.AcceptsPrepegin ∧
      d'.view = .zero
  /-- A request that ends in a wipe has released nothing. -/
  wiped : ∀ sw, x.result = some (.error (.wipe sw)) → x.released = [] ∧ d'.view = .zero

theorem SignEnd.cleared {st : SignPsbtState} {r : Option (Except Stop Unit)} {qs : List DevAsk}
    {sw : Sw} (h : SignEnd E st d (marks qs) r d') (hr : r = some (.error (.wipe sw))) :
    (marks qs).filterMap Mark.sig = [] ∧ d'.view = .zero := by
  generalize marks qs = mk at h
  cases h with
  | kept _ hne => exact absurd hr (hne sw)
  | prepegin _ _ he => cases he _ hr
  | signed _ _ _ he => cases (he _ hr).2
  | wiped hu =>
    cases hr
    rcases hu with (rfl | ⟨rfl, -⟩) | ⟨-, _, _, -, -, he⟩
    · exact ⟨rfl, rfl⟩
    · exact ⟨rfl, rfl⟩
    · cases he
  | restarted => cases hr

theorem DeriveEnd.reject {p1 p2 : UInt8} {data : Bytes} {r : Except Stop Bytes} {e : Stop}
    (h : DeriveEnd E d p1 p2 data r d') (hr : r = .error e) : ∃ sw, e = .reject sw := by
  have hfin : ∀ {d₁}, FinalizeEnd E d₁ r d' → ∃ sw, e = .reject sw := by
    intro d₁ hf
    cases hf with
    | kept | wiped => exact ⟨_, (Except.error.inj hr).symm⟩
    | opened => cases hr
  cases h with
  | refused | malformed | dropped => exact ⟨_, (Except.error.inj hr).symm⟩
  | begun | fed => cases hr
  | atOnce _ _ _ hf => exact hfin hf
  | last _ _ _ hf => exact hfin hf

theorem Step.stops {log : Log} (hx : Step E d x d') (hs : SessionOk E log d)
    (hl : d.ctx.state = .intentLoaded) : StopsAt E d x d' := by
  have h := hx.toEnd
  refine ⟨fun kind req hin => ?_, fun hx => ?_, fun c hcome hc => ?_, fun sw hres => ?_⟩
  · cases h.live hs hl with
    | nothing hx => rw [hx] at hin; cases hin
    | prepegin hx => rw [hx] at hin; cases hin
    | signed hx _ hf =>
      rw [hx] at hin
      obtain ⟨rfl, -⟩ := Prod.mk.inj (List.mem_singleton.1 hin)
      exact hf
  · cases h.live hs hl with
    | nothing _ hx' => exact absurd hx hx'
    | prepegin _ _ h0 => exact h0
    | signed _ hx' => exact absurd hx hx'
  · have hstream := hs.not_streaming (by rw [hl]; decide)
    obtain ⟨hres, hm, hview⟩ := hcome.stops hx hstream hl hc
    obtain ⟨hrel, hacc⟩ := Exchange.nothing_of_unmarked hm
    exact ⟨hres, hrel, hacc, hview⟩
  · cases h with
    | @derive _ _ _ _ _ _ hend =>
      cases Option.some.inj hres
      obtain ⟨_, he⟩ := hend.reject rfl
      cases he
    | @approve _ _ _ _ r _ hend =>
      rcases r with e | u
      · cases Option.some.inj hres
        cases hend
      · cases hres
    | getState hout => exact absurd (Option.some.inj hres) (hout.2 sw)
    | @sign _ st r _ hreq hend hout =>
      rw [x.released_eq]
      rw [hout] at hres
      rcases r with _ | e | u
      · cases hres
      · cases hres
        exact hend.cleared rfl
      · cases hres

/-- What holds of a session over the intent `it` after the requests `ls`. -/
structure CapsSpec (E : Env) (it : VaultIntent) (ls : List Exchange) (d : Device) : Prop where
  /-- The caps, also once the session has ended. -/
  capped : Capped it ls
  live : d.ctx.state = .intentLoaded →
    d.intent = it ∧ CountersOk d.ctx it ∧ Spent ls d ∧ ∀ x d', Step E d x d' → StopsAt E d x d'
  /-- The slots of the payout mask are distinct and inside it. -/
  slots : ∀ gi < it.vaultCount, ∀ ci ≤ it.keeperCount + 1,
    payoutSlot it gi ci < 8 * payoutMaskLen ∧ ∀ gi' < it.vaultCount, ∀ ci' ≤ it.keeperCount + 1,
      payoutSlot it gi ci = payoutSlot it gi' ci' → gi = gi' ∧ ci = ci'

theorem payoutSlot_inj {gi ci gi' ci' : ℕ} (hc : ci ≤ it.keeperCount + 1)
    (hc' : ci' ≤ it.keeperCount + 1) (h : payoutSlot it gi ci = payoutSlot it gi' ci') :
    gi = gi' ∧ ci = ci' := by
  have hdiv : ∀ g c, c ≤ it.keeperCount + 1 → payoutSlot it g c / (it.keeperCount + 2) = g ∧
      payoutSlot it g c % (it.keeperCount + 2) = c := fun g c hc => by
    rw [payoutSlot, Nat.mul_comm g, Nat.mul_add_div (by omega), Nat.mul_add_mod,
      Nat.div_eq_of_lt (by omega), Nat.mod_eq_of_lt (by omega)]
    exact ⟨rfl, rfl⟩
  obtain ⟨h1, h2⟩ := hdiv gi ci hc
  obtain ⟨h1', h2'⟩ := hdiv gi' ci' hc'
  rw [h] at h1 h2
  exact ⟨h1.symm.trans h1', h2.symm.trans h2'⟩

variable {d₀ : Device} {ls₀ : List Exchange}

/-- From any loaded state of any run, in particular from the approval of an intent, no
    sequence of requests on the session exceeds a cap. -/
theorem Reach.caps (h : Reach E ls₀ d₀) (h₀ : d₀.ctx.state = .intentLoaded)
    (hr : Run (LiveStep E) d₀ ls d) : CapsSpec E d₀.intent ls d := by
  have hinv : (∃ ls', Reach E ls' d) ∧ Capped d₀.intent ls ∧
      (d.ctx.state = .intentLoaded → d.intent = d₀.intent ∧ Spent ls d) := by
    refine Run.hist (P := fun ls d => (∃ ls', Reach E ls' d) ∧ Capped d₀.intent ls ∧
      (d.ctx.state = .intentLoaded → d.intent = d₀.intent ∧ Spent ls d))
      ⟨⟨ls₀, h⟩, .nil _, fun _ => ⟨rfl, .nil _⟩⟩ ?_ hr
    rintro ls d x d' - ⟨⟨ls', hd⟩, hcap, hspent⟩ ⟨hl, hx⟩
    obtain ⟨hi, hsp⟩ := hspent hl
    have hok := (hd.session.loaded hl)
    rw [← hi] at hcap ⊢
    obtain ⟨hcap', hsp'⟩ := (hx.toEnd.live hd.session hl).step hok.counters hok.intent.scalars hsp hcap
    exact ⟨⟨_, hd.snoc hx⟩, hcap', hsp'⟩
  obtain ⟨⟨ls', hd⟩, hcap, hspent⟩ := hinv
  refine ⟨hcap, fun hl => ?_, fun gi hg ci hc => ?_⟩
  · obtain ⟨hi, hsp⟩ := hspent hl
    refine ⟨hi, ?_, hsp, fun x d' hx => hx.stops hd.session hl⟩
    rw [← hi]
    exact (hd.session.loaded hl).counters
  · refine ⟨payoutSlot_lt (h.session.loaded h₀).intent.scalars hg hc, ?_⟩
    exact fun gi' _ ci' hc' => payoutSlot_inj hc hc'

/-- The PegIn of a loaded intent, signed once; asked for again, it comes to its dedup
    check. -/
theorem caps_signet : ∃ x d y d', kinds [x] = [.pegin 0] ∧
    CapsSpec Signet.env (Signet.loaded Signet.intent).intent [x] d ∧
    d.ctx.state = .intentLoaded ∧ Step Signet.env d y d' ∧
    y.ComesTo Signet.env d (.peginDedup 0) ∧ (CapCheck.peginDedup 0).Consumed d.session := by
  obtain ⟨x, d, hx⟩ : ∃ x d, (x, d) =
      answer Signet.env Signet.signPegin.1 Signet.signPegin.2 (Signet.loaded Signet.intent) :=
    ⟨_, _, rfl⟩
  have hstep : Step Signet.env (Signet.loaded Signet.intent) x d := by
    have hans := Step.answer (E := Signet.env) Signet.signPegin.1 Signet.signPegin.2
      (Signet.loaded Signet.intent)
    rwa [← hx] at hans
  have hd : kinds [x] = [.pegin 0] ∧ d.ctx.state = .intentLoaded ∧
      d.streaming.streamingInProgress = false ∧ bit d.ctx.peginGroupMask 0 = true ∧
      ((peginToSlot Signet.env Signet.peginState d.session).eval Signet.pegin.serve
        d.volatile).1 = .ok 0 := by
    rw [(Prod.mk.inj hx).1, (Prod.mk.inj hx).2, Signet.loaded_intent]
    decide +kernel
  obtain ⟨hk, hl, hs, hbit, hslot⟩ := hd
  have hcome : ComesTo Signet.env Signet.peginState d.session d.volatile _ _ (.peginDedup 0) :=
    .peginDedup (by decide) rfl rfl rfl (path_of_eval hslot)
  obtain ⟨y, d', hy, hycome⟩ := hcome.request hs hl hbit
  exact ⟨x, d, y, d', hk, Reach.caps (Signet.reach_loaded Signet.intent) Signet.loaded_state
    (.snoc .nil ⟨Signet.loaded_state, hstep⟩), hl, hy, hycome, hbit⟩

end BabylonVault
