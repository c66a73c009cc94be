/-
  Loads that are cut into APDUs in different ways.

  * `Reviews`: how a handler ends under given answers, and the review screens it shows.
  * `Loads`: the records of a load carried by APDUs, with other requests in between.
  * `Loads.comes`: what comes of a load is a function of its session and its records; so
    it does not matter how they were cut (`Reach.batching`).
-/
import BabylonVault.Keys

namespace BabylonVault
open Bytes Prog

variable {E : Env} {ans : Answers} {d d' d₁ : Device}

/-! ## Review screens -/

/-- The session that a review screen shows. -/
def DevAsk.review : DevAsk → Option Session
  | .read (.show (.vaultIntent s)) => some s
  | _ => none

/-- The review screens of some requests; only APPROVE_VAULT_INTENT has one. -/
def reviews (xs : List Exchange) : List Session := xs.flatMap fun x =>
  match x.request with
  | .approve .. => x.asked.filterMap DevAsk.review
  | _ => []

/-- With these answers a program shows the review screens `l`, and `Q` holds at its end. -/
def Reviews {α : Type} (ans : Answers) (m : M α) (d : Device) (l : List Session)
    (Q : Except Stop α → Device → Prop) : Prop :=
  (m.asked ans d).filterMap DevAsk.review = l ∧ Q (m.eval ans d).1 (m.eval ans d).2

namespace Reviews
variable {α β : Type} {m : M α} {f : α → M β} {l l' : List Session}
  {Q : Except Stop α → Device → Prop} {R : Except Stop β → Device → Prop}

theorem ret {r : Except Stop α} {t : Device} (h : m d = .ret (r, t)) (hQ : Q r t) :
    Reviews ans m d [] Q := by
  rw [Reviews, asked, eval, h]
  exact ⟨rfl, hQ⟩

theorem mono (h : Reviews ans m d l Q) {Q' : Except Stop α → Device → Prop}
    (hQ : ∀ r d', Q r d' → Q' r d') : Reviews ans m d l Q' :=
  ⟨h.1, hQ _ _ h.2⟩

theorem ask {q : DevAsk} {Q : Except Stop (devIface.Ans q) → Device → Prop} (h : Q (.ok (ans q)) d) :
    Reviews ans (askM q) d q.review.toList Q := by
  refine ⟨?_, h⟩
  show List.filterMap _ [q] = _
  rcases h : q.review <;> simp [h]

/-- `f` follows where `m` ends well. -/
theorem bind (h : Reviews ans m d l (ends (fun a d₁ => Reviews ans (f a) d₁ l' R)
      fun e d₁ => l' = [] ∧ R (.error e) d₁)) : Reviews ans (m >>= f) d (l ++ l') R := by
  obtain ⟨hq, he⟩ := h
  have heval : (m >>= f).eval ans d = (andThen f (m.eval ans d)).eval ans := Course.eval_bind ..
  rw [Reviews, asked_bind, heval, List.filterMap_append, hq]
  revert he
  rcases m.eval ans d with ⟨e | a, d₁⟩
  · rintro ⟨rfl, hR⟩
    exact ⟨rfl, hR⟩
  · rintro ⟨hq', hR⟩
    exact ⟨congrArg (l ++ ·) hq', hR⟩

/-- What comes first shows nothing. -/
theorem next (h : Reviews ans m d [] (ends (fun a d₁ => Reviews ans (f a) d₁ l R)
      fun e d₁ => l = [] ∧ R (.error e) d₁)) : Reviews ans (m >>= f) d l R :=
  bind h

theorem get_bind {f : Device → M β} (h : Reviews ans (f d) d l R) :
    Reviews ans (Prog.get >>= f) d l R := h

theorem modify_bind {g : Device → Device} {f : Unit → M β} (h : Reviews ans (f ()) (g d) l R) :
    Reviews ans (Prog.modify g >>= f) d l R := h

theorem requireM_bind {c : Prop} [Decidable c] {sw : Sw} {f : Unit → M β} (hc : c)
    (h : Reviews ans (f ()) d l R) : Reviews ans (requireM c sw >>= f) d l R := by
  refine next (.ret (r := .ok ()) (t := d) ?_ h)
  rw [requireM, if_pos hc]
  rfl

theorem requireM_fail {c : Prop} [Decidable c] {sw : Sw} {f : Unit → M β} (hc : ¬c)
    (h : R (.error (.reject sw)) (vaultContextInvalidate d)) :
    Reviews ans (requireM c sw >>= f) d [] R := by
  refine next (.ret (r := .error (.reject sw)) ?_ ⟨rfl, h⟩)
  rw [requireM, if_neg hc]
  exact wipeM_run

/-- A call of the SDK that does not fail. -/
theorem callM_bind {sw : Sw} {f : Unit → M β} (hf : ans .fault = false)
    (h : Reviews ans (f ()) d l R) : Reviews ans (callM sw >>= f) d l R := by
  refine next (next (ask (q := .fault) ?_))
  refine .ret (r := .ok ()) (t := d) ?_ h
  rw [requireM, hf]
  rfl

end Reviews

/-! ## The handlers -/

variable {it : VaultIntent} {data : Bytes} {gi n : ℕ} {l : List Session}
  {Q : Except Stop Unit → Device → Prop}

theorem absorbIntentApdu_reviews (hf : ans .fault = false) (h : Q (.ok ()) (d.absorb data)) :
    Reviews ans (absorbIntentApdu data) d [] Q := by
  unfold absorbIntentApdu
  split_ifs with hd
  · rw [hd, absorb_nil] at h
    exact .ret rfl h
  · exact .callM_bind hf (.ret rfl h)

/-- A P1=0x00 starts a load, when it is accepted. -/
theorem handleScalarPayload_reviews (hf : ans .fault = false) :
    Reviews ans (handleScalarPayload E data) d [] fun r d' => r = .ok () →
      d.ctx.state = .hashDerived ∧ ∃ it, vaultTlvParse E.network data .zero = .ok it ∧
        d' = scalarsDevice d it data := by
  refine .get_bind ?_
  split_ifs with hs
  · exact .ret rfl (nomatch ·)
  · refine .modify_bind (.next (.ret (r := .ok ()) rfl (.get_bind ?_)))
    split
    · exact .ret rfl (nomatch ·)
    next it ht =>
      refine .modify_bind (.modify_bind (.bind (absorbIntentApdu_reviews hf (.ret rfl ?_))))
      exact fun _ => ⟨not_not.1 hs, it, ht, rfl⟩

/-- A P1=0x01 stores its groups, or wipes. -/
theorem handleGroupPayload_reviews (hf : ans .fault = false) (hs : d.approve.scalarsLoaded = true)
    (h : match storeGroups E data.length data d.intent d.tr.vaultGroupIndex with
      | some p => Q (.ok ()) ((d.setGroups p.1 p.2).absorb data)
      | none => Q (.error (.reject .incorrectData)) (vaultContextInvalidate d)) :
    Reviews ans (handleGroupPayload E data) d [] Q := by
  refine .get_bind ?_
  rw [if_neg (by rw [hs]; exact Bool.noConfusion)]
  rcases hg : storeGroups E data.length data d.intent d.tr.vaultGroupIndex with _ | ⟨it, gi⟩ <;>
    rw [hg] at h
  · refine .next (.ret (r := .error (.reject .incorrectData)) ?_ ⟨rfl, h⟩)
    rw [groupLoop_run, hg]
    rfl
  · refine .next (.ret (r := .ok ()) (t := d.setGroups it gi) ?_
      (absorbIntentApdu_reviews hf h))
    rw [groupLoop_run, hg]
    rfl

/-- A P1=0x02 stores its keys, or wipes; after the last key the load is finished. -/
theorem handleKeyBatch_reviews (hf : ans .fault = false) (hs : d.approve.scalarsLoaded = true)
    (hg : d.tr.vaultGroupIndex = d.intent.vaultCount) (hst : d.ctx.state = .hashDerived)
    (h : match storeKeys E data.length data d.intent d.approve.keysReceived with
      | some p => Reviews ans (if p.2 < p.1.keeperCount + p.1.challengerCount then pure ()
          else finishIntent E) ((d.setKeys p.1 p.2).absorb data) l Q
      | none => l = [] ∧ Q (.error (.reject .incorrectData)) (vaultContextInvalidate d)) :
    Reviews ans (handleKeyBatch E data) d l Q := by
  refine .get_bind ?_
  rw [if_neg (by rw [hs]; exact Bool.noConfusion)]
  refine .requireM_bind hg (.requireM_bind hst ?_)
  rcases hk : storeKeys E data.length data d.intent d.approve.keysReceived with _ | ⟨it, n⟩ <;>
    rw [hk] at h
  · refine .next (.ret (r := .error (.reject .incorrectData)) ?_ h)
    rw [keyLoop_run, hk]
    rfl
  · refine .next (.ret (r := .ok ()) (t := d.setKeys it n) ?_ ?_)
    · rw [keyLoop_run, hk]
      rfl
    · exact .next (absorbIntentApdu_reviews hf (.get_bind h))

/-- The hashlocks from group `k` to group `m`. -/
theorem deriveHashlocks_reviews {v : List.Vector Bytes32 maxVaults} (hf : ans .fault = false) :
    ∀ {n k m : ℕ}, k + n = m → Q (.ok ()) (d.setHashlocks (hashlocks E d.ctx.root d.intent m v)) →
      Reviews ans (Prog.loop (deriveHashlock E) k n ())
        (d.setHashlocks (hashlocks E d.ctx.root d.intent k v)) [] Q
  | 0, _, _, rfl, h => .ret rfl h
  | n + 1, k, m, hm, h => by
    have hnext : k + 1 + n = m := by omega
    exact .next (.callM_bind hf (.ret rfl (deriveHashlocks_reviews hf hnext h)))

/-- The session that the review screen shows, once all records are there. -/
def reviewed (E : Env) (ctx : VaultContext) (it : VaultIntent) (bytes : Bytes) : Option Session :=
  if ctx.derivationPath = it.depositorPath.toList then
    match E.pubkeyAt it.depositorPath.toList with
    | none => none
    | some pk =>
      if vaultCheckDepositorUniqueness it (xonly pk) = true ∧ ctx.root ≠ Buf.zero 32 then
        some ⟨{ ctx with
            htlcHashlock := hashlocks E ctx.root { it with depositorPk := xonly pk } it.vaultCount
              ctx.htlcHashlock
            authAnchorHash := vaultDeriveAuthAnchorCommitment E ctx.root
            root := Buf.zero 32
            intentFp := vaultFingerprint E bytes }, { it with depositorPk := xonly pk }⟩
      else none
  else none

/-- The review screen, and what follows it. -/
theorem review_reviews (s : Session) : Reviews ans (do
    let approved : Bool ← askM (.read (.show (.vaultIntent s)))
    requireM (approved = true) .deny
    transitionM .hashDerived .intentLoaded) d [s] fun _ _ => True := by
  refine .bind (l := [s]) (.ask ?_)
  show Reviews ans (requireM ((ans (.read (.show (.vaultIntent s))) : Bool) = true) .deny >>= _) _ _ _
  by_cases ha : (ans (.read (.show (.vaultIntent s))) : Bool) = true
  · refine .requireM_bind ha (.get_bind ?_)
    rcases vaultContextTransition .hashDerived .intentLoaded d with _ | d'
    · exact .ret wipeM_run trivial
    · exact .ret rfl trivial
  · exact .requireM_fail ha trivial

/-- The end of a load: it comes to its review screen, or wipes. -/
theorem finishIntent_reviews (hf : ans .fault = false) :
    Reviews ans (finishIntent E) d (reviewed E d.ctx d.intent d.approve.intentHash).toList fun r d' =>
      reviewed E d.ctx d.intent d.approve.intentHash = none →
        (∃ sw, r = .error (.reject sw)) ∧ d' = vaultContextInvalidate d := by
  unfold reviewed
  by_cases hpath : d.ctx.derivationPath = d.intent.depositorPath.toList
  · rw [if_pos hpath]
    refine .get_bind (.requireM_bind hpath (.callM_bind hf ?_))
    rcases hpk : E.pubkeyAt d.intent.depositorPath.toList with _ | pk
    · exact .ret wipeM_run fun _ => ⟨⟨_, rfl⟩, rfl⟩
    · dsimp only
      by_cases hu : vaultCheckDepositorUniqueness d.intent (xonly pk) = true
      · refine .requireM_bind hu (.modify_bind ?_)
        by_cases hr : d.ctx.root ≠ Buf.zero 32
        · rw [if_pos ⟨hu, hr⟩]
          refine .requireM_bind hr ?_
          refine .next (deriveHashlocks_reviews (d := d.setDepositor pk)
            (v := d.ctx.htlcHashlock) hf (Nat.zero_add d.intent.vaultCount) ?_)
          refine .callM_bind hf (.modify_bind (.modify_bind (.callM_bind hf ?_)))
          refine .modify_bind (.modify_bind (.get_bind ?_))
          refine .next (.next (.ask (q := .scratch) (.ret rfl ?_))) 
          exact (review_reviews _).mono fun _ _ _ h => (nomatch h)
        · rw [if_neg fun h => hr h.2]
          exact .requireM_fail hr fun _ => ⟨⟨_, rfl⟩, rfl⟩
      · rw [if_neg fun h => hu h.1]
        exact .requireM_fail hu fun _ => ⟨⟨_, rfl⟩, rfl⟩
  · rw [if_neg hpath]
    exact .get_bind (.requireM_fail hpath fun _ => ⟨⟨_, rfl⟩, rfl⟩)

/-! ## Requests -/

/-- What may come between the APDUs of a load. The base app marks no input as one of the
    wallet without a wallet policy. -/
def Noise : Request → Prop
  | .getState .. => True
  | .derive p1 _ _ => p1 = 1
  | .signPsbt st => ¬InternalUnpolicied st
  | .approve .. => False

/-- A request of which no call of the SDK fails. -/
def Sends (E : Env) (req : Request) (d : Device) (x : Exchange) (d' : Device) : Prop :=
  ∃ ans : Answers, ans .fault = false ∧ answer E req ans d = (x, d')

/-- An APPROVE_VAULT_INTENT that is rejected. -/
def Exchange.Refuses (x : Exchange) : Prop :=
  ∃ p1 p2 data e, x.request = .approve p1 p2 data ∧ x.result = some (.error e)

variable {x : Exchange} {xs : List Exchange} {p1 p2 : UInt8}

theorem reviews_cons : reviews (x :: xs) = reviews [x] ++ reviews xs := by
  simp [reviews]

theorem Noise.reviews (h : Noise x.request) : reviews [x] = [] := by
  unfold BabylonVault.reviews
  rcases hx : x.request with _ | _ | _ | _ <;> rw [hx] at h
  case approve => exact h.elim
  all_goals simp [hx]

/-- Before the intent is loaded they leave the session alone. -/
theorem Noise.same (h : Noise x.request) (hx : Step E d x d')
    (hs : d.streaming.streamingInProgress = false) (hst : d.ctx.state ≠ .intentLoaded) :
    SameSession d d' := by
  have hself : SameSession d d := ⟨rfl, rfl, rfl, fun _ => rfl, hs⟩
  cases hx.toEnd with
  | derive hend =>
    have hp : _ = (1 : UInt8) := h
    cases hend with
    | refused => exact hself
    | malformed h0 | begun h0 | atOnce h0 => exact absurd (h0.symm.trans hp) (by decide)
    | dropped _ h1 | fed _ h1 | last _ h1 => exact Bool.noConfusion (hs.symm.trans h1)
  | approve => exact h.elim
  | getState => exact hself
  | sign hreq hend =>
    rw [hreq] at h
    generalize marks _ = mk at hend
    cases hend with
    | kept _ _ hd => exact hd
    | prepegin _ ha => exact absurd ha.loaded hst
    | @signed kind _ _ _ _ hf hd =>
      cases kind with
      | standalone => exact hd
      | pegin | payout | nopayout => exact absurd hf.1 hst
    | wiped _ _ hl => exact absurd hl hst
    | restarted _ hr => exact absurd (hr hst) h

/-- What is known of the handler is known of the exchange. -/
theorem Sends.approve (h : Sends E (.approve p1 p2 data) d x d')
    (hr : ∀ ans, ans .fault = false →
      Reviews ans (handlerApproveVaultIntent E p1 p2 data) d l Q) :
    x.request = .approve p1 p2 data ∧ reviews [x] = l ∧
      ∃ r, x.result = some (r.map fun _ => []) ∧ Q r d' := by
  obtain ⟨ans, hf, hans⟩ := h
  obtain ⟨rfl, rfl⟩ := Prod.mk.inj hans
  have hh : Reviews ans (handle E (.approve p1 p2 data)) d (l ++ [])
      fun r d' => ∃ r₀ : Except Stop Unit, r = r₀.map (fun _ => []) ∧ Q r₀ d' := by
    refine .bind ((hr ans hf).mono fun r d' hQ => ?_)
    rcases r with e | u
    · exact ⟨rfl, .error e, rfl, hQ⟩
    · exact .ret rfl ⟨.ok u, rfl, hQ⟩
  obtain ⟨hq, r, hres, hQ⟩ := hh
  rw [List.append_nil] at hq
  refine ⟨rfl, ?_, r, congrArg some hres, hQ⟩
  have hasked := answer_asked (E := E) (.approve p1 p2 data) ans d
  refine (List.append_nil _).trans (Eq.trans (congrArg (List.filterMap DevAsk.review) hasked) hq)

/-! ## A load under way -/

variable {c : VaultContext} {bytes : Bytes} {gs gs' : List VaultGroup} {ks ks' : List KeyRecord}

/-- A load under way: the intent so far, its groups and keys counted, and its bytes. -/
structure Loading (c : VaultContext) (it : VaultIntent) (gi n : ℕ) (bytes : Bytes) (d : Device) :
    Prop where
  ctx : d.ctx = c
  intent : d.intent = it
  group : d.tr.vaultGroupIndex = gi
  approve : d.approve = ⟨true, n, bytes⟩
  stream : d.streaming.streamingInProgress = false

/-- A load that was rejected: the session is wiped. -/
structure Lost (d : Device) : Prop where
  ctx : d.ctx = .zero
  intent : d.intent = .zero
  approve : d.approve = .zero
  stream : d.streaming.streamingInProgress = false

theorem Loading.same (h : Loading c it gi n bytes d) (hd : SameSession d d')
    (hst : c.state ≠ .intentLoaded) : Loading c it gi n bytes d' :=
  ⟨hd.ctx.trans h.ctx, hd.intent.trans h.intent, (hd.group (h.ctx ▸ hst)).trans h.group,
    hd.approve.trans h.approve, hd.stream⟩

theorem Lost.same (h : Lost d) (hd : SameSession d d') : Lost d' :=
  ⟨hd.ctx.trans h.ctx, hd.intent.trans h.intent, hd.approve.trans h.approve, hd.stream⟩

theorem Lost.unloaded (h : Lost d) : d.ctx.state ≠ .intentLoaded := by
  rw [h.ctx]
  decide

theorem Lost.view (h : Lost d) : d.view = .zero :=
  view_eq_of_idle (d := Device.boot) h.ctx h.intent rfl

theorem Loading.lost (h : Loading c it gi n bytes d) : Lost (vaultContextInvalidate d) :=
  ⟨rfl, rfl, rfl, h.stream⟩

/-- Groups store all of their records or are rejected. -/
theorem Loading.groups (h : Loading c it gi n bytes d)
    (hx : Sends E (.approve 1 0 (gs.flatMap encodeGroup)) d x d') :
    reviews [x] = [] ∧ match groupRecords E gs (it, gi) with
      | some p => Loading c p.1 p.2 n (bytes ++ gs.flatMap encodeGroup) d'
      | none => x.Refuses ∧ Lost d' := by
  have hs : d.approve.scalarsLoaded = true := by rw [h.approve]
  have hstore : storeGroups E _ _ it gi = groupRecords E gs (it, gi) := storeGroups_records
  rcases hg : groupRecords E gs (it, gi) with _ | ⟨it', gi'⟩
  · obtain ⟨hreq, hrev, r, hres, hQ⟩ := hx.approve
      (Q := fun r d' => r = .error (.reject .incorrectData) ∧ d' = vaultContextInvalidate d)
      fun ans hf => handleGroupPayload_reviews hf hs (by
        rw [h.intent, h.group, hstore, hg]
        exact ⟨rfl, rfl⟩)
    obtain ⟨rfl, rfl⟩ := hQ
    exact ⟨hrev, ⟨_, _, _, _, hreq, hres⟩, h.lost⟩
  · obtain ⟨-, hrev, r, -, hQ⟩ := hx.approve
      (Q := fun _ d' => d' = (d.setGroups it' gi').absorb (gs.flatMap encodeGroup))
      fun ans hf => handleGroupPayload_reviews hf hs (by
        rw [h.intent, h.group, hstore, hg])
    subst hQ
    refine ⟨hrev, h.ctx, rfl, rfl, ?_, h.stream⟩
    exact congrArg (fun a : ApproveIntentState => (⟨a.1, a.2, a.3 ++ _⟩ : ApproveIntentState)) h.approve

/-- Keys store all of their records, and the rest of the handler follows, or are rejected. -/
theorem Loading.keyBatch (h : Loading c it it.vaultCount n bytes d) (hst : c.state = .hashDerived)
    (hx : Sends E (.approve 2 0 (ks.flatMap encodeKey)) d x d') :
    match keyRecords E ks (it, n) with
      | some p => ∀ l Q, (∀ d₁, Loading c p.1 p.1.vaultCount p.2 (bytes ++ ks.flatMap encodeKey) d₁ →
          ∀ ans, ans .fault = false → Reviews ans (if p.2 < p.1.keeperCount + p.1.challengerCount then
            pure () else finishIntent E) d₁ l Q) →
        x.request = .approve 2 0 (ks.flatMap encodeKey) ∧ reviews [x] = l ∧
          ∃ r, x.result = some (r.map fun _ => []) ∧ Q r d'
      | none => reviews [x] = [] ∧ x.Refuses ∧ Lost d' := by
  have hs : d.approve.scalarsLoaded = true := by rw [h.approve]
  have hd : d.ctx.state = .hashDerived := by rw [h.ctx, hst]
  have hv : d.tr.vaultGroupIndex = d.intent.vaultCount := by rw [h.group, h.intent]
  have hr : d.approve.keysReceived = n := by rw [h.approve]
  have hstore : storeKeys E _ _ it n = keyRecords E ks (it, n) := storeKeys_records
  rcases hk : keyRecords E ks (it, n) with _ | ⟨it', n'⟩
  · obtain ⟨hreq, hrev, r, hres, hQ⟩ := hx.approve (l := [])
      (Q := fun r d' => r = .error (.reject .incorrectData) ∧ d' = vaultContextInvalidate d)
      fun ans hf => handleKeyBatch_reviews hf hs hv hd (by
        rw [h.intent, hr, hstore, hk]
        exact ⟨rfl, rfl, rfl⟩)
    obtain ⟨rfl, rfl⟩ := hQ
    exact ⟨hrev, ⟨_, _, _, _, hreq, hres⟩, h.lost⟩
  · obtain ⟨-, v, w, rfl⟩ := keyRecords_frame hk
    intro l Q hQ
    refine hx.approve fun ans hf => handleKeyBatch_reviews hf hs hv hd ?_
    rw [h.intent, hr, hstore, hk]
    refine hQ ((d.setKeys _ n').absorb _) ⟨h.ctx, rfl, h.group, ?_, h.stream⟩ ans hf
    exact congrArg (fun a : ApproveIntentState => (⟨a.1, n', a.3 ++ _⟩ : ApproveIntentState)) h.approve

/-- The intent that the last keys complete, as the review screen shows it. -/
def completed (E : Env) (c : VaultContext) (ks : List KeyRecord) (it : VaultIntent) (n : ℕ)
    (bytes : Bytes) : Option Session :=
  (keyRecords E ks (it, n)).bind fun p => reviewed E c p.1 (bytes ++ ks.flatMap encodeKey)

theorem Loading.keys (h : Loading c it it.vaultCount n bytes d) (hst : c.state = .hashDerived)
    (hn : n + ks.length < it.keeperCount + it.challengerCount)
    (hx : Sends E (.approve 2 0 (ks.flatMap encodeKey)) d x d') :
    reviews [x] = [] ∧ match keyRecords E ks (it, n) with
      | some p => Loading c p.1 p.1.vaultCount p.2 (bytes ++ ks.flatMap encodeKey) d'
      | none => x.Refuses ∧ Lost d' := by
  have hbatch := h.keyBatch hst hx
  rcases hk : keyRecords E ks (it, n) with _ | ⟨it', n'⟩ <;> rw [hk] at hbatch
  · exact hbatch
  · obtain ⟨rfl, v, w, rfl⟩ := keyRecords_frame hk
    obtain ⟨-, hrev, r, -, hl⟩ := hbatch [] (fun _ d' => Loading c _ it.vaultCount _ _ d')
      fun d₁ hl ans hf => by
        rw [if_pos hn]
        exact .ret rfl hl
    exact ⟨hrev, hl⟩

/-- The last keys come to the review screen or are rejected. -/
theorem Loading.last (h : Loading c it it.vaultCount n bytes d) (hst : c.state = .hashDerived)
    (hn : n + ks.length = it.keeperCount + it.challengerCount)
    (hx : Sends E (.approve 2 0 (ks.flatMap encodeKey)) d x d') :
    reviews [x] = (completed E c ks it n bytes).toList ∧
      (completed E c ks it n bytes = none → x.Refuses ∧ Lost d') := by
  have hbatch := h.keyBatch hst hx
  unfold completed
  rcases hk : keyRecords E ks (it, n) with _ | ⟨it', n'⟩ <;> rw [hk] at hbatch
  · exact ⟨hbatch.1, fun _ => hbatch.2⟩
  · obtain ⟨rfl, v, w, rfl⟩ := keyRecords_frame hk
    generalize hit : { it with keeperPks := v, challengerPks := w } = it' at hbatch
    obtain ⟨hreq, hrev, r, hres, hQ⟩ := hbatch _ (fun r d' => reviewed E c it'
        (bytes ++ ks.flatMap encodeKey) = none → (∃ sw, r = .error (.reject sw)) ∧ Lost d')
      fun d₁ hl ans hf => by
        subst hit
        rw [if_neg hn.not_lt]
        have hfin := finishIntent_reviews (E := E) (d := d₁) hf
        rw [hl.ctx, hl.intent, hl.approve] at hfin
        refine hfin.mono fun r d' h hnone => ?_
        obtain ⟨hr, rfl⟩ := h hnone
        exact ⟨hr, hl.lost⟩
    subst hit
    refine ⟨hrev, fun hnone => ?_⟩
    obtain ⟨⟨sw, rfl⟩, hlost⟩ := hQ hnone
    exact ⟨⟨_, _, _, _, hreq, hres⟩, hlost⟩

/-! ## The APDUs of a load -/

/-- `Carries E gs ks d xs d'`: after its P1=0x00 a load sends its groups and then its keys,
    any number of records at a time, with other requests in between, up to the last key. -/
inductive Carries (E : Env) :
    List VaultGroup → List KeyRecord → Device → List Exchange → Device → Prop
  | last {ks d x d' : _} : ks ≠ [] → Sends E (.approve 2 0 (ks.flatMap encodeKey)) d x d' →
      Carries E [] ks d [x] d'
  | noise {gs ks d x d₁ xs d' : _} : Noise x.request → Step E d x d₁ → Carries E gs ks d₁ xs d' →
      Carries E gs ks d (x :: xs) d'
  | groups {gs gs' ks d x d₁ xs d' : _} : Sends E (.approve 1 0 (gs.flatMap encodeGroup)) d x d₁ →
      Carries E gs' ks d₁ xs d' → Carries E (gs ++ gs') ks d (x :: xs) d'
  | keys {ks ks' d x d₁ xs d' : _} : Sends E (.approve 2 0 (ks.flatMap encodeKey)) d x d₁ →
      Carries E [] ks' d₁ xs d' → Carries E [] (ks ++ ks') d (x :: xs) d'

theorem idle_of_view (h : d.view = .zero) : d.ctx.state = .idle :=
  congrArg (fun v : View => v.ctx.state) h

/-- A load that comes to nothing: no review, a rejection, and the session wiped. -/
structure Fails (xs : List Exchange) (d' : Device) : Prop where
  unseen : reviews xs = []
  rejected : ∃ x ∈ xs, x.Refuses
  wiped : d'.view = .zero

/-- What comes of a load: its review screen, or its failure. -/
def Comes : Option Session → List Exchange → Device → Prop
  | some s, xs, _ => reviews xs = [s]
  | none, xs, d' => Fails xs d'

theorem Comes.cons {o : Option Session} (h : Comes o xs d') (hx : reviews [x] = []) :
    Comes o (x :: xs) d' := by
  rcases o with _ | s
  · obtain ⟨hu, ⟨y, hy, hr⟩, hw⟩ := h
    refine ⟨?_, ⟨y, List.mem_cons_of_mem x hy, hr⟩, hw⟩
    rw [reviews_cons, hx, hu]
    rfl
  · show reviews _ = _
    rw [reviews_cons, hx]
    exact h

/-- The last request of a load that has failed. -/
theorem Comes.failed (hx : reviews [x] = []) (hr : x.Refuses) (hu : reviews xs = [])
    (hl : Lost d') : Comes none (x :: xs) d' := by
  refine ⟨?_, ⟨x, List.mem_cons_self, hr⟩, hl.view⟩
  rw [reviews_cons, hx, hu]
  rfl

theorem Carries.ne_nil (h : Carries E gs ks d xs d') : ks ≠ [] := by
  induction h with
  | last hne => exact hne
  | noise _ _ _ ih => exact ih
  | groups _ _ ih => exact ih
  | keys _ _ ih => exact fun hnil => ih (List.append_eq_nil_iff.1 hnil).2

/-- P1=0x01 and P1=0x02 are refused without a P1=0x00. -/
theorem Lost.refuses (h : Lost d) (hp : p1 = 1 ∨ p1 = 2)
    (hx : Sends E (.approve p1 0 data) d x d') : reviews [x] = [] ∧ Lost d' := by
  have hs : d.approve.scalarsLoaded = false := by
    rw [h.approve]
    rfl
  obtain ⟨sw, hrun⟩ : ∃ sw, handlerApproveVaultIntent E p1 0 data d = .ret (.error (.reject sw), d) :=
    approve_refused_run (.inr (.inr (.inl ⟨hp, hs⟩)))
  obtain ⟨-, hrev, r, -, hl⟩ := hx.approve (l := []) (Q := fun _ => Lost) fun _ _ => .ret hrun h
  exact ⟨hrev, hl⟩

/-- Once rejected, the rest of a load changes nothing. -/
theorem Carries.lost (h : Carries E gs ks d xs d') (hl : Lost d) : reviews xs = [] ∧ Lost d' := by
  induction h with
  | last _ hx => exact hl.refuses (.inr rfl) hx
  | noise hn hx _ ih =>
    obtain ⟨hrev, hl'⟩ := ih (hl.same (hn.same hx hl.stream hl.unloaded))
    rw [reviews_cons, hn.reviews, hrev]
    exact ⟨rfl, hl'⟩
  | groups hx _ ih =>
    obtain ⟨hrev, hl₁⟩ := hl.refuses (.inl rfl) hx
    obtain ⟨hrev', hl'⟩ := ih hl₁
    rw [reviews_cons, hrev, hrev']
    exact ⟨rfl, hl'⟩
  | keys hx _ ih =>
    obtain ⟨hrev, hl₁⟩ := hl.refuses (.inr rfl) hx
    obtain ⟨hrev', hl'⟩ := ih hl₁
    rw [reviews_cons, hrev, hrev']
    exact ⟨rfl, hl'⟩

/-- What the records of a load come to, whatever the APDUs. -/
def loadEnd (E : Env) (c : VaultContext) (gs : List VaultGroup) (ks : List KeyRecord)
    (it : VaultIntent) (gi n : ℕ) (bytes : Bytes) : Option Session :=
  (groupRecords E gs (it, gi)).bind fun p =>
    completed E c ks p.1 n (bytes ++ gs.flatMap encodeGroup)

theorem loadEnd_groups : loadEnd E c (gs ++ gs') ks it gi n bytes =
    (groupRecords E gs (it, gi)).bind fun p =>
      loadEnd E c gs' ks p.1 p.2 n (bytes ++ gs.flatMap encodeGroup) := by
  simp only [loadEnd, groupRecords_append, Option.bind_assoc, List.flatMap_append, List.append_assoc]

theorem loadEnd_keys : loadEnd E c [] (ks ++ ks') it gi n bytes =
    (keyRecords E ks (it, n)).bind fun p =>
      loadEnd E c [] ks' p.1 gi p.2 (bytes ++ ks.flatMap encodeKey) := by
  simp [loadEnd, completed, groupRecords, keyRecords_append, Option.bind_assoc]

/-- However a load is cut, its records say what comes of it. -/
theorem Carries.comes (h : Carries E gs ks d xs d') (hl : Loading c it gi n bytes d)
    (hst : c.state = .hashDerived) (hgs : gi + gs.length = it.vaultCount)
    (hks : n + ks.length = it.keeperCount + it.challengerCount) :
    Comes (loadEnd E c gs ks it gi n bytes) xs d' := by
  induction h generalizing it gi n bytes with
  | @last ks d x d' _ hx =>
    obtain rfl : gi = it.vaultCount := hgs
    have hend : loadEnd E c [] ks it it.vaultCount n bytes = completed E c ks it n bytes := by
      simp [loadEnd, groupRecords]
    rw [hend]
    obtain ⟨hrev, hfail⟩ := hl.last hst hks hx
    rcases hc : completed E c ks it n bytes with _ | s <;> rw [hc] at hrev
    · obtain ⟨hr, hl'⟩ := hfail hc
      exact .failed hrev hr rfl hl'
    · exact hrev
  | noise hn hx _ ih =>
    have hun : c.state ≠ .intentLoaded := by
      rw [hst]
      decide
    exact (ih (hl.same (hn.same hx hl.stream (hl.ctx ▸ hun)) hun) hgs hks).cons hn.reviews
  | @groups gs gs' ks d x d₁ xs d' hx hrest ih =>
    obtain ⟨hrev, hcase⟩ := hl.groups hx
    rw [loadEnd_groups]
    rcases hg : groupRecords E gs (it, gi) with _ | ⟨it', gi'⟩ <;> rw [hg] at hcase
    · obtain ⟨hrev', hl'⟩ := hrest.lost hcase.2
      exact .failed hrev hcase.1 hrev' hl'
    · obtain ⟨rfl, v, rfl⟩ := groupRecords_frame hg
      refine (ih hcase ?_ hks).cons hrev
      rw [← hgs, List.length_append, Nat.add_assoc]
  | @keys ks ks' d x d₁ xs d' hx hrest ih =>
    obtain rfl : gi = it.vaultCount := hgs
    have hpos := List.length_pos_iff.2 hrest.ne_nil
    rw [List.length_append] at hks
    obtain ⟨hrev, hcase⟩ := hl.keys hst (by omega) hx
    rw [loadEnd_keys]
    rcases hk : keyRecords E ks (it, n) with _ | ⟨it', n'⟩ <;> rw [hk] at hcase
    · obtain ⟨hrev', hl'⟩ := hrest.lost hcase.2
      exact .failed hrev hcase.1 hrev' hl'
    · obtain ⟨rfl, v, w, rfl⟩ := keyRecords_frame hk
      refine (ih hcase rfl ?_).cons hrev
      rw [← hks, Nat.add_assoc]

/-! ## Loads of one session -/

/-- A request that begins no derivation. -/
def InSession : Request → Prop
  | .derive p1 _ _ => p1 = 1
  | _ => True

/-- A load in the session of `d`: other requests first, loads among them that come to
    nothing; then a P1=0x00 that is accepted, and all records. -/
structure Loads (E : Env) (scal : Bytes) (gs : List VaultGroup) (ks : List KeyRecord) (d : Device)
    (xs : List Exchange) (d' : Device) : Prop where
  intro ::
  run : ∃ pre d₀ x d₁ ys, Run (Step E) d pre d₀ ∧ (∀ y ∈ pre, InSession y.request) ∧
    Sends E (.approve 0 0 scal) d₀ x d₁ ∧ x.Succeeds ∧ Carries E gs ks d₁ ys d' ∧ xs = x :: ys

/-- The context that a load starts from. -/
def loadCtx (d : Device) : VaultContext :=
  { VaultContext.zero with root := d.ctx.root, derivationPath := d.ctx.derivationPath,
                           appName := d.ctx.appName, contextFp := d.ctx.contextFp,
                           state := .hashDerived }

/-- In HASH_DERIVED a device is still in the session of `d`. -/
structure Within (d d' : Device) : Prop where
  stream : d'.streaming.streamingInProgress = false
  ctx : d'.ctx.state = .hashDerived → loadCtx d' = loadCtx d

theorem Within.left (h : d'.streaming.streamingInProgress = false)
    (hst : d'.ctx.state ≠ .hashDerived) : Within d d' :=
  ⟨h, fun hd => absurd hd hst⟩

theorem Within.of_ctx (h : Within d d₁) (hs : d'.streaming.streamingInProgress = false)
    (hc : d'.ctx = d₁.ctx) : Within d d' := by
  refine ⟨hs, fun hst => ?_⟩
  rw [← h.ctx (hc ▸ hst), loadCtx, hc]
  rfl

theorem Within.step (h : Within d d₁) (hn : InSession x.request) (hx : Step E d₁ x d') :
    Within d d' := by
  have hs := h.stream
  cases hx.toEnd with
  | derive hend =>
    have hp : _ = (1 : UInt8) := hn
    cases hend with
    | refused => exact h
    | malformed h0 | begun h0 | atOnce h0 => exact absurd (h0.symm.trans hp) (by decide)
    | dropped _ h1 | fed _ h1 | last _ h1 => exact Bool.noConfusion (hs.symm.trans h1)
  | approve hend =>
    cases hend with
    | refused => exact h
    | wiped => exact .left hs (nomatch ·)
    | scalars _ hst => exact ⟨hs, fun _ => h.ctx hst⟩
    | groups => exact h.of_ctx hs rfl
    | keys => exact h.of_ctx hs rfl
    | loaded => exact .left hs (nomatch ·)
  | getState => exact h
  | sign _ hend =>
    generalize marks _ = mk at hend
    cases hend with
    | kept _ _ hd => exact h.of_ctx hd.stream hd.ctx
    | prepegin _ ha _ hd =>
      have hst : (countPrepegin _).ctx.state = .intentLoaded :=
        (congrArg VaultContext.state hd.ctx).trans ha.loaded
      exact .left hd.stream (by rw [hst]; decide)
    | @signed kind _ _ d₂ _ hf hd =>
      have hst : (kind.count d₂).ctx.state = d₁.ctx.state := by rw [kind.count_state, hd.ctx]
      cases kind with
      | standalone => exact h.of_ctx hd.stream hd.ctx
      | pegin | payout | nopayout => exact .left hd.stream (by rw [hst, hf.1]; decide)
    | wiped _ hs' => exact .left hs' (nomatch ·)
    | restarted => exact .left rfl (nomatch ·)

variable {scal : Bytes} {es : List Exchange}

/-- An accepted P1=0x00 starts from its session and its payload only. -/
theorem Sends.scalars (h : Sends E (.approve 0 0 scal) d x d') (hok : x.Succeeds) :
    reviews [x] = [] ∧ d.ctx.state = .hashDerived ∧ ∃ it,
      vaultTlvParse E.network scal .zero = .ok it ∧ d' = scalarsDevice d it scal := by
  obtain ⟨-, hrev, r, hres, hQ⟩ := h.approve fun ans hf => handleScalarPayload_reviews hf
  obtain ⟨out, hout⟩ := hok
  rcases r with e | u
  · cases hres.symm.trans hout
  · exact ⟨hrev, hQ rfl⟩

/-- What comes of a load depends on its session and its records only. -/
theorem Loads.comes (h : Reach E es d) (hst : d.ctx.state = .hashDerived)
    (hl : Loads E scal gs ks d xs d') (hparse : vaultTlvParse E.network scal .zero = .ok it)
    (hgs : gs.length = it.vaultCount) (hks : ks.length = it.keeperCount + it.challengerCount) :
    Comes (loadEnd E (loadCtx d) gs ks it 0 0 scal) xs d' := by
  obtain ⟨pre, d₀, x, d₁, ys, hpre, hin, hx, hok, hys, rfl⟩ := hl.run
  have hstart : d.streaming.streamingInProgress = false := by
    by_contra hs
    have hidle := (h.session.stream (by simpa using hs)).1
    exact absurd (hidle.symm.trans hst) (by decide)
  have hwithin : Within d d₀ := by
    clear hx
    induction hpre with
    | nil => exact ⟨hstart, fun _ => rfl⟩
    | @snoc ls d₁ y d₂ _ hy ih =>
      have hlast := hin y (List.mem_append_right ls (List.mem_singleton_self y))
      exact (ih fun z hz => hin z (List.mem_append_left _ hz)).step hlast hy
  obtain ⟨hrev, hst₀, it', hparse', rfl⟩ := hx.scalars hok
  obtain rfl : it' = it := Except.ok.inj (hparse'.symm.trans hparse)
  have hload : Loading (loadCtx d) it' 0 0 scal (scalarsDevice d₀ it' scal) :=
    ⟨hwithin.ctx hst₀, rfl, rfl, rfl, hwithin.stream⟩
  refine (hys.comes hload rfl ?_ ?_).cons hrev
  · rw [hgs, Nat.zero_add]
  · rw [hks, Nat.zero_add]

/-- Loads of the same records agree, and the payloads of a load give its intent. -/
structure Batching (E : Env) (es : List Exchange) (d : Device) : Prop where
  /-- Two loads that differ in their APDUs only are shown alike, or both fail. -/
  agree : d.ctx.state = .hashDerived → ∀ scal gs ks it xs d₁ ys d₂,
    vaultTlvParse E.network scal .zero = .ok it → gs.length = it.vaultCount →
    ks.length = it.keeperCount + it.challengerCount →
    Loads E scal gs ks d xs d₁ → Loads E scal gs ks d ys d₂ →
    (∃ s, reviews xs = [s] ∧ reviews ys = [s]) ∨ Fails xs d₁ ∧ Fails ys d₂
  /-- The payloads of an intent are told apart by the intent. -/
  payloads : d.ctx.state = .intentLoaded → ∀ es' d', Reach E es' d' →
    d'.ctx.state = .intentLoaded → (Log.ofRun es).payloads = (Log.ofRun es').payloads →
    d.intent = d'.intent

theorem Reach.batching (h : Reach E es d) : Batching E es d := by
  refine ⟨fun hst scal gs ks it xs d₁ ys d₂ hparse hgs hks hxs hys => ?_,
    fun hst es' d' h' hst' hp => h.intent_of_payloads h' hst hst' hp⟩
  have hx := hxs.comes h hst hparse hgs hks
  have hy := hys.comes h hst hparse hgs hks
  rcases hs : loadEnd E (loadCtx d) gs ks it 0 0 scal with _ | s <;> rw [hs] at hx hy
  · exact .inr ⟨hx, hy⟩
  · exact .inl ⟨s, hx, hy⟩

/-! ## Two loads on signet -/

/-- The requests of a host that cuts the records of a load in some way. -/
inductive Cut : List VaultGroup → List KeyRecord → List (Request × Answers) → Prop
  | last (ks : List KeyRecord) {ans : _} : ks ≠ [] → ans .fault = false →
      Cut [] ks [(.approve 2 0 (ks.flatMap encodeKey), ans)]
  | noise {gs ks req ans rs : _} : Noise req → Cut gs ks rs → Cut gs ks ((req, ans) :: rs)
  | groups (gs : List VaultGroup) {gs' ks ans rs : _} : ans .fault = false → Cut gs' ks rs →
      Cut (gs ++ gs') ks ((.approve 1 0 (gs.flatMap encodeGroup), ans) :: rs)
  | keys (ks : List KeyRecord) {ks' ans rs : _} : ans .fault = false → Cut [] ks' rs →
      Cut [] (ks ++ ks') ((.approve 2 0 (ks.flatMap encodeKey), ans) :: rs)

variable {rs : List (Request × Answers)}

theorem Sends.answer {req : Request} (hf : ans .fault = false) :
    Sends E req d (answer E req ans d).1 (answer E req ans d).2 := ⟨ans, hf, rfl⟩

theorem Cut.carries (h : Cut gs ks rs) : Carries E gs ks d (play E rs d).1 (play E rs d).2 := by
  induction h generalizing d with
  | last ks hne hf => exact .last hne (.answer hf)
  | noise hn _ ih => exact .noise hn (.answer _ _ d) ih
  | groups gs hf _ ih => exact .groups (.answer hf) ih
  | keys ks hf _ ih => exact .keys (.answer hf) ih

theorem play_append : ∀ {rs rs' : List (Request × Answers)} {d : Device},
    (play E (rs ++ rs') d).2 = (play E rs' (play E rs d).2).2
  | [], _, _ => rfl
  | (_, _) :: rs, _, _ => @play_append rs _ _

/-- Every way to cut the records makes a load. -/
theorem Cut.loads (h : Cut gs ks rs) (hf : ans .fault = false)
    (hok : (BabylonVault.answer E (.approve 0 0 scal) ans d).1.Succeeds) :
    Loads E scal gs ks d (play E ((.approve 0 0 scal, ans) :: rs) d).1
      (play E ((.approve 0 0 scal, ans) :: rs) d).2 :=
  ⟨[], d, _, _, _, .nil, List.forall_mem_nil _, .answer hf, hok, h.carries, rfl⟩

namespace Signet

/-- The device once its session is open. -/
def derived : Device := (play env [(.derive 0 1 derivation, quiet)] Device.boot).2

/-- The scalars of `intent`, and its records. -/
def scalars : Bytes := intentScalars intent
def groups : List VaultGroup := [group 0 providerKey 100000, group 1 otherProviderKey 200000]
def keys : List KeyRecord :=
  [⟨UInt16.ofNat tagKeeperPk, .be 32 keeperKey⟩, ⟨UInt16.ofNat tagChallengerPk, .be 32 challengerKey⟩]

/-- Its records in as few APDUs as possible. -/
def fewApdus : List (Request × Answers) :=
  [(.approve 1 0 (groups.flatMap encodeGroup), quiet), (.approve 2 0 (keys.flatMap encodeKey), quiet)]

/-- Its records one by one, with other requests in between. -/
def manyApdus : List (Request × Answers) :=
  [(.approve 1 0 ((groups.take 1).flatMap encodeGroup), quiet), (.getState 0 0 [], quiet),
   (.approve 1 0 (([] : List VaultGroup).flatMap encodeGroup), quiet), (.derive 1 0 [0x00], quiet),
   (.approve 1 0 ((groups.drop 1).flatMap encodeGroup), quiet),
   (.approve 2 0 (([] : List KeyRecord).flatMap encodeKey), quiet),
   (.approve 2 0 ((keys.take 1).flatMap encodeKey), quiet), signPegin,
   (.approve 2 0 ((keys.drop 1).flatMap encodeKey), quiet)]

theorem cut_fewApdus : Cut groups keys fewApdus :=
  .groups groups rfl (.last keys (List.cons_ne_nil _ _) rfl)

theorem cut_manyApdus : Cut groups keys manyApdus := by
  refine .groups (groups.take 1) rfl (.noise trivial ?_)
  refine .groups [] rfl (.noise rfl ?_)
  refine .groups (groups.drop 1) rfl (.keys [] rfl ?_)
  refine .keys (keys.take 1) rfl (.noise (fun h => Bool.noConfusion h.2) ?_)
  exact .last (keys.drop 1) (List.cons_ne_nil _ _) rfl

/-- The first of the loads is the one that loads `intent`. -/
theorem loaded_fewApdus :
    (play env ((.approve 0 0 scalars, quiet) :: fewApdus) derived).2 = loaded intent := by
  have hg : groups.flatMap encodeGroup = intentGroups intent := by decide +kernel
  have hk : keys.flatMap encodeKey = intentKeys intent := by decide +kernel
  have hload : load intent =
      [(.derive 0 1 derivation, quiet)] ++ ((.approve 0 0 scalars, quiet) :: fewApdus) := by
    rw [fewApdus, hg, hk]
    rfl
  rw [loaded, hload, play_append, derived]

end Signet

theorem batching_signet : Batching Signet.env (play Signet.env [(.derive 0 1 Signet.derivation,
      Signet.quiet)] Device.boot).1 Signet.derived ∧
    ∃ s, reviews (play Signet.env ((.approve 0 0 Signet.scalars, Signet.quiet) :: Signet.fewApdus)
        Signet.derived).1 = [s] ∧
      reviews (play Signet.env ((.approve 0 0 Signet.scalars, Signet.quiet) :: Signet.manyApdus)
        Signet.derived).1 = [s] := by
  have hb : Batching Signet.env _ Signet.derived := Reach.batching (Run.play _ _)
  refine ⟨hb, ?_⟩
  have hst : Signet.derived.ctx.state = .hashDerived := by decide +kernel
  have hcounts : (match vaultTlvParse Signet.env.network Signet.scalars .zero with
      | .ok it => decide (2 = it.vaultCount ∧ 2 = it.keeperCount + it.challengerCount)
      | .error _ => false) = true := by decide +kernel
  have hok : (answer Signet.env (.approve 0 0 Signet.scalars) Signet.quiet
      Signet.derived).1.Succeeds := ⟨[], by decide +kernel⟩
  split at hcounts
  next it hparse =>
    obtain ⟨hgs, hks⟩ := of_decide_eq_true hcounts
    rcases hb.agree hst _ Signet.groups Signet.keys it _ _ _ _ hparse hgs hks
      (Signet.cut_fewApdus.loads rfl hok) (Signet.cut_manyApdus.loads rfl hok) with h | ⟨h, -⟩
    · exact h
    · have hw := h.wiped
      rw [Signet.loaded_fewApdus] at hw
      have hidle := idle_of_view hw
      exact absurd (hidle.symm.trans Signet.loaded_state) (by decide)
  next => cases hcounts

end BabylonVault
