/-
  What an APPROVE_VAULT_INTENT can do.

  * `storeGroups`, `storeKeys`: the loops as functions of the intent; a record
    that is not stored wipes the session (`groupLoop_run`, `keyLoop_run`).
  * `ApproveEnd`: every end of the handler (`approve_wp`).
-/
import BabylonVault.Approve

namespace BabylonVault
open Bytes Prog

variable (E : Env)

/-! ## The loops without the device -/

/-- Store the group at the front of a payload: the intent, and what is left. -/
def storeGroup (data : Bytes) (it : VaultIntent) (gi : ℕ) : Option (VaultIntent × Bytes) :=
  match vaultTlvParseGroup data (it.group gi) with
  | .error _ => none
  | .ok (grp, rest) =>
    if gi < it.vaultCount ∧ rest.length < data.length ∧ keyOk E grp.vaultProviderPk ∧
        ¬(gi > 0 ∧ grp.htlcVout ≤ (it.group (gi - 1)).htlcVout) then
      some ({ it with groups := it.groups.put gi grp }, rest)
    else none

/-- Store every group of a payload. -/
def storeGroups : ℕ → Bytes → VaultIntent → ℕ → Option (VaultIntent × ℕ)
  | _, [], it, gi => some (it, gi)
  | 0, _ :: _, _, _ => none
  | fuel + 1, b :: data, it, gi => do
    let (it, rest) ← storeGroup E (b :: data) it gi
    storeGroups fuel rest it (gi + 1)

/-- Store the key at the front of a payload. -/
def storeKey (data : Bytes) (it : VaultIntent) (n : ℕ) : Option (VaultIntent × Bytes) :=
  match data with
  | hi :: lo :: klen :: rest =>
    if klen.toNat = 32 ∧ 32 ≤ rest.length ∧ n < it.keeperCount + it.challengerCount ∧
        ofBE [hi, lo] = (if n < it.keeperCount then tagKeeperPk else tagChallengerPk) ∧
        keyOk E (Buf.ofBytes 32 rest) then
      (vaultValidateAndStoreKey it n (Buf.ofBytes 32 rest)).map fun it => (it, rest.drop 32)
    else none
  | _ => none

/-- Store every key of a payload. -/
def storeKeys : ℕ → Bytes → VaultIntent → ℕ → Option (VaultIntent × ℕ)
  | _, [], it, n => some (it, n)
  | 0, _ :: _, _, _ => none
  | fuel + 1, b :: data, it, n => do
    let (it, rest) ← storeKey E (b :: data) it n
    storeKeys fuel rest it (n + 1)

/-- The device with its intent and group counter replaced. -/
def Device.setGroups (it : VaultIntent) (gi : ℕ) (d : Device) : Device :=
  { d with intent := it, tr := { d.tr with vaultGroupIndex := gi } }

/-- The device with its intent and key counter replaced. -/
def Device.setKeys (it : VaultIntent) (n : ℕ) (d : Device) : Device :=
  { d with intent := it, approve := { d.approve with keysReceived := n } }

@[simp] theorem invalidate_setGroups (it : VaultIntent) (gi : ℕ) (d : Device) :
    vaultContextInvalidate (d.setGroups it gi) = vaultContextInvalidate d := rfl

@[simp] theorem invalidate_setKeys (it : VaultIntent) (n : ℕ) (d : Device) :
    vaultContextInvalidate (d.setKeys it n) = vaultContextInvalidate d := rfl

/-! ## The ends of the handler -/

/-- The rolling hash has absorbed a payload. -/
def Device.absorb (data : Bytes) (d : Device) : Device :=
  { d with approve := { d.approve with intentHash := d.approve.intentHash ++ data } }

/-- After an accepted P1=0x00. -/
def scalarsDevice (d : Device) (it : VaultIntent) (data : Bytes) : Device :=
  let w := restartLoad d
  { w with ctx := { w.ctx with state := .hashDerived }, intent := it,
           approve := ⟨true, 0, data⟩ }

/-- The hashlocks of the first `n` groups, written over `v`. -/
def hashlocks (root : Bytes32) (it : VaultIntent) :
    ℕ → List.Vector Bytes32 maxVaults → List.Vector Bytes32 maxVaults
  | 0, v => v
  | n + 1, v => (hashlocks root it n v).put n
      (vaultDeriveHashlockCommitment E root (it.group n).htlcVout)

/-- The device in another state of the session. -/
def Device.setState (st : VaultState) (d : Device) : Device :=
  { d with ctx := { d.ctx with state := st } }

/-- The device with its hashlocks replaced. -/
def Device.setHashlocks (v : List.Vector Bytes32 maxVaults) (d : Device) : Device :=
  { d with ctx := { d.ctx with htlcHashlock := v } }

/-- The device with the depositor's key replaced. -/
def Device.setDepositor (pk : Buf 33) (d : Device) : Device :=
  { d with intent := { d.intent with depositorPk := xonly pk } }

/-- After an approved load. -/
def loadedDevice (d : Device) (pk : Buf 33) (junk : DeriveCtx) : Device :=
  let it := (d.setDepositor pk).intent
  { d with
    ctx := { d.ctx with
      state := .intentLoaded
      htlcHashlock := hashlocks E d.ctx.root it it.vaultCount d.ctx.htlcHashlock
      authAnchorHash := vaultDeriveAuthAnchorCommitment E d.ctx.root
      root := Buf.zero 32
      intentFp := vaultFingerprint E d.approve.intentHash }
    intent := it
    approve := .zero
    deriveCtx := junk }

/-- What the handler asks before it looks at a payload. -/
def ApproveRefused (d : Device) (p1 p2 : UInt8) : Prop :=
  p2 ≠ 0 ∨ (p1 = 0 ∧ d.ctx.state ≠ .hashDerived) ∨
    ((p1 = 1 ∨ p1 = 2) ∧ d.approve.scalarsLoaded = false) ∨ (p1 ≠ 0 ∧ p1 ≠ 1 ∧ p1 ≠ 2)

/-- The last key of a load: what the device checks of the complete intent. -/
structure LoadChecks (d : Device) (pk : Buf 33) : Prop where
  path : d.ctx.derivationPath = d.intent.depositorPath.toList
  pubkey : E.pubkeyAt d.intent.depositorPath.toList = some pk
  unique : vaultCheckDepositorUniqueness d.intent (xonly pk) = true
  root : d.ctx.root ≠ Buf.zero 32
  state : d.ctx.state = .hashDerived

/-- The ends of APPROVE_VAULT_INTENT: refused and unchanged, refused and wiped, or
    one of the four ways to succeed. -/
inductive ApproveEnd (d : Device) (p1 p2 : UInt8) (data : Bytes) :
    Except Stop Unit → Device → Prop
  | refused {sw} : ApproveRefused d p1 p2 → ApproveEnd d p1 p2 data (.error (.reject sw)) d
  | wiped {sw} : ¬ApproveRefused d p1 p2 →
      ApproveEnd d p1 p2 data (.error (.reject sw)) (vaultContextInvalidate d)
  | scalars {it} : p1 = 0 → d.ctx.state = .hashDerived →
      vaultTlvParse E.network data .zero = .ok it →
      ApproveEnd d p1 p2 data (.ok ()) (scalarsDevice d it data)
  | groups {it gi} : p1 = 1 → d.approve.scalarsLoaded = true →
      storeGroups E data.length data d.intent d.tr.vaultGroupIndex = some (it, gi) →
      ApproveEnd d p1 p2 data (.ok ()) ((d.setGroups it gi).absorb data)
  | keys {it n} : p1 = 2 → d.approve.scalarsLoaded = true →
      d.tr.vaultGroupIndex = d.intent.vaultCount → d.ctx.state = .hashDerived →
      storeKeys E data.length data d.intent d.approve.keysReceived = some (it, n) →
      n < it.keeperCount + it.challengerCount →
      ApproveEnd d p1 p2 data (.ok ()) ((d.setKeys it n).absorb data)
  | loaded {it n pk junk} : p1 = 2 → d.approve.scalarsLoaded = true →
      d.tr.vaultGroupIndex = d.intent.vaultCount →
      storeKeys E data.length data d.intent d.approve.keysReceived = some (it, n) →
      ¬n < it.keeperCount + it.challengerCount →
      LoadChecks E ((d.setKeys it n).absorb data) pk →
      ApproveEnd d p1 p2 data (.ok ())
        (loadedDevice E ((d.setKeys it n).absorb data) pk junk)

/-- A loop ends with its result, or with the session wiped. -/
def loopEnd {α : Type} (put : α → Device) (d : Device) :
    Option α → Course devIface Device (Except Stop Unit × Device)
  | some a => .ret (.ok (), put a)
  | none => .ret (.error (.reject .incorrectData), vaultContextInvalidate d)

variable {E} {d : Device} {sw : Sw}

theorem requireM_bind {α : Type} {c : Prop} [Decidable c] {f : Unit → M α} :
    (requireM c sw >>= f) d =
      if c then f () d else .ret (.error (.reject sw), vaultContextInvalidate d) := by
  unfold requireM
  split_ifs <;> rfl

theorem wipeM_run {α : Type} :
    (wipeM sw : M α) d = .ret (.error (.reject sw), vaultContextInvalidate d) := rfl

theorem groupRecord_run {data : Bytes} : groupRecord E data d =
    match storeGroup E data d.intent d.tr.vaultGroupIndex with
    | some (it, rest) => .ret (.ok rest, d.setGroups it (d.tr.vaultGroupIndex + 1))
    | none => .ret (.error (.reject .incorrectData), vaultContextInvalidate d) := by
  unfold groupRecord storeGroup
  simp only [get_bind_run, requireM_bind]
  rcases vaultTlvParseGroup data (d.intent.group d.tr.vaultGroupIndex) with err | ⟨grp, rest⟩
  · cases err <;> split_ifs <;> rfl
  · simp only [modify_bind_run, requireM_bind, pure_run, keyOk, Bool.and_eq_true]
    split_ifs <;> first | rfl | (exfalso; tauto)

theorem groupLoop_run : ∀ {fuel : ℕ} {data : Bytes} {d : Device}, groupLoop E fuel data d =
    loopEnd (fun p => d.setGroups p.1 p.2) d
      (storeGroups E fuel data d.intent d.tr.vaultGroupIndex)
  | 0, [], _ | _ + 1, [], _ => rfl
  | 0, _ :: _, _ => rfl
  | fuel + 1, b :: data, d => by
    rw [groupLoop, storeGroups, run_bind, groupRecord_run]
    rcases storeGroup E (b :: data) d.intent d.tr.vaultGroupIndex with _ | ⟨it, rest⟩
    · rfl
    · exact groupLoop_run

theorem keyRecord_run {data : Bytes} : keyRecord E data d =
    match storeKey E data d.intent d.approve.keysReceived with
    | some (it, rest) => .ret (.ok rest, d.setKeys it (d.approve.keysReceived + 1))
    | none => .ret (.error (.reject .incorrectData), vaultContextInvalidate d) := by
  unfold keyRecord storeKey
  rcases data with _ | ⟨hi, _ | ⟨lo, _ | ⟨klen, rest⟩⟩⟩
  · rfl
  · rfl
  · rfl
  · simp only [requireM_bind, get_bind_run, keyOk, Bool.and_eq_true]
    rcases vaultValidateAndStoreKey d.intent d.approve.keysReceived (Buf.ofBytes 32 rest)
      with _ | it
    · simp only [Option.map_none, ite_self]
      split_ifs <;> rfl
    · simp only [modify_bind_run, pure_run, Option.map_some]
      split_ifs <;> first | rfl | (exfalso; tauto)

theorem keyLoop_run : ∀ {fuel : ℕ} {data : Bytes} {d : Device}, keyLoop E fuel data d =
    loopEnd (fun p => d.setKeys p.1 p.2) d
      (storeKeys E fuel data d.intent d.approve.keysReceived)
  | 0, [], _ | _ + 1, [], _ => rfl
  | 0, _ :: _, _ => rfl
  | fuel + 1, b :: data, d => by
    rw [keyLoop, storeKeys, run_bind, keyRecord_run]
    rcases storeKey E (b :: data) d.intent d.approve.keysReceived with _ | ⟨it, rest⟩
    · rfl
    · exact keyLoop_run

/-! ## Handlers that call no host -/

/-- Every end of `m` from `d` is one of `Q`, and no call goes to the host. -/
def Quiet {α : Type} (m : M α) (d : Device) (Q : Except Stop α → Device → Prop) : Prop :=
  ∀ qs, m.wp (fun _ (q : DevAsk) _ => q.hostBound = false) (fun _ => Q) qs d

namespace Quiet
variable {α β : Type} {m : M α} {Q : Except Stop α → Device → Prop}

theorem ret {r : Except Stop α} {t : Device} (h : m d = .ret (r, t)) (hQ : Q r t) :
    Quiet m d Q := fun _ => (wp_ret h).2 hQ

/-- `f` follows where `m` ends well. -/
theorem bind {R : Except Stop β → Device → Prop} {f : α → M β}
    (h : Quiet m d (ends (fun a d' => Quiet (f a) d' R) fun e d' => R (.error e) d')) :
    Quiet (m >>= f) d R := by
  intro qs
  refine wp_bind.2 (wp_mono (fun _ _ _ h => h) ?_ (h qs))
  rintro qs (e | a) d' h
  · exact h
  · exact h qs

theorem mono {P : Except Stop α → Device → Prop} (h : Quiet m d P)
    (hPQ : ∀ r d', P r d' → Q r d') : Quiet m d Q :=
  fun qs => wp_mono (fun _ _ _ h => h) (fun _ => hPQ) (h qs)

theorem ite {c : Prop} [Decidable c] {n : M α} (hm : c → Quiet m d Q) (hn : ¬c → Quiet n d Q) :
    Quiet (if c then m else n) d Q := by
  split_ifs with h
  · exact hm h
  · exact hn h

theorem ask {q : DevAsk} {Q : Except Stop (devIface.Ans q) → Device → Prop}
    (hq : q.hostBound = false) (h : ∀ a, Q (.ok a) d) : Quiet (askM q) d Q :=
  fun _ => wp_ask.2 ⟨hq, h⟩

/-- A call of the SDK, and what follows it. -/
theorem callM_bind {R : Except Stop β → Device → Prop} {f : Unit → M β}
    (hw : R (.error (.reject sw)) (vaultContextInvalidate d)) (h : Quiet (f ()) d R) :
    Quiet (callM sw >>= f) d R := by
  refine bind (bind (ask rfl ?_))
  rintro (_ | _)
  · exact ret rfl h
  · exact ret rfl hw

theorem requireM_bind {R : Except Stop β → Device → Prop} {c : Prop} [Decidable c]
    {f : Unit → M β} (hw : ¬c → R (.error (.reject sw)) (vaultContextInvalidate d))
    (h : c → Quiet (f ()) d R) : Quiet (requireM c sw >>= f) d R := by
  by_cases hc : c
  · refine bind (ret (r := .ok ()) ?_ (h hc))
    simp [requireM, hc, pure_run]
  · refine bind (ret (r := .error (.reject sw)) ?_ (hw hc))
    simp [requireM, hc, wipeM_run]

theorem modify_bind {R : Except Stop β → Device → Prop} {g : Device → Device} {f : Unit → M β}
    (h : Quiet (f ()) (g d) R) : Quiet (Prog.modify g >>= f) d R :=
  bind (ret rfl h)

theorem get_bind {R : Except Stop β → Device → Prop} {f : Device → M β}
    (h : Quiet (f d) d R) : Quiet (Prog.get >>= f) d R :=
  bind (ret rfl h)

end Quiet

theorem transitionM_quiet {src dst : VaultState} {Q : Except Stop Unit → Device → Prop}
    (ha : vaultTransitionAllowed src dst = true)
    (hw : Q (.error (.reject .badState)) (vaultContextInvalidate d))
    (h : d.ctx.state = src → Q (.ok ()) (d.setState dst)) : Quiet (transitionM src dst) d Q := by
  by_cases hs : d.ctx.state = src
  · have ht : vaultContextTransition src dst d = some (d.setState dst) := by
      simp [vaultContextTransition, hs, ha, Device.setState]
    refine .ret (r := .ok ()) ?_ (h hs)
    rw [transitionM, get_bind_run, ht]
    rfl
  · have ht : vaultContextTransition src dst d = none := by simp [vaultContextTransition, hs]
    refine .ret (r := .error (.reject .badState)) ?_ hw
    rw [transitionM, get_bind_run, ht]
    rfl

/-! ## The handler -/

theorem absorb_nil : d.absorb [] = d := by simp [Device.absorb]

theorem absorbIntentApdu_quiet {data : Bytes} {Q : Except Stop Unit → Device → Prop}
    (hw : Q (.error (.reject .badState)) (vaultContextInvalidate d))
    (h : Q (.ok ()) (d.absorb data)) : Quiet (absorbIntentApdu data) d Q := by
  unfold absorbIntentApdu
  split_ifs with hd
  · subst hd
    rw [absorb_nil] at h
    exact .ret pure_run h
  · exact .callM_bind hw (.ret rfl h)

theorem handleScalarPayload_quiet {p2 : UInt8} {data : Bytes} (hp2 : p2 = 0) :
    Quiet (handleScalarPayload E data) d (ApproveEnd E d 0 p2 data) := by
  refine .get_bind ?_
  split_ifs with hs
  · exact .ret rfl (.refused (.inr (.inl ⟨rfl, hs⟩)))
  · have hn : ¬ApproveRefused d 0 p2 := by
      have := not_not.1 hs
      simp [ApproveRefused, hp2, this]
    refine .modify_bind (.bind (.ret (r := .ok ()) rfl (.get_bind ?_)))
    split
    · exact .ret rfl (.wiped hn)
    next it ht =>
      refine .modify_bind (.modify_bind (.bind (absorbIntentApdu_quiet (.wiped hn) (.ret rfl ?_))))
      exact .scalars rfl (not_not.1 hs) ht

theorem handleGroupPayload_quiet {p2 : UInt8} {data : Bytes} (hp2 : p2 = 0) :
    Quiet (handleGroupPayload E data) d (ApproveEnd E d 1 p2 data) := by
  refine .get_bind ?_
  split_ifs with hs
  · exact .ret rfl (.refused (.inr (.inr (.inl ⟨.inl rfl, hs⟩))))
  · have hn : ¬ApproveRefused d 1 p2 := by simp [ApproveRefused, hp2, hs]
    rcases hg : storeGroups E data.length data d.intent d.tr.vaultGroupIndex with _ | ⟨it, gi⟩
    · refine .bind (.ret (r := .error (.reject .incorrectData)) ?_ (.wiped hn))
      rw [groupLoop_run, hg]
      rfl
    · refine .bind (.ret (r := .ok ()) (t := d.setGroups it gi) ?_ ?_)
      · rw [groupLoop_run, hg]
        rfl
      exact absorbIntentApdu_quiet (.wiped hn) (.groups rfl (by simpa using hs) hg)

/-- The hashlocks of the first `n` groups have been written. -/
theorem deriveHashlocks_quiet {Q : Except Stop Unit → Device → Prop}
    (hw : Q (.error (.reject .badState)) (vaultContextInvalidate d))
    (h : Q (.ok ()) (d.setHashlocks
      (hashlocks E d.ctx.root d.intent d.intent.vaultCount d.ctx.htlcHashlock))) :
    Quiet (Prog.loop (deriveHashlock E) 0 d.intent.vaultCount ()) d Q := by
  intro qs
  refine wp_loop (P := fun i _ _ s => s = d.setHashlocks
    (hashlocks E d.ctx.root d.intent i d.ctx.htlcHashlock)) rfl ?_ ?_
  · rintro i ⟨⟩ qs s - - rfl
    have hbody : Quiet (deriveHashlock E i ())
        (d.setHashlocks (hashlocks E d.ctx.root d.intent i d.ctx.htlcHashlock))
        (ends (fun _ s => s = d.setHashlocks
          (hashlocks E d.ctx.root d.intent (i + 1) d.ctx.htlcHashlock)) fun e s => Q (.error e) s) :=
      .callM_bind hw (.ret rfl rfl)
    exact hbody qs
  · rintro _ qs s rfl
    rw [zero_add]
    exact h

theorem finishIntent_quiet {Q : Except Stop Unit → Device → Prop}
    (hw : ∀ sw, Q (.error (.reject sw)) (vaultContextInvalidate d))
    (h : ∀ pk junk, LoadChecks E d pk → Q (.ok ()) (loadedDevice E d pk junk)) :
    Quiet (finishIntent E) d Q := by
  refine .get_bind (.requireM_bind (fun _ => hw _) fun hpath => .callM_bind (hw _) ?_)
  split
  · exact .ret wipeM_run (hw _)
  next pk hpk =>
    refine .requireM_bind (fun _ => hw _) fun huniq => .modify_bind ?_
    refine .requireM_bind (fun _ => hw _) fun hroot => ?_
    refine .bind (deriveHashlocks_quiet (d := d.setDepositor pk) (hw _) ?_)
    refine Quiet.callM_bind (hw _) ?_
    refine .modify_bind (.modify_bind (.callM_bind (hw _) (.modify_bind (.modify_bind ?_))))
    refine .get_bind (.bind (.bind (.ask rfl fun junk => .ret rfl ?_)))
    refine Quiet.bind (.ask rfl fun (approved : Bool) => ?_)
    refine Quiet.requireM_bind (fun _ => hw _) fun _ => ?_
    exact transitionM_quiet rfl (hw _) fun hs => h pk junk ⟨hpath, hpk, huniq, hroot, hs⟩

theorem handleKeyBatch_quiet {p2 : UInt8} {data : Bytes} (hp2 : p2 = 0) :
    Quiet (handleKeyBatch E data) d (ApproveEnd E d 2 p2 data) := by
  refine .get_bind ?_
  split_ifs with hs
  · exact .ret rfl (.refused (.inr (.inr (.inl ⟨.inr rfl, hs⟩))))
  · have hn : ¬ApproveRefused d 2 p2 := by simp [ApproveRefused, hp2, hs]
    have hs' : d.approve.scalarsLoaded = true := by simpa using hs
    refine .requireM_bind (fun _ => .wiped hn) fun hgi => ?_
    refine .requireM_bind (fun _ => .wiped hn) fun hst => ?_
    rcases hk : storeKeys E data.length data d.intent d.approve.keysReceived with _ | ⟨it, n⟩
    · refine .bind (.ret (r := .error (.reject .incorrectData)) ?_ (.wiped hn))
      rw [keyLoop_run, hk]
      rfl
    · refine .bind (.ret (r := .ok ()) (t := d.setKeys it n) ?_ ?_)
      · rw [keyLoop_run, hk]
        rfl
      refine .bind (absorbIntentApdu_quiet (.wiped hn) (.get_bind ?_))
      split_ifs with hlt
      · exact .ret rfl (.keys rfl hs' hgi hst hk hlt)
      · exact finishIntent_quiet (fun _ => .wiped hn) fun pk junk hc => .loaded rfl hs' hgi hk hlt hc

/-- Every end of APPROVE_VAULT_INTENT, whatever the SDK answers. -/
theorem approve_quiet {p1 p2 : UInt8} {data : Bytes} :
    Quiet (handlerApproveVaultIntent E p1 p2 data) d (ApproveEnd E d p1 p2 data) := by
  unfold handlerApproveVaultIntent
  split_ifs with h h0 h1 h2
  · exact .ret rfl (.refused (.inl h))
  · exact h0 ▸ handleScalarPayload_quiet (not_not.1 h)
  · exact h1 ▸ handleGroupPayload_quiet (not_not.1 h)
  · exact h2 ▸ handleKeyBatch_quiet (not_not.1 h)
  · exact .ret rfl (.refused (.inr (.inr (.inr ⟨h0, h1, h2⟩))))

end BabylonVault
