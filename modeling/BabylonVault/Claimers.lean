/-
  The claimers of Assert:0.

  * `appChallengersLoop`: `build_app_challengers` as the loop writes it, one keeper at a time;
    what it writes is `buildAppChallengers` (`appChallengersLoop_eq`).
  * `Ascending.insertVp`, `mem_insertVp`: the merge keeps the order and adds the provider.
  * `ClaimersDistinct`: no two claimers share a key, so that the first key of a leaf names its
    claimer (`findClaimer_iff`).
  * `Reach.claimer_detection`: what is detected is the claimer whose leaf this is, and
    nothing else.
-/
import BabylonVault.Builders

namespace BabylonVault
open Bytes

variable {E : Env} {it : VaultIntent} {key vp : Bytes32} {keys : List Bytes32} {script leaf : Bytes}
  {gi ci n : ℕ}

/-! ## The merge loop -/

/-- A pass of the merge loop: whether the provider was inserted, and the keys written. -/
def mergeStep (vp : Bytes32) (acc : Bool × List Bytes32) (key : Bytes32) : Bool × List Bytes32 :=
  if acc.1 = false ∧ memcmp vp.toList key.toList = .lt then (true, acc.2 ++ [vp] ++ [key])
  else (acc.1, acc.2 ++ [key])

/-- `build_app_challengers`, loop by loop. -/
def appChallengersLoop (it : VaultIntent) (gi ci : ℕ) : List Bytes32 :=
  if ci = 0 ∨ ci = it.keeperCount + 1 then
    (List.range it.keeperCount).foldl (fun out i => out ++ [it.keeperPks.pick i]) []
  else
    let vp := (it.group gi).vaultProviderPk
    let acc := (List.range it.keeperCount).foldl
      (fun acc i => if i = ci - 1 then acc else mergeStep vp acc (it.keeperPks.pick i)) (false, [])
    if acc.1 then acc.2 else acc.2 ++ [vp]

/-- Once the provider is in, the keys are copied. -/
theorem foldl_mergeStep_true : ∀ {keys out : List Bytes32},
    keys.foldl (mergeStep vp) (true, out) = (true, out ++ keys)
  | [], out => by rw [List.foldl_nil, List.append_nil]
  | key :: keys, out => by
    have hstep : mergeStep vp (true, out) key = (true, out ++ [key]) := if_neg (by simp)
    rw [List.foldl_cons, hstep, foldl_mergeStep_true, List.append_assoc, List.singleton_append]

/-- Until then they are too, and the provider goes before the first that is greater. -/
theorem foldl_mergeStep_false : ∀ {keys out : List Bytes32},
    let acc := keys.foldl (mergeStep vp) (false, out)
    (if acc.1 then acc.2 else acc.2 ++ [vp]) = out ++ insertVp vp keys
  | [], out => rfl
  | key :: keys, out => by
    intro acc
    by_cases hlt : memcmp vp.toList key.toList = .lt
    · have hstep : mergeStep vp (false, out) key = (true, out ++ [vp] ++ [key]) := if_pos ⟨rfl, hlt⟩
      have hacc : acc = (true, out ++ [vp] ++ [key] ++ keys) := by
        show keys.foldl (mergeStep vp) (mergeStep vp (false, out) key) = _
        rw [hstep, foldl_mergeStep_true]
      rw [hacc, insertVp, if_pos hlt]
      simp
    · have hstep : mergeStep vp (false, out) key = (false, out ++ [key]) :=
        if_neg fun h => hlt h.2
      have hacc : acc = keys.foldl (mergeStep vp) (false, out ++ [key]) := by
        show keys.foldl (mergeStep vp) (mergeStep vp (false, out) key) = _
        rw [hstep]
      rw [hacc, insertVp, if_neg hlt]
      rw [foldl_mergeStep_false, List.append_assoc, List.singleton_append]

/-- A loop that passes over an index runs over the list without it. -/
theorem foldl_range_skip {α β : Type} {f : β → α → β} {g : ℕ → α} {b : β} {n k : ℕ} (hk : k < n) :
    (List.range n).foldl (fun acc i => if i = k then acc else f acc (g i)) b =
      (((List.range n).map g).eraseIdx k).foldl f b := by
  have hskip : (List.range n).eraseIdx k = (List.range n).filter (· != k) := by
    have h := List.nodup_range.erase_getElem k (by simpa using hk)
    rw [List.getElem_range] at h
    rw [← h, List.nodup_range.erase_eq_filter]
  rw [List.eraseIdx_map, hskip, List.foldl_map, List.foldl_filter]
  congr 1
  funext acc i
  by_cases hi : i = k <;> simp [hi]

/-- The keepers, read one at a time. -/
theorem keepers_eq_map (hk : it.keeperCount ≤ maxKeepers) :
    it.keepers = (List.range it.keeperCount).map it.keeperPks.pick := by
  refine List.ext_getElem (by simp [VaultIntent.keepers, List.Vector.length_upto hk]) fun i hi _ => ?_
  rw [List.getElem_map, List.getElem_range]
  exact List.Vector.getElem_upto hi

theorem foldl_snoc {α β : Type} {f : α → β} : ∀ {l : List α} {out : List β},
    l.foldl (fun out i => out ++ [f i]) out = out ++ l.map f
  | [], out => (List.append_nil out).symm
  | a :: l, out => by
    rw [List.foldl_cons, foldl_snoc, List.map_cons, List.append_assoc, List.singleton_append]

theorem appChallengersLoop_eq (hk : it.keeperCount ≤ maxKeepers) (hci : ci ≤ it.keeperCount + 1) :
    appChallengersLoop it gi ci = buildAppChallengers it gi ci := by
  unfold appChallengersLoop buildAppChallengers
  by_cases h : ci = 0 ∨ ci = it.keeperCount + 1
  · rw [if_pos h, if_pos h, keepers_eq_map hk, foldl_snoc, List.nil_append]
  · have hlt : ci - 1 < it.keeperCount := by omega
    rw [if_neg h, if_neg h]
    dsimp only
    rw [foldl_range_skip hlt, ← keepers_eq_map hk]
    exact foldl_mergeStep_false

/-! ## What is merged -/

theorem mem_insertVp : ∀ {keys : List Bytes32}, key ∈ insertVp vp keys ↔ key = vp ∨ key ∈ keys
  | [] => by simp [insertVp]
  | k :: keys => by
    unfold insertVp
    split_ifs
    · exact List.mem_cons
    · rw [List.mem_cons, mem_insertVp, List.mem_cons]
      tauto

/-- The merge keeps the order. -/
theorem Ascending.insertVp : ∀ {keys : List Bytes32}, Ascending keys → vp ∉ keys →
    Ascending (insertVp vp keys)
  | [], _, _ => List.pairwise_singleton _ _
  | k :: keys, h, hvp => by
    obtain ⟨hk, hkeys⟩ := List.pairwise_cons.1 h
    obtain ⟨hne, hnot⟩ := not_or.1 (List.mem_cons.not.1 hvp)
    unfold BabylonVault.insertVp
    split_ifs with hlt
    · refine List.pairwise_cons.2 ⟨fun k' hk' => ?_, h⟩
      rcases List.mem_cons.1 hk' with rfl | hk'
      · exact hlt
      · exact memcmp_lt_iff.2 ((memcmp_lt_iff.1 hlt).trans (memcmp_lt_iff.1 (hk k' hk')))
    · -- The two keys differ, so the one that is not less is greater.
      have hgt : ofBE k.toList < ofBE vp.toList := by
        refine lt_of_le_of_ne (Nat.le_of_not_lt (memcmp_lt_iff.not.1 hlt)) fun heq => hne ?_
        exact Subtype.ext (ofBE_inj (vp.toList_length.trans k.toList_length.symm) heq.symm)
      refine List.pairwise_cons.2 ⟨fun k' hk' => ?_, Ascending.insertVp hkeys hnot⟩
      rcases mem_insertVp.1 hk' with rfl | hk'
      · exact memcmp_lt_iff.2 hgt
      · exact hk k' hk'

theorem mem_eraseIdx (h : keys.Nodup) {k : ℕ} (hk : k < keys.length) :
    key ∈ keys.eraseIdx k ↔ key ∈ keys ∧ key ≠ keys[k] := by
  rw [← h.erase_getElem k hk, h.mem_erase_iff]
  exact and_comm

/-! ## The claimers -/

/-- No two claimers of a group share a key. -/
structure ClaimersDistinct (it : VaultIntent) (gi : ℕ) : Prop where
  keepers : it.keepers.Nodup
  provider : (it.group gi).vaultProviderPk ∉ it.keepers
  depositor : it.depositorPk ∉ it.keepers
  depositorProvider : it.depositorPk ≠ (it.group gi).vaultProviderPk

theorem IntentSpec.claimersDistinct (h : IntentSpec E it) (hgi : gi < it.vaultCount) :
    ClaimersDistinct it gi := by
  have hvp : (it.group gi).vaultProviderPk ∈ it.providers :=
    List.mem_map_of_mem (List.mem_range.2 hgi)
  have hd := h.depositorOther
  simp only [VaultIntent.otherKeys, List.mem_append, not_or] at hd
  refine ⟨(List.nodup_append.1 h.distinct).1, fun hk => ?_, hd.1.2, fun heq => ?_⟩
  · exact h.disjoint _ (List.mem_append_left _ hk) hvp
  · rw [heq] at hd
    exact hd.1.1 hvp

theorem ClaimersDistinct.pick_inj (h : ClaimersDistinct it gi) (hk : it.keeperCount ≤ maxKeepers)
    {i j : ℕ} (hi : i < it.keeperCount) (hj : j < it.keeperCount)
    (heq : it.keeperPks.pick i = it.keeperPks.pick j) : i = j := by
  have hnodup := h.keepers
  rw [keepers_eq_map hk] at hnodup
  exact List.inj_on_of_nodup_map hnodup (List.mem_range.2 hi) (List.mem_range.2 hj) heq

/-- The key at the head of a leaf is its claimer's. -/
theorem findClaimer_iff (h : ClaimersDistinct it gi) (hk : it.keeperCount ≤ maxKeepers) :
    findClaimer it gi key = some ci ↔ ci ≤ it.keeperCount + 1 ∧ claimerPk it gi ci = key := by
  have hmem : ∀ i < it.keeperCount, it.keeperPks.pick i ∈ it.keepers := fun i hi =>
    (List.Vector.mem_upto hk).2 ⟨i, hi, rfl⟩
  constructor
  · intro hf
    unfold findClaimer at hf
    by_cases hvp : key = (it.group gi).vaultProviderPk
    · rw [if_pos hvp] at hf
      cases hf
      exact ⟨Nat.zero_le _, hvp.symm⟩
    rw [if_neg hvp] at hf
    rcases hi : (List.range it.keeperCount).find? fun i => it.keeperPks.pick i = key with _ | i
    · rw [hi] at hf
      obtain ⟨hd, he⟩ := Option.ite_none_right_eq_some.1 hf
      cases he
      refine ⟨le_rfl, ?_⟩
      rw [claimerPk, if_neg (Nat.succ_ne_zero _), if_pos rfl, hd]
    · rw [hi] at hf
      cases hf
      obtain ⟨hp, hlt, -⟩ := List.find?_range_eq_some.1 hi
      have hlt : i < it.keeperCount := List.mem_range.1 hlt
      refine ⟨by omega, ?_⟩
      rw [claimerPk, if_neg (Nat.succ_ne_zero i), if_neg (by omega)]
      exact of_decide_eq_true hp
  · rintro ⟨hci, rfl⟩
    unfold findClaimer claimerPk
    by_cases h0 : ci = 0
    · rw [if_pos h0, if_pos rfl, h0]
    by_cases hn : ci = it.keeperCount + 1
    · have hnone : ((List.range it.keeperCount).find? fun i => it.keeperPks.pick i = it.depositorPk)
          = none := by
        rw [List.find?_eq_none]
        intro i hi heq
        exact h.depositor (of_decide_eq_true heq ▸ hmem i (List.mem_range.1 hi))
      rw [if_neg h0, if_pos hn, if_neg h.depositorProvider, hnone]
      dsimp only
      rw [if_pos rfl, hn]
    · have hlt : ci - 1 < it.keeperCount := by omega
      have hsome : ((List.range it.keeperCount).find? fun i =>
          it.keeperPks.pick i = it.keeperPks.pick (ci - 1)) = some (ci - 1) := by
        rw [List.find?_range_eq_some]
        refine ⟨decide_eq_true rfl, List.mem_range.2 hlt, fun j hj => ?_⟩
        have hne : it.keeperPks.pick j ≠ it.keeperPks.pick (ci - 1) := fun heq =>
          hj.ne (h.pick_inj hk (by omega) hlt heq)
        simpa using hne
      have hvp : it.keeperPks.pick (ci - 1) ≠ (it.group gi).vaultProviderPk := fun heq =>
        h.provider (heq ▸ hmem _ hlt)
      rw [if_neg h0, if_neg hn, if_neg hvp, hsome]
      dsimp only
      rw [Nat.sub_add_cancel (Nat.one_le_iff_ne_zero.2 h0)]

/-! ## Detection -/

/-- What `_detect_payout_claimer` finds in a script. -/
def detected (it : VaultIntent) (gi : ℕ) (script : Bytes) : Option ℕ :=
  if 34 ≤ script.length ∧ script.getD 0 0 = opPushbytes32 then do
    let ci ← findClaimer it gi (Buf.slice 32 script 1)
    let leaf ← vaultBuildAssert0PayoutLeaf it gi ci scriptMaxLen
    if leaf = script then some ci else none
  else none

/-- A run over a buffered leaf asks nothing and writes nothing. -/
theorem detectPayoutClaimer_run {s : Session} {tls : Tls} {v : Volatile}
    (hv : v.leaf.buffered = true) (hscript : tls.leafScript = script)
    (hlen : tls.leafScriptLen = script.length) : detectPayoutClaimer s tls gi v =
      .ret (match detected s.intent gi script with
        | some ci => .ok ci
        | none => .error (.reject .incorrectData), v) := by
  have hbuf : requireBufferedLeaf v = .ret (.ok (), v) := by
    show (check (v.leaf.buffered = true) .incorrectData : V Unit) v = _
    rw [check, Prog.require, if_pos hv]
    rfl
  unfold detectPayoutClaimer detected
  rw [Prog.run_bind, hbuf, hscript, hlen]
  dsimp only [Course.ret_bind, Prog.andThen_ok]
  by_cases hhead : 34 ≤ script.length ∧ script.getD 0 0 = opPushbytes32
  · rw [check, Prog.require, if_pos hhead, if_pos hhead]
    rcases hci : findClaimer s.intent gi (Buf.slice 32 script 1) with _ | ci
    · rfl
    rcases hleaf : vaultBuildAssert0PayoutLeaf s.intent gi ci scriptMaxLen with _ | leaf
    · simp only [Option.bind_eq_bind, Option.bind_some, hleaf]
      show (orReject (vaultBuildAssert0PayoutLeaf s.intent gi ci scriptMaxLen) >>= _) v = _
      rw [hleaf]
      rfl
    · simp only [Option.bind_eq_bind, Option.bind_some, hleaf]
      show (orReject (vaultBuildAssert0PayoutLeaf s.intent gi ci scriptMaxLen) >>= _) v = _
      rw [hleaf]
      show (check (leaf = script) .incorrectData >>= fun _ => (pure ci : V ℕ)) v = _
      by_cases heq : leaf = script
      · rw [check, Prog.require, if_pos heq, if_pos heq]
        rfl
      · rw [check, Prog.require, if_neg heq, if_neg heq]
        rfl
  · rw [check, Prog.require, if_neg hhead, if_neg hhead]
    rfl

/-- A script is detected as the claimer's whose leaf it is. -/
theorem detected_iff (h : ClaimersDistinct it gi) (hk : it.keeperCount ≤ maxKeepers) :
    detected it gi script = some ci ↔
      vaultBuildAssert0PayoutLeaf it gi ci scriptMaxLen = some script := by
  constructor
  · intro hd
    unfold detected at hd
    obtain ⟨-, hd⟩ := Option.ite_none_right_eq_some.1 hd
    obtain ⟨ci', -, hd⟩ := Option.bind_eq_some_iff.1 hd
    obtain ⟨leaf, hleaf, hd⟩ := Option.bind_eq_some_iff.1 hd
    obtain ⟨rfl, he⟩ := Option.ite_none_right_eq_some.1 hd
    cases he
    exact hleaf
  · intro hleaf
    have hci : ci ≤ it.keeperCount + 1 := by
      unfold vaultBuildAssert0PayoutLeaf at hleaf
      split_ifs at hleaf
      omega
    obtain ⟨-, -, hbytes⟩ := payoutLeaf_eq hleaf
    obtain ⟨h0, -, hkey⟩ := head_keyEntry (claimerPk it gi ci) opChecksigverify
      (multisigGroup (buildAppChallengers it gi ci) opNumequalverify ++
        (multisigGroup it.challengers opNumequalverify ++ (pushNumber it.payoutTimelock ++ [opCsv])))
    rw [← hbytes] at h0 hkey
    have hlen : 34 ≤ script.length := by
      rw [hbytes, List.length_append, length_keyEntry]
      omega
    have hfind : findClaimer it gi (Buf.slice 32 script 1) = some ci :=
      (findClaimer_iff h hk).2 ⟨hci, hkey.symm⟩
    rw [detected, if_pos ⟨hlen, h0⟩, hfind]
    simp [hleaf]

/-! ## The shared scratch -/

/-- `offsetof(leaf_check.actual_buf) - offsetof(tls.leaf_script)` in `G_scratch`. -/
def leafOverlap : ℕ := 2298

/-- `G_scratch` from `tls.leaf_script` on, after a leaf was written to `leaf_check.actual_buf`. -/
def withActualBuf (g leaf : Bytes) : Bytes :=
  g.take leafOverlap ++ leaf ++ g.drop (leafOverlap + leaf.length)

/-- The leaf is compared with the script in the buffers that overlap, as if they did not. -/
theorem aliased_compare {g : Bytes} (hg : leafOverlap ≤ g.length) (hs : g.take script.length = script)
    (hlen : leaf.length = script.length) (hle : leaf.length ≤ leafOverlap) :
    readAt (withActualBuf g leaf) leafOverlap leaf.length =
      readAt (withActualBuf g leaf) 0 leaf.length ↔ leaf = script := by
  have htake : (g.take leafOverlap).length = leafOverlap := List.length_take_of_le hg
  have hroom : leafOverlap + leaf.length ≤ (withActualBuf g leaf).length := by
    simp only [withActualBuf, List.length_append, htake]
    omega
  have hactual : ((withActualBuf g leaf).drop leafOverlap).take leaf.length = leaf := by
    unfold withActualBuf
    rw [List.append_assoc, List.drop_left' htake, List.take_left' rfl]
  have hscript : ((withActualBuf g leaf).drop 0).take leaf.length = script := by
    unfold withActualBuf
    rw [List.drop_zero, List.append_assoc, List.take_append_of_le_length (by omega), List.take_take,
      Nat.min_eq_left hle, hlen, hs]
  rw [readAt_of_le hroom, readAt_of_le (by omega), hactual, hscript, Option.some.injEq]

theorem payoutLeaf_le (hb : LeafBounds it)
    (h : vaultBuildAssert0PayoutLeaf it gi ci n = some leaf) : leaf.length ≤ 2228 := by
  have ht := length_timelock (t := it.payoutTimelock) (by have := hb.payout; omega)
    (by have := hb.payout; omega)
  obtain ⟨hane, hcne, rfl⟩ := payoutLeaf_eq h
  have ha := length_multisigGroup opNumequalverify hane (hb.appChallengers h)
  have hc := length_multisigGroup opNumequalverify hcne hb.challengersLen.2
  have hal := hb.appChallengers h
  have hcl := hb.challengersLen.2
  simp only [List.length_append, length_keyEntry, List.length_singleton]
  omega

/-! ## Exactness -/

/-- The application challengers of a group's claimers, and how a leaf is told to be one of theirs. -/
structure ClaimerDetection (it : VaultIntent) (gi : ℕ) : Prop where
  loop : ∀ ci ≤ it.keeperCount + 1,
    appChallengersLoop it gi ci = buildAppChallengers it gi ci
  whole : ∀ ci, ci = 0 ∨ ci = it.keeperCount + 1 →
    buildAppChallengers it gi ci = it.keepers
  merged : ∀ ci, 1 ≤ ci → ci ≤ it.keeperCount →
    Ascending (buildAppChallengers it gi ci) ∧
    ∀ key, key ∈ buildAppChallengers it gi ci ↔
      (key = (it.group gi).vaultProviderPk ∨ key ∈ it.keepers) ∧
        key ≠ it.keeperPks.pick (ci - 1)
  length : ∀ ci ≤ it.keeperCount + 1,
    (buildAppChallengers it gi ci).length = it.keeperCount
  detects : ∀ (s : Session) (script : Bytes) (tls : Tls) (v : Volatile), s.intent = it →
    v.leaf.buffered = true → tls.leafScript = script → tls.leafScriptLen = script.length →
    (∀ ci, detectPayoutClaimer s tls gi v = .ret (.ok ci, v) ↔
      ci ≤ it.keeperCount + 1 ∧
        vaultBuildAssert0PayoutLeaf it gi ci scriptMaxLen = some script) ∧
    ((∀ ci, vaultBuildAssert0PayoutLeaf it gi ci scriptMaxLen ≠ some script) →
      detectPayoutClaimer s tls gi v = .ret (.error (.reject .incorrectData), v))
  unique : ∀ script ci ci', vaultBuildAssert0PayoutLeaf it gi ci scriptMaxLen = some script →
    vaultBuildAssert0PayoutLeaf it gi ci' scriptMaxLen = some script → ci = ci'
  aliased : ∀ ci leaf script g, vaultBuildAssert0PayoutLeaf it gi ci scriptMaxLen = some leaf →
    leafOverlap ≤ g.length → g.take script.length = script → leaf.length = script.length →
    (readAt (withActualBuf g leaf) leafOverlap leaf.length =
      readAt (withActualBuf g leaf) 0 leaf.length ↔ leaf = script)

/-- The claimer that is detected is the one whose leaf the script is. -/
theorem Reach.claimer_detection {es : List Exchange} {d : Device} (h : Reach E es d)
    (hl : d.ctx.state = .intentLoaded) (hgi : gi < d.intent.vaultCount) :
    ClaimerDetection d.intent gi := by
  have hli := (h.session.loaded hl).intent
  have hspec := hli.spec
  have hb := hli.leafBounds
  have hk : d.intent.keeperCount ≤ maxKeepers := hli.scalars.counts.1.2
  have hdis := hspec.claimersDistinct hgi
  constructor
  case loop =>
    intro ci hci
    exact appChallengersLoop_eq hk hci
  case whole =>
    intro ci hci
    exact if_pos hci
  case merged =>
    intro ci h1 hN
    have hlt : ci - 1 < d.intent.keepers.length := by rw [hb.keepers]; omega
    have hpick : d.intent.keepers[ci - 1] = d.intent.keeperPks.pick (ci - 1) :=
      List.Vector.getElem_upto hlt
    have hvp : (d.intent.group gi).vaultProviderPk ≠ d.intent.keepers[ci - 1] := fun heq =>
      hdis.provider (heq ▸ List.getElem_mem hlt)
    have hbuild : buildAppChallengers d.intent gi ci =
        insertVp (d.intent.group gi).vaultProviderPk (d.intent.keepers.eraseIdx (ci - 1)) :=
      if_neg (by omega)
    have hsub := List.eraseIdx_sublist d.intent.keepers (ci - 1)
    refine ⟨?_, fun key => ?_⟩
    · rw [hbuild]
      exact Ascending.insertVp (List.Pairwise.sublist hsub hspec.keepers)
        fun hmem => hdis.provider (hsub.subset hmem)
    · rw [hbuild, mem_insertVp, mem_eraseIdx hdis.keepers hlt, ← hpick]
      constructor
      · rintro (rfl | ⟨hmem, hne⟩)
        · exact ⟨.inl rfl, hvp⟩
        · exact ⟨.inr hmem, hne⟩
      · rintro ⟨rfl | hmem, hne⟩
        · exact .inl rfl
        · exact .inr ⟨hmem, hne⟩
  case length =>
    intro ci hci
    exact length_buildAppChallengers gi hci hb.keepers
  case detects =>
    intro s script tls v hs hv hscript hlen
    have hrun : detectPayoutClaimer s tls gi v = _ := detectPayoutClaimer_run hv hscript hlen
    rw [hs] at hrun
    constructor
    · intro ci
      rw [hrun]
      constructor
      · intro hret
        rcases hdet : detected d.intent gi script with _ | ci'
        · rw [hdet] at hret
          cases hret
        · rw [hdet] at hret
          cases hret
          have hleaf := (detected_iff hdis hk).1 hdet
          refine ⟨?_, hleaf⟩
          unfold vaultBuildAssert0PayoutLeaf at hleaf
          split_ifs at hleaf
          exact Nat.le_of_not_lt ‹_›
      · rintro ⟨-, hleaf⟩
        rw [(detected_iff hdis hk).2 hleaf]
    · intro hno
      rcases hdet : detected d.intent gi script with _ | ci
      · rw [hrun, hdet]
      · exact absurd ((detected_iff hdis hk).1 hdet) (hno ci)
  case unique =>
    intro script ci ci' hleaf hleaf'
    have h1 := (detected_iff hdis hk).2 hleaf
    have h2 := (detected_iff hdis hk).2 hleaf'
    exact Option.some.inj (h1.symm.trans h2)
  case aliased =>
    intro ci leaf script g hleaf hg hs hlen
    refine aliased_compare hg hs hlen ?_
    have := payoutLeaf_le hb hleaf
    unfold leafOverlap
    omega

open Signet in
theorem claimer_detection_signet : ClaimerDetection (loaded intent).intent 1 :=
  (reach_loaded intent).claimer_detection loaded_state (by rw [loaded_intent]; decide)

end BabylonVault
