/-
  Key records, and an intent as the fold of its records.

  * `encodeKey`: a key record, under any tag; `keyReader` takes it as a whole or refuses it.
  * `storeRecords`: the intent that groups and keys make of the scalars, record by record.
  * `Recorded`: the payloads of a load are its records one after the other, and what the
    device holds is what they store (`Reach.recorded`); so the payloads give the intent
    (`Reach.intent_of_payloads`).
-/
import BabylonVault.Groups
import BabylonVault.Atomic

namespace BabylonVault
open Bytes

variable {E : Env} {it it' : VaultIntent} {data rest : Bytes} {n n' gi gi' fuel : ℕ}

/-! ## Key records -/

/-- The entry of a key, under a tag that need not be the right one. -/
structure KeyRecord where
  tag : UInt16
  key : Bytes32

/-- A key record as it is sent. -/
def encodeKey (k : KeyRecord) : Bytes := entry k.tag.toNat k.key.toList

@[simp] theorem length_encodeKey (k : KeyRecord) : (encodeKey k).length = 35 := by
  rw [encodeKey, length_entry, k.key.toList_length]

/-- The key at the front of a payload is stored whatever follows. -/
theorem storeKey_encodeKey (k : KeyRecord) : storeKey E (encodeKey k ++ rest) it n =
    if n < it.keeperCount + it.challengerCount ∧
        k.tag.toNat = (if n < it.keeperCount then tagKeeperPk else tagChallengerPk) ∧ keyOk E k.key then
      (vaultValidateAndStoreKey it n k.key).map fun it => (it, rest)
    else none := by
  have hlen : k.key.toList.length = 32 := k.key.toList_length
  have htag : ofBE [UInt8.ofNat (k.tag.toNat / 256), UInt8.ofNat k.tag.toNat] = k.tag.toNat :=
    ofBE_leBytes (n := 2) k.tag.toNat_lt
  have hkey : (Buf.ofBytes 32 (k.key.toList ++ rest) : Bytes32) = k.key := by
    rw [Buf.ofBytes_append_of_le hlen.ge]
    exact Buf.toList_inj.1 (Buf.toList_ofBytes hlen)
  have hdrop : (k.key.toList ++ rest).drop 32 = rest := List.drop_left' hlen
  have hroom : 32 ≤ (k.key.toList ++ rest).length := by
    rw [List.length_append]
    omega
  have hklen : (UInt8.ofNat k.key.toList.length).toNat = 32 := by rw [hlen]; rfl
  show storeKey E (_ :: _ :: _ :: (k.key.toList ++ rest)) it n = _
  rw [storeKey, hkey, hdrop, hklen, htag]
  exact if_congr (by simp only [hroom, true_and]) rfl rfl

/-- What is stored begins with a key record. -/
theorem storeKey_some {p : VaultIntent × Bytes} (h : storeKey E data it n = some p) :
    ∃ k, data = encodeKey k ++ p.2 := by
  unfold storeKey at h
  split at h
  next hi lo klen rest =>
    obtain ⟨⟨hklen, hroom, -⟩, h⟩ := Option.ite_none_right_eq_some.1 h
    obtain ⟨it', -, rfl⟩ := Option.map_eq_some_iff.1 h
    have hlt : ofBE [hi, lo] < 2 ^ 16 := (ofBE_lt [hi, lo]).trans_eq (by norm_num)
    have htag : (UInt16.ofNat (ofBE [hi, lo])).toNat = ofBE [hi, lo] := by
      rw [UInt16.toNat_ofNat', Nat.mod_eq_of_lt hlt]
    refine ⟨⟨UInt16.ofNat (ofBE [hi, lo]), Buf.ofBytes 32 rest⟩, ?_⟩
    have hkey : (Buf.ofBytes 32 rest : Bytes32).toList = rest.take 32 :=
      List.takeD_eq_take _ hroom
    have hklen' : UInt8.ofNat (Buf.ofBytes 32 rest : Bytes32).toList.length = klen := by
      rw [List.Vector.toList_length, ← hklen, UInt8.ofNat_toNat]
    have hbe : (leBytes 2 (ofBE [hi, lo])).reverse = [hi, lo] := beBytes_ofBE rfl
    show hi :: lo :: klen :: rest = (leBytes 2 (UInt16.ofNat (ofBE [hi, lo])).toNat).reverse ++
      [UInt8.ofNat (Buf.ofBytes 32 rest : Bytes32).toList.length] ++
      (Buf.ofBytes 32 rest : Bytes32).toList ++ rest.drop 32
    rw [htag, hbe, hklen', hkey, List.append_assoc, List.take_append_drop]
    rfl
  · cases h

/-- A turn of the loop, over the intent and the number of its keys. -/
def keyReader (E : Env) : Reader UInt8 (VaultIntent × ℕ) := fun data s =>
  (storeKey E data s.1 s.2).map fun r => ((r.1, s.2 + 1), r.2)

theorem storeKeys_eq_readAll : ∀ {fuel : ℕ} {data : Bytes} {it : VaultIntent} {n : ℕ},
    storeKeys E fuel data it n = (keyReader E).readAll fuel data (it, n)
  | 0, [], _, _ | _ + 1, [], _, _ | 0, _ :: _, _, _ => rfl
  | fuel + 1, b :: data, it, n => by
    rw [storeKeys, Reader.readAll, keyReader]
    rcases storeKey E (b :: data) it n with _ | ⟨it', rest⟩
    · rfl
    · exact storeKeys_eq_readAll

theorem keyReader_some {s s' : VaultIntent × ℕ} (h : keyReader E data s = some (s', rest)) :
    ∃ k, data = encodeKey k ++ rest := by
  obtain ⟨p, hp, he⟩ := Option.map_eq_some_iff.1 h
  obtain ⟨-, rfl⟩ := Prod.mk.inj he
  exact storeKey_some hp

/-- A key record is taken as a whole or refused, whatever follows. -/
theorem keyReader_whole (k : KeyRecord) : (keyReader E).Whole (encodeKey k) := by
  refine ⟨List.ne_nil_of_length_pos (by simp), fun s more => ?_⟩
  have hself : keyReader E (encodeKey k) s = keyReader E (encodeKey k ++ []) s := by
    rw [List.append_nil]
  rw [Reader.step, hself, keyReader, keyReader, storeKey_encodeKey, storeKey_encodeKey]
  by_cases hk : s.2 < s.1.keeperCount + s.1.challengerCount ∧ k.tag.toNat =
      (if s.2 < s.1.keeperCount then tagKeeperPk else tagChallengerPk) ∧ keyOk E k.key = true
  · rw [if_pos hk, if_pos hk]
    simp [Function.comp_def]
  · rw [if_neg hk, if_neg hk]
    rfl

theorem keyReader_lawful : (keyReader E).Lawful := by
  constructor
  · intro data rest s s' h
    obtain ⟨k, rfl⟩ := keyReader_some h
    rw [List.length_append, length_encodeKey]
    omega
  · intro data rest s s' more h
    obtain ⟨k, rfl⟩ := keyReader_some h
    rw [(keyReader_whole k).takes] at h
    obtain ⟨t, ht, he⟩ := Option.map_eq_some_iff.1 h
    obtain ⟨rfl, -⟩ := Prod.mk.inj he
    rw [List.append_assoc, (keyReader_whole k).takes, ht]
    rfl

/-! ## Records one after the other -/

/-- Store some groups, record by record. -/
def groupRecords (E : Env) (gs : List VaultGroup) (s : VaultIntent × ℕ) : Option (VaultIntent × ℕ) :=
  gs.foldlM (fun s grp => (groupReader E).step s (encodeGroup grp)) s

/-- Store some keys, record by record. -/
def keyRecords (E : Env) (ks : List KeyRecord) (s : VaultIntent × ℕ) : Option (VaultIntent × ℕ) :=
  ks.foldlM (fun s k => (keyReader E).step s (encodeKey k)) s

variable {gs gs' : List VaultGroup} {ks ks' : List KeyRecord} {s t : VaultIntent × ℕ}

theorem groupRecords_append :
    groupRecords E (gs ++ gs') s = (groupRecords E gs s).bind (groupRecords E gs') :=
  List.foldlM_append

theorem keyRecords_append :
    keyRecords E (ks ++ ks') s = (keyRecords E ks s).bind (keyRecords E ks') :=
  List.foldlM_append

/-- A payload of groups is stored record by record. -/
theorem storeGroups_records : storeGroups E (gs.flatMap encodeGroup).length
    (gs.flatMap encodeGroup) it gi = groupRecords E gs (it, gi) := by
  rw [storeGroups_eq_readAll, Reader.readAll_eq_run groupReader_lawful le_rfl, List.flatMap_def,
    Reader.run_flatten groupReader_lawful, List.foldlM_map]
  · rfl
  · simpa using fun grp _ => groupReader_whole grp

/-- A payload of keys is stored record by record. -/
theorem storeKeys_records : storeKeys E (ks.flatMap encodeKey).length
    (ks.flatMap encodeKey) it n = keyRecords E ks (it, n) := by
  rw [storeKeys_eq_readAll, Reader.readAll_eq_run keyReader_lawful le_rfl, List.flatMap_def,
    Reader.run_flatten keyReader_lawful, List.foldlM_map]
  · rfl
  · simpa using fun k _ => keyReader_whole k

/-- Only payloads of records are stored. -/
theorem storeGroups_some (h : storeGroups E data.length data it gi = some t) :
    ∃ gs, data = gs.flatMap encodeGroup ∧ groupRecords E gs (it, gi) = some t := by
  rw [storeGroups_eq_readAll, Reader.readAll_eq_run groupReader_lawful le_rfl] at h
  refine (Reader.run_iff groupReader_lawful groupReader_whole ?_).1 h
  intro data rest s s' h
  obtain ⟨grp, -, hdata, -⟩ := groupReader_iff.1 h
  exact ⟨grp, hdata⟩

theorem storeKeys_some (h : storeKeys E data.length data it n = some t) :
    ∃ ks, data = ks.flatMap encodeKey ∧ keyRecords E ks (it, n) = some t := by
  rw [storeKeys_eq_readAll, Reader.readAll_eq_run keyReader_lawful le_rfl] at h
  exact (Reader.run_iff keyReader_lawful keyReader_whole keyReader_some).1 h

/-- Groups are counted, and leave the rest of the intent alone. -/
theorem groupRecords_frame : ∀ {gs : List VaultGroup} {it it' : VaultIntent} {gi gi' : ℕ},
    groupRecords E gs (it, gi) = some (it', gi') →
      gi' = gi + gs.length ∧ ∃ v, it' = { it with groups := v }
  | [], it, _, _, _, h => by
    cases h
    exact ⟨rfl, it.groups, rfl⟩
  | grp :: gs, it, it', gi, gi', h => by
    obtain ⟨⟨it₁, gi₁⟩, h₁, h₂⟩ := Option.bind_eq_some_iff.1 h
    obtain ⟨-, hs⟩ := groupReader_step.1 h₁
    obtain ⟨rfl, rfl⟩ := Prod.mk.inj hs
    obtain ⟨hgi, v, rfl⟩ := groupRecords_frame h₂
    refine ⟨?_, v, rfl⟩
    rw [List.length_cons]
    omega

theorem keyReader_frame {k : KeyRecord} {n' : ℕ}
    (h : (keyReader E).step (it, n) (encodeKey k) = some (it', n')) :
    n' = n + 1 ∧ keysFrame it it' := by
  obtain ⟨⟨p, rest⟩, hp, rfl⟩ := Option.map_eq_some_iff.1 h
  obtain ⟨⟨it'', rest'⟩, hst, he⟩ := Option.map_eq_some_iff.1 hp
  obtain ⟨hs, -⟩ := Prod.mk.inj he
  obtain ⟨rfl, rfl⟩ := Prod.mk.inj hs
  rw [← List.append_nil (encodeKey k), storeKey_encodeKey] at hst
  obtain ⟨-, hst⟩ := Option.ite_none_right_eq_some.1 hst
  obtain ⟨it₁, hval, he'⟩ := Option.map_eq_some_iff.1 hst
  obtain ⟨rfl, -⟩ := Prod.mk.inj he'
  refine ⟨rfl, ?_⟩
  unfold vaultValidateAndStoreKey at hval
  split_ifs at hval <;> cases hval <;> exact ⟨_, _, rfl⟩

/-- Keys are counted, and leave the rest of the intent alone. -/
theorem keyRecords_frame : ∀ {ks : List KeyRecord} {it it' : VaultIntent} {n n' : ℕ},
    keyRecords E ks (it, n) = some (it', n') → n' = n + ks.length ∧ keysFrame it it'
  | [], it, _, _, _, h => by
    cases h
    exact ⟨rfl, it.keeperPks, it.challengerPks, rfl⟩
  | k :: ks, it, it', n, n', h => by
    obtain ⟨⟨it₁, n₁⟩, h₁, h₂⟩ := Option.bind_eq_some_iff.1 h
    obtain ⟨rfl, v, w, rfl⟩ := keyReader_frame h₁
    obtain ⟨hn, v', w', rfl⟩ := keyRecords_frame h₂
    refine ⟨?_, v', w', rfl⟩
    rw [List.length_cons]
    omega

/-! ## Payloads -/

theorem length_groupPayload (gs : List VaultGroup) :
    (gs.flatMap encodeGroup).length = 83 * gs.length := by
  simp [length_encodeGroup, Nat.mul_comm]

/-- All payloads of scalars that are taken have one length. -/
theorem length_scalars {net : Network} {out : VaultIntent} (h : vaultTlvParse net data out = .ok it) :
    data.length = ((List.range 13).map fun i => 3 + scalarLen i).sum := by
  obtain ⟨σ, vals, hσ, hv, rfl, -⟩ := vaultTlvParse_iff.1 h
  rw [← (hσ.map _).sum_eq, scalarPayload, encodeEntries, List.length_flatMap, List.map_map]
  refine congrArg List.sum (List.map_congr_left fun i hi => ?_)
  have hlen := (hv.field i (List.mem_range.1 (hσ.mem_iff.1 hi))).len
  simp [scalarEntry, hlen]

/-- The records behind the bytes of a load, and the intent they store. -/
structure Records (E : Env) (bytes : Bytes) (it : VaultIntent) (gi n : ℕ) : Prop where
  intro ::
  records : ∃ scal it₀ gs it₁ ks, vaultTlvParse E.network scal .zero = .ok it₀ ∧
    groupRecords E gs (it₀, 0) = some (it₁, gi) ∧ keyRecords E ks (it₁, 0) = some (it, n) ∧
    bytes = scal ++ gs.flatMap encodeGroup ++ ks.flatMap encodeKey

variable {bytes : Bytes}

theorem Records.scalars {scal : Bytes} (h : vaultTlvParse E.network scal .zero = .ok it) :
    Records E scal it 0 0 :=
  ⟨scal, it, [], it, [], h, rfl, rfl, by simp⟩

/-- More groups, while there are no keys. -/
theorem Records.groups (h : Records E bytes it gi 0) (hs : groupRecords E gs' (it, gi) = some (it', gi')) :
    Records E (bytes ++ gs'.flatMap encodeGroup) it' gi' 0 := by
  obtain ⟨scal, it₀, gs, it₁, ks, hparse, hg, hk, rfl⟩ := h.records
  have hks : ks = [] := by
    have hlen := (keyRecords_frame hk).1
    exact List.eq_nil_of_length_eq_zero (by omega)
  subst hks
  cases hk
  refine ⟨scal, it₀, gs ++ gs', it', [], hparse, ?_, rfl, by simp⟩
  rw [groupRecords_append, hg]
  exact hs

theorem Records.keys (h : Records E bytes it gi n) (hs : keyRecords E ks' (it, n) = some (it', n')) :
    Records E (bytes ++ ks'.flatMap encodeKey) it' gi n' := by
  obtain ⟨scal, it₀, gs, it₁, ks, hparse, hg, hk, rfl⟩ := h.records
  refine ⟨scal, it₀, gs, it₁, ks ++ ks', hparse, hg, ?_, by simp⟩
  rw [keyRecords_append, hk]
  exact hs

/-- The bytes of complete loads give their intent. -/
theorem Records.inj (h : Records E bytes it it.vaultCount n) (h' : Records E bytes it' it'.vaultCount n') :
    it = it' := by
  obtain ⟨scal, it₀, gs, it₁, ks, hparse, hg, hk, hbytes⟩ := h.records
  obtain ⟨scal', it₀', gs', it₁', ks', hparse', hg', hk', hbytes'⟩ := h'.records
  rw [hbytes, List.append_assoc, List.append_assoc] at hbytes'
  obtain ⟨rfl, hrest⟩ := List.append_inj hbytes' ((length_scalars hparse).trans (length_scalars hparse').symm)
  obtain rfl : it₀ = it₀' := Except.ok.inj (hparse.symm.trans hparse')
  obtain ⟨hgi, v, rfl⟩ := groupRecords_frame hg
  obtain ⟨hgi', v', rfl⟩ := groupRecords_frame hg'
  obtain ⟨-, a, b, rfl⟩ := keyRecords_frame hk
  obtain ⟨-, a', b', rfl⟩ := keyRecords_frame hk'
  have hlen : (gs.flatMap encodeGroup).length = (gs'.flatMap encodeGroup).length := by
    rw [length_groupPayload, length_groupPayload]
    have hcount : 0 + gs.length = 0 + gs'.length := hgi.symm.trans hgi'
    omega
  obtain ⟨hgbytes, hkbytes⟩ := List.append_inj hrest hlen
  rw [← storeGroups_records] at hg hg'
  rw [hgbytes, hg'] at hg
  cases hg
  rw [← storeKeys_records] at hk hk'
  rw [hkbytes, hk'] at hk
  exact (Prod.mk.inj (Option.some.inj hk)).1.symm

/-! ## Runs -/

/-- What the device holds of an intent is what the payloads store. -/
structure Recorded (E : Env) (log : Log) (d : Device) : Prop where
  loading : d.ctx.state = .hashDerived → d.approve.scalarsLoaded = true →
    Records E log.payloads d.intent d.tr.vaultGroupIndex d.approve.keysReceived
  loaded : d.ctx.state = .intentLoaded → ∃ it pk,
    Records E log.payloads it it.vaultCount (it.keeperCount + it.challengerCount) ∧
      E.pubkeyAt it.depositorPath.toList = some pk ∧ d.intent = { it with depositorPk := xonly pk }

variable {log log' : Log} {d d' d₁ : Device} {es es' : List Exchange}

theorem Recorded.idle (h : d.ctx = .zero) : Recorded E log d := by
  constructor <;> intro hst <;> rw [h] at hst <;> cases hst

theorem Recorded.same (h : Recorded E log d) (hl : log'.payloads = log.payloads)
    (hst : d'.ctx.state = d.ctx.state) (hi : d'.intent = d.intent) (ha : d'.approve = d.approve)
    (hg : d.ctx.state = .hashDerived → d'.tr.vaultGroupIndex = d.tr.vaultGroupIndex) :
    Recorded E log' d' := by
  constructor
  · intro hd hs
    rw [hst] at hd
    rw [ha] at hs ⊢
    rw [hl, hi, hg hd]
    exact h.loading hd hs
  · intro hd
    rw [hl, hi]
    exact h.loaded (hst ▸ hd)

theorem Recorded.sameSession (h : Recorded E log d) (hd : SameSession d d') : Recorded E log d' :=
  h.same rfl (congrArg VaultContext.state hd.ctx) hd.intent hd.approve
    fun hst => hd.group (by rw [hst]; decide)

/-- A derivation leaves no load behind. -/
theorem FinalizeEnd.recorded {r : Except Stop Bytes} (h : FinalizeEnd E d r d') (hc : d.ctx = .zero)
    (ha : d.approve = .zero) : Recorded E log d' := by
  cases h with
  | kept => exact .idle hc
  | wiped => exact .idle rfl
  | @opened pk =>
    refine ⟨fun _ hs => ?_, (nomatch ·)⟩
    rw [show (derivedDevice E (d.setStream false) pk).approve = d.approve from rfl, ha] at hs
    exact Bool.noConfusion hs

theorem Log.payloads_derive {p1 p2 : UInt8} {tr : List devIface.Event} {e : Ending} :
    (log.step ⟨.derive p1 p2 data, tr, e⟩).payloads = log.payloads := by
  have hderive : ∀ c buf, (log.derive c buf).payloads = log.payloads := by
    intro c buf
    rw [Log.derive]
    split_ifs <;> rfl
  rcases e with (_ | out) | _
  · rfl
  · show (log.succeed (.derive p1 p2 data)).payloads = _
    rw [Log.succeed]
    split_ifs
    · split
      · exact hderive _ _
      · rfl
    · split
      · exact hderive _ _
      · rfl
  · rfl

theorem Recorded.derive {p1 p2 : UInt8} {tr : List devIface.Event} {r : Except Stop Bytes}
    (h : Recorded E log d) (hs : SessionOk E log d) (hend : DeriveEnd E d p1 p2 data r d') :
    Recorded E (log.step ⟨.derive p1 p2 data, tr, .answered r⟩) d' := by
  have hz := (startDerive_zero hs).1
  have hidle := fun hstream => hs.idle (hs.stream hstream).1
  cases hend with
  | refused => exact h.same Log.payloads_derive rfl rfl rfl fun _ => rfl
  | malformed => exact .idle hz
  | begun => exact .idle hz
  | atOnce _ _ _ hf => exact hf.recorded hz rfl
  | dropped => exact .idle rfl
  | fed _ hstream => exact .idle (hidle hstream).1
  | last _ hstream _ hf => exact hf.recorded (hidle hstream).1 (hidle hstream).2.2

theorem Recorded.approve {p1 p2 : UInt8} {tr : List devIface.Event} {r : Except Stop Unit}
    (h : Recorded E log d) (hs : SessionOk E log d) (hend : ApproveEnd E d p1 p2 data r d') :
    Recorded E (log.step ⟨.approve p1 p2 data, tr, .answered (r.map fun _ => [])⟩) d' := by
  have hmore : p1 ≠ 0 → (log.step ⟨.approve p1 p2 data, tr, .answered (.ok [])⟩).payloads =
      log.payloads ++ data := by
    intro hne
    simp only [Log.step_ok, Log.succeed, if_neg hne]
  cases hend with
  | refused => exact h
  | wiped => exact .idle rfl
  | @scalars it hp hst hparse =>
    have hlog : (log.step ⟨.approve p1 p2 data, tr, .answered (.ok [])⟩).payloads = data := by
      simp only [Log.step_ok, Log.succeed, if_pos hp]
    refine ⟨fun _ _ => ?_, fun hd => by cases hd⟩
    exact (congrArg (Records E · it 0 0) hlog).mpr (.scalars hparse)
  | @groups it gi hp hl hg =>
    have hst := hs.loading hl
    have hfull := ((hs.derived hst).load hl).2.2.2.1
    refine ⟨fun _ _ => ?_, fun hd => absurd (hst.symm.trans hd) (by decide)⟩
    refine (congrArg (Records E · it gi d.approve.keysReceived) (hmore (by rw [hp]; decide))).mpr ?_
    obtain ⟨gs, rfl, hgs⟩ := storeGroups_some hg
    have hrec := h.loading hst hl
    rcases hfull with h0 | hv
    · rw [h0] at hrec ⊢
      exact hrec.groups hgs
    · rw [hv] at hg
      obtain ⟨rfl, rfl⟩ := storeGroups_full hg
      have hlen := (groupRecords_frame hgs).1
      obtain rfl : gs = [] := List.eq_nil_of_length_eq_zero (by omega)
      rw [List.flatMap_nil, List.append_nil, ← hv]
      exact hrec
  | @keys it n hp hl hv hst hk hn =>
    refine ⟨fun _ _ => ?_, fun hd => absurd (hst.symm.trans hd) (by decide)⟩
    refine (congrArg (Records E · it d.tr.vaultGroupIndex n) (hmore (by rw [hp]; decide))).mpr ?_
    obtain ⟨ks, rfl, hks⟩ := storeKeys_some hk
    exact (h.loading hst hl).keys hks
  | @loaded it n pk junk hp hl hv hk hn hc =>
    have hst : d.ctx.state = .hashDerived := hc.state
    obtain ⟨hsc, -, hkeys, -, -⟩ := (hs.derived hst).load hl
    have hcount := (storeKeys_ok hk hsc.counts.1.2 hsc.counts.2.1.2 hkeys).1.count
    obtain ⟨ks, rfl, hks⟩ := storeKeys_some hk
    have hrec := (h.loading hst hl).keys hks
    obtain ⟨-, a, b, rfl⟩ := keyRecords_frame hks
    obtain rfl : n = d.intent.keeperCount + d.intent.challengerCount :=
      le_antisymm hcount (Nat.not_lt.1 hn)
    refine ⟨fun hd => absurd (show VaultState.intentLoaded = .hashDerived from hd) (by decide), fun _ => ?_⟩
    refine ⟨{ d.intent with keeperPks := a, challengerPks := b }, pk, ?_, hc.pubkey, rfl⟩
    rw [hv] at hrec
    exact (congrArg (Records E · _ _ _) (hmore (by rw [hp]; decide))).mpr hrec

theorem Recorded.sign {st : SignPsbtState} {mk : List Mark} {r : Option (Except Stop Unit)}
    (h : Recorded E log d) (hend : SignEnd E st d mk r d') : Recorded E log d' := by
  cases hend with
  | kept _ _ hd => exact h.sameSession hd
  | prepegin _ _ _ hd => exact (h.sameSession hd).same rfl rfl rfl rfl fun _ => rfl
  | @signed kind _ _ d₁ _ hf hd =>
    have h₁ := h.sameSession hd
    have hf₁ := hf.same hd
    cases kind with
    | standalone => exact h₁
    | pegin | payout | nopayout =>
      exact h₁.same rfl rfl rfl rfl fun hst => absurd (hst.symm.trans hf₁.1) (by decide)
  | wiped => exact .idle rfl
  | restarted => exact .idle rfl

theorem Recorded.step {x : Exchange} (h : Recorded E log d) (hs : SessionOk E log d)
    (hx : StepEnd E d x d') : Recorded E (log.step x) d' := by
  cases hx with
  | derive hend => exact h.derive hs hend
  | approve hend => exact h.approve hs hend
  | @getState _ _ _ _ r => cases r <;> exact h
  | sign hreq hend =>
    rw [Log.step_sign hreq]
    exact h.sign hend

/-- In every reachable state the intent is what the payloads store. -/
theorem Reach.recorded (h : Reach E es d) : Recorded E (.ofRun es) d :=
  Run.hist (P := fun es d => Recorded E (Log.ofRun es) d) (.idle rfl)
    (fun es d x d' hr hd hx => by
      rw [Log.ofRun_snoc]
      exact hd.step (Reach.session hr) hx.toEnd) h

/-- The payloads of a loaded session give its intent. -/
theorem Reach.intent_of_payloads (h : Reach E es d) (h' : Reach E es' d')
    (hl : d.ctx.state = .intentLoaded) (hl' : d'.ctx.state = .intentLoaded)
    (hp : (Log.ofRun es).payloads = (Log.ofRun es').payloads) : d.intent = d'.intent := by
  obtain ⟨it, pk, hrec, hpk, hi⟩ := h.recorded.loaded hl
  obtain ⟨it', pk', hrec', hpk', hi'⟩ := h'.recorded.loaded hl'
  rw [← hp] at hrec'
  obtain rfl := hrec.inj hrec'
  obtain rfl : pk = pk' := Option.some.inj (hpk.symm.trans hpk')
  rw [hi, hi']

end BabylonVault
