/-
  TLV entries.

  * `entry`: an entry as it is sent, `tag(2) | len(1) | value`; the device cuts off the
    front of a payload exactly what was sent (`tlvEntry_iff`).
  * `encodeEntries`: several of them; the loop of `vault_tlv_parse` is a fold over them
    (`tlvLoop_entries`), and takes nothing else (`tlvLoop_ok_entries`).
-/
import BabylonVault.Wellformed

namespace BabylonVault
open Bytes

variable {net : Network} {tag n seen : ℕ} {v w data rest : Bytes} {es : List (ℕ × Bytes)}

/-- A TLV entry. -/
def entry (tag : ℕ) (v : Bytes) : Bytes :=
  (leBytes 2 tag).reverse ++ [UInt8.ofNat v.length] ++ v

/-- A big-endian TLV entry of `n` bytes. -/
def numEntry (tag n v : ℕ) : Bytes := entry tag (leBytes n v).reverse

/-- Some entries, one after the other. -/
def encodeEntries (es : List (ℕ × Bytes)) : Bytes := es.flatMap fun e => entry e.1 e.2

/-- An entry's tag and length fit their fields. -/
def EntryFits (e : ℕ × Bytes) : Prop := e.1 < 2 ^ 16 ∧ e.2.length < 2 ^ 8

@[simp] theorem length_entry : (entry tag v).length = 3 + v.length := by
  simp [entry]
  omega

theorem toNat_ofNat_byte {t : ℕ} (ht : t < 256) : (UInt8.ofNat t).toNat = t := by
  rw [UInt8.toNat_ofNat', Nat.mod_eq_of_lt ht]

theorem tlvEntry_entry (rest : Bytes) (hf : EntryFits (tag, w)) :
    tlvEntry (entry tag w ++ rest) = .ok (tag, w, rest) := by
  obtain ⟨ht, hl⟩ := hf
  have hlen : (UInt8.ofNat w.length).toNat = w.length := toNat_ofNat_byte hl
  have htag : ofBE [UInt8.ofNat (tag / 256), UInt8.ofNat tag] = tag := by
    show 256 * (256 * 0 + (UInt8.ofNat (tag / 256)).toNat) + (UInt8.ofNat tag).toNat = tag
    have hhi : (UInt8.ofNat (tag / 256)).toNat = tag / 256 := toNat_ofNat_byte (by omega)
    have hlo : (UInt8.ofNat tag).toNat = tag % 256 := UInt8.toNat_ofNat'
    omega
  show tlvEntry (UInt8.ofNat (tag / 256) :: UInt8.ofNat tag :: UInt8.ofNat w.length :: (w ++ rest)) = _
  unfold tlvEntry
  dsimp only
  rw [if_neg (by rw [hlen, List.length_append]; omega), hlen, htag, List.take_left' rfl,
    List.drop_left' rfl]

/-- What the device takes off the front of a payload is an entry as it is sent. -/
theorem tlvEntry_ok (h : tlvEntry data = .ok (tag, v, rest)) :
    EntryFits (tag, v) ∧ data = entry tag v ++ rest := by
  unfold tlvEntry at h
  split at h
  · rename_i hi lo len data
    split_ifs at h with hlen
    cases h
    have hl : (data.take len.toNat).length = len.toNat := by
      rw [List.length_take]
      omega
    have hhi := hi.toNat_lt
    have hlo := lo.toNat_lt
    have hlen' := len.toNat_lt
    have htag : ofBE [hi, lo] = 256 * hi.toNat + lo.toNat := by
      show 256 * (256 * 0 + hi.toNat) + lo.toNat = _
      omega
    refine ⟨⟨?_, ?_⟩, ?_⟩
    · show ofBE [hi, lo] < 2 ^ 16
      omega
    · show (data.take len.toNat).length < 2 ^ 8
      omega
    · have h1 : UInt8.ofNat ((256 * hi.toNat + lo.toNat) / 256) = hi := by
        rw [show (256 * hi.toNat + lo.toNat) / 256 = hi.toNat by omega, UInt8.ofNat_toNat]
      have h2 : UInt8.ofNat (256 * hi.toNat + lo.toNat) = lo := by
        refine UInt8.toNat_inj.1 ?_
        rw [UInt8.toNat_ofNat']
        omega
      show _ = UInt8.ofNat (ofBE [hi, lo] / 256) :: UInt8.ofNat (ofBE [hi, lo]) ::
        UInt8.ofNat (data.take len.toNat).length :: (data.take len.toNat ++ data.drop len.toNat)
      rw [hl, htag, h1, h2, UInt8.ofNat_toNat, List.take_append_drop]
  · cases h

theorem tlvEntry_iff : tlvEntry data = .ok (tag, v, rest) ↔
    EntryFits (tag, v) ∧ data = entry tag v ++ rest := by
  constructor
  · exact tlvEntry_ok
  · rintro ⟨hf, rfl⟩
    exact tlvEntry_entry rest hf

/-- A payload consists of entries in one way. -/
theorem encodeEntries_inj : ∀ {es es' : List (ℕ × Bytes)}, (∀ e ∈ es, EntryFits e) →
    (∀ e ∈ es', EntryFits e) → encodeEntries es = encodeEntries es' → es = es'
  | [], [], _, _, _ => rfl
  | [], e :: es', _, _, h => by
    have hlen := congrArg List.length h
    rw [show encodeEntries (e :: es') = entry e.1 e.2 ++ encodeEntries es' from rfl,
      List.length_append, length_entry] at hlen
    have hnil : (encodeEntries []).length = 0 := rfl
    omega
  | e :: es, [], _, _, h => by
    have hlen := congrArg List.length h
    rw [show encodeEntries (e :: es) = entry e.1 e.2 ++ encodeEntries es from rfl,
      List.length_append, length_entry] at hlen
    have hnil : (encodeEntries []).length = 0 := rfl
    omega
  | e :: es, e' :: es', hf, hf', h => by
    obtain ⟨he, hes⟩ := List.forall_mem_cons.1 hf
    obtain ⟨he', hes'⟩ := List.forall_mem_cons.1 hf'
    have h₁ := tlvEntry_entry (encodeEntries es) he
    have h₂ := tlvEntry_entry (encodeEntries es') he'
    rw [show entry e.1 e.2 ++ encodeEntries es = entry e'.1 e'.2 ++ encodeEntries es' from h,
      h₂] at h₁
    obtain ⟨htag, hr⟩ := Prod.mk.inj (Except.ok.inj h₁)
    obtain ⟨hv, hrest⟩ := Prod.mk.inj hr
    rw [encodeEntries_inj hes hes' hrest.symm, Prod.ext htag hv]

/-! ## The loop over the scalars -/

/-- One turn of the loop. -/
def tlvStep (net : Network) (r : ℕ × VaultIntent) (e : ℕ × Bytes) : Except TlvErr (ℕ × VaultIntent) := do
  let (idx, out) ← tlvField net e.1 e.2 r.2
  if r.1.testBit idx then .error .duplicateTag else .ok (r.1 ||| 1 <<< idx, out)

theorem tlvLoop_entries : ∀ {es : List (ℕ × Bytes)} {fuel seen : ℕ} {out : VaultIntent},
    (∀ e ∈ es, EntryFits e) → (encodeEntries es).length ≤ fuel →
    tlvLoop net fuel (encodeEntries es) seen out = es.foldlM (tlvStep net) (seen, out)
  | [], 0, _, _, _, _ | [], _ + 1, _, _, _, _ => rfl
  | e :: es, fuel, seen, out, hf, hfuel => by
    obtain ⟨he, hes⟩ := List.forall_mem_cons.1 hf
    have hcons : encodeEntries (e :: es) = entry e.1 e.2 ++ encodeEntries es := rfl
    have hlen : (encodeEntries (e :: es)).length =
        3 + e.2.length + (encodeEntries es).length := by
      rw [hcons, List.length_append, length_entry]
    obtain ⟨fuel, rfl⟩ : ∃ k, fuel = k + 1 := ⟨fuel - 1, by omega⟩
    have hentry := tlvEntry_entry (encodeEntries es) he
    obtain ⟨b, data, hdata⟩ : ∃ b data, encodeEntries (e :: es) = b :: data :=
      List.exists_cons_of_ne_nil (List.ne_nil_of_length_pos (by omega))
    rw [hdata, tlvLoop, ← hdata, hcons, hentry, List.foldlM_cons]
    show (tlvField net e.1 e.2 out >>= _) = ((tlvField net e.1 e.2 out >>= _) >>= _)
    rcases tlvField net e.1 e.2 out with err | ⟨idx, out'⟩
    · rfl
    · show (if seen.testBit idx = true then _ else _) = (if seen.testBit idx = true then _ else _) >>= _
      split_ifs
      · rfl
      · exact tlvLoop_entries hes (by omega)

/-- A payload that is accepted consists of entries. -/
theorem tlvLoop_ok_entries : ∀ {fuel seen : ℕ} {data : Bytes} {out : VaultIntent}
    {r : ℕ × VaultIntent}, tlvLoop net fuel data seen out = .ok r →
    ∃ es, (∀ e ∈ es, EntryFits e) ∧ data = encodeEntries es
  | 0, _, [], _, _, _ | _ + 1, _, [], _, _, _ => ⟨[], by simp, rfl⟩
  | 0, _, _ :: _, _, _, h => by cases h
  | fuel + 1, seen, b :: data, out, _, h => by
    simp only [tlvLoop, ok_bind] at h
    obtain ⟨⟨tag, v, rest⟩, he, ⟨idx, out'⟩, -, h⟩ := h
    obtain ⟨hf, hdata⟩ := tlvEntry_ok he
    split_ifs at h
    obtain ⟨es, hes, rfl⟩ := tlvLoop_ok_entries h
    exact ⟨(tag, v) :: es, List.forall_mem_cons.2 ⟨hf, hes⟩, hdata⟩

end BabylonVault
