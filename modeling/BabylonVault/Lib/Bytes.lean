/-
  Byte strings.

  * `leBytes`, `ofLE`, `ofBE`: fixed-width integers and their encodings;
    the little-endian codec is a bijection on strings of the given width
    (`ofLE_leBytes`, `leBytes_ofLE`).
  * `readAt`: a read that fails outside of the string.
  * `memcmp`: the C comparison, which on strings of one length is the order of
    the big-endian integers (`memcmp_eq_compare`).
  * `bit`, `setBit`, `popcount`: bit masks kept in a byte string.
-/
import Mathlib.Tactic

/-- A byte string. -/
abbrev Bytes := List UInt8

namespace Bytes

/-! ## Integers -/

/-- The `n` low bytes of `v`, least significant first. -/
def leBytes : ℕ → ℕ → Bytes
  | 0, _ => []
  | n + 1, v => UInt8.ofNat v :: leBytes n (v / 256)

/-- The integer a string stands for, least significant byte first. -/
def ofLE : Bytes → ℕ
  | [] => 0
  | b :: bs => b.toNat + 256 * ofLE bs

/-- The integer a string stands for, most significant byte first. -/
def ofBE (bs : Bytes) : ℕ := bs.foldl (fun v b => 256 * v + b.toNat) 0

@[simp] theorem length_leBytes : ∀ n v, (leBytes n v).length = n
  | 0, _ => rfl
  | n + 1, v => by simp [leBytes, length_leBytes n]

theorem ofLE_leBytes : ∀ {n v : ℕ}, v < 256 ^ n → ofLE (leBytes n v) = v
  | 0, v, h => by simp at h; simp [leBytes, ofLE, h]
  | n + 1, v, h => by
    have hv : v / 256 < 256 ^ n := by
      rw [Nat.div_lt_iff_lt_mul (by norm_num)]; rwa [pow_succ] at h
    have hb : (UInt8.ofNat v).toNat = v % 256 := by simp
    simp only [leBytes, ofLE, ofLE_leBytes hv, hb]
    omega

theorem leBytes_ofLE : ∀ bs : Bytes, leBytes bs.length (ofLE bs) = bs
  | [] => rfl
  | b :: bs => by
    have hb : b.toNat < 256 := b.toNat_lt
    have h1 : (b.toNat + 256 * ofLE bs) / 256 = ofLE bs := by omega
    have h2 : UInt8.ofNat (b.toNat + 256 * ofLE bs) = b := by
      apply UInt8.toNat_inj.1
      simp
    simp only [List.length_cons, ofLE, leBytes, h1, h2, leBytes_ofLE bs]

theorem leBytes_inj {n v w : ℕ} (hv : v < 256 ^ n) (hw : w < 256 ^ n)
    (h : leBytes n v = leBytes n w) : v = w := by
  rw [← ofLE_leBytes hv, h, ofLE_leBytes hw]

theorem ofLE_lt : ∀ bs : Bytes, ofLE bs < 256 ^ bs.length
  | [] => by simp [ofLE]
  | b :: bs => by
    have hb : b.toNat < 256 := b.toNat_lt
    have ih := ofLE_lt bs
    simp only [ofLE, List.length_cons, pow_succ]
    omega

theorem foldl_be (bs : Bytes) : ∀ v : ℕ,
    bs.foldl (fun v b => 256 * v + b.toNat) v = v * 256 ^ bs.length + ofBE bs := by
  induction bs with
  | nil => intro v; simp [ofBE]
  | cons b bs ih =>
    intro v
    have h0 := ih b.toNat
    have h1 := ih (256 * v + b.toNat)
    simp only [ofBE, List.foldl_cons, List.length_cons, mul_zero, zero_add] at *
    rw [h1, h0, pow_succ]
    ring

theorem ofBE_cons (b : UInt8) (bs : Bytes) :
    ofBE (b :: bs) = b.toNat * 256 ^ bs.length + ofBE bs := by
  have h := foldl_be bs b.toNat
  simpa [ofBE] using h

theorem ofBE_lt : ∀ bs : Bytes, ofBE bs < 256 ^ bs.length
  | [] => by simp [ofBE]
  | b :: bs => by
    have hb : b.toNat < 256 := b.toNat_lt
    have ih := ofBE_lt bs
    rw [ofBE_cons, List.length_cons, pow_succ]
    nlinarith

/-- Reading from the other end. -/
theorem ofBE_reverse (bs : Bytes) : ofBE bs.reverse = ofLE bs := by
  rw [ofBE, List.foldl_reverse]
  induction bs with
  | nil => rfl
  | cons b bs ih =>
    rw [List.foldr_cons, ih, ofLE]
    omega

theorem ofBE_leBytes {n v : ℕ} (h : v < 256 ^ n) : ofBE (leBytes n v).reverse = v := by
  rw [ofBE_reverse, ofLE_leBytes h]

/-! ## Checked reads -/

/-- `n` bytes from `pos` on; none when one of them lies outside. -/
def readAt (b : Bytes) (pos n : ℕ) : Option Bytes :=
  if pos + n ≤ b.length then some ((b.drop pos).take n) else none

theorem readAt_of_le {b : Bytes} {pos n : ℕ} (h : pos + n ≤ b.length) :
    readAt b pos n = some ((b.drop pos).take n) := if_pos h

/-! ## Comparison -/

/-- `memcmp` on two strings of one length: the first byte that differs decides. -/
def memcmp : Bytes → Bytes → Ordering
  | x :: xs, y :: ys => if x < y then .lt else if y < x then .gt else memcmp xs ys
  | _, _ => .eq

/-- On strings of one length `memcmp` is the order of the big-endian integers. -/
theorem memcmp_eq_compare : ∀ {a b : Bytes}, a.length = b.length →
    memcmp a b = compare (ofBE a) (ofBE b)
  | [], [], _ => by simp [memcmp]
  | x :: xs, y :: ys, h => by
    have hl : xs.length = ys.length := by simpa using h
    have hx := ofBE_lt xs
    have hy := ofBE_lt ys
    rw [memcmp, ofBE_cons, ofBE_cons, hl]
    rw [hl] at hx
    split_ifs with h1 h2
    · have h1' : x.toNat + 1 ≤ y.toNat := UInt8.lt_iff_toNat_lt.1 h1
      symm; rw [compare_lt_iff_lt]
      nlinarith
    · have h2' : y.toNat + 1 ≤ x.toNat := UInt8.lt_iff_toNat_lt.1 h2
      symm; rw [compare_gt_iff_gt]
      nlinarith
    · have he : x.toNat = y.toNat := by
        rw [UInt8.lt_iff_toNat_lt] at h1 h2; omega
      rw [memcmp_eq_compare hl, he]
      rcases lt_trichotomy (ofBE xs) (ofBE ys) with h | h | h
      · rw [compare_lt_iff_lt.2 h]; symm; rw [compare_lt_iff_lt]; omega
      · simp [h]
      · rw [compare_gt_iff_gt.2 h]; symm; rw [compare_gt_iff_gt]; omega

theorem memcmp_eq_iff : ∀ {a b : Bytes}, a.length = b.length → (memcmp a b = .eq ↔ a = b)
  | [], [], _ => by simp [memcmp]
  | x :: xs, y :: ys, h => by
    have hl : xs.length = ys.length := by simpa using h
    rw [memcmp]
    split_ifs with h1 h2
    · have : x ≠ y := by rintro rfl; rw [UInt8.lt_iff_toNat_lt] at h1; omega
      simp [this]
    · have : x ≠ y := by rintro rfl; rw [UInt8.lt_iff_toNat_lt] at h2; omega
      simp [this]
    · have he : x = y := by
        apply UInt8.toNat_inj.1
        rw [UInt8.lt_iff_toNat_lt] at h1 h2; omega
      rw [memcmp_eq_iff hl, he]
      simp

theorem ofBE_inj {a b : Bytes} (hl : a.length = b.length) (h : ofBE a = ofBE b) : a = b := by
  rw [← memcmp_eq_iff hl, memcmp_eq_compare hl, h]
  simp

/-! ## Single bytes -/

/-- What holds of all 256 bytes. -/
theorem forall_byte {P : UInt8 → Prop} (h : ∀ n : Fin 256, P (UInt8.ofNat n)) (x : UInt8) : P x := by
  have := h ⟨x.toNat, x.toNat_lt⟩
  rwa [UInt8.ofNat_toNat] at this

/-- The sign bit of a byte. -/
theorem sign_iff (b : UInt8) : b &&& 0x80 = 0 ↔ b.toNat < 128 := by
  revert b
  exact forall_byte (by decide +kernel)

/-! ## Bit masks -/

/-- Bit `i` of a mask: bit `i % 8` of byte `i / 8`. -/
def bit (m : Bytes) (i : ℕ) : Bool := (m.getD (i / 8) 0).toNat.testBit (i % 8)

/-- The mask with bit `i` set. -/
def setBit (m : Bytes) (i : ℕ) : Bytes :=
  m.set (i / 8) (m.getD (i / 8) 0 ||| UInt8.ofNat (1 <<< (i % 8)))

/-- The number of set bits. -/
def popcount (m : Bytes) : ℕ := ((List.range (8 * m.length)).filter (bit m)).length

@[simp] theorem length_setBit (m : Bytes) (i : ℕ) : (setBit m i).length = m.length := by
  simp [setBit]

theorem bit_setBit {m : Bytes} {i : ℕ} (hi : i < 8 * m.length) (j : ℕ) :
    bit (setBit m i) j = (decide (i = j) || bit m j) := by
  have hi' : i / 8 < m.length := by omega
  by_cases hd : i / 8 = j / 8
  · have hr : ((1 <<< (i % 8) : ℕ) % 256) = 2 ^ (i % 8) := by
      have : i % 8 < 8 := Nat.mod_lt _ (by norm_num)
      interval_cases i % 8 <;> rfl
    have hs : (setBit m i).getD (j / 8) 0
        = m.getD (j / 8) 0 ||| UInt8.ofNat (1 <<< (i % 8)) := by
      simp [setBit, hd, List.getD_eq_getElem?_getD, hd ▸ hi']
    have hm : i % 8 = j % 8 ↔ i = j := by omega
    simp only [bit, hs, UInt8.toNat_or, Nat.testBit_or, UInt8.toNat_ofNat', hr,
      Nat.testBit_two_pow, hm, Bool.or_comm]
  · have hne : i ≠ j := by rintro rfl; exact hd rfl
    have hs : (setBit m i).getD (j / 8) 0 = m.getD (j / 8) 0 := by
      simp [setBit, List.getD_eq_getElem?_getD, hd]
    simp only [bit, hs, hne, decide_false, Bool.false_or]

/-- A bit that is clear after another was set was clear before, and another one. -/
theorem bit_of_setBit {m : Bytes} {i j : ℕ} (hi : i < 8 * m.length) (h : bit (setBit m i) j = false) :
    i ≠ j ∧ bit m j = false := by
  rw [bit_setBit hi, Bool.or_eq_false_iff] at h
  exact ⟨of_decide_eq_false h.1, h.2⟩

theorem bit_setBit_of_ne {m : Bytes} {i j : ℕ} (hi : i < 8 * m.length) (hne : i ≠ j) :
    bit (setBit m i) j = bit m j := by
  rw [bit_setBit hi, decide_eq_false hne, Bool.false_or]

theorem bit_replicate_zero (n i : ℕ) : bit (List.replicate n 0) i = false := by
  by_cases h : i / 8 < n <;> simp [bit, h]

theorem popcount_replicate_zero (n : ℕ) : popcount (List.replicate n 0) = 0 := by
  simp [popcount, bit_replicate_zero]

/-- Setting a clear bit of the mask adds one to the count. -/
theorem popcount_setBit {m : Bytes} {i : ℕ} (hi : i < 8 * m.length) (h : bit m i = false) :
    popcount (setBit m i) = popcount m + 1 := by
  have key : ∀ l : List ℕ, l.Nodup → i ∈ l →
      (l.filter (bit (setBit m i))).length = (l.filter (bit m)).length + 1 := by
    intro l
    induction l with
    | nil => simp
    | cons j l ih =>
      intro hnd hmem
      obtain ⟨hj, hnd⟩ := List.nodup_cons.1 hnd
      rcases List.mem_cons.1 hmem with heq | hl
      · subst heq
        have hsame : l.filter (bit (setBit m i)) = l.filter (bit m) := by
          apply List.filter_congr
          intro k hk
          have hne : i ≠ k := by rintro rfl; exact hj hk
          simp [bit_setBit hi, hne]
        simp [bit_setBit hi, h, hsame]
      · have hne : i ≠ j := by rintro rfl; exact hj hl
        have ih := ih hnd hl
        simp only [List.filter_cons, bit_setBit hi j, hne, decide_false, Bool.false_or]
        split_ifs <;> simp [ih]
  simpa [popcount] using key _ List.nodup_range (List.mem_range.2 hi)

/-- A mask within `S` that leaves out a member has fewer bits than `S` has members. -/
theorem popcount_lt {m : Bytes} {S : Finset ℕ} {i : ℕ} (hm : ∀ j, bit m j = true → j ∈ S)
    (hi : i ∈ S) (h : bit m i = false) : popcount m < S.card := by
  have hset : ((List.range (8 * m.length)).filter (bit m)).toFinset ⊆ S.erase i := by
    intro j hj
    obtain ⟨-, hbit⟩ := List.mem_filter.1 (List.mem_toFinset.1 hj)
    refine Finset.mem_erase.2 ⟨?_, hm j hbit⟩
    rintro rfl
    rw [h] at hbit
    cases hbit
  calc popcount m = ((List.range (8 * m.length)).filter (bit m)).toFinset.card :=
        (List.toFinset_card_of_nodup (List.nodup_range.filter _)).symm
    _ ≤ (S.erase i).card := Finset.card_le_card hset
    _ < S.card := Finset.card_erase_lt_of_mem hi

theorem setBit_comm (m : Bytes) (i j : ℕ) : setBit (setBit m i) j = setBit (setBit m j) i := by
  by_cases h : i / 8 = j / 8
  · simp only [setBit, h, List.set_set]
    by_cases hj : j / 8 < m.length
    · simp only [List.getD_eq_getElem?_getD, List.getElem?_set_self hj, Option.getD_some]
      rw [UInt8.or_assoc, UInt8.or_assoc, UInt8.or_comm (UInt8.ofNat (1 <<< (i % 8)))]
    · rw [List.set_eq_of_length_le (by omega), List.set_eq_of_length_le (by omega)]
  · simp only [setBit, List.getD_eq_getElem?_getD, List.getElem?_set_ne h, List.getElem?_set_ne (Ne.symm h)]
    exact List.set_comm _ _ h

end Bytes
