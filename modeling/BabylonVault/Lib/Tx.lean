/-
  Transactions and their non-witness serialization.

  * `Delimits`: an encoding that shows where it ends.
  * `compactSize`: the count and length prefix.
  * `Tx`, `Tx.encode`: a transaction with empty script-sigs; `Tx.encodeSigned` puts
    script-sigs in.
  * `Tx.encode_inj`: a serialization stands for one transaction.
-/
import BabylonVault.Lib.Buf

open Bytes

/-- On the values of `D` the encoding `f` shows where it ends. -/
def Delimits {α : Type} (f : α → Bytes) (D : α → Prop) : Prop :=
  ∀ ⦃a b x y⦄, D a → D b → f a ++ x = f b ++ y → a = b ∧ x = y

namespace Delimits
variable {α : Type} {f : α → Bytes} {D : α → Prop}

/-- An encoding of one width. -/
theorem of_length {n : ℕ} (hl : ∀ a, D a → (f a).length = n)
    (hi : ∀ a b, D a → D b → f a = f b → a = b) : Delimits f D := by
  intro a b x y ha hb h
  obtain ⟨h1, h2⟩ := List.append_inj h ((hl a ha).trans (hl b hb).symm)
  exact ⟨hi a b ha hb h1, h2⟩

/-- Lists of one length. -/
theorem flatMap (h : Delimits f D) : ∀ {as bs : List α} {x y : Bytes}, as.length = bs.length →
    (∀ a ∈ as, D a) → (∀ b ∈ bs, D b) → as.flatMap f ++ x = bs.flatMap f ++ y → as = bs ∧ x = y
  | [], [], _, _, _, _, _, he => ⟨rfl, he⟩
  | a :: as, b :: bs, x, y, hl, ha, hb, he => by
    obtain ⟨hda, has⟩ := List.forall_mem_cons.1 ha
    obtain ⟨hdb, hbs⟩ := List.forall_mem_cons.1 hb
    rw [List.flatMap_cons, List.flatMap_cons, List.append_assoc, List.append_assoc] at he
    obtain ⟨rfl, he'⟩ := h hda hdb he
    obtain ⟨rfl, hxy⟩ := h.flatMap (Nat.succ.inj hl) has hbs he'
    exact ⟨rfl, hxy⟩

end Delimits

theorem delimits_leBytes (n : ℕ) : Delimits (leBytes n) (· < 256 ^ n) :=
  .of_length (fun _ _ => length_leBytes _ _) fun _ _ ha hb h => leBytes_inj ha hb h

/-! ## Compact sizes -/

/-- A count of one, three, five or nine bytes. -/
def compactSize (v : ℕ) : Bytes :=
  if v < 0xFD then leBytes 1 v
  else if v ≤ 0xFFFF then 0xFD :: leBytes 2 v
  else if v ≤ 0xFFFFFFFF then 0xFE :: leBytes 4 v
  else 0xFF :: leBytes 8 v

/-- The width of the number behind the first byte of a longer form. -/
def compactWidth (m : UInt8) : ℕ := 2 ^ (m.toNat - 0xFC)

/-- The first byte tells the four forms apart. -/
theorem compactSize_cases (v : ℕ) :
    (v < 0xFD ∧ compactSize v = [UInt8.ofNat v]) ∨
      ∃ m, compactSize v = m :: leBytes (compactWidth m) v ∧ 0xFD ≤ m.toNat ∧
        (v < 256 ^ 8 → v < 256 ^ compactWidth m) := by
  unfold compactSize
  split_ifs with h1 h2 h3
  · exact .inl ⟨h1, rfl⟩
  · exact .inr ⟨0xFD, rfl, by decide, fun _ => show v < 256 ^ 2 by omega⟩
  · exact .inr ⟨0xFE, rfl, by decide, fun _ => show v < 256 ^ 4 by omega⟩
  · exact .inr ⟨0xFF, rfl, by decide, fun h => h⟩

theorem delimits_compactSize : Delimits compactSize (· < 256 ^ 8) := by
  intro a b x y ha hb h
  have hbyte : ∀ v, v < 0xFD → (UInt8.ofNat v).toNat = v := fun v hv => by
    rw [UInt8.toNat_ofNat']
    omega
  rcases compactSize_cases a with ⟨ha', hea⟩ | ⟨m, hea, hm, han⟩
  · rcases compactSize_cases b with ⟨hb', heb⟩ | ⟨k, heb, hk, hbl⟩
    · rw [hea, heb] at h
      obtain ⟨hab, hxy⟩ := List.cons.inj h
      refine ⟨?_, hxy⟩
      rw [← hbyte a ha', ← hbyte b hb', hab]
    · rw [hea, heb] at h
      obtain ⟨hab, -⟩ := List.cons.inj h
      rw [← hab, hbyte a ha'] at hk
      omega
  · rcases compactSize_cases b with ⟨hb', heb⟩ | ⟨k, heb, hk, hbl⟩
    · rw [hea, heb] at h
      obtain ⟨hab, -⟩ := List.cons.inj h
      rw [hab, hbyte b hb'] at hm
      omega
    · rw [hea, heb] at h
      obtain ⟨rfl, h'⟩ := List.cons.inj h
      exact delimits_leBytes _ (han ha) (hbl hb) h'

/-! ## Transactions -/

/-- An input: the output it spends and its sequence. -/
structure TxIn where
  prevTxid : Buf 32
  vout : UInt32
  sequence : UInt32
  deriving DecidableEq

/-- An output. -/
structure TxOut where
  value : UInt64
  script : Bytes
  deriving DecidableEq

/-- A transaction without its witnesses. -/
structure Tx where
  version : UInt32
  ins : List TxIn
  outs : List TxOut
  lockTime : UInt32
  deriving DecidableEq

/-- The serialization of an input with an empty script-sig. -/
def TxIn.encode (i : TxIn) : Bytes :=
  i.prevTxid.toList ++ leBytes 4 i.vout.toNat ++ [0] ++ leBytes 4 i.sequence.toNat

/-- The serialization of an input with a script-sig. -/
def TxIn.encodeSigned (i : TxIn) (scriptSig : Bytes) : Bytes :=
  i.prevTxid.toList ++ leBytes 4 i.vout.toNat ++ (compactSize scriptSig.length ++ scriptSig) ++
    leBytes 4 i.sequence.toNat

/-- The serialization of an output. -/
def TxOut.encode (o : TxOut) : Bytes :=
  leBytes 8 o.value.toNat ++ compactSize o.script.length ++ o.script

namespace Tx
variable (t : Tx)

/-- The serialization without witnesses, of which a txid is the hash. -/
def encode : Bytes :=
  leBytes 4 t.version.toNat ++ compactSize t.ins.length ++ t.ins.flatMap TxIn.encode ++
    compactSize t.outs.length ++ t.outs.flatMap TxOut.encode ++ leBytes 4 t.lockTime.toNat

/-- The same with these script-sigs in the inputs. -/
def encodeSigned (scriptSigs : List Bytes) : Bytes :=
  leBytes 4 t.version.toNat ++ compactSize t.ins.length ++
    (t.ins.zip scriptSigs).flatMap (fun x => x.1.encodeSigned x.2) ++
    compactSize t.outs.length ++ t.outs.flatMap TxOut.encode ++ leBytes 4 t.lockTime.toNat

/-- The counts and lengths fit a compact size. -/
structure Sized : Prop where
  ins : t.ins.length < 256 ^ 8
  outs : t.outs.length < 256 ^ 8
  scripts : ∀ o ∈ t.outs, o.script.length < 256 ^ 8

end Tx

theorem TxIn.encodeSigned_nil (i : TxIn) : i.encodeSigned [] = i.encode := rfl

/-- Without script-sigs the two serializations are one. -/
theorem Tx.encodeSigned_empty {t : Tx} {scriptSigs : List Bytes}
    (hl : scriptSigs.length = t.ins.length) (h : ∀ sig ∈ scriptSigs, sig = []) :
    t.encodeSigned scriptSigs = t.encode := by
  have hins : ∀ {ins : List TxIn} {sigs : List Bytes}, sigs.length = ins.length →
      (∀ sig ∈ sigs, sig = []) →
      (ins.zip sigs).flatMap (fun x => x.1.encodeSigned x.2) = ins.flatMap TxIn.encode := by
    intro ins
    induction ins with
    | nil =>
      intro sigs _ _
      rw [List.zip_nil_left, List.flatMap_nil, List.flatMap_nil]
    | cons i ins ih =>
      intro sigs hl h
      obtain ⟨sig, sigs, rfl⟩ := List.exists_cons_of_length_eq_add_one hl
      obtain ⟨rfl, hsigs⟩ := List.forall_mem_cons.1 h
      rw [List.zip_cons_cons, List.flatMap_cons, List.flatMap_cons, TxIn.encodeSigned_nil,
        ih (Nat.succ.inj hl) hsigs]
  rw [Tx.encodeSigned, Tx.encode, hins hl h]

theorem delimits_uint32 : Delimits (fun v : UInt32 => leBytes 4 v.toNat) fun _ => True :=
  .of_length (fun _ _ => length_leBytes _ _) fun a b _ _ h =>
    UInt32.toNat_inj.1 (leBytes_inj a.toNat_lt b.toNat_lt h)

theorem delimits_uint64 : Delimits (fun v : UInt64 => leBytes 8 v.toNat) fun _ => True :=
  .of_length (fun _ _ => length_leBytes _ _) fun a b _ _ h =>
    UInt64.toNat_inj.1 (leBytes_inj a.toNat_lt b.toNat_lt h)

theorem delimits_buf (n : ℕ) : Delimits (fun b : Buf n => b.toList) fun _ => True :=
  .of_length (fun b _ => b.toList_length) fun _ _ _ _ h => Buf.toList_inj.1 h

theorem delimits_txIn : Delimits TxIn.encode fun _ => True := by
  rintro ⟨t, v, s⟩ ⟨t', v', s'⟩ x y - - h
  simp only [TxIn.encode, List.append_assoc] at h
  obtain ⟨rfl, h₁⟩ := delimits_buf 32 trivial trivial h
  obtain ⟨rfl, h₂⟩ := delimits_uint32 trivial trivial h₁
  obtain ⟨rfl, h₃⟩ := delimits_uint32 trivial trivial (List.cons.inj h₂).2
  exact ⟨rfl, h₃⟩

theorem delimits_txOut : Delimits TxOut.encode (·.script.length < 256 ^ 8) := by
  rintro ⟨v, s⟩ ⟨v', s'⟩ x y hs hs' h
  simp only [TxOut.encode, List.append_assoc] at h
  obtain ⟨rfl, h₁⟩ := delimits_uint64 trivial trivial h
  obtain ⟨hl, h₂⟩ := delimits_compactSize hs hs' h₁
  obtain ⟨rfl, h₃⟩ := List.append_inj h₂ hl
  exact ⟨rfl, h₃⟩

/-- A serialization stands for one transaction. -/
theorem Tx.encode_inj {t u : Tx} (ht : t.Sized) (hu : u.Sized) (h : t.encode = u.encode) :
    t = u := by
  obtain ⟨v, ins, outs, l⟩ := t
  obtain ⟨v', ins', outs', l'⟩ := u
  simp only [Tx.encode, List.append_assoc] at h
  obtain ⟨rfl, h₁⟩ := delimits_uint32 trivial trivial h
  obtain ⟨hi, h₂⟩ := delimits_compactSize ht.ins hu.ins h₁
  obtain ⟨rfl, h₃⟩ := delimits_txIn.flatMap hi (by simp) (by simp) h₂
  obtain ⟨ho, h₄⟩ := delimits_compactSize ht.outs hu.outs h₃
  obtain ⟨rfl, h₅⟩ := delimits_txOut.flatMap ho ht.scripts hu.scripts h₄
  have hlock : leBytes 4 l.toNat ++ [] = leBytes 4 l'.toNat ++ [] := by simpa using h₅
  obtain ⟨rfl, -⟩ := delimits_uint32 trivial trivial hlock
  rfl
