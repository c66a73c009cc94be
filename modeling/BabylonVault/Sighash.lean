/-
  The sighash types of the inputs that are signed.

  * `Flow.signedInput`, `SignPsbtState.WalletInput`: the inputs the vault's signer and
    the base app sign.
  * `SighashDiscipline`: every one of them commits to all inputs and outputs.
  * `LooseWc`: the PSBTs with a wallet input that no validator has looked at.
-/
import BabylonVault.Committed
import BabylonVault.Play

namespace BabylonVault
open Bytes Prog

/-- The sighash type of input `i` is absent or one of those allowed. -/
def Psbt.SighashIn (p : Psbt) (i : ℕ) (allowed : List UInt32) : Prop :=
  (p.map (.input i)).field psbtInSighashType = .absent ∨
    ∃ x ∈ allowed, (p.map (.input i)).field psbtInSighashType = .present x

instance (p : Psbt) (i : ℕ) (allowed : List UInt32) : Decidable (p.SighashIn i allowed) :=
  inferInstanceAs (Decidable (_ ∨ _))

/-- The input that the signer signs after a flow. -/
def Flow.signedInput : Flow → Option ℕ
  | .pop | .prepegin => none
  | .payoutFinalize => some 1
  | .wc | .pegin | .nopayout | .payout | .claim | .reclaim | .assert | .refund => some 0

/-- An input that the base app signs for the wallet policy. -/
def SignPsbtState.WalletInput (st : SignPsbtState) (i : ℕ) : Prop :=
  st.hasNoWalletPolicy = false ∧ i < st.nInputs ∧ st.internalInputs i = true

/-- Every input that is signed commits to all inputs and all outputs. -/
structure SighashDiscipline (st : SignPsbtState) (F : Flow) (p : Psbt) : Prop where
  custom : ∀ i, F.signedInput = some i → p.SighashIn i [sighashDefault]
  wallet : ∀ i, st.WalletInput i → p.SighashIn i [sighashDefault, sighashAll]

/-- A PSBT for the WC validator under a wallet policy, with a wallet input that commits
    to less. -/
def LooseWc (st : SignPsbtState) (p : Psbt) : Prop :=
  st.txVersion ≠ 0 ∧ st.internalInputs 0 = false ∧
    ∃ i, st.WalletInput i ∧ ¬p.SighashIn i [sighashDefault, sighashAll]

variable {E : Env} {st : SignPsbtState} {s : Session} {p : Psbt} {F : Flow} {v v' : Volatile}
  {d d' : Device} {i : ℕ} {allowed : List UInt32}

theorem SighashOk.sighashIn (h : SighashOk p.Allows (.input i) allowed) : p.SighashIn i allowed := by
  rcases h with ha | ⟨x, hx, ha⟩
  · exact .inl (Psbt.field_absent ha)
  · exact .inr ⟨x, hx, Psbt.field_eq ha⟩

theorem Psbt.SighashIn.mono {more : List UInt32} (h : p.SighashIn i allowed)
    (hsub : allowed ⊆ more) : p.SighashIn i more :=
  h.imp_right fun ⟨x, hx, ha⟩ => ⟨x, hsub hx, ha⟩

/-- The input that the signer signs is checked by every validator. -/
theorem Accepted.custom (h : Accepted E st s p.Allows v F v') (hi : F.signedInput = some i) :
    p.SighashIn i [sighashDefault] := by
  cases h with
  | pop | prepegin => cases hi
  | pegin _ ha =>
    obtain ⟨_, hin, -⟩ := ha.inOut
    cases hi
    exact hin.sighash.sighashIn
  | nopayout _ _ ha =>
    cases hi
    exact ha.sighash.sighashIn
  | payout _ _ ha =>
    cases hi
    exact ha.vault.sighash.sighashIn
  | payoutFinalize _ _ _ _ hin =>
    cases hi
    exact hin.sighash.sighashIn
  | leaf hF _ hflow =>
    obtain ⟨-, _, _, _, hin, -, -⟩ := hflow
    have h0 : i = 0 := by cases F <;> first | exact Bool.noConfusion hF | exact (Option.some.inj hi).symm
    exact h0 ▸ hin.sighash.sighashIn

/-- The wallet inputs are checked by every validator but that of a WC. -/
theorem Accepted.wallet (h : Accepted E st s p.Allows v F v') (hl : ¬LooseWc st p)
    (hw : st.WalletInput i) : p.SighashIn i [sighashDefault, sighashAll] := by
  have hno : ∀ {P : Prop}, st.hasNoWalletPolicy = true → P := fun h => by
    rw [hw.1] at h
    cases h
  cases h with
  | pop _ hn _ hsig =>
    obtain rfl : i = 0 := by
      have := hw.2.1
      omega
    exact hsig.sighashIn.mono (by simp)
  | pegin hnw | nopayout _ hnw | payout _ hnw | payoutFinalize _ hnw => exact hno hnw
  | prepegin _ _ ha => exact (ha.sighash i hw.2.1).sighashIn
  | leaf _ hr =>
    by_contra hns
    exact hl ⟨hr.version, by simpa [hw.1] using hr.prepegin, i, hw, hns⟩

/-- An accepted PSBT keeps the discipline unless it is a WC with a loose wallet input. -/
theorem sighash_discipline_iff
    (h : (validateAndDisplayTransaction E st).Via p.AllowsDev d F d') :
    SighashDiscipline st F p ↔ ¬LooseWc st p := by
  obtain ⟨-, _, _, hacc, -⟩ := validateAndDisplayTransaction_via h
  constructor
  · rintro hd ⟨-, -, i, hw, hns⟩
    exact hns (hd.wallet i hw)
  · exact fun hl => ⟨fun i => hacc.custom, fun i => hacc.wallet hl⟩

namespace Signet

/-- A WC leaf of the depositor. -/
def wcLeaf : Bytes :=
  let label : Bytes32 := .be 32 0x1aca80e8b55c802f7b43740da2990e1b5735bbb323d93eb5ebda8395b04025e2
  keyEntry (.be 32 depositorKey) opChecksigverify ++
    [opSize, opPushbytes1, 32, opEqualverify, opSha256, opPushbytes32] ++ label.toList ++ [opEqual]

/-- A WC with one wallet input for its fee. -/
def wc (sighash : ℕ) : Psbt :=
  ⟨[], [spend 1000 wcOut wcLeaf 0x9c7d3cc1bee7acc045c697d6d56fd8d9a1732f31ccd59c2a56872456e648f72d
        sequenceFinal ++ [depositorRecord],
      ([psbtInSighashType], leBytes 4 sighash) ::
        outpoint 0xe8d44050873dba865aa7c170ab4cce64d90839a34dcfd6cf71d14e0205443b1b 1 sequenceFinal],
    [output 1500 (spk depositorOut)]⟩

def wcState (sighash : ℕ) : SignPsbtState :=
  { parsed (wc sighash) 3000 1500 with
    hasNoWalletPolicy := false, policyMap := some ⟨false, 1⟩, internalInputs := fun i => i == 1 }

/-- The device after it has accepted the WC, from boot. -/
def wcAccepted (sighash : ℕ) : Device :=
  ((validateAndDisplayTransaction env (wcState sighash)).eval
    ((wc sighash).answers (Buf.zero 32)) Device.boot).2

end Signet

open Signet in
theorem sighash_discipline_all :
    ¬LooseWc (wcState 1) (wc 1) ∧ SighashDiscipline (wcState 1) .wc (wc 1) := by
  have hl : ¬LooseWc (wcState 1) (wc 1) := by
    rintro ⟨-, -, i, ⟨-, hlt, hint⟩, hns⟩
    obtain rfl : i = 1 := of_decide_eq_true hint
    exact hns (by decide +kernel)
  have hv : (validateAndDisplayTransaction env (wcState 1)).Via (wc 1).AllowsDev Device.boot .wc
      (wcAccepted 1) := via_of_eval ((wc 1).answers_allows _) (by decide +kernel)
  exact ⟨hl, (sighash_discipline_iff hv).2 hl⟩

open Signet in
/-- A WC is accepted whose wallet input is signed with NONE|ANYONECANPAY. -/
theorem wc_wallet_sighash_unchecked :
    (validateAndDisplayTransaction env (wcState 0x82)).Via (wc 0x82).AllowsDev Device.boot .wc
        (wcAccepted 0x82) ∧ ¬SighashDiscipline (wcState 0x82) .wc (wc 0x82) := by
  refine ⟨via_of_eval ((wc 0x82).answers_allows _) (by decide +kernel), fun h => ?_⟩
  have hsig := h.wallet 1 ⟨rfl, by decide, rfl⟩
  exact absurd hsig (by decide +kernel)

end BabylonVault
