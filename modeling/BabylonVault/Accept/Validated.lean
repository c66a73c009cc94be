/-
  The validator behind an accepted PSBT.

  * `Validated`: the run of a flow's own validator, on the state the dispatcher hands it.
  * `validateAndDisplayTransaction_validated`: an accepted PSBT has one.
-/
import BabylonVault.Accept.Dispatch

namespace BabylonVault
open Bytes Prog

variable (E : Env) (st : SignPsbtState) (s : Session) (G : Allow)

/-- The validator of a flow ran to its end, from `v`. -/
inductive Validated (v' : Volatile) : Flow → Prop
  | pop {v} : (validateDisplayPop E st s).Via G v () v' → Validated v' .pop
  | prepegin {v} : (validatePrepegin E st s).Via G v () v' → Validated v' .prepegin
  | pegin {v} : (validatePegin E st s).Via G v () v' → Validated v' .pegin
  | nopayout {v} : (validateNopayout E st s).Via G v () v' → Validated v' .nopayout
  | payout {v} : (validatePayout E st s).Via G v () v' → Validated v' .payout
  | payoutFinalize {v} : (validateDisplayPayoutFinalize E st s).Via G v () v' →
      Validated v' .payoutFinalize
  | wc {v} : (validateDisplayWc E st s).Via G v () v' → Validated v' .wc
  | refund {v} : (validateDisplayRefund E st s).Via G v () v' → Validated v' .refund
  | claim {v : Volatile} {cb script} : LeafRead G st.nInputs 0 cb script →
      (validateDisplayClaim E st (tlsOf cb script)).Via G
        { v with leaf := leafMetaOf E s script } () v' → Validated v' .claim
  | reclaim {v : Volatile} {cb script} : LeafRead G st.nInputs 0 cb script →
      (validateDisplayReclaim E st (tlsOf cb script)).Via G
        { v with leaf := leafMetaOf E s script } () v' → Validated v' .reclaim
  | assert {v : Volatile} {cb script} : LeafRead G st.nInputs 0 cb script →
      (validateDisplayAssert E st (tlsOf cb script)).Via G
        { v with leaf := leafMetaOf E s script } () v' → Validated v' .assert

variable {E st s G} {v v' : Volatile} {F : Flow}

theorem dispatchLeaf_validated (h : (dispatchLeaf E st s).Via G v F v') :
    Validated E st s G v' F := by
  simp only [dispatchLeaf, readTapLeaf_bind, leafMeta_bind, via_ite, check_bind, reject_end,
    and_false, false_or, or_false] at h
  obtain ⟨cb, script, hleaf, -, h⟩ := h
  rcases h with ⟨-, ⟨-, h⟩ | ⟨-, -, h⟩⟩ | ⟨-, -, ⟨-, h⟩ | ⟨-, ⟨-, -, h⟩ | ⟨-, -, h⟩⟩⟩ <;>
    obtain ⟨rfl, hv⟩ := through_via h
  · exact .claim hleaf hv
  · exact .reclaim hleaf hv
  · exact .wc hv
  · exact .assert hleaf hv
  · exact .refund hv

theorem dispatchRest_validated (h : (dispatchRest E st s).Via G v F v') :
    Validated E st s G v' F := by
  simp only [dispatchRest, via_ite] at h
  rcases h with ⟨-, ⟨-, h⟩ | ⟨-, h⟩⟩ | ⟨-, ⟨-, h⟩ | ⟨-, h⟩⟩
  · obtain ⟨rfl, hv⟩ := through_via h
    exact .prepegin hv
  · obtain ⟨rfl, hv⟩ := through_via h
    exact .wc hv
  · obtain ⟨rfl, hv⟩ := through_via h
    exact .payoutFinalize hv
  · exact dispatchLeaf_validated h

theorem dispatch_validated (h : (dispatch E st s).Via G v F v') : Validated E st s G v' F := by
  simp only [dispatch, via_ite] at h
  rcases h with ⟨-, h⟩ | ⟨-, ⟨-, h⟩ | ⟨-, ⟨-, h⟩ | ⟨-, ⟨-, ⟨-, h⟩ | ⟨-, h⟩⟩ | ⟨-, h⟩⟩⟩⟩
  · obtain ⟨rfl, hv⟩ := through_via h
    exact .pop hv
  · obtain ⟨rfl, hv⟩ := through_via h
    exact .pegin hv
  · obtain ⟨rfl, hv⟩ := through_via h
    exact .nopayout hv
  · obtain ⟨rfl, hv⟩ := through_via h
    exact .payout hv
  · simp only [getMap_bind, getPreviousTxid_bind, via_ite] at h
    obtain ⟨-, txid, -, ⟨-, h⟩ | ⟨-, h⟩⟩ := h
    · obtain ⟨rfl, hv⟩ := through_via h
      exact .payout hv
    · exact dispatchRest_validated h
  · exact dispatchRest_validated h

/-- An accepted PSBT went through the validator of its flow. -/
theorem validateAndDisplayTransaction_validated {G : ∀ q, devIface.Ans q → Prop} {d d' : Device}
    (h : (validateAndDisplayTransaction E st).Via G d F d') :
    ∃ v', Validated E st d.session (readAllow G) v' F := by
  obtain ⟨-, _, v', hdis, -⟩ := validateAndDisplayTransaction_dispatch h
  exact ⟨v', dispatch_validated hdis⟩

end BabylonVault
