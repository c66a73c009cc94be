/-
  What a request can do.

  * `StepEnd`: the ends of the four commands, as one relation between a device, an
    exchange and the device after it (`Step.toEnd`).
-/
import BabylonVault.Open
import BabylonVault.Signing

namespace BabylonVault
open Bytes Prog

variable (E : Env)

/-- One request, by command. -/
inductive StepEnd (d : Device) : Exchange → Device → Prop
  | derive {p1 p2 data tr r d'} : DeriveEnd E d p1 p2 data r d' → marks (tr.map (·.1)) = [] →
      StepEnd d ⟨.derive p1 p2 data, tr, .answered r⟩ d'
  | approve {p1 p2 data tr r d'} : ApproveEnd E d p1 p2 data r d' → marks (tr.map (·.1)) = [] →
      StepEnd d ⟨.approve p1 p2 data, tr, .answered (r.map fun _ => [])⟩ d'
  | getState {p1 p2 data tr r} : (∀ out, r = .ok out → out = vaultContextEncodeState d.ctx) ∧
      (∀ sw, r ≠ .error (.wipe sw)) → marks (tr.map (·.1)) = [] →
      StepEnd d ⟨.getState p1 p2 data, tr, .answered r⟩ d
  | sign {x st r d'} : x.request = .signPsbt st → SignEnd E st d (marks x.asked) r d' →
      x.result = r.map (fun r => r.map fun _ => []) → StepEnd d x d'

variable {E} {d d' : Device} {x : Exchange}

/-- A handler that calls no host leaves no mark and is never left. -/
theorem Quiet.wp_marks {α : Type} {m : M α} {Q : Except Stop α → Device → Prop}
    (h : Quiet m d Q) : m.wp (fun _ (q : DevAsk) _ => q.hostBound = false)
      (fun qs r d' => marks qs = [] ∧ Q r d') [] d := by
  have hall := Prog.wp_asked (I := devIface) (K := fun q => DevAsk.hostBound q = false) (h [])
    (List.forall_mem_nil _)
  refine wp_mono (fun _ _ _ h => h.2) (fun qs r d' ⟨hqs, hr⟩ => ⟨?_, hr⟩) hall
  refine List.filterMap_eq_nil_iff.2 fun q hq => ?_
  have := hqs q hq
  cases q <;> first | rfl | exact Bool.noConfusion this

/-- The answer of a handler without one. -/
theorem wp_returning {m : M Unit} {C : List DevAsk → DevAsk → Device → Prop}
    {Q : List DevAsk → Except Stop Bytes → Device → Prop} {qs : List DevAsk}
    (h : m.wp C (fun qs r d' => Q qs (r.map fun _ => []) d') qs d) :
    (do m; return [] : M Bytes).wp C Q qs d := by
  refine wp_bind.2 (wp_mono (fun _ _ _ h => h) ?_ h)
  rintro qs (e | u) d' h <;> exact h

theorem not_hostBound {q : DevAsk} {P : Prop} (h : q.hostBound = true) (h' : q.hostBound = false) :
    P := by
  rw [h] at h'
  exact Bool.noConfusion h'

/-- Every step is one of these. -/
theorem Step.toEnd (h : Step E d x d') : StepEnd E d x d' := by
  obtain ⟨req, tr, e⟩ := x
  rcases req with ⟨p1, p2, data⟩ | ⟨p1, p2, data⟩ | ⟨p1, p2, data⟩ | st
  · refine h.of_wp (P := StepEnd E d) derive_quiet.wp_marks ?_ ?_
    · rintro tr r d' ⟨hmarks, hend⟩
      exact .derive hend hmarks
    · exact fun _ _ _ hq hq' => not_hostBound hq hq'
  · refine h.of_wp (P := StepEnd E d) (C := fun _ q _ => q.hostBound = false)
      (Q := fun qs r d' => ∃ r', ApproveEnd E d p1 p2 data r' d' ∧ marks qs = [] ∧
        r = r'.map fun _ => [])
      (wp_returning (wp_mono (fun _ _ _ h => h) ?_ approve_quiet.wp_marks)) ?_ ?_
    · rintro qs r d' ⟨hmarks, hend⟩
      exact ⟨r, hend, hmarks, rfl⟩
    · rintro tr _ d' ⟨r, hend, hmarks, rfl⟩
      exact .approve hend hmarks
    · exact fun _ _ _ hq hq' => not_hostBound hq hq'
  · refine h.of_wp (P := StepEnd E d) getVaultState_quiet.wp_marks ?_ ?_
    · rintro tr r d' ⟨hmarks, rfl, hout⟩
      exact .getState hout hmarks
    · exact fun _ _ _ hq hq' => not_hostBound hq hq'
  · refine h.of_wp (P := StepEnd E d)
      (C := fun qs q d' => q.hostBound = true → SignEnd E st d (marks (qs ++ [q])) none d')
      (Q := fun qs r d' => ∃ r', SignEnd E st d (marks qs) (some r') d' ∧ r = r'.map fun _ => [])
      (wp_returning (wp_mono (fun _ _ _ h => h) ?_ (signPsbt_runs [] rfl))) ?_ ?_
    · exact fun qs r d' hend => ⟨r, hend, rfl⟩
    · rintro tr _ d' ⟨r, hend, rfl⟩
      exact .sign (r := some r) rfl hend rfl
    · intro tr q d' hq hend
      exact .sign (r := none) rfl (hend hq) rfl

end BabylonVault
