/-
  What can be seen of a run.

  * `Prog.Shows`: of every run that ends well, what is observed of its questions and answers,
    in their order.
  * `Asks.unseen`: a program that puts no question of a kind is not seen to.
  * One rule for each construct: in front of a program that shows, a program that is not
    seen may stand.
-/
import BabylonVault.Lib.Sim

namespace Prog
variable {I J : Iface} {σ τ ε α β ω : Type} {obs : I.Event → Option ω} {K : I.Ask → Prop}
  {Q : α → List ω → Prop} {R : β → List ω → Prop} {m : Prog I σ ε α} {f : α → Prog I σ ε β}
  {s s' : σ} {tr : List I.Event}

/-- What is observed of a run that ends well with `a` is a list that `Q a` allows. -/
def Shows (obs : I.Event → Option ω) (Q : α → List ω → Prop) (m : Prog I σ ε α) : Prop :=
  ∀ ⦃s tr a s'⦄, (m s).Path tr (.ok a, s') → Q a (tr.filterMap obs)

theorem unseen_of_asks (hK : ∀ e, K e.1 → obs e = none) (h : ∀ e ∈ tr, K e.1) :
    tr.filterMap obs = [] :=
  List.filterMap_eq_nil_iff.2 fun e he => hK e (h e he)

theorem Asks.unseen (hK : ∀ e, K e.1 → obs e = none) (hm : Asks K m) :
    Shows obs (fun _ l => l = []) m :=
  fun _ _ _ _ hp => unseen_of_asks hK (hm.path hp)

theorem Shows.mono {Q' : α → List ω → Prop} (h : Shows obs Q m) (hQ : ∀ a l, Q a l → Q' a l) :
    Shows obs Q' m := fun _ _ _ _ hp => hQ _ _ (h hp)

theorem shows_stop {e : ε} : Shows obs Q (stop e : Prog I σ ε α) := by
  intro s tr a s' hp
  cases hp

/-- Two programs, one after the other. -/
theorem Shows.bind (hm : Shows obs Q m)
    (hf : ∀ a l, Q a l → Shows obs (fun b l' => R b (l ++ l')) (f a)) : Shows obs R (m >>= f) := by
  intro s tr b s' hp
  obtain ⟨tr₁, ⟨r, s₁⟩, tr₂, hp₁, hp₂, rfl⟩ := Course.path_bind.1 hp
  rw [List.filterMap_append]
  cases r with
  | error e => cases hp₂
  | ok a => exact hf a _ (hm hp₁) hp₂

/-- The first of two programs is not seen. -/
theorem Shows.after (hm : Shows obs (fun _ l => l = []) m) (hf : ∀ a, Shows obs R (f a)) :
    Shows obs R (m >>= f) :=
  hm.bind fun a _ hl => (hf a).mono fun _ _ h => hl ▸ h

/-- The second one only changes the result. -/
theorem Shows.returning {g : α → β} (hm : Shows obs (fun a l => R (g a) l) m) :
    Shows obs R (m >>= fun a => (pure (g a) : Prog I σ ε β)) := by
  refine hm.bind fun a l hl s tr b s' hp => ?_
  cases hp
  rwa [List.filterMap_nil, List.append_nil]

theorem shows_ite {c : Prop} [Decidable c] {n : Prog I σ ε α} (hm : c → Shows obs Q m)
    (hn : ¬c → Shows obs Q n) : Shows obs Q (if c then m else n) := by
  split_ifs with h
  · exact hm h
  · exact hn h

theorem shows_onError {g : ε → σ → σ} (hm : Shows obs Q m) : Shows obs Q (onError g m) := by
  intro s tr a s' hp
  obtain ⟨tr₁, ⟨r, s₁⟩, tr₂, hp₁, hp₂, rfl⟩ := Course.path_bind.1 hp
  cases r with
  | error e => cases hp₂
  | ok a =>
    cases hp₂
    rw [List.append_nil]
    exact hm hp₁

/-- A lifted trace is seen as the trace is. -/
theorem filterMap_lifts {obs' : J.Event → Option ω} {φ : I.Hom J} {tr : List J.Event}
    {tr' : List I.Event} (hobs : ∀ q a, obs' ⟨φ.ask q, a⟩ = obs ⟨q, φ.ans q a⟩)
    (h : List.Forall₂ (Course.Event.Lifts φ) tr tr') : tr.filterMap obs' = tr'.filterMap obs := by
  induction h with
  | nil => rfl
  | cons he _ ih =>
    cases he
    simp only [List.filterMap_cons, hobs, ih]

/-- A program over a part of the state, whose questions are seen as its own are. -/
theorem shows_embed {obs' : J.Event → Option ω} {φ : I.Hom J} {view : τ → σ} {put : σ → τ → τ}
    (hm : Shows obs Q m) (hobs : ∀ q a, obs' ⟨φ.ask q, a⟩ = obs ⟨q, φ.ans q a⟩) :
    Shows obs' Q (embed φ view put m) := by
  intro s tr a s' hp
  obtain ⟨tr₁, ⟨r, s₁⟩, tr₂, hp₁, hp₂, rfl⟩ := Course.path_bind.1 hp
  cases hp₂
  rw [List.append_nil]
  obtain ⟨tr', hp', hl⟩ := Course.path_lift_iff.1 hp₁
  rw [filterMap_lifts hobs hl]
  exact hm hp'

end Prog
