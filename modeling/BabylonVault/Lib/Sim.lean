/-
  Two runs side by side.

  * `Course.Sim`: two runs that put the same questions and, as long as the answers
    are related, end in related results.
  * `Prog.Alike`: two programs run alike from two states, with one rule for each
    construct.
  * `Prog.Steady`: a program that keeps a relation of two states and ends with the
    same result from both. `Steady.keeps` is the case of one run.
  * `Prog.Eases`: one program succeeds wherever another does.
  * `Prog.Follows`: one program takes the paths on which another succeeds.
-/
import BabylonVault.Lib.Prog

namespace Course
variable {I J : Iface} {σ σ' ρ ρ' υ υ' : Type} {A : ∀ q, I.Ans q → I.Ans q → Prop}
  {S : σ → σ' → Prop} {Q : ρ → ρ' → Prop} {t : Course I σ ρ} {t' : Course I σ' ρ'} {r : ρ}

/-- The two runs put the same questions, in states that `S` relates, and with
    answers that `A` relates they end in results that `Q` relates. -/
inductive Sim (A : ∀ q, I.Ans q → I.Ans q → Prop) (S : σ → σ' → Prop) (Q : ρ → ρ' → Prop) :
    Course I σ ρ → Course I σ' ρ' → Prop
  | ret {r r'} : Q r r' → Sim A S Q (ret r) (ret r')
  | ask {q s s' k k'} : S s s' → (∀ a a', A q a a' → Sim A S Q (k a) (k' a')) →
      Sim A S Q (ask q s k) (ask q s' k')

/-- A question with two related answers. -/
inductive Event.Rel (A : ∀ q, I.Ans q → I.Ans q → Prop) : I.Event → I.Event → Prop
  | mk {q a a'} : A q a a' → Event.Rel A ⟨q, a⟩ ⟨q, a'⟩

/-- A question of `J` with its answer, and the question of `I` it stands for. -/
inductive Event.Lifts (φ : I.Hom J) : J.Event → I.Event → Prop
  | mk {q a} : Event.Lifts φ ⟨φ.ask q, a⟩ ⟨q, φ.ans q a⟩

/-- The paths of a lifted run are those of the run, lifted. -/
theorem path_lift_iff {τ : Type} {φ : I.Hom J} {put : σ → τ} {tr : List J.Event} :
    Path (t.lift φ put) tr r ↔ ∃ tr', Path t tr' r ∧ List.Forall₂ (Event.Lifts φ) tr tr' := by
  induction t generalizing tr with
  | ret m =>
    constructor
    · intro h
      cases h
      exact ⟨[], .ret _, .nil⟩
    · rintro ⟨tr', h, htr⟩
      cases h
      cases htr
      exact .ret _
  | ask q s k ih =>
    constructor
    · intro h
      cases h with
      | ask a h =>
        obtain ⟨tr', hp, htr⟩ := (ih _).1 h
        exact ⟨_, .ask _ hp, .cons .mk htr⟩
    · rintro ⟨tr', h, htr⟩
      cases h with
      | ask a h =>
        cases htr with
        | cons he htr =>
          cases he
          exact .ask _ ((ih _).2 ⟨_, h, htr⟩)

theorem Event.rel_refl : ∀ tr : List I.Event, List.Forall₂ (Event.Rel fun _ a a' => a = a') tr tr
  | [] => .nil
  | _ :: tr => .cons (.mk rfl) (Event.rel_refl tr)

namespace Sim

/-- A run next to itself. -/
theorem refl : ∀ t : Course I σ ρ, Sim (fun _ a a' => a = a') Eq Eq t t
  | .ret _ => .ret rfl
  | .ask _ _ k => .ask rfl fun a _ ha => ha ▸ refl (k a)

theorem bind {R : υ → υ' → Prop} {f : ρ → Course I σ υ} {f' : ρ' → Course I σ' υ'}
    (h : Sim A S Q t t') (hf : ∀ r r', Q r r' → Sim A S R (f r) (f' r')) :
    Sim A S R (t.bind f) (t'.bind f') := by
  induction h with
  | ret hr => exact hf _ _ hr
  | ask hs _ ih => exact .ask hs ih

theorem mono {S₁ : σ → σ' → Prop} {Q₁ : ρ → ρ' → Prop} (h : Sim A S Q t t')
    (hS : ∀ s s', S s s' → S₁ s s') (hQ : ∀ r r', Q r r' → Q₁ r r') : Sim A S₁ Q₁ t t' := by
  induction h with
  | ret hr => exact .ret (hQ _ _ hr)
  | ask hs _ ih => exact .ask (hS _ _ hs) ih

/-- The two results are results of paths. -/
theorem ends (h : Sim A S Q t t') :
    Sim A S (fun r r' => Q r r' ∧ (∃ tr, Path t tr r) ∧ ∃ tr, Path t' tr r') t t' := by
  induction h with
  | ret hr => exact .ret ⟨hr, ⟨_, .ret _⟩, _, .ret _⟩
  | ask hs _ ih =>
    refine .ask hs fun a a' ha => (ih a a' ha).mono (fun _ _ h => h) ?_
    rintro r r' ⟨hq, ⟨tr, hp⟩, tr', hp'⟩
    exact ⟨hq, ⟨_, .ask a hp⟩, _, .ask a' hp'⟩

/-- Every path of the one run is matched by one of the other. -/
theorem path {tr tr' : List I.Event} {r : ρ} (h : Sim A S Q t t') (hp : Path t tr r)
    (ha : List.Forall₂ (Event.Rel A) tr tr') : ∃ r', Path t' tr' r' ∧ Q r r' := by
  induction h generalizing tr tr' with
  | ret hr =>
    cases hp
    cases ha
    exact ⟨_, .ret _, hr⟩
  | ask _ _ ih =>
    cases hp with
    | ask a hp =>
      cases ha with
      | cons he ha =>
        cases he with
        | mk he =>
          obtain ⟨r', hp', hq⟩ := ih _ _ he hp ha
          exact ⟨r', .ask _ hp', hq⟩

/-- Where the one run can be left, so can the other. -/
theorem cut {tr tr' : List I.Event} {q : I.Ask} {s : σ} (h : Sim A S Q t t') (hc : Cut t tr q s)
    (ha : List.Forall₂ (Event.Rel A) tr tr') : ∃ s', Cut t' tr' q s' ∧ S s s' := by
  induction h generalizing tr tr' with
  | ret => cases hc
  | ask hs _ ih =>
    cases hc with
    | here =>
      cases ha
      exact ⟨_, .here .., hs⟩
    | later a hc =>
      cases ha with
      | cons he ha =>
        cases he with
        | mk he =>
          obtain ⟨s', hc', hs'⟩ := ih _ _ he hc ha
          exact ⟨s', .later _ hc', hs'⟩

theorem lift {τ τ' : Type} {B : ∀ q, J.Ans q → J.Ans q → Prop} {φ : I.Hom J} {put : σ → τ}
    {put' : σ' → τ'} {T : τ → τ' → Prop} (h : Sim A S Q t t')
    (hA : ∀ q a a', B (φ.ask q) a a' → A q (φ.ans q a) (φ.ans q a'))
    (hS : ∀ s s', S s s' → T (put s) (put' s')) :
    Sim B T Q (t.lift φ put) (t'.lift φ put') := by
  induction h with
  | ret hr => exact .ret hr
  | ask hs _ ih => exact .ask (hS _ _ hs) fun a a' ha => ih _ _ (hA _ _ _ ha)

end Sim

end Course

namespace Prog
variable {I J : Iface} {σ ε α β γ δ : Type} {A : ∀ q, I.Ans q → I.Ans q → Prop}
  {X : ε → Prop} {S : σ → σ → Prop} {Q : α → β → σ → σ → Prop} {s s' : σ}

/-- Both end with a value, or both with the same error, one that `X` allows. -/
def Outcome (X : ε → Prop) (S : σ → σ → Prop) (Q : α → β → σ → σ → Prop) :
    Except ε α × σ → Except ε β × σ → Prop
  | (.ok a, s), (.ok b, s') => Q a b s s'
  | (.error e, s), (.error e', s') => e = e' ∧ X e ∧ S s s'
  | _, _ => False

/-- `m` from `s` and `n` from `s'` run alike: `S` relates the states at each
    question and after an error, which `X` allows, and `Q` the ends after a value. -/
def Alike (A : ∀ q, I.Ans q → I.Ans q → Prop) (X : ε → Prop) (S : σ → σ → Prop)
    (Q : α → β → σ → σ → Prop) (m : Prog I σ ε α) (n : Prog I σ ε β) (s s' : σ) : Prop :=
  Course.Sim A S (Outcome X S Q) (m s) (n s')

namespace Alike
variable {m : Prog I σ ε α} {n : Prog I σ ε β}

theorem bind {R : γ → δ → σ → σ → Prop} {f : α → Prog I σ ε γ} {g : β → Prog I σ ε δ}
    (h : Alike A X S Q m n s s') (hf : ∀ a b t t', Q a b t t' → Alike A X S R (f a) (g b) t t') :
    Alike A X S R (m >>= f) (n >>= g) s s' := by
  refine Course.Sim.bind h ?_
  rintro ⟨_ | a, t⟩ ⟨_ | b, t'⟩ hq
  · exact .ret hq
  · exact hq.elim
  · exact hq.elim
  · exact hf a b t t' hq

/-- The values and states at the end are those of runs. -/
theorem ends (h : Alike A X S Q m n s s') :
    Alike A X S (fun a b t t' => Q a b t t' ∧ m.Via (fun _ _ => True) s a t ∧
      n.Via (fun _ _ => True) s' b t') m n s s' := by
  refine Course.Sim.mono (Course.Sim.ends h) (fun _ _ h => h) ?_
  rintro ⟨_ | a, t⟩ ⟨_ | b, t'⟩ ⟨hq, ⟨tr, hp⟩, tr', hp'⟩
  · exact hq
  · exact hq.elim
  · exact hq.elim
  · exact ⟨hq, ⟨tr, hp, by simp⟩, tr', hp', by simp⟩

theorem mono {S₁ : σ → σ → Prop} {R : α → β → σ → σ → Prop} (h : Alike A X S Q m n s s')
    (hS : ∀ s s', S s s' → S₁ s s') (hQ : ∀ a b t t', Q a b t t' → R a b t t') :
    Alike A X S₁ R m n s s' := by
  refine Course.Sim.mono h hS ?_
  rintro ⟨_ | a, t⟩ ⟨_ | b, t'⟩ hq
  · exact ⟨hq.1, hq.2.1, hS _ _ hq.2.2⟩
  · exact hq
  · exact hq
  · exact hQ a b t t' hq

theorem pure {a : α} {b : β} (h : Q a b s s') :
    Alike A X S Q (pure a : Prog I σ ε α) (pure b : Prog I σ ε β) s s' := .ret h

theorem stop {e : ε} (he : X e) (h : S s s') :
    Alike A X S Q (stop e : Prog I σ ε α) (stop e : Prog I σ ε β) s s' := .ret ⟨rfl, he, h⟩

theorem ask (q : I.Ask) {Q : I.Ans q → I.Ans q → σ → σ → Prop} (hs : S s s')
    (h : ∀ a a', A q a a' → Q a a' s s') :
    Alike A X S Q (Prog.ask q : Prog I σ ε _) (Prog.ask q : Prog I σ ε _) s s' :=
  Course.Sim.ask hs fun a a' ha => .ret (h a a' ha)

theorem get_bind {f : σ → Prog I σ ε α} {g : σ → Prog I σ ε β}
    (h : Alike A X S Q (f s) (g s') s s') : Alike A X S Q (get >>= f) (get >>= g) s s' := h

theorem modify_bind {f g : σ → σ} {m : Unit → Prog I σ ε α} {n : Unit → Prog I σ ε β}
    (h : Alike A X S Q (m ()) (n ()) (f s) (g s')) :
    Alike A X S Q (modify f >>= m) (modify g >>= n) s s' := h

theorem modify {f g : σ → σ} {Q : Unit → Unit → σ → σ → Prop} (h : Q () () (f s) (g s')) :
    Alike A X S Q (Prog.modify f : Prog I σ ε Unit) (Prog.modify g : Prog I σ ε Unit) s s' := .ret h

theorem ite {c d : Prop} [Decidable c] [Decidable d] {m' : Prog I σ ε α} {n' : Prog I σ ε β}
    (hcd : c ↔ d) (h : c → Alike A X S Q m n s s') (h' : ¬c → Alike A X S Q m' n' s s') :
    Alike A X S Q (if c then m else m') (if d then n else n') s s' := by
  by_cases hc : c
  · rw [if_pos hc, if_pos (hcd.1 hc)]
    exact h hc
  · rw [if_neg hc, if_neg (mt hcd.2 hc)]
    exact h' hc

theorem onError {f : ε → σ → σ} (h : Alike A X S Q m n s s')
    (hf : ∀ e t t', S t t' → S (f e t) (f e t')) :
    Alike A X S Q (Prog.onError f m) (Prog.onError f n) s s' := by
  refine Course.Sim.bind h ?_
  rintro ⟨e | a, t⟩ ⟨e' | b, t'⟩ hq
  · obtain ⟨rfl, he, ht⟩ := hq
    exact .ret ⟨rfl, he, hf _ _ _ ht⟩
  · exact hq.elim
  · exact hq.elim
  · exact .ret hq

theorem embed {τ : Type} {B : ∀ q, J.Ans q → J.Ans q → Prop} {φ : I.Hom J} {view : τ → σ}
    {put : σ → τ → τ} {T : τ → τ → Prop} {R : α → β → τ → τ → Prop} {t t' : τ}
    (h : Alike A X S Q m n (view t) (view t'))
    (hA : ∀ q a a', B (φ.ask q) a a' → A q (φ.ans q a) (φ.ans q a'))
    (hS : ∀ s s', S s s' → T (put s t) (put s' t'))
    (hQ : ∀ a b s s', Q a b s s' → R a b (put s t) (put s' t')) :
    Alike B X T R (Prog.embed φ view put m) (Prog.embed φ view put n) t t' := by
  have hlift : Course.Sim B T _ ((m (view t)).lift φ fun s => put s t)
      ((n (view t')).lift φ fun s => put s t') := Course.Sim.lift h hA hS
  refine hlift.bind ?_
  rintro ⟨e | a, s⟩ ⟨e' | b, s'⟩ hq
  · exact .ret ⟨hq.1, hq.2.1, hS _ _ hq.2.2⟩
  · exact hq.elim
  · exact hq.elim
  · exact .ret (hQ a b s s' hq)

end Alike

/-! ## What a program keeps -/

/-- From two states that `S` relates, with the same answers, `m` ends with the same
    result, an error only if `X` allows it, and `S` relates the states on the way and at
    the end. -/
def Steady (X : ε → Prop) (S : σ → σ → Prop) (m : Prog I σ ε α) : Prop :=
  ∀ s s', S s s' → Alike (fun _ a a' => a = a') X S (fun a b t t' => a = b ∧ S t t') m m s s'

section Steady
variable {m : Prog I σ ε α}

/-- From one state there is one run. -/
theorem steady_eq (hX : ∀ e, X e) : Steady X Eq m := by
  rintro s _ rfl
  refine (Course.Sim.refl (m s)).mono (fun _ _ h => h) ?_
  rintro ⟨e | a, t⟩ _ rfl
  · exact ⟨rfl, hX e, rfl⟩
  · exact ⟨rfl, rfl⟩

theorem steady_onError {f : ε → σ → σ} (hm : Steady X S m) (hf : ∀ e s s', S s s' → S (f e s) (f e s')) :
    Steady X S (onError f m) := fun s s' hs => (hm s s' hs).onError hf

theorem steady_bind {f : α → Prog I σ ε β} (hm : Steady X S m) (hf : ∀ a, Steady X S (f a)) :
    Steady X S (m >>= f) := by
  intro s s' hs
  refine (hm s s' hs).bind ?_
  rintro a _ t t' ⟨rfl, ht⟩
  exact hf a t t' ht

theorem steady_pure {a : α} : Steady X S (pure a : Prog I σ ε α) := fun _ _ hs => .pure ⟨rfl, hs⟩

theorem steady_stop {e : ε} (he : X e) : Steady X S (stop e : Prog I σ ε α) :=
  fun _ _ hs => .stop he hs

theorem steady_require {c : Prop} [Decidable c] {e : ε} (he : ¬c → X e) :
    Steady X S (require c e : Prog I σ ε Unit) := by
  unfold require
  split_ifs with h
  · exact steady_pure
  · exact steady_stop (he h)

theorem steady_ask {q : I.Ask} : Steady X S (ask q : Prog I σ ε _) :=
  fun _ _ hs => .ask q hs fun _ _ ha => ⟨ha, hs⟩

theorem steady_modify {f : σ → σ} (hf : ∀ s s', S s s' → S (f s) (f s')) :
    Steady X S (modify f : Prog I σ ε Unit) := fun s s' hs => .modify ⟨rfl, hf s s' hs⟩

theorem steady_orStop {e : ε} {o : Option α} (he : X e) :
    Steady X S (orStop e o : Prog I σ ε α) := by
  cases o with
  | none => exact steady_stop he
  | some a => exact steady_pure

theorem steady_ite {c : Prop} [Decidable c] {m n : Prog I σ ε α} (hm : Steady X S m)
    (hn : Steady X S n) : Steady X S (if c then m else n) := by
  split_ifs
  · exact hm
  · exact hn

theorem steady_loop {body : ℕ → α → Prog I σ ε α} (hb : ∀ i a, Steady X S (body i a)) :
    ∀ {n k : ℕ} {a : α}, Steady X S (loop body k n a)
  | 0, _, _ => steady_pure
  | _ + 1, k, a => steady_bind (hb k a) fun _ => steady_loop hb

/-- A steady program in front of two that need not be. -/
theorem Steady.alike_bind {S₁ : σ → σ → Prop} {Q : β → γ → σ → σ → Prop} {f : α → Prog I σ ε β}
    {g : α → Prog I σ ε γ} (hm : Steady X S m) (hs : S s s') (hS : ∀ t t', S t t' → S₁ t t')
    (hf : ∀ a t t', S t t' → Alike (fun _ a a' => a = a') X S₁ Q (f a) (g a) t t') :
    Alike (fun _ a a' => a = a') X S₁ Q (m >>= f) (m >>= g) s s' := by
  refine Alike.bind ((hm s s' hs).mono hS fun _ _ _ _ h => h) ?_
  rintro a _ t t' ⟨rfl, ht⟩
  exact hf a t t' ht

/-- One run, next to itself. -/
theorem Steady.keeps {P : σ → Prop} (h : Steady X (fun s s' => s = s' ∧ P s) m) :
    Keeps X P m := by
  intro qs s hs
  refine wp_of_path (fun tr q t hc => ?_) fun tr r t hp => ?_
  · obtain ⟨_, -, -, ht⟩ := Course.Sim.cut (h s s ⟨rfl, hs⟩) hc (Course.Event.rel_refl tr)
    exact ht
  · obtain ⟨⟨r', t'⟩, -, hq⟩ := Course.Sim.path (h s s ⟨rfl, hs⟩) hp (Course.Event.rel_refl tr)
    rcases r with e | a <;> rcases r' with e' | a'
    · refine ⟨hq.2.2.2, ?_⟩
      rintro _ ⟨⟩
      exact hq.2.1
    · exact hq.elim
    · exact hq.elim
    · exact ⟨hq.2.2, by simp⟩

end Steady

/-! ## One side only -/

/-- Answers that let `m` end with a value let `n` end with the same; `S` relates the states
    in front, `T` those behind. -/
def Eases (S T : σ → σ → Prop) (m n : Prog I σ ε α) : Prop :=
  ∀ (G : ∀ q, I.Ans q → Prop) (s t : σ) (a : α) (s' : σ), S s t → m.Via G s a s' →
    ∃ t', n.Via G t a t' ∧ T s' t'

namespace Eases
variable {T U : σ → σ → Prop} {m n : Prog I σ ε α}

theorem bind {f g : α → Prog I σ ε β} (h : Eases S T m n) (hf : ∀ a, Eases T U (f a) (g a)) :
    Eases S U (m >>= f) (n >>= g) := by
  intro G s t b s' hs hm
  obtain ⟨a, s₁, ha, hb⟩ := via_bind.1 hm
  obtain ⟨t₁, ha', ht₁⟩ := h G s t a s₁ hs ha
  obtain ⟨t', hb', ht'⟩ := hf a G s₁ t₁ b s' ht₁ hb
  exact ⟨t', via_bind.2 ⟨a, t₁, ha', hb'⟩, ht'⟩

theorem pure {a : α} : Eases S S (pure a : Prog I σ ε α) (Pure.pure a) := by
  intro G s t b s' hs hm
  obtain ⟨rfl, rfl⟩ := via_pure.1 hm
  exact ⟨t, via_pure.2 ⟨rfl, rfl⟩, hs⟩

theorem mono {S' T' : σ → σ → Prop} (h : Eases S T m n) (hS : ∀ s t, S' s t → S s t)
    (hT : ∀ s t, T s t → T' s t) : Eases S' T' m n := by
  intro G s t a s' hs hm
  obtain ⟨t', hn, ht⟩ := h G s t a s' (hS s t hs) hm
  exact ⟨t', hn, hT _ _ ht⟩

/-- A check may become weaker. -/
theorem require {c d : Prop} [Decidable c] [Decidable d] {e : ε} (h : c → d) :
    Eases S S (require c e : Prog I σ ε Unit) (Prog.require d e) := by
  intro G s t b s' hs hm
  obtain ⟨hc, rfl⟩ := via_require.1 hm
  exact ⟨t, via_require.2 ⟨h hc, rfl⟩, hs⟩

theorem modify {f g : σ → σ} (h : ∀ s t, S s t → T (f s) (g t)) :
    Eases S T (modify f : Prog I σ ε Unit) (Prog.modify g) := by
  intro G s t b s' hs hm
  obtain rfl := via_modify.1 hm
  exact ⟨g t, via_modify.2 rfl, h s t hs⟩

end Eases

/-- A steady program, next to itself. -/
theorem Steady.eases {m : Prog I σ ε α} (h : Steady X S m) : Eases S S m m := by
  rintro G s t a s' hs ⟨tr, hp, hG⟩
  obtain ⟨⟨_ | b, t'⟩, hp', hq⟩ := Course.Sim.path (h s t hs) hp (Course.Event.rel_refl tr)
  · exact hq.elim
  · obtain ⟨rfl, ht⟩ := hq
    exact ⟨t', ⟨tr, hp', hG⟩, ht⟩

/-- The paths on which `m` ends with a value, and in a state that `C` allows, are paths of
    `n` to the same value; `R` relates the states at the end. -/
def Follows (C : α → σ → Prop) (R : σ → σ → Prop) (m n : Prog I σ ε α) (s t : σ) : Prop :=
  ∀ tr a s', Course.Path (m s) tr (.ok a, s') → C a s' → ∃ t', Course.Path (n t) tr (.ok a, t') ∧ R s' t'

/-- Any end. -/
abbrev AnyEnd : α → σ → Prop := fun _ _ => True

theorem Alike.follows {R : σ → σ → Prop} {C : α → σ → Prop} {Q : α → α → σ → σ → Prop}
    {m n : Prog I σ ε α} (h : Alike A X S Q m n s s') (hA : ∀ q a, A q a a) (hQ : ∀ a b t t', Q a b t t' → a = b ∧ R t t') :
    Follows C R m n s s' := by
  intro tr a t hp _
  have hrefl : List.Forall₂ (Course.Event.Rel A) tr tr :=
    List.forall₂_same.2 fun e _ => Course.Event.Rel.mk (hA e.1 e.2)
  obtain ⟨⟨_ | b, t'⟩, hp', hq⟩ := Course.Sim.path h hp hrefl
  · exact hq.elim
  · obtain ⟨rfl, hR⟩ := hQ a b t t' hq
    exact ⟨t', hp', hR⟩

theorem Steady.follows {C : α → σ → Prop} {m : Prog I σ ε α} (h : Steady X S m) (hs : S s s') :
    Follows C S m m s s' := (h s s' hs).follows (fun _ _ => rfl) fun _ _ _ _ hq => hq

namespace Follows
variable {C : α → σ → Prop} {R T : σ → σ → Prop} {m n : Prog I σ ε α} {t : σ}

theorem refl : Follows C Eq m m s s := fun _ _ s' hp _ => ⟨s', hp, rfl⟩

theorem pure {a : α} (h : R s t) : Follows C R (pure a : Prog I σ ε α) (Pure.pure a) s t := by
  intro tr b s' hp _
  cases hp
  exact ⟨t, .ret _, h⟩

/-- One program after another, where the ends allowed of the whole are ends allowed of the
    first. -/
theorem bind_end {D : β → σ → Prop} {f g : α → Prog I σ ε β} (h : Follows C R m n s t)
    (hC : ∀ a s₁ tr b s', Course.Path (f a s₁) tr (.ok b, s') → D b s' → C a s₁)
    (hf : ∀ a s₁ t₁, R s₁ t₁ → Follows D T (f a) (g a) s₁ t₁) : Follows D T (m >>= f) (n >>= g) s t := by
  intro tr b s' hp hD
  obtain ⟨tr₁, ⟨_ | a, s₁⟩, tr₂, h₁, h₂, rfl⟩ := Course.path_bind.1 hp
  · cases h₂
  · obtain ⟨t₁, h₁', hR⟩ := h tr₁ a s₁ h₁ (hC a s₁ tr₂ b s' h₂ hD)
    obtain ⟨t', h₂', hT⟩ := hf a s₁ t₁ hR tr₂ b s' h₂ hD
    exact ⟨t', Course.path_bind.2 ⟨tr₁, (.ok a, t₁), tr₂, h₁', h₂', rfl⟩, hT⟩

theorem bind {D : β → σ → Prop} {f g : α → Prog I σ ε β} (h : Follows AnyEnd R m n s t)
    (hf : ∀ a s₁ t₁, R s₁ t₁ → Follows D T (f a) (g a) s₁ t₁) : Follows D T (m >>= f) (n >>= g) s t :=
  h.bind_end (fun _ _ _ _ _ _ _ => trivial) hf

/-- What an allowed end tells may be used on the way there. -/
theorem of_end (h : ∀ tr a s', Course.Path (m s) tr (.ok a, s') → C a s' → Follows C R m n s t) :
    Follows C R m n s t := fun tr a s' hp hC => h tr a s' hp hC tr a s' hp hC

/-- So may what the program keeps. -/
theorem of_keeps {P : σ → Prop} (hk : Keeps X P m) (hs : P s)
    (h : ∀ a s', P s' → C a s' → Follows C R m n s t) : Follows C R m n s t :=
  of_end fun tr a s' hp hC =>
    h a s' (hk.via hs (G := fun _ _ => True) ⟨tr, hp, fun _ _ => trivial⟩) hC

theorem require {c d : Prop} [Decidable c] [Decidable d] {e : ε} {C : Unit → σ → Prop} (h : c → d)
    (hR : R s t) : Follows C R (require c e : Prog I σ ε Unit) (Prog.require d e) s t := by
  intro tr a s' hp _
  by_cases hc : c
  · rw [Prog.require, if_pos hc] at hp
    cases hp
    rw [Prog.require, if_pos (h hc)]
    exact ⟨t, .ret _, hR⟩
  · rw [Prog.require, if_neg hc] at hp
    cases hp

theorem get_bind {D : β → σ → Prop} {f g : σ → Prog I σ ε β} (h : Follows D T (f s) (g t) s t) :
    Follows D T (get >>= f) (get >>= g) s t := h

theorem modify_bind {D : β → σ → Prop} {u w : σ → σ} {f g : Unit → Prog I σ ε β}
    (h : Follows D T (f ()) (g ()) (u s) (w t)) :
    Follows D T (modify u >>= f) (modify w >>= g) s t := h

theorem ite {c d : Prop} [Decidable c] [Decidable d] {m' n' : Prog I σ ε α} (hcd : c ↔ d)
    (h : c → Follows C R m n s t) (h' : ¬c → Follows C R m' n' s t) :
    Follows C R (if c then m else m') (if d then n else n') s t := by
  by_cases hc : c
  · rw [if_pos hc, if_pos (hcd.1 hc)]
    exact h hc
  · rw [if_neg hc, if_neg (mt hcd.2 hc)]
    exact h' hc

theorem onError {u : ε → σ → σ} (h : Follows C R m n s t) :
    Follows C R (Prog.onError u m) (Prog.onError u n) s t := by
  intro tr a s' hp hC
  obtain ⟨tr₁, ⟨_ | b, s₁⟩, tr₂, h₁, h₂, rfl⟩ := Course.path_bind.1 hp
  · cases h₂
  · cases h₂
    obtain ⟨t', hp', hR⟩ := h tr₁ a s' h₁ hC
    exact ⟨t', Course.path_bind.2 ⟨tr₁, (.ok a, t'), [], hp', .ret _, rfl⟩, hR⟩

theorem embed {τ : Type} {φ : I.Hom J} {view : τ → σ} {put : σ → τ → τ} {D : α → τ → Prop}
    {U : τ → τ → Prop} {x y : τ} (h : Follows C R m n (view x) (view y))
    (hC : ∀ a s', D a (put s' x) → C a s') (hU : ∀ s' t', R s' t' → U (put s' x) (put t' y)) :
    Follows D U (Prog.embed φ view put m) (Prog.embed φ view put n) x y := by
  intro tr a x' hp hD
  obtain ⟨tr₁, ⟨r, s'⟩, tr₂, h₁, h₂, rfl⟩ := Course.path_bind.1 hp
  cases h₂
  obtain ⟨tr', hp', hback⟩ := Course.path_lift_iff.1 h₁
  obtain ⟨t', hq, hR⟩ := h tr' a s' hp' (hC a s' hD)
  exact ⟨put t' y, Course.path_bind.2 ⟨tr₁, _, [], Course.path_lift_iff.2 ⟨tr', hq, hback⟩, .ret _, rfl⟩,
    hU s' t' hR⟩

end Follows

/-- A path of a program over a part of the state, lifted. -/
theorem path_embed {τ : Type} {φ : I.Hom J} {view : τ → σ} {put : σ → τ → τ} {m : Prog I σ ε α}
    {x : τ} {s' : σ} {tr : List J.Event} {tr' : List I.Event} {r : Except ε α}
    (hl : List.Forall₂ (Course.Event.Lifts φ) tr tr') (h : (m (view x)).Path tr' (r, s')) :
    (Prog.embed φ view put m x).Path tr (r, put s' x) := by
  have hb : (Prog.embed φ view put m x).Path (tr ++ []) (r, put s' x) :=
    Course.path_bind.2 ⟨tr, _, [], Course.path_lift_iff.2 ⟨tr', h, hl⟩, .ret _, rfl⟩
  rwa [List.append_nil] at hb

end Prog
