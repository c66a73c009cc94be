/-
  Programs with state, early exit and questions to an environment.

  * `Iface`: the questions a program may put, and the type of their answers.
  * `Course`: one run of a program seen from outside, branching on the answers.
    `Course.Path` follows arbitrary answers to the end, `Course.Cut` up to a
    question at which the run is left; `Course.eval` takes the answers of one
    function.
  * `Prog`: a program over a state; what it wrote before an error stays written.
  * `Prog.Via`: the runs that end well, with one inversion rule for each
    construct; `Prog.via_eval` ties it to evaluation. `Prog.Puts`: the questions
    that a run comes to; `Prog.Asks`: all that any run can come to.
  * `Prog.wp`: what holds of every run whatever the answers, at each question and
    at the end, with the same rules read forwards.
  * `Prog.Keeps`: a predicate of the state that no run of a program breaks.
-/
import Mathlib.Tactic

/-- The questions of a program and their answers. -/
structure Iface where
  Ask : Type
  Ans : Ask → Type

namespace Iface

/-- A question with the answer it got. -/
abbrev Event (I : Iface) := Σ q : I.Ask, I.Ans q

/-- The questions of `I` put as questions of `J`. -/
structure Hom (I J : Iface) where
  ask : I.Ask → J.Ask
  ans : ∀ q, J.Ans (ask q) → I.Ans q

end Iface

/-- A run: it ends with a result, or puts a question and goes on with the answer.
    At a question the state written so far can be seen. -/
inductive Course (I : Iface) (σ ρ : Type)
  | ret (r : ρ) : Course I σ ρ
  | ask (q : I.Ask) (s : σ) (k : I.Ans q → Course I σ ρ) : Course I σ ρ

namespace Course
variable {I J : Iface} {σ σ' ρ τ : Type}

/-- `f` after `t`. -/
def bind : Course I σ ρ → (ρ → Course I σ τ) → Course I σ τ
  | ret r, f => f r
  | ask q s k, f => ask q s fun a => (k a).bind f

/-- The result when every answer is that of `ans`. -/
def eval (ans : ∀ q, I.Ans q) : Course I σ ρ → ρ
  | ret r => r
  | ask q _ k => (k (ans q)).eval ans

/-- The questions put when every answer is that of `ans`. -/
def asked (ans : ∀ q, I.Ans q) : Course I σ ρ → List I.Ask
  | ret _ => []
  | ask q _ k => q :: (k (ans q)).asked ans

/-- The same run, its questions put to another environment over a larger state. -/
def lift (φ : I.Hom J) (put : σ → σ') : Course I σ ρ → Course J σ' ρ
  | ret r => ret r
  | ask q s k => ask (φ.ask q) (put s) fun a => (k (φ.ans q a)).lift φ put

theorem bind_assoc {υ : Type} (f : ρ → Course I σ τ) (g : τ → Course I σ υ) :
    ∀ t : Course I σ ρ, (t.bind f).bind g = t.bind fun r => (f r).bind g
  | ret _ => rfl
  | ask q s k => congrArg (ask q s) (funext fun a => bind_assoc f g (k a))

theorem ret_bind {r : ρ} {f : ρ → Course I σ τ} : (ret r : Course I σ ρ).bind f = f r := rfl

/-- `Path t tr r`: with the answers of `tr` the run `t` ends with `r`. -/
inductive Path : Course I σ ρ → List I.Event → ρ → Prop
  | ret (r) : Path (ret r) [] r
  | ask {q s k tr r} (a : I.Ans q) : Path (k a) tr r → Path (ask q s k) (⟨q, a⟩ :: tr) r

/-- `Cut t tr q s`: with the answers of `tr` the run `t` comes to the question
    `q` in state `s`, and is left there. -/
inductive Cut : Course I σ ρ → List I.Event → I.Ask → σ → Prop
  | here (q s k) : Cut (ask q s k) [] q s
  | later {q s k tr q' s'} (a : I.Ans q) :
      Cut (k a) tr q' s' → Cut (ask q s k) (⟨q, a⟩ :: tr) q' s'

theorem path_bind {f : ρ → Course I σ τ} {r : τ} {t : Course I σ ρ} {tr : List I.Event} :
    Path (t.bind f) tr r ↔
      ∃ tr₁ m tr₂, Path t tr₁ m ∧ Path (f m) tr₂ r ∧ tr = tr₁ ++ tr₂ := by
  induction t generalizing tr with
  | ret m =>
    constructor
    · exact fun h => ⟨[], m, tr, .ret m, h, rfl⟩
    · rintro ⟨_, _, _, h₁, h₂, rfl⟩
      cases h₁
      exact h₂
  | ask q s k ih =>
    constructor
    · intro h
      cases h with
      | ask a h =>
        obtain ⟨tr₁, m, tr₂, h₁, h₂, rfl⟩ := (ih a).1 h
        exact ⟨_, m, tr₂, .ask a h₁, h₂, rfl⟩
    · rintro ⟨_, m, tr₂, h₁, h₂, rfl⟩
      cases h₁ with
      | ask a h₁ => exact .ask a ((ih a).2 ⟨_, m, tr₂, h₁, h₂, rfl⟩)

/-- The answers of a path determine its end: a longer trace leads nowhere else. -/
theorem Path.unique {t : Course I σ ρ} {tr rest : List I.Event} {r r' : ρ} (h : Path t tr r)
    (h' : Path t (tr ++ rest) r') : rest = [] ∧ r' = r := by
  induction h with
  | ret =>
    cases h'
    exact ⟨rfl, rfl⟩
  | ask a _ ih =>
    cases h' with
    | ask _ h' => exact ih h'

theorem Path.not_cut {t : Course I σ ρ} {tr rest : List I.Event} {r : ρ} {q : I.Ask} {s : σ}
    (h : Path t tr r) : ¬Cut t (tr ++ rest) q s := by
  intro hc
  induction h with
  | ret => cases hc
  | ask a _ ih =>
    cases hc with
    | later _ hc => exact ih hc

theorem path_lift {φ : I.Hom J} {put : σ → σ'} {G : ∀ q, J.Ans q → Prop}
    {r : ρ} {t : Course I σ ρ} {tr : List J.Event} (h : Path (t.lift φ put) tr r)
    (hG : ∀ e ∈ tr, G e.1 e.2) :
    ∃ tr', Path t tr' r ∧ ∀ e ∈ tr', ∃ a, G (φ.ask e.1) a ∧ φ.ans e.1 a = e.2 := by
  induction t generalizing tr with
  | ret m => cases h; exact ⟨[], .ret _, by simp⟩
  | ask q s k ih =>
    cases h with
    | ask a h =>
      obtain ⟨ha, hr⟩ := List.forall_mem_cons.1 hG
      obtain ⟨tr', hp, hq⟩ := ih _ h hr
      exact ⟨_, .ask _ hp, List.forall_mem_cons.2 ⟨⟨a, ha, rfl⟩, hq⟩⟩

theorem lift_path {φ : I.Hom J} {w : σ → σ'} {G : ∀ q, J.Ans q → Prop}
    {r : ρ} {t : Course I σ ρ} {tr : List I.Event} (h : Path t tr r)
    (hG : ∀ e ∈ tr, ∃ a, G (φ.ask e.1) a ∧ φ.ans e.1 a = e.2) :
    ∃ tr', Path (t.lift φ w) tr' r ∧ ∀ e ∈ tr', G e.1 e.2 := by
  induction h with
  | ret r => exact ⟨[], .ret _, by simp⟩
  | ask a _ ih =>
    obtain ⟨⟨b, hb, hab⟩, hr⟩ := List.forall_mem_cons.1 hG
    obtain ⟨tr', hp, hq⟩ := ih hr
    refine ⟨⟨_, b⟩ :: tr', .ask b ?_, List.forall_mem_cons.2 ⟨hb, hq⟩⟩
    rw [hab]
    exact hp

theorem cut_bind {f : ρ → Course I σ τ} {q : I.Ask} {s : σ} {t : Course I σ ρ}
    {tr : List I.Event} : Cut (t.bind f) tr q s ↔
      Cut t tr q s ∨ ∃ tr₁ m tr₂, Path t tr₁ m ∧ Cut (f m) tr₂ q s ∧ tr = tr₁ ++ tr₂ := by
  induction t generalizing tr with
  | ret m =>
    constructor
    · exact fun h => .inr ⟨[], m, tr, .ret m, h, rfl⟩
    · rintro (h | ⟨_, _, _, h₁, h₂, rfl⟩)
      · cases h
      · cases h₁
        exact h₂
  | ask q' s' k ih =>
    constructor
    · intro h
      cases h with
      | here => exact .inl (.here ..)
      | later a h =>
        rcases (ih a).1 h with h | ⟨tr₁, m, tr₂, h₁, h₂, rfl⟩
        · exact .inl (.later a h)
        · exact .inr ⟨_, m, tr₂, .ask a h₁, h₂, rfl⟩
    · rintro (h | ⟨_, m, tr₂, h₁, h₂, rfl⟩)
      · cases h with
        | here => exact .here ..
        | later a h => exact .later a ((ih a).2 (.inl h))
      · cases h₁ with
        | ask a h₁ => exact .later a ((ih a).2 (.inr ⟨_, m, tr₂, h₁, h₂, rfl⟩))

/-- A lifted run comes to lifted questions only. -/
theorem cut_lift {φ : I.Hom J} {put : σ → σ'} {q : J.Ask} {s : σ'} {t : Course I σ ρ}
    {tr : List J.Event} (h : Cut (t.lift φ put) tr q s) : ∃ q', φ.ask q' = q := by
  induction t generalizing tr with
  | ret => cases h
  | ask q' _ _ ih =>
    cases h with
    | here => exact ⟨q', rfl⟩
    | later _ h => exact ih _ h

/-- A lifted run is left where the run is. -/
theorem Cut.unlift {φ : I.Hom J} {put : σ → σ'} {q : J.Ask} {s : σ'} {t : Course I σ ρ}
    {tr : List J.Event} (h : Cut (t.lift φ put) tr q s) :
    ∃ tr' q' s', Cut t tr' q' s' ∧ φ.ask q' = q := by
  induction t generalizing tr with
  | ret => cases h
  | ask q' s' _ ih =>
    cases h with
    | here => exact ⟨[], q', s', .here .., rfl⟩
    | later _ h =>
      obtain ⟨tr', q'', s'', hc, hq⟩ := ih _ h
      exact ⟨_, q'', s'', .later _ hc, hq⟩

/-- A path whose answers are those of `ans` ends where `eval` does. -/
theorem Path.eval_eq {ans : ∀ q, I.Ans q} {t : Course I σ ρ} {tr : List I.Event} {r : ρ}
    (h : Path t tr r) (hc : ∀ e ∈ tr, ans e.1 = e.2) : t.eval ans = r := by
  induction h with
  | ret => rfl
  | ask a _ ih =>
    obtain ⟨ha, hr⟩ := List.forall_mem_cons.1 hc
    rw [eval, ha]
    exact ih hr

theorem path_eval (ans : ∀ q, I.Ans q) : ∀ t : Course I σ ρ,
    Path t ((t.asked ans).map fun q => ⟨q, ans q⟩) (t.eval ans)
  | .ret r => .ret r
  | .ask q _ k => .ask (ans q) (path_eval ans (k (ans q)))

/-- A question on a path is one that the run comes to. -/
theorem Path.comes {t : Course I σ ρ} {tr : List I.Event} {r : ρ} (h : Path t tr r) {e : I.Event}
    (he : e ∈ tr) : ∃ tr' s, Cut t tr' e.1 s := by
  induction h with
  | ret => cases he
  | ask a _ ih =>
    rcases List.mem_cons.1 he with rfl | he
    · exact ⟨[], _, .here ..⟩
    · obtain ⟨tr', s, hc⟩ := ih he
      exact ⟨_, s, .later a hc⟩

theorem Cut.comes {t : Course I σ ρ} {tr : List I.Event} {q : I.Ask} {s : σ} (h : Cut t tr q s)
    {e : I.Event} (he : e ∈ tr) : ∃ tr' s', Cut t tr' e.1 s' := by
  induction h with
  | here => cases he
  | later a _ ih =>
    rcases List.mem_cons.1 he with rfl | he
    · exact ⟨[], _, .here ..⟩
    · obtain ⟨tr', s', hc⟩ := ih he
      exact ⟨_, s', .later a hc⟩

/-- A question that is put is where the run can be left. -/
theorem cut_of_asked {ans : ∀ q, I.Ans q} {q : I.Ask} : ∀ {t : Course I σ ρ}, q ∈ t.asked ans →
    ∃ tr s, Cut t tr q s ∧ ∀ e ∈ tr, e.2 = ans e.1
  | .ask q' s k, h => by
    rcases List.mem_cons.1 h with rfl | h
    · exact ⟨[], s, .here .., by simp⟩
    · obtain ⟨tr, s', hc, htr⟩ := cut_of_asked h
      refine ⟨⟨q', ans q'⟩ :: tr, s', .later _ hc, ?_⟩
      simpa using htr

theorem eval_bind (ans : ∀ q, I.Ans q) (f : ρ → Course I σ τ) : ∀ t : Course I σ ρ,
    (t.bind f).eval ans = (f (t.eval ans)).eval ans
  | .ret _ => rfl
  | .ask q _ k => eval_bind ans f (k (ans q))

theorem asked_bind (ans : ∀ q, I.Ans q) (f : ρ → Course I σ τ) : ∀ t : Course I σ ρ,
    (t.bind f).asked ans = t.asked ans ++ (f (t.eval ans)).asked ans
  | .ret _ => rfl
  | .ask q _ k => congrArg (q :: ·) (asked_bind ans f (k (ans q)))

theorem asked_lift {φ : I.Hom J} {put : σ → σ'} (ans : ∀ q, J.Ans q) : ∀ t : Course I σ ρ,
    (t.lift φ put).asked ans = (t.asked fun q => φ.ans q (ans (φ.ask q))).map φ.ask
  | .ret _ => rfl
  | .ask q _ k => congrArg (φ.ask q :: ·) (asked_lift ans (k (φ.ans q (ans (φ.ask q)))))

/-! ## All answers -/

/-- Every run of `t`, put after the questions `qs`: at each question `C` holds of
    the questions before it, of it and of the state, and at the end `Q` of the
    questions and the result. -/
def wp (C : List I.Ask → I.Ask → σ → Prop) (Q : List I.Ask → ρ → Prop) :
    List I.Ask → Course I σ ρ → Prop
  | qs, ret r => Q qs r
  | qs, ask q s k => C qs q s ∧ ∀ a, wp C Q (qs ++ [q]) (k a)

variable {C : List I.Ask → I.Ask → σ → Prop} {qs : List I.Ask}

theorem wp_bind {Q : List I.Ask → τ → Prop} {f : ρ → Course I σ τ} : ∀ {qs} {t : Course I σ ρ},
    (t.bind f).wp C Q qs ↔ t.wp C (fun qs r => (f r).wp C Q qs) qs
  | _, .ret _ => Iff.rfl
  | _, .ask _ _ _ => and_congr_right fun _ => forall_congr' fun _ => wp_bind

theorem wp_mono {D : List I.Ask → I.Ask → σ → Prop} {P Q : List I.Ask → ρ → Prop}
    (hC : ∀ qs q s, C qs q s → D qs q s) (hQ : ∀ qs r, P qs r → Q qs r) :
    ∀ {qs} {t : Course I σ ρ}, t.wp C P qs → t.wp D Q qs
  | _, .ret _, h => hQ _ _ h
  | _, .ask _ _ _, h => ⟨hC _ _ _ h.1, fun a => wp_mono hC hQ (h.2 a)⟩

theorem wp_asked {K : I.Ask → Prop} (P : ρ → Prop) : ∀ {qs} {t : Course I σ ρ},
    t.wp (fun _ q _ => K q) (fun _ => P) qs → (∀ q ∈ qs, K q) →
    t.wp (fun qs q _ => (∀ q' ∈ qs, K q') ∧ K q) (fun qs r => (∀ q ∈ qs, K q) ∧ P r) qs
  | _, .ret _, h, hqs => ⟨hqs, h⟩
  | qs, .ask q _ _, ⟨hq, h⟩, hqs => by
    refine ⟨⟨hqs, hq⟩, fun a => wp_asked P (h a) ?_⟩
    rintro q' hq'
    rcases List.mem_append.1 hq' with h' | h'
    · exact hqs _ h'
    · exact List.mem_singleton.1 h' ▸ hq

theorem wp_path {Q : List I.Ask → ρ → Prop} {t : Course I σ ρ} {tr : List I.Event} {r : ρ}
    (h : t.wp C Q qs) (hp : Path t tr r) : Q (qs ++ tr.map (·.1)) r := by
  induction hp generalizing qs with
  | ret => simpa [wp] using h
  | ask a _ ih => simpa using ih (h.2 a)

theorem wp_cut {Q : List I.Ask → ρ → Prop} {t : Course I σ ρ} {tr : List I.Event} {q : I.Ask}
    {s : σ} (h : t.wp C Q qs) (hp : Cut t tr q s) : C (qs ++ tr.map (·.1)) q s := by
  induction hp generalizing qs with
  | here => simpa using h.1
  | later a _ ih => simpa using ih (h.2 a)

theorem wp_of_path {Q : List I.Ask → ρ → Prop} : ∀ {qs} {t : Course I σ ρ},
    (∀ tr q s, Cut t tr q s → C (qs ++ tr.map (·.1)) q s) →
    (∀ tr r, Path t tr r → Q (qs ++ tr.map (·.1)) r) → t.wp C Q qs
  | qs, .ret r, _, hQ => by simpa [wp] using hQ [] r (.ret r)
  | qs, .ask q s k, hC, hQ => by
    refine ⟨by simpa using hC [] q s (.here q s k), fun a => wp_of_path ?_ ?_⟩
    · intro tr q' s' h
      simpa using hC _ q' s' (.later a h)
    · intro tr r h
      simpa using hQ _ r (.ask a h)

theorem wp_lift {φ : I.Hom J} {w : σ → σ'} {C : List J.Ask → J.Ask → σ' → Prop}
    {Q : List J.Ask → ρ → Prop} {P : List I.Ask → ρ → Prop} {D : List I.Ask → I.Ask → σ → Prop}
    (pre : List J.Ask) (hC : ∀ qs q s, D qs q s → C (pre ++ qs.map φ.ask) (φ.ask q) (w s))
    (hQ : ∀ qs r, P qs r → Q (pre ++ qs.map φ.ask) r) : ∀ {qs : List I.Ask} {t : Course I σ ρ},
    t.wp D P qs → (t.lift φ w).wp C Q (pre ++ qs.map φ.ask)
  | _, .ret _, h => hQ _ _ h
  | qs, .ask q _ k, h => ⟨hC _ _ _ h.1, fun a => by
    have := wp_lift pre hC hQ (h.2 (φ.ans q a))
    simpa using this⟩

end Course

/-- A program: it runs on a state and ends with a value or an error, and with
    the state as written so far. -/
def Prog (I : Iface) (σ ε α : Type) : Type := σ → Course I σ (Except ε α × σ)

namespace Prog
variable {I J : Iface} {σ τ ε α β : Type}

/-- Go on with `f` unless an error ended the run. -/
def andThen (f : α → Prog I σ ε β) : Except ε α × σ → Course I σ (Except ε β × σ)
  | (.ok a, s) => f a s
  | (.error e, s) => .ret (.error e, s)

instance : Monad (Prog I σ ε) where
  pure a := fun s => .ret (.ok a, s)
  bind m f := fun s => (m s).bind (andThen f)

theorem bind_assoc {γ : Type} (m : Prog I σ ε α) (f : α → Prog I σ ε β) (g : β → Prog I σ ε γ) :
    m >>= f >>= g = m >>= fun a => f a >>= g := by
  funext s
  refine (Course.bind_assoc _ _ _).trans (congrArg (m s).bind (funext ?_))
  rintro ⟨_ | _, _⟩ <;> rfl

theorem pure_bind {a : α} {f : α → Prog I σ ε β} : (pure a : Prog I σ ε α) >>= f = f a := rfl

/-- End with an error. -/
def stop (e : ε) : Prog I σ ε α := fun s => .ret (.error e, s)

/-- End with an error unless `c` holds. -/
def require (c : Prop) [Decidable c] (e : ε) : Prog I σ ε Unit :=
  if c then pure () else stop e

/-- Put a question. -/
def ask (q : I.Ask) : Prog I σ ε (I.Ans q) := fun s => .ask q s fun a => .ret (.ok a, s)

/-- The state. -/
def get : Prog I σ ε σ := fun s => .ret (.ok s, s)

/-- Change the state. -/
def modify (f : σ → σ) : Prog I σ ε Unit := fun s => .ret (.ok (), f s)

/-- The value, or the error `e` when there is none. -/
def orStop (e : ε) : Option α → Prog I σ ε α
  | some a => pure a
  | none => stop e

/-- When `m` ends with an error, change the state on the way out. -/
def onError (f : ε → σ → σ) (m : Prog I σ ε α) : Prog I σ ε α := fun s =>
  (m s).bind fun
    | (.ok a, s) => .ret (.ok a, s)
    | (.error e, s) => .ret (.error e, f e s)

/-- `for (i = k; i < k + n; i++) a = body(i, a)`. -/
def loop (body : ℕ → α → Prog I σ ε α) : ℕ → ℕ → α → Prog I σ ε α
  | _, 0, a => pure a
  | k, n + 1, a => do
    let a' ← body k a
    loop body (k + 1) n a'

/-- A program over a part `τ` of the state and the questions of `I`, run as one
    over the whole of both. -/
def embed (φ : I.Hom J) (view : σ → τ) (put : τ → σ → σ) (m : Prog I τ ε α) : Prog J σ ε α :=
  fun s => ((m (view s)).lift φ fun t => put t s).bind fun p => .ret (p.1, put p.2 s)

/-! ## Running a program from a state -/

section Run
variable {s : σ}

theorem run_bind {m : Prog I σ ε α} {f : α → Prog I σ ε β} :
    (m >>= f) s = (m s).bind (andThen f) := rfl

theorem pure_run {a : α} : (pure a : Prog I σ ε α) s = .ret (.ok a, s) := rfl

theorem get_bind_run {f : σ → Prog I σ ε β} : (get >>= f) s = f s s := rfl

theorem modify_bind_run {g : σ → σ} {f : Unit → Prog I σ ε β} :
    (modify g >>= f) s = f () (g s) := rfl

theorem andThen_ok {a : α} {f : α → Prog I σ ε β} : andThen f (.ok a, s) = f a s := rfl

end Run

/-- How the program ends when every answer is that of `ans`. -/
def eval (ans : ∀ q, I.Ans q) (m : Prog I σ ε α) (s : σ) : Except ε α × σ := (m s).eval ans

/-- The questions it puts then. -/
def asked (ans : ∀ q, I.Ans q) (m : Prog I σ ε α) (s : σ) : List I.Ask := (m s).asked ans

/-! ## Runs that end well -/

/-- `m.Via G s a s'`: with answers that `G` allows, `m` may end well with `a`. -/
def Via (G : ∀ q, I.Ans q → Prop) (m : Prog I σ ε α) (s : σ) (a : α) (s' : σ) : Prop :=
  ∃ tr, (m s).Path tr (.ok a, s') ∧ ∀ e ∈ tr, G e.1 e.2

variable {G : ∀ q, I.Ans q → Prop} {ans : ∀ q, I.Ans q} {s s' : σ}

theorem via_eval {m : Prog I σ ε α} {a : α} :
    m.Via (fun q a => ans q = a) s a s' ↔ m.eval ans s = (.ok a, s') := by
  constructor
  · rintro ⟨tr, hp, hG⟩
    exact hp.eval_eq hG
  · intro h
    have hp := Course.path_eval ans (m s)
    rw [show Course.eval ans (m s) = (.ok a, s') from h] at hp
    exact ⟨_, hp, by simp⟩

/-- A run by evaluation, with answers that `G` allows. -/
theorem via_of_eval {m : Prog I σ ε α} {a : α} (hG : ∀ q, G q (ans q))
    (h : (m.eval ans s).1 = .ok a) : m.Via G s a (m.eval ans s).2 := by
  have hp := via_eval.2 (show m.eval ans s = (.ok a, (m.eval ans s).2) from Prod.ext h rfl)
  obtain ⟨tr, hp, hans⟩ := hp
  exact ⟨tr, hp, fun e he => hans e he ▸ hG e.1⟩

theorem path_of_eval {m : Prog I σ ε α} {a : α} (h : (m.eval ans s).1 = .ok a) :
    (m s).Path ((m.asked ans s).map fun q => ⟨q, ans q⟩) (.ok a, (m.eval ans s).2) := by
  have hp := Course.path_eval ans (m s)
  rwa [show Course.eval ans (m s) = (.ok a, (m.eval ans s).2) from Prod.ext h rfl] at hp

theorem Via.mono {H : ∀ q, I.Ans q → Prop} {m : Prog I σ ε α} {a : α}
    (hGH : ∀ q a, G q a → H q a) : m.Via G s a s' → m.Via H s a s' := by
  rintro ⟨tr, hp, hG⟩
  exact ⟨tr, hp, fun e he => hGH _ _ (hG e he)⟩

theorem via_bind {m : Prog I σ ε α} {f : α → Prog I σ ε β} {b : β} :
    (m >>= f).Via G s b s' ↔ ∃ a s₁, m.Via G s a s₁ ∧ (f a).Via G s₁ b s' := by
  constructor
  · rintro ⟨tr, hp, hG⟩
    obtain ⟨tr₁, ⟨r, s₁⟩, tr₂, h₁, h₂, rfl⟩ := Course.path_bind.1 hp
    obtain ⟨hG₁, hG₂⟩ := List.forall_mem_append.1 hG
    cases r with
    | error e => cases h₂
    | ok a => exact ⟨a, s₁, ⟨tr₁, h₁, hG₁⟩, tr₂, h₂, hG₂⟩
  · rintro ⟨a, s₁, ⟨tr₁, h₁, hG₁⟩, tr₂, h₂, hG₂⟩
    exact ⟨tr₁ ++ tr₂, Course.path_bind.2 ⟨tr₁, _, tr₂, h₁, h₂, rfl⟩,
      List.forall_mem_append.2 ⟨hG₁, hG₂⟩⟩

/-- A run that ends at once. -/
theorem via_ret {m : Prog I σ ε α} {r : Except ε α} {t : σ} {a : α} (h : m s = .ret (r, t)) :
    m.Via G s a s' ↔ r = .ok a ∧ t = s' := by
  constructor
  · rintro ⟨tr, hp, -⟩
    rw [h] at hp
    cases hp
    exact ⟨rfl, rfl⟩
  · rintro ⟨rfl, rfl⟩
    exact ⟨[], h ▸ .ret _, by simp⟩

theorem via_pure {a b : α} : (pure a : Prog I σ ε α).Via G s b s' ↔ a = b ∧ s = s' :=
  (via_ret rfl).trans (by simp)

theorem via_stop {e : ε} {b : α} : (stop e : Prog I σ ε α).Via G s b s' ↔ False :=
  (via_ret rfl).trans (by simp)

theorem via_require {c : Prop} [Decidable c] {e : ε} {u : Unit} :
    (require c e : Prog I σ ε Unit).Via G s u s' ↔ c ∧ s = s' := by
  unfold require
  split_ifs with h
  · simp [via_pure, h]
  · simp [via_stop, h]

theorem via_ask {q : I.Ask} {b : I.Ans q} :
    (ask q : Prog I σ ε _).Via G s b s' ↔ G q b ∧ s = s' := by
  constructor
  · rintro ⟨tr, hp, hG⟩
    cases hp with
    | ask a hp =>
      cases hp
      exact ⟨hG _ (List.mem_singleton.2 rfl), rfl⟩
  · rintro ⟨hb, rfl⟩
    exact ⟨[⟨q, b⟩], .ask b (.ret _), by simpa using hb⟩

theorem via_modify {f : σ → σ} {u : Unit} :
    (modify f : Prog I σ ε Unit).Via G s u s' ↔ f s = s' :=
  (via_ret rfl).trans (by simp)

theorem via_orStop {e : ε} {o : Option α} {b : α} :
    (orStop e o : Prog I σ ε α).Via G s b s' ↔ o = some b ∧ s = s' := by
  cases o with
  | none => simp [orStop, via_stop]
  | some a => simp [orStop, via_pure]

theorem via_ite {c : Prop} [Decidable c] {m n : Prog I σ ε α} {b : α} :
    (if c then m else n).Via G s b s' ↔
      (c ∧ m.Via G s b s') ∨ (¬c ∧ n.Via G s b s') := by
  by_cases h : c <;> simp [h]

theorem via_onError {f : ε → σ → σ} {m : Prog I σ ε α} {b : α} :
    (onError f m).Via G s b s' ↔ m.Via G s b s' := by
  constructor
  · rintro ⟨tr, hp, hG⟩
    obtain ⟨tr₁, ⟨r, s₁⟩, tr₂, h₁, h₂, rfl⟩ := Course.path_bind.1 hp
    cases r with
    | error e => cases h₂
    | ok a =>
      cases h₂
      exact ⟨tr₁, h₁, (List.forall_mem_append.1 hG).1⟩
  · rintro ⟨tr, hp, hG⟩
    exact ⟨tr ++ [], Course.path_bind.2 ⟨tr, _, [], hp, .ret _, rfl⟩, by simpa using hG⟩

theorem via_embed {φ : I.Hom J} {view : σ → τ} {put : τ → σ → σ} {m : Prog I τ ε α}
    {G : ∀ q, J.Ans q → Prop} {b : α} :
    (embed φ view put m).Via G s b s' ↔
      ∃ t, m.Via (fun q a => ∃ a', G (φ.ask q) a' ∧ φ.ans q a' = a) (view s) b t ∧
        put t s = s' := by
  constructor
  · rintro ⟨tr, hp, hG⟩
    obtain ⟨tr₁, ⟨r, t⟩, tr₂, h₁, h₂, rfl⟩ := Course.path_bind.1 hp
    obtain ⟨tr', hp', hG'⟩ := Course.path_lift h₁ (List.forall_mem_append.1 hG).1
    cases h₂
    exact ⟨t, ⟨tr', hp', hG'⟩, rfl⟩
  · rintro ⟨t, ⟨tr, hp, hG⟩, rfl⟩
    obtain ⟨tr', hp', hG'⟩ := Course.lift_path (w := fun t => put t s) hp hG
    exact ⟨tr' ++ [], Course.path_bind.2 ⟨tr', _, [], hp', .ret _, rfl⟩, by simpa using hG'⟩

/-! ## Runs along a path -/

theorem path_ok_bind {m : Prog I σ ε α} {f : α → Prog I σ ε β} {tr tr' : List I.Event} {a : α}
    {r : Except ε β × σ} (h : (m s).Path tr (.ok a, s')) (h' : (f a s').Path tr' r) :
    ((m >>= f) s).Path (tr ++ tr') r := Course.path_bind.2 ⟨tr, _, tr', h, h', rfl⟩

theorem path_error_bind {m : Prog I σ ε α} {f : α → Prog I σ ε β} {tr : List I.Event} {e : ε}
    (h : (m s).Path tr (.error e, s')) : ((m >>= f) s).Path tr (.error e, s') := by
  have hb : ((m >>= f) s).Path (tr ++ []) (.error e, s') :=
    Course.path_bind.2 ⟨tr, _, [], h, .ret _, rfl⟩
  rwa [List.append_nil] at hb

theorem path_onError {g : ε → σ → σ} {m : Prog I σ ε α} {tr : List I.Event} {e : ε}
    (h : (m s).Path tr (.error e, s')) : (onError g m s).Path tr (.error e, g e s') := by
  have hb : (onError g m s).Path (tr ++ []) (.error e, g e s') :=
    Course.path_bind.2 ⟨tr, _, [], h, .ret _, rfl⟩
  rwa [List.append_nil] at hb

theorem path_bind_ok {m : Prog I σ ε α} {f : α → Prog I σ ε β} {tr : List I.Event} {b : β}
    (h : ((m >>= f) s).Path tr (.ok b, s')) : ∃ tr₁ a s₁ tr₂,
      (m s).Path tr₁ (.ok a, s₁) ∧ (f a s₁).Path tr₂ (.ok b, s') ∧ tr = tr₁ ++ tr₂ := by
  obtain ⟨tr₁, ⟨_ | a, s₁⟩, tr₂, h₁, h₂, rfl⟩ := Course.path_bind.1 h
  · cases h₂
  · exact ⟨tr₁, a, s₁, tr₂, h₁, h₂, rfl⟩

theorem path_ret_ok {m : Prog I σ ε α} {r : Except ε α × σ} {tr : List I.Event} {a : α}
    (hm : m s = .ret r) (h : (m s).Path tr (.ok a, s')) : tr = [] ∧ r = (.ok a, s') := by
  rw [hm] at h
  cases h
  exact ⟨rfl, rfl⟩

/-! ## Questions on the way -/

/-- `m.Puts G s q s'`: with answers that `G` allows, `m` may come to the question `q`, in
    the state `s'`. -/
def Puts (G : ∀ q, I.Ans q → Prop) (m : Prog I σ ε α) (s : σ) (q : I.Ask) (s' : σ) : Prop :=
  ∃ tr, (m s).Cut tr q s' ∧ ∀ e ∈ tr, G e.1 e.2

theorem puts_bind {m : Prog I σ ε α} {f : α → Prog I σ ε β} {q : I.Ask} :
    (m >>= f).Puts G s q s' ↔
      m.Puts G s q s' ∨ ∃ a s₁, m.Via G s a s₁ ∧ (f a).Puts G s₁ q s' := by
  constructor
  · rintro ⟨tr, hc, hG⟩
    rcases Course.cut_bind.1 hc with h | ⟨tr₁, ⟨r, s₁⟩, tr₂, h₁, h₂, rfl⟩
    · exact .inl ⟨tr, h, hG⟩
    · obtain ⟨hG₁, hG₂⟩ := List.forall_mem_append.1 hG
      cases r with
      | error e => cases h₂
      | ok a => exact .inr ⟨a, s₁, ⟨tr₁, h₁, hG₁⟩, tr₂, h₂, hG₂⟩
  · rintro (⟨tr, hc, hG⟩ | ⟨a, s₁, ⟨tr₁, h₁, hG₁⟩, tr₂, h₂, hG₂⟩)
    · exact ⟨tr, Course.cut_bind.2 (.inl hc), hG⟩
    · exact ⟨tr₁ ++ tr₂, Course.cut_bind.2 (.inr ⟨tr₁, _, tr₂, h₁, h₂, rfl⟩),
        List.forall_mem_append.2 ⟨hG₁, hG₂⟩⟩

/-- A run that ends at once puts no question. -/
theorem puts_ret {m : Prog I σ ε α} {r : Except ε α × σ} {q : I.Ask} (h : m s = .ret r) :
    ¬m.Puts G s q s' := by
  rintro ⟨tr, hc, -⟩
  rw [h] at hc
  cases hc

theorem puts_ask {q q' : I.Ask} : (ask q : Prog I σ ε _).Puts G s q' s' ↔ q = q' ∧ s = s' := by
  constructor
  · rintro ⟨tr, hc, -⟩
    cases hc with
    | here => exact ⟨rfl, rfl⟩
    | later a hc => cases hc
  · rintro ⟨rfl, rfl⟩
    exact ⟨[], .here .., by simp⟩

theorem puts_get_bind {f : σ → Prog I σ ε β} {q : I.Ask} :
    (get >>= f).Puts G s q s' ↔ (f s).Puts G s q s' := Iff.rfl

theorem puts_onError {f : ε → σ → σ} {m : Prog I σ ε α} {q : I.Ask} :
    (onError f m).Puts G s q s' ↔ m.Puts G s q s' := by
  constructor
  · rintro ⟨tr, hc, hG⟩
    rcases Course.cut_bind.1 hc with h | ⟨_, ⟨_ | _, _⟩, _, -, h₂, -⟩
    · exact ⟨tr, h, hG⟩
    · cases h₂
    · cases h₂
  · rintro ⟨tr, hc, hG⟩
    exact ⟨tr, Course.cut_bind.2 (.inl hc), hG⟩

theorem puts_embed {φ : I.Hom J} {view : σ → τ} {put : τ → σ → σ} {m : Prog I τ ε α}
    {G : ∀ q, J.Ans q → Prop} {q : J.Ask} (h : (embed φ view put m).Puts G s q s') :
    ∃ q', φ.ask q' = q := by
  obtain ⟨tr, hc, -⟩ := h
  rcases Course.cut_bind.1 hc with h | ⟨_, _, _, -, h₂, -⟩
  · exact Course.cut_lift h
  · cases h₂

theorem puts_of_asked {m : Prog I σ ε α} {q : I.Ask} (h : q ∈ m.asked ans s)
    (hG : ∀ q, G q (ans q)) : ∃ s', m.Puts G s q s' := by
  obtain ⟨tr, s', hc, htr⟩ := Course.cut_of_asked h
  refine ⟨s', tr, hc, fun e he => ?_⟩
  rw [htr e he]
  exact hG e.1

/-- Every question that `m` may put is one of `K`. -/
def Asks (K : I.Ask → Prop) (m : Prog I σ ε α) : Prop :=
  ∀ ⦃s tr q s'⦄, (m s).Cut tr q s' → K q

section Asks
variable {K : I.Ask → Prop} {m : Prog I σ ε α} {f : α → Prog I σ ε β}

theorem asks_ret {r : σ → Except ε α × σ} (h : ∀ s, m s = .ret (r s)) : Asks K m := by
  intro s tr q s' hc
  rw [h] at hc
  cases hc

theorem asks_pure {a : α} : Asks K (pure a : Prog I σ ε α) := asks_ret fun _ => rfl

theorem asks_stop {e : ε} : Asks K (stop e : Prog I σ ε α) := asks_ret fun _ => rfl

theorem asks_get : Asks K (get : Prog I σ ε σ) := asks_ret fun _ => rfl

theorem asks_require {c : Prop} [Decidable c] {e : ε} : Asks K (require c e : Prog I σ ε Unit) := by
  unfold require
  split_ifs
  · exact asks_pure
  · exact asks_stop

theorem asks_orStop {e : ε} : ∀ {o : Option α}, Asks K (orStop e o : Prog I σ ε α)
  | some _ => asks_pure
  | none => asks_stop

theorem asks_ask {q : I.Ask} (h : K q) : Asks K (ask q : Prog I σ ε _) := by
  intro s tr q' s' hc
  cases hc with
  | here => exact h
  | later a hc => cases hc

theorem asks_bind (hm : Asks K m) (hf : ∀ a, Asks K (f a)) : Asks K (m >>= f) := by
  intro s tr q s' hc
  rcases Course.cut_bind.1 hc with h | ⟨_, ⟨r, s₁⟩, _, -, h₂, -⟩
  · exact hm h
  · cases r with
    | error e => cases h₂
    | ok a => exact hf a h₂

theorem asks_loop {body : ℕ → α → Prog I σ ε α} (h : ∀ i a, Asks K (body i a)) :
    ∀ {n k : ℕ} {a : α}, Asks K (loop body k n a)
  | 0, _, _ => asks_pure
  | _ + 1, k, a => asks_bind (h k a) fun _ => asks_loop h

theorem asks_onError {g : ε → σ → σ} (hm : Asks K m) : Asks K (onError g m) := by
  intro s tr q s' hc
  rcases Course.cut_bind.1 hc with h | ⟨_, ⟨_ | _, _⟩, _, -, h₂, -⟩
  · exact hm h
  · cases h₂
  · cases h₂

/-- A program over a part of the state asks what it asks itself, lifted. -/
theorem asks_embed {φ : I.Hom J} {view : τ → σ} {put : σ → τ → τ} {K' : J.Ask → Prop}
    (hm : Asks K m) (hK : ∀ q, K q → K' (φ.ask q)) : Asks K' (embed φ view put m) := by
  intro s tr q s' hc
  rcases Course.cut_bind.1 hc with h | ⟨_, _, _, -, h₂, -⟩
  · obtain ⟨tr', q', s'', hc', rfl⟩ := h.unlift
    exact hK q' (hm hc')
  · cases h₂

theorem Asks.path {tr : List I.Event} {r : Except ε α × σ} (h : Asks K m)
    (hp : (m s).Path tr r) : ∀ e ∈ tr, K e.1 := fun _ he => by
  obtain ⟨_, _, hc⟩ := hp.comes he
  exact h hc

theorem Asks.cut {tr : List I.Event} {q : I.Ask} {s' : σ} (h : Asks K m)
    (hc : (m s).Cut tr q s') : ∀ e ∈ tr, K e.1 := fun _ he => by
  obtain ⟨_, _, hc⟩ := hc.comes he
  exact h hc

/-- A question that `m` never puts comes after `m`. -/
theorem Asks.puts_bind {q : I.Ask} (hm : Asks K m) (hq : ¬K q)
    (h : (m >>= f).Puts G s q s') : ∃ a s₁, m.Via G s a s₁ ∧ (f a).Puts G s₁ q s' := by
  rcases Prog.puts_bind.1 h with ⟨tr, hc, -⟩ | h
  · exact absurd (hm hc) hq
  · exact h

end Asks

/-! Rules for a program that begins with a primitive. -/

theorem via_require_bind {c : Prop} [Decidable c] {e : ε} {f : Unit → Prog I σ ε β} {b : β} :
    (require c e >>= f).Via G s b s' ↔ c ∧ (f ()).Via G s b s' := by
  simp only [via_bind, via_require]
  constructor
  · rintro ⟨_, _, ⟨hc, rfl⟩, h⟩
    exact ⟨hc, h⟩
  · rintro ⟨hc, h⟩
    exact ⟨(), s, ⟨hc, rfl⟩, h⟩

theorem via_ask_bind {q : I.Ask} {f : I.Ans q → Prog I σ ε β} {b : β} :
    (ask q >>= f).Via G s b s' ↔ ∃ a, G q a ∧ (f a).Via G s b s' := by
  simp only [via_bind, via_ask]
  constructor
  · rintro ⟨a, _, ⟨ha, rfl⟩, h⟩
    exact ⟨a, ha, h⟩
  · rintro ⟨a, ha, h⟩
    exact ⟨a, s, ⟨ha, rfl⟩, h⟩

theorem via_orStop_bind {e : ε} {o : Option α} {f : α → Prog I σ ε β} {b : β} :
    (orStop e o >>= f).Via G s b s' ↔ ∃ a, o = some a ∧ (f a).Via G s b s' := by
  simp only [via_bind, via_orStop]
  constructor
  · rintro ⟨a, _, ⟨ha, rfl⟩, h⟩
    exact ⟨a, ha, h⟩
  · rintro ⟨a, ha, h⟩
    exact ⟨a, s, ⟨ha, rfl⟩, h⟩

theorem via_get_bind {f : σ → Prog I σ ε β} {b : β} :
    (get >>= f).Via G s b s' ↔ (f s).Via G s b s' := Iff.rfl

theorem via_modify_bind {g : σ → σ} {f : Unit → Prog I σ ε β} {b : β} :
    (modify g >>= f).Via G s b s' ↔ (f ()).Via G (g s) b s' := Iff.rfl

theorem via_pure_bind {a : α} {f : α → Prog I σ ε β} {b : β} :
    (pure a >>= f).Via G s b s' ↔ (f a).Via G s b s' := Iff.rfl

theorem via_bind_pure {m : Prog I σ ε α} {a : α} :
    (m >>= pure).Via G s a s' ↔ m.Via G s a s' := by
  rw [via_bind]
  constructor
  · rintro ⟨b, t, h, hp⟩
    obtain ⟨rfl, rfl⟩ := via_pure.1 hp
    exact h
  · exact fun h => ⟨a, s', h, via_pure.2 ⟨rfl, rfl⟩⟩

/-- A loop that ends well: `P` holds of the index, the accumulator and the state
    at the start, and each turn keeps it. -/
theorem via_loop {body : ℕ → α → Prog I σ ε α} {P : ℕ → α → σ → Prop} :
    ∀ {n k : ℕ} {a b : α} {s s' : σ}, (loop body k n a).Via G s b s' → P k a s →
      (∀ i a a' s s', k ≤ i → i < k + n → (body i a).Via G s a' s' → P i a s →
        P (i + 1) a' s') →
      P (k + n) b s'
  | 0, k, a, b, s, s', h, h0, _ => by
    obtain ⟨rfl, rfl⟩ := via_pure.1 h
    exact h0
  | n + 1, k, a, b, s, s', h, h0, hs => by
    obtain ⟨a', s₁, h₁, h₂⟩ := via_bind.1 h
    have h1 := hs k a a' s s₁ le_rfl (by omega) h₁ h0
    have := via_loop h₂ h1 fun i a a' s s' hi hn hb hp =>
      hs i a a' s s' (by omega) (by omega) hb hp
    rwa [show k + (n + 1) = k + 1 + n by omega]

/-- A loop whose turns compute `f` and leave the state alone. -/
theorem via_loop_iff {body : ℕ → α → Prog I σ ε α} {f : ℕ → α → Option α}
    (h : ∀ i a a' s s', (body i a).Via G s a' s' ↔ f i a = some a' ∧ s = s') :
    ∀ {n k : ℕ} {a b : α} {s s' : σ}, (loop body k n a).Via G s b s' ↔
      (List.range' k n).foldlM (fun a i => f i a) a = some b ∧ s = s'
  | 0, k, a, b, s, s' => by
    rw [loop, via_pure, List.range'_zero, List.foldlM_nil, Option.pure_def, Option.some.injEq]
  | n + 1, k, a, b, s, s' => by
    rw [loop, via_bind, List.range'_succ, List.foldlM_cons]
    constructor
    · rintro ⟨a', s₁, h₁, h₂⟩
      obtain ⟨hf, rfl⟩ := (h k a a' s s₁).1 h₁
      obtain ⟨hl, rfl⟩ := (via_loop_iff h).1 h₂
      exact ⟨Option.bind_eq_some_iff.2 ⟨a', hf, hl⟩, rfl⟩
    · rintro ⟨hl, rfl⟩
      obtain ⟨a', hf, hl⟩ := Option.bind_eq_some_iff.1 hl
      exact ⟨a', s, (h k a a' s s).2 ⟨hf, rfl⟩, (via_loop_iff h).2 ⟨hl, rfl⟩⟩

theorem asked_bind {m : Prog I σ ε α} {f : α → Prog I σ ε β} :
    (m >>= f).asked ans s = m.asked ans s ++ (andThen f (m.eval ans s)).asked ans :=
  Course.asked_bind ans _ _

theorem asked_onError {f : ε → σ → σ} {m : Prog I σ ε α} :
    (onError f m).asked ans s = m.asked ans s := by
  have h : ∀ p : Except ε α × σ, Course.asked (I := I) (σ := σ) ans
      (match p with
        | (.ok a, s) => .ret (.ok a, s)
        | (.error e, s) => .ret ((.error e, f e s) : Except ε α × σ)) = [] := by
    rintro ⟨_ | _, _⟩ <;> rfl
  simp only [asked, onError, Course.asked_bind, h, List.append_nil]

theorem asked_embed {φ : I.Hom J} {view : σ → τ} {put : τ → σ → σ} {m : Prog I τ ε α}
    {ans : ∀ q, J.Ans q} :
    (embed φ view put m).asked ans s =
      (m.asked (fun q => φ.ans q (ans (φ.ask q))) (view s)).map φ.ask := by
  simp only [asked, embed, Course.asked_bind, Course.asked_lift, Course.asked, List.append_nil]

/-! ## All runs -/

/-- Every run of `m` from `s`, after the questions `qs`: `C` holds at each
    question and `Q` at the end. -/
def wp (C : List I.Ask → I.Ask → σ → Prop) (Q : List I.Ask → Except ε α → σ → Prop)
    (m : Prog I σ ε α) (qs : List I.Ask) (s : σ) : Prop :=
  (m s).wp C (fun qs r => Q qs r.1 r.2) qs

/-- A postcondition by cases on how the program ends. -/
abbrev ends (P : α → σ → Prop) (Q : ε → σ → Prop) : Except ε α → σ → Prop
  | .ok a, s => P a s
  | .error e, s => Q e s

/-- The postcondition of `m` in `m >>= f`. -/
def next (C : List I.Ask → I.Ask → σ → Prop) (Q : List I.Ask → Except ε β → σ → Prop)
    (f : α → Prog I σ ε β) (qs : List I.Ask) : Except ε α → σ → Prop :=
  ends (fun a s => (f a).wp C Q qs s) fun e s => Q qs (.error e) s

variable {C : List I.Ask → I.Ask → σ → Prop} {Q : List I.Ask → Except ε α → σ → Prop}
  {qs : List I.Ask}

/-- What holds of each question holds of all questions put. -/
theorem wp_asked {K : I.Ask → Prop} {P : Except ε α → σ → Prop} {m : Prog I σ ε α}
    (h : m.wp (fun _ q _ => K q) (fun _ => P) qs s) (hqs : ∀ q ∈ qs, K q) :
    m.wp (fun qs q _ => (∀ q' ∈ qs, K q') ∧ K q) (fun qs r s => (∀ q ∈ qs, K q) ∧ P r s) qs s :=
  Course.wp_asked (fun r : Except ε α × σ => P r.1 r.2) h hqs

theorem wp_mono {D : List I.Ask → I.Ask → σ → Prop} {P : List I.Ask → Except ε α → σ → Prop}
    {m : Prog I σ ε α} (hC : ∀ qs q s, C qs q s → D qs q s)
    (hQ : ∀ qs r s, P qs r s → Q qs r s) (h : m.wp C P qs s) : m.wp D Q qs s :=
  Course.wp_mono hC (fun _ _ h => hQ _ _ _ h) h

theorem wp_bind {R : List I.Ask → Except ε β → σ → Prop} {m : Prog I σ ε α}
    {f : α → Prog I σ ε β} : (m >>= f).wp C R qs s ↔ m.wp C (next C R f) qs s := by
  have h : (fun qs (r : Except ε α × σ) => (andThen f r).wp C (fun qs r => R qs r.1 r.2) qs)
      = fun qs r => next C R f qs r.1 r.2 := by
    funext qs ⟨r, s⟩
    cases r <;> rfl
  show Course.wp C (fun qs r => R qs r.1 r.2) qs ((m s).bind (andThen f)) ↔ _
  rw [Course.wp_bind, h]
  exact Iff.rfl

theorem wp_ret {m : Prog I σ ε α} {r : Except ε α} {t : σ} (h : m s = .ret (r, t)) :
    m.wp C Q qs s ↔ Q qs r t := by
  rw [wp, h]
  exact Iff.rfl

theorem wp_ask {q : I.Ask} {Q : List I.Ask → Except ε (I.Ans q) → σ → Prop} :
    (ask q : Prog I σ ε _).wp C Q qs s ↔ C qs q s ∧ ∀ a, Q (qs ++ [q]) (.ok a) s := Iff.rfl

theorem wp_onError {f : ε → σ → σ} {m : Prog I σ ε α}
    (h : m.wp C (fun qs => ends (fun a s => Q qs (.ok a) s) fun e s => Q qs (.error e) (f e s))
      qs s) : (onError f m).wp C Q qs s := by
  refine Course.wp_bind.2 (Course.wp_mono (fun _ _ _ h => h) ?_ h)
  rintro qs ⟨_ | _, _⟩ h <;> exact h

/-- A loop: `P` holds at the start, each turn keeps it or ends in `Q`, and after
    the last turn `P` gives `Q`. -/
theorem wp_loop {body : ℕ → α → Prog I σ ε α} {P : ℕ → α → List I.Ask → σ → Prop} :
    ∀ {n k : ℕ} {a : α} {qs : List I.Ask} {s : σ}, P k a qs s →
      (∀ i a qs s, k ≤ i → i < k + n → P i a qs s → (body i a).wp C (fun qs =>
        ends (fun a' s => P (i + 1) a' qs s) fun e s => Q qs (.error e) s) qs s) →
      (∀ a qs s, P (k + n) a qs s → Q qs (.ok a) s) → (loop body k n a).wp C Q qs s
  | 0, _, _, _, _, h0, _, hQ => hQ _ _ _ h0
  | n + 1, k, a, qs, s, h0, hs, hQ => by
    refine wp_bind.2 (wp_mono (fun _ _ _ h => h) ?_ (hs k a qs s le_rfl (by omega) h0))
    rintro qs (e | a') s h
    · exact h
    · refine wp_loop h (fun i a qs s hi hn => hs i a qs s (by omega) (by omega)) fun a qs s h => ?_
      exact hQ _ _ _ (by rwa [show k + (n + 1) = k + 1 + n by omega])

theorem wp_embed {φ : I.Hom J} {view : σ → τ} {put : τ → σ → σ} {m : Prog I τ ε α}
    {C : List J.Ask → J.Ask → σ → Prop} {Q : List J.Ask → Except ε α → σ → Prop}
    {P : List I.Ask → Except ε α → τ → Prop} {D : List I.Ask → I.Ask → τ → Prop}
    {pre : List J.Ask} (h : m.wp D P [] (view s))
    (hC : ∀ qs q t, D qs q t → C (pre ++ qs.map φ.ask) (φ.ask q) (put t s))
    (hQ : ∀ qs r t, P qs r t → Q (pre ++ qs.map φ.ask) r (put t s)) :
    (embed φ view put m).wp C Q pre s := by
  refine Course.wp_bind.2 ?_
  have := Course.wp_lift (w := fun t => put t s) (C := C)
    (Q := fun qs r => Q qs r.1 (put r.2 s)) pre (fun qs q t h => hC qs q t h)
    (fun qs r h => hQ qs r.1 r.2 h) h
  rw [List.map_nil, List.append_nil] at this
  exact this

/-- All paths and all cuts together are all runs. -/
theorem wp_of_path {m : Prog I σ ε α}
    (hC : ∀ tr q t, (m s).Cut tr q t → C (qs ++ tr.map (·.1)) q t)
    (hQ : ∀ tr r t, (m s).Path tr (r, t) → Q (qs ++ tr.map (·.1)) r t) : m.wp C Q qs s :=
  Course.wp_of_path hC fun tr r h => hQ tr r.1 r.2 h

/-! ## What a program keeps -/

/-- `P` holds of the state at every question and at the end if it does at the start, and
    the only errors are those that `X` allows. -/
def Keeps (X : ε → Prop) (P : σ → Prop) (m : Prog I σ ε α) : Prop :=
  ∀ qs s, P s → m.wp (fun _ _ s => P s) (fun _ r s => P s ∧ ∀ e, r = .error e → X e) qs s

section Keeps
variable {X : ε → Prop} {P : σ → Prop}

theorem Keeps.via {m : Prog I σ ε α} {a : α} (h : Keeps X P m) (hs : P s)
    (hm : m.Via G s a s') : P s' := by
  obtain ⟨tr, hp, -⟩ := hm
  have hend := Course.wp_path (h [] s hs) hp
  exact hend.1

end Keeps

end Prog
