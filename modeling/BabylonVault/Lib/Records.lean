/-
  Records read off the front of a stream.

  * `Reader`: takes one record off the front of a payload, into a state; `Reader.run`
    takes records until nothing is left.
  * `Reader.Lawful`: a reader that does not look behind the record it takes. What it has
    taken can be cut off the front (`run_append`).
  * `Reader.Whole`: a byte string that is one record to the reader, taken or not, whatever
    follows. A payload of such records is a fold over them (`run_flatten`), so it does
    not matter how it was cut into payloads; when all records are encodings, nothing else
    is taken (`run_iff`).
-/
import Mathlib.Data.List.Basic

/-- Takes a record off the front of a payload: the next state, and what is left. -/
abbrev Reader (α σ : Type) := List α → σ → Option (σ × List α)

namespace Reader
variable {α σ : Type} (r : Reader α σ)

/-- Take records until nothing is left; the fuel bounds their number. -/
def readAll : ℕ → List α → σ → Option σ
  | _, [], s => some s
  | 0, _ :: _, _ => none
  | n + 1, a :: data, s => do
    let (s, rest) ← r (a :: data) s
    readAll n rest s

/-- Take records until nothing is left. -/
def run (data : List α) (s : σ) : Option σ := readAll r data.length data s

/-- Take a record, and forget what follows it. -/
def step (s : σ) (rec : List α) : Option σ := (r rec s).map Prod.fst

/-- The reader takes something, and does not look behind the record it takes. -/
structure Lawful : Prop where
  shrinks : ∀ {data rest s s'}, r data s = some (s', rest) → rest.length < data.length
  append : ∀ {data rest s s'} more, r data s = some (s', rest) →
    r (data ++ more) s = some (s', rest ++ more)

/-- One record, in every state: it is taken as a whole or refused, whatever follows. -/
structure Whole (rec : List α) : Prop where
  ne_nil : rec ≠ []
  takes : ∀ s more, r (rec ++ more) s = (r.step s rec).map fun s' => (s', more)

variable {r} {data rest A B rec : List α} {s s' t : σ} {n : ℕ}

@[simp] theorem readAll_nil : readAll r n [] s = some s := by cases n <;> rfl

@[simp] theorem run_nil : r.run [] s = some s := rfl

/-- The fuel does not matter when it is enough. -/
theorem readAll_eq_run (hr : r.Lawful) : ∀ {n : ℕ} {data : List α} {s : σ}, data.length ≤ n →
    readAll r n data s = r.run data s
  | n, [], s, _ => by rw [readAll_nil, run_nil]
  | n + 1, a :: data, s, hn => by
    rw [run, List.length_cons, readAll, readAll]
    rcases h : r (a :: data) s with _ | ⟨s', rest⟩
    · rfl
    · have hlt : rest.length < data.length + 1 := hr.shrinks h
      have hle : data.length + 1 ≤ n + 1 := hn
      show readAll r n rest s' = readAll r data.length rest s'
      rw [readAll_eq_run hr (by omega), readAll_eq_run hr (by omega)]
  termination_by n => n

/-- A payload that is not empty: a record, and the rest. -/
theorem run_eq (hr : r.Lawful) (hd : data ≠ []) :
    r.run data s = (r data s).bind fun x => r.run x.2 x.1 := by
  obtain ⟨a, data, rfl⟩ := List.exists_cons_of_ne_nil hd
  rw [run, List.length_cons, readAll]
  rcases h : r (a :: data) s with _ | ⟨s', rest⟩
  · rfl
  · have hlt : rest.length < data.length + 1 := hr.shrinks h
    exact readAll_eq_run hr (by omega)

/-- What was taken can be cut off the front. -/
theorem run_append (hr : r.Lawful) : ∀ {A : List α} {s : σ}, r.run A s = some t →
    r.run (A ++ B) s = r.run B t
  | [], s, h => by
    cases h
    rfl
  | a :: A, s, h => by
    rw [run_eq hr (List.cons_ne_nil _ _)] at h
    obtain ⟨⟨s', rest⟩, h₁, h₂⟩ := Option.bind_eq_some_iff.1 h
    have hlt : rest.length < A.length + 1 := hr.shrinks h₁
    rw [run_eq hr (by simp), hr.append B h₁, Option.bind_some]
    exact run_append hr h₂
  termination_by A => A.length

/-- A record in front. -/
theorem Whole.run_append (hr : r.Lawful) (h : r.Whole rec) :
    r.run (rec ++ data) s = (r.step s rec).bind (r.run data) := by
  have hne : rec ++ data ≠ [] := by simp [h.ne_nil]
  rw [run_eq hr hne, h.takes, Option.bind_map]
  rfl

/-- A payload of records is a fold over them. -/
theorem run_flatten (hr : r.Lawful) : ∀ {recs : List (List α)} {s : σ}, (∀ rec ∈ recs, r.Whole rec) →
    r.run recs.flatten s = recs.foldlM r.step s
  | [], _, _ => rfl
  | rec :: recs, s, h => by
    obtain ⟨hrec, hrecs⟩ := List.forall_mem_cons.1 h
    rw [List.flatten_cons, hrec.run_append hr, List.foldlM_cons]
    congr 1
    funext s'
    exact run_flatten hr hrecs

/-- Every record the reader takes is an encoding: it takes exactly the payloads of
    encodings that are taken one after the other. -/
theorem run_iff {β : Type} {enc : β → List α} (hr : r.Lawful) (hw : ∀ b, r.Whole (enc b))
    (he : ∀ {data rest s s'}, r data s = some (s', rest) → ∃ b, data = enc b ++ rest) :
    r.run data s = some t ↔
      ∃ bs : List β, data = bs.flatMap enc ∧ bs.foldlM (fun s b => r.step s (enc b)) s = some t := by
  have hfold : ∀ (bs : List β) (s : σ), r.run (bs.flatMap enc) s =
      bs.foldlM (fun s b => r.step s (enc b)) s := by
    intro bs s
    rw [List.flatMap_def, run_flatten hr (by simpa using fun b _ => hw b), List.foldlM_map]
  constructor
  · have hall : ∀ (n : ℕ) (data : List α) (s : σ), data.length ≤ n → r.run data s = some t →
        ∃ bs : List β, data = bs.flatMap enc := by
      intro n
      induction n with
      | zero =>
        intro data s hn _
        exact ⟨[], List.eq_nil_of_length_eq_zero (by omega)⟩
      | succ n ih =>
        intro data s hn h
        rcases data with _ | ⟨a, data⟩
        · exact ⟨[], rfl⟩
        · rw [run_eq hr (List.cons_ne_nil _ _)] at h
          obtain ⟨⟨s', rest⟩, h₁, h₂⟩ := Option.bind_eq_some_iff.1 h
          have hlt : rest.length < (a :: data).length := hr.shrinks h₁
          obtain ⟨b, hb⟩ := he h₁
          obtain ⟨bs, rfl⟩ := ih rest s' (by omega) h₂
          exact ⟨b :: bs, hb⟩
    intro h
    obtain ⟨bs, rfl⟩ := hall data.length data s (Nat.le_refl _) h
    exact ⟨bs, rfl, hfold bs s ▸ h⟩
  · rintro ⟨bs, rfl, h⟩
    rw [hfold, h]

end Reader
