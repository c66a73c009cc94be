/-
  Trees of scripts under one hash.

  * `ScriptTree`: a binary tree with data at its leaves; `root` is its hash.
  * `climb`: from the hash of a leaf, the hashes beside it lead up to a root.
  * `Way`: the hashes beside the path to a leaf, from the leaf up.
  * `climb_eq_root`: what climbs to the root of a tree is a leaf of the tree with its own way,
    or else an input that was hashed on the way up has the hash of another one in the tree.
-/
import Mathlib.Data.List.Induction
import BabylonVault.Lib.Collision

/-- A binary tree with data at its leaves. -/
inductive ScriptTree (α : Type) where
  | leaf (a : α)
  | node (l r : ScriptTree α)
  deriving DecidableEq

namespace ScriptTree
variable {α β : Type}

/-- The data, from left to right. -/
def leaves : ScriptTree α → List α
  | leaf a => [a]
  | node l r => l.leaves ++ r.leaves

theorem length_leaves_pos : ∀ t : ScriptTree α, 0 < t.leaves.length
  | leaf _ => Nat.one_pos
  | node l r => by
    have := l.length_leaves_pos
    rw [leaves, List.length_append]
    omega

/-- The same tree over other data. -/
def map {γ : Type} (f : γ → α) : ScriptTree γ → ScriptTree α
  | leaf a => leaf (f a)
  | node l r => node (l.map f) (r.map f)

@[simp] theorem leaves_map {γ : Type} (f : γ → α) : ∀ t : ScriptTree γ,
    (t.map f).leaves = t.leaves.map f
  | leaf _ => rfl
  | node l r => by rw [map, leaves, leaves_map f l, leaves_map f r, leaves, List.map_append]

/-- What is hashed: a leaf, or two children. -/
inductive Input (α β : Type) where
  | leaf (a : α)
  | branch (x y : β)

/-- Two inputs of a hash that does not tell the left child from the right one. -/
inductive Input.Alike : Input α β → Input α β → Prop
  | refl q : Alike q q
  | swap x y : Alike (.branch x y) (.branch y x)

section Hash
variable (leafHash : α → β) (branch : β → β → β)

def Input.hash : Input α β → β
  | .leaf a => leafHash a
  | .branch x y => branch x y

/-- The hash of a tree. -/
def root : ScriptTree α → β
  | leaf a => leafHash a
  | node l r => branch (l.root) (r.root)

/-- The inputs that are hashed for the root. -/
def inputs : ScriptTree α → List (Input α β)
  | leaf a => [.leaf a]
  | node l r => .branch (l.root leafHash branch) (r.root leafHash branch) :: (l.inputs ++ r.inputs)

/-- From a hash upwards, with the hashes beside the path. -/
def climb (h : β) (ss : List β) : β := ss.foldl branch h

/-- The inputs that are hashed on the way up. -/
def climbInputs (h : β) : List β → List (Input α β)
  | [] => []
  | s :: ss => .branch h s :: climbInputs (branch h s) ss

/-- The inputs that are hashed to open a leaf. -/
def openInputs (a : α) (ss : List β) : List (Input α β) :=
  .leaf a :: climbInputs branch (leafHash a) ss

/-- The hashes beside the path from a leaf up to the root. -/
inductive Way : ScriptTree α → α → List β → Prop
  | here a : Way (leaf a) a []
  | left {l r a ss} : Way l a ss → Way (node l r) a (ss ++ [r.root leafHash branch])
  | right {l r a ss} : Way r a ss → Way (node l r) a (ss ++ [l.root leafHash branch])

/-- Two inputs, one of each list, have one hash, though they are not alike. -/
def Clash (qs qs' : List (Input α β)) : Prop :=
  ∃ q ∈ qs, ∃ q' ∈ qs', ¬q.Alike q' ∧ q.hash leafHash branch = q'.hash leafHash branch

end Hash

variable {leafHash : α → β} {branch : β → β → β} {t l r : ScriptTree α} {a b : α} {h s x y : β}
  {ss : List β} {qs qs' qs₁ qs₁' : List (Input α β)} {q q' : Input α β}

theorem Clash.mono (hc : Clash leafHash branch qs qs') (h : qs ⊆ qs₁) (h' : qs' ⊆ qs₁') :
    Clash leafHash branch qs₁ qs₁' := by
  obtain ⟨q, hq, q', hq', hne⟩ := hc
  exact ⟨q, h hq, q', h' hq', hne⟩

/-- One hash is that of inputs that are alike, or a clash. -/
theorem alike_or_clash (q q' : Input α β) (hq : q ∈ qs) (hq' : q' ∈ qs')
    (h : q.hash leafHash branch = q'.hash leafHash branch) :
    q.Alike q' ∨ Clash leafHash branch qs qs' := by
  by_cases ha : q.Alike q'
  · exact .inl ha
  · exact .inr ⟨q, hq, q', hq', ha, h⟩

@[simp] theorem climb_nil : climb branch h [] = h := rfl

@[simp] theorem climb_concat : climb branch h (ss ++ [s]) = branch (climb branch h ss) s := by
  rw [climb, List.foldl_append]
  rfl

theorem climbInputs_concat : ∀ {ss : List β} {h : β}, climbInputs (α := α) branch h (ss ++ [s]) =
    climbInputs branch h ss ++ [.branch (climb branch h ss) s]
  | [], _ => rfl
  | x :: ss, h => by
    rw [List.cons_append, climbInputs, climbInputs_concat]
    rfl

theorem openInputs_concat : openInputs leafHash branch a (ss ++ [s]) =
    openInputs leafHash branch a ss ++ [.branch (climb branch (leafHash a) ss) s] := by
  rw [openInputs, climbInputs_concat]
  rfl

theorem Way.mem (h : Way leafHash branch t a ss) : a ∈ t.leaves := by
  induction h with
  | here a => exact List.mem_singleton_self a
  | left _ ih => exact List.mem_append_left _ ih
  | right _ ih => exact List.mem_append_right _ ih

theorem exists_way (leafHash : α → β) (branch : β → β → β) (h : a ∈ t.leaves) : ∃ ss, Way leafHash branch t a ss := by
  induction t with
  | leaf b =>
    obtain rfl := List.mem_singleton.1 h
    exact ⟨[], .here a⟩
  | node l r ihl ihr =>
    rcases List.mem_append.1 h with h | h
    · obtain ⟨ss, hw⟩ := ihl h
      exact ⟨_, .left hw⟩
    · obtain ⟨ss, hw⟩ := ihr h
      exact ⟨_, .right hw⟩

/-- A way is shorter than the tree has leaves. -/
theorem Way.length_lt (h : Way leafHash branch t a ss) : ss.length < t.leaves.length := by
  induction h with
  | here a => exact Nat.one_pos
  | @left l r _ _ _ ih =>
    have := r.length_leaves_pos
    rw [leaves, List.length_append, List.length_append, List.length_singleton]
    omega
  | @right l r _ _ _ ih =>
    have := l.length_leaves_pos
    rw [leaves, List.length_append, List.length_append, List.length_singleton]
    omega

/-- A leaf climbs its way to the root. -/
theorem Way.climb (hcomm : ∀ x y, branch x y = branch y x) (h : Way leafHash branch t a ss) :
    climb branch (leafHash a) ss = t.root leafHash branch := by
  induction h with
  | here a => rfl
  | left _ ih => rw [climb_concat, ih, root]
  | right _ ih => rw [climb_concat, ih, root, hcomm]

/-- What climbs to the root of a tree is one of its leaves, or two inputs clash. -/
theorem climb_eq_root : ∀ {t : ScriptTree α} {ss : List β},
    climb branch (leafHash a) ss = t.root leafHash branch → Way leafHash branch t a ss ∨
      Clash leafHash branch (openInputs leafHash branch a ss) (t.inputs leafHash branch) := by
  intro t
  induction t with
  | leaf b =>
    intro ss h
    induction ss using List.reverseRecOn with
    | nil =>
      refine (alike_or_clash (.leaf a) (.leaf b) List.mem_cons_self
        (List.mem_singleton_self _) h).imp_left ?_
      rintro ⟨⟩
      exact .here a
    | append_singleton ss s =>
      -- A branch has the hash of a leaf.
      rw [climb_concat] at h
      refine (alike_or_clash (.branch _ s) (.leaf b) ?_ (List.mem_singleton_self _)
        h).imp_left ?_
      · rw [openInputs_concat]
        exact List.mem_append_right _ (List.mem_singleton_self _)
      · rintro ⟨⟩
  | node l r ihl ihr =>
    intro ss h
    induction ss using List.reverseRecOn with
    | nil =>
      refine (alike_or_clash (.leaf a) (.branch _ _) List.mem_cons_self
        List.mem_cons_self h).imp_left ?_
      rintro ⟨⟩
    | append_singleton ss s =>
      rw [climb_concat] at h
      have hsub : openInputs leafHash branch a ss ⊆ openInputs leafHash branch a (ss ++ [s]) := by
        rw [openInputs_concat]
        exact List.subset_append_left _ _
      have hlast : .branch (climb branch (leafHash a) ss) s ∈
          openInputs leafHash branch a (ss ++ [s]) := by
        rw [openInputs_concat]
        exact List.mem_append_right _ (List.mem_singleton_self _)
      rcases alike_or_clash _ (.branch _ _) hlast List.mem_cons_self h with ha | hc
      · have hl : l.inputs leafHash branch ⊆ (node l r).inputs leafHash branch := fun _ h =>
          List.mem_cons_of_mem _ (List.mem_append_left _ h)
        have hr : r.inputs leafHash branch ⊆ (node l r).inputs leafHash branch := fun _ h =>
          List.mem_cons_of_mem _ (List.mem_append_right _ h)
        -- Either the left child was climbed and the right one is beside it, or vice versa.
        generalize hx : climb branch (leafHash a) ss = x at ha
        generalize hy : l.root leafHash branch = y at ha
        generalize hz : r.root leafHash branch = z at ha
        cases ha with
        | refl =>
          subst hz
          exact (ihl (hx.trans hy.symm)).imp .left fun hc => hc.mono hsub hl
        | swap =>
          subst hy
          exact (ihr (hx.trans hz.symm)).imp .right fun hc => hc.mono hsub hr
      · exact .inr hc

end ScriptTree
