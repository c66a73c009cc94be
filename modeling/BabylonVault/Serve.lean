/-
  A host that serves its PSBT.

  * `Psbt.Serves`: the answers of `Psbt.serve`. What was read once of a committed PSBT is
    read again from such a host (`ReadsUtxo.serves` and the like).
  * `Psbt.HasLeaf`: an input with a single leaf, which is what `LeafRead` has found.
-/
import BabylonVault.Committed
import BabylonVault.Play

namespace BabylonVault
open Bytes Prog

/-- The answers of a host that serves all of the PSBT. -/
def Psbt.Serves (p : Psbt) : Allow := fun q a => p.serve q = a

variable {E : Env} {st : SignPsbtState} {p : Psbt} {side : Side} {m : MapRef} {key b : Bytes}
  {k : UInt8} {n i maxLen maxScript : ℕ} {x : UInt32} {value : UInt64} {spk cb script : Bytes}
  {path : List UInt32} {y z : Bytes32}

theorem Psbt.Serves.allows {q : ReadAsk} {a : readIface.Ans q} (h : p.Serves q a) :
    p.Allows q a := h ▸ p.serve_allows q

/-! ## Single reads -/

theorem Psbt.serves_map (h : p.Allows (.map side n i) true) : p.Serves (.map side n i) true :=
  decide_eq_true (h rfl)

theorem Psbt.serves_value (h : p.Allows (.value m key maxLen) (some b)) :
    p.Serves (.value m key maxLen) (some b) := by
  obtain ⟨hf, hl⟩ := h b rfl
  exact Option.filter_eq_some_iff.2 ⟨hf, decide_eq_true hl⟩

theorem Psbt.serves_present (h : p.Allows (.field m k) (.present x)) :
    p.Serves (.field m k) (.present x) := Psbt.field_eq h

theorem Psbt.serves_absent (h : p.Allows (.field m k) .absent) : p.Serves (.field m k) .absent :=
  Psbt.field_absent h

/-! ## Composite reads -/

theorem ReadsUtxo.serves (h : ReadsUtxo p.Allows m value spk) : ReadsUtxo p.Serves m value spk := by
  obtain ⟨wu, hwu, hrest⟩ := h
  exact ⟨wu, Psbt.serves_value hwu, hrest⟩

theorem ReadsDerivation.serves (h : ReadsDerivation E st p.Allows m k y path z) :
    ReadsDerivation E st p.Serves m k y path z := by
  obtain ⟨val, pk, hval, hrest⟩ := h
  exact ⟨val, pk, Psbt.serves_value hval, hrest⟩

/-- A record names one path. -/
theorem ReadsDerivation.unique {path' : List UInt32} {z' : Bytes32}
    (h : ReadsDerivation E st p.Allows m k y path z)
    (h' : ReadsDerivation E st p.Allows m k y path' z') : path = path' ∧ z = z' := by
  obtain ⟨val, pk, hval, hpath, -, hpk, rfl⟩ := h
  obtain ⟨val', pk', hval', hpath', -, hpk', rfl⟩ := h'
  obtain rfl : val = val' :=
    Option.some.inj ((hval val rfl).1.symm.trans (hval' val' rfl).1)
  obtain ⟨-, rfl⟩ := Prod.mk.inj (Option.some.inj (hpath.symm.trans hpath'))
  obtain rfl : pk = pk' := Option.some.inj (hpk.symm.trans hpk')
  exact ⟨rfl, rfl⟩

/-! ## The leaf of an input -/

/-- Input `i` has a single leaf: its control block and its script. -/
structure Psbt.HasLeaf (p : Psbt) (i : ℕ) (cb script : Bytes) : Prop where
  entry : ∃ pre post, p.map (.input i) =
    pre ++ (psbtInTapLeafScript :: cb, script ++ [tapscriptLeafVersion]) :: post ∧
      NoLeaf (pre.map (·.1)) ∧ NoLeaf (post.map (·.1))
  controlBlock : cb.length ≤ controlBlockMaxLen
  pos : 1 ≤ script.length
  le : script.length + 1 ≤ assertScriptMaxLen

/-- A leaf that was read is the input's. -/
theorem LeafRead.hasLeaf (h : LeafRead p.Allows n i cb script) :
    (n = p.inputs.length ∧ i < n) ∧ p.HasLeaf i cb script := by
  obtain ⟨pre, post, r, hkeys, hpre, hpost, hcb, hstream, hok⟩ := h
  obtain ⟨hn, hi, hkeys⟩ := hkeys rfl
  obtain ⟨kv, hkv, -, -, hval⟩ := hstream _ hok.rc
  rw [hok.bytes] at hval
  obtain ⟨as, bs, hmap, has, hbs⟩ := List.map_eq_append_iff.1 hkeys.symm
  obtain ⟨x, bs, rfl, hx, hbs⟩ := List.map_eq_cons_iff.1 hbs
  have hmap : p.map (.input i) = as ++ x :: bs := hmap
  have hlen : pre.length = as.length := by rw [← has, List.length_map]
  rw [hmap, hlen, List.getElem?_append_right le_rfl, Nat.sub_self] at hkv
  obtain rfl : x = kv := Option.some.inj hkv
  refine ⟨⟨hn, hi⟩, ⟨as, bs, ?_, has ▸ hpre, hbs ▸ hpost⟩, hcb, hok.pos, hok.le⟩
  rw [hmap, hval, ← hx]

/-- The leaf of an input is read from a host that serves it. -/
theorem Psbt.HasLeaf.serves (hi : i < p.inputs.length) (h : p.HasLeaf i cb script) :
    LeafRead p.Serves p.inputs.length i cb script := by
  obtain ⟨pre, post, hmap, hpre, hpost⟩ := h.entry
  have hlen : (script ++ [tapscriptLeafVersion]).length = script.length + 1 := by simp
  refine ⟨_, _, ⟨some (script.length + 1), [script ++ [tapscriptLeafVersion]],
    some (script.length + 1)⟩, ?_, hpre, hpost, h.controlBlock, ?_, ⟨rfl, rfl, ?_, h.pos, h.le⟩⟩
  · show (if p.inputs.length = (p.side .input).length ∧ i < p.inputs.length then _ else _) = _
    rw [if_pos ⟨rfl, hi⟩]
    show ((p.map (.input i)).map (·.1), true) = _
    rw [hmap, List.map_append, List.map_cons]
  · have hget : (p.map (.input i))[(pre.map (·.1)).length]? =
        some (psbtInTapLeafScript :: cb, script ++ [tapscriptLeafVersion]) := by
      rw [hmap, List.length_map, List.getElem?_append_right le_rfl, Nat.sub_self]
      rfl
    show p.serve (.stream (.input i) (pre.map (·.1)).length) = _
    simp only [Psbt.serve, hget, hlen]
  · exact List.append_nil _

theorem LeafRead.serves (h : LeafRead p.Allows n i cb script) : LeafRead p.Serves n i cb script := by
  obtain ⟨⟨rfl, hi⟩, hl⟩ := h.hasLeaf
  exact hl.serves hi

/-- The keys before the first leaf. -/
theorem takeWhile_noLeaf {pre : PsbtMap} (post : PsbtMap) (kv : Bytes × Bytes)
    (hpre : NoLeaf (pre.map (·.1))) (hkv : kv.1.head? = some psbtInTapLeafScript) :
    (pre ++ kv :: post).takeWhile (fun kv => kv.1.head? ≠ some psbtInTapLeafScript) = pre := by
  rw [List.takeWhile_append_of_pos, List.takeWhile_cons_of_neg, List.append_nil]
  · simpa using hkv
  · intro a ha
    simpa using hpre a.1 (List.mem_map_of_mem ha)

/-- An input has one leaf at most. -/
theorem Psbt.HasLeaf.unique {cb' script' : Bytes} (h : p.HasLeaf i cb script)
    (h' : p.HasLeaf i cb' script') : cb = cb' ∧ script = script' := by
  obtain ⟨pre, post, hmap, hpre, -⟩ := h.entry
  obtain ⟨pre', post', hmap', hpre', -⟩ := h'.entry
  rw [hmap] at hmap'
  have hp := takeWhile_noLeaf post (psbtInTapLeafScript :: cb, script ++ [tapscriptLeafVersion])
    hpre rfl
  rw [hmap', takeWhile_noLeaf post' (psbtInTapLeafScript :: cb', _) hpre' rfl] at hp
  subst hp
  obtain ⟨hkv, -⟩ := List.cons.inj (List.append_cancel_left hmap')
  obtain ⟨hk, hv⟩ := Prod.mk.inj hkv
  exact ⟨(List.cons.inj hk).2, List.append_cancel_right hv⟩

theorem LeafRead.unique {cb' script' : Bytes} (h : LeafRead p.Allows n i cb script)
    (h' : LeafRead p.Allows n i cb' script') : cb = cb' ∧ script = script' :=
  h.hasLeaf.2.unique h'.hasLeaf.2

end BabylonVault
