/-
  What a leaf that was read is.

  The host hands a leaf over in chunks of its choice. `StreamSound` ties the
  streaming state to the bytes seen so far, whatever the chunks, so that a leaf
  that was read is described by its script alone:

  * `prefixOk`, `leafMetaOf`, `tlsOf`: the facts as functions of the script;
  * `LeafRead`, `readTapLeaf_bind`: the read succeeds exactly for an input with a
    single leaf, and leaves these facts behind.
-/
import BabylonVault.Accept.Read

namespace BabylonVault
open Bytes Prog

/-! ## The streaming state -/

/-- A script differs from the approved signer prefix below `len`. -/
def PrefixMismatch (it : VaultIntent) (len : ℕ) (script : Bytes) : Prop :=
  ∃ i, i < len ∧ i < script.length ∧ vaultAssertPrefixByte it i ≠ script[i]?

/-- The streaming state for a value of `n` bytes, of which `d` has been seen. -/
structure StreamSound (it : VaultIntent) (n : ℕ) (apl : Option ℕ) (d : Bytes)
    (c : LeafStreamCtx) : Prop where
  valueLen : c.valueLen = n
  scriptLen : c.scriptLen = n - 1
  known : c.lenKnown = true
  rejected : c.lenRejected = false
  overflow : c.overflow = false
  prefixLen : c.assertPrefixLen = apl
  seen : c.seen = d.length
  le : d.length ≤ n
  hashed : c.hashed = tapleafHeader (n - 1) ++ d.take (n - 1)
  script : c.script = if n - 1 ≤ scriptMaxLen then d.take (n - 1) else []
  buffered : c.leaf.buffered = decide (n - 1 ≤ scriptMaxLen)
  pfx : c.leaf.pfx = Buf.ofBytes 68 (d.take (n - 1))
  lastByte : n - 1 ≤ d.length → c.leaf.lastByte = (d.take (n - 1)).getLastD 0
  version : d.length = n → c.leafVersion = d.getLastD 0
  mismatch : c.assertPrefixMismatch = true ↔
    ∃ len, apl = some len ∧ PrefixMismatch it len (d.take (n - 1))

variable {it : VaultIntent} {n : ℕ} {apl : Option ℕ} {d p : Bytes} {c : LeafStreamCtx}

theorem getLastD_append {p : Bytes} (hp : p ≠ []) (d : Bytes) (x y : UInt8) :
    (d ++ p).getLastD x = p.getLastD y := by
  simp [List.getLastD_eq_getLast?, List.getLast?_append, List.getLast?_eq_some_getLast hp]

/-- The mismatch flag after more script bytes. -/
theorem prefixMismatch_append {len : ℕ} {a p : Bytes} : PrefixMismatch it len (a ++ p) ↔
    PrefixMismatch it len a ∨
      (List.range (min (len - a.length) p.length)).any
        (fun i => vaultAssertPrefixByte it (a.length + i) ≠ p[i]?) = true := by
  simp only [PrefixMismatch, List.any_eq_true, List.mem_range, decide_eq_true_eq]
  constructor
  · rintro ⟨i, hl, hi, hne⟩
    by_cases ha : i < a.length
    · exact .inl ⟨i, hl, ha, by rwa [List.getElem?_append_left ha] at hne⟩
    · rw [List.getElem?_append_right (by omega)] at hne
      rw [List.length_append] at hi
      exact .inr ⟨i - a.length, by omega, by rwa [show a.length + (i - a.length) = i by omega]⟩
  · rintro (⟨i, hl, hi, hne⟩ | ⟨i, hi, hne⟩)
    · exact ⟨i, hl, by simp; omega, by rwa [List.getElem?_append_left hi]⟩
    · refine ⟨a.length + i, by omega, by simp; omega, ?_⟩
      rwa [List.getElem?_append_right (by omega), show a.length + i - a.length = i by omega]

/-- The script part of a chunk `p`, met before the script is complete. -/
theorem StreamSound.script_step (h : StreamSound it n apl d c) (hd : d.length < n - 1)
    (hp : p ≠ []) :
    let q := p.take (n - 1 - d.length)
    let c' := leafStreamScript it q c
    c'.hashed = tapleafHeader (n - 1) ++ (d ++ p).take (n - 1) ∧
      c'.script = (if n - 1 ≤ scriptMaxLen then (d ++ p).take (n - 1) else []) ∧
      c'.leaf.buffered = decide (n - 1 ≤ scriptMaxLen) ∧
      c'.leaf.pfx = Buf.ofBytes 68 ((d ++ p).take (n - 1)) ∧
      (n - 1 ≤ (d ++ p).length → c'.leaf.lastByte = ((d ++ p).take (n - 1)).getLastD 0) ∧
      (c'.assertPrefixMismatch = true ↔
        ∃ len, apl = some len ∧ PrefixMismatch it len ((d ++ p).take (n - 1))) := by
  intro q c'
  have hdt : d.take (n - 1) = d := List.take_of_length_le hd.le
  have happ : (d ++ p).take (n - 1) = d ++ q := by rw [List.take_append, hdt]
  have hq : q ≠ [] := by
    have : 0 < n - 1 - d.length := by omega
    simp [q, hp]
    omega
  rw [happ]
  refine ⟨?_, ?_, h.buffered, ?_, ?_, ?_⟩
  · simp [c', leafStreamScript, h.hashed, hdt]
  · simp only [c', leafStreamScript, h.buffered, h.script, hdt, decide_eq_true_eq]
    split_ifs <;> rfl
  · simp only [c', leafStreamScript, h.seen, h.pfx, hdt, leafPrefixLen]
    split_ifs with hs
    · exact Buf.blit_ofBytes (by omega)
    · exact (Buf.ofBytes_append_of_le (by omega) _).symm
  · intro hlen
    have hqlen : q.length = n - 1 - d.length := by
      simp [q] at hlen ⊢
      omega
    have hl : c.seen + q.length = c.scriptLen := by rw [h.seen, h.scriptLen]; omega
    simp only [c', leafStreamScript, hl, if_true]
    exact (getLastD_append hq d 0 0).symm
  · have hm := h.mismatch
    rw [hdt] at hm
    simp only [c', leafStreamScript, h.prefixLen, h.seen, Bool.or_eq_true, hm]
    cases apl with
    | none => simp
    | some len => simp only [Option.some.injEq, exists_eq_left', prefixMismatch_append]

/-- One chunk that fits. -/
theorem StreamSound.step (h : StreamSound it n apl d c) (hp : p.length ≤ n - d.length)
    (hn : 0 < n) : StreamSound it n apl (d ++ p) (leafStreamDataCb it c p) := by
  by_cases hp0 : p = []
  · subst hp0
    simpa [leafStreamDataCb, h.rejected, h.known] using h
  · have hpl : 0 < p.length := List.length_pos_iff.2 hp0
    have hle := h.le
    have hlen : (d ++ p).length = d.length + p.length := List.length_append
    have hfit : ¬p.length > c.valueLen - c.seen := by rw [h.valueLen, h.seen]; omega
    have hver : (d ++ p).length = n → p.getLastD 0 = (d ++ p).getLastD 0 :=
      fun _ => (getLastD_append hp0 d 0 0).symm
    unfold leafStreamDataCb
    rw [h.rejected, h.known]
    simp only [Bool.not_true, Bool.or_self, Bool.false_eq_true, if_false, hpl.ne', hfit]
    by_cases hs : d.length < n - 1
    · obtain ⟨h1, h2, h3, h4, h5, h6⟩ := h.script_step hs hp0
      have hsc : c.seen < c.scriptLen := by rw [h.seen, h.scriptLen]; exact hs
      rw [if_pos hsc]
      have hq : c.scriptLen - c.seen = n - 1 - d.length := by rw [h.seen, h.scriptLen]
      rw [hq]
      exact
        { valueLen := h.valueLen, scriptLen := h.scriptLen, known := h.known,
          rejected := h.rejected, overflow := h.overflow, prefixLen := h.prefixLen,
          seen := by simp [h.seen], le := by omega, hashed := h1, script := h2, buffered := h3,
          pfx := h4, lastByte := h5,
          version := fun hv => by
            have : c.seen + p.length = c.valueLen := by rw [h.seen, h.valueLen]; omega
            simp only [this, if_true]
            exact hver hv
          mismatch := h6 }
    · have hsc : ¬c.seen < c.scriptLen := by rw [h.seen, h.scriptLen]; exact hs
      have htake : (d ++ p).take (n - 1) = d.take (n - 1) := List.take_append_of_le_length (by omega)
      rw [if_neg hsc]
      exact
        { valueLen := h.valueLen, scriptLen := h.scriptLen, known := h.known,
          rejected := h.rejected, overflow := h.overflow, prefixLen := h.prefixLen,
          seen := by simp [h.seen], le := by omega, hashed := htake ▸ h.hashed,
          script := htake ▸ h.script, buffered := h.buffered, pfx := htake ▸ h.pfx,
          lastByte := fun _ => htake ▸ h.lastByte (by omega),
          version := fun hv => by
            have : c.seen + p.length = c.valueLen := by rw [h.seen, h.valueLen]; omega
            simp only [this, if_true]
            exact hver hv
          mismatch := htake ▸ h.mismatch }

/-- Once a chunk has overflown, the flag stays. -/
theorem leafStreamDataCb_overflow (h : c.overflow = true) :
    (leafStreamDataCb it c p).overflow = true := by
  unfold leafStreamDataCb
  split_ifs <;> simp [h, leafStreamScript]

theorem foldl_overflow : ∀ {chunks : List Bytes} {c : LeafStreamCtx}, c.overflow = true →
    (chunks.foldl (leafStreamDataCb it) c).overflow = true
  | [], _, h => h
  | _ :: _, _, h => by
    rw [List.foldl_cons]
    exact foldl_overflow (leafStreamDataCb_overflow h)

/-- A chunk that does not fit overflows. -/
theorem StreamSound.too_long (h : StreamSound it n apl d c) (hp : ¬p.length ≤ n - d.length) :
    (leafStreamDataCb it c p).overflow = true := by
  have hpl : p.length ≠ 0 := by omega
  have hfit : p.length > c.valueLen - c.seen := by rw [h.valueLen, h.seen]; omega
  simp [leafStreamDataCb, h.rejected, h.known, hpl, hfit]

/-- Any chunks: they overflow, or their concatenation decides the state. -/
theorem StreamSound.foldl (hn : 0 < n) : ∀ {l : List Bytes} {d : Bytes} {c : LeafStreamCtx},
    StreamSound it n apl d c →
    if (d ++ l.flatten).length ≤ n then
      StreamSound it n apl (d ++ l.flatten) (l.foldl (leafStreamDataCb it) c)
    else (l.foldl (leafStreamDataCb it) c).overflow = true
  | [], d, c, h => by
    have hle := h.le
    simpa [hle] using h
  | p :: chunks, d, c, h => by
    by_cases hp : p.length ≤ n - d.length
    · have := (h.step hp hn).foldl hn (l := chunks)
      simpa only [List.append_assoc, List.foldl_cons, List.flatten_cons] using this
    · have hlong : ¬(d ++ (p :: chunks).flatten).length ≤ n := by
        have := h.le
        simp
        omega
      rw [if_neg hlong, List.foldl_cons]
      exact foldl_overflow (h.too_long hp)

/-- Without a length nothing is taken from the chunks. -/
theorem foldl_unknown (h : (c.lenRejected || !c.lenKnown) = true) : ∀ chunks : List Bytes,
    chunks.foldl (leafStreamDataCb it) c = c
  | [] => rfl
  | _ :: chunks => by
    rw [List.foldl_cons, leafStreamDataCb, if_pos h]
    exact foldl_unknown h chunks

/-! ## The facts of a script -/

/-- The script carries the signer prefix of a loaded intent, and more. -/
def prefixOk (s : Session) (script : Bytes) : Bool :=
  match (if s.ctx.state = .intentLoaded then vaultAssertPrefixLen s.intent else none) with
  | some len => decide (0 < len) &&
      decide (∀ i < len, vaultAssertPrefixByte s.intent i = script[i]?) && decide (len < script.length)
  | none => false

/-- `G_leaf_meta` after the leaf with this script was read. -/
def leafMetaOf (E : Env) (s : Session) (script : Bytes) : LeafMeta :=
  { buffered := decide (script.length ≤ scriptMaxLen)
    lastByte := script.getLastD 0
    pfx := Buf.ofBytes 68 script
    assertPrefixOk := prefixOk s script
    hash := vaultTaprootLeafHash E script }

/-- `G_scratch.tls` after the leaf with this control block and script was read. -/
def tlsOf (cb script : Bytes) : Tls :=
  { found := true, ambiguous := false, controlBlock := cb,
    leafScript := if script.length ≤ scriptMaxLen then script else [],
    leafScriptLen := script.length, leafVersion := tapscriptLeafVersion }

/-- The host handed over a tapscript leaf with this script. -/
structure StreamOk (r : Streamed) (script : Bytes) : Prop where
  declared : r.declared = some (script.length + 1)
  rc : r.rc = some (script.length + 1)
  bytes : r.chunks.flatten = script ++ [tapscriptLeafVersion]
  pos : 1 ≤ script.length
  le : script.length + 1 ≤ assertScriptMaxLen

variable {E : Env} {s : Session} {tls : Tls}

theorem streamStart_sound (hn : 2 ≤ n) (hn' : n ≤ assertScriptMaxLen) (ht : tls.leafScript = []) :
    StreamSound s.intent n (if s.ctx.state = .intentLoaded then vaultAssertPrefixLen s.intent
      else none) [] (leafStreamLenCb n (streamStart s tls .zero)) := by
  have hr : ¬(n < 2 ∨ n > assertScriptMaxLen) := by omega
  simp only [leafStreamLenCb, if_neg hr]
  exact
    { valueLen := rfl, scriptLen := rfl, known := rfl, rejected := rfl, overflow := rfl,
      prefixLen := rfl, seen := rfl, le := Nat.zero_le _, hashed := by simp,
      script := by simp [streamStart, ht], buffered := rfl,
      pfx := by
        rw [List.take_nil]
        exact Subtype.ext (List.takeD_nil _ _).symm
      lastByte := fun h => absurd h (by simp; omega),
      version := fun h => absurd h (by simp; omega),
      mismatch := by simp [streamStart, PrefixMismatch] }

theorem streamEnd_sound {r : Streamed} {script : Bytes} (h : StreamOk r script)
    (ht : tls.leafScript = []) :
    StreamSound s.intent (script.length + 1)
      (if s.ctx.state = .intentLoaded then vaultAssertPrefixLen s.intent else none)
      (script ++ [tapscriptLeafVersion]) (streamEnd s tls .zero r) := by
  have hlen := h.pos
  have hstart := streamStart_sound (s := s) (by omega) h.le ht
  have := hstart.foldl (by omega) (l := r.chunks)
  simpa [streamEnd, h.declared, h.bytes] using this

/-- A stream is accepted exactly if it hands over a tapscript leaf. -/
theorem not_streamBad_iff {r : Streamed} (ht : tls.leafScript = []) :
    ¬StreamBad r (streamEnd s tls .zero r) ↔ ∃ script, StreamOk r script := by
  constructor
  · intro hb
    simp only [StreamBad, not_or, not_not, Bool.not_eq_true, Bool.not_eq_false] at hb
    obtain ⟨hrc, hrej, hknown, hover, hval, hseen, hver⟩ := hb
    rcases hdecl : r.declared with _ | n
    · simp only [streamEnd, hdecl] at hknown
      rw [foldl_unknown (by rfl)] at hknown
      exact Bool.noConfusion hknown
    · by_cases hn : n < 2 ∨ n > assertScriptMaxLen
      · simp only [streamEnd, hdecl, leafStreamLenCb, if_pos hn] at hrej
        rw [foldl_unknown (by rfl)] at hrej
        exact Bool.noConfusion hrej
      · have hn2 : 2 ≤ n ∧ n ≤ assertScriptMaxLen := by omega
        have hsound := (streamStart_sound (s := s) hn2.1 hn2.2 ht).foldl (by omega)
          (l := r.chunks)
        have hend : r.chunks.foldl (leafStreamDataCb s.intent)
            (leafStreamLenCb n (streamStart s tls .zero)) = streamEnd s tls .zero r := by
          simp [streamEnd, hdecl]
        rw [List.nil_append, hend] at hsound
        by_cases hle : r.chunks.flatten.length ≤ n
        · rw [if_pos hle] at hsound
          have hlen : r.chunks.flatten.length = n := by
            rw [← hsound.seen, hseen, hsound.valueLen]
          have hne : r.chunks.flatten ≠ [] := by
            intro h
            rw [h] at hlen
            simp at hlen
            omega
          have hlast : r.chunks.flatten.getLast hne = tapscriptLeafVersion := by
            rw [← hver, hsound.version hlen, List.getLastD_eq_getLast?,
              List.getLast?_eq_some_getLast hne, Option.getD_some]
          have hsl : r.chunks.flatten.dropLast.length + 1 = n := by
            rw [List.length_dropLast]
            omega
          refine ⟨r.chunks.flatten.dropLast, ⟨?_, ?_, ?_, ?_, ?_⟩⟩
          · rw [hdecl, hsl]
          · rw [hval, hsound.valueLen, hsl]
          · rw [← hlast, List.dropLast_append_getLast]
          · omega
          · omega
        · rw [if_neg hle] at hsound
          rw [hsound] at hover
          exact Bool.noConfusion hover
  · rintro ⟨script, h⟩
    have hs := streamEnd_sound (s := s) h ht
    have hl : (script ++ [tapscriptLeafVersion]).length = script.length + 1 := by simp
    simp only [StreamBad, not_or, not_not, Bool.not_eq_true, Bool.not_eq_false]
    refine ⟨by simp [h.rc], hs.rejected, hs.known, hs.overflow, ?_, ?_, ?_⟩
    · rw [h.rc, hs.valueLen]
    · rw [hs.seen, hs.valueLen, hl]
    · rw [hs.version hl, List.getLastD_concat]

/-! ## Reading the leaf -/

/-- No key of this type. -/
def NoLeaf (keys : List Bytes) : Prop := ∀ key ∈ keys, key.head? ≠ some psbtInTapLeafScript

instance (keys : List Bytes) : Decidable (NoLeaf keys) :=
  inferInstanceAs (Decidable (∀ key ∈ keys, key.head? ≠ some psbtInTapLeafScript))

/-- The host answered that input `idx` has one leaf: control block and script. -/
def LeafRead (G : Allow) (nInputs idx : ℕ) (cb script : Bytes) : Prop :=
  ∃ pre post r, G (.keys .input nInputs idx) (pre ++ (psbtInTapLeafScript :: cb) :: post, true) ∧
    NoLeaf pre ∧ NoLeaf post ∧ cb.length ≤ controlBlockMaxLen ∧
    G (.stream (.input idx) pre.length) r ∧ StreamOk r script

section Read
variable {G : Allow} {v v' : Volatile} {m : MapRef} {i : ℕ} {cb : Bytes}
  {tls' : Tls}

theorem streamLeaf_eq {r : Streamed} {script : Bytes} (h : StreamOk r script)
    (ht : tls.leafScript = []) :
    streamLeaf E (streamEnd s tls .zero r) = leafMetaOf E s script := by
  set c := streamEnd s tls .zero r
  have hs : StreamSound _ _ _ _ c := streamEnd_sound h ht
  have htake : (script ++ [tapscriptLeafVersion]).take (script.length + 1 - 1) = script := by simp
  have hbuf : c.leaf.buffered = decide (script.length ≤ scriptMaxLen) := by simpa using hs.buffered
  have hpfx : c.leaf.pfx = Buf.ofBytes 68 script := by rw [hs.pfx, htake]
  have hlast : c.leaf.lastByte = script.getLastD 0 := by rw [hs.lastByte (by simp), htake]
  have hhash : E.tapleafHash c.hashed = vaultTaprootLeafHash E script := by
    rw [hs.hashed, htake]
    rfl
  have hok : (streamLeaf E c).assertPrefixOk = prefixOk s script := by
    have hm := hs.mismatch
    rw [htake] at hm
    simp only [streamLeaf, hs.prefixLen, hs.scriptLen, prefixOk]
    generalize (if s.ctx.state = .intentLoaded then vaultAssertPrefixLen s.intent else none) = apl
      at hm
    rcases apl with _ | len
    · rfl
    · simp only [Option.some.injEq, exists_eq_left'] at hm
      rw [Bool.eq_iff_iff]
      simp only [Bool.and_eq_true, decide_eq_true_eq, Bool.not_eq_true', Nat.add_sub_cancel,
        ← Bool.not_eq_true, hm, PrefixMismatch]
      constructor
      · rintro ⟨⟨h0, hn⟩, hl⟩
        refine ⟨⟨h0, fun i hi => ?_⟩, hl⟩
        by_contra hne
        exact hn ⟨i, hi, by omega, hne⟩
      · rintro ⟨⟨h0, hn⟩, hl⟩
        refine ⟨⟨h0, ?_⟩, hl⟩
        rintro ⟨i, hi, -, hne⟩
        exact hne (hn i hi)
  have heta : streamLeaf E c = ⟨c.leaf.buffered, c.leaf.lastByte, c.leaf.pfx,
    (streamLeaf E c).assertPrefixOk, E.tapleafHash c.hashed⟩ := rfl
  rw [heta, hok, hbuf, hpfx, hlast, hhash, leafMetaOf]

/-- The reading state once a leaf with this control block is found. -/
def tlsFound (cb : Bytes) : Tls := { Tls.zero with found := true, controlBlock := cb }

theorem tlsOf_streamEnd {r : Streamed} {script : Bytes} (h : StreamOk r script) :
    let c := streamEnd s (tlsFound cb) .zero r
    { tlsFound cb with leafScript := c.script, leafVersion := c.leafVersion,
                       leafScriptLen := c.scriptLen } = tlsOf cb script := by
  intro c
  have hs : StreamSound _ _ _ _ c := streamEnd_sound h rfl
  have htake : (script ++ [tapscriptLeafVersion]).take (script.length + 1 - 1) = script := by simp
  have hver : c.leafVersion = tapscriptLeafVersion := by
    rw [hs.version (by simp), List.getLastD_concat]
  rw [hs.script, hver, hs.scriptLen, htake, Nat.add_sub_cancel]
  rfl

/-- A stream that is accepted leaves the facts of its script behind. -/
theorem streamTapLeafValue_true (hv : v.leaf = .zero) :
    (streamTapLeafValue E s m i (tlsFound cb)).Via G v (tls', true) v' ↔
      ∃ r script, G (.stream m i) r ∧ StreamOk r script ∧ tls' = tlsOf cb script ∧
        v' = { v with leaf := leafMetaOf E s script } := by
  have hl : (tlsFound cb).leafScript = [] := rfl
  unfold streamTapLeafValue
  rw [via_get_bind, hv]
  refine via_ask_bind.trans (exists_congr fun r => ?_)
  rw [via_ite]
  simp only [via_modify_bind, via_pure, Prod.mk.injEq, Bool.false_eq_true, and_false, false_and,
    false_or, and_true]
  constructor
  · rintro ⟨hG, hbad, htls, hv'⟩
    obtain ⟨script, hok⟩ := (not_streamBad_iff hl).1 hbad
    have hs := streamEnd_sound (s := s) hok hl
    refine ⟨script, hG, hok, ?_, ?_⟩
    · rw [← htls, ← tlsOf_streamEnd hok]
    · rw [← hv', streamLeaf_eq hok hl]
  · rintro ⟨script, hG, hok, rfl, rfl⟩
    refine ⟨hG, (not_streamBad_iff hl).2 ⟨script, hok⟩, ?_, ?_⟩
    · rw [← tlsOf_streamEnd hok]
    · rw [streamLeaf_eq hok hl]

/-- A stream that is rejected keeps the leaf found. -/
theorem streamTapLeafValue_found {ok : Bool} (ht : tls.found = true)
    (h : (streamTapLeafValue E s m i tls).Via G v (tls', ok) v') : tls'.found = true := by
  unfold streamTapLeafValue at h
  rw [via_get_bind] at h
  obtain ⟨r, -, h⟩ := via_ask_bind.1 h
  rw [via_ite] at h
  simp only [via_modify_bind, via_pure, Prod.mk.injEq] at h
  rcases h with ⟨_, ⟨rfl, _⟩, _⟩ | ⟨_, ⟨rfl, _⟩, _⟩ <;> exact ht

/-- A key of another type is passed over. -/
theorem tapLeafScriptCallback_other {key : Bytes} (hk : key.head? ≠ some psbtInTapLeafScript) :
    tapLeafScriptCallback E s m i key tls = pure tls := by
  rcases key with _ | ⟨k, cb⟩
  · rfl
  · have hne : k ≠ psbtInTapLeafScript := by simpa using hk
    simp only [tapLeafScriptCallback, if_pos hne]

/-- A second leaf makes the input ambiguous. -/
theorem tapLeafScriptCallback_second {key : Bytes} (hk : key.head? = some psbtInTapLeafScript)
    (hf : tls.found = true) :
    tapLeafScriptCallback E s m i key tls = pure { tls with ambiguous := true } := by
  rcases key with _ | ⟨k, cb⟩
  · simp at hk
  · obtain rfl : k = psbtInTapLeafScript := by simpa using hk
    simp only [tapLeafScriptCallback, ne_eq, not_true_eq_false, if_false, hf, if_true]

/-- Keys behind a leaf that was found. -/
theorem scanKeys_found : ∀ {keys : List Bytes} {i : ℕ} {tls : Tls}, tls.found = true →
    (scanKeys E s m i keys tls).Via G v tls' v' →
    tls'.ambiguous = true ∨ (tls' = tls ∧ v' = v ∧ NoLeaf keys)
  | [], _, _, _, h => by
    obtain ⟨rfl, rfl⟩ := via_pure.1 h
    exact .inr ⟨rfl, rfl, by simp [NoLeaf]⟩
  | key :: keys, i, tls, hf, h => by
    by_cases hk : key.head? = some psbtInTapLeafScript
    · rw [scanKeys, tapLeafScriptCallback_second hk hf] at h
      rcases scanKeys_found (by exact hf) (via_pure_bind.1 h)
        with ha | ⟨rfl, -, -⟩
      · exact .inl ha
      · exact .inl rfl
    · rw [scanKeys, tapLeafScriptCallback_other hk] at h
      rcases scanKeys_found hf (via_pure_bind.1 h) with ha | ⟨he, hv', hn⟩
      · exact .inl ha
      · exact .inr ⟨he, hv', List.forall_mem_cons.2 ⟨hk, hn⟩⟩

theorem scanKeys_noLeaf : ∀ {keys : List Bytes} {i : ℕ} {rest : List Bytes} {tls : Tls},
    NoLeaf keys → scanKeys E s m i (keys ++ rest) tls = scanKeys E s m (i + keys.length) rest tls
  | [], _, _, _, _ => rfl
  | key :: keys, i, rest, tls, h => by
    obtain ⟨hk, hks⟩ := List.forall_mem_cons.1 h
    rw [List.cons_append, scanKeys, tapLeafScriptCallback_other hk]
    show scanKeys E s m (i + 1) (keys ++ rest) tls = _
    rw [scanKeys_noLeaf hks, List.length_cons, Nat.add_right_comm, Nat.add_assoc i]

/-- The first leaf of an input. -/
theorem scanKeys_start : ∀ {keys : List Bytes} {i : ℕ}, v.leaf = .zero →
    (scanKeys E s m i keys .zero).Via G v tls' v' → tls'.found = true → tls'.ambiguous = false →
    ∃ pre cb post r script, keys = pre ++ (psbtInTapLeafScript :: cb) :: post ∧ NoLeaf pre ∧
      NoLeaf post ∧ cb.length ≤ controlBlockMaxLen ∧ G (.stream m (i + pre.length)) r ∧
      StreamOk r script ∧ tls' = tlsOf cb script ∧ v' = { v with leaf := leafMetaOf E s script }
  | [], _, _, h, hf, _ => by
    obtain ⟨rfl, rfl⟩ := via_pure.1 h
    exact Bool.noConfusion hf
  | key :: keys, i, hv, h, hf, ha => by
    by_cases hk : key.head? = some psbtInTapLeafScript
    · rcases key with _ | ⟨k, cb⟩
      · simp at hk
      obtain rfl : k = psbtInTapLeafScript := by simpa using hk
      obtain ⟨tls₁, v₁, h₁, h₂⟩ := via_bind.1 h
      simp only [tapLeafScriptCallback, ne_eq, not_true_eq_false, if_false, Tls.zero,
        Bool.false_eq_true] at h₁
      -- A leaf that is too long or badly streamed is ambiguous from here on.
      have hbad : tls₁.found = true → tls₁.ambiguous = true → False := by
        intro hf₁ ha₁
        rcases scanKeys_found hf₁ h₂ with ha' | ⟨rfl, -, -⟩
        · rw [ha] at ha'
          exact Bool.noConfusion ha'
        · rw [ha] at ha₁
          exact Bool.noConfusion ha₁
      rw [via_ite] at h₁
      rcases h₁ with ⟨_, h₁⟩ | ⟨hlen, h₁⟩
      · obtain ⟨rfl, rfl⟩ := via_pure.1 h₁
        exact (hbad rfl rfl).elim
      · obtain ⟨⟨tls₂, ok⟩, v₂, h₃, h₄⟩ := via_bind.1 h₁
        obtain ⟨rfl, rfl⟩ := via_pure.1 h₄
        rcases ok with _ | _
        · have hf₂ : tls₂.found = true := streamTapLeafValue_found rfl h₃
          exact (hbad hf₂ rfl).elim
        · obtain ⟨r, script, hG, hok, rfl, rfl⟩ := (streamTapLeafValue_true hv).1 h₃
          rcases scanKeys_found rfl h₂ with ha' | ⟨rfl, rfl, hn⟩
          · rw [ha] at ha'
            exact Bool.noConfusion ha'
          · exact ⟨[], cb, keys, r, script, rfl, by simp [NoLeaf], hn, by omega, hG, hok, rfl, rfl⟩
    · rw [scanKeys, tapLeafScriptCallback_other hk] at h
      obtain ⟨pre, cb, post, r, script, rfl, hpre, hpost, hcb, hG, hrest⟩ :=
        scanKeys_start hv (via_pure_bind.1 h) hf ha
      refine ⟨key :: pre, cb, post, r, script, rfl, List.forall_mem_cons.2 ⟨hk, hpre⟩, hpost, hcb,
        ?_, hrest⟩
      rwa [List.length_cons, ← Nat.add_assoc, Nat.add_right_comm]

/-- An input with one leaf is scanned to its end. -/
theorem scanKeys_leaf {pre post : List Bytes} {r : Streamed} {script : Bytes} (hv : v.leaf = .zero)
    (hpre : NoLeaf pre) (hpost : NoLeaf post) (hcb : cb.length ≤ controlBlockMaxLen)
    (hG : G (.stream m pre.length) r) (hok : StreamOk r script) :
    (scanKeys E s m 0 (pre ++ (psbtInTapLeafScript :: cb) :: post) .zero).Via G v (tlsOf cb script)
      { v with leaf := leafMetaOf E s script } := by
  rw [scanKeys_noLeaf hpre, Nat.zero_add, scanKeys]
  refine via_bind.2 ⟨tlsOf cb script, { v with leaf := leafMetaOf E s script }, ?_, ?_⟩
  · have hlen : ¬cb.length > controlBlockMaxLen := by omega
    simp only [tapLeafScriptCallback, ne_eq, not_true_eq_false, if_false, Tls.zero,
      Bool.false_eq_true, hlen]
    refine via_bind.2 ⟨(tlsOf cb script, true), { v with leaf := leafMetaOf E s script },
      (streamTapLeafValue_true hv).2 ⟨r, script, hG, hok, rfl, rfl⟩, via_pure.2 ⟨rfl, rfl⟩⟩
  · have h : scanKeys E s m (pre.length + 1) (post ++ []) (tlsOf cb script) =
        scanKeys E s m (pre.length + 1 + post.length) [] (tlsOf cb script) := scanKeys_noLeaf hpost
    rw [List.append_nil] at h
    rw [h]
    exact via_pure.2 ⟨rfl, rfl⟩

/-- A leaf is read exactly for an input with a single one, and only its script and
    control block matter. -/
theorem readTapLeaf_bind {nInputs idx : ℕ} {α : Type} {b : α} {f : MapRef × Tls → V α} :
    (readTapLeaf E s nInputs idx >>= f).Via G v b v' ↔
      ∃ cb script, LeafRead G nInputs idx cb script ∧
        (f (.input idx, tlsOf cb script)).Via G { v with leaf := leafMetaOf E s script } b v' := by
  unfold readTapLeaf
  rw [Prog.bind_assoc, via_modify_bind]
  refine askV_bind.trans ⟨?_, ?_⟩
  · rintro ⟨⟨keys, ok⟩, hG, h⟩
    simp only [Prog.bind_assoc] at h
    obtain ⟨tls', v₁, hscan, hrest⟩ := via_bind.1 h
    simp only [check_bind, via_pure_bind] at hrest
    obtain ⟨⟨rfl, hf, ha⟩, -, hrest⟩ := hrest
    obtain ⟨pre, cb, post, r, script, rfl, hpre, hpost, hcb, hs, hok, rfl, rfl⟩ :=
      scanKeys_start rfl hscan hf ha
    rw [Nat.zero_add] at hs
    exact ⟨cb, script, ⟨pre, post, r, hG, hpre, hpost, hcb, hs, hok⟩, hrest⟩
  · rintro ⟨cb, script, ⟨pre, post, r, hG, hpre, hpost, hcb, hs, hok⟩, h⟩
    refine ⟨_, hG, ?_⟩
    simp only [Prog.bind_assoc]
    refine via_bind.2 ⟨tlsOf cb script, { v with leaf := leafMetaOf E s script },
      scanKeys_leaf rfl hpre hpost hcb hs hok, ?_⟩
    simp only [check_bind, via_pure_bind]
    exact ⟨⟨trivial, rfl, rfl⟩, rfl, h⟩

end Read

end BabylonVault
