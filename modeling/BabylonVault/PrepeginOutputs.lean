/-
  The outputs of a Pre-PegIn.

  * `htlcWindowCheck`, `peginFeeCheck`: the two checks of the value of an HTLC, against
    exact integers (`htlc_checks_iff`).
  * `PrepeginOutputs`: the lists of outputs a Pre-PegIn may have;
    `Reach.prepegin_outputs_iff` says that the two loops accept exactly these.
-/
import Mathlib.Data.Nat.Bitwise
import Mathlib.Data.UInt
import BabylonVault.Amounts

namespace BabylonVault
open Bytes Prog

variable {E : Env} {st : SignPsbtState} {s : Session} {p : Psbt} {v v' : Volatile}
  {d : Device} {ls : List Exchange} {gi : ℕ} {grp : VaultGroup} {value : UInt64}

/-! ## The value of an HTLC -/

/-- The end of `prepeginHtlcOutput`. -/
def htlcWindowCheck (grp : VaultGroup) (htlcValue : UInt64) : V Unit := do
  let minHtlc ← addChecked grp.vaultAmount grp.depositorClaimValue
  let minHtlc ← addChecked p2aAnchorValue minHtlc
  let maxHtlc ← addChecked minHtlc grp.peginMaxFee
  check (¬(htlcValue < minHtlc ∨ htlcValue > maxHtlc)) .incorrectData

/-- The end of `peginValidateOutputs`. -/
def peginFeeCheck (grp : VaultGroup) (htlcValue : UInt64) : V Unit := do
  let outputsSum ← addChecked grp.vaultAmount grp.depositorClaimValue
  let outputsSum ← addChecked p2aAnchorValue outputsSum
  check (¬(htlcValue < outputsSum ∨ htlcValue - outputsSum > grp.peginMaxFee)) .incorrectData

theorem prepeginHtlcOutput_eq : prepeginHtlcOutput E st s gi = (do
    let grp := s.intent.group gi
    check (grp.htlcVout.toNat < st.nOutputs) .incorrectData
    let (actualSpk, htlcValue) ← readOutput st.nOutputs grp.htlcVout.toNat
    let expectedSpk ← orReject
      (vaultBuildHtlcScriptpubkey E s.intent gi (s.ctx.htlcHashlock.pick gi))
    check (actualSpk = expectedSpk) .incorrectData
    htlcWindowCheck grp htlcValue) := rfl

theorem peginValidateOutputs_eq : peginValidateOutputs E s gi value = (do
    let grp := s.intent.group gi
    let (spk, amount) ← readOutput 3 0
    let expectedSpk ← orReject (vaultBuildVaultUtxoScriptpubkey E s.intent gi)
    check (spk = expectedSpk ∧ amount = grp.vaultAmount) .incorrectData
    let (spk, amount) ← readOutput 3 1
    let expectedSpk ← orReject (vaultBuildDepositorClaimScriptpubkey E s.intent)
    check (spk = expectedSpk ∧ amount = grp.depositorClaimValue) .incorrectData
    let anchor ← getMap .output 3 2
    let rawAmount ← getExact anchor [psbtOutAmount] 8
    check (UInt64.ofNat (ofLE rawAmount) = p2aAnchorValue) .incorrectData
    let p2a ← getExact anchor [psbtOutScript] 4
    check (p2a = p2aScript) .incorrectData
    peginFeeCheck grp value) := rfl

/-- A check passes in every state, and changes none. -/
def Passes (m : V Unit) : Prop := ∀ v, m v = .ret (.ok (), v)

/-- The window of the HTLC of a group, over exact integers. -/
def InHtlcWindow (grp : VaultGroup) (value : UInt64) : Prop :=
  htlcMin grp ≤ value.toNat ∧ value.toNat ≤ htlcMin grp + grp.peginMaxFee.toNat

/-- A sum of two amounts wraps exactly when it has no room. -/
theorem not_add_lt_iff {a b : UInt64} : ¬a + b < a ↔ a.toNat + b.toNat < 2 ^ 64 := by
  have ha := a.toNat_lt
  have hb := b.toNat_lt
  rw [UInt64.lt_iff_toNat_lt, UInt64.toNat_add]
  omega

theorem check_passes {c : Prop} [Decidable c] {sw : Sw} : Passes (check c sw) ↔ c := by
  by_cases hc : c
  · refine ⟨fun _ => hc, fun _ v => ?_⟩
    rw [check, require, if_pos hc]
    rfl
  · refine ⟨fun h => ?_, fun h => absurd h hc⟩
    have hv := h ⟨.zero, .zero⟩
    rw [check, require, if_neg hc] at hv
    cases hv

theorem addChecked_passes {a b : UInt64} {f : UInt64 → V Unit} :
    Passes (addChecked a b >>= f) ↔ ¬a + b < a ∧ Passes (f (a + b)) := by
  by_cases hc : a + b < a
  · refine ⟨fun h => ?_, fun h => absurd hc h.1⟩
    have hv := h ⟨.zero, .zero⟩
    rw [run_bind, addChecked, check, require, if_neg (not_not.2 hc)] at hv
    cases hv
  · have hrun : addChecked a b >>= f = f (a + b) := by
      funext v
      rw [run_bind, addChecked, check, require, if_pos hc]
      rfl
    rw [hrun]
    exact ⟨fun h => ⟨hc, h⟩, And.right⟩

/-- The two sums under both checks are exact together. -/
theorem htlcSums_iff : ¬grp.vaultAmount + grp.depositorClaimValue < grp.vaultAmount ∧
    ¬p2aAnchorValue + (grp.vaultAmount + grp.depositorClaimValue) < p2aAnchorValue ↔
      htlcMin grp < 2 ^ 64 := by
  have hanchor : p2aAnchorValue.toNat = 240 := rfl
  rw [not_add_lt_iff, not_add_lt_iff, htlcMin, UInt64.toNat_add, hanchor]
  omega

theorem toNat_htlcMin (h : htlcMin grp < 2 ^ 64) :
    (p2aAnchorValue + (grp.vaultAmount + grp.depositorClaimValue)).toNat = htlcMin grp := by
  obtain ⟨h1, h2⟩ := htlcSums_iff.2 h
  rw [toNat_add_checked h2, toNat_add_checked h1, htlcMin]
  exact Nat.add_comm _ _

/-- A bound on the difference. -/
theorem fee_le_iff {a b fee : UInt64} : ¬(a < b ∨ a - b > fee) ↔
    b.toNat ≤ a.toNat ∧ a.toNat ≤ b.toNat + fee.toNat := by
  rw [not_or, gt_iff_lt, UInt64.not_lt, UInt64.not_lt]
  constructor
  · rintro ⟨hle, hfee⟩
    rw [UInt64.le_iff_toNat_le, UInt64.toNat_sub_of_le _ _ hle] at hfee
    rw [UInt64.le_iff_toNat_le] at hle
    omega
  · rintro ⟨hle, hfee⟩
    have hle' := UInt64.le_iff_toNat_le.2 hle
    refine ⟨hle', ?_⟩
    rw [UInt64.le_iff_toNat_le, UInt64.toNat_sub_of_le _ _ hle']
    omega

/-- A bound on the sum, when it does not wrap. -/
theorem le_add_iff {a b fee : UInt64} (h : ¬b + fee < b) : ¬(a < b ∨ a > b + fee) ↔
    b.toNat ≤ a.toNat ∧ a.toNat ≤ b.toNat + fee.toNat := by
  rw [not_or, gt_iff_lt, UInt64.not_lt, UInt64.not_lt, UInt64.le_iff_toNat_le,
    UInt64.le_iff_toNat_le, toNat_add_checked h]

/-- The conditions of `htlcWindowCheck`. -/
theorem HtlcWindow.iff : HtlcWindow grp value ↔
    InHtlcWindow grp value ∧ htlcMin grp + grp.peginMaxFee.toNat < 2 ^ 64 := by
  unfold InHtlcWindow
  constructor
  · rintro ⟨⟨h1, h2, h3⟩, hw⟩
    have hmin := htlcSums_iff.1 ⟨h1, h2⟩
    rw [le_add_iff h3, toNat_htlcMin hmin] at hw
    rw [not_add_lt_iff, toNat_htlcMin hmin] at h3
    exact ⟨hw, h3⟩
  · rintro ⟨hw, hmax⟩
    have hmin : htlcMin grp < 2 ^ 64 := by omega
    obtain ⟨h1, h2⟩ := htlcSums_iff.2 hmin
    rw [← toNat_htlcMin hmin] at hw hmax
    have h3 := not_add_lt_iff.2 hmax
    exact ⟨⟨h1, h2, h3⟩, (le_add_iff h3).2 hw⟩

/-- The PegIn check is exact; that of the Pre-PegIn also refuses a window whose upper end
    has no room in 64 bits. -/
theorem htlc_checks_iff (grp : VaultGroup) (value : UInt64) :
    (Passes (peginFeeCheck grp value) ↔ InHtlcWindow grp value) ∧
      (Passes (htlcWindowCheck grp value) ↔ InHtlcWindow grp value ∧
        htlcMin grp + grp.peginMaxFee.toNat < 2 ^ 64) := by
  constructor
  · unfold peginFeeCheck InHtlcWindow
    rw [addChecked_passes, addChecked_passes, check_passes, fee_le_iff, ← and_assoc, htlcSums_iff]
    constructor
    · rintro ⟨hmin, hw⟩
      rwa [toNat_htlcMin hmin] at hw
    · rintro ⟨hlo, hhi⟩
      have hmin : htlcMin grp < 2 ^ 64 := lt_of_le_of_lt hlo value.toNat_lt
      rw [toNat_htlcMin hmin]
      exact ⟨hmin, hlo, hhi⟩
  · unfold htlcWindowCheck
    rw [addChecked_passes, addChecked_passes, addChecked_passes, check_passes, ← HtlcWindow.iff]
    constructor
    · rintro ⟨h1, h2, h3, hw⟩
      exact ⟨⟨h1, h2, h3⟩, hw⟩
    · rintro ⟨⟨h1, h2, h3⟩, hw⟩
      exact ⟨h1, h2, h3, hw⟩

/-- A group whose largest HTLC has no room in 64 bits, and an HTLC value in its window. -/
def groupAtEdge : VaultGroup :=
  { Signet.group 0 Signet.providerKey 0xFFFFFFFFFFFFFC18 with
    depositorClaimValue := 546, peginMaxFee := 1000 }

/-- Such a group can be loaded, and only the PegIn check takes the value. -/
theorem htlc_checks_differ :
    vaultTlvParseGroup (intentGroups (Signet.intentOf [groupAtEdge])) default =
        .ok (groupAtEdge, []) ∧
      InHtlcWindow groupAtEdge 0xFFFFFFFFFFFFFF2A ∧
      Passes (peginFeeCheck groupAtEdge 0xFFFFFFFFFFFFFF2A) ∧
      ¬Passes (htlcWindowCheck groupAtEdge 0xFFFFFFFFFFFFFF2A) := by
  refine ⟨by decide +kernel, ⟨by decide, by decide⟩, ?_, ?_⟩
  · unfold peginFeeCheck
    rw [addChecked_passes, addChecked_passes, check_passes]
    decide
  · unfold htlcWindowCheck
    rw [addChecked_passes, addChecked_passes, addChecked_passes]
    rintro ⟨-, -, hmax, -⟩
    exact absurd hmax (by decide)

/-! ## Lists of outputs -/

/-- An output of a transaction, with the mark of a wallet policy's own output. -/
structure Output where
  script : Bytes
  value : UInt64
  internal : Bool

/-- `outs` are the outputs of a PSBT. -/
structure OutputsOf (p : Psbt) (st : SignPsbtState) (outs : List Output) : Prop where
  length : p.outputs.length = outs.length
  nOutputs : st.nOutputs = outs.length
  amount : ∀ i o, outs[i]? = some o →
    (p.map (.output i)).find [psbtOutAmount] = some (leBytes 8 o.value.toNat)
  script : ∀ i o, outs[i]? = some o → (p.map (.output i)).find [psbtOutScript] = some o.script
  internal : ∀ i o, outs[i]? = some o → st.internalOutputs i = o.internal

/-- The shared auth anchor. -/
def Output.IsAuthAnchor (hash : Bytes32) (o : Output) : Prop :=
  o.value = 0 ∧ o.script = authAnchorSpk hash

instance (hash : Bytes32) (o : Output) : Decidable (o.IsAuthAnchor hash) :=
  inferInstanceAs (Decidable (_ ∧ _))

/-- The amounts that go back to the depositor: the CPFP anchor, then the change. -/
def DepositorAmounts (change : Prop) : List UInt64 → Prop
  | [] => True
  | [anchor] => anchor = dustLimit
  | [anchor, rest] => anchor = dustLimit ∧ dustLimit < rest ∧ change
  | _ => False

/-- The outputs behind the HTLCs: at most one auth anchor, mixed with outputs to the
    depositor. -/
structure RestOutputs (hash : Bytes32) (depositorSpk : Bytes) (change : Prop)
    (rest : List Output) : Prop where
  external : ∀ o ∈ rest, o.internal = false
  length : ∀ o ∈ rest, o.script.length = p2trSpkLen
  kinds : ∀ o ∈ rest, o.IsAuthAnchor hash ∨ o.script = depositorSpk
  anchor : (rest.filter (Output.IsAuthAnchor hash)).length ≤ 1
  depositor : DepositorAmounts change ((rest.filter (·.script = depositorSpk)).map (·.value))

/-- The inputs are signed from the BIP-86 account whose first receive address is the
    depositor's key. -/
structure DefaultAccount (net : Network) (st : SignPsbtState)
    (path : List.Vector UInt32 depositorPathLen) : Prop where
  isDefault : st.accountIsDefault = true
  bip86 : checkBip86Path net path.toList = true
  purpose : st.accountBip44Purpose = 86
  unhardened : st.accountBip44Account < 2 ^ 31
  account : path.pick 2 = st.accountBip44Account ||| 2 ^ 31
  first : path.pick 3 = 0 ∧ path.pick 4 = 0

/-- The outputs of a Pre-PegIn. -/
structure PrepeginOutputs (E : Env) (st : SignPsbtState) (s : Session) (outs : List Output) :
    Prop where
  vouts : ∀ g < s.intent.vaultCount, (s.intent.group g).htlcVout.toNat = g
  htlc : ∀ g < s.intent.vaultCount, ∃ o, outs[g]? = some o ∧ htlcSpk E s g = some o.script ∧
    InHtlcWindow (s.intent.group g) o.value ∧
    htlcMin (s.intent.group g) + (s.intent.group g).peginMaxFee.toNat < 2 ^ 64
  rest : ∃ spk, bip86P2trSpk E s.intent.depositorPk = some spk ∧
    RestOutputs s.ctx.authAnchorHash spk (DefaultAccount E.network st s.intent.depositorPath)
      (outs.drop s.intent.vaultCount)

/-! ## The outputs behind the HTLCs -/

section Rest
variable {hash : Bytes32} {depositorSpk : Bytes} {change : Prop} {allowed : Bool}
  {rest : List Output} {o : Output} {a : Bool} {seen : PrepeginDepositorOutputs}

/-- The amounts still to come, after those seen. -/
def DepositorRest (change : Prop) : PrepeginDepositorOutputs → List UInt64 → Prop
  | ⟨false, false⟩, l => DepositorAmounts change l
  | ⟨true, false⟩, l => DepositorAmounts change (dustLimit :: l)
  | _, l => l = []

theorem depositorRest_nil : DepositorRest change seen [] := by
  rcases seen with ⟨_ | _, _ | _⟩
  · exact trivial
  · exact rfl
  · exact rfl
  · exact rfl

theorem depositorRest_cons (h : allowed = true ↔ change) {x : UInt64} {l : List UInt64} :
    DepositorRest change seen (x :: l) ↔
      ∃ seen', prepeginDepositorOutputAccept seen x allowed = some seen' ∧
        DepositorRest change seen' l := by
  unfold prepeginDepositorOutputAccept
  rcases seen with ⟨_ | _, _ | _⟩
  · by_cases hx : x = dustLimit
    · subst hx
      simp [DepositorRest]
    · have hno : ¬DepositorAmounts change (x :: l) := by
        rcases l with _ | ⟨y, _ | ⟨z, l⟩⟩
        · exact hx
        · exact fun h => hx h.1
        · exact id
      simp [DepositorRest, hx, hno]
  · simp [DepositorRest]
  · by_cases hx : x = dustLimit
    · subst hx
      rcases l with _ | ⟨y, l⟩ <;> simp [DepositorRest, DepositorAmounts]
    · by_cases hlt : dustLimit < x
      · rcases l with _ | ⟨y, l⟩ <;> cases allowed <;>
          simp_all [DepositorRest, DepositorAmounts]
      · rcases l with _ | ⟨y, l⟩ <;> simp [DepositorRest, DepositorAmounts, hx, hlt]
  · simp [DepositorRest]

/-- One output behind the HTLCs, as `prepeginOutput` takes it. -/
def restStep (hash : Bytes32) (depositorSpk : Bytes) (allowed : Bool)
    (seen : Bool × PrepeginDepositorOutputs) (o : Output) :
    Option (Bool × PrepeginDepositorOutputs) :=
  if o.internal = false ∧ o.script.length = p2trSpkLen then
    if o.IsAuthAnchor hash then if seen.1 = false then some (true, seen.2) else none
    else if o.script = depositorSpk then
      (prepeginDepositorOutputAccept seen.2 o.value allowed).map fun seen' => (seen.1, seen')
    else none
  else none

/-- The outputs still to come, after an auth anchor or none and the depositor's seen. -/
structure RestFrom (hash : Bytes32) (depositorSpk : Bytes) (change : Prop) (a : Bool)
    (seen : PrepeginDepositorOutputs) (rest : List Output) : Prop where
  external : ∀ o ∈ rest, o.internal = false
  length : ∀ o ∈ rest, o.script.length = p2trSpkLen
  kinds : ∀ o ∈ rest, o.IsAuthAnchor hash ∨ o.script = depositorSpk
  anchor : (rest.filter (Output.IsAuthAnchor hash)).length + a.toNat ≤ 1
  depositor : DepositorRest change seen
    ((rest.filter (·.script = depositorSpk)).map (·.value))

theorem restFrom_nil : RestFrom hash depositorSpk change a seen [] := by
  refine ⟨by simp, by simp, by simp, ?_, depositorRest_nil⟩
  cases a <;> simp

theorem restFrom_cons (h : allowed = true ↔ change) (hne : authAnchorSpk hash ≠ depositorSpk) :
    RestFrom hash depositorSpk change a seen (o :: rest) ↔
      ∃ x, restStep hash depositorSpk allowed (a, seen) o = some x ∧
        RestFrom hash depositorSpk change x.1 x.2 rest := by
  unfold restStep
  by_cases hshape : o.internal = false ∧ o.script.length = p2trSpkLen
  · rw [if_pos hshape]
    by_cases hanchor : o.IsAuthAnchor hash
    · have hno : ¬o.script = depositorSpk := fun he => hne (hanchor.2.symm.trans he)
      rw [if_pos hanchor]
      constructor
      · rintro ⟨hext, hlen, hkind, hone, hdep⟩
        rw [List.filter_cons_of_pos (by simpa using hanchor), List.length_cons] at hone
        rw [List.filter_cons_of_neg (by simpa using hno)] at hdep
        cases a with
        | true => exact absurd hone (by simp)
        | false =>
          exact ⟨_, rfl, ⟨fun o ho => hext o (.tail _ ho), fun o ho => hlen o (.tail _ ho),
            fun o ho => hkind o (.tail _ ho), hone, hdep⟩⟩
      · rintro ⟨x, hx, hrest⟩
        cases a with
        | true => cases hx
        | false =>
          cases hx
          refine ⟨?_, ?_, ?_, ?_, ?_⟩
          · exact List.forall_mem_cons.2 ⟨hshape.1, hrest.external⟩
          · exact List.forall_mem_cons.2 ⟨hshape.2, hrest.length⟩
          · exact List.forall_mem_cons.2 ⟨.inl hanchor, hrest.kinds⟩
          · rw [List.filter_cons_of_pos (by simpa using hanchor), List.length_cons]
            exact hrest.anchor
          · rw [List.filter_cons_of_neg (by simpa using hno)]
            exact hrest.depositor
    · rw [if_neg hanchor]
      by_cases hdepo : o.script = depositorSpk
      · rw [if_pos hdepo]
        constructor
        · rintro ⟨hext, hlen, hkind, hone, hdep⟩
          rw [List.filter_cons_of_neg (by simpa using hanchor)] at hone
          rw [List.filter_cons_of_pos (by simpa using hdepo), List.map_cons,
            depositorRest_cons h] at hdep
          obtain ⟨seen', hseen, hdep⟩ := hdep
          exact ⟨_, Option.map_eq_some_iff.2 ⟨seen', hseen, rfl⟩, fun o ho => hext o (.tail _ ho),
            fun o ho => hlen o (.tail _ ho), fun o ho => hkind o (.tail _ ho), hone, hdep⟩
        · rintro ⟨x, hx, hrest⟩
          obtain ⟨seen', hseen, rfl⟩ := Option.map_eq_some_iff.1 hx
          refine ⟨?_, ?_, ?_, ?_, ?_⟩
          · exact List.forall_mem_cons.2 ⟨hshape.1, hrest.external⟩
          · exact List.forall_mem_cons.2 ⟨hshape.2, hrest.length⟩
          · exact List.forall_mem_cons.2 ⟨.inr hdepo, hrest.kinds⟩
          · rw [List.filter_cons_of_neg (by simpa using hanchor)]
            exact hrest.anchor
          · rw [List.filter_cons_of_pos (by simpa using hdepo), List.map_cons,
              depositorRest_cons h]
            exact ⟨seen', hseen, hrest.depositor⟩
      · rw [if_neg hdepo]
        constructor
        · intro hr
          exact ((hr.kinds o (.head _)).elim hanchor hdepo).elim
        · rintro ⟨_, hx, -⟩
          cases hx
  · rw [if_neg hshape]
    constructor
    · intro hr
      exact absurd ⟨hr.external o (.head _), hr.length o (.head _)⟩ hshape
    · rintro ⟨_, hx, -⟩
      cases hx

/-- Taking the outputs one by one accepts exactly these. -/
theorem restFrom_iff (h : allowed = true ↔ change) (hne : authAnchorSpk hash ≠ depositorSpk) :
    (∃ x, rest.foldlM (restStep hash depositorSpk allowed) (a, seen) = some x) ↔
      RestFrom hash depositorSpk change a seen rest := by
  induction rest generalizing a seen with
  | nil => exact ⟨fun _ => restFrom_nil, fun _ => ⟨_, rfl⟩⟩
  | cons o rest ih =>
    rw [restFrom_cons h hne]
    constructor
    · rintro ⟨x, hx⟩
      obtain ⟨y, hy, hx⟩ := Option.bind_eq_some_iff.1 hx
      exact ⟨y, hy, ih.1 ⟨x, hx⟩⟩
    · rintro ⟨y, hy, hrest⟩
      obtain ⟨x, hx⟩ := ih.2 hrest
      exact ⟨x, Option.bind_eq_some_iff.2 ⟨y, hy, hx⟩⟩

theorem restOutputs_iff : RestOutputs hash depositorSpk change rest ↔
    RestFrom hash depositorSpk change false ⟨false, false⟩ rest :=
  ⟨fun h => ⟨h.external, h.length, h.kinds, h.anchor, h.depositor⟩,
    fun h => ⟨h.external, h.length, h.kinds, h.anchor, h.depositor⟩⟩

theorem DepositorAmounts.length_le : ∀ {l : List UInt64}, DepositorAmounts change l → l.length ≤ 2
  | [], _ | [_], _ | [_, _], _ => by simp

/-- There are at most three. -/
theorem RestOutputs.length_le (h : RestOutputs hash depositorSpk change rest) :
    rest.length ≤ 3 := by
  have hdep := h.depositor.length_le
  rw [List.length_map, ← List.countP_eq_length_filter] at hdep
  have hanchor := h.anchor
  rw [← List.countP_eq_length_filter] at hanchor
  have hsplit := List.length_eq_countP_add_countP (Output.IsAuthAnchor hash ·) (l := rest)
  have hother : rest.countP (fun o => ¬decide (o.IsAuthAnchor hash) = true) ≤
      rest.countP fun o => o.script = depositorSpk := by
    refine List.countP_mono_left fun o ho hno => ?_
    have hk := (h.kinds o ho).resolve_left (by simpa using hno)
    simpa using hk
  omega

end Rest

/-! ## The two loops -/

section Loops
variable {outs : List Output}

/-- What a serving host gives of output `i`. -/
theorem serve_readOutput (h : OutputsOf p st outs) {i : ℕ} {P : Bytes → UInt64 → Prop} :
    (∃ spk value, ReadsOutput (fun q a => p.serve q = a) st.nOutputs i p2trSpkLen spk value ∧
      spk.length = p2trSpkLen ∧ P spk value) ↔
    ∃ o, outs[i]? = some o ∧ o.script.length = p2trSpkLen ∧ P o.script o.value := by
  have hamount (o : Output) : UInt64.ofNat (ofLE (leBytes 8 o.value.toNat)) = o.value := by
    rw [ofLE_leBytes (show o.value.toNat < 256 ^ 8 from o.value.toNat_lt), UInt64.ofNat_toNat]
  constructor
  · rintro ⟨spk, value, ⟨hm, ⟨raw, hraw, -, rfl⟩, hspk⟩, hl, hP⟩
    obtain ⟨-, hlt⟩ : st.nOutputs = p.outputs.length ∧ i < st.nOutputs := of_decide_eq_true hm
    rw [h.nOutputs] at hlt
    have ho : outs[i]? = some outs[i] := List.getElem?_eq_getElem hlt
    have hr := (Option.filter_eq_some_iff.1 hraw).1
    have hs := (Option.filter_eq_some_iff.1 hspk).1
    rw [h.amount i _ ho, Option.some.injEq] at hr
    rw [h.script i _ ho, Option.some.injEq] at hs
    subst hr hs
    rw [hamount] at hP
    exact ⟨_, ho, hl, hP⟩
  · rintro ⟨o, ho, hl, hP⟩
    obtain ⟨hlt, -⟩ := List.getElem?_eq_some_iff.1 ho
    refine ⟨o.script, o.value, ⟨?_, ⟨leBytes 8 o.value.toNat, ?_, ?_, hamount o⟩, ?_⟩, hl, hP⟩
    · exact decide_eq_true ⟨h.nOutputs.trans h.length.symm, h.nOutputs ▸ hlt⟩
    · exact Option.filter_eq_some_iff.2 ⟨h.amount i o ho, by simp⟩
    · simp
    · exact Option.filter_eq_some_iff.2 ⟨h.script i o ho, by simp [hl]⟩

theorem prepeginHtlcOutput_iff (h : OutputsOf p st outs) :
    (prepeginHtlcOutput E st s gi).Via (fun q a => p.serve q = a) v () v' ↔
      (∃ o, outs[(s.intent.group gi).htlcVout.toNat]? = some o ∧
        htlcSpk E s gi = some o.script ∧ HtlcWindow (s.intent.group gi) o.value) ∧ v = v' := by
  simp only [prepeginHtlcOutput, check_bind, readOutput_bind, orReject_bind, addChecked_bind,
    check_end, serve_readOutput h]
  constructor
  · rintro ⟨-, o, ho, -, _, hspk, rfl, h1, h2, h3, hw, rfl⟩
    exact ⟨⟨o, ho, hspk, ⟨h1, h2, h3⟩, hw⟩, rfl⟩
  · rintro ⟨⟨o, ho, hspk, ⟨h1, h2, h3⟩, hw⟩, rfl⟩
    obtain ⟨hlt, -⟩ := List.getElem?_eq_some_iff.1 ho
    obtain ⟨key, hkey⟩ := htlcSpk_p2tr hspk
    exact ⟨h.nOutputs ▸ hlt, o, ho, hkey ▸ length_p2trSpk, _, hspk, rfl, h1, h2, h3, hw, rfl⟩

/-- A loop whose turns only check. -/
theorem forUpto_iff {G : Allow} {body : ℕ → V Unit} {P : ℕ → Prop} {n : ℕ}
    (h : ∀ i v v', (body i).Via G v () v' ↔ P i ∧ v = v') :
    (forUpto n body).Via G v () v' ↔ (∀ i < n, P i) ∧ v = v' := by
  have hloop : ∀ n k, (Prog.loop (fun i _ => body i) k n ()).Via G v () v' ↔
      (∀ i, k ≤ i → i < k + n → P i) ∧ v = v' := by
    intro n
    induction n generalizing v with
    | zero =>
      intro k
      rw [Prog.loop, via_pure]
      exact ⟨fun h => ⟨fun i hi hlt => by omega, h.2⟩, fun h => ⟨rfl, h.2⟩⟩
    | succ n ih =>
      intro k
      rw [Prog.loop, via_bind]
      constructor
      · rintro ⟨_, v₁, h₁, h₂⟩
        obtain ⟨hk, rfl⟩ := (h k v v₁).1 h₁
        obtain ⟨hi, rfl⟩ := (ih (k + 1)).1 h₂
        refine ⟨fun i hle hlt => ?_, rfl⟩
        rcases Nat.eq_or_lt_of_le hle with rfl | hlt'
        · exact hk
        · exact hi i hlt' (by omega)
      · rintro ⟨hi, rfl⟩
        exact ⟨(), v, (h k v v).2 ⟨hi k le_rfl (by omega), rfl⟩,
          (ih (k + 1)).2 ⟨fun i hle hlt => hi i (by omega) (by omega), rfl⟩⟩
  rw [forUpto, hloop]
  exact and_congr_left fun _ => ⟨fun h i hi => h i (Nat.zero_le i) (by omega),
    fun h i _ hi => h i (by omega)⟩

/-- Output `i`, as `prepeginOutput` takes it. -/
def outputStep (it : VaultIntent) (hash : Bytes32) (cpfpSpk : Bytes) (allowed : Bool)
    (outs : List Output) (i : ℕ) (seen : Bool × PrepeginDepositorOutputs) :
    Option (Bool × PrepeginDepositorOutputs) :=
  if (List.range it.vaultCount).any fun gi => (it.group gi).htlcVout.toNat = i then some seen
  else if (it.group (it.vaultCount - 1)).htlcVout.toNat < i then
    outs[i]?.bind (restStep hash cpfpSpk allowed seen)
  else none

theorem prepeginOutput_iff (h : OutputsOf p st outs) {cpfpSpk : Bytes} {allowed : Bool} {i : ℕ}
    {seen seen' : Bool × PrepeginDepositorOutputs} :
    (prepeginOutput st s cpfpSpk allowed i seen).Via (fun q a => p.serve q = a) v seen' v' ↔
      outputStep s.intent s.ctx.authAnchorHash cpfpSpk allowed outs i seen = some seen' ∧
        v = v' := by
  unfold prepeginOutput outputStep
  split_ifs with hg hmax
  · rw [via_pure, Option.some.injEq]
  · simp only [check_bind, readOutput_bind, serve_readOutput h]
    constructor
    · rintro ⟨hint, -, o, ho, hl, hrest⟩
      rw [h.internal i o ho] at hint
      rw [ho, Option.bind_some, restStep, if_pos ⟨hint, hl⟩]
      simp only [via_ite, check_bind, via_pure, orReject_bind, reject_end] at hrest
      rcases hrest with ⟨ha, h0, rfl, rfl⟩ | ⟨ha, ⟨hd, s', hs, rfl, rfl⟩ | ⟨-, hf⟩⟩
      · have hanchor : o.IsAuthAnchor s.ctx.authAnchorHash := ha
        rw [if_pos hanchor, if_pos h0]
        exact ⟨rfl, rfl⟩
      · have hanchor : ¬o.IsAuthAnchor s.ctx.authAnchorHash := ha
        rw [if_neg hanchor, if_pos hd, hs]
        exact ⟨rfl, rfl⟩
      · exact hf.elim
    · rintro ⟨hstep, rfl⟩
      obtain ⟨o, ho, hstep⟩ := Option.bind_eq_some_iff.1 hstep
      unfold restStep at hstep
      split_ifs at hstep with hshape ha h0 hd
      · refine ⟨(h.internal i o ho).trans hshape.1, by omega, o, ho, hshape.2, ?_⟩
        rw [via_ite, check_bind, via_pure]
        exact .inl ⟨ha, h0, Option.some.inj hstep, rfl⟩
      · obtain ⟨s', hs, rfl⟩ := Option.map_eq_some_iff.1 hstep
        refine ⟨(h.internal i o ho).trans hshape.1, by omega, o, ho, hshape.2, ?_⟩
        rw [via_ite, via_ite, orReject_bind]
        exact .inr ⟨ha, .inl ⟨hd, s', hs, via_pure.2 ⟨rfl, rfl⟩⟩⟩
  · simp only [check_bind]
    constructor
    · rintro ⟨-, hno, -⟩
      omega
    · rintro ⟨hno, -⟩
      cases hno

theorem unhardened_iff {x : UInt32} : x &&& hardened = 0 ↔ x < 2 ^ 31 := by
  rw [← UInt32.toNat_inj, UInt32.lt_iff_toNat_lt, UInt32.toNat_and]
  show x.toNat &&& 2 ^ 31 = 0 ↔ x.toNat < 2 ^ 31
  have hx := x.toNat_lt
  rw [Nat.and_two_pow, mul_eq_zero, Bool.toNat_eq_zero, Nat.testBit_eq_decide_div_mod_eq,
    decide_eq_false_iff_not]
  omega

/-- The depositor's own account, as the source checks it. -/
theorem defaultAccount_iff {net : Network} {path : List.Vector UInt32 depositorPathLen} :
    (st.accountIsDefault && prepeginChangePathOk net path.toList st.accountBip44Purpose
      st.accountBip44Account) = true ↔ DefaultAccount net st path := by
  have hacc : st.accountBip44Account &&& hardened = 0 ↔ st.accountBip44Account < 2 ^ 31 :=
    unhardened_iff
  have h2 : path.toList.getD 2 0 = path.pick 2 := rfl
  have h3 : path.toList.getD 3 0 = path.pick 3 := rfl
  have h4 : path.toList.getD 4 0 = path.pick 4 := rfl
  simp only [prepeginChangePathOk, Bool.and_eq_true, decide_eq_true_eq, hacc, h2, h3, h4]
  constructor
  · rintro ⟨hdef, ⟨⟨⟨⟨hb, hp⟩, ha⟩, h2⟩, h3⟩, h4⟩
    exact ⟨hdef, hb, hp, ha, h2, h3, h4⟩
  · rintro ⟨hdef, hb, hp, ha, h2, h3, h4⟩
    exact ⟨hdef, ⟨⟨⟨⟨hb, hp⟩, ha⟩, h2⟩, h3⟩, h4⟩

/-- Ascending positions without a gap before the last. -/
theorem LoadedIntent.vout_eq {it : VaultIntent} (h : LoadedIntent E it)
    (hfull : ∀ i ≤ (it.group (it.vaultCount - 1)).htlcVout.toNat, IsHtlcVout it i) :
    ∀ g < it.vaultCount, (it.group g).htlcVout.toNat = g := by
  have hlt : ∀ {g g'}, g < g' → g' < it.vaultCount →
      (it.group g).htlcVout.toNat < (it.group g').htlcVout.toNat :=
    fun hg hg' => UInt8.lt_iff_toNat_lt.1 (h.groups.vout_lt hg hg')
  intro g
  induction g using Nat.strong_induction_on with
  | _ g ih =>
    intro hg
    have hge : g ≤ (it.group g).htlcVout.toNat := by
      rcases g with _ | g
      · exact Nat.zero_le _
      · have hprev := hlt g.lt_succ_self hg
        rw [ih g g.lt_succ_self (by omega)] at hprev
        exact hprev
    have hmax : (it.group g).htlcVout.toNat ≤ (it.group (it.vaultCount - 1)).htlcVout.toNat := by
      rcases Nat.lt_or_ge g (it.vaultCount - 1) with hlast | hlast
      · exact (hlt hlast (by omega)).le
      · rw [show it.vaultCount - 1 = g by omega]
    -- Position `g` belongs to a group: to none before `g`, and to none behind it.
    obtain ⟨g', hg', hvout⟩ := hfull g (by omega)
    rcases Nat.lt_trichotomy g' g with hlt' | rfl | hgt
    · rw [ih g' hlt' hg'] at hvout
      omega
    · exact hvout
    · have := hlt hgt hg'
      omega

/-- The outputs one by one, from position `k` on. -/
theorem foldlM_drop {α : Type} {f : ℕ → α → Option α} {step : α → Output → Option α} {k : ℕ}
    (h : ∀ i a o, k ≤ i → outs[i]? = some o → f i a = step a o) {n : ℕ} (hn : outs.length = k + n)
    {a : α} : (List.range' k n).foldlM (fun a i => f i a) a = (outs.drop k).foldlM step a := by
  induction n generalizing k a with
  | zero =>
    rw [List.drop_of_length_le (by omega)]
    rfl
  | succ n ih =>
    have hk : k < outs.length := by omega
    rw [List.range'_succ, List.foldlM_cons, List.drop_eq_getElem_cons hk, List.foldlM_cons,
      h k a _ le_rfl (List.getElem?_eq_getElem hk)]
    refine congrArg _ (funext fun a' => ?_)
    exact ih (fun i a o hi => h i a o (by omega)) (by omega)

/-- A fold that ends well has taken each of its steps. -/
theorem foldlM_steps {α : Type} {f : ℕ → α → Option α} {l : List ℕ} {a b : α}
    (h : l.foldlM (fun a i => f i a) a = some b) : ∀ i ∈ l, ∃ x y, f i x = some y := by
  induction l generalizing a with
  | nil => simp
  | cons i l ih =>
    obtain ⟨a', ha, hl⟩ := Option.bind_eq_some_iff.1 h
    exact List.forall_mem_cons.2 ⟨⟨a, a', ha⟩, ih hl⟩

theorem foldlM_const {α : Type} {f : ℕ → α → Option α} {l : List ℕ} {a : α}
    (h : ∀ i ∈ l, f i a = some a) : l.foldlM (fun a i => f i a) a = some a := by
  induction l with
  | nil => rfl
  | cons i l ih =>
    obtain ⟨hi, hl⟩ := List.forall_mem_cons.1 h
    rw [List.foldlM_cons, hi]
    exact ih hl

section Step
variable {it : VaultIntent} {hash : Bytes32} {cpfpSpk : Bytes} {allowed : Bool} {i : ℕ}
  {seen seen' : Bool × PrepeginDepositorOutputs}

theorem isHtlcVout_iff : ((List.range it.vaultCount).any fun gi =>
    (it.group gi).htlcVout.toNat = i) = true ↔ IsHtlcVout it i := by
  simp [IsHtlcVout]

theorem outputStep_htlc (h : IsHtlcVout it i) :
    outputStep it hash cpfpSpk allowed outs i seen = some seen :=
  if_pos (isHtlcVout_iff.2 h)

theorem outputStep_inv (h : outputStep it hash cpfpSpk allowed outs i seen = some seen') :
    IsHtlcVout it i ∨ (it.group (it.vaultCount - 1)).htlcVout.toNat < i := by
  unfold outputStep at h
  split_ifs at h with hg hmax
  · exact .inl (isHtlcVout_iff.1 hg)
  · exact .inr hmax

/-- The loop over all outputs: the HTLCs come first, and the rest is taken one by one. -/
theorem outputs_foldlM (hint : LoadedIntent E it)
    (hlt : ∀ g < it.vaultCount, (it.group g).htlcVout.toNat < outs.length) :
    (∃ x, (List.range' 0 outs.length).foldlM
        (fun a i => outputStep it hash cpfpSpk allowed outs i a) seen = some x) ↔
      (∀ g < it.vaultCount, (it.group g).htlcVout.toNat = g) ∧
        ∃ x, (outs.drop it.vaultCount).foldlM (restStep hash cpfpSpk allowed) seen = some x := by
  obtain ⟨-, -, hcount, -⟩ := hint.scalars.counts
  have hlast := hlt (it.vaultCount - 1) (by omega)
  have hsplit (hv : ∀ g < it.vaultCount, (it.group g).htlcVout.toNat = g) :
      (List.range' 0 outs.length).foldlM
        (fun a i => outputStep it hash cpfpSpk allowed outs i a) seen =
      (outs.drop it.vaultCount).foldlM (restStep hash cpfpSpk allowed) seen := by
    have hle : it.vaultCount ≤ outs.length := by
      rw [hv _ (by omega)] at hlast
      omega
    have hrange : List.range' 0 outs.length =
        List.range' 0 it.vaultCount ++ List.range' it.vaultCount (outs.length - it.vaultCount) := by
      rw [List.range'_eq_append_iff]
      exact ⟨it.vaultCount, hle, rfl, by rw [Nat.zero_add, Nat.mul_one]⟩
    rw [hrange, List.foldlM_append, foldlM_const]
    · refine foldlM_drop (fun i a o hi ho => ?_) (by omega)
      have hno : ¬IsHtlcVout it i := by
        rintro ⟨g, hg, rfl⟩
        rw [hv g hg] at hi
        omega
      unfold outputStep
      rw [if_neg (isHtlcVout_iff.not.2 hno), hv _ (by omega), if_pos (by omega), ho]
      rfl
    · intro i hi
      have hi : i < it.vaultCount := by simpa using hi
      exact outputStep_htlc ⟨i, hi, hv i hi⟩
  constructor
  · rintro ⟨x, hx⟩
    have hv := hint.vout_eq fun i hi => by
      obtain ⟨y, z, hy⟩ := foldlM_steps hx i (by simp; omega)
      exact (outputStep_inv hy).resolve_right (by omega)
    exact ⟨hv, x, hsplit hv ▸ hx⟩
  · rintro ⟨hv, x, hx⟩
    exact ⟨x, (hsplit hv).trans hx⟩

end Step

theorem validatePrepeginOutputs_iff (h : OutputsOf p st outs)
    (hcount : 1 ≤ s.intent.vaultCount ∧ s.intent.vaultCount ≤ maxVaults) :
    (validatePrepeginOutputs E st s).Via (fun q a => p.serve q = a) v () v' ↔
      (∃ spk, bip86P2trSpk E s.intent.depositorPk = some spk ∧
        ∃ x, (List.range' 0 outs.length).foldlM (fun a i => outputStep s.intent
          s.ctx.authAnchorHash spk (st.accountIsDefault && prepeginChangePathOk E.network
            s.intent.depositorPath.toList st.accountBip44Purpose st.accountBip44Account) outs i a)
          (false, ⟨false, false⟩) = some x) ∧ v = v' := by
  simp only [validatePrepeginOutputs, orReject_bind, ledgerAssert_bind]
  constructor
  · rintro ⟨spk, hspk, -, hrun⟩
    obtain ⟨x, v₁, hloop, hend⟩ := via_bind.1 hrun
    obtain ⟨hx, rfl⟩ := (via_loop_iff fun _ _ _ _ _ => prepeginOutput_iff h).1 hloop
    exact ⟨⟨spk, hspk, x, h.nOutputs ▸ hx⟩, (via_pure.1 hend).2⟩
  · rintro ⟨⟨spk, hspk, x, hx⟩, rfl⟩
    refine ⟨spk, hspk, hcount, via_bind.2 ⟨x, v, ?_, via_pure.2 ⟨rfl, rfl⟩⟩⟩
    exact (via_loop_iff fun _ _ _ _ _ => prepeginOutput_iff h).2 ⟨h.nOutputs.symm ▸ hx, rfl⟩

/-- The outputs that the two loops of the Pre-PegIn accept. -/
theorem prepeginOutputs_iff (h : OutputsOf p st outs) (hint : LoadedIntent E s.intent) :
    (validatePrepeginHtlcOutputs E st s >>= fun _ => validatePrepeginOutputs E st s).Via
      (fun q a => p.serve q = a) v () v' ↔ PrepeginOutputs E st s outs ∧ v = v' := by
  obtain ⟨-, -, hcount⟩ := hint.scalars.counts
  have hne {spk : Bytes} (hspk : bip86P2trSpk E s.intent.depositorPk = some spk) :
      authAnchorSpk s.ctx.authAnchorHash ≠ spk := by
    obtain ⟨r, -, rfl⟩ := Option.map_eq_some_iff.1 hspk
    exact fun he => nomatch he
  rw [via_bind]
  constructor
  · rintro ⟨_, v₁, hhtlc, hrest⟩
    obtain ⟨hgroups, rfl⟩ := (forUpto_iff fun i _ _ => prepeginHtlcOutput_iff h).1 hhtlc
    obtain ⟨⟨spk, hspk, hx⟩, rfl⟩ := (validatePrepeginOutputs_iff h hcount).1 hrest
    rw [outputs_foldlM hint, restFrom_iff defaultAccount_iff (hne hspk), ← restOutputs_iff] at hx
    · refine ⟨⟨hx.1, fun g hg => ?_, spk, hspk, hx.2⟩, rfl⟩
      obtain ⟨o, ho, hs, hw⟩ := hgroups g hg
      rw [hx.1 g hg] at ho
      exact ⟨o, ho, hs, HtlcWindow.iff.1 hw⟩
    · intro g hg
      obtain ⟨o, ho, -⟩ := hgroups g hg
      exact (List.getElem?_eq_some_iff.1 ho).1
  · rintro ⟨⟨hv, hhtlc, spk, hspk, hrest⟩, rfl⟩
    have hgroups : ∀ g < s.intent.vaultCount, ∃ o, outs[(s.intent.group g).htlcVout.toNat]? = some o ∧
        htlcSpk E s g = some o.script ∧ HtlcWindow (s.intent.group g) o.value := by
      intro g hg
      obtain ⟨o, ho, hs, hw⟩ := hhtlc g hg
      exact ⟨o, (hv g hg).symm ▸ ho, hs, HtlcWindow.iff.2 hw⟩
    refine ⟨(), v, (forUpto_iff fun i _ _ => prepeginHtlcOutput_iff h).2 ⟨hgroups, rfl⟩, ?_⟩
    refine (validatePrepeginOutputs_iff h hcount).2 ⟨⟨spk, hspk, ?_⟩, rfl⟩
    rw [outputs_foldlM hint, restFrom_iff defaultAccount_iff (hne hspk), ← restOutputs_iff]
    · exact ⟨hv, hrest⟩
    · intro g hg
      obtain ⟨o, ho, -⟩ := hgroups g hg
      exact (List.getElem?_eq_some_iff.1 ho).1

end Loops

/-- What the two loops over the outputs of a Pre-PegIn say under the answers of a host
    that serves the PSBT. -/
def prepeginOutputsAccepted (E : Env) (st : SignPsbtState) (s : Session) (p : Psbt)
    (v : Volatile) : Prop :=
  ((validatePrepeginHtlcOutputs E st s >>= fun _ => validatePrepeginOutputs E st s).eval
    p.serve v).1 = .ok ()

/-- A Pre-PegIn may have exactly these outputs. -/
theorem Reach.prepegin_outputs_iff {outs : List Output} (h : Reach E ls d)
    (hl : d.ctx.state = .intentLoaded) (ho : OutputsOf p st outs) (v : Volatile) :
    (prepeginOutputsAccepted E st d.session p v ↔ PrepeginOutputs E st d.session outs) ∧
      (prepeginOutputsAccepted E st d.session p v →
        outs.length ≤ d.intent.vaultCount + 3) := by
  have hiff : prepeginOutputsAccepted E st d.session p v ↔
      PrepeginOutputs E st d.session outs := by
    have hint : LoadedIntent E d.session.intent := (h.session.loaded hl).intent
    constructor
    · intro ha
      exact ((prepeginOutputs_iff ho hint).1 (via_eval.2 (Prod.ext ha rfl))).1
    · intro hp
      exact congrArg Prod.fst (via_eval.1 ((prepeginOutputs_iff ho hint).2 ⟨hp, rfl⟩))
  refine ⟨hiff, fun ha => ?_⟩
  obtain ⟨spk, -, hrest⟩ := (hiff.1 ha).rest
  have := hrest.length_le
  rw [List.length_drop] at this
  exact Nat.sub_le_iff_le_add'.1 this

namespace Signet

/-- The outputs of the Pre-PegIn. -/
def prepeginOuts : List Output :=
  [⟨spk htlcOut, 103000, false⟩, ⟨spk otherHtlcOut, 203000, false⟩,
   ⟨authAnchorSpk authAnchor, 0, false⟩, ⟨spk depositorOut, 546, false⟩,
   ⟨spk depositorOut, 50000, false⟩]

theorem prepegin_outputsOf : OutputsOf prepegin prepeginState prepeginOuts := by
  have hmap : prepegin.outputs = prepeginOuts.map fun o => output o.value.toNat o.script := rfl
  have hfind {i : ℕ} {o : Output} (ho : prepeginOuts[i]? = some o) :
      prepegin.map (.output i) = output o.value.toNat o.script := by
    rw [Psbt.map, hmap, List.getD_eq_getElem?_getD, List.getElem?_map, ho]
    rfl
  refine ⟨rfl, rfl, fun i o ho => ?_, fun i o ho => ?_, fun i o ho => ?_⟩
  · rw [hfind ho]
    rfl
  · rw [hfind ho]
    rfl
  · have hext : ∀ o ∈ prepeginOuts, o.internal = false := by decide
    exact (hext o (List.mem_of_getElem? ho)).symm

end Signet

open Signet in
theorem prepegin_outputs_signet :
    PrepeginOutputs env prepeginState (loaded intent).session prepeginOuts := by
  refine ((reach_loaded intent).prepegin_outputs_iff loaded_state prepegin_outputsOf
    ⟨.zero, .zero⟩).1.1 ?_
  unfold prepeginOutputsAccepted
  rw [loaded_intent]
  decide +kernel

end BabylonVault
