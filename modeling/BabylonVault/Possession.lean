/-
  What a proof of possession shows, and what it signs (`bip322.c`).

  * `PopMessage.WellFormed`, `PopMessage.render`: the grammar of a PoP message.
  * `parsePopMessage_iff`: exactly these messages are accepted, and their fields come back.
  * `PopBound`: the message and the key that Input 0's prevout commits to.
  * `pop_determined`: the screen determines the prevout txid and, up to a collision, the other
    way round.
-/
import BabylonVault.Lib.Collision
import BabylonVault.ClaimOutputs

namespace BabylonVault
open Bytes Prog Collides

/-! ## The grammar -/

/-- `0x` and 40 lower-case hex digits. -/
def EthAddress (field : Bytes) : Prop := ∃ digits : Bytes,
  field = ascii "0x" ++ digits ∧ digits.length = 40 ∧ ∀ c ∈ digits, c ∈ ascii "0123456789abcdef"

/-- 1 to 20 decimal digits; a leading zero stands alone. -/
structure ChainId (field : Bytes) : Prop where
  length : 1 ≤ field.length ∧ field.length ≤ 20
  digits : ∀ c ∈ field, c ∈ ascii "0123456789"
  zero : ∀ rest, field = ascii "0" ++ rest → rest = []

/-- The fields of a message are as specified. -/
structure PopMessage.WellFormed (m : PopMessage) : Prop where
  ethAddr : EthAddress m.ethAddr
  chainId : ChainId m.chainId
  registry : EthAddress m.registry

/-- The message with these fields. -/
def PopMessage.render (m : PopMessage) : Bytes :=
  m.ethAddr ++ ascii ":" ++ m.chainId ++ ascii ":pegin:" ++ m.registry

variable {field msg : Bytes} {m : PopMessage}

theorem isLowercaseHex_iff (c : UInt8) :
    isLowercaseHex c = true ↔ c ∈ ascii "0123456789abcdef" := by
  revert c
  exact forall_byte (by decide +kernel)

theorem isDigit_iff (c : UInt8) :
    (decide (48 ≤ c) && decide (c ≤ 57)) = true ↔ c ∈ ascii "0123456789" := by
  revert c
  exact forall_byte (by decide +kernel)

theorem parseEthAddress_iff {a : Bytes} :
    parseEthAddress field = some a ↔ EthAddress field ∧ a = field := by
  unfold parseEthAddress
  split_ifs with hl hx hh
  · simp only [false_iff, not_and]
    rintro ⟨digits, rfl, hd, -⟩
    exact absurd (by rw [List.length_append, hd]; rfl) hl
  · simp only [false_iff, not_and]
    rintro ⟨digits, rfl, -⟩
    exact absurd rfl hx
  · have hfield : EthAddress field := by
      refine ⟨field.drop 2, ?_, ?_, fun c hc => (isLowercaseHex_iff c).1 (List.all_eq_true.1 hh c hc)⟩
      · rw [← not_not.1 hx, List.take_append_drop]
      · rw [List.length_drop, not_not.1 hl]
    rw [Option.some.injEq, eq_comm]
    exact ⟨fun h => ⟨hfield, h⟩, fun h => h.2⟩
  · simp only [false_iff, not_and]
    rintro ⟨digits, rfl, -, hd⟩
    exact absurd (List.all_eq_true.2 fun c hc => (isLowercaseHex_iff c).2 (hd c hc)) hh

/-- A leading zero that does not stand alone. -/
theorem leadingZero_iff : (1 < field.length ∧ field.headD 0 = 48) ↔
    ∃ rest, field = ascii "0" ++ rest ∧ rest ≠ [] := by
  rcases field with _ | ⟨c, rest⟩
  · simp [ascii]
  · constructor
    · rintro ⟨hl, rfl⟩
      exact ⟨rest, rfl, List.ne_nil_of_length_pos (by simpa using hl)⟩
    · rintro ⟨rest', h, hne⟩
      obtain ⟨rfl, rfl⟩ := List.cons.inj h
      exact ⟨by simpa [List.length_pos_iff] using hne, rfl⟩

theorem chainIdOk_iff : chainIdOk field = true ↔ ChainId field := by
  have hzero : ¬(1 < field.length ∧ field.headD 0 = 48) ↔
      ∀ rest, field = ascii "0" ++ rest → rest = [] := by
    simp only [leadingZero_iff, not_exists, not_and, not_not]
  simp only [chainIdOk, Bool.and_eq_true, decide_eq_true_eq, Bool.not_eq_true', Bool.and_eq_false_iff,
    decide_eq_false_iff_not, ← not_and_or, hzero, List.all_eq_true]
  constructor
  · rintro ⟨⟨⟨hpos, hle⟩, h0⟩, hd⟩
    exact ⟨⟨hpos, hle⟩, fun c hc => (isDigit_iff c).1 (by simpa using hd c hc), h0⟩
  · rintro ⟨⟨hpos, hle⟩, hd, h0⟩
    exact ⟨⟨⟨hpos, hle⟩, h0⟩, fun c hc => by simpa using (isDigit_iff c).2 (hd c hc)⟩

/-- The first colon splits a message. -/
theorem splitColon_iff {a b : Bytes} : splitColon msg = some (a, b) ↔
    58 ∉ a ∧ msg = a ++ 58 :: b := by
  rw [splitColon, List.span_eq_takeWhile_dropWhile]
  constructor
  · intro h
    rcases hd : msg.dropWhile (· ≠ 58) with _ | ⟨c, rest⟩
    · rw [hd] at h
      cases h
    · rw [hd] at h
      obtain ⟨rfl, rfl⟩ := Prod.mk.inj (Option.some.inj h)
      have hc : c = 58 := by
        have hhead := List.head?_dropWhile_not (· ≠ (58 : UInt8)) msg
        rw [hd] at hhead
        simpa using hhead
      subst hc
      refine ⟨fun hmem => ?_, ?_⟩
      · have hne := List.all_eq_true.1 List.all_takeWhile _ hmem
        simp at hne
      · rw [← hd, List.takeWhile_append_dropWhile]
  · rintro ⟨ha, rfl⟩
    have hp : ∀ c ∈ a, decide (c ≠ 58) = true := by
      intro c hc
      exact decide_eq_true fun h => ha (h ▸ hc)
    rw [List.takeWhile_append_of_pos hp, List.dropWhile_append_of_pos hp]
    simp

theorem EthAddress.length (h : EthAddress field) : field.length = 42 := by
  obtain ⟨digits, rfl, hd, -⟩ := h
  rw [List.length_append, hd]
  rfl

theorem EthAddress.no_colon (h : EthAddress field) : 58 ∉ field := by
  obtain ⟨digits, rfl, -, hd⟩ := h
  intro hc
  rcases List.mem_append.1 hc with hc | hc
  · exact absurd hc (by decide)
  · exact absurd (hd _ hc) (by decide)

theorem ChainId.no_colon (h : ChainId field) : 58 ∉ field :=
  fun hc => absurd (h.digits _ hc) (by decide)

/-- The accepted messages are the well-formed ones, and their fields come back. -/
theorem parsePopMessage_iff :
    bip322ParsePopMessage msg = some m ↔ m.WellFormed ∧ msg = m.render := by
  have hpegin : ascii ":pegin:" = 58 :: (ascii "pegin" ++ [58]) := rfl
  have hcolon : ascii ":" = [58] := rfl
  constructor
  · intro h
    simp only [bip322ParsePopMessage, Option.bind_eq_bind, Option.bind_eq_some_iff] at h
    obtain ⟨⟨f0, r0⟩, h0, ⟨f1, r1⟩, h1, ⟨f2, f3⟩, h2, eth, heth, h⟩ := h
    split_ifs at h with hchain hlit
    simp only [Option.bind_eq_some_iff, Option.pure_def, Option.some.injEq] at h
    obtain ⟨registry, hreg, rfl⟩ := h
    obtain ⟨-, rfl⟩ := splitColon_iff.1 h0
    obtain ⟨-, rfl⟩ := splitColon_iff.1 h1
    obtain ⟨-, rfl⟩ := splitColon_iff.1 h2
    obtain ⟨heth, rfl⟩ := parseEthAddress_iff.1 heth
    obtain ⟨hreg, rfl⟩ := parseEthAddress_iff.1 hreg
    refine ⟨⟨heth, chainIdOk_iff.1 (Bool.not_eq_false _ ▸ hchain), hreg⟩, ?_⟩
    have hlit : f2 = ascii "pegin" := not_not.1 hlit
    simp [PopMessage.render, hpegin, hcolon, hlit]
  · rintro ⟨⟨heth, hchain, hreg⟩, rfl⟩
    have h0 : splitColon m.render =
        some (m.ethAddr, m.chainId ++ ascii ":pegin:" ++ m.registry) :=
      splitColon_iff.2 ⟨heth.no_colon, by simp [PopMessage.render, hcolon]⟩
    have h1 : splitColon (m.chainId ++ ascii ":pegin:" ++ m.registry) =
        some (m.chainId, ascii "pegin" ++ 58 :: m.registry) :=
      splitColon_iff.2 ⟨hchain.no_colon, by simp [hpegin]⟩
    have h2 : splitColon (ascii "pegin" ++ 58 :: m.registry) =
        some (ascii "pegin", m.registry) := splitColon_iff.2 ⟨by decide, rfl⟩
    have heth' := parseEthAddress_iff.2 ⟨heth, rfl⟩
    have hreg' := parseEthAddress_iff.2 ⟨hreg, rfl⟩
    simp only [bip322ParsePopMessage, Option.bind_eq_bind, Option.bind_some, h0, h1, h2, heth',
      hreg', chainIdOk_iff.2 hchain, Bool.true_eq_false, if_false, ne_eq, not_true_eq_false,
      Option.pure_def]

/-- The fields of a well-formed message can be read off it. -/
theorem PopMessage.WellFormed.render_inj {m' : PopMessage} (h : m.WellFormed) (h' : m'.WellFormed)
    (hr : m.render = m'.render) : m = m' := by
  have hm := parsePopMessage_iff.2 ⟨h, rfl⟩
  have hm' := parsePopMessage_iff.2 ⟨h', hr⟩
  exact Option.some.inj (hm.symm.trans hm')

/-! ## The virtual transaction -/

/-- A message behind the hash of its tag, twice. -/
def taggedMessage (E : Env) (msg : Bytes) : Bytes :=
  let tagHash := (E.sha256 (ascii "BIP0322-signed-message")).toList
  tagHash ++ tagHash ++ msg

/-- The virtual transaction of a message and a key. -/
def toSpend (E : Env) (msg : Bytes) (key : Bytes32) : Bytes :=
  toSpendTx (E.sha256 (taggedMessage E msg)) key

/-- SHA-256 collides between two messages or between the two transactions they make. -/
def PopCollision (E : Env) (msg msg' : Bytes) (key key' : Bytes32) : Prop :=
  Collides E.sha256 (taggedMessage E msg) (taggedMessage E msg') ∨
    Collides E.sha256 (toSpend E msg key) (toSpend E msg' key') ∨
    Collides E.sha256 (E.sha256 (toSpend E msg key)).toList (E.sha256 (toSpend E msg' key')).toList

theorem toSpendTx_inj {t t' key key' : Bytes32} (h : toSpendTx t key = toSpendTx t' key') :
    t = t' ∧ key = key' := by
  simp only [toSpendTx, p2trSpk, List.append_assoc, List.append_cancel_left_eq, List.cons_append,
    List.cons.injEq, true_and] at h
  obtain ⟨ht, h⟩ := List.append_inj h (by simp)
  simp only [List.append_cancel_left_eq, List.nil_append, List.cons.injEq, true_and,
    List.append_cancel_right_eq] at h
  exact ⟨Buf.toList_inj.1 ht, Buf.toList_inj.1 h⟩

variable {E : Env}

/-- A txid determines the message and the key, up to a collision. -/
theorem toSpendTxid_inj {msg' : Bytes} {key key' : Bytes32}
    (h : bip322ComputeToSpendTxid E msg key = bip322ComputeToSpendTxid E msg' key') :
    msg = msg' ∧ key = key' ∨ PopCollision E msg msg' key key' := by
  have h : E.sha256 (E.sha256 (toSpend E msg key)).toList =
      E.sha256 (E.sha256 (toSpend E msg' key')).toList := h
  rcases comp_eq_or_collides (f := fun tx => (E.sha256 tx).toList) h with htx | ⟨hne, htx⟩ | hc
  · obtain ⟨hdigest, rfl⟩ := toSpendTx_inj htx
    rcases eq_or_collides (f := E.sha256) hdigest with hmsg | hc
    · exact Or.inl ⟨List.append_cancel_left hmsg, rfl⟩
    · exact Or.inr (Or.inl hc)
  · exact Or.inr (Or.inr (Or.inl ⟨hne, Buf.toList_inj.1 htx⟩))
  · exact Or.inr (Or.inr (Or.inr hc))

/-! ## What is shown -/

variable (E : Env) (st : SignPsbtState) (s : Session) (p : Psbt) (v : Volatile)

/-- `_validate_display_pop`, up to its screen. -/
def popScreen : V Screen := do
  ledgerAssert (st.txVersion = 0)
  check (¬(st.nInputs ≠ 1 ∨ st.nOutputs ≠ 1)) .incorrectData
  check (¬st.locktime ≠ 0) .incorrectData
  let msg ← getValue .global bip322PsbtPropPopMsgKey bip322PopMsgMaxLen
  check (¬(msg.length = 0 ∨ msg.length > bip322PopMsgMaxLen)) .incorrectData
  let pop ← orReject (bip322ParsePopMessage msg)
  let m ← getMap .input 1 0
  checkSighashType m [sighashDefault]
  let wu ← getValue m [psbtInWitnessUtxo] 43
  check (9 ≤ wu.length) .incorrectData
  check (ofLE (wu.take 8) = 0) .incorrectData
  check (wu.length = 9 + (wu.getD 8 0).toNat ∧ (wu.getD 8 0).toNat = p2trSpkLen ∧
    wu.getD 9 0 = op1 ∧ wu.getD 10 0 = opPushbytes32) .incorrectData
  let tweakedKey : Bytes32 := Buf.slice 32 wu 11
  let internalKey ← getExact m [psbtInTapInternalKey] 32
  let internalKey : Bytes32 := Buf.ofBytes 32 internalKey
  let root : Option Bytes ← askV (.value m [psbtInTapMerkleRoot] 32)
  check (root = none) .incorrectData
  let _ ← checkLeafKey E st m internalKey
  let (_, tweaked) ← orReject (E.tweakPubkey internalKey none)
  check (tweaked = tweakedKey) .incorrectData
  check (¬(s.ctx.state = .intentLoaded ∧ internalKey ≠ s.intent.depositorPk)) .incorrectData
  let address ← addressOf E (p2trSpk tweakedKey)
  let txid ← getPreviousTxid m
  check (txid = bip322ComputeToSpendTxid E msg tweakedKey) .incorrectData
  let vout ← getField m psbtInOutputIndex
  check (vout = 0) .incorrectData
  let seq ← getField m psbtInSequence
  check (seq = 0) .incorrectData
  let out ← getMap .output 1 0
  let raw8 ← getExact out [psbtOutAmount] 8
  check (ofLE raw8 = 0) .incorrectData
  let outScript ← getValue out [psbtOutScript] 2
  check (outScript = [opReturn]) .incorrectData
  return .pop pop.ethAddr pop.chainId pop.registry address

/-- The internal key of input `i`. -/
def Psbt.internalKey (i : ℕ) : Bytes32 := Buf.ofBytes 32 (p.get (.input i) psbtInTapInternalKey)

/-- The x-only output key of a BIP-86 key. -/
def bip86Key (key : Bytes32) : Option Bytes32 := (E.tweakPubkey key none).map (·.2)

/-- A PoP is accepted on the screen of this message and this address. -/
structure PopAccepted (m : PopMessage) (address : String) : Prop where
  accepted : ∃ v', (dispatch E st s).Via p.Allows v .pop v'
  shown : ∃ t, (dispatch E st s).Puts p.Allows v
    (.show (.pop m.ethAddr m.chainId m.registry address)) t

/-- The PSBT is bound to this message and to the address of this key. -/
structure PopBound (m : PopMessage) (address : String) (tweaked : Bytes32) : Prop where
  wellFormed : m.WellFormed
  message : p.globalMap.find bip322PsbtPropPopMsgKey = some m.render
  tweak : bip86Key E (p.internalKey 0) = some tweaked
  address : E.scriptAddress (p2trSpk tweaked) = some address
  txid : p.prevTxid 0 = bip322ComputeToSpendTxid E m.render tweaked

/-- The two txids collide, with the keys that the PSBTs are bound to. -/
def PopTxidCollision (p p' : Psbt) (m m' : PopMessage) : Prop := ∃ a a' k k',
  PopBound E p m a k ∧ PopBound E p' m' a' k' ∧ PopCollision E m.render m'.render k k'

/-- What a PoP shows and what it signs determine each other. -/
structure PopDetermined : Prop where
  grammar : ∀ msg m, bip322ParsePopMessage msg = some m ↔ m.WellFormed ∧ msg = m.render
  shown : ∀ st s p v v', (dispatch E st s).Via p.Allows v .pop v' → ∃ m address,
    PopAccepted E st s p v m address ∧ ∀ sc t, (dispatch E st s).Puts p.Allows v (.show sc) t →
      sc = .pop m.ethAddr m.chainId m.registry address
  bound : ∀ st s p v m address, PopAccepted E st s p v m address →
    ∃ tweaked, PopBound E p m address tweaked
  same : ∀ st s p v st' s' p' v' m address address', PopAccepted E st s p v m address →
    PopAccepted E st' s' p' v' m address' → p.internalKey 0 = p'.internalKey 0 →
      p.prevTxid 0 = p'.prevTxid 0
  different : ∀ st s p v st' s' p' v' m m' address address', PopAccepted E st s p v m address →
    PopAccepted E st' s' p' v' m' address' → m ≠ m' ∨ address ≠ address' →
      p.prevTxid 0 ≠ p'.prevTxid 0 ∨ PopTxidCollision E p p' m m'
  keys : ∀ st s p v st' s' p' v' m m' address address', PopAccepted E st s p v m address →
    PopAccepted E st' s' p' v' m' address' → p.internalKey 0 ≠ p'.internalKey 0 →
      p.prevTxid 0 ≠ p'.prevTxid 0 ∨ PopTxidCollision E p p' m m' ∨
        Collides (bip86Key E) (p.internalKey 0) (p'.internalKey 0)

variable {E st s p v} {sc : Screen} {v' : Volatile} {G : Allow}

theorem validateDisplayPop_eq :
    validateDisplayPop E st s = popScreen E st s >>= display := by
  simp only [validateDisplayPop, popScreen, Prog.bind_assoc]
  rfl

theorem unseen_getField {m : MapRef} {k : UInt8} : Asks Unseen (getField m k) := by
  refine asks_bind (asks_ask fun _ => nofun) ?_
  rintro (_ | _ | x)
  · exact asks_stop
  · exact asks_stop
  · exact asks_pure

theorem unseen_popScreen : Asks Unseen (popScreen E st s) := by
  refine asks_bind asks_require fun _ => asks_bind asks_require fun _ =>
    asks_bind asks_require fun _ => asks_bind unseen_getValue fun _ =>
    asks_bind asks_require fun _ => asks_bind asks_orStop fun _ => asks_bind unseen_getMap fun _ =>
    asks_bind unseen_checkSighashType fun _ => asks_bind unseen_getValue fun _ =>
    asks_bind asks_require fun _ => asks_bind asks_require fun _ => asks_bind asks_require fun _ => ?_
  refine asks_bind unseen_getExact fun _ => asks_bind (asks_ask fun _ => nofun) fun _ =>
    asks_bind asks_require fun _ => asks_bind unseen_checkLeafKey fun _ =>
    asks_bind asks_orStop fun _ => asks_bind asks_require fun _ => asks_bind asks_require fun _ =>
    asks_bind asks_orStop fun _ => ?_
  refine asks_bind (asks_bind unseen_getExact fun _ => asks_pure) fun _ =>
    asks_bind asks_require fun _ => asks_bind unseen_getField fun _ => asks_bind asks_require fun _ =>
    asks_bind unseen_getField fun _ => asks_bind asks_require fun _ => ?_
  exact asks_bind unseen_getMap fun _ => asks_bind unseen_getExact fun _ =>
    asks_bind asks_require fun _ => asks_bind unseen_getValue fun _ =>
    asks_bind asks_require fun _ => asks_pure

theorem popScreen_via (h : (popScreen E st s).Via p.Allows v sc v') : ∃ m address tweaked,
    PopBound E p m address tweaked ∧ sc = .pop m.ethAddr m.chainId m.registry address := by
  simp only [popScreen, ledgerAssert_bind, check_bind, getValue_bind, orReject_bind, getMap_bind,
    checkSighashType_bind, getExact_bind] at h
  obtain ⟨-, -, -, msg, hmsg, -, m, hparse, -, -, wu, -, -, -, -, ikey, hkey, -, h⟩ := h
  obtain ⟨_, -, h⟩ := via_ask_bind.1 h
  simp only [check_bind, getValue_bind, orReject_bind, getMap_bind, getExact_bind, checkLeafKey_bind,
    addressOf_bind, getPreviousTxid_bind, getField_bind, via_pure] at h
  obtain ⟨-, _, -, ⟨parity, tweaked⟩, htweak, rfl, -, address, haddr, txid, htxid, rfl, h⟩ := h
  obtain ⟨_, -, -, _, -, -, -, _, -, -, -, _, -, -, rfl, -⟩ := h
  obtain ⟨hwf, rfl⟩ := parsePopMessage_iff.1 hparse
  have hikey : p.internalKey 0 = Buf.ofBytes 32 ikey := by
    rw [Psbt.internalKey, ← Psbt.get_eq hkey]
    rfl
  exact ⟨m, address, _, ⟨hwf, (hmsg _ rfl).1, by rw [hikey, bip86Key, htweak]; rfl, haddr,
    Psbt.prevTxid_eq htxid⟩, rfl⟩

/-- A PoP is dispatched on its version alone. -/
theorem dispatch_pop (h : (dispatch E st s).Via p.Allows v .pop v') :
    dispatch E st s = through .pop (validateDisplayPop E st s) ∧
      (validateDisplayPop E st s).Via p.Allows v () v' := by
  have hver : st.txVersion = 0 := by
    cases dispatch_validated h with
    | pop hv =>
      simp only [validateDisplayPop, ledgerAssert_bind] at hv
      exact hv.1
  have hd : dispatch E st s = through .pop (validateDisplayPop E st s) := by
    rw [dispatch, if_pos hver]
  exact ⟨hd, (through_via (hd ▸ h)).2⟩

/-- Every screen of a PoP is that of a message and an address that the PSBT is bound to. -/
theorem dispatch_pop_shows (h : (dispatch E st s).Via p.Allows v .pop v')
    {t : Volatile} (hp : (dispatch E st s).Puts p.Allows v (.show sc) t) :
    ∃ m address tweaked, PopBound E p m address tweaked ∧
      sc = .pop m.ethAddr m.chainId m.registry address := by
  rw [(dispatch_pop h).1] at hp
  have hp := puts_through hp
  rw [validateDisplayPop_eq] at hp
  obtain ⟨sc', _, hsc, hshow⟩ := unseen_popScreen.puts_bind not_unseen hp
  obtain rfl := ReadAsk.show.inj (puts_display hshow)
  exact popScreen_via hsc

/-- A PSBT is bound to one message, one address and one key. -/
theorem PopBound.unique {m m' : PopMessage} {a a' : String} {k k' : Bytes32}
    (h : PopBound E p m a k) (h' : PopBound E p m' a' k') : m = m' ∧ a = a' ∧ k = k' := by
  have hm := h.wellFormed.render_inj h'.wellFormed
    (Option.some.inj (h.message.symm.trans h'.message))
  obtain rfl := Option.some.inj (h.tweak.symm.trans h'.tweak)
  exact ⟨hm, Option.some.inj (h.address.symm.trans h'.address), rfl⟩

theorem PopMessage.screen_inj {m m' : PopMessage} {a a' : String}
    (h : Screen.pop m.ethAddr m.chainId m.registry a = .pop m'.ethAddr m'.chainId m'.registry a') :
    m = m' ∧ a = a' := by
  cases m
  cases m'
  obtain ⟨rfl, rfl, rfl, rfl⟩ := Screen.pop.inj h
  exact ⟨rfl, rfl⟩

theorem PopAccepted.bound {m : PopMessage} {a : String} (h : PopAccepted E st s p v m a) :
    ∃ tweaked, PopBound E p m a tweaked := by
  obtain ⟨⟨_, hvia⟩, _, hp⟩ := h
  obtain ⟨m', a', tweaked, hb, hsc⟩ := dispatch_pop_shows hvia hp
  obtain ⟨rfl, rfl⟩ := PopMessage.screen_inj hsc
  exact ⟨tweaked, hb⟩

/-- An accepted PoP has shown one screen. -/
theorem dispatch_pop_accepted (h : (dispatch E st s).Via p.Allows v .pop v') : ∃ m address,
    PopAccepted E st s p v m address ∧ ∀ sc t, (dispatch E st s).Puts p.Allows v (.show sc) t →
      sc = .pop m.ethAddr m.chainId m.registry address := by
  obtain ⟨hd, hv⟩ := dispatch_pop h
  rw [validateDisplayPop_eq] at hv
  obtain ⟨_, v₁, hscreen, -⟩ := via_bind.1 hv
  obtain ⟨m, address, tweaked, hb, rfl⟩ := popScreen_via hscreen
  refine ⟨m, address, ⟨⟨v', h⟩, v₁, ?_⟩, fun sc t hp => ?_⟩
  · rw [hd, validateDisplayPop_eq]
    have hshow : (display (.pop m.ethAddr m.chainId m.registry address)).Puts p.Allows v₁ _ v₁ :=
      puts_bind.2 (.inl (puts_ask.2 ⟨rfl, rfl⟩))
    exact puts_bind.2 (.inl (puts_bind.2 (.inr ⟨_, _, hscreen, hshow⟩)))
  · obtain ⟨m', a', _, hb', rfl⟩ := dispatch_pop_shows h hp
    obtain ⟨rfl, rfl, -⟩ := hb.unique hb'
    rfl

/-- Equal txids: equal screens and keys, or a collision. -/
theorem PopBound.txid_inj {p' : Psbt} {m m' : PopMessage} {a a' : String} {k k' : Bytes32}
    (h : PopBound E p m a k) (h' : PopBound E p' m' a' k') (ht : p.prevTxid 0 = p'.prevTxid 0) :
    m = m' ∧ a = a' ∧ k = k' ∨ PopTxidCollision E p p' m m' := by
  rw [h.txid, h'.txid] at ht
  rcases toSpendTxid_inj ht with ⟨hmsg, rfl⟩ | hc
  · exact Or.inl ⟨h.wellFormed.render_inj h'.wellFormed hmsg,
      Option.some.inj (h.address.symm.trans h'.address), rfl⟩
  · exact Or.inr ⟨a, a', k, k', h, h', hc⟩

theorem pop_determined (E : Env) : PopDetermined E where
  grammar _ _ := parsePopMessage_iff
  shown _ _ _ _ _ h := dispatch_pop_accepted h
  bound _ _ _ _ _ _ h := h.bound
  same st s p v st' s' p' v' m a a' h h' hkey := by
    obtain ⟨k, hb⟩ := h.bound
    obtain ⟨k', hb'⟩ := h'.bound
    have hk : k = k' := Option.some.inj (hb.tweak.symm.trans (hkey ▸ hb'.tweak))
    rw [hb.txid, hb'.txid, hk]
  different st s p v st' s' p' v' m m' a a' h h' hne := by
    obtain ⟨k, hb⟩ := h.bound
    obtain ⟨k', hb'⟩ := h'.bound
    by_cases ht : p.prevTxid 0 = p'.prevTxid 0
    · rcases hb.txid_inj hb' ht with ⟨hm, ha, -⟩ | hc
      · exact absurd hne (not_or.2 ⟨not_not.2 hm, not_not.2 ha⟩)
      · exact Or.inr hc
    · exact Or.inl ht
  keys st s p v st' s' p' v' m m' a a' h h' hne := by
    obtain ⟨k, hb⟩ := h.bound
    obtain ⟨k', hb'⟩ := h'.bound
    by_cases ht : p.prevTxid 0 = p'.prevTxid 0
    · rcases hb.txid_inj hb' ht with ⟨-, -, rfl⟩ | hc
      · exact Or.inr (Or.inr ⟨hne, hb.tweak.trans hb'.tweak.symm⟩)
      · exact Or.inr (Or.inl hc)
    · exact Or.inl ht

namespace Signet

/-- A message, with an address made of one digit. -/
def popMessage : PopMessage where
  ethAddr := ascii "0x" ++ List.replicate 40 97
  chainId := ascii "1"
  registry := ascii "0x" ++ List.replicate 40 98

/-- The proof of possession of the depositor's key. -/
def pop : Psbt :=
  ⟨[(bip322PsbtPropPopMsgKey, popMessage.render)],
    [utxo 0 (spk depositorOut) :: ([psbtInTapInternalKey], (Buf.be 32 depositorKey).toList) ::
      depositorRecord :: outpoint
        (ofBE (bip322ComputeToSpendTxid env popMessage.render (.be 32 depositorOut.2)).toList) 0 0],
    [output 0 [opReturn]]⟩

def popState : SignPsbtState := { parsed pop 0 0 with txVersion := 0 }

example : ((dispatch env popState Device.boot.session).eval pop.serve Device.boot.volatile).1 =
    .ok .pop := by decide +kernel

end Signet

end BabylonVault
