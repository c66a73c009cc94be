/-
  Runs by evaluation.

  * `play`: the requests of a host, each with the answers to the calls it makes; every
    play is a run (`Run.play`).
  * `Psbt.serve`: the answers of a host that serves the PSBT it has committed to.
  * `Env.ofTables`: an environment that computes its hashes and looks the curve up.
  * `intentScalars`, `intentGroups`, `intentKeys`: the payloads of an intent.
  * `Signet`: a device with a seed of its own, its intent, the load of it, and PSBTs.
-/
import BabylonVault.System
import BabylonVault.Entries
import BabylonVault.Lib.Sha256
import BabylonVault.Lib.Tx

namespace BabylonVault
open Bytes

/-! ## Plays -/

/-- An answer to every call. -/
abbrev Answers := ∀ q, devIface.Ans q

variable {E : Env}

/-- A request under given answers. -/
def answer (E : Env) (req : Request) (ans : Answers) (d : Device) : Exchange × Device :=
  (⟨req, ((handle E req).asked ans d).map fun q => ⟨q, ans q⟩,
    .answered ((handle E req).eval ans d).1⟩, ((handle E req).eval ans d).2)

theorem Step.answer (req : Request) (ans : Answers) (d : Device) :
    Step E d (answer E req ans d).1 (answer E req ans d).2 :=
  .done (Course.path_eval ans (handle E req d))

theorem answer_asked (req : Request) (ans : Answers) (d : Device) :
    (answer E req ans d).1.asked = (handle E req).asked ans d := by
  simp only [answer, Exchange.asked, List.map_map]
  exact List.map_id _

/-- Requests under given answers, one after the other. -/
def play (E : Env) : List (Request × Answers) → Device → List Exchange × Device
  | [], d => ([], d)
  | (req, ans) :: rs, d =>
    let r := answer E req ans d
    let q := play E rs r.2
    (r.1 :: q.1, q.2)

/-- Every play is a run. -/
theorem Run.play : ∀ (rs : List (Request × Answers)) (d : Device),
    Run (Step E) d (play E rs d).1 (play E rs d).2
  | [], _ => .nil
  | (req, ans) :: rs, d => (Run.play rs _).cons (.answer req ans d)

/-! ## A host that serves its PSBT -/

/-- The answers of a host that serves all of the PSBT, a value in one piece, and of a
    user who approves. -/
def Psbt.serve (p : Psbt) : ∀ q, readIface.Ans q
  | .map side size idx => decide (size = (p.side side).length ∧ idx < size)
  | .value m key maxLen => ((p.map m).find key).filter (·.length ≤ maxLen)
  | .field m key => (p.map m).field key
  | .keys side size idx =>
    if size = (p.side side).length ∧ idx < size then ((p.map (side.map idx)).map (·.1), true)
    else ([], false)
  | .stream m i =>
    match (p.map m)[i]? with
    | some kv => ⟨some kv.2.length, [kv.2], some kv.2.length⟩
    | none => ⟨none, [], none⟩
  | .show _ => true

theorem Psbt.serve_allows (p : Psbt) (q : ReadAsk) : p.Allows q (p.serve q) := by
  cases q with
  | map side size idx => exact fun h => of_decide_eq_true h
  | value m key maxLen =>
    intro b hb
    obtain ⟨hf, hl⟩ := Option.filter_eq_some_iff.1 hb
    exact ⟨hf, of_decide_eq_true hl⟩
  | field m key => exact .inr rfl
  | keys side size idx =>
    intro h
    simp only [serve] at h ⊢
    split_ifs at h ⊢ with hs
    exact ⟨hs.1, hs.2, rfl⟩
  | stream m i =>
    intro n h
    simp only [serve] at h ⊢
    rcases hk : (p.map m)[i]? with _ | kv <;> simp only [hk, reduceCtorEq, Option.some.injEq] at h
    exact ⟨kv, rfl, h, congrArg some h, List.append_nil _⟩
  | «show» s => trivial

/-- The answers to a handler: nothing fails, and the base app's sighash is `sighash`. -/
def Psbt.answers (p : Psbt) (sighash : Bytes32) : Answers
  | .read q => p.serve q
  | .scratch => .zero
  | .fault => false
  | .walletInputs => false
  | .sighash .. => some sighash
  | .yield .. => true

theorem Psbt.answers_allows (p : Psbt) (sighash : Bytes32) (q : DevAsk) :
    p.AllowsDev q (p.answers sighash q) := by
  cases q with
  | read q => exact p.serve_allows q
  | scratch | fault | walletInputs | sighash | yield => trivial

/-! ## An environment of tables -/

/-- The branch hash of BIP-341. -/
def tapBranch (a b : Bytes32) : Bytes32 :=
  Sha256.tagged (ascii "TapBranch")
    (if memcmp a.toList b.toList = .gt then b.toList ++ a.toList else a.toList ++ b.toList)

/-- An environment whose hashes are computed and whose curve is a table: tweaked keys
    by key and merkle root, points by x-coordinate, public keys by path, and addresses
    by script. -/
def Env.ofTables (net : Network) (privkey : ℕ) (tweaks : List ((ℕ × Option ℕ) × UInt8 × ℕ))
    (points : List ℕ) (pubkeys : List (List UInt32 × ℕ)) (addresses : List (ℕ × String)) : Env where
  network := net
  sha256 := Sha256.hash
  hmacSha256 := Sha256.hmac
  vaultPrivkey := Buf.be 32 privkey
  hkdfExtract ikm salt := Sha256.hmac salt ikm
  tapleafHash := Sha256.tagged (ascii "TapLeaf")
  combineTaptreeHashes := tapBranch
  tweakPubkey key root :=
    (tweaks.lookup (ofBE key.toList, root.map fun r => ofBE r.toList)).map fun r =>
      (r.1, Buf.be 32 r.2)
  liftX key := points.contains (ofBE key.toList)
  pubkeyAt path := (pubkeys.lookup path).map (Buf.be 33)
  scriptAddress spk := addresses.lookup (ofBE spk)
  maxOutputSpkLen := 83
  hashUpdateVarint := compactSize

/-! ## The payloads of an intent -/

/-- The payload of P1=0x00. -/
def intentScalars (it : VaultIntent) : Bytes :=
  numEntry tagStructureType 1 it.structureType.toNat ++ numEntry tagVersion 1 it.version.toNat ++
  numEntry tagCoinType 4 it.coinType.toNat ++ entry tagPrepeginTxid it.prepeginTxid.toList ++
  entry tagDepositorDerivationPath
    (it.depositorPath.toList.flatMap fun x => (leBytes 4 x.toNat).reverse) ++
  numEntry tagBaseFeeRate 8 it.baseFeeRate.toNat ++
  numEntry tagPeginCsvTimelock 4 it.peginCsvTimelock ++
  numEntry tagPayoutTimelock 4 it.payoutTimelock ++
  numEntry tagHtlcRefundTimelock 4 it.htlcRefundTimelock ++
  numEntry tagKeeperCount 1 it.keeperCount ++ numEntry tagChallengerCount 1 it.challengerCount ++
  numEntry tagVaultCount 1 it.vaultCount ++ numEntry tagPrepeginMaxFee 8 it.prepeginMaxFee.toNat

/-- The payload of P1=0x01, all groups at once. -/
def intentGroups (it : VaultIntent) : Bytes :=
  (it.groups.upto it.vaultCount).flatMap fun grp =>
    numEntry tagGrpHtlcVout 1 grp.htlcVout.toNat ++
    entry tagGrpVaultProviderPk grp.vaultProviderPk.toList ++
    numEntry tagGrpVaultAmount 8 grp.vaultAmount.toNat ++
    numEntry tagGrpCommissionFee 8 grp.commissionFee.toNat ++
    numEntry tagGrpDepositorClaimValue 8 grp.depositorClaimValue.toNat ++
    numEntry tagGrpPeginMaxFee 8 grp.peginMaxFee.toNat

/-- The payload of P1=0x02, all keys at once. -/
def intentKeys (it : VaultIntent) : Bytes :=
  (it.keepers.flatMap fun k => entry tagKeeperPk k.toList) ++
    it.challengers.flatMap fun k => entry tagChallengerPk k.toList

/-! ## A device on signet -/

namespace Signet

/-- The fingerprint of the seed's master key. -/
def masterFingerprint : UInt32 := 0x73C5DA0A

/-- `m/86'/1'/0'/0/0`. -/
def path : List.Vector UInt32 depositorPathLen :=
  ⟨[86 ||| hardened, 1 ||| hardened, 0 ||| hardened, 0, 0], rfl⟩

/-- The keys of the device and of the other parties. -/
def depositorKey : ℕ := 0x55355ca83c973f1d97ce0e3843c85d78905af16b4dc531bc488e57212d230116
def providerKey : ℕ := 0x3b57ee345699d1308ab014b8fb5cdb8e5cd7d4a057e9019bdd9feffc8eeaefc6
def otherProviderKey : ℕ := 0xdc2268d2f96215c3158b246747fa2994f605b59fe28aecaac3f5fd6e4094640e
def keeperKey : ℕ := 0x556b6364690ebee2eee44b332055c678786479fd29ee44a56c1d4a4ef3db5f11
def challengerKey : ℕ := 0x231ebac8540c965b9358064f9b697febeb21fbeb991abd1dc1dc6b3e7ae810e2

/-- The taproot outputs at hand: parity and output key. -/
def depositorOut : UInt8 × ℕ :=
  (1, 0x3b82b2b2a9185315da6f80da5f06d0440d8a5e1457fa93387c2d919c86ec8786)
def htlcOut : UInt8 × ℕ :=
  (1, 0xcf98fb15b966edda2f208d894ba8ebfc6a82b0f2e40537711350b7d6ec494c35)
def otherHtlcOut : UInt8 × ℕ :=
  (0, 0x5fdced6103a1af01d0e5377b4691c95f22e35f37a15a47513691774afc998d58)
def vaultOut : UInt8 × ℕ :=
  (1, 0x6a4728a269db1e8c1c68c1384c3f12e2ab833d57b65ff7a3fa2c1ffc3cb0c811)
def otherVaultOut : UInt8 × ℕ :=
  (1, 0xf4da6633522bf85c35c88e105b5ab0f22c81d2c0b4b8664dc788382970c49632)
def claimOut : UInt8 × ℕ :=
  (0, 0xe55f8ab02f3066b7fb09a2c0eee77bb545853b8fe4d96daffb5c678c54436e2d)
def payoutOut : UInt8 × ℕ :=
  (0, 0xf01a61be331bd3749f7e12b47f6310de4628d939207de52f5b988a7bfdc4bdf4)
def wcOut : UInt8 × ℕ :=
  (1, 0x1b9bd0b3b3bb98d4dfa6364382e820d22b7143b9c52cb681ef92616a67ac7e42)
def assertOut : UInt8 × ℕ :=
  (0, 0x01c719efb5441051d9f5a07a32d0ec831e31b026c4daf405b2641196ee1deb44)
def looseAssertOut : UInt8 × ℕ :=
  (0, 0x6b61c321c3fcddb6e1f89018b62512475fe2680ce706edcb74275bcbd8ce8539)
def finalizeOut : UInt8 × ℕ :=
  (1, 0x8ed22b9642b6c37705bfa7a9e687c5b5249e8ed93183e81239437b5b09ba365d)

/-- These outputs, by internal key and merkle root. -/
def tweaks : List ((ℕ × Option ℕ) × UInt8 × ℕ) :=
  let nums := ofBE vaultNumsXonly.toList
  [((depositorKey, none), depositorOut),
   ((nums, some 0xcce12720572c69f22feef11ea0a75ef56f5c29d5d626d415dfbfcf6e0f133acb), htlcOut),
   ((nums, some 0xd3d1fdcbd478208049ef20c19f513e9f5e7fabe8d75ea13206bbff9193be8e26), otherHtlcOut),
   ((nums, some 0xfebde548aa8dc4e50f99cfdbfb05ccd26fc3a4cc99db05e5a18b860554bba6b6), vaultOut),
   ((nums, some 0x1047c85618bcd937bd02b9aeb9dc05b2c25b6c108de86f9d039899593e9bf4dd), otherVaultOut),
   ((nums, some 0x9b9d92a717ebeba858f75182936f0da5a7aecc434b0eebb2dc8a6af5409422cc), claimOut),
   ((nums, some 0xf791ac6cc4f0350a5c4ef4e12b610d2758759fd8bb56508117ecabac6b7a09ff), payoutOut),
   ((nums, some 0x23081d6b2db415e1b63d0e1b75ad0128ef73376af96b7ea51c656ddc1a9f244c), wcOut),
   ((nums, some 0xd138bad889d24600375c00caefe91f6322224192868bcb61049383d24b78af87), assertOut),
   ((nums, some 0x66cb6f5488bbd34a349536f9e908edd4a8de0b13cc9a585d9bc6831809c1e5b5), looseAssertOut),
   ((nums, some 0x67d9272e705e1f51425cad1d8142beffa5589294e7e5e7314a8ca66632c4af24), finalizeOut)]

/-- The scriptPubKey of one. -/
def spk (out : UInt8 × ℕ) : Bytes := p2trSpk (.be 32 out.2)

def env : Env := .ofTables .signet
  0x391cdb922097ec9c96fc13cadb01d5745ccf31f5dbec3a38103440714779ec85 tweaks
  [depositorKey, providerKey, otherProviderKey, keeperKey, challengerKey]
  [(path.toList, 0x0255355ca83c973f1d97ce0e3843c85d78905af16b4dc531bc488e57212d230116)]
  [(ofBE (spk depositorOut),
    "tb1p8wpt9v4frpf3tkn0srd97pksgsxc5hs52lafxwru9kgeephvs7rqlqt9zj")]

/-- The txid of the Pre-PegIn. -/
def prepeginTxid : Bytes32 :=
  .be 32 0x4da7a716f3b4aed6ca368e1fc114bb435006c17783d3a2194d8f273806af3889

/-- One vault provider's group. -/
def group (vout : UInt8) (provider : ℕ) (amount : UInt64) : VaultGroup :=
  ⟨vout, .be 32 provider, amount, 1000, 2000, 5000⟩

/-- The intent over some groups, with one keeper and one challenger. -/
def intentOf (groups : List VaultGroup) : VaultIntent :=
  { structureType := 1, version := 1, coinType := 1, peginCsvTimelock := 144,
    htlcRefundTimelock := 1000, payoutTimelock := 200, keeperCount := 1, challengerCount := 1,
    vaultCount := groups.length, depositorPath := path, depositorPk := .be 32 depositorKey,
    baseFeeRate := 9, prepeginTxid := prepeginTxid, prepeginMaxFee := 10000,
    groups := .ofFn fun i => groups.getD i default
    keeperPks := .ofFn fun i => if i = 0 then .be 32 keeperKey else default
    challengerPks := .ofFn fun i => if i = 0 then .be 32 challengerKey else default }

/-- Two vaults. -/
def intent : VaultIntent := intentOf [group 0 providerKey 100000, group 1 otherProviderKey 200000]

/-- The derivation of the session's root. -/
def derivation : Bytes :=
  let name := ascii "babylon-vault"
  let context : Bytes := (List.range 32).map fun i => UInt8.ofNat (i + 1)
  [UInt8.ofNat name.length] ++ name ++ [5] ++
    (path.toList.flatMap fun x => (leBytes 4 x.toNat).reverse) ++ [0, 32] ++ context

/-- The answers where no PSBT is at hand. -/
def quiet : Answers := Psbt.answers ⟨[], [], []⟩ (Buf.zero 32)

/-- A derivation and the load of an intent. -/
def load (it : VaultIntent) : List (Request × Answers) :=
  [(.derive 0 1 derivation, quiet), (.approve 0 0 (intentScalars it), quiet),
   (.approve 1 0 (intentGroups it), quiet), (.approve 2 0 (intentKeys it), quiet)]

/-- The device once the intent is loaded. -/
def loaded (it : VaultIntent) : Device := (play env (load it) Device.boot).2

theorem reach_loaded (it : VaultIntent) :
    Reach env (play env (load it) Device.boot).1 (loaded it) := Run.play _ _

/-- The hashlocks of the two vaults, and the auth anchor. -/
def hashlock : Bytes32 := .be 32 0x0b9075b71e36588caa86f7aa95583c54515977877832b6a99470e00ddc06e213
def otherHashlock : Bytes32 :=
  .be 32 0x278bfdf2d86c7422d2faca9b0271ac5b494173165921fbfbf702d2def2d81704
def authAnchor : Bytes32 :=
  .be 32 0x503c8afcd5c12c10f16df21a11afa86fab38d031b67300d61aaa7b3bf34505ec

/-- A device that holds an intent with these hashlocks and this fingerprint. -/
def holding (it : VaultIntent) (hashlocks : List Bytes32) (intentFp : ℕ) : Device :=
  { ctx := { VaultContext.zero with
      htlcHashlock := .ofFn fun i => hashlocks.getD i default, authAnchorHash := authAnchor,
      state := .intentLoaded, derivationPath := path.toList, appName := ascii "babylon-vault",
      contextFp := .be 4 0xc0c5d5a5, intentFp := .be 4 intentFp },
    intent := it, approve := .zero, streaming := ⟨false, 1, 32, 32⟩, deriveCtx := .zero,
    tr := { Transient.zero with vaultGroupIndex := it.vaultCount }, leaf := .zero }

theorem loaded_intent : loaded intent = holding intent [hashlock, otherHashlock] 0x50b02bcd := by
  decide +kernel

theorem loaded_state : (loaded intent).ctx.state = .intentLoaded := by rw [loaded_intent]; rfl

/-! ## The fields of a PSBT -/

/-- An outpoint and a sequence. -/
def outpoint (txid vout : ℕ) (sequence : UInt32) : PsbtMap :=
  [([psbtInPreviousTxid], (Buf.be 32 txid).toList), ([psbtInOutputIndex], leBytes 4 vout),
   ([psbtInSequence], leBytes 4 sequence.toNat)]

/-- A witness UTXO. -/
def utxo (value : ℕ) (spk : Bytes) : Bytes × Bytes :=
  ([psbtInWitnessUtxo], leBytes 8 value ++ [UInt8.ofNat spk.length] ++ spk)

/-- A tap leaf behind its control block. -/
def tapLeaf (out : UInt8 × ℕ) (steps leaf : Bytes) : Bytes × Bytes :=
  (psbtInTapLeafScript :: (tapscriptLeafVersion ||| out.1) :: (vaultNumsXonly.toList ++ steps),
    leaf ++ [tapscriptLeafVersion])

/-- An input that spends a taproot output through its only leaf. -/
def spend (value : ℕ) (out : UInt8 × ℕ) (leaf : Bytes) (txid : ℕ) (sequence : UInt32) : PsbtMap :=
  utxo value (spk out) :: outpoint txid 0 sequence ++ [tapLeaf out [] leaf]

/-- The BIP-32 record of the depositor's key. -/
def depositorRecord : Bytes × Bytes :=
  (psbtInTapBip32Derivation :: (Buf.be 32 depositorKey).toList,
    0 :: (leBytes 4 masterFingerprint.toNat).reverse ++
      path.toList.flatMap fun x => leBytes 4 x.toNat)

/-- An output. -/
def output (value : ℕ) (spk : Bytes) : PsbtMap :=
  [([psbtOutAmount], leBytes 8 value), ([psbtOutScript], spk)]

/-- What the base app parses of a PSBT that no wallet policy covers. -/
def parsed (p : Psbt) (inputsTotal outputsTotal : UInt64) : SignPsbtState :=
  { nInputs := p.inputs.length, nOutputs := p.outputs.length, txVersion := 2, locktime := 0,
    masterKeyFingerprint := masterFingerprint, hasNoWalletPolicy := true, policyMap := none,
    accountIsDefault := false, accountBip44Purpose := 0, accountBip44Account := 0,
    inputsTotalAmount := inputsTotal, outputsTotalAmount := outputsTotal,
    internalInputs := fun _ => false, internalOutputs := fun _ => false }

/-! ## The transactions of `intent` -/

/-- The Pre-PegIn. -/
def prepegin : Psbt :=
  ⟨[], [outpoint 0x2514e1475addffb378fdb07e9a1092176c09dbfbd129ebcaacd0099818d2534c 0 sequenceFinal,
      outpoint 0xe4af7b58e18ec523043dae7d0dafa315169eeabb516c759012ba705c2b184f2a 3 sequenceFinal],
    [output 103000 (spk htlcOut), output 203000 (spk otherHtlcOut),
     output 0 (authAnchorSpk authAnchor), output 546 (spk depositorOut),
     output 50000 (spk depositorOut)]⟩

/-- What the base app parses of it, under a BIP-86 wallet policy. -/
def prepeginState : SignPsbtState :=
  { parsed prepegin 360000 356546 with
    hasNoWalletPolicy := false, policyMap := some ⟨false, 1⟩, accountIsDefault := true,
    accountBip44Purpose := 86, accountBip44Account := 0, internalInputs := fun _ => true }

/-- The PegIn of the first vault. -/
def pegin : Psbt :=
  let leaf0 := (vaultBuildHtlcLeaf0 intent 0 hashlock scriptMaxLen).getD []
  let hash1 : Bytes32 := .be 32 0xe2018a8945d5a6c6fb4293917f26b10c6b3889af1372cf6bbcbe39de25bf7eaf
  let root : Bytes32 := .be 32 0xcce12720572c69f22feef11ea0a75ef56f5c29d5d626d415dfbfcf6e0f133acb
  ⟨[], [utxo 103000 (spk htlcOut) ::
      outpoint 0x4da7a716f3b4aed6ca368e1fc114bb435006c17783d3a2194d8f273806af3889 0 peginTxSequence ++
      [tapLeaf htlcOut hash1.toList leaf0, ([psbtInTapInternalKey], vaultNumsXonly.toList),
       ([psbtInTapMerkleRoot], root.toList)]],
    [output 100000 (spk vaultOut), output 2000 (spk claimOut),
     output p2aAnchorValue.toNat p2aScript]⟩

/-- What the base app parses of it. -/
def peginState : SignPsbtState := { parsed pegin 103000 102240 with txVersion := peginTxVersion }

/-- A Payout of the first vault of `it` to its provider. -/
def payout (it : VaultIntent) (peginTxid assert0 : ℕ) (outs : List (ℕ × Bytes)) : Psbt :=
  let vault := (vaultBuildVaultUtxoLeaf it 0 scriptMaxLen).getD []
  let leaf := (vaultBuildAssert0PayoutLeaf it 0 0 scriptMaxLen).getD []
  ⟨[], [spend (it.group 0).vaultAmount.toNat vaultOut vault peginTxid
        (UInt32.ofNat it.peginCsvTimelock),
      spend assert0 payoutOut leaf
        0x25450689bdd44d014020b238021b313431cb1f7a86f24e29cecbd1e442edae0a
        (UInt32.ofNat it.payoutTimelock)],
    outs.map fun o => output o.1 o.2⟩

/-- The Payout of the first vault of `intent`. -/
def payoutSmall : Psbt :=
  payout intent 0x960f04e36faee8da59f0459d1b3580ee22df9462f545b68060f35cd46ef032a3 5000
    [(98000, spk depositorOut), (1000, p2trSpk (.be 32 providerKey)),
     (546, p2trSpk (.be 32 providerKey))]

/-- A host has the PegIn signed. -/
def signPegin : Request × Answers := (.signPsbt peginState, pegin.answers (Buf.zero 32))

end Signet

end BabylonVault
