/-
  The application as a transition system.

  * `Request`, `handle`: an APDU, and what the application does with it.
  * `Exchange`: what a request looks like from outside, the host's answers included.
  * `Step`: one request from start to end, or up to a call at which the host
    walks away; `Reach` is any number of them, from boot.
-/
import BabylonVault.Approve
import BabylonVault.Derive
import BabylonVault.Sign
import BabylonVault.Lib.Run

namespace BabylonVault

/-- The commands that reach the vault. -/
inductive Request
  | derive (p1 p2 : UInt8) (data : Bytes)
  | approve (p1 p2 : UInt8) (data : Bytes)
  | getState (p1 p2 : UInt8) (data : Bytes)
  | signPsbt (st : SignPsbtState)

variable (E : Env)

/-- SIGN_PSBT: the base app signs the wallet inputs between validator and signer. -/
def signPsbt (st : SignPsbtState) : M Unit := do
  let _ ← validateAndDisplayTransaction E st
  let failed : Bool ← askM .walletInputs
  Prog.require (failed = false) .callee
  signCustomInputs E st

/-- What the application does with a request; the response data. -/
def handle : Request → M Bytes
  | .derive p1 p2 data => handlerDeriveContextHash E p1 p2 data
  | .approve p1 p2 data => do
    handlerApproveVaultIntent E p1 p2 data
    return []
  | .getState p1 p2 data => handlerGetVaultState p1 p2 data
  | .signPsbt st => do
    signPsbt E st
    return []

/-- The signature a call releases. -/
def DevAsk.signature : DevAsk → Option (SigKind × SigRequest)
  | .yield kind r => some (kind, r)
  | _ => none

/-- How a request ends: with its result, or at a call at which the host walks away. -/
inductive Ending
  | answered (r : Except Stop Bytes)
  | left (q : DevAsk)

/-- A request with the calls that were answered, their answers, and its end. -/
structure Exchange where
  request : Request
  trace : List devIface.Event
  ending : Ending

namespace Exchange
variable (x : Exchange)

/-- The calls it made, with the one at which the host walked away. -/
def asked : List DevAsk :=
  match x.ending with
  | .answered _ => x.trace.map (·.1)
  | .left q => x.trace.map (·.1) ++ [q]

/-- The result; `none` when the host walked away. -/
def result : Option (Except Stop Bytes) :=
  match x.ending with
  | .answered r => some r
  | .left _ => none

/-- The signatures released to the host. -/
def released : List (SigKind × SigRequest) := x.asked.filterMap DevAsk.signature

/-- The request succeeded. -/
def Succeeds : Prop := ∃ data, x.result = some (.ok data)

end Exchange

/-- One request. -/
inductive Step : Device → Exchange → Device → Prop
  | done {req d tr r d'} : (handle E req d).Path tr (r, d') → Step d ⟨req, tr, .answered r⟩ d'
  | cut {req d tr q d'} : (handle E req d).Cut tr q d' → q.hostBound = true →
      Step d ⟨req, tr, .left q⟩ d'

/-- The states of the application, with the requests that led there. -/
abbrev Reach (ls : List Exchange) (d : Device) : Prop := Run (Step E) Device.boot ls d

variable {E}

/-- What holds of a request's calls and end, whatever the answers, holds of its step. -/
theorem Step.of_wp {C : List DevAsk → DevAsk → Device → Prop}
    {Q : List DevAsk → Except Stop Bytes → Device → Prop} {P : Exchange → Device → Prop}
    {d d' : Device} {x : Exchange} (h : Step E d x d')
    (hwp : (handle E x.request).wp C Q [] d)
    (hQ : ∀ tr r d', Q (tr.map (·.1)) r d' → P ⟨x.request, tr, .answered r⟩ d')
    (hC : ∀ tr q d', q.hostBound = true → C (tr.map (·.1)) q d' → P ⟨x.request, tr, .left q⟩ d') :
    P x d' := by
  cases h with
  | done hp =>
    have hend := Course.wp_path hwp hp
    rw [List.nil_append] at hend
    exact hQ _ _ _ hend
  | cut hc hq =>
    have hcut := Course.wp_cut hwp hc
    rw [List.nil_append] at hcut
    exact hC _ _ _ hq hcut

end BabylonVault
