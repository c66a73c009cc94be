import BabylonVault.Lib.Bytes
import BabylonVault.Lib.Buf
import BabylonVault.Lib.Mem
import BabylonVault.Lib.Prog
import BabylonVault.Lib.Run
import BabylonVault.Lib.Review
import BabylonVault.Lib.Sim
import BabylonVault.Lib.Records
import BabylonVault.Lib.Opcodes
import BabylonVault.Lib.Numbers
import BabylonVault.Lib.Tapscript
import BabylonVault.Lib.Policy
import BabylonVault.Lib.Sha256
import BabylonVault.Lib.Collision
import BabylonVault.Lib.ScriptTree
import BabylonVault.Lib.Tx
import BabylonVault.Constants
import BabylonVault.Intent
import BabylonVault.Env
import BabylonVault.Display
import BabylonVault.Script
import BabylonVault.Tlv
import BabylonVault.Context
import BabylonVault.Approve
import BabylonVault.Derive
import BabylonVault.Leaf
import BabylonVault.Helpers
import BabylonVault.Validate.Common
import BabylonVault.Validate.Prepegin
import BabylonVault.Validate.Pegin
import BabylonVault.Validate.Payout
import BabylonVault.Validate.Standalone
import BabylonVault.Validate.Pop
import BabylonVault.Validate.Dispatch
import BabylonVault.Sign
import BabylonVault.System
import BabylonVault.Load
import BabylonVault.Wellformed
import BabylonVault.Entries
import BabylonVault.Play
import BabylonVault.Scalars
import BabylonVault.Open
import BabylonVault.Frame
import BabylonVault.Accept.Read
import BabylonVault.Accept.Leaf
import BabylonVault.Accept.Pegin
import BabylonVault.Accept.Payout
import BabylonVault.Accept.Prepegin
import BabylonVault.Accept.Standalone
import BabylonVault.Accept.Dispatch
import BabylonVault.Signing
import BabylonVault.Leftovers
import BabylonVault.Request
import BabylonVault.History
import BabylonVault.Reassembly
import BabylonVault.Groups
import BabylonVault.Session
import BabylonVault.Separation
import BabylonVault.Atomic
import BabylonVault.Keys
import BabylonVault.Batching
import BabylonVault.CapChecks
import BabylonVault.Caps
import BabylonVault.Committed
import BabylonVault.Sighash
import BabylonVault.Amounts
import BabylonVault.Broadcast
import BabylonVault.PrepeginOutputs
import BabylonVault.Commitment
import BabylonVault.Patterns
import BabylonVault.Pushes
import BabylonVault.Timelock
import BabylonVault.Builders
import BabylonVault.Claimers
import BabylonVault.Scratch
import BabylonVault.Accept.Validated
import BabylonVault.Serve
import BabylonVault.ClaimOutputs
import BabylonVault.Possession
import BabylonVault.AssertSafety
import BabylonVault.Routing
import BabylonVault.Signer
import BabylonVault.Recovery
import BabylonVault.Agreement
import BabylonVault.Widening
import BabylonVault.Chain
import BabylonVault.Finalize
import BabylonVault.Recoverable
import BabylonVault.Spending
import BabylonVault.Signed
import BabylonVault.Custody
import BabylonVault.Order
import BabylonVault.Outputs
import BabylonVault.Lib.Trace
import BabylonVault.Shown
import BabylonVault.Consent
import BabylonVault.Lib.Text
import BabylonVault.Terms
import BabylonVault.Admission
import BabylonVault.Loadable
