import SignedHttp.Crypto.Ed25519
import SignedHttp.Crypto.Octets
import SignedHttp.Crypto.Sha2
import SignedHttp.Crypto.Suite
import SignedHttp.Digest
import SignedHttp.Error.Cause
import SignedHttp.Error.Code
import SignedHttp.Exchange.Client
import SignedHttp.Exchange.Handled
import SignedHttp.Exchange.Middleware
import SignedHttp.Inspect.Analysis
import SignedHttp.Inspect.Format
import SignedHttp.Inspect.Report
import SignedHttp.Json.Reader
import SignedHttp.Json.Value
import SignedHttp.Json.Writer
import SignedHttp.Key.Resolver
import SignedHttp.Log.Entry
import SignedHttp.Log.Logger
import SignedHttp.Message.Basic
import SignedHttp.Message.Fields
import SignedHttp.Message.Method
import SignedHttp.Policy.Basic
import SignedHttp.Policy.Registry
import SignedHttp.Policy.Rule
import SignedHttp.Proofs.Crypto.Octets
import SignedHttp.Proofs.Crypto.Suite
import SignedHttp.Proofs.Digest
import SignedHttp.Proofs.Except
import SignedHttp.Proofs.Exchange.Accounting
import SignedHttp.Proofs.Exchange.Client
import SignedHttp.Proofs.Exchange.Endpoints
import SignedHttp.Proofs.Exchange.Reuse
import SignedHttp.Proofs.Inspect.Clean
import SignedHttp.Proofs.Inspect.Signed
import SignedHttp.Proofs.Key.Cancellation
import SignedHttp.Proofs.Key.Resolver
import SignedHttp.Proofs.Message.Fields
import SignedHttp.Proofs.Policy.Merge
import SignedHttp.Proofs.Policy.Registry
import SignedHttp.Proofs.Signature.Agreement
import SignedHttp.Proofs.Signature.Binding
import SignedHttp.Proofs.Signature.Canonical
import SignedHttp.Proofs.Signature.Covered
import SignedHttp.Proofs.Signature.Grammar
import SignedHttp.Proofs.Signature.Items
import SignedHttp.Proofs.Signature.Normal
import SignedHttp.Proofs.Signature.Received
import SignedHttp.Proofs.Signature.Written
import SignedHttp.Proofs.Signing.Applied
import SignedHttp.Proofs.Signing.Builder
import SignedHttp.Proofs.Signing.Config
import SignedHttp.Proofs.Signing.Nonce
import SignedHttp.Proofs.Signing.Signer
import SignedHttp.Proofs.Signing.Written
import SignedHttp.Proofs.Store.Cache
import SignedHttp.Proofs.Store.Detection
import SignedHttp.Proofs.Store.Fingerprint
import SignedHttp.Proofs.Store.Freshness
import SignedHttp.Proofs.Store.Linked
import SignedHttp.Proofs.Store.Lru
import SignedHttp.Proofs.Store.Recency
import SignedHttp.Proofs.Store.Replay
import SignedHttp.Proofs.Store.Shown
import SignedHttp.Proofs.Text.Base64
import SignedHttp.Proofs.Text.Cursor
import SignedHttp.Proofs.Text.Decimal
import SignedHttp.Proofs.Text.Flip
import SignedHttp.Proofs.Text.Hex
import SignedHttp.Proofs.Text.Magnitude
import SignedHttp.Proofs.Text.Number
import SignedHttp.Proofs.Text.Padded
import SignedHttp.Proofs.Text.Split
import SignedHttp.Proofs.Text.Table
import SignedHttp.Proofs.Timing.Deadline
import SignedHttp.Proofs.Timing.OneShot
import SignedHttp.Proofs.Timing.Propagation
import SignedHttp.Proofs.Timing.Signal
import SignedHttp.Proofs.Timing.Timeout
import SignedHttp.Proofs.Url
import SignedHttp.Proofs.Verify.BoundDigest
import SignedHttp.Proofs.Verify.Checks
import SignedHttp.Proofs.Verify.Configured
import SignedHttp.Proofs.Verify.FirstUse
import SignedHttp.Proofs.Verify.Gathering
import SignedHttp.Proofs.Verify.Inert
import SignedHttp.Proofs.Verify.Outcome
import SignedHttp.Proofs.Verify.Replay
import SignedHttp.Proofs.Verify.RoundTrip
import SignedHttp.Proofs.Verify.Rules
import SignedHttp.Proofs.Verify.Run
import SignedHttp.Proofs.Verify.Security
import SignedHttp.Proofs.Verify.Tampering
import SignedHttp.Signature.Canonical
import SignedHttp.Signature.Components
import SignedHttp.Signature.Params
import SignedHttp.Signature.Received
import SignedHttp.Signing.Builder
import SignedHttp.Signing.Config
import SignedHttp.Signing.Signer
import SignedHttp.Store.Cache
import SignedHttp.Store.Linked
import SignedHttp.Store.Lru
import SignedHttp.Store.Replay
import SignedHttp.Text.Base64
import SignedHttp.Text.Binary64
import SignedHttp.Text.Bytes
import SignedHttp.Text.Decimal
import SignedHttp.Text.Delimited
import SignedHttp.Text.Hex
import SignedHttp.Text.Milliseconds
import SignedHttp.Text.Pattern
import SignedHttp.Text.Split
import SignedHttp.Text.Table
import SignedHttp.Text.Utf8
import SignedHttp.Timing.Clock
import SignedHttp.Timing.Connections
import SignedHttp.Timing.Date
import SignedHttp.Timing.Signal
import SignedHttp.Timing.Timeout
import SignedHttp.Url
import SignedHttp.Verify.Security
import SignedHttp.Verify.Verdict
import SignedHttp.Verify.Verifier
import SignedHttp.World
