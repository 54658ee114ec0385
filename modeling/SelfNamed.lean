import SelfNamed.Module
import SelfNamed.Source
import SelfNamed.Tree.Build
import SelfNamed.Walk.Scripted
import SelfNamed.Settings.File
import SelfNamed.Proofs.Numbering.Order
import SelfNamed.Proofs.Numbering.Minimal
import SelfNamed.Proofs.Numbering.Loop
import SelfNamed.Proofs.Literal
import SelfNamed.Proofs.Collect
import SelfNamed.Proofs.Generator
import SelfNamed.Proofs.Places
import SelfNamed.Proofs.Shrink.Exports
import SelfNamed.Proofs.Tree.Literal
import SelfNamed.Proofs.Shrink.Received
import SelfNamed.Proofs.Shrink.Run
import SelfNamed.Proofs.Walk.Listing
import SelfNamed.Proofs.Shrink.Listing
import SelfNamed.Proofs.Shrink.Failing
import SelfNamed.Proofs.Json.Canonical
import SelfNamed.Proofs.Tree.Partial
import SelfNamed.Proofs.Tree.Reading
import SelfNamed.Proofs.Tree.Norm
import SelfNamed.Proofs.Tree.Sound
import SelfNamed.Proofs.Tree.Change
import SelfNamed.Proofs.Tree.Exports
import SelfNamed.Proofs.Tree.RoundTrip
import SelfNamed.Proofs.Tree.Held
import SelfNamed.Proofs.Module
import SelfNamed.Proofs.Acceptance
import SelfNamed.Proofs.Session
import SelfNamed.Proofs.Shared
import SelfNamed.Proofs.Copies
import SelfNamed.Proofs.Walk.Looks
import SelfNamed.Proofs.Walk.Contract
import SelfNamed.Proofs.Walk.ReadOnly
import SelfNamed.Proofs.Json.Tokens
import SelfNamed.Proofs.Json.Written
import SelfNamed.Proofs.Output
import SelfNamed.Proofs.Settings
import SelfNamed.Proofs.Shrink.Again
import SelfNamed.Proofs.Fixpoint
import SelfNamed.Proofs.Tree.Full
import SelfNamed.Proofs.Tree.Kept
import SelfNamed.Proofs.Tree.Conforms
import SelfNamed.Proofs.Unchanged
import SelfNamed.Proofs.Shrink.Scope
import SelfNamed.Proofs.Shrink.Concat
import SelfNamed.Proofs.Walk.Agree
import SelfNamed.Proofs.Walk.History
import SelfNamed.Proofs.Numbering.Symbols
import SelfNamed.Proofs.Shrink.Passes
import SelfNamed.Proofs.Json.Reordered
import SelfNamed.Proofs.Tree.Unordered
import SelfNamed.Proofs.Tree.Direct
import SelfNamed.Proofs.Json.Lines
import SelfNamed.Proofs.Responses
