import TypedValues.Binary64.Lemmas
import TypedValues.Closure.Builtin
import TypedValues.HostData.Json
import TypedValues.HostData.Tagged
import TypedValues.HostData.Text
import TypedValues.Ty.Substitution
import TypedValues.Ty.Text
import TypedValues.Value.Decoding
import TypedValues.Value.Induction
import TypedValues.Value.Place
import TypedValues.Value.Projection
import TypedValues.Value.Refinement
import TypedValues.Value.Text
import TypedValues.Proofs.Everywhere
import TypedValues.Proofs.Ty.Openness
import TypedValues.Proofs.Ty.Instantiation
import TypedValues.Proofs.Ty.Shards
import TypedValues.Proofs.Ty.Interning
import TypedValues.Proofs.Ty.HashConsing
import TypedValues.Proofs.Ty.Marks
import TypedValues.Proofs.Ty.OpenNames
import TypedValues.Proofs.Ty.Handles
import TypedValues.Proofs.Ty.Composition
import TypedValues.Proofs.Ty.Grouping
import TypedValues.Proofs.Value.Slots
import TypedValues.Proofs.Value.Labels
import TypedValues.Proofs.Value.Instances
import TypedValues.Proofs.Outcome
import TypedValues.Proofs.Value.Operations
import TypedValues.Proofs.Value.Constructors
import TypedValues.Proofs.Value.Reachable
import TypedValues.Proofs.Value.Histories
import TypedValues.Proofs.Value.Arms
import TypedValues.Proofs.Value.EmptyMaybes
import TypedValues.Proofs.Value.Idempotence
import TypedValues.Proofs.Binary64.Text
import TypedValues.Proofs.Json.Scanner
import TypedValues.Proofs.Json.Reader
import TypedValues.Proofs.Json.Nesting
import TypedValues.Proofs.HostData.Tagged
import TypedValues.Proofs.HostData.Reading
import TypedValues.Proofs.Binary64.Rereading
import TypedValues.Proofs.HostData.Json
import TypedValues.Proofs.Value.Keys
import TypedValues.Proofs.Value.KeyClasses
import TypedValues.Proofs.Value.MapRuns
import TypedValues.Proofs.Value.Conformance
import TypedValues.Proofs.Value.Decoding
import TypedValues.Proofs.Value.Normalization
import TypedValues.Proofs.Value.Restoration
import TypedValues.Proofs.Value.WellFormed
import TypedValues.Proofs.Value.RoundTrip
import TypedValues.Proofs.Value.Frame
import TypedValues.Proofs.Value.Spellings
import TypedValues.Proofs.Value.Wrapping
import TypedValues.Proofs.Value.Equivalence
import TypedValues.Proofs.Value.Copies
import TypedValues.Proofs.Value.JsonText
import TypedValues.Proofs.Closure.Chains
