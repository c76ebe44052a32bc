import GraphRequest.Fragment.Loading
import GraphRequest.Operation.Loading
import GraphRequest.Request
import GraphRequest.Proofs.Walk.Log
import GraphRequest.Proofs.Fragment.Needed
import GraphRequest.Proofs.Fragment.Cycle
import GraphRequest.Proofs.Expectation.InSync
import GraphRequest.Proofs.Name.Solid
import GraphRequest.Proofs.Grammar.Faithful
import GraphRequest.Proofs.Value.Leaf
import GraphRequest.Proofs.Walk.Completion
import GraphRequest.Proofs.Assembly.Introduction
import GraphRequest.Proofs.Assembly.Acceptance
import GraphRequest.Proofs.Assembly.SiblingOrder
import GraphRequest.Proofs.Expectation.Coverage
import GraphRequest.Proofs.Assembly.Reachable
import GraphRequest.Proofs.Assembly.Agreement
import GraphRequest.Proofs.Assembly.Consistency
import GraphRequest.Proofs.Assembly.Closed
import GraphRequest.Proofs.Walk.Agreement
import GraphRequest.Proofs.Fragment.Registration
import GraphRequest.Proofs.Assembly.Isolation
import GraphRequest.Proofs.Expectation.LastWrite
import GraphRequest.Proofs.Walk.Visited
import GraphRequest.Proofs.Expectation.Registered
import GraphRequest.Proofs.Walk.Lineage
import GraphRequest.Proofs.Expectation.LocalType
import GraphRequest.Proofs.Expectation.Place
import GraphRequest.Proofs.Assembly.Header
import GraphRequest.Proofs.Declaration.Attribute
import GraphRequest.Proofs.Declaration.Field
import GraphRequest.Proofs.Declaration.Fragment
import GraphRequest.Proofs.Declaration.Operation
import GraphRequest.Proofs.Assembly.Frame
import GraphRequest.Proofs.Fragment.Termination
import GraphRequest.Proofs.Value.Readable
import GraphRequest.Proofs.Declaration.IntegerToken
import GraphRequest.Proofs.Assembly.Settled
import GraphRequest.Proofs.Json.RoundTrip
import GraphRequest.Proofs.Value.Portable
import GraphRequest.Proofs.Assembly.Payload
import GraphRequest.Proofs.Value.Resolution
import GraphRequest.Proofs.Declaration.Rearranged
import GraphRequest.Proofs.Declaration.FirstFault
