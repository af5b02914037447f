import SoapServer.Markup.Scanner
import SoapServer.Fault
import SoapServer.QName
import SoapServer.Wssec.UnknownUsers
import SoapServer.Wssec.NonceSpelling
import SoapServer.Wssec.Replay
import SoapServer.Envelope.CharacterContent
import SoapServer.Wsdl.Resolver
import SoapServer.Dispatch.Provenance
import SoapServer.Dispatch.Validation
import SoapServer.Server.AuthenticationGate
import SoapServer.Wsdl.Loaded
import SoapServer.Dispatch.InputElements
import SoapServer.Wsdl.ElementTypes
import SoapServer.Dispatch.Isolation
import SoapServer.Server.ServiceRoutes
import SoapServer.Xsd.Contributions
import SoapServer.Xsd.Visibility
import SoapServer.Wsdl.SchemaBlocks
import SoapServer.Library.Traced
import SoapServer.Wsdl.LoaderCalls
import SoapServer.Library.Search
import SoapServer.Wsdl.Reachable
import SoapServer.Wsdl.Imports
import SoapServer.Escaping
import SoapServer.Wssec.EscapedToken
import SoapServer.Wssec.Freshness
import SoapServer.Server.Paths
import SoapServer.Dispatch.RpcRequests
import SoapServer.Server.InputTypes
import SoapServer.Wsdl.OwnTypes
import SoapServer.Wsdl.Readings
import SoapServer.Wsdl.AddressRewriting
import SoapServer.Wsdl.ServiceAddress
import SoapServer.Wsdl.ServicePorts
import SoapServer.Wsdl.ServiceRelocation
import SoapServer.Wssec.TokenNamespaces
import SoapServer.Wssec.TokenFields
import SoapServer.Wssec.TokenProvenance
import SoapServer.Markup.TagText
import SoapServer.Envelope.Attributes
import SoapServer.Envelope.Acceptance
import SoapServer.Envelope.Surroundings
import SoapServer.Markup.Composition
import SoapServer.Envelope.Termination
import SoapServer.Server.Messages
import SoapServer.Server.Answers
import SoapServer.Dispatch.ValidBodies
import SoapServer.Wsdl.SchemaText
import SoapServer.Wssec.NonceWindow
import SoapServer.Wssec.NonceBuckets
import SoapServer.Wssec.RejectedTokens
import SoapServer.Library.Descent
import SoapServer.Xsd.Flattening
import SoapServer.Xsd.Termination
import SoapServer.Dispatch.InlinedGroups
import SoapServer.Server.StartUp
import SoapServer.Crossref.Masks
import SoapServer.Crossref.Prefixes
import SoapServer.Crossref.Masking
import SoapServer.Library.Associations
import SoapServer.Crossref.PrefixMaps
import SoapServer.Crossref.UsedNamespaces
import SoapServer.Crossref.CanonicalForm
import SoapServer.Crossref.CanonicalNames
import SoapServer.Crossref.CanonicalDocuments
import SoapServer.Crossref.ScopeTrees
import SoapServer.Crossref.CanonicalTrees
import SoapServer.PieceScanner
import SoapServer.Crossref.Canonicalization
import SoapServer.Crossref.Dropping
import SoapServer.Library.CriticalSections
import SoapServer.Server.Concurrency
import SoapServer.Server.Progress
import SoapServer.Server.ConcurrentReplay
import SoapServer.Wssec.TokenInMessage
import SoapServer.Server.HonestClients
import SoapServer.Server.Discovery
import SoapServer.Crossref.FaultAssertions
import SoapServer.Crossref.EchoService
import SoapServer.Crossref.Snapshots
import SoapServer.Crossref.BodyChild
import SoapServer.Crossref.Scenarios
import SoapServer.Crossref.Promotion
import SoapServer.Server.RoundTrip
import SoapServer.Crossref.Replay
