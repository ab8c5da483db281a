import TypedXml.Instance.Builder
import TypedXml.Json.Reader
import TypedXml.Main
import TypedXml.Proofs.Instance.AlikeValues
import TypedXml.Proofs.Instance.Arrangement
import TypedXml.Proofs.Instance.Binding
import TypedXml.Proofs.Instance.Conservation
import TypedXml.Proofs.Instance.DepthLimit
import TypedXml.Proofs.Instance.Depths
import TypedXml.Proofs.Instance.DocumentRoundTrip
import TypedXml.Proofs.Instance.Emptiness
import TypedXml.Proofs.Instance.Enumerations
import TypedXml.Proofs.Instance.Envelope
import TypedXml.Proofs.Instance.Failures
import TypedXml.Proofs.Instance.Filling
import TypedXml.Proofs.Instance.ForeignAttributes
import TypedXml.Proofs.Instance.Grammar
import TypedXml.Proofs.Instance.Inlining
import TypedXml.Proofs.Instance.JsonView
import TypedXml.Proofs.Instance.Origins
import TypedXml.Proofs.Instance.Rearrangement
import TypedXml.Proofs.Instance.Rebinding
import TypedXml.Proofs.Instance.Rejection
import TypedXml.Proofs.Instance.ScalarContents
import TypedXml.Proofs.Instance.Stability
import TypedXml.Proofs.Instance.TreeRoundTrip
import TypedXml.Proofs.Octets.LexicalSpaces
import TypedXml.Proofs.PrefixHistory
import TypedXml.Proofs.Scalar.Integers
import TypedXml.Proofs.Schema.Extension
import TypedXml.Proofs.Schema.Restriction
import TypedXml.Proofs.Xml.KeptContent
import TypedXml.Proofs.Xml.ParseLimits
import TypedXml.Proofs.Xml.ParsedTrees
import TypedXml.Proofs.Xml.ReadTags
import TypedXml.Proofs.Xml.Reparsing
import TypedXml.Proofs.Xml.RoundTrip
