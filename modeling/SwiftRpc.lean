import SwiftRpc.Api.Basic
import SwiftRpc.Api.Capability
import SwiftRpc.Api.Containment
import SwiftRpc.Api.Declare
import SwiftRpc.Api.Json
import SwiftRpc.Api.Registry
import SwiftRpc.Descriptor
import SwiftRpc.Dictionary
import SwiftRpc.Json
import SwiftRpc.Main
import SwiftRpc.Name
import SwiftRpc.Options.Basic
import SwiftRpc.Options.Parameters
import SwiftRpc.Path
import SwiftRpc.Plugin.Execute
import SwiftRpc.Plugin.Run
import SwiftRpc.Reach
import SwiftRpc.Swift.Client
import SwiftRpc.Swift.Model
import SwiftRpc.Swift.Spelling
import SwiftRpc.Swift.Source
import SwiftRpc.Swift.Template
import SwiftRpc.Swift.TypeIndex
import SwiftRpc.Text.Basic
import SwiftRpc.Text.Case
import SwiftRpc.Wire.Codec
import SwiftRpc.Wire.Field
import SwiftRpc.Wire.Item
import SwiftRpc.Wire.Kind
import SwiftRpc.Wire.Varint
import SwiftRpc.Proofs.Dictionary
import SwiftRpc.Proofs.Text
import SwiftRpc.Proofs.Capability
import SwiftRpc.Proofs.Containment
import SwiftRpc.Proofs.Declare
import SwiftRpc.Proofs.Plan
import SwiftRpc.Proofs.TypeIndex
import SwiftRpc.Proofs.Render
import SwiftRpc.Proofs.Output
import SwiftRpc.Proofs.Conformance
import SwiftRpc.Proofs.Walks
import SwiftRpc.Proofs.Order
import SwiftRpc.Proofs.Words
import SwiftRpc.Proofs.SwiftNames
import SwiftRpc.Proofs.Path
import SwiftRpc.Proofs.OutputNames
import SwiftRpc.Proofs.Codec
import SwiftRpc.Proofs.Execute
import SwiftRpc.Proofs.Precedence
import SwiftRpc.Proofs.Growth
import SwiftRpc.Proofs.DescriptorSet
import SwiftRpc.Proofs.MoreFiles
import SwiftRpc.Proofs.Recursion
import SwiftRpc.Proofs.FirstFault
import SwiftRpc.Proofs.Parameters
import SwiftRpc.Proofs.Options
import SwiftRpc.Proofs.Template
import SwiftRpc.Proofs.Tidy
import SwiftRpc.Proofs.Casing
import SwiftRpc.Proofs.MemberNames
import SwiftRpc.Proofs.Refill
import SwiftRpc.Proofs.LineEnds
import SwiftRpc.Proofs.OneLine
import SwiftRpc.Proofs.Blocks
import SwiftRpc.Proofs.ClientBlocks
import SwiftRpc.Proofs.Untouched
import SwiftRpc.Proofs.Literal
import SwiftRpc.Proofs.Forms
import SwiftRpc.Proofs.Frontiers
import SwiftRpc.Proofs.CamelCase
