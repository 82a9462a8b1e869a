import Datagram.Catalog.Reference
import Datagram.Codec.Decode
import Datagram.Codec.Encode
import Datagram.Idl.Export
import Datagram.Idl.Import
import Datagram.Idl.Source
import Datagram.Ieee.Decimal
import Datagram.Ieee.Shortest
import Datagram.Json.Parse
import Datagram.Json.Print
import Datagram.Main
import Datagram.Proofs.BitMember
import Datagram.Proofs.Codec.RoundTrip
import Datagram.Proofs.Idl.Primitive
import Datagram.Proofs.Idl.Word
import Datagram.Proofs.Text.Lines
import Datagram.Registry
import Datagram.Text.Blank
import Datagram.Text.Lowercase
import Datagram.Text.Printable
import Datagram.Volume
import Datagram.Proofs.Idl.Comment
import Datagram.Proofs.Idl.Member
import Datagram.Proofs.Idl.Cell
import Datagram.Proofs.Idl.Source
import Datagram.Proofs.Idl.Group
import Datagram.Proofs.Idl.Export
import Datagram.Proofs.Idl.Document
import Datagram.Proofs.Idl.Image
import Datagram.Proofs.Idl.Import
import Datagram.Proofs.Idl.Stability
import Datagram.Proofs.Json.Token
import Datagram.Proofs.Json.Value
import Datagram.Proofs.Json.Record
import Datagram.Proofs.Catalog.Json
import Datagram.Proofs.Idl.Segment
import Datagram.Proofs.Idl.Size
import Datagram.Proofs.Idl.MessageSize
import Datagram.Proofs.Codec.Locality
import Datagram.Proofs.Idl.Provenance
import Datagram.Proofs.Idl.Packing
import Datagram.Proofs.Idl.MessageId
import Datagram.Proofs.Codec.Prefix
import Datagram.Proofs.Idl.Order
import Datagram.Proofs.Catalog.Reload
import Datagram.Proofs.Idl.WellFormed
import Datagram.Proofs.Codec.Grammar
import Datagram.Proofs.Codec.Overlay
import Datagram.Proofs.Command
import Datagram.Proofs.Idl.Keyword
import Datagram.Proofs.Idl.Grammar
import Datagram.Proofs.Idl.Declarator
import Datagram.Proofs.Idl.Acyclic
import Datagram.Proofs.Idl.Greedy
import Datagram.Proofs.Idl.Names
import Datagram.Proofs.Catalog.Splice
import Datagram.Proofs.Idl.Silent
import Datagram.Proofs.Idl.Spacing
import Datagram.Proofs.Idl.Storage
import Datagram.Proofs.Codec.Mirror
import Datagram.Proofs.Field
import Datagram.Proofs.Text.Utf8
import Datagram.Proofs.Idl.Declared
import Datagram.Proofs.Idl.Renumbering
import Datagram.Proofs.Idl.Description
import Datagram.Proofs.Octets.Pairs
import Datagram.Proofs.Codec.Dump
import Datagram.Proofs.Idl.Suffix
import Datagram.Proofs.BitMember.Insert
import Datagram.Proofs.Idl.Visited
