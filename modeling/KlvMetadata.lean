import KlvMetadata.Bytes
import KlvMetadata.Checksum
import KlvMetadata.CommandLine
import KlvMetadata.Error
import KlvMetadata.Floating.Binary
import KlvMetadata.Floating.Decimal
import KlvMetadata.Floating.Logarithm
import KlvMetadata.Floating.Precision
import KlvMetadata.Format.Basic
import KlvMetadata.Format.Imap
import KlvMetadata.Format.Layout
import KlvMetadata.Format.Pack
import KlvMetadata.Format.Quantized
import KlvMetadata.Format.Scalar
import KlvMetadata.Main
import KlvMetadata.Packet.Basic
import KlvMetadata.Packet.Formats
import KlvMetadata.Packet.Stream
import KlvMetadata.Report.Check
import KlvMetadata.Report.Dump
import KlvMetadata.Report.Tracks
import KlvMetadata.Schema.Basic
import KlvMetadata.Schema.Cardinality
import KlvMetadata.Set.Codec
import KlvMetadata.Set.Entries
import KlvMetadata.St0601.Framing
import KlvMetadata.St0601.Listings
import KlvMetadata.St0601.Schema
import KlvMetadata.Standard
import KlvMetadata.Text.Json
import KlvMetadata.Text.Quoted
import KlvMetadata.Text.Shapeless
import KlvMetadata.Text.Utf8
import KlvMetadata.Timeline.Basic
import KlvMetadata.Timeline.Demuxer
import KlvMetadata.Timeline.Interval
import KlvMetadata.Timeline.IntervalMap
import KlvMetadata.UniversalKey
import KlvMetadata.Value.ControlCommand
import KlvMetadata.Value.FrameRate
import KlvMetadata.Value.Item
import KlvMetadata.Value.Kind
import KlvMetadata.Value.Order
import KlvMetadata.Value.Text
import KlvMetadata.Wire.Basic
import KlvMetadata.Wire.Ber
import KlvMetadata.Wire.Field
import KlvMetadata.Wire.Integer
import KlvMetadata.Proofs.Timeline.Spans
import KlvMetadata.Proofs.Timeline.IntervalMap
import KlvMetadata.Proofs.Timeline.Recording
import KlvMetadata.Proofs.Timeline.Runs
import KlvMetadata.Proofs.Wire.Actions
import KlvMetadata.Proofs.Wire.Writers
import KlvMetadata.Proofs.Format.Contract
import KlvMetadata.Proofs.Format.Layouts
import KlvMetadata.Proofs.Set.Writing
import KlvMetadata.Proofs.Format.Definite
import KlvMetadata.Proofs.Wire.Integers
import KlvMetadata.Proofs.Wire.Delimited
import KlvMetadata.Proofs.Wire.Spellings
import KlvMetadata.Proofs.Format.Fields
import KlvMetadata.Proofs.Set.Keys
import KlvMetadata.Proofs.Set.RoundTrip
import KlvMetadata.Proofs.Set.Segments
import KlvMetadata.Proofs.Value.Order
import KlvMetadata.Proofs.Checksum
import KlvMetadata.Proofs.Packet.RoundTrip
import KlvMetadata.Proofs.Packet.Framing
import KlvMetadata.Proofs.Packet.Course
import KlvMetadata.Proofs.Packet.Stream
import KlvMetadata.Proofs.Packet.Partition
import KlvMetadata.Proofs.Packet.Verdict
import KlvMetadata.Proofs.Packet.Timestamp
import KlvMetadata.Proofs.Format.Contents
import KlvMetadata.Proofs.Value.Hints
import KlvMetadata.Proofs.Format.RoundTrip
import KlvMetadata.Proofs.Format.Restoring
import KlvMetadata.Proofs.Set.Rewriting
import KlvMetadata.Proofs.Set.Framing
import KlvMetadata.Proofs.Timeline.Refusals
import KlvMetadata.Proofs.Timeline.Changes
import KlvMetadata.Proofs.Timeline.UnknownKeys
import KlvMetadata.Proofs.Wire.Failures
import KlvMetadata.Proofs.Format.Unreadable
import KlvMetadata.Proofs.Format.Unwritable
import KlvMetadata.Proofs.Packet.Blame
import KlvMetadata.Proofs.Packet.Stamping
import KlvMetadata.Proofs.Report.Verdict
import KlvMetadata.Proofs.Value.Unordered
import KlvMetadata.Proofs.Value.Comparison
import KlvMetadata.Proofs.Timeline.Anchors
import KlvMetadata.Proofs.Set.Space
import KlvMetadata.Proofs.Format.FixedLength
import KlvMetadata.Proofs.Timeline.Queries
import KlvMetadata.Proofs.Floating.Rounding
import KlvMetadata.Proofs.Floating.Words
import KlvMetadata.Proofs.Floating.Arithmetic
import KlvMetadata.Proofs.Floating.Multiples
import KlvMetadata.Proofs.Format.Steps
import KlvMetadata.Proofs.Format.Mapping
import KlvMetadata.Proofs.Format.MappedIntegers
import KlvMetadata.Proofs.Format.Reserved
import KlvMetadata.Proofs.Format.Packs
import KlvMetadata.Proofs.Format.Widths
import KlvMetadata.Proofs.Schema.Building
import KlvMetadata.Proofs.Schema.Counting
import KlvMetadata.Proofs.Wire.Numerals
import KlvMetadata.Proofs.Wire.FixedWidth
import KlvMetadata.Proofs.Text.Hex
import KlvMetadata.Proofs.UniversalKey
