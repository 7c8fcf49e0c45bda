import IntervalIndex.Interval
import IntervalIndex.Predicate
import IntervalIndex.Record
import IntervalIndex.Text.Blank
import IntervalIndex.Scratch.Bench
import IntervalIndex.Records.File
import IntervalIndex.Tree.Search
import IntervalIndex.Tree.NodeTable
import IntervalIndex.Session
import IntervalIndex.Document.Answers
import IntervalIndex.Document.Stats
import IntervalIndex.Gzip.Member
import IntervalIndex.Toml.Document
import IntervalIndex.Config
import IntervalIndex.Text.Utf8
import IntervalIndex.Text.Quoted
import IntervalIndex.Main
import IntervalIndex.Proofs.Packed.SlotOrder
import IntervalIndex.Proofs.Packed.Settling
import IntervalIndex.Proofs.Packed.Marking
import IntervalIndex.Proofs.Scratch.CleanPool
import IntervalIndex.Proofs.Tree.Scanning
import IntervalIndex.Proofs.Tree.PrunedSearch
import IntervalIndex.Proofs.QueryBounds
import IntervalIndex.Proofs.Tree.Pruning
import IntervalIndex.Proofs.Packed.Packing
import IntervalIndex.Proofs.Packed.GreatestEnd
import IntervalIndex.Proofs.Packed.Answering
import IntervalIndex.Proofs.Scratch.BoundedPool
import IntervalIndex.Proofs.Document.Grouping
import IntervalIndex.Proofs.Records.Lines
import IntervalIndex.Proofs.Document.Replies
import IntervalIndex.Proofs.Records.Offsets
import IntervalIndex.Proofs.Records.WrittenLine
import IntervalIndex.Proofs.Text.Encoding
import IntervalIndex.Proofs.Records.Appending
import IntervalIndex.Proofs.Records.WrittenFile
import IntervalIndex.Proofs.Files.CompressedFile
import IntervalIndex.Proofs.Scratch.ReachablePool
import IntervalIndex.Proofs.Tree.StackRoom
import IntervalIndex.Proofs.Session.Walks
import IntervalIndex.Proofs.Session.GivenBack
import IntervalIndex.Proofs.Session.Places
import IntervalIndex.Proofs.Tree.FreshStack
import IntervalIndex.Proofs.Session.Independence
import IntervalIndex.Proofs.Records.ParsedLine
import IntervalIndex.Proofs.Document.NegativeLengths
import IntervalIndex.Proofs.Tree.Asking
import IntervalIndex.Proofs.Tree.Reached
import IntervalIndex.Proofs.Tree.Collecting
import IntervalIndex.Proofs.Tree.Visiting
import IntervalIndex.Proofs.Packed.SlotVisits
import IntervalIndex.Proofs.Tree.Walking
import IntervalIndex.Proofs.Document.RangeChecks
import IntervalIndex.Proofs.Records.Numerals
import IntervalIndex.Proofs.Records.LineGrammar
import IntervalIndex.Proofs.SharedPositions
import IntervalIndex.Proofs.Packed.WordWidth
import IntervalIndex.Proofs.Packed.Refusals
import IntervalIndex.Proofs.Packed.WaysDown
import IntervalIndex.Proofs.Document.StatsRows
import IntervalIndex.Proofs.Tree.StackHeight
import IntervalIndex.Proofs.Config.Loading
import IntervalIndex.Proofs.SpanLengths
