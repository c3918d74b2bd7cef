import TreeCompare.Text.Quoted
import TreeCompare.Path.Lexical
import TreeCompare.Snapshot.Fingerprint
import TreeCompare.Files.IoError
import TreeCompare.Files.Tree
import TreeCompare.Files.Display
import TreeCompare.Snapshot.Scan
import TreeCompare.Terminal.ColorSupport
import TreeCompare.Process.Script
import TreeCompare.Testing.Cargo
import TreeCompare.Fault.Console
import TreeCompare.Report.Run
import TreeCompare.Testing.Run
import TreeCompare.Main
import TreeCompare.Testing.Plan
import TreeCompare.Proofs.Path.Spelling
import TreeCompare.Proofs.Files.Following
import TreeCompare.Proofs.Files.Root
import TreeCompare.Proofs.Digest.Blockwise
import TreeCompare.Proofs.Snapshot.Stages
import TreeCompare.Proofs.Snapshot.Contents
import TreeCompare.Proofs.Scan.Walk
import TreeCompare.Proofs.Scan.Refinement
import TreeCompare.Proofs.Scan.Records
import TreeCompare.Proofs.Scan.Entries
import TreeCompare.Proofs.Report.Clean
import TreeCompare.Proofs.Text.Numeral
import TreeCompare.Proofs.Text.Utf8
import TreeCompare.Proofs.Text.Quoted
import TreeCompare.Proofs.Report.Line
import TreeCompare.Proofs.Text.Decoding
import TreeCompare.Proofs.Report.Writing
import TreeCompare.Proofs.Report.Lines
import TreeCompare.Proofs.Testing.Listing
import TreeCompare.Proofs.Log.View
import TreeCompare.Proofs.Testing.Sequence
import TreeCompare.Proofs.Files.Arranged
import TreeCompare.Proofs.Testing.Cargo
import TreeCompare.Proofs.Files.Unordered
import TreeCompare.Proofs.Scan.Order
import TreeCompare.Proofs.Path.Normal
import TreeCompare.Proofs.Text.Delimited
import TreeCompare.Proofs.Scan.Loop
import TreeCompare.Proofs.Files.Errors
import TreeCompare.Proofs.Fault.Console
import TreeCompare.Proofs.Fault.Failure
import TreeCompare.Proofs.Fault.Causes
import TreeCompare.Proofs.Fault.Messages
import TreeCompare.Proofs.Text.Pieces
import TreeCompare.Proofs.Testing.Lines
import TreeCompare.Proofs.Testing.Calls
import TreeCompare.Proofs.Report.Relisted
