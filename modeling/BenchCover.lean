import BenchCover.Main
import BenchCover.Proofs.Suite.Extension
import BenchCover.Proofs.Suite.Minimization
import BenchCover.Proofs.Suite.CoverShare
import BenchCover.Proofs.Suite.Determinacy
import BenchCover.Proofs.Suite.Reselection
import BenchCover.Proofs.Function.Registry
import BenchCover.Proofs.Dot.Reading
import BenchCover.Proofs.Function.Spelling
import BenchCover.Proofs.Suite.Naming
import BenchCover.Proofs.Suite.Load
import BenchCover.Proofs.Suite.Passes
import BenchCover.Proofs.Files.Path
import BenchCover.Proofs.Files.Following
import BenchCover.Proofs.Files.Addition
import BenchCover.Proofs.Files.Listing
import BenchCover.Proofs.Suite.Alike
import BenchCover.Proofs.Report.Alike
import BenchCover.Proofs.Suite.PassedOver
import BenchCover.Proofs.Command.Beside
import BenchCover.Proofs.Command.PassedOver
import BenchCover.Proofs.Profile.FileName
import BenchCover.Proofs.Text.Pieces
import BenchCover.Proofs.Text.Blank
import BenchCover.Proofs.Suite.ByName
import BenchCover.Proofs.Report.Reading
import BenchCover.Proofs.Report.Tables
import BenchCover.Proofs.Report.Extended
import BenchCover.Proofs.Dot.Meaning
import BenchCover.Proofs.Dot.Attribute
import BenchCover.Proofs.Profile.Duration
import BenchCover.Proofs.Dot.Rendering
import BenchCover.Proofs.Dot.Locality
import BenchCover.Proofs.Suite.Identity
import BenchCover.Proofs.Graph.Operations
import BenchCover.Proofs.Suite.Reloading
import BenchCover.Proofs.Function.Family
import BenchCover.Proofs.Command.Rerun
import BenchCover.Proofs.Graph.Visitor
import BenchCover.Proofs.Suite.GreedyCover
import BenchCover.Proofs.Command.ExitCode
import BenchCover.Proofs.Command.Blocked
import BenchCover.Proofs.Suite.Completion
import BenchCover.Proofs.Graph.LevelViews
import BenchCover.Proofs.Suite.RowsAndTotal
import BenchCover.Proofs.Profile.DurationDisplay
import BenchCover.Proofs.Profile.FileNameCodec
import BenchCover.Proofs.Dot.Leaf
import BenchCover.Proofs.Dot.AttributeList
import BenchCover.Proofs.Dot.Untipped
import BenchCover.Proofs.Dot.Times
