import ArmListing.Decoder.Echo
import ArmListing.Directory
import ArmListing.Main
import ArmListing.Suite.Run
import ArmListing.Proofs.Argument
import ArmListing.Proofs.Argument.Grammar
import ArmListing.Proofs.Argument.Kind
import ArmListing.Proofs.Arm.Branch
import ArmListing.Proofs.Arm.Encoding
import ArmListing.Proofs.Arm.Reading
import ArmListing.Proofs.Arm.Revision
import ArmListing.Proofs.Arm.SecondSet
import ArmListing.Proofs.Arm.Spelling
import ArmListing.Proofs.Arm.Undefined
import ArmListing.Proofs.Assembly.Reading
import ArmListing.Proofs.Assembly.Spelling
import ArmListing.Proofs.Code
import ArmListing.Proofs.Cursor
import ArmListing.Proofs.Decoder.Branches
import ArmListing.Proofs.Decoder.Replay
import ArmListing.Proofs.Decoder.Tables
import ArmListing.Proofs.Decoder.Text
import ArmListing.Proofs.Decoder.WellFormed
import ArmListing.Proofs.Directory
import ArmListing.Proofs.Job
import ArmListing.Proofs.Job.Order
import ArmListing.Proofs.Line
import ArmListing.Proofs.Line.Columns
import ArmListing.Proofs.Listing
import ArmListing.Proofs.Listing.Capacity
import ArmListing.Proofs.Listing.Lossless
import ArmListing.Proofs.Output
import ArmListing.Proofs.Session
import ArmListing.Proofs.Session.Effects
import ArmListing.Proofs.Session.Replay
import ArmListing.Proofs.Statistics
import ArmListing.Proofs.Statistics.Mnemonic
import ArmListing.Proofs.Statistics.Ranking
import ArmListing.Proofs.Statistics.Total
import ArmListing.Proofs.Suite.Address
import ArmListing.Proofs.Suite.Entry
import ArmListing.Proofs.Suite.Groups
import ArmListing.Proofs.Suite.Independence
import ArmListing.Proofs.Suite.Outcome
import ArmListing.Proofs.Suite.Reader
import ArmListing.Proofs.Suite.Report
import ArmListing.Proofs.Suite.Respacing
import ArmListing.Proofs.Suite.Run
import ArmListing.Proofs.Suite.Sample
import ArmListing.Proofs.Suite.Verdict
import ArmListing.Proofs.Text.Blank
import ArmListing.Proofs.Text.Diff
import ArmListing.Proofs.Text.Edit
import ArmListing.Proofs.Text.Hex
import ArmListing.Proofs.Text.Lines
import ArmListing.Proofs.Text.Returns
import ArmListing.Proofs.Thumb.Branch
import ArmListing.Proofs.Thumb.Call
import ArmListing.Proofs.Thumb.Revision
import ArmListing.Proofs.Thumb.Spelling
import ArmListing.Proofs.Thumb.Undefined
import ArmListing.Proofs.Walk.Locality
import ArmListing.Proofs.Walk.Resumption
import ArmListing.Proofs.Walk.Run
import ArmListing.Proofs.Walk.Synchronisation
import ArmListing.Proofs.Walk.Tiling
import ArmListing.Proofs.Walk.Upgrade
import ArmListing.Proofs.Word.Extraction
import ArmListing.Proofs.Word.Layout
