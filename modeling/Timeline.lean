import Timeline.Document.Loader
import Timeline.Functions.Scripted
import Timeline.Json.Printer
import Timeline.Json.Reader
import Timeline.Machine.Clock
import Timeline.Scenario.Inspection
import Timeline.Proofs.Machine.Roster
import Timeline.Proofs.Stage.Courses
import Timeline.Proofs.Machine.Order
import Timeline.Proofs.Machine.Moves
import Timeline.Proofs.Machine.Underway
import Timeline.Proofs.Machine.Holds
import Timeline.Proofs.Program.Brackets
import Timeline.Proofs.Program.Expansion
import Timeline.Proofs.Program.Validation
import Timeline.Proofs.Machine.Safety
import Timeline.Proofs.Program.Outline
import Timeline.Proofs.Machine.Solo
import Timeline.Proofs.Machine.Continuation
import Timeline.Proofs.Machine.Releases
import Timeline.Proofs.Machine.Renewal
import Timeline.Proofs.Program.Acceptance
import Timeline.Proofs.Machine.Passes
import Timeline.Proofs.Machine.Starts
import Timeline.Proofs.Program.Circles
import Timeline.Proofs.Program.Labels
import Timeline.Proofs.Program.Culprits
import Timeline.Proofs.Stage.Sharing
import Timeline.Proofs.Machine.Returns
import Timeline.Proofs.Machine.Accounting
import Timeline.Proofs.Document.Depth
import Timeline.Proofs.Document.Folders
import Timeline.Proofs.Program.Matching
import Timeline.Proofs.Machine.Failures
import Timeline.Proofs.Document.Entries
import Timeline.Proofs.Document.Moving
import Timeline.Proofs.Machine.Vibrations
import Timeline.Proofs.Machine.Joins
import Timeline.Proofs.Machine.Completion
import Timeline.Proofs.Program.Relevance
import Timeline.Proofs.Machine.Announcements
import Timeline.Proofs.Stage.Tweening
