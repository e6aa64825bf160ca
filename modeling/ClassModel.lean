import ClassModel.Report.Json
import ClassModel.Project
import ClassModel.Proofs.Workspace.Freshness
import ClassModel.Proofs.Reading.RoundTrip
import ClassModel.Proofs.Cache.Stretch
import ClassModel.Proofs.Cache.Snapshot
import ClassModel.Proofs.Cache.Coherence
import ClassModel.Proofs.Cache.Work
import ClassModel.Proofs.Workspace.Modification
import ClassModel.Proofs.Reading.Template
import ClassModel.Proofs.Reading.Spacing
import ClassModel.Proofs.Token.Excerpt
import ClassModel.Proofs.Reading.Proper
import ClassModel.Proofs.Workspace.EnumMethods
import ClassModel.Proofs.Workspace.Hierarchy
import ClassModel.Proofs.Workspace.Accounts
import ClassModel.Proofs.Workspace.Isolation
import ClassModel.Proofs.Checked.Safety
import ClassModel.Proofs.Table.Roster
import ClassModel.Proofs.Workspace.Inheritance
import ClassModel.Proofs.Workspace.Failure
import ClassModel.Proofs.Workspace.Overdue
import ClassModel.Proofs.Workspace.Bases
import ClassModel.Proofs.Reading.NormalForm
import ClassModel.Proofs.Cache.Shadowing
import ClassModel.Proofs.Token.Faults
import ClassModel.Proofs.Cache.Attempts
import ClassModel.Proofs.Cache.Unnamed
import ClassModel.Proofs.Token.Literal
import ClassModel.Proofs.Workspace.Interruption
import ClassModel.Proofs.Cache.Unprovided
import ClassModel.Proofs.Report.Form
import ClassModel.Proofs.Report.RoundTrip
import ClassModel.Proofs.Cell.History
import ClassModel.Proofs.Session.Isolation
import ClassModel.Session
import ClassModel.Naming.Interner
