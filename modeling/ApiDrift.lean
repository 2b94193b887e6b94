import ApiDrift.Api.Annotation
import ApiDrift.Api.Basic
import ApiDrift.Api.Json
import ApiDrift.Api.Member
import ApiDrift.Change.Basic
import ApiDrift.Change.Code
import ApiDrift.Change.Compare
import ApiDrift.CommandLine.Command
import ApiDrift.CommandLine.Date
import ApiDrift.CommandLine.Documents
import ApiDrift.CommandLine.Options
import ApiDrift.CommandLine.Output
import ApiDrift.CommandLine.Run
import ApiDrift.CommandLine.Vcs
import ApiDrift.Content
import ApiDrift.Diagnostic
import ApiDrift.Files.Tree
import ApiDrift.Git.Area
import ApiDrift.Git.Checkout
import ApiDrift.Git.Moment
import ApiDrift.Git.Object
import ApiDrift.Git.RefName
import ApiDrift.Git.Remote
import ApiDrift.Git.Repository
import ApiDrift.Git.Revision
import ApiDrift.Git.Setup
import ApiDrift.Git.Workspace
import ApiDrift.Introspection.Children
import ApiDrift.Introspection.Describe
import ApiDrift.Introspection.Nesting
import ApiDrift.Introspection.Parse
import ApiDrift.Introspection.Problem
import ApiDrift.Json
import ApiDrift.Location
import ApiDrift.Main
import ApiDrift.Name
import ApiDrift.Policy
import ApiDrift.Proofs.Api.Annotation
import ApiDrift.Proofs.Api.Insertion
import ApiDrift.Proofs.Api.Shape
import ApiDrift.Proofs.Api.Tree
import ApiDrift.Proofs.Change.Agreement
import ApiDrift.Proofs.Change.Chain
import ApiDrift.Proofs.Change.Code
import ApiDrift.Proofs.Change.Compatibility
import ApiDrift.Proofs.Change.Edit
import ApiDrift.Proofs.Change.Genuine
import ApiDrift.Proofs.Change.Inverse
import ApiDrift.Proofs.Change.Keyed
import ApiDrift.Proofs.Change.Location
import ApiDrift.Proofs.Change.Mirror
import ApiDrift.Proofs.Change.NodePath
import ApiDrift.Proofs.Change.Order
import ApiDrift.Proofs.Change.Pass
import ApiDrift.Proofs.Change.Places
import ApiDrift.Proofs.Change.Rearrangement
import ApiDrift.Proofs.Change.Relaxation
import ApiDrift.Proofs.Change.Sites
import ApiDrift.Proofs.Change.Warnings
import ApiDrift.Proofs.Git.Install
import ApiDrift.Proofs.Git.Latest
import ApiDrift.Proofs.Introspection.Clean
import ApiDrift.Proofs.Introspection.Comments
import ApiDrift.Proofs.Introspection.Describe
import ApiDrift.Proofs.Introspection.Doctype
import ApiDrift.Proofs.Introspection.DocumentOrder
import ApiDrift.Proofs.Introspection.Gather
import ApiDrift.Proofs.Introspection.Grammar
import ApiDrift.Proofs.Introspection.Limit
import ApiDrift.Proofs.Introspection.Markup
import ApiDrift.Proofs.Introspection.Members
import ApiDrift.Proofs.Introspection.Nesting
import ApiDrift.Proofs.Introspection.NodeTree
import ApiDrift.Proofs.Introspection.Parse
import ApiDrift.Proofs.Introspection.Repeats
import ApiDrift.Proofs.Introspection.Scan
import ApiDrift.Proofs.Introspection.TagLocation
import ApiDrift.Proofs.Introspection.Told
import ApiDrift.Proofs.Name
import ApiDrift.Proofs.Signature.Automaton
import ApiDrift.Proofs.Signature.Parser
import ApiDrift.Proofs.Signature.Wording
import ApiDrift.Proofs.Snapshot.Action
import ApiDrift.Proofs.Snapshot.Checked
import ApiDrift.Proofs.Snapshot.Deed
import ApiDrift.Proofs.Snapshot.Distribution
import ApiDrift.Proofs.Snapshot.Fleet
import ApiDrift.Proofs.Snapshot.Install
import ApiDrift.Proofs.Snapshot.Keeps
import ApiDrift.Proofs.Snapshot.Listing
import ApiDrift.Proofs.Snapshot.Memory
import ApiDrift.Proofs.Snapshot.Namesakes
import ApiDrift.Proofs.Snapshot.Newest
import ApiDrift.Proofs.Snapshot.Notes
import ApiDrift.Proofs.Snapshot.ReadOnly
import ApiDrift.Proofs.Snapshot.Reconcile
import ApiDrift.Proofs.Snapshot.Release
import ApiDrift.Proofs.Snapshot.Retry
import ApiDrift.Proofs.Snapshot.Tracked
import ApiDrift.Proofs.Snapshot.Unrecorded
import ApiDrift.Proofs.Snapshot.Verdict
import ApiDrift.Proofs.Table
import ApiDrift.Proofs.Text.Affix
import ApiDrift.Proofs.Text.Blank
import ApiDrift.Proofs.Xml.Outline
import ApiDrift.Proofs.Xml.Reader
import ApiDrift.Signature.Basic
import ApiDrift.Signature.Parser
import ApiDrift.Snapshot.Backend
import ApiDrift.Snapshot.Check
import ApiDrift.Snapshot.Config
import ApiDrift.Snapshot.Failure
import ApiDrift.Snapshot.List
import ApiDrift.Snapshot.Memory
import ApiDrift.Snapshot.Record
import ApiDrift.Snapshot.Tracked
import ApiDrift.Table
import ApiDrift.Text.Affix
import ApiDrift.Text.Blank
import ApiDrift.Text.CharClass
import ApiDrift.Text.Digits
import ApiDrift.Text.Glob
import ApiDrift.Text.Pattern
import ApiDrift.Text.Quoted
import ApiDrift.Text.SipHash
import ApiDrift.Text.Split
import ApiDrift.Text.Unseen
import ApiDrift.Text.Utf8
import ApiDrift.Xml.Char
import ApiDrift.Xml.Document
import ApiDrift.Xml.Fault
import ApiDrift.Xml.Prolog
import ApiDrift.Xml.Reader
import ApiDrift.Xml.Reference
import ApiDrift.Xml.Scanner
import ApiDrift.Xml.Token
import ApiDrift.Xml.Tree
