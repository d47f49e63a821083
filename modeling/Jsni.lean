import Jsni.Text.Letters
import Jsni.Text.Columns
import Jsni.Text.Position
import Jsni.Erasure.Descriptor
import Jsni.Erasure.Spelling
import Jsni.Index.Static
import Jsni.Index.Fault
import Jsni.Index.Lookup
import Jsni.Index.File
import Jsni.Reference.Token
import Jsni.Resolution.Basic
import Jsni.Problem.File
import Jsni.Java.Unit
import Jsni.Query.View
import Jsni.Validation
import Jsni.Report
import Jsni.Main
import Jsni.Proofs.Computation
import Jsni.Proofs.Index.Hierarchy
import Jsni.Proofs.Index.Supertypes
import Jsni.Proofs.Index.Levels
import Jsni.Proofs.Index.Lookup
import Jsni.Proofs.Resolution.Outcome
import Jsni.Proofs.Reference.Grammar
import Jsni.Proofs.Reference.Reading
import Jsni.Proofs.Reference.WellFormed
import Jsni.Proofs.Text.Slice
import Jsni.Proofs.Text.Letters
import Jsni.Proofs.Text.Line
import Jsni.Proofs.Reference.Scan
import Jsni.Proofs.Java.Item
import Jsni.Proofs.Java.Body
import Jsni.Proofs.Java.Lexeme
import Jsni.Proofs.Java.Block
import Jsni.Proofs.Validation.Finding
import Jsni.Proofs.Validation.Place
import Jsni.Proofs.Validation.Site
import Jsni.Proofs.Validation.Result
import Jsni.Proofs.Validation.Severity
import Jsni.Proofs.Index.Agreement
import Jsni.Proofs.Validation.Failure
import Jsni.Proofs.Validation.Change
import Jsni.Proofs.Erasure.Descriptor
import Jsni.Proofs.Index.Signature
import Jsni.Proofs.Validation.Order
import Jsni.Proofs.Problem.Template
import Jsni.Proofs.Query.Terms
import Jsni.Proofs.Query.Concatenation
import Jsni.Proofs.Query.Reread
import Jsni.Proofs.Resolution.Candidate
import Jsni.Proofs.Json.Symbol
import Jsni.Proofs.Json.Reader
import Jsni.Proofs.Index.Entry
import Jsni.Proofs.Report
import Jsni.Proofs.Index.Shadowing
import Jsni.Proofs.Index.Failure
import Jsni.Proofs.Java.Leaf
import Jsni.Proofs.Java.Attachment
import Jsni.Proofs.Java.Enclosing
import Jsni.Proofs.Java.Spelling
import Jsni.Proofs.Java.Modifiers
import Jsni.Proofs.Java.Directive
import Jsni.Proofs.Index.History
import Jsni.Proofs.Index.Superclass
import Jsni.Proofs.Index.AnySignature
import Jsni.Proofs.Index.Enrichment
import Jsni.Proofs.Validation.Message
import Jsni.Proofs.Problem.Severities
import Jsni.Proofs.Erasure.Spelling
import Jsni.Proofs.Index.Built
import Jsni.Proofs.Reference.Closing
import Jsni.Proofs.Reference.Name
