import Runbook.Main
import Runbook.Proofs.Invocation.Written
import Runbook.Proofs.Run.Cancellation
import Runbook.Proofs.Run.Delivery
import Runbook.Proofs.Run.Plain
import Runbook.Proofs.Run.Policy
import Runbook.Proofs.Run.Refusal
import Runbook.Proofs.Session.Consecutive
import Runbook.Proofs.Session.Deadline
import Runbook.Proofs.Session.Handover
import Runbook.Proofs.Store.Listing
import Runbook.Proofs.Token.LongestMatch
import Runbook.Proofs.Token.Tiling
import Runbook.Proofs.Token.Acceptance
import Runbook.Proofs.Token.Locations
import Runbook.Proofs.Invocation.Locations
import Runbook.Proofs.Invocation.Comments
import Runbook.Proofs.Invocation.LineBreaks
import Runbook.Proofs.Run.Course
import Runbook.Proofs.Run.Transitions
import Runbook.Session.Concurrent
import Runbook.Proofs.Session.Concurrent
import Runbook.Proofs.Text.Words
import Runbook.Proofs.Value
import Runbook.Proofs.Preset.Lines
import Runbook.Proofs.Preset.Written
import Runbook.Proofs.Span
import Runbook.Proofs.Preset.Limits
import Runbook.Proofs.Run.Timely
import Runbook.Proofs.CommandLine
import Runbook.Proofs.Program
import Runbook.Session.Tokens
import Runbook.Proofs.Session.Tokens
import Runbook.Proofs.Number.Numerals
import Runbook.Proofs.Invocation.Reader
import Runbook.Proofs.Run.Verbatim
import Runbook.Proofs.Invocation.Defects
import Runbook.Proofs.Invocation.Substitution
import Runbook.Proofs.Preset.Overlay
import Runbook.Proofs.Preset.Variables
import Runbook.Catalog.Table
import Runbook.Proofs.Catalog.Offers
import Runbook.Text.WordReader
import Runbook.Proofs.Text.WordRows
import Runbook.Proofs.Text.ReadingOrder
import Runbook.Proofs.Token.ReadingOrder
import Runbook.Number.Whole
import Runbook.Proofs.Number.Whole
