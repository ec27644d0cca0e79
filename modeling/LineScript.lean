import LineScript.Main
import LineScript.Command.World
import LineScript.Machine.Call
import LineScript.Session.Script
import LineScript.Proofs.Formula
import LineScript.Proofs.Reading
import LineScript.Proofs.Precedence
import LineScript.Proofs.Substitution
import LineScript.Proofs.Effect
import LineScript.Proofs.Slices
import LineScript.Proofs.Invariant
import LineScript.Proofs.Fields
import LineScript.Proofs.Faults
import LineScript.Proofs.History
import LineScript.Proofs.Nesting
import LineScript.Proofs.Infix
import LineScript.Proofs.Spelling
import LineScript.Proofs.Acceptance
import LineScript.Proofs.Blanks
import LineScript.Proofs.Then
import LineScript.Proofs.Branch
import LineScript.Proofs.Placement
import LineScript.Proofs.Lockstep
import LineScript.Proofs.Renumbering
import LineScript.Proofs.Tracing
import LineScript.Proofs.Interrupts
import LineScript.Proofs.Canonical
import LineScript.Proofs.RoundTrip
import LineScript.Proofs.Blame
import LineScript.Proofs.Halting
import LineScript.Proofs.LastWrite
import LineScript.Proofs.Answers
import LineScript.Proofs.Regrouping
import LineScript.Proofs.Decoding
import LineScript.Proofs.Files
import LineScript.Proofs.Requests
import LineScript.Proofs.Lexemes
import LineScript.Proofs.Fusion
import LineScript.Proofs.Shortcuts
import LineScript.Proofs.Quotation
import LineScript.Proofs.Comparisons
import LineScript.Proofs.Memory
import LineScript.Proofs.Grammar
import LineScript.Proofs.Trial
import LineScript.Proofs.Limits
import LineScript.Proofs.Delivery
import LineScript.Proofs.ReadBack
import LineScript.Proofs.Resolution
import LineScript.Proofs.Targets
import LineScript.Proofs.Search
import LineScript.Proofs.Budgets
