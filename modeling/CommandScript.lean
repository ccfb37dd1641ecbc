import CommandScript.Machine.Mixed
import CommandScript.Main
import CommandScript.Syntax.Context
import CommandScript.Proofs.Evaluation.Resolving
import CommandScript.Proofs.Evaluation.Retyping
import CommandScript.Proofs.Lists.Joining
import CommandScript.Proofs.Grammar.Construction
import CommandScript.Proofs.Grammar.Concatenation
import CommandScript.Proofs.Grammar.Arguments
import CommandScript.Proofs.Grammar.Sources
import CommandScript.Proofs.Scanning.Nesting
import CommandScript.Proofs.Scanning.Depth
import CommandScript.Proofs.Scanning.Extension
import CommandScript.Proofs.Scanning.Finality
import CommandScript.Proofs.Scanning.Completion
import CommandScript.Proofs.Scanning.Tiling
import CommandScript.Proofs.Session.BlockEnds
import CommandScript.Proofs.Session.Cache
import CommandScript.Proofs.Session.MoreInput
import CommandScript.Proofs.Running.Keeping
import CommandScript.Proofs.Running.Steps
import CommandScript.Proofs.Running.Agreement
import CommandScript.Proofs.Running.Termination
import CommandScript.Proofs.Running.Effects
import CommandScript.Proofs.Running.Rest
import CommandScript.Proofs.Running.Scopes
import CommandScript.Proofs.Running.Limit
import CommandScript.Proofs.Scanning.Correspondence
import CommandScript.Proofs.Scanning.Seam
import CommandScript.Proofs.Scanning.Extraction
import CommandScript.Proofs.Running.Blocks
import CommandScript.Proofs.Reporting.Context
import CommandScript.Proofs.Reporting.Listings
import CommandScript.Proofs.Running.Reading
import CommandScript.Proofs.Running.Attribution
import CommandScript.Proofs.Comparing.Watching
import CommandScript.Proofs.Comparing.LetterCase
import CommandScript.Proofs.Running.Sequencing
import CommandScript.Proofs.Running.Returning
import CommandScript.Proofs.Scopes.Tree
import CommandScript.Proofs.Session.Assignments
import CommandScript.Proofs.Evaluation.Verbatim
import CommandScript.Proofs.Session.Parameters
import CommandScript.Proofs.Running.Diagnosing
import CommandScript.Proofs.Running.Counting
import CommandScript.Proofs.Command.Binding
import CommandScript.Proofs.CommandLine.Prompt
