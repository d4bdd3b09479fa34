import CommitCheck.Source.Memory
import CommitCheck.Main
import CommitCheck.Proofs.Lines
import CommitCheck.Proofs.SummaryGrammar
import CommitCheck.Proofs.Verdict
import CommitCheck.Proofs.LineEndings
import CommitCheck.Proofs.FileTree
import CommitCheck.Proofs.HookDirectory
import CommitCheck.Proofs.HookRequests
import CommitCheck.Proofs.HookLifecycle
import CommitCheck.Proofs.HookEffects
import CommitCheck.Proofs.HookStatus
import CommitCheck.Proofs.Objects
import CommitCheck.Proofs.Ranges
import CommitCheck.Proofs.DotRuns
import CommitCheck.Proofs.RangeTexts
import CommitCheck.Proofs.Backwards
import CommitCheck.Proofs.Printed
import CommitCheck.Proofs.Arguments
import CommitCheck.Proofs.Sources
import CommitCheck.Proofs.Lookups
import CommitCheck.Proofs.Registrations
import CommitCheck.Proofs.Retrieval
import CommitCheck.Proofs.Reports
import CommitCheck.Proofs.Runs
import CommitCheck.Proofs.ConfigSearch
import CommitCheck.Proofs.GlobMatching
import CommitCheck.Proofs.BranchPatterns
import CommitCheck.Proofs.WildcardPatterns
import CommitCheck.Proofs.BuildPlans
import CommitCheck.Proofs.HookEnforcement
import CommitCheck.Proofs.ConfigWriting
import CommitCheck.Proofs.EscapeCodes
import CommitCheck.Proofs.RuleLists
