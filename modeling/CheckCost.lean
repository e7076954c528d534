import CheckCost.Main
import CheckCost.Proofs.CheckIndex
import CheckCost.Proofs.Correlation
import CheckCost.Proofs.ExactDuration
import CheckCost.Proofs.FileRanking
import CheckCost.Proofs.Number.Integers
import CheckCost.Proofs.Percentages
import CheckCost.Proofs.Returned
import CheckCost.Proofs.Accounting
import CheckCost.Proofs.SettingsLoading
import CheckCost.Proofs.Glob.Anchoring
import CheckCost.Proofs.Glob.DefaultPattern
import CheckCost.Proofs.Independence
import CheckCost.Proofs.Restriction
import CheckCost.Proofs.FiniteReport
import CheckCost.Proofs.Loading
import CheckCost.Proofs.Glob.Alternatives
import CheckCost.Proofs.Glob.LeadingSlash
import CheckCost.Proofs.CostliestItems
import CheckCost.Proofs.HalfPercent
import CheckCost.Proofs.IndexHistory
import CheckCost.Proofs.Precedence
import CheckCost.Proofs.PrintedReport
import CheckCost.Proofs.RelativePath
import CheckCost.Proofs.VariableReach
