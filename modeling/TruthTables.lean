import TruthTables.CommandLine.Arguments
import TruthTables.CommandLine.Folder
import TruthTables.CommandLine.Run
import TruthTables.Entries
import TruthTables.Expression
import TruthTables.Fault
import TruthTables.Formula
import TruthTables.Log
import TruthTables.Log.Threshold
import TruthTables.Main
import TruthTables.Operand
import TruthTables.Postfix
import TruthTables.Postfix.Evaluation
import TruthTables.Postfix.Form
import TruthTables.Settings
import TruthTables.Submission
import TruthTables.Table
import TruthTables.Table.Generation
import TruthTables.Text.Aligned
import TruthTables.Text.Characters
import TruthTables.Text.Csv
import TruthTables.Text.Quoted
import TruthTables.Token
import TruthTables.Workbench
import TruthTables.Proofs.InfixGrammar
import TruthTables.Proofs.AcceptedText
import TruthTables.Proofs.Brackets
import TruthTables.Proofs.CanonicalText
import TruthTables.Proofs.CommandLine.OutputPath
import TruthTables.Proofs.CommandLine.Plan
import TruthTables.Proofs.CommandLine.PrintedTable
import TruthTables.Proofs.Composition
import TruthTables.Proofs.ConvertedTokens
import TruthTables.Proofs.Evaluation.Entrywise
import TruthTables.Proofs.Evaluation.Transfer
import TruthTables.Proofs.Formula.Arrangement
import TruthTables.Proofs.Formula.Juxtaposition
import TruthTables.Proofs.Formula.Tabulation
import TruthTables.Proofs.Formula.Reading
import TruthTables.Proofs.Formula.Renaming
import TruthTables.Proofs.Formula.Substitution
import TruthTables.Proofs.NegationRuns
import TruthTables.Proofs.Postfix.Brackets
import TruthTables.Proofs.Postfix.Conservation
import TruthTables.Proofs.Postfix.Conversion
import TruthTables.Proofs.Postfix.Frame
import TruthTables.Proofs.Postfix.Group
import TruthTables.Proofs.Postfix.Readability
import TruthTables.Proofs.Postfix.Step
import TruthTables.Proofs.Postfix.Supply
import TruthTables.Proofs.Postfix.Waiting
import TruthTables.Proofs.Postfix.Weight
import TruthTables.Proofs.Renaming
import TruthTables.Proofs.Submission
import TruthTables.Proofs.Submission.Status
import TruthTables.Proofs.Substitution
import TruthTables.Proofs.SurplusClosings
import TruthTables.Proofs.Table.Assignments
import TruthTables.Proofs.Table.Completeness
import TruthTables.Proofs.Table.Composition
import TruthTables.Proofs.Table.Failure
import TruthTables.Proofs.Text.Aligned
import TruthTables.Proofs.Text.Csv
import TruthTables.Proofs.TextPieces
import TruthTables.Proofs.Token.MaximalPieces
import TruthTables.Proofs.Token.Pieces
import TruthTables.Proofs.UnassignedVariables
import TruthTables.Proofs.Workbench
