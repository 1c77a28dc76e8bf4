import FormulaRules.Main
import FormulaRules.Proofs.Grammar.Elaboration
import FormulaRules.Proofs.Reading.Complete
import FormulaRules.Proofs.Reading.Sound
import FormulaRules.Proofs.Reading.Acceptance
import FormulaRules.Proofs.Token.Lexes
import FormulaRules.Proofs.Token.Words
import FormulaRules.Proofs.Number.Written
import FormulaRules.Proofs.Render.Phrase
import FormulaRules.Proofs.Render.RoundTrip
import FormulaRules.Proofs.Render.Accepted
import FormulaRules.Proofs.Evaluation.Run
import FormulaRules.Proofs.Evaluation.Congruence
import FormulaRules.Proofs.Evaluation.Typing
import FormulaRules.Proofs.Evaluation.Simulation
import FormulaRules.Proofs.Evaluation.Faults
import FormulaRules.Proofs.Number.Double
import FormulaRules.Proofs.Number.Nearest
import FormulaRules.Proofs.Number.FromDecimal
import FormulaRules.Proofs.Evaluation.Lookups
import FormulaRules.Proofs.RuleSet.Selection
import FormulaRules.Proofs.Resolver.Composition
import FormulaRules.Proofs.RuleSet.Reproduction
import FormulaRules.Proofs.Number.Whole
import FormulaRules.Proofs.Evaluation.Finite
import FormulaRules.Proofs.Expr.Parts
import FormulaRules.Proofs.Evaluation.Dependencies
import FormulaRules.Proofs.RuleSet.Defaults
import FormulaRules.Proofs.Evaluation.Cancellation
import FormulaRules.Proofs.RuleSet.Cancellation
import FormulaRules.Proofs.Reading.Heights
import FormulaRules.Proofs.Reading.Refusal
import FormulaRules.Proofs.Reading.WellFormed
import FormulaRules.Proofs.Reading.Location
import FormulaRules.Proofs.Condition.Shortcut
import FormulaRules.Proofs.RuleSet.Validation
import FormulaRules.Proofs.Reading.Nesting
import FormulaRules.Proofs.RuleSet.Marks
import FormulaRules.Proofs.Command.Variables
import FormulaRules.Proofs.Command.Ending
import FormulaRules.Proofs.Token.Longest
import FormulaRules.Proofs.Token.Scan
import FormulaRules.Proofs.Token.Numerals
import FormulaRules.Proofs.Token.Separation
import FormulaRules.Proofs.Token.Tiling
import FormulaRules.Proofs.Expr.Document
import FormulaRules.Proofs.RuleSet.Document
import FormulaRules.Proofs.Reading.Precedence
import FormulaRules.Proofs.Resolver.Layering
import FormulaRules.Proofs.RuleSet.Position
import FormulaRules.Proofs.Evaluation.Choice
import FormulaRules.Proofs.Evaluation.Spelling
import FormulaRules.Proofs.Function.Arguments
import FormulaRules.Proofs.Token.Alone
import FormulaRules.Proofs.Command.Names
import FormulaRules.Proofs.Value.Loose
import FormulaRules.Proofs.Number.Signs
import FormulaRules.Proofs.Token.Splice
import FormulaRules.Proofs.Grammar.Replacement
import FormulaRules.Proofs.Evaluation.Replacement
import FormulaRules.Proofs.Command.Literals
import FormulaRules.Proofs.Function.Registration
import FormulaRules.Proofs.Token.Forms
import FormulaRules.Proofs.Evaluation.Folding
import FormulaRules.Proofs.Number.Units
import FormulaRules.Proofs.Number.Difference
import FormulaRules.Proofs.Value.Equality
import FormulaRules.Proofs.Condition.Tiers
