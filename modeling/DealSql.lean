import DealSql.Main
import DealSql.Proofs.Characters
import DealSql.Proofs.LexemeSeams
import DealSql.Proofs.GateWords
import DealSql.Proofs.TokenSeams
import DealSql.Proofs.GateTokens
import DealSql.Proofs.Regions
import DealSql.Proofs.Templates
import DealSql.Proofs.Numerals
import DealSql.Proofs.PlaceholderGrammar
import DealSql.Proofs.ValidStatements
import DealSql.Proofs.TemplateMarks
import DealSql.Proofs.WholeTexts
import DealSql.Proofs.WrittenExpressions
import DealSql.Proofs.ConditionFragments
import DealSql.Proofs.ReadFragments
import DealSql.Proofs.GroupedConditions
import DealSql.Proofs.SelectedRows
import DealSql.Proofs.TransparentTexts
import DealSql.Proofs.AlikeTexts
import DealSql.Proofs.StatementTemplates
import DealSql.Proofs.TemplateLexemes
import DealSql.Proofs.PlaceholderValues
import DealSql.Proofs.TransparentValues
import DealSql.Proofs.AlikeValues
import DealSql.Proofs.SubstitutionMask
import DealSql.Proofs.TokenSources
import DealSql.Proofs.TrancheIds
import DealSql.Proofs.LiveBraces
import DealSql.Proofs.ExpressionParts
import DealSql.Proofs.PreviewParts
import DealSql.Proofs.Formulas
import DealSql.Proofs.PreviewScope
import DealSql.Proofs.VerbatimTexts
import DealSql.Proofs.FittingFragments
import DealSql.Proofs.UnplacedLexemes
import DealSql.Proofs.ExpressionFragments
import DealSql.Proofs.FragmentLexemes
import DealSql.Proofs.PlainStatements
import DealSql.Proofs.QuietTexts
import DealSql.Proofs.SafeFragments
import DealSql.Proofs.QueryFragments
import DealSql.Proofs.SafeQueries
import DealSql.Proofs.SealedTexts
import DealSql.Proofs.RemaskedTexts
import DealSql.Proofs.Segments
import DealSql.Proofs.QuotedTexts
import DealSql.Proofs.NameLexemes
import DealSql.Proofs.MaskedBytes
import DealSql.Proofs.PrintedJson
import DealSql.Proofs.Cycles
import DealSql.Proofs.StoredValues
import DealSql.Proofs.ResultNames
import DealSql.Proofs.SafePreviews
import DealSql.Proofs.PreviewReview
import DealSql.Proofs.CheckedStatements
import DealSql.Proofs.AcceptedCalculations
import DealSql.Proofs.QuotedNames
import DealSql.Proofs.ColumnItems
import DealSql.Proofs.SelectStatements
import DealSql.Proofs.EnclosedTexts
import DealSql.Proofs.ExchangedLexemes
import DealSql.Proofs.FilledLexemes
import DealSql.Proofs.FilledStatements
import DealSql.Proofs.BraceParts
import DealSql.Proofs.SubstitutionOutcomes
import DealSql.Proofs.StandIns
import DealSql.Proofs.SelectListEnds
import DealSql.Proofs.LetterCase
import DealSql.Proofs.ConjoinedFilters
import DealSql.Proofs.ListModifiers
import DealSql.Proofs.NestedQueries
import DealSql.Proofs.SampleCycles
import DealSql.Proofs.CatalogEntries
import DealSql.Proofs.CheckedFields
import DealSql.Proofs.CatalogOrder
import DealSql.Proofs.WeightedAverages
import DealSql.Proofs.CommentLines
import DealSql.Proofs.VariableReferences
import DealSql.Proofs.SpelledLexemes
import DealSql.Proofs.NestingDepths
