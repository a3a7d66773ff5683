import GrammarView.CommandLine.FileTree
import GrammarView.Grammar.References
import GrammarView.Main
import GrammarView.Proofs.Expressions
import GrammarView.Proofs.Language
import GrammarView.Proofs.Descriptions
import GrammarView.Proofs.Delisting
import GrammarView.Proofs.Claims
import GrammarView.Proofs.Drawn
import GrammarView.Proofs.DiagramLanguage
import GrammarView.Proofs.Panels
import GrammarView.Proofs.Words
import GrammarView.Proofs.Lexemes
import GrammarView.Proofs.Spans
import GrammarView.Proofs.Replacement
import GrammarView.Proofs.Productions
import GrammarView.Proofs.Printer
import GrammarView.Proofs.Doubles
import GrammarView.Proofs.WellFormed
import GrammarView.Proofs.ReferenceGraph
import GrammarView.Proofs.Expansion
import GrammarView.Proofs.CollapsedListing
import GrammarView.Proofs.PrintedNames
import GrammarView.Proofs.Drawings
import GrammarView.Proofs.Stepwise
import GrammarView.Proofs.Builder
import GrammarView.Proofs.AllDiagrams
import GrammarView.Proofs.Areas
import GrammarView.Proofs.ReturnTracks
import GrammarView.Proofs.Sheets
import GrammarView.Proofs.Steps
import GrammarView.Proofs.ClosedTracks
import GrammarView.Proofs.Piles
import GrammarView.Proofs.Refusals
import GrammarView.Proofs.Overlays
import GrammarView.Proofs.Variations
import GrammarView.Proofs.JsonStrings
import GrammarView.Proofs.JsonLiterals
import GrammarView.Proofs.JsonTexts
import GrammarView.Proofs.Comments
import GrammarView.Proofs.Calls
import GrammarView.Proofs.Formats
import GrammarView.Proofs.WrittenJson
import GrammarView.Proofs.Reachability
import GrammarView.Proofs.ReferenceCycles
import GrammarView.Proofs.MarkupReader
import GrammarView.Proofs.WrittenMarkup
import GrammarView.Proofs.Painting
import GrammarView.Proofs.Captions
import GrammarView.Proofs.FileSystems
import GrammarView.Proofs.Consoles
import GrammarView.Proofs.Runs
import GrammarView.Proofs.WrittenViews
import GrammarView.Proofs.Widths
import GrammarView.Proofs.ListRoom
import GrammarView.Proofs.LowerTracks
import GrammarView.Proofs.Alternatives
import GrammarView.Proofs.KeptLists
import GrammarView.Proofs.SourceShapes
import GrammarView.Proofs.Unwrapping
import GrammarView.Proofs.LeadingLines
import GrammarView.Proofs.Annotations
import GrammarView.Proofs.ClaimHistories
import GrammarView.Proofs.EditedRules
import GrammarView.Proofs.Rounding
import GrammarView.Proofs.DoubleValues
import GrammarView.Proofs.Margins
import GrammarView.Proofs.Digits
import GrammarView.Proofs.Numerals
import GrammarView.Proofs.WrittenLengths
