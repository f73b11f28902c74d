import Glossopoeia.Affix.Basic
import Glossopoeia.Affix.CellForm
import Glossopoeia.Affix.Compile
import Glossopoeia.Affix.Document
import Glossopoeia.Affix.Transform
import Glossopoeia.CommandLine.Arguments
import Glossopoeia.CommandLine.Run
import Glossopoeia.Config.Settings
import Glossopoeia.Config.Toml
import Glossopoeia.Config.TomlReader
import Glossopoeia.Decimal.Shortest
import Glossopoeia.Declension.Combination
import Glossopoeia.Declension.Decliner
import Glossopoeia.Declension.Word
import Glossopoeia.Derivation.Component
import Glossopoeia.Derivation.Deriver
import Glossopoeia.Derivation.OrderedIndex
import Glossopoeia.Derivation.WordIndex
import Glossopoeia.Dictionary
import Glossopoeia.Error
import Glossopoeia.GrammarTable.Label
import Glossopoeia.GrammarTable.State
import Glossopoeia.GrammarTable.Walk
import Glossopoeia.Json.Basic
import Glossopoeia.Json.Decode
import Glossopoeia.Json.Number
import Glossopoeia.Json.Parser
import Glossopoeia.Json.Printer
import Glossopoeia.Json.Quoted
import Glossopoeia.Language.Build
import Glossopoeia.Language.Document
import Glossopoeia.Language.SaveFile
import Glossopoeia.Language.Upkeep
import Glossopoeia.Lexicon.Dedup
import Glossopoeia.Lexicon.Entry
import Glossopoeia.Lexicon.Order
import Glossopoeia.Lexicon.WordList
import Glossopoeia.Lexicon.WordNotation
import Glossopoeia.Main
import Glossopoeia.Pattern.Basic
import Glossopoeia.Pattern.CharSet
import Glossopoeia.Pattern.Class
import Glossopoeia.Pattern.Escape
import Glossopoeia.Pattern.Matcher
import Glossopoeia.Pattern.Reader
import Glossopoeia.Pattern.Template
import Glossopoeia.Pattern.Token
import Glossopoeia.Phonology.Inventory
import Glossopoeia.Phonology.SoundClass
import Glossopoeia.Phonology.Symbol
import Glossopoeia.Positions
import Glossopoeia.Proofs.Affix.Agree
import Glossopoeia.Proofs.Affix.Boundary
import Glossopoeia.Proofs.Affix.Derivational
import Glossopoeia.Proofs.Affix.Document
import Glossopoeia.Proofs.Affix.Lengthening
import Glossopoeia.Proofs.Affix.Notation
import Glossopoeia.Proofs.Affix.Pieces
import Glossopoeia.Proofs.Affix.RuleShapes
import Glossopoeia.Proofs.Affix.Solid
import Glossopoeia.Proofs.Decimal.Double
import Glossopoeia.Proofs.Decimal.Range
import Glossopoeia.Proofs.Decimal.Rounding
import Glossopoeia.Proofs.Decimal.Whole
import Glossopoeia.Proofs.Declension.Absorption
import Glossopoeia.Proofs.Declension.Combinations
import Glossopoeia.Proofs.Declension.Corresponding
import Glossopoeia.Proofs.Declension.Counting
import Glossopoeia.Proofs.Declension.Exchanged
import Glossopoeia.Proofs.Declension.Forms
import Glossopoeia.Proofs.Declension.Grouping
import Glossopoeia.Proofs.Declension.Interleaving
import Glossopoeia.Proofs.Declension.Selections
import Glossopoeia.Proofs.Declension.Shapes
import Glossopoeia.Proofs.Declension.Shortest
import Glossopoeia.Proofs.Declension.Slots
import Glossopoeia.Proofs.Declension.SoundGroups
import Glossopoeia.Proofs.Declension.Source
import Glossopoeia.Proofs.Derivation.Append
import Glossopoeia.Proofs.Derivation.Components
import Glossopoeia.Proofs.Derivation.Families
import Glossopoeia.Proofs.Derivation.Hyphens
import Glossopoeia.Proofs.Derivation.Lines
import Glossopoeia.Proofs.Derivation.Nameless
import Glossopoeia.Proofs.Derivation.OrderedIndex
import Glossopoeia.Proofs.Derivation.Resolving
import Glossopoeia.Proofs.Derivation.Roots
import Glossopoeia.Proofs.Derivation.Spelled
import Glossopoeia.Proofs.Derivation.WordIndex
import Glossopoeia.Proofs.Dictionary
import Glossopoeia.Proofs.GrammarTable.Abbreviations
import Glossopoeia.Proofs.GrammarTable.Append
import Glossopoeia.Proofs.GrammarTable.Boundaries
import Glossopoeia.Proofs.GrammarTable.CellLine
import Glossopoeia.Proofs.GrammarTable.Corresponding
import Glossopoeia.Proofs.GrammarTable.EmptyCells
import Glossopoeia.Proofs.GrammarTable.Entries
import Glossopoeia.Proofs.GrammarTable.Filing
import Glossopoeia.Proofs.GrammarTable.Groups
import Glossopoeia.Proofs.GrammarTable.Items
import Glossopoeia.Proofs.GrammarTable.Labels
import Glossopoeia.Proofs.GrammarTable.NamedCells
import Glossopoeia.Proofs.GrammarTable.Names
import Glossopoeia.Proofs.GrammarTable.Particles
import Glossopoeia.Proofs.GrammarTable.Rules
import Glossopoeia.Proofs.GrammarTable.Segments
import Glossopoeia.Proofs.GrammarTable.Spelled
import Glossopoeia.Proofs.Json.Decode
import Glossopoeia.Proofs.Json.Numeral
import Glossopoeia.Proofs.Json.Quoted
import Glossopoeia.Proofs.Json.Reread
import Glossopoeia.Proofs.Json.RoundTrip
import Glossopoeia.Proofs.Json.Scale
import Glossopoeia.Proofs.Language.Contents
import Glossopoeia.Proofs.Language.DeclineDerive
import Glossopoeia.Proofs.Language.DeclinedBuild
import Glossopoeia.Proofs.Language.DerivedBuild
import Glossopoeia.Proofs.Language.Document
import Glossopoeia.Proofs.Language.NounSlots
import Glossopoeia.Proofs.Language.RemovedDerived
import Glossopoeia.Proofs.Language.RoundTrip
import Glossopoeia.Proofs.Language.Spelled
import Glossopoeia.Proofs.Language.Upkeep
import Glossopoeia.Proofs.Language.VowelClass
import Glossopoeia.Proofs.Language.Words
import Glossopoeia.Proofs.Lexicon.Dedup
import Glossopoeia.Proofs.Lexicon.Hashing
import Glossopoeia.Proofs.Lexicon.Marks
import Glossopoeia.Proofs.Lexicon.Notes
import Glossopoeia.Proofs.Lexicon.Pairs
import Glossopoeia.Proofs.Lexicon.Ranks
import Glossopoeia.Proofs.Lexicon.Sorting
import Glossopoeia.Proofs.Lexicon.Spelled
import Glossopoeia.Proofs.Lexicon.WordNotation
import Glossopoeia.Proofs.Outcome
import Glossopoeia.Proofs.Pattern.FilledClass
import Glossopoeia.Proofs.Pattern.FilledItem
import Glossopoeia.Proofs.Pattern.FilledTokens
import Glossopoeia.Proofs.Pattern.Fillings
import Glossopoeia.Proofs.Pattern.Greedy
import Glossopoeia.Proofs.Pattern.Literal
import Glossopoeia.Proofs.Pattern.Matcher
import Glossopoeia.Proofs.Pattern.Outline
import Glossopoeia.Proofs.Pattern.References
import Glossopoeia.Proofs.Pattern.Rewriting
import Glossopoeia.Proofs.Pattern.Written
import Glossopoeia.Proofs.Phonology.SoundClass
import Glossopoeia.Proofs.Positions
import Glossopoeia.Proofs.SoundMap.Append
import Glossopoeia.Proofs.SoundMap.ContextLine
import Glossopoeia.Proofs.SoundMap.LearntClasses
import Glossopoeia.Proofs.SoundMap.Marker
import Glossopoeia.Proofs.SoundMap.Neighbour
import Glossopoeia.Proofs.SoundMap.RoundTrip
import Glossopoeia.Proofs.SoundMap.WordEdge
import Glossopoeia.Proofs.Text.Blank
import Glossopoeia.Proofs.Text.Cuts
import Glossopoeia.Proofs.Text.Words
import Glossopoeia.SoundMap.Basic
import Glossopoeia.SoundMap.Compile
import Glossopoeia.SoundMap.Context
import Glossopoeia.SoundMap.Phonemes
import Glossopoeia.SoundMap.Sounder
import Glossopoeia.SoundMap.Speller
import Glossopoeia.Text.Basic
import Glossopoeia.Text.Blank
import Glossopoeia.Text.Case
import Glossopoeia.Text.Case.Context
import Glossopoeia.Text.Case.Fold
import Glossopoeia.Text.Case.Lower
import Glossopoeia.Text.Case.Run
import Glossopoeia.Text.Case.Upper
import Glossopoeia.Text.CodeRange
import Glossopoeia.Text.DecimalDigit
import Glossopoeia.Text.Digit
import Glossopoeia.Text.WordChar
