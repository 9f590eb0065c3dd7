import Z80.Assembly
import Z80.BuildStamp
import Z80.Calendar
import Z80.CommandLine
import Z80.Config.Basic
import Z80.Config.Document
import Z80.Diagnostic
import Z80.Dialogue
import Z80.Encoding
import Z80.Error
import Z80.Expr.Basic
import Z80.Expr.Eval
import Z80.Expr.Parser
import Z80.Folder
import Z80.Image
import Z80.InstructionSet.Arithmetic
import Z80.InstructionSet.Basic
import Z80.InstructionSet.Bits
import Z80.InstructionSet.Builtin
import Z80.InstructionSet.Control
import Z80.InstructionSet.Document
import Z80.InstructionSet.Form
import Z80.InstructionSet.Load
import Z80.InstructionSet.Transfer
import Z80.Json.Basic
import Z80.Json.Parser
import Z80.Keyword
import Z80.Layout
import Z80.Listing
import Z80.Main
import Z80.Numeral
import Z80.Pattern
import Z80.Placeholder
import Z80.Punct
import Z80.Report
import Z80.Selection
import Z80.Session
import Z80.Statement.Basic
import Z80.Statement.Parser
import Z80.Symbols
import Z80.SyntaxFault
import Z80.Text
import Z80.Text.Hidden
import Z80.Text.Style
import Z80.Token
import Z80.Token.Lexer
import Z80.Variant
import Z80.Yaml.Parser
import Z80.Yaml.Scalar
import Z80.Yaml.Token
import Z80.Proofs.Evaluation
import Z80.Proofs.SymbolTable
import Z80.Proofs.Run
import Z80.Proofs.DirectEncoding
import Z80.Proofs.Writing
import Z80.Proofs.Program
import Z80.Proofs.Renaming
import Z80.Proofs.Matching
import Z80.Proofs.TwoPasses
import Z80.Proofs.Disagreement
import Z80.Proofs.Grammar
import Z80.Proofs.Stability
import Z80.Proofs.Decisions
import Z80.Proofs.Constants
import Z80.Proofs.Resolution
import Z80.Proofs.Correspondence
import Z80.Proofs.Lockstep
import Z80.Proofs.WrittenAlike
import Z80.Proofs.LocalNames
import Z80.Proofs.TranslationUnit
import Z80.Proofs.Undocumented
import Z80.Proofs.Definitions
import Z80.Proofs.CurrentAddress
import Z80.Proofs.FirstMatch
import Z80.Proofs.Scanning
import Z80.Proofs.Spelling
import Z80.Proofs.LeadingConstants
import Z80.Proofs.Capture
import Z80.Proofs.WholeTable
import Z80.Proofs.MemoryMap
import Z80.Proofs.ExprGrammar
import Z80.Proofs.SymbolHistory
import Z80.Proofs.ReportOrder
import Z80.Proofs.DataItems
import Z80.Proofs.Lexing
import Z80.Proofs.ReadingBack
import Z80.Proofs.TokenMaps
import Z80.Proofs.LetterCase
import Z80.Proofs.NumberSpelling
import Z80.Proofs.BinaryMarks
import Z80.Proofs.Rescanning
import Z80.Proofs.Numerals
import Z80.Proofs.OptionNumbers
import Z80.Proofs.ExactValues
import Z80.Proofs.Gregorian
import Z80.Proofs.RowText
import Z80.Proofs.ListedImage
import Z80.Proofs.ShownExpr
import Z80.Proofs.RecasedLines
import Z80.Proofs.PatternTexts
