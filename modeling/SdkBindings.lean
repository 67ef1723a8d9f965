import SdkBindings.Constant.Error
import SdkBindings.Constant.Escape
import SdkBindings.Constant.Evaluation
import SdkBindings.Constant.Operator
import SdkBindings.Constant.Postfix
import SdkBindings.Constant.Value
import SdkBindings.Declaration.Document
import SdkBindings.Declaration.Header
import SdkBindings.Declaration.Type
import SdkBindings.Entries
import SdkBindings.Environment
import SdkBindings.Files.Access
import SdkBindings.Files.Name
import SdkBindings.Files.Path
import SdkBindings.Files.Replacement
import SdkBindings.Files.Tree
import SdkBindings.Grammar.Enumerations
import SdkBindings.Grammar.Fields
import SdkBindings.Grammar.Headers
import SdkBindings.Grammar.Platform
import SdkBindings.Grammar.Reader
import SdkBindings.Grammar.Session
import SdkBindings.Host
import SdkBindings.Json.Printer
import SdkBindings.Log
import SdkBindings.Main
import SdkBindings.Module.Error
import SdkBindings.Module.Expression
import SdkBindings.Module.Generate
import SdkBindings.Module.Line
import SdkBindings.Module.Name
import SdkBindings.Module.Preamble
import SdkBindings.Module.Sections
import SdkBindings.Module.Wrapper
import SdkBindings.Number
import SdkBindings.Numeral.Binary64
import SdkBindings.Numeral.Decimal
import SdkBindings.Numeral.Integer
import SdkBindings.PlatformType
import SdkBindings.Proofs.Binding.Attaching
import SdkBindings.Proofs.Binding.Deferred
import SdkBindings.Proofs.Binding.Items
import SdkBindings.Proofs.Comparison.Cursors
import SdkBindings.Proofs.Comparison.Expressions
import SdkBindings.Proofs.Comparison.Fields
import SdkBindings.Proofs.Comparison.Headers
import SdkBindings.Proofs.Comparison.Independence
import SdkBindings.Proofs.Comparison.LineEnds
import SdkBindings.Proofs.Comparison.Readers
import SdkBindings.Proofs.Comparison.Statements
import SdkBindings.Proofs.Declared.Names
import SdkBindings.Proofs.Declared.Passes
import SdkBindings.Proofs.Declared.Reading
import SdkBindings.Proofs.Declared.Types
import SdkBindings.Proofs.Document.Lossless
import SdkBindings.Proofs.Document.Reader
import SdkBindings.Proofs.Document.RoundTrip
import SdkBindings.Proofs.Enumeration.Bodies
import SdkBindings.Proofs.Enumeration.Groups
import SdkBindings.Proofs.Enumeration.Places
import SdkBindings.Proofs.Enumeration.Stored
import SdkBindings.Proofs.Enumeration.Values
import SdkBindings.Proofs.Errors.Headers
import SdkBindings.Proofs.Expression.Chains
import SdkBindings.Proofs.Expression.Conversion
import SdkBindings.Proofs.Expression.Heights
import SdkBindings.Proofs.Expression.Missing
import SdkBindings.Proofs.Expression.Operands
import SdkBindings.Proofs.Expression.Reading
import SdkBindings.Proofs.Expression.Sentence
import SdkBindings.Proofs.Expression.Unconvertible
import SdkBindings.Proofs.Expression.Value
import SdkBindings.Proofs.Expression.WellFormed
import SdkBindings.Proofs.Fields.Description
import SdkBindings.Proofs.Fields.Lists
import SdkBindings.Proofs.Fields.Parts
import SdkBindings.Proofs.Fields.Reads
import SdkBindings.Proofs.Files.Untouched
import SdkBindings.Proofs.Formula.Agreement
import SdkBindings.Proofs.Formula.Basic
import SdkBindings.Proofs.Formula.Emission
import SdkBindings.Proofs.Formula.Numbers
import SdkBindings.Proofs.Formula.Reading
import SdkBindings.Proofs.Formula.Rendering
import SdkBindings.Proofs.Formula.Spelling
import SdkBindings.Proofs.Formula.Words
import SdkBindings.Proofs.Grammar.Code
import SdkBindings.Proofs.Grammar.Evaluations
import SdkBindings.Proofs.Grammar.Forward
import SdkBindings.Proofs.Grammar.Lookahead
import SdkBindings.Proofs.Grammar.Rounds
import SdkBindings.Proofs.Grammar.Statement
import SdkBindings.Proofs.Grammar.Termination
import SdkBindings.Proofs.Lexing.Appending
import SdkBindings.Proofs.Lexing.Joined
import SdkBindings.Proofs.Lexing.Layout
import SdkBindings.Proofs.Lexing.Outside
import SdkBindings.Proofs.Lexing.Relexing
import SdkBindings.Proofs.Lexing.Rows
import SdkBindings.Proofs.Lexing.Tiling
import SdkBindings.Proofs.Literals.Emission
import SdkBindings.Proofs.Literals.Hexadecimal
import SdkBindings.Proofs.Literals.Integers
import SdkBindings.Proofs.Literals.Macro
import SdkBindings.Proofs.Literals.Quotation
import SdkBindings.Proofs.Literals.Spelling
import SdkBindings.Proofs.Module.Constants
import SdkBindings.Proofs.Module.Declarations
import SdkBindings.Proofs.Module.Definitions
import SdkBindings.Proofs.Module.Enumerators
import SdkBindings.Proofs.Module.Hygiene
import SdkBindings.Proofs.Module.Introduction
import SdkBindings.Proofs.Module.Legible
import SdkBindings.Proofs.Module.Lines
import SdkBindings.Proofs.Module.Marshalling
import SdkBindings.Proofs.Module.Names
import SdkBindings.Proofs.Module.Pointee
import SdkBindings.Proofs.Module.Scope
import SdkBindings.Proofs.Module.Shape
import SdkBindings.Proofs.Module.TypeScope
import SdkBindings.Proofs.Module.Wrappers
import SdkBindings.Proofs.Numeral.Tolerance
import SdkBindings.Proofs.Run.Failing
import SdkBindings.Proofs.Run.Outputs
import SdkBindings.Proofs.Run.Tracked
import SdkBindings.Proofs.Skipping.Constructs
import SdkBindings.Proofs.Skipping.Forms
import SdkBindings.Proofs.Skipping.Fronts
import SdkBindings.Proofs.Skipping.Headers
import SdkBindings.Proofs.Skipping.Items
import SdkBindings.Proofs.Skipping.Malformed
import SdkBindings.Proofs.Skipping.Runs
import SdkBindings.Proofs.Symbols.Project
import SdkBindings.Proofs.Symbols.Table
import SdkBindings.Proofs.Transform.Callees
import SdkBindings.Proofs.Transform.Canonical
import SdkBindings.Proofs.Transform.Duplicates
import SdkBindings.Proofs.Transform.Fields
import SdkBindings.Proofs.Transform.Identifiers
import SdkBindings.Proofs.Transform.Matching
import SdkBindings.Proofs.Transform.Names
import SdkBindings.Proofs.Transform.Order
import SdkBindings.Proofs.Transform.Parameters
import SdkBindings.Proofs.Transform.Passes
import SdkBindings.Proofs.Transform.RawTokens
import SdkBindings.Proofs.Transform.Repetition
import SdkBindings.Proofs.Transform.Rewrite
import SdkBindings.Proofs.Transform.Settling
import SdkBindings.Proofs.Transform.TypeGrammar
import SdkBindings.Proofs.Transform.TypeNames
import SdkBindings.Proofs.Transform.TypeReading
import SdkBindings.Rules
import SdkBindings.Run.Arguments
import SdkBindings.Run.CommandLine
import SdkBindings.Run.Configuration
import SdkBindings.Run.Console
import SdkBindings.Run.Failure
import SdkBindings.Run.Generation
import SdkBindings.Run.Progress
import SdkBindings.Run.Stages
import SdkBindings.Text.Blank
import SdkBindings.Text.Boundaries
import SdkBindings.Text.DecimalDigit
import SdkBindings.Text.Hexadecimal
import SdkBindings.Text.IdentifierCharacter
import SdkBindings.Text.Printable
import SdkBindings.Text.Quoted
import SdkBindings.Text.Split
import SdkBindings.Text.Substring
import SdkBindings.Text.Utf8
import SdkBindings.Text.WordCharacter
import SdkBindings.Token.Basic
import SdkBindings.Token.Cursor
import SdkBindings.Token.Lexer
import SdkBindings.Transform.Change
import SdkBindings.Transform.Duplicates
import SdkBindings.Transform.Erasure
import SdkBindings.Transform.Error
import SdkBindings.Transform.Guid
import SdkBindings.Transform.Normalize
import SdkBindings.Transform.Pairing
import SdkBindings.Transform.Pipeline
import SdkBindings.Transform.Resolve
