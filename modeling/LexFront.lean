import LexFront.Main
import LexFront.Proofs.Languages
import LexFront.Proofs.Lexer.Strategies
import LexFront.Proofs.Lexer.LengthLimit
import LexFront.Proofs.Quoting
import LexFront.Proofs.Cpp.Splices
import LexFront.Proofs.Cpp.SplicedLiterals
import LexFront.Proofs.Cpp.BehindSplices
import LexFront.Proofs.Cpp.Stretches
import LexFront.Proofs.Cpp.RawStrings
import LexFront.Proofs.Unit.Validity
import LexFront.Proofs.Parser.Acceptance
import LexFront.Proofs.Parser.Insensitivity
import LexFront.Proofs.Line.Canonical
import LexFront.Proofs.Parser.Reporting
import LexFront.Proofs.Source.Answers
import LexFront.Proofs.Checked.Units
import LexFront.Proofs.Lexer.Endings
import LexFront.Proofs.CMake.Brackets
import LexFront.Proofs.Parser.Ordering
import LexFront.Proofs.Parser.Outcomes
import LexFront.Proofs.CommandLine.Bookkeeping
import LexFront.Proofs.CMake.Unquoted
import LexFront.Proofs.CMake.Coverage
import LexFront.Proofs.Cpp.NumericLiterals
import LexFront.Proofs.Lexer.Counting
import LexFront.Proofs.Lexeme.Delivery
import LexFront.Proofs.Diagnostic.Lines
import LexFront.Proofs.Journal.Standing
import LexFront.Proofs.Checked.SpliceMap
import LexFront.Proofs.CMake.Escapes
import LexFront.Proofs.Lexicon.Choosing
import LexFront.Proofs.Location.Advancing
