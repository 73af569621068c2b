import SheetFormula.Main
import SheetFormula.Exchange.Tree
import SheetFormula.Proofs.Parse.Exact
import SheetFormula.Proofs.Parse.Faithful
import SheetFormula.Proofs.Parse.Recovery
import SheetFormula.Proofs.Parse.Regular
import SheetFormula.Proofs.Parse.Report
import SheetFormula.Proofs.Parse.Layout
import SheetFormula.Proofs.Parse.Size
import SheetFormula.Tree.Walk
import SheetFormula.Proofs.Parse.Relocation
import SheetFormula.Proofs.Lexeme.Shift
import SheetFormula.Proofs.Parse.Lead
import SheetFormula.Proofs.Parse.Lists
import SheetFormula.Proofs.Lexeme.Outlook
import SheetFormula.Proofs.Text.Seam
import SheetFormula.Proofs.Lexeme.Unique
import SheetFormula.Proofs.Lexeme.Respace
import SheetFormula.Proofs.Parse.Respace
import SheetFormula.Proofs.Lexeme.NumberGrammar
import SheetFormula.Proofs.Lexeme.Separation
import SheetFormula.Proofs.Lexeme.NumberParts
import SheetFormula.Proofs.Lexeme.NumberFaults
import SheetFormula.Proofs.Lexeme.NumberShapes
import SheetFormula.Proofs.Lexeme.NumberScan
import SheetFormula.Proofs.Lexeme.Lines
import SheetFormula.Proofs.Lexeme.Kinds
import SheetFormula.Proofs.Lexeme.Words
import SheetFormula.Proofs.Lexeme.Cursor
import SheetFormula.Proofs.Lexeme.Faults
import SheetFormula.Proofs.Lexeme.Strings
import SheetFormula.Proofs.Lexeme.Illegal
import SheetFormula.Proofs.Parse.Trace
import SheetFormula.Proofs.Parse.Termination
import SheetFormula.Proofs.Session.Dialogue
import SheetFormula.Proofs.Exchange.RoundTrip
import SheetFormula.Proofs.Lexeme.Ending
import SheetFormula.Proofs.Tree.Tour
import SheetFormula.Proofs.Tree.Events
import SheetFormula.Proofs.Parse.Preorder
import SheetFormula.Proofs.Exchange.Reading
import SheetFormula.Proofs.Session.Report
import SheetFormula.Proofs.Lexeme.Alone
import SheetFormula.Proofs.Parse.Values
import SheetFormula.Proofs.Lexeme.Keeping
import SheetFormula.Proofs.Location.Order
import SheetFormula.Proofs.Lexeme.Misplacement
import SheetFormula.Proofs.Text.Window
import SheetFormula.Proofs.Location.Lookup
