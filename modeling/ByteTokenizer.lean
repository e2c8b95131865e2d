import ByteTokenizer.Document.Alphabet
import ByteTokenizer.Main
import ByteTokenizer.Tokenizer.Session
import ByteTokenizer.Proofs.Cursor.Between
import ByteTokenizer.Proofs.Tokenizer.Turn
import ByteTokenizer.Proofs.Progress
import ByteTokenizer.Proofs.Failure
import ByteTokenizer.Proofs.Rule.Pattern
import ByteTokenizer.Proofs.Rule.Parts
import ByteTokenizer.Proofs.Segment
import ByteTokenizer.Proofs.Location
import ByteTokenizer.Proofs.Restart
import ByteTokenizer.Proofs.Exchange
import ByteTokenizer.Proofs.Renaming
import ByteTokenizer.Proofs.Language.Lexeme
import ByteTokenizer.Proofs.Language.Reading
import ByteTokenizer.Proofs.Language.Automaton
import ByteTokenizer.Proofs.Language.RoundTrip
import ByteTokenizer.Proofs.Account
import ByteTokenizer.Proofs.Tokenizer.Mindful
import ByteTokenizer.Proofs.History
import ByteTokenizer.Proofs.Tokenizer.Grouping
import ByteTokenizer.Proofs.MaximalRuns
import ByteTokenizer.Proofs.Numbers
import ByteTokenizer.Proofs.Document.Spelling
import ByteTokenizer.Proofs.Cursor.ReadHead
import ByteTokenizer.Proofs.Cursor.Operation
import ByteTokenizer.Proofs.Rule.Dissection
import ByteTokenizer.Proofs.Location.Lines
import ByteTokenizer.Proofs.Cursor.Asking
import ByteTokenizer.Proofs.Cursor.Counting
import ByteTokenizer.Proofs.Text.Decoding
import ByteTokenizer.Proofs.Token
import ByteTokenizer.Proofs.Text.Lines
import ByteTokenizer.Proofs.Text.Quoted
import ByteTokenizer.Proofs.Language.Listing
import ByteTokenizer.Proofs.ByteClass.Leaves
import ByteTokenizer.Proofs.ByteClass.Interval
