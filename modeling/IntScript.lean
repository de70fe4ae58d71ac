import IntScript.Main
import IntScript.Text.Utf8.Lemmas
import IntScript.Tree.Parenthesized
import IntScript.Proofs.Grammar.Derivation
import IntScript.Proofs.Grammar.Reading
import IntScript.Proofs.Grammar.Expression
import IntScript.Proofs.Grammar.Program
import IntScript.Proofs.Parse.Sources
import IntScript.Proofs.Grammar.Recognition
import IntScript.Proofs.Machine.Blame
import IntScript.Proofs.Session.History
import IntScript.Proofs.Machine.Effect
import IntScript.Proofs.Machine.Tandem
import IntScript.Proofs.Machine.Limits
import IntScript.Proofs.Machine.Alike
import IntScript.Proofs.Machine.Scope
import IntScript.Proofs.Machine.Failure
import IntScript.Proofs.Session.Failure
import IntScript.Proofs.Grammar.Joined
import IntScript.Proofs.Session.Parts
import IntScript.Proofs.Session.Recursion
import IntScript.Proofs.Shell.Chunk
import IntScript.Proofs.Shell.Dialogue
import IntScript.Proofs.Machine.Output
import IntScript.Proofs.Session.Respelling
import IntScript.Proofs.Token.Partition
import IntScript.Proofs.Token.Stream
import IntScript.Proofs.Token.Lookahead
import IntScript.Proofs.Grammar.Anchors
import IntScript.Proofs.Files.Loader
import IntScript.Bindings.Lemmas
import IntScript.Proofs.Settings.Words
import IntScript.Proofs.Session.Blame
import IntScript.Proofs.Machine.Events
import IntScript.Proofs.Machine.Truncation
import IntScript.Proofs.Machine.Deeds
import IntScript.Proofs.Session.Listings
import IntScript.Proofs.Machine.Lines
import IntScript.Proofs.Machine.Expression
import IntScript.Proofs.Machine.Steps
import IntScript.Proofs.Machine.Arithmetic
import IntScript.Proofs.Machine.Polynomial
import IntScript.Proofs.Shell.Closing
import IntScript.Proofs.Machine.Squaring
import IntScript.Proofs.Text.Decimal
import IntScript.Proofs.Session.Numeral
import IntScript.Proofs.Text.Quoted
import IntScript.Proofs.Tree.Outline
import IntScript.Proofs.Tree.Parenthesized
import IntScript.Proofs.Machine.Division
import IntScript.Proofs.Parse.Looks
import IntScript.Proofs.Parse.Turns
