import Formula.Main
import Formula.Session
import Formula.Proofs.Run
import Formula.Proofs.Tree
import Formula.Proofs.Reading
import Formula.Proofs.Meaning
import Formula.Proofs.TwoPhases
import Formula.Proofs.ReadingBack
import Formula.Proofs.ShortCircuit
import Formula.Proofs.Curtailing
import Formula.Proofs.Strictness
import Formula.Proofs.Law
import Formula.Proofs.Nesting
import Formula.Proofs.Independence
import Formula.Proofs.Lexeme
import Formula.Proofs.Lexing
import Formula.Proofs.Offsets
import Formula.Proofs.Pointing
import Formula.Proofs.Resolving
import Formula.Proofs.Routes
import Formula.Proofs.Sentence
import Formula.Proofs.History
import Formula.Proofs.Displacing
import Formula.Proofs.EndMarker
import Formula.Proofs.Lookahead
import Formula.Proofs.Leftovers
import Formula.Proofs.Parentheses
import Formula.Proofs.Respacing
import Formula.Proofs.Minus
import Formula.Proofs.Joining
import Formula.Proofs.Layout
import Formula.Proofs.Escaping
import Formula.Proofs.Refusal
import Formula.Proofs.Doubles
import Formula.Proofs.NumeralGrammar
import Formula.Proofs.Numeral
import Formula.Proofs.Spelling
import Formula.Proofs.Substituting
import Formula.Proofs.Coherence
import Formula.Proofs.Rereading
import Formula.Proofs.Extremes
import Formula.Proofs.Equality
import Formula.Proofs.Arguments
import Formula.Proofs.Invocation
import Formula.Proofs.Gathering
import Formula.Proofs.Consuming
import Formula.Proofs.Machine
import Formula.Proofs.Returning
import Formula.Proofs.Termination
import Formula.Proofs.Quoting
import Formula.Proofs.Wording
