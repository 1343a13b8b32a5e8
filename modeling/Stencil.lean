import Stencil.Main
import Stencil.Proofs.Lockstep
import Stencil.Proofs.Lockstep.Expression
import Stencil.Proofs.Caching
import Stencil.Proofs.History
import Stencil.Proofs.Ending
import Stencil.Proofs.Walk
import Stencil.Proofs.Jumps
import Stencil.Proofs.Leaving
import Stencil.Proofs.Strictness
import Stencil.Proofs.Scopes
import Stencil.Proofs.Verbatim
import Stencil.Proofs.Datum
import Stencil.Proofs.Reading.Literals
import Stencil.Proofs.RoundTrip
import Stencil.Proofs.Everywhere
import Stencil.Proofs.Reading.Making
import Stencil.Proofs.Prose
import Stencil.Proofs.Fitness
import Stencil.Proofs.Screening
import Stencil.Proofs.Reading.Refusals
import Stencil.Proofs.Places
import Stencil.Proofs.Gobbling
import Stencil.Proofs.Reports
import Stencil.Proofs.Trail
import Stencil.Proofs.Pointing
import Stencil.Proofs.Moving
import Stencil.Proofs.Freshness
import Stencil.Proofs.Truncation
import Stencil.Proofs.Misreading
import Stencil.Proofs.Quotation
import Stencil.Proofs.Passing
import Stencil.Proofs.Confinement
import Stencil.Proofs.Precedence
import Stencil.Proofs.Unclosed
import Stencil.Proofs.Preference
import Stencil.Proofs.Recollection
import Stencil.Proofs.Definitions
import Stencil.Proofs.Lookup
import Stencil.Proofs.Binding
import Stencil.Proofs.Rounds
import Stencil.Proofs.Rounds.Variables
import Stencil.Proofs.Rounds.Numbers
import Stencil.Proofs.Indexing
import Stencil.Proofs.Members
import Stencil.Proofs.Properties
import Stencil.Proofs.Tidy
import Stencil.Proofs.Dictionaries
import Stencil.Proofs.Arithmetic
import Stencil.Proofs.Occurrences
import Stencil.Proofs.Texts
import Stencil.Proofs.Cuts
import Stencil.Proofs.Sequences
import Stencil.Proofs.Atomicity
import Stencil.Proofs.Layers
import Stencil.Proofs.Equality
import Stencil.Proofs.Evaluated
import Stencil.Proofs.Numerals
import Stencil.Proofs.Resolution
import Stencil.Proofs.Indentation
import Stencil.Proofs.Origins
