import BoundSql.Main
import BoundSql.Number.Scientific
import BoundSql.Proofs.Collisions
import BoundSql.Proofs.Cuts
import BoundSql.Proofs.Json
import BoundSql.Proofs.Lines
import BoundSql.Proofs.Literals
import BoundSql.Proofs.Numerals
import BoundSql.Proofs.Splicing
import BoundSql.Proofs.Substitutions
import BoundSql.Proofs.Unwrapping
import BoundSql.Proofs.Decisions
import BoundSql.Proofs.Withheld
import BoundSql.Proofs.Readings
import BoundSql.Proofs.Loading
import BoundSql.Proofs.Nearest
import BoundSql.Proofs.Patterns
import BoundSql.Proofs.Decimals
import BoundSql.Proofs.Doubles
import BoundSql.Proofs.Arguments
import BoundSql.Proofs.Characters
import BoundSql.Proofs.UsualTimes
import BoundSql.Proofs.WholeCharacters
import BoundSql.Proofs.Unescaping
import BoundSql.Proofs.Tokenising
import BoundSql.Proofs.Places
import BoundSql.Proofs.Faults
import BoundSql.Proofs.Outcomes
import BoundSql.Proofs.Intervals
import BoundSql.Proofs.ShortestDigits
import BoundSql.Proofs.Positional
import BoundSql.Proofs.ReadBack
import BoundSql.Proofs.ExactIntegers
import BoundSql.Proofs.Decoding
import BoundSql.Proofs.Alignment
import BoundSql.Proofs.Spacing
import BoundSql.Proofs.Gregorian
import BoundSql.Proofs.TimeReading
import BoundSql.Proofs.TrailingZeros
import BoundSql.Proofs.Instants
import BoundSql.Proofs.SignificantDigits
import BoundSql.Proofs.Lossless
import BoundSql.Proofs.RepeatedKinds
import BoundSql.Proofs.TextOrder
import BoundSql.Proofs.Chronology
import BoundSql.Proofs.TimeOrder
import BoundSql.Proofs.RoundingOrder
import BoundSql.Proofs.Elapsed
import BoundSql.Proofs.CanonicalTokens
import BoundSql.Proofs.Expansions
import BoundSql.Proofs.FixedPlaces
import BoundSql.Proofs.LongTimes
import BoundSql.Proofs.InstantRange
import BoundSql.Proofs.Notations
import BoundSql.Proofs.Offsets
