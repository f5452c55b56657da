import BoundSql.Time.Figures

/-!
Time stamps of log lines: universal time to the millisecond, in a form whose order as text is the
order in time.
-/

namespace BoundSql.Stamp

open Text

def text (t : Instant) : Text :=
  let m := Moment.ofSeconds Zone.universal t.seconds
  m.dashDate ++ ascii "T" ++ m.clock ++ point :: Numeral.padded 3 t.milliseconds ++ ascii "Z"

end BoundSql.Stamp
