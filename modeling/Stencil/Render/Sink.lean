import Stencil.Error.Cause

/-!
# Where the output goes

A render writes piece by piece into a sink. Main statement: a sink with a limit takes the bytes that a
sink without one takes, as far as the limit goes.
-/

namespace Stencil

/-- Where the output goes, with what was written so far. -/
inductive Sink where
  /-- Takes every text. -/
  | text (written : String)
  /-- Takes nothing: every attempt to write fails. -/
  | refusing
  /-- Takes bytes up to a limit; a write that exceeds it fails after its first part. -/
  | bounded (limit : Nat) (written : ByteArray)

namespace Sink

def empty : Sink := text ""

def bytes : Sink → ByteArray
  | text written => written.toUTF8
  | refusing => ByteArray.empty
  | bounded _ written => written

def written : Sink → String
  | text written => written
  | _ => ""

/-- Writes a text; answers the fault, if there is one, and the sink afterwards. -/
def write (s : Sink) (t : String) : Option IoFault × Sink :=
  match s with
  | text written => (none, text (written ++ t))
  | refusing => (some .formatting, refusing)
  | bounded limit written =>
    let room := limit - written.size
    if t.utf8ByteSize ≤ room then (none, bounded limit (written ++ t.toUTF8))
    else (some (.writing "sink full"), bounded limit (written ++ t.toUTF8.extract 0 room))

/-- A sink of text never fails. -/
theorem write_text (w t : String) : (text w).write t = (none, text (w ++ t)) := rfl

/-- Writing nothing into a sink with a limit changes nothing. -/
theorem write_bounded_empty (limit : Nat) (w : ByteArray) :
    (bounded limit w).write "" = (none, bounded limit w) := by
  simp [write]

/-- As long as there is room, a sink with a limit holds the bytes of the text. -/
theorem bytes_write_bounded {limit : Nat} {w : ByteArray} {t : String}
    (h : t.utf8ByteSize ≤ limit - w.size) :
    ((bounded limit w).write t).2.bytes = w ++ t.toUTF8 := by
  simp [write, h, bytes]

end Sink

end Stencil
