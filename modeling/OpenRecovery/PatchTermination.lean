import OpenRecovery.ImgPatchOutput
import Mathlib

/-!
# When the decoders do not come to an end

`FillBuffer` waits for its buffer to be filled.  A stream that stops in the
middle makes no progress and reports no error, so that a request for more than
the stream still holds is never answered.  This is the only way in which the
decoding of a binary patch can go on for ever: each round of the outer loop
takes a triple from the control stream.  A deflate chunk has one more, the loop
around `deflate`, which waits for the end of a stream that was never begun.
-/

namespace OpenRecovery

open Effects Words

section Streams

variable (lib : Library)

/-- The stream answers a request for `size` bytes with `data`, which fit into
the buffer. -/
def BzStream.Delivers (stream : BzStream) (room : Nat) (size : Int) (data : Bytes) : Prop :=
  data = (stream.rest lib).take (size % 2 ^ 32).toNat ∧
    data.length = (size % 2 ^ 32).toNat ∧ data.length ≤ room

end Streams

section Bsdiff

variable {lib : Library} {old : OldData} {newSize : Nat}

end Bsdiff

/-! ## Image patches -/

section Image

variable {lib : Library} {patch old : Bytes}

/-- Where the decoder writes its output to. -/
inductive TargetSink where
  | file (path : CString)
  | memory (size : Nat)

def TargetSink.sink : TargetSink → Sink
  | .file path => fileSink path
  | .memory size => memorySink size

end Image

end OpenRecovery
