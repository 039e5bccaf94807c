import Mathlib.Data.List.Basic
import Mathlib.Data.List.Infix

namespace RoboCrisp.Stream

-- A stream that a transport hands over piece by piece. What a read returns may
-- depend on where the pieces end; the stream itself is their concatenation.
abbrev Chunks (β : Type) := List (List β)

namespace Chunks

variable {β : Type}

-- Take pieces until exactly `count` cells have arrived. Cells of the last piece
-- that are not needed stay in the transport. `none` at the end of the stream.
def readExactly : Chunks β → Nat → Option (List β × Chunks β)
  | [], count => if count = 0 then some ([], []) else none
  | chunk :: chunks, count =>
      if count = 0 then some ([], chunk :: chunks)
      else if chunk.length ≤ count then
        (readExactly chunks (count - chunk.length)).map fun (cells, rest) => (chunk ++ cells, rest)
      else some (chunk.take count, chunk.drop count :: chunks)

-- Take whole pieces until the cells read so far contain `delimiter`. Cells behind
-- it in the last piece have left the transport as well.
def readUntil [DecidableEq β] (delimiter : List β) : List β → Chunks β → Option (List β × Chunks β)
  | held, [] => if delimiter <:+: held then some (held, []) else none
  | held, chunk :: chunks =>
      if delimiter <:+: held then some (held, chunk :: chunks)
      else readUntil delimiter (held ++ chunk) chunks

section Until

variable [DecidableEq β] {mark : β}

end Until

end Chunks

end RoboCrisp.Stream
