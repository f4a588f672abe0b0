import ChipEight.Rejection

/-!
A program file arrives in chunks until an empty chunk or the end of them. An interrupted read is
tried again; a failed one gives up the whole file.
-/
namespace ChipEight

inductive Chunk
  | bytes (content : List UInt8)
  | interrupted
  | failed (cause : String)
deriving DecidableEq, Repr

namespace Rom

def read : List Chunk → Except Rejection (List UInt8)
  | [] => .ok []
  | .bytes [] :: _ => .ok []
  | .bytes content :: rest =>
    match read rest with
    | .ok tail => .ok (content ++ tail)
    | .error rejection => .error rejection
  | .interrupted :: rest => read rest
  | .failed cause :: _ => .error (.unreadable cause)

end Rom
end ChipEight
