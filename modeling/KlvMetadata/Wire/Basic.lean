import KlvMetadata.Error

/-!
# Reading and Writing Bytes

A reader takes bytes from the front of what is left; a writer adds bytes to
what has been written. Both are the same kind of action, one that changes a
run of bytes and may fail, and in both the bytes outlive a failure: after a
failed read the position tells how far the reader got, and after a failed
write the output still holds what was written before it. Which of the two an
encoding leaves behind is part of its contract, so failure must not hide it.

## Main definitions

* `Reader`, `Writer`: Actions on what is left and on what has been written.
* `Reader.take`: The next bytes.
* `Writer.emit`, `Writer.checkSpace`: Adding bytes, and refusing to.
* `Writer.whole`: A write that leaves nothing behind when it fails.
* `Writer.spent`: A write that tells its size.
* `Reader.toEnd`: Repetition until nothing is left.
-/

namespace KlvMetadata

/-- An action on the bytes that are left to read. -/
abbrev Reader (α : Type) := EStateM Error Bytes α

/-- An action on the bytes written so far. -/
abbrev Writer := EStateM Error Bytes Unit

namespace Reader

/-- Fail because the bytes spell nothing. -/
def fail {α : Type} (fault : ParseFault) : Reader α := throw (.parse fault)

/-- The next `n` bytes. -/
def take (n : Nat) : Reader Bytes := fun data =>
  if data.length < n then .error (.parse (.underflow n data.length)) data
  else .ok (data.take n) (data.drop n)

/-- How many bytes are left. -/
def remaining : Reader Nat := fun data => .ok data.length data

/-- Repeat `read` until nothing is left, at most `fuel` times. -/
def repeated {α : Type} (read : Reader α) : (fuel : Nat) → Reader (List α)
  | 0 => pure []
  | fuel + 1 => do
    if (← remaining) = 0 then return []
    let first ← read
    let rest ← repeated read fuel
    return first :: rest

/-- Repeat `read` until nothing is left. A read that succeeds takes at least
    one byte, so there are no more of them than bytes. -/
def toEnd {α : Type} (read : Reader α) : Reader (List α) := fun data =>
  repeated read data.length data

/-- Run `read` on the next `n` bytes alone. They count as read if it succeeds
    and leaves none of them, which `unread` reports; otherwise nothing does. -/
def within {α : Type} (n : Nat) (unread : (left : Nat) → Error) (read : Reader α) : Reader α :=
  fun data =>
    match read (data.take n) with
    | .error e _ => .error e data
    | .ok a [] => .ok a (data.drop n)
    | .ok _ left => .error (unread left.length) data

end Reader

namespace Writer

/-- Add bytes to the output. -/
def emit (bytes : Bytes) : Writer := fun out => .ok () (out ++ bytes)

/-- Fail if more bytes are needed than there is space for. -/
def checkSpace (needed space : Nat) : Writer :=
  if space < needed then throw (.bufferOverflow needed space) else pure ()

/-- Write, and take back what was written if that fails half way. -/
def whole (write : Writer) : Writer := fun out =>
  match write out with
  | .ok () written => .ok () written
  | .error e _ => .error e out

/-- Write, and tell how many bytes that added. -/
def spent (write : Writer) : EStateM Error Bytes Nat := fun out =>
  match write out with
  | .ok () written => .ok (written.length - out.length) written
  | .error e written => .error e written

end Writer

end KlvMetadata
