import KlvMetadata.Format.Layout

/-!
# Layouts of Packs

Two items are made of several parts without keys. A control command is its
number, the length of its text, the text, and the time if bytes are left for
one. A frame rate is its numerator, and its denominator unless that is one.

## Main definitions

* `Layout.command`: Control commands.
* `Layout.frameRate`: Frame rates.
-/

namespace KlvMetadata

namespace Layout

/-- Bytes of a command's time. -/
def commandTimeLength : Nat := 8

/-- The number of a command, which has sixteen bits. -/
def readCommandId : Reader UInt16 := do
  let id ← BerOid.read (← Reader.remaining)
  if 65535 < id then Reader.fail (.commandId id)
  return id.toUInt16

/-- The text of a command behind its length. -/
def readCommandBody : Reader String := do
  let length ← Ber.read (← Reader.remaining)
  if (← Reader.remaining) < length.toNat then Reader.fail .commandText
  TextField.read length.toNat

/-- The time of a command, which is absent or fills what is left. -/
def readCommandTime : Reader (Option UInt64) := do
  let left ← Reader.remaining
  if left = 0 then return none
  if left = commandTimeLength then return some (← Unsigned.read commandTimeLength)
  throw (.framing (.commandTimestamp left))

def command : Layout ControlCommand where
  read _ := do
    let id ← readCommandId
    let body ← readCommandBody
    let timestamp ← readCommandTime
    return ⟨id, body, timestamp⟩
  write c length := do
    let used ← Writer.spent (BerOid.write c.id.toUInt64 length)
    let bodyLength := TextField.length c.body
    let more ← Writer.spent (Ber.write (UInt64.ofNat bodyLength) (length - used))
    TextField.write c.body (length - used - more)
    match c.timestamp with
    | some t => Unsigned.write t commandTimeLength
    | none => return
  lengthOf c _ :=
    let bodyLength := TextField.length c.body
    let timeLength := if c.timestamp.isSome then commandTimeLength else 0
    .ok (BerOid.length c.id.toUInt64 + Ber.length (UInt64.ofNat bodyLength) +
      bodyLength + timeLength)
  text c := c.text

/-- A term of a frame rate, which has 32 bits. -/
def readTerm : Reader UInt32 := do
  let term ← BerOid.read (← Reader.remaining)
  if 4294967295 < term then Reader.fail (.frameRateTerm term)
  return term.toUInt32

def frameRate : Layout FrameRate where
  read _ := do
    let numerator ← readTerm
    if (← Reader.remaining) = 0 then return ⟨numerator, 1⟩
    return ⟨numerator, ← readTerm⟩
  write r length := do
    let used ← Writer.spent (BerOid.write r.numerator.toUInt64 length)
    if r.denominator ≠ 1 then BerOid.write r.denominator.toUInt64 (length - used)
  lengthOf r _ :=
    let denominatorLength :=
      if r.denominator = 1 then 0 else BerOid.length r.denominator.toUInt64
    .ok (BerOid.length r.numerator.toUInt64 + denominatorLength)
  text r := r.text

end Layout

end KlvMetadata
