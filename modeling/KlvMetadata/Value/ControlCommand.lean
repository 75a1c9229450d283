import KlvMetadata.Text.Quoted

/-!
# Control Commands

A command from the ground station has a number, a text and sometimes the time
it was sent. A command without a time differs from one sent at time zero.

## Main definitions

* `ControlCommand`: The command.
* `ControlCommand.text`: Its three parts between braces.
-/

namespace KlvMetadata

/-- A command from the ground station. -/
structure ControlCommand where
  id : UInt16
  body : String
  /-- Microseconds since the epoch, if the command carries them. -/
  timestamp : Option UInt64
  deriving DecidableEq, Repr

namespace ControlCommand

/-- The three parts between braces. -/
def text (c : ControlCommand) : String :=
  let time := match c.timestamp with
    | some t => toString t
    | none => "(empty)"
  "\x7b ID: " ++ toString c.id ++ ", String: \"" ++ c.body ++ "\", Timestamp: " ++ time ++ " \x7d"

/-- The parts with their names, as a description shows them. -/
def description (c : ControlCommand) : String :=
  let time := match c.timestamp with
    | some t => s!"Some({t})"
    | none => "None"
  "ControlCommand \x7b id: " ++ toString c.id ++ ", string: " ++ Text.quoted c.body ++
    ", timestamp: " ++ time ++ " \x7d"

end ControlCommand

end KlvMetadata
