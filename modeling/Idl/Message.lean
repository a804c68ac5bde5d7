import Idl.Message.Kind
import Idl.Source.Id
import Idl.Text.Substitute

/-!
Messages. A message is a kind at a location with values for the holes of its template. The
values are put in one after the other, in the order in which their parameters were first set,
so a value that itself spells a hole is filled by a later parameter. A log keeps messages in
the order they were added.
-/

namespace Idl

structure Message where
  kind : Message.Kind
  location : Location
  severity : Severity := kind.severity
  params : List (Message.Param × String) := []
  deriving DecidableEq, Repr, Inhabited

namespace Message

/-- Sets a parameter; one that is set already keeps its position. -/
def setParam (params : List (Param × String)) (key : Param) (value : String) :
    List (Param × String) :=
  if params.any (·.1 == key) then
    params.map fun entry => if entry.1 == key then (key, value) else entry
  else params ++ [(key, value)]

/-- A message of a kind's own severity, with parameters set from left to right. -/
def of (kind : Kind) (location : Location) (params : List (Param × String) := []) : Message :=
  { kind, location, params := params.foldl (fun set (key, value) => setParam set key value) [] }

def withSeverity (m : Message) (severity : Severity) : Message :=
  { m with severity }

def param? (m : Message) (key : Param) : Option String :=
  m.params.lookup key

/-- The template with its holes as they are written. -/
def templateText (kind : Kind) : List Char :=
  kind.template.flatMap Part.text

def fill (text : List Char) (param : Param × String) : List Char :=
  Idl.Text.substitute param.1.hole param.2.toList text

def text (m : Message) : String :=
  String.ofList (m.params.foldl fill (templateText m.kind))

def hasOpenHole (m : Message) : Bool :=
  m.kind.template.any fun
    | .hole param => !m.params.any (·.1 == param)
    | .words _ => false

/-- The message as it is shown to a user. -/
def display (m : Message) : String :=
  m.location.display ++ ": " ++ m.severity.name ++ "[" ++ m.kind.code ++ "]: " ++ m.text

/-- The message as a listing shows it, with the name of its kind. -/
def listing (m : Message) : String :=
  m.severity.name ++ " " ++ m.kind.code ++ " " ++ m.kind.name ++ " at " ++ m.location.display ++
    ": " ++ m.text

def worst : List Message → Option Severity
  | [] => none
  | m :: rest =>
    if m.severity == .error then some .error else some ((worst rest).getD m.severity)

def countOf (severity : Severity) (messages : List Message) : Nat :=
  messages.countP (·.severity == severity)

def hasError (messages : List Message) : Bool :=
  messages.any (·.severity == .error)

end Message

structure Log where
  messages : List Message := []
  deriving DecidableEq, Repr, Inhabited

namespace Log

def add (log : Log) (m : Message) : Log :=
  ⟨log.messages ++ [m]⟩

/-- All messages, and the log without them. -/
def take (log : Log) : List Message × Log :=
  (log.messages, ⟨[]⟩)

def severity (log : Log) : Option Severity :=
  Message.worst log.messages

end Log

end Idl
