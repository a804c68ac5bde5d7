import Idl.Grammar.Source
import Idl.Source.Library

/-!
The outcome of reading a root source with all that it imports. There is a document whatever was
wrong: it holds what could be read.
-/

namespace Idl

structure Outcome where
  document : Document := {}
  messages : List Message := []
  /-- Whether no import failed, no error was reported and the document passed the checks. -/
  ok : Bool
  sources : Registry := {}
  calls : List Call := []
  /-- Whether the check of a default never came back; the session has no outcome then. -/
  endless : Bool := false
  deriving Repr, Inhabited

namespace Outcome

def ofSession (s : Session) (ok : Bool) : Outcome where
  document := s.document
  messages := s.messages
  ok
  sources := s.sources
  calls := s.calls
  endless := s.endless

/-- The outcome, if the session came to one. -/
def answer? (o : Outcome) : Option Outcome :=
  if o.endless then none else some o

def unreadable (root : SourceId) : Outcome where
  messages := [.of .openSourceFailed ⟨some root, 1, 1⟩ [(.source, root.requested)]]
  ok := false

end Outcome

namespace Session

def start (root : Option SourceId) : Session :=
  match root with
  | some id =>
    let (id, sources) := ({} : Registry).register id
    { document := Document.setMain {} (some id), sources }
  | none => { document := Document.setMain {} none }

/-- Settles the names that still wait. The document as a whole is checked only if nothing was
wrong so far. -/
def finish (s : Session) (checks : List Check) (pending : List Binding) : Outcome :=
  let (s, pending) := s.settleAll checks true pending
  let s := s.reportUnresolved pending
  if Message.hasError s.messages then .ofSession s false
  else
    let (passed, s) := s.visit checks .document false
    .ofSession s passed

end Session

def Grammar.State.root (root : Option SourceId) (tokens : List Token) : Grammar.State :=
  { toSession := Session.start root, cursor := .ofTokens tokens, source := root, isMain := true }

namespace Settings

/-- How many sources can be read within each other: the root, and as many imports as are
allowed to lead to a source, and one more where the root has no identity to count from. -/
def levels (settings : Settings) : Nat :=
  settings.maxImportDepth + 2

def readTokens (settings : Settings) (root : Option SourceId) (tokens : List Token) : Outcome :=
  match Grammar.source settings settings.levels (.root root tokens) with
  | .ok _ s => s.toSession.finish settings.checks s.pending
  | .error _ s => .ofSession s.toSession false

def readText (settings : Settings) (root : Option SourceId) (text : String) : Outcome :=
  settings.readTokens root (Token.tokenize text)

/-- Reads a root source that the provider knows. -/
def readSource (settings : Settings) (root : SourceId) : Outcome :=
  match settings.provider.map (Provider.read · root) with
  | some (.ok text) => settings.readText (some root) text
  | _ => .unreadable root

end Settings

/-- Reads each root in a session of its own. -/
def Provider.readAll (provider : Provider) (roots : List SourceId) : List Outcome :=
  roots.map ({ provider := some provider : Settings }).readSource

namespace Library

/-- Reads a source as a root; the library remembers the sources that were read with it. -/
def readRoot (l : Library) (settings : Settings) (id : SourceId) : Outcome × Library :=
  let outcome := { settings with provider := some l.provider }.readSource id
  (outcome, outcome.sources.sources.foldl remember l)

end Library

/-- Reads every source in a directory and below it as a root. -/
def Disk.readDirectory (d : Disk) (directory : String) : Except SourceError (List Outcome) :=
  if ((d.locate directory).map d.isDirectory).getD false then do
    let library : Library := { disk := d, base := directory }
    let paths ← d.sourcePaths directory
    let roots ← paths.mapM library.root
    return library.provider.readAll roots
  else .error (.notFound directory)

end Idl
