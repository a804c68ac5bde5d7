import Idl.Grammar.Declaration
import Idl.Grammar.Package
import Idl.Session.Settings

/-!
Whole sources: imports, a package, declarations. An import is read where it stands, into the
same session. An import that fails stops everything; any other fault is reported and skipped.
-/

namespace Idl.Grammar

/-- Why no source is read further: an import failed, and that has been reported. -/
inductive Stopped where
  | importFailed
  deriving DecidableEq, Repr, Inhabited

abbrev SourceReader :=
  EStateM Stopped State

namespace State

def addImport (s : State) (i : Import) : State :=
  s.modifyDocument (·.addImport i)

/-- The state in which an imported source is read. -/
def enter (s : State) (id : SourceId) (text : String) : State :=
  { toSession := s.toSession, cursor := .ofText text, source := some id }

/-- The state behind an import. The names that still wait in it wait here now. -/
def leave (s inner : State) : State :=
  { s with toSession := inner.toSession, pending := s.pending ++ inner.pending }

/-- Takes an import in, whose source is read for the first time. -/
def takeIn (s : State) (i : Import) (id : SourceId) : State :=
  { s with sources := (s.sources.register id).2 }.addImport
    { i with resolved := some (s.sources.register id).1 }

/-- Looks the names that wait up again. -/
def rescan (checks : List Check) (s : State) : State :=
  s.settle fun session pending => session.settleAll checks false pending

end State

/-- Reads another source in between. -/
def within (id : SourceId) (text : String) (read : SourceReader Unit) : SourceReader Unit :=
  fun s =>
    match read (s.enter id text) with
    | .ok _ inner => .ok () (s.leave inner)
    | .error e inner => .error e (s.leave inner)

/-- Reports an import that failed, and stops. -/
def stop (m : Message) : SourceReader Unit := do
  modify (·.report m)
  throw .importFailed

/-- Follows an import; `read` reads the source it means. -/
def follow (settings : Settings) (read : SourceReader Unit) (i : Import) : SourceReader Unit := do
  let s ← get
  match settings.importTarget s.sources s.source i.source with
  | .unknowable =>
    modify fun s => (s.report (.of .importWithoutSourceProvider i.location)).addImport i
  | .missing =>
    modify (·.addImport i)
    stop (.of .sourceNotFound i.location [(.source, i.source)])
  | .known id => modify (·.addImport { i with resolved := some id })
  | .tooDeep =>
    stop (.of .importDepthExceeded i.location
      [(.source, i.source), (.depth, toString settings.maxImportDepth)])
  | .closed =>
    modify (·.addImport i)
    stop (.of .openSourceFailed i.location [(.source, i.source)])
  | .fresh id text =>
    modify (·.takeIn i id)
    within (s.sources.register id).1 text read
    modify (State.rescan settings.checks)

/-- Reads `import "source";`. -/
def importStatement (comment : Option Comment) : Parser Import := do
  let keyword ← expectKeyword "import"
  let source ← expect (·.kind == .string) .expectImportSource
  expectSemicolon
  return { source := source.value, location := (← get).locationOf keyword, comment }

/-- Reads an import and follows it. -/
def importRound (settings : Settings) (read : SourceReader Unit) (comment : Option Comment) :
    SourceReader Unit := fun s =>
  match importStatement comment s with
  | .ok i s => follow settings read i s
  | .error _ s => .ok () s.recoverOutside

namespace State

/-- Reads the package of a source, or skips it if it is broken. -/
def readPackage (s : State) : State :=
  match package s with
  | .ok _ s => s
  | .error _ s => s.recoverOutside

/-- Reads what is neither an import nor a package. -/
def readStatement (checks : List Check) (comment : Option Comment) (first : Token)
    (s : State) : State :=
  if isSemicolon first then (s.misplaced comment).shift
  else if first.kind == .identifier then s.declare checks comment
  else (s.misplaced comment).skipGarbage first

end State

/-- Reads one statement of a source. At its head there are imports and then perhaps a package;
either of them further on is taken for a declaration. -/
def statementRound (settings : Settings) (read : SourceReader Unit) (atHead : Bool) :
    SourceReader (Round Bool Unit) := do
  let comment ← modifyGet State.leadingComment
  match (← get).current with
  | none =>
    modify (·.misplaced comment)
    return .done ()
  | some t =>
    if atHead && t.isKeyword "import" then
      importRound settings read comment
      return .again true
    else if atHead && t.isKeyword "package" then
      modify State.readPackage
      return .again false
    else
      modify (State.readStatement settings.checks comment t)
      return .again false

/-- Reads a source. No more than `levels` sources are read within each other. -/
def source (settings : Settings) : Nat → State → EStateM.Result Stopped State Unit
  | 0, s => .error .importFailed s
  | levels + 1, s => iterate (statementRound settings (source settings levels)) true s

end Idl.Grammar
