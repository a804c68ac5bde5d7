import Idl.Check.Standard
import Idl.Source.Provider
import Idl.Source.Registry

/-!
The settings of a session, and what an import means under them. The questions about an import
are asked in a fixed order; the first that has an answer decides.
-/

namespace Idl

structure Settings where
  /-- Where imports come from. Without a provider they are left out. -/
  provider : Option Provider := none
  /-- How many imports may lead from the root to a source. -/
  maxImportDepth : Nat := 64
  checks : List Check := Check.standard

inductive ImportTarget where
  /-- There is no provider to ask. -/
  | unknowable
  /-- No source is meant. -/
  | missing
  /-- The source is read already, or just being read. -/
  | known (id : SourceId)
  /-- Too many imports lead to the source. -/
  | tooDeep
  /-- The source cannot be read. -/
  | closed
  | fresh (id : SourceId) (text : String)
  deriving DecidableEq, Repr

/-- What an import by `importer` means while the sources in `registry` are known. -/
def Settings.importTarget (settings : Settings) (registry : Registry)
    (importer : Option SourceId) (name : String) : ImportTarget :=
  match settings.provider with
  | none => .unknowable
  | some provider =>
    match provider.resolve importer name with
    | none => .missing
    | some found =>
      let id := found.importedBy importer
      match registry.get? id.value with
      | some known => .known known
      | none =>
        if settings.maxImportDepth < id.depth then .tooDeep
        else
          match provider.read id with
          | .ok text => .fresh id text
          | .error _ => .closed

end Idl
