import Idl.Proofs.Course.Move

/-!
The moments at which names are bound between two declarations. When a type is registered, the
names that mean it are bound to it. When an imported source has ended, its names and those of the
source that goes on are looked up again, and when the root has ended, all that are left.
-/

namespace Idl.Grammar

/-- The session behind a declaration that has passed its checks and is registered. -/
def State.registering (checks : List Check) (x : Declaration) (s : State) : Session :=
  (s.toSession.visit checks (.declaration x) false).2.modifyDocument (·.register x)

namespace Moment

variable {settings : Settings} {root : Option SourceId} {tokens : List Token} {m : Moment}

/-- A name is bound to a type between two declarations, and this is the session in which the type
is found. -/
inductive Binds (settings : Settings) (root : Option SourceId) (tokens : List Token) :
    Session → Binding → DataType → Prop where
  | registered {m : Moment} {comment : Option Comment} {x : Declaration} {s s' : State}
      {t u : DataType} {session : Session} {b : Binding} (hm : Reached settings root tokens m)
      (hd : m.Declares comment s) (hp : declaration settings.checks comment s = .ok x s')
      (hv : (s'.toSession.visit settings.checks (.declaration x) false).1 = true)
      (hx : x.type? = some t)
      (hf : Session.Finds settings.checks
        (fun _ => (s'.registering settings.checks x).findRegistered t)
        (s'.registering settings.checks x) s'.pending session b u) :
      Binds settings root tokens session b u
  | resumed {levels : Nat} {importer : Reading} {importers : List Reading} {atHead : Bool}
      {s : State} {u : DataType} {session : Session} {b : Binding}
      (hm : Reached settings root tokens ⟨levels, importer :: importers, atHead, s⟩)
      (he : s.skipComments.current = none)
      (hf : Session.Finds settings.checks (Session.findAgain false) s.ended.toSession
        (importer.pending ++ s.ended.pending) session b u) :
      Binds settings root tokens session b u
  | ended {m : Moment} {u : DataType} {session : Session} {b : Binding}
      (hm : Reached settings root tokens m) (hi : m.importers = [])
      (he : m.state.skipComments.current = none)
      (hf : Session.Finds settings.checks (Session.findAgain true) m.state.ended.toSession
        m.state.ended.pending session b u) :
      Binds settings root tokens session b u

end Moment

end Idl.Grammar
