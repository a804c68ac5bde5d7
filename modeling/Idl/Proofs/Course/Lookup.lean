import Idl.Proofs.Course.Arise
import Idl.Proofs.Document.Index

/-!
Lookups over a whole session. Declarations are registered and withdrawn together with the names
of their types, and what is inserted or rolled back concerns neither. So what a name means can
always be read off the declarations.
-/

namespace Idl.Grammar

open Document

theorem kept_indexed (checks : List Check) : Kept checks Indexed where
  turn h ha hp := by
    cases h with
    | @note s s' ws h _ =>
      rw [h]
      exact hp.alike (alike_note _ _ _) rfl
    | reorder h => exact hp
    | @declare others s s' x he hx hb hpassed =>
      have hs : s.Sound others := ha
      exact (hp.agree hs.linked (he.keeps hs.ready).agree).register x
    | bind ht => exact hp.bind checks _ _
  edits hs he hp := hp.agree hs.linked (he.keeps hs.ready).agree

namespace Moment

variable {settings : Settings} {root : Option SourceId} {tokens : List Token} {d : Document}

theorem Arises.indexed (hd : Arises settings root tokens d) : d.Indexed :=
  hd.kept (kept_indexed settings.checks) fun _ => rfl

/-- In every document of a session a name means what the declarations say, gone through in their
order. Without a path it is a builtin, or else the first nested enumeration of the name in the
scope, the first type of the name in the same package, the first type of the name. Behind a path
it is the first type of the name in a package with this short or full path, or else a nested
enumeration of the structure that the last segment means behind the others. -/
theorem names_mean_what_declarations_say (hd : Arises settings root tokens d) :
    (∀ package scope name, d.findType? package [] scope name =
      ((Builtin.all.find? (·.keyword == name)).map .builtin).or
        ((scope.bind (d.firstNested? · name)).or
          ((d.firstNamed? name fun other =>
            other.map (·.full.map (·.value)) == package.map (·.full.map (·.value))).or
            (d.firstNamed? name fun _ => true)))) ∧
    ∀ package path outer scope name, d.findType? package (path ++ [outer]) scope name =
      (d.firstNamed? name (·.any fun p => p.short.map (·.value) == path ++ [outer] ||
        p.full.map (·.value) == path ++ [outer])).or
        (match d.findType? package path none outer with
        | some (.struct owner) => d.firstNested? owner name
        | _ => none) :=
  ⟨hd.indexed.findType?_nil hd.linked, fun package path outer scope name =>
    hd.indexed.findType?_concat hd.linked package scope name path outer⟩

/-- The statement where a structure is withdrawn, since a name inside of a template in it turns
out to mean a structure that is not sharable. -/
theorem names_mean_what_declarations_say_behind_withdrawn :
    let settings : Settings := {}
    let tokens := Token.tokenize "package p; sharable structure A \x7b vector<B> b; \x7d
      structure B \x7b enum E \x7b x; \x7d \x7d"
    let d := (settings.readTokens none tokens).document
    d.declarations = [.struct ⟨1⟩] ∧ d.findType? none [] none "A" = none ∧
      d.findType? none [] none "B" = some (.struct ⟨1⟩) ∧
      d.findType? none ["p", "B"] none "E" = some (.enum ⟨0⟩) := by
  intro settings tokens d
  obtain ⟨hunqualified, hqualified⟩ :=
    names_mean_what_declarations_say (.outcome : Arises settings none tokens d)
  exact ⟨by decide +kernel, (hunqualified none none "A").trans (by decide +kernel),
    (hunqualified none none "B").trans (by decide +kernel),
    (hqualified none ["p"] "B" none "E").trans (by decide +kernel)⟩

end Moment

end Idl.Grammar
