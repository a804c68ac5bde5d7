import Mathlib.Logic.Relation
import Idl.Proofs.Grammar.Import
import Idl.Source.Provider

/-!
The search for sources on a shelf. It goes along the imports at the head of each text, depth
first: a name that was seen is not gone into again, a new one is seen and then all that its text
imports. Where an import leads to no source that can be read, or too far, the search breaks off.
What is seen is seen once, and a search that does not break off sees all that can be reached.
-/

namespace Idl.Shelf

/-- The names that a text on the shelf imports. -/
def Leads (s : Shelf) (name next : String) : Prop :=
  ∃ text, s.read name = .ok text ∧ next ∈ Grammar.headImports (Token.tokenize text)

/-- Follows an import by its name. The names seen so far are in `order`, and at most `room` more
imports may follow upon each other. A search that breaks off tells what was seen, and the name
at which it breaks off. -/
def visit (s : Shelf) (room : Nat) (order : List String) (name : String) :
    Except (List String × String) (List String) :=
  if (s.find? name).isNone then .error (order, name)
  else if order.contains name then .ok order
  else
    match room with
    | 0 => .error (order, name)
    | room + 1 =>
      match s.read name with
      | .error _ => .error (order, name)
      | .ok text =>
        (Grammar.headImports (Token.tokenize text)).foldlM (s.visit room) (order ++ [name])

/-- Follows imports one after the other. -/
def visitAll (s : Shelf) (room : Nat) (order names : List String) :
    Except (List String × String) (List String) :=
  names.foldlM (s.visit room) order

/-- What was seen, whether the search has broken off or not. -/
def seen : Except (List String × String) (List String) → List String
  | .ok order => order
  | .error (order, _) => order

variable {s : Shelf} {room : Nat} {order order' : List String} {name : String}

theorem value_of_find? {id : SourceId} (h : s.find? name = some id) : id.value = name := by
  unfold find? at h
  split at h
  · cases h
    rfl
  · cases h

theorem isSome_find?_of_read {text : String} (h : s.read name = .ok text) :
    (s.find? name).isSome = true := by
  unfold read at h
  split at h
  · cases h
  · split at h
    · rename_i hlookup
      obtain ⟨front, back, heq, _⟩ := List.lookup_eq_some_iff.1 hlookup
      simp [find?, heq]
    · cases h

theorem visitAll_cons (names : List String) :
    s.visitAll room order (name :: names) =
      s.visit room order name >>= fun order => s.visitAll room order names :=
  rfl

theorem visit_of_missing (h : s.find? name = none) :
    s.visit room order name = .error (order, name) := by
  unfold visit
  rw [if_pos (by simp [h])]

section Found

variable (hf : (s.find? name).isSome = true)

include hf

theorem visit_of_seen (h : name ∈ order) : s.visit room order name = .ok order := by
  unfold visit
  rw [if_neg (by simpa [Option.isSome_iff_ne_none] using hf), if_pos (by simpa using h)]

variable (h : name ∉ order)

include h

theorem visit_zero : s.visit 0 order name = .error (order, name) := by
  rw [visit, if_neg (by simpa [Option.isSome_iff_ne_none] using hf), if_neg (by simpa using h)]

theorem visit_of_closed {e : SourceError} (hr : s.read name = .error e) :
    s.visit room order name = .error (order, name) := by
  cases room with
  | zero => exact visit_zero hf h
  | succ room =>
    rw [visit, if_neg (by simpa [Option.isSome_iff_ne_none] using hf), if_neg (by simpa using h)]
    simp only [hr]

theorem visit_of_new {text : String} (hr : s.read name = .ok text) :
    s.visit (room + 1) order name =
      s.visitAll room (order ++ [name]) (Grammar.headImports (Token.tokenize text)) := by
  rw [visit, if_neg (by simpa [Option.isSome_iff_ne_none] using hf), if_neg (by simpa using h)]
  simp only [hr]
  rfl

end Found

/-- What a search does from one source: it adds names to those that were seen, each of them once,
and all of them can be reached. -/
structure Extends (s : Shelf) (source : String) (order order' : List String) : Prop where
  isPrefix : order <+: order'
  nodup : order.Nodup → order'.Nodup
  reach : ∀ x ∈ order', x ∈ order ∨ Relation.ReflTransGen s.Leads source x

namespace Extends

variable {source : String} {order'' : List String}

theorem refl (order : List String) : s.Extends source order order :=
  ⟨List.prefix_rfl, id, fun _ hx => .inl hx⟩

theorem trans (h : s.Extends source order order') (h' : s.Extends source order' order'') :
    s.Extends source order order'' where
  isPrefix := h.isPrefix.trans h'.isPrefix
  nodup := fun hn => h'.nodup (h.nodup hn)
  reach := fun x hx => (h'.reach x hx).elim (h.reach x) .inr

theorem visitAll {names : List String}
    (hvisit : ∀ order, ∀ name ∈ names, s.Extends source order (seen (s.visit room order name))) :
    s.Extends source order (seen (s.visitAll room order names)) := by
  induction names generalizing order with
  | nil => exact refl order
  | cons name names ih =>
    rw [visitAll_cons]
    have hname := hvisit order name List.mem_cons_self
    cases hv : s.visit room order name with
    | error e =>
      rw [hv] at hname
      exact hname
    | ok next =>
      rw [hv] at hname
      exact hname.trans (ih fun order x hx => hvisit order x (List.mem_cons_of_mem _ hx))

end Extends

/-- Induction on the room that is left; the imports of a text are followed with less. -/
theorem extends_visit {source : String} (room : Nat) (order : List String) (name : String)
    (hl : Relation.ReflTransGen s.Leads source name) :
    s.Extends source order (seen (s.visit room order name)) := by
  induction room generalizing order name with
  | zero =>
    rw [visit]
    split
    · exact .refl order
    · split <;> exact .refl order
  | succ room ih =>
    rw [visit]
    split
    · exact .refl order
    · split
      · exact .refl order
      · rename_i hnew
        split
        · exact .refl order
        · rename_i text hread
          have hadd : s.Extends source order (order ++ [name]) := by
            refine ⟨List.prefix_append _ _, fun hn => ?_, fun x hx => ?_⟩
            · refine List.nodup_append.2 ⟨hn, List.pairwise_singleton _ name, ?_⟩
              rintro x hx _ hx' rfl
              exact hnew (by simpa using List.mem_singleton.1 hx' ▸ hx)
            · rcases List.mem_append.1 hx with hx | hx
              · exact .inl hx
              · exact .inr (List.mem_singleton.1 hx ▸ hl)
          exact hadd.trans (Extends.visitAll fun order x hx =>
            ih order x (hl.tail ⟨text, hread, hx⟩))

/-- What is new in `order'` leads to names in `order'` only. -/
def Closes (s : Shelf) (order order' : List String) : Prop :=
  order <+: order' ∧ ∀ x ∈ order', x ∉ order → ∀ y, s.Leads x y → y ∈ order'

theorem Closes.refl (order : List String) : s.Closes order order :=
  ⟨List.prefix_rfl, fun _ hx hnew => absurd hx hnew⟩

theorem Closes.trans {order'' : List String} (h : s.Closes order order')
    (h' : s.Closes order' order'') : s.Closes order order'' := by
  refine ⟨h.1.trans h'.1, fun x hx hnew y hl => ?_⟩
  by_cases hx' : x ∈ order'
  · exact h'.1.subset (h.2 x hx' hnew y hl)
  · exact h'.2 x hx hx' y hl

theorem closes_visitAll {names : List String}
    (hvisit : ∀ order order', ∀ name ∈ names, s.visit room order name = .ok order' →
      s.Closes order order' ∧ name ∈ order')
    (h : s.visitAll room order names = .ok order') :
    s.Closes order order' ∧ ∀ name ∈ names, name ∈ order' := by
  induction names generalizing order with
  | nil =>
    cases h
    exact ⟨.refl _, fun x hx => absurd hx List.not_mem_nil⟩
  | cons name names ih =>
    rw [visitAll_cons] at h
    cases hv : s.visit room order name with
    | error e =>
      rw [hv] at h
      cases h
    | ok next =>
      rw [hv] at h
      obtain ⟨hc, hname⟩ := hvisit order next name List.mem_cons_self hv
      obtain ⟨hc', hnames⟩ := ih (fun order order' x hx =>
        hvisit order order' x (List.mem_cons_of_mem _ hx)) h
      refine ⟨hc.trans hc', fun x hx => ?_⟩
      rcases List.mem_cons.1 hx with rfl | hx
      · exact hc'.1.subset hname
      · exact hnames x hx

theorem closes_visit (room : Nat) (order order' : List String) (name : String)
    (h : s.visit room order name = .ok order') : s.Closes order order' ∧ name ∈ order' := by
  induction room generalizing order order' name with
  | zero =>
    rw [visit] at h
    split at h
    · cases h
    · split at h
      · rename_i hseen
        cases h
        exact ⟨.refl order, by simpa using hseen⟩
      · cases h
  | succ room ih =>
    rw [visit] at h
    split at h
    · cases h
    · split at h
      · rename_i hseen
        cases h
        exact ⟨.refl order, by simpa using hseen⟩
      · split at h
        · cases h
        · rename_i text hread
          obtain ⟨⟨hfront, hclosed⟩, hnames⟩ := closes_visitAll (s := s)
            (fun order order' x _ hx => ih order order' x hx) h
          have hname : name ∈ order' := hfront.subset (by simp)
          refine ⟨⟨(List.prefix_append _ _).trans hfront, fun x hx hnew y hl => ?_⟩, hname⟩
          by_cases hx' : x ∈ order ++ [name]
          · have heq : x = name := by simpa [hnew] using hx'
            obtain ⟨text', hread', hy⟩ := hl
            rw [heq, hread] at hread'
            cases hread'
            exact hnames y hy
          · exact hclosed x hx hx' y hl

/-- The search from a root with a text. -/
def search (s : Shelf) (room : Nat) (root text : String) :
    Except (List String × String) (List String) :=
  s.visitAll room [root] (Grammar.headImports (Token.tokenize text))

section Search

variable {root text : String} (hread : s.read root = .ok text)

include hread

theorem extends_search (room : Nat) :
    s.Extends root [root] (seen (s.search room root text)) :=
  Extends.visitAll fun order _ hx => extends_visit room order _ (.single ⟨text, hread, hx⟩)

theorem nodup_search (room : Nat) : (seen (s.search room root text)).Nodup :=
  (extends_search hread room).nodup (List.pairwise_singleton _ root)

theorem reach_of_mem_search (room : Nat) (name : String)
    (h : name ∈ seen (s.search room root text)) :
    Relation.ReflTransGen s.Leads root name := by
  rcases (extends_search hread room).reach name h with h | h
  · rw [List.mem_singleton.1 h]
  · exact h

/-- A search that does not break off sees what can be reached, and nothing else. -/
theorem mem_search_iff (h : s.search room root text = .ok order) :
    name ∈ order ↔ Relation.ReflTransGen s.Leads root name := by
  refine ⟨fun hm => reach_of_mem_search hread room name (by rwa [h]), fun hr => ?_⟩
  obtain ⟨⟨hfront, hclosed⟩, hnames⟩ := closes_visitAll
    (fun order order' x _ hx => closes_visit room order order' x hx) h
  induction hr with
  | refl => exact hfront.subset List.mem_cons_self
  | @tail x y _ hl ih =>
    by_cases hroot : x = root
    · obtain ⟨text', hread', hy⟩ := hl
      rw [hroot, hread] at hread'
      cases hread'
      exact hnames y hy
    · exact hclosed x ih (by simpa using hroot) y hl

end Search

end Idl.Shelf
