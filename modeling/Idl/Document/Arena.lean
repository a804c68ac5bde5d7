/-!
Arenas. The nodes of a document are numbered per family in the order of their insertion, and a
link to a node is its number. Nodes are only ever taken away from the end, so a number that is
in use keeps its node.
-/

namespace Idl

/-- What can be linked to. -/
inductive Family where
  | struct
  | enum
  | identifier
  | specimen
  | interface
  | factory
  | template
  deriving DecidableEq, Repr, Inhabited

/-- The number of a node of a family. -/
structure Id (family : Family) where
  index : Nat
  deriving DecidableEq, Repr, Inhabited

abbrev StructureId := Id .struct
abbrev EnumerationId := Id .enum
abbrev IdentifierId := Id .identifier
abbrev SpecimenId := Id .specimen
abbrev InterfaceId := Id .interface
abbrev FactoryId := Id .factory
abbrev TemplateId := Id .template

structure Arena (family : Family) (α : Type) where
  nodes : Array α := #[]
  deriving DecidableEq, Repr

namespace Arena

variable {family : Family} {α : Type}

instance : Inhabited (Arena family α) := ⟨⟨#[]⟩⟩

def size (a : Arena family α) : Nat :=
  a.nodes.size

def get? (a : Arena family α) (id : Id family) : Option α :=
  a.nodes[id.index]?

/-- The number the next inserted node gets. -/
def next (a : Arena family α) : Id family :=
  ⟨a.size⟩

def insert (a : Arena family α) (node : α) : Arena family α :=
  ⟨a.nodes.push node⟩

def modify (a : Arena family α) (id : Id family) (f : α → α) : Arena family α :=
  ⟨a.nodes.modify id.index f⟩

/-- The arena as it was when it held `size` nodes, as far as they were not modified. -/
def truncate (a : Arena family α) (size : Nat) : Arena family α :=
  ⟨a.nodes.take size⟩

theorem ext' {a b : Arena family α} (h : ∀ i : Nat, a.get? ⟨i⟩ = b.get? ⟨i⟩) : a = b := by
  cases a; cases b
  exact congrArg Arena.mk (Array.ext_getElem? h)

theorem get?_eq_none_iff (a : Arena family α) (id : Id family) :
    a.get? id = none ↔ a.size ≤ id.index :=
  Array.getElem?_eq_none_iff

theorem get?_isSome_iff (a : Arena family α) (id : Id family) :
    (a.get? id).isSome ↔ id.index < a.size := by
  simp [get?, size]

@[simp] theorem size_insert (a : Arena family α) (node : α) :
    (a.insert node).size = a.size + 1 :=
  Array.size_push node

theorem get?_insert (a : Arena family α) (node : α) (id : Id family) :
    (a.insert node).get? id = if id = a.next then some node else a.get? id := by
  obtain ⟨i⟩ := id
  simp [get?, insert, next, size, Array.getElem?_push]

@[simp] theorem size_modify (a : Arena family α) (id : Id family) (f : α → α) :
    (a.modify id f).size = a.size :=
  Array.size_modify

theorem get?_modify (a : Arena family α) (id id' : Id family) (f : α → α) :
    (a.modify id f).get? id' = if id' = id then (a.get? id').map f else a.get? id' := by
  obtain ⟨i⟩ := id
  obtain ⟨j⟩ := id'
  simp only [get?, modify, Array.getElem?_modify, Id.mk.injEq]
  split <;> rename_i h
  · subst h; simp
  · rw [if_neg (Ne.symm h)]

@[simp] theorem size_truncate (a : Arena family α) (size : Nat) :
    (a.truncate size).size = min size a.size := by
  simp [truncate, Arena.size]

theorem get?_truncate (a : Arena family α) (size : Nat) (id : Id family) :
    (a.truncate size).get? id = if id.index < size then a.get? id else none := by
  have h : (a.nodes.take size).toList = a.nodes.toList.take size := by simp
  simp only [get?, truncate, ← Array.getElem?_toList, h, List.getElem?_take]

theorem truncate_size_self (a : Arena family α) : a.truncate a.size = a := by
  simp [truncate, size]

end Arena

end Idl
