import Idl.Proofs.Document.Sound

/-!
Names and what they are settled to. A name means a builtin, a registered type or a nested
enumeration, never a template. To settle names is to bind some of them one after the other, so
what each single binding keeps, all of them keep.
-/

namespace Idl

namespace Document

variable {d : Document}

/-- A type that is registered under some name. -/
def IsListed (d : Document) (t : DataType) : Prop :=
  ∃ entry ∈ d.typeNames, entry.2 = t

theorem isListed_of_mem_typesNamed {name : String} {t : DataType} (h : t ∈ d.typesNamed name) :
    d.IsListed t := by
  obtain ⟨entry, he, hs⟩ := List.mem_filterMap.1 h
  split at hs
  · exact ⟨entry, he, Option.some.inj hs⟩
  · cases hs

/-- An enumeration that is nested in some structure. -/
def IsNested (d : Document) (id : EnumerationId) : Prop :=
  ∃ owner s, d.structures.get? owner = some s ∧ id ∈ s.nestedEnumerations

theorem isNested_of_findNested? {owner : StructureId} {name : String} {id : EnumerationId}
    (h : d.findNested? owner name = some id) : d.IsNested id := by
  have hm := List.mem_of_find?_eq_some h
  cases hs : d.structures.get? owner with
  | none => simp [hs] at hm
  | some s => exact ⟨owner, s, hs, by simpa [hs] using hm⟩

/-- What a name can mean. -/
inductive Means (d : Document) : DataType → Prop where
  | builtin (b : Builtin) : Means d (.builtin b)
  | listed {t : DataType} (h : d.IsListed t) : Means d t
  | nested {id : EnumerationId} (h : d.IsNested id) : Means d (.enum id)

theorem means_of_findUnqualified? {package : Option Package} {scope : Option StructureId}
    {name : String} {t : DataType} (h : d.findUnqualified? package scope name = some t) :
    d.Means t := by
  unfold findUnqualified? at h
  split at h
  · cases h
    exact .builtin _
  · split at h
    · rename_i hn
      cases h
      obtain ⟨owner, _, hn⟩ := Option.bind_eq_some_iff.1 hn
      exact .nested (isNested_of_findNested? hn)
    · have hmem : t ∈ d.typesNamed name := by
        rcases Option.or_eq_some_iff.1 h with h | ⟨_, h⟩
        · exact List.mem_of_find?_eq_some h
        · exact List.mem_of_mem_head? h
      exact .listed (isListed_of_mem_typesNamed hmem)

theorem means_of_findBehind? {package : Option Package} {scope : Option StructureId}
    {name : String} {t : DataType} {path : List String}
    (h : d.findBehind? package scope name path = some t) : d.Means t := by
  cases path with
  | nil => exact means_of_findUnqualified? h
  | cons outer more =>
    rw [findBehind?] at h
    rcases Option.or_eq_some_iff.1 h with h | ⟨_, h⟩
    · exact .listed (isListed_of_mem_typesNamed (List.mem_of_find?_eq_some h))
    · split at h
      · obtain ⟨id, hn, rfl⟩ := Option.map_eq_some_iff.1 h
        exact .nested (isNested_of_findNested? hn)
      · cases h

theorem means_of_findType? {package : Option Package} {path : List String}
    {scope : Option StructureId} {name : String} {t : DataType}
    (h : d.findType? package path scope name = some t) : d.Means t :=
  means_of_findBehind? h

theorem Linked.below_of_isNested (hd : d.Linked) {id : EnumerationId} (h : d.IsNested id) :
    id.index < d.enumerations.size := by
  obtain ⟨owner, s, hs, hm⟩ := h
  obtain ⟨m, hm, he⟩ := List.mem_filterMap.1 hm
  have hl := (hd.structures owner s hs).members m hm
  cases m <;> simp only [Member.enumeration?, Option.some.injEq, reduceCtorEq] at he
  exact he ▸ hl

theorem Linked.below_of_isListed (hd : d.Linked) {t : DataType} (h : d.IsListed t) :
    t.Below d.extent := by
  obtain ⟨entry, he, rfl⟩ := h
  obtain ⟨x, hx, hb⟩ := hd.typeNames entry he
  exact (Declaration.below_of_type? hx).2 hb

theorem Linked.named (hd : d.Linked) {t : DataType} (h : d.Means t) : t.Named d.extent := by
  cases h with
  | builtin b => exact ⟨trivial, nofun⟩
  | listed h =>
    refine ⟨hd.below_of_isListed h, ?_⟩
    obtain ⟨entry, he, rfl⟩ := h
    obtain ⟨x, hx, _⟩ := hd.typeNames entry he
    rintro id hid
    rw [hid] at hx
    cases x <;> cases hx
  | nested h => exact ⟨hd.below_of_isNested h, nofun⟩

end Document

namespace Session

variable {checks : List Check} {find : Session → Binding → Option DataType}

/-- While the names of a list are settled, one of them is bound to a type; this is the session in
which it is found. -/
inductive Finds (checks : List Check) (find : Session → Binding → Option DataType) :
    Session → List Binding → Session → Binding → DataType → Prop where
  | here {s : Session} {b : Binding} {rest : List Binding} {t : DataType}
      (h : find s b = some t) : Finds checks find s (b :: rest) s b t
  | behind {s s' : Session} {b b' : Binding} {rest : List Binding} {t t' : DataType}
      (h : find s b = some t) (hr : Finds checks find (s.bind checks b t) rest s' b' t') :
      Finds checks find s (b :: rest) s' b' t'
  | past {s s' : Session} {b b' : Binding} {rest : List Binding} {t' : DataType}
      (h : find s b = none) (hr : Finds checks find s rest s' b' t') :
      Finds checks find s (b :: rest) s' b' t'

theorem Finds.find_eq {s s' : Session} {pending : List Binding} {b : Binding} {t : DataType}
    (h : Finds checks find s pending s' b t) : find s' b = some t := by
  induction h with
  | here h => exact h
  | behind _ _ ih | past _ _ ih => exact ih

/-- What is kept each time that one of the names is bound, the settling of the names keeps. -/
theorem settle_finds {I : Session → List Binding → Prop} (s : Session) (pending : List Binding)
    (step : ∀ s' kept b back t, Finds checks find s pending s' b t → I s' (kept ++ b :: back) →
      I (s'.bind checks b t) (kept ++ back))
    (h : I s pending) : I (s.settle checks find pending).1 (s.settle checks find pending).2 := by
  have general (pending : List Binding) : ∀ s kept,
      (∀ s' kept b back t, Finds checks find s pending s' b t → I s' (kept ++ b :: back) →
        I (s'.bind checks b t) (kept ++ back)) →
      I s (kept ++ pending) →
      I (s.settle checks find pending).1 (kept ++ (s.settle checks find pending).2) := by
    induction pending with
    | nil => exact fun _ _ _ h => h
    | cons b rest ih =>
      intro s kept step h
      rw [settle]
      cases hb : find s b with
      | some t =>
        exact ih (s.bind checks b t) kept
          (fun s' kept' b' back t' hfinds => step s' kept' b' back t' (.behind hb hfinds))
          (step s kept b rest t (.here hb) h)
      | none =>
        have hrest := ih s (kept ++ [b])
          (fun s' kept' b' back t' hfinds => step s' kept' b' back t' (.past hb hfinds))
          (by simpa using h)
        simpa using hrest
  exact general pending s [] step h

/-- What each binding of a found name keeps, the settling of names keeps. -/
theorem settle_invariant {I : Session → List Binding → Prop}
    (step : ∀ s kept b back t, I s (kept ++ b :: back) → find s b = some t →
      I (s.bind checks b t) (kept ++ back))
    (s : Session) (pending : List Binding) (h : I s pending) :
    I (s.settle checks find pending).1 (s.settle checks find pending).2 :=
  settle_finds s pending
    (fun s' kept b back t hfinds h => step s' kept b back t h hfinds.find_eq) h

theorem settle_sublist (s : Session) (pending : List Binding) :
    (s.settle checks find pending).2.Sublist pending :=
  settle_invariant (I := fun _ ws => ws.Sublist pending)
    (fun _ kept b back _ h _ => ((List.sublist_cons_self b back).append_left kept).trans h)
    s pending (List.Sublist.refl pending)

section Named

variable {I : Session → List Binding → Prop} {s : Session} {others pending : List Binding}
  (hperm : ∀ {s ws ws'}, ws.Perm ws' → I s ws → I s ws')

section Finds

include hperm

/-- What the settling of names keeps, if all that is found is what a name can mean. -/
theorem settle_named_finds
    (hbind : ∀ {s' b ws t}, Finds checks find s pending s' b t → s'.document.Sound (b :: ws) →
      t.Named s'.document.extent → I s' (b :: ws) → I (s'.bind checks b t) ws)
    (hs : s.document.Sound (others ++ pending))
    (hfind : ∀ s' b t, s.document.extent ≤ s'.document.extent → s'.document.Linked →
      find s' b = some t → t.Named s'.document.extent) (h : I s (others ++ pending)) :
    I (s.settle checks find pending).1 (others ++ (s.settle checks find pending).2) := by
  let J : Session → List Binding → Prop := fun s' ws =>
    s'.document.Sound (others ++ ws) ∧ s.document.extent ≤ s'.document.extent ∧
      I s' (others ++ ws)
  have hstep (s' : Session) (kept : List Binding) (b : Binding) (back : List Binding)
      (t : DataType) (hb : Finds checks find s pending s' b t) (h : J s' (kept ++ b :: back)) :
      J (s'.bind checks b t) (kept ++ back) := by
    obtain ⟨hs', hle, h⟩ := h
    have hw := Document.perm_waiting others kept b back
    have hs' := hs'.perm hw
    have ht := hfind s' b t hle hs'.linked hb.find_eq
    have hextent := (hs'.grows_bind checks t).extent
    exact ⟨hs'.bind checks ht, Document.Extent.le_trans hle hextent,
      hbind hb hs' ht (hperm hw h)⟩
  exact (settle_finds s pending hstep ⟨hs, Document.Extent.le_refl _, h⟩).2.2

theorem settleAll_named_finds {last : Bool}
    (hbind : ∀ {s' b ws t}, Finds checks (findAgain last) s pending s' b t →
      s'.document.Sound (b :: ws) → t.Named s'.document.extent → I s' (b :: ws) →
      I (s'.bind checks b t) ws)
    (hs : s.document.Sound (others ++ pending)) (h : I s (others ++ pending)) :
    I (s.settleAll checks last pending).1 (others ++ (s.settleAll checks last pending).2) := by
  refine settle_named_finds hperm hbind hs (fun s' b t _ hl hb => ?_) h
  obtain ⟨hb, _⟩ := Option.filter_eq_some_iff.1 hb
  exact hl.named (Document.means_of_findType? hb)

theorem settleRegistered_named_finds {t : DataType}
    (hbind : ∀ {s' b ws u}, Finds checks (fun _ => s.findRegistered t) s pending s' b u →
      s'.document.Sound (b :: ws) → u.Named s'.document.extent → I s' (b :: ws) →
      I (s'.bind checks b u) ws)
    (ht : t.Named s.document.extent) (hs : s.document.Sound (others ++ pending))
    (h : I s (others ++ pending)) :
    I (s.settleRegistered checks t pending).1
      (others ++ (s.settleRegistered checks t pending).2) := by
  refine settle_named_finds hperm hbind hs (fun s' b u hle _ hb => ?_) h
  obtain ⟨_, rfl⟩ := findRegistered_eq_some hb
  exact ⟨ht.1.mono hle, ht.2⟩

end Finds

variable (hbind : ∀ {s b ws t}, s.document.Sound (b :: ws) → t.Named s.document.extent →
    I s (b :: ws) → I (s.bind checks b t) ws)

include hperm hbind

theorem settleAll_named (last : Bool) (hs : s.document.Sound (others ++ pending))
    (h : I s (others ++ pending)) :
    I (s.settleAll checks last pending).1 (others ++ (s.settleAll checks last pending).2) :=
  settleAll_named_finds (I := I) hperm (fun _ => hbind) hs h

theorem settleRegistered_named {t : DataType} (ht : t.Named s.document.extent)
    (hs : s.document.Sound (others ++ pending)) (h : I s (others ++ pending)) :
    I (s.settleRegistered checks t pending).1
      (others ++ (s.settleRegistered checks t pending).2) :=
  settleRegistered_named_finds (I := I) hperm (fun _ => hbind) ht hs h

theorem settleScope_named {scope : StructureId} (hs : s.document.Sound (others ++ pending))
    (h : I s (others ++ pending)) :
    I (s.settleScope checks scope pending).1
      (others ++ (s.settleScope checks scope pending).2) := by
  let inside (b : Binding) : Bool := b.scope == some scope && b.name.path.isEmpty
  let outside := pending.filter fun b => !inside b
  have hparts : (others ++ pending).Perm (others ++ outside ++ pending.filter inside) := by
    rw [List.append_assoc]
    refine List.Perm.append_left others ?_
    exact ((List.perm_append_comm).trans (List.filter_append_perm inside pending)).symm
  let find (s : Session) (b : Binding) : Option DataType :=
    (s.document.findNested? scope b.name.last.text).map .enum
  have hsettle : I (s.settle checks find (pending.filter inside)).1
      (others ++ outside ++ (s.settle checks find (pending.filter inside)).2) := by
    refine settle_named_finds hperm (fun _ => hbind) (hs.perm hparts) (fun s' b t _ hl hb => ?_)
      (hperm hparts h)
    obtain ⟨e, he, rfl⟩ := Option.map_eq_some_iff.1 hb
    exact hl.named (.nested (Document.isNested_of_findNested? he))
  simp only [settleScope, List.partition_eq_filter_filter]
  rw [← List.append_assoc]
  exact hsettle

end Named

theorem follows_settle (s : Session) (pending : List Binding) :
    s.Follows (s.settle checks find pending).1 :=
  settle_invariant (I := fun s' _ => s.Follows s')
    (fun s' _ b _ t h _ => h.trans (s'.follows_bind checks b t)) s pending (Follows.refl s)

theorem follows_settleRegistered (checks : List Check) (s : Session) (t : DataType)
    (pending : List Binding) : s.Follows (s.settleRegistered checks t pending).1 :=
  s.follows_settle pending

theorem follows_settleAll (checks : List Check) (s : Session) (last : Bool)
    (pending : List Binding) : s.Follows (s.settleAll checks last pending).1 :=
  s.follows_settle pending

end Session

end Idl
