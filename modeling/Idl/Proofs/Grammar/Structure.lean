import Idl.Grammar.Structure
import Idl.Proofs.Document.Field
import Idl.Proofs.Grammar.Enumeration
import Idl.Proofs.Grammar.Modifier

/-!
What the reading of structures builds: a node, its members, and the names that wait for the
types of its fields. When the body is closed, the names that were read inside of it are looked
up among the enumerations that are nested in it.
-/

namespace Idl.Grammar

variable {checks : List Check} {others : List Binding} {m fail : Mark} {s : State}

/-- Only a registered structure can be a base. -/
theorem builds_structureBase (hs : s.Ready others fail) :
    Builds checks fail fail structureBase s fun b s' =>
      s.Reads s' ∧ s.document.IsListed (.struct b) := by
  refine (builds_declaredType hs "base").bind hs (Mark.le_refl fail)
    fun (name, t) s₁ hs₁ _ ⟨hr, ht⟩ => ?_
  cases t with
  | struct base =>
    cases ht with
    | listed h => exact builds_pure ⟨hr, h⟩
  | _ => exact (fails_inappropriate _ _ _).builds hs₁

theorem builds_baseField (hs : s.Ready others fail) (base : StructureId) (name : String)
    (location : Location) :
    Builds checks fail fail (baseField base name location) s fun f s' =>
      s.Reads s' ∧ s.document.findField? base name = some f := by
  apply builds_get
  split
  · rename_i f hf
    exact builds_pure ⟨State.Reads.refl s, hf⟩
  · exact (fails_fail _).builds hs

theorem builds_addMember {id : StructureId} (hid : m.extent.structures ≤ id.index)
    {member : Member} (hm : member.field? = none) (hl : member.Linked s.document id)
    (hsuits : ∀ x, s.document.structures.get? id = some x → member.Suits s.document x.base)
    (hplaced : ∀ x, member.Placed s.document id x) :
    Builds checks m fail (addMember id member) s fun _ s' =>
      s'.document = s.document.modifyStructure id (·.addMember member) :=
  builds_modify (.member hid hm hl hsuits fun x _ => hplaced x)

/-- A member that is no field and says nothing about one. -/
theorem builds_addPlainMember {id : StructureId} (hid : m.extent.structures ≤ id.index)
    {member : Member} (hm : member.field? = none) (hl : member.Linked s.document id)
    (hrooted : ∀ base, member.Rooted s.document base) (hadmitted : member.Admitted s.document)
    (hplaced : ∀ x, member.Placed s.document id x) :
    Builds checks m fail (addMember id member) s fun _ _ => True :=
  (builds_addMember hid hm hl (fun x _ =>
    ⟨hrooted x.base, hadmitted, fun f _ hf => by rw [hm] at hf; cases hf⟩) hplaced).mono
      (Mark.le_refl m) fun _ _ _ => trivial

theorem builds_alters (hs : s.Ready others m) {id base : StructureId}
    (hid : m.extent.structures ≤ id.index) (hbase : s.document.HasBase id base) :
    Builds checks m m (alters id base) s fun _ _ => True := by
  refine Builds.mono (Q := fun _ s' => s'.document.HasBase id base)
    (builds_iterate hs hbase (fun _ s₀ hs₀ hbase₀ => ?_) ()) (Mark.le_refl m)
    fun _ _ _ => trivial
  refine quiet_advance.builds_bind hs₀ fun _ s₁ hs₁ hr₁ => ?_
  refine (quiet_expectName _).builds_bind hs₁ fun name s₂ hs₂ hr₂ => ?_
  refine (builds_baseField hs₂ base _ _).bind hs₂ (Mark.le_refl m)
    fun f s₃ hs₃ _ ⟨hr₃, hf⟩ => ?_
  refine (quiet_expectToken _ _).builds_bind hs₃ fun _ s₄ hs₄ hr₄ => ?_
  refine (quiet_defaultValue _).builds_bind hs₄ fun default s₅ hs₅ hr₅ => ?_
  apply builds_get
  refine (builds_checkDefault hs₅ _ _ _).bind hs₅ (Mark.le_refl m)
    fun _ s₆ hs₆ _ ⟨hr₆, hadmits⟩ => ?_
  have hr := ((hr₃.trans hr₄).trans hr₅).trans hr₆
  rw [← hr.document] at hf
  rw [← hr₆.document] at hadmits
  have hbase₆ : s₆.document.HasBase id base := by
    rw [((hr₁.trans hr₂).trans hr).document]
    exact hbase₀
  let alter : Alter := { field := f, name, default, location := name.location }
  have hsuits (x : Structure) (hx : s₆.document.structures.get? id = some x) :
      (Member.alter alter).Suits s₆.document x.base := by
    refine ⟨⟨base, ?_, hf⟩, hadmits, fun _ _ hfield => by cases hfield⟩
    simpa [Document.HasBase, hx] using hbase₆
  refine Builds.bind hs₆ (Mark.le_refl m)
    (builds_addMember hid rfl (Document.holdsField_of_findField? hf) hsuits fun _ => trivial)
    fun _ s₇ hs₇ _ hd₇ => ?_
  have hbase₇ : s₇.document.HasBase id base := by
    rw [hd₇]
    exact hbase₆.addMember id _
  refine (quiet_isAt _ _).builds_bind hs₇ fun comma s₈ hs₈ hr₈ => ?_
  rw [← hr₈.document] at hbase₇
  split
  · exact builds_pure hbase₇
  · exact builds_pure hbase₇

theorem builds_identification (hs : s.Ready others fail) {id : StructureId}
    (hid : m.extent.structures ≤ id.index) (comment : Option Comment) (modifiers : List Token) :
    Builds checks m fail (identification id comment modifiers) s fun _ _ => True := by
  unfold identification
  refine (quiet_expectKeyword _).builds_bind hs fun keyword s₁ hs₁ _ => ?_
  extract_lets inFront
  apply builds_get
  extract_lets behind complete
  have hcomplete (s₂ : State) (hs₂ : s₂.Ready others fail) :
      Builds checks m fail (complete ()) s₂ fun _ _ => True := by
    refine quiet_expectSemicolon.builds_bind hs₂ fun _ s₃ hs₃ _ => ?_
    apply builds_get
    exact builds_addPlainMember hid rfl rfl (fun _ => trivial) trivial fun _ => trivial
  split
  · exact quiet_advance.builds_bind hs₁ fun _ s₂ hs₂ _ => hcomplete s₂ hs₂
  · exact hcomplete s₁ hs₁

theorem builds_upcopy (hs : s.Ready others fail) {id : StructureId}
    (hid : m.extent.structures ≤ id.index) (comment : Option Comment) :
    Builds checks m fail (upcopy id comment) s fun _ _ => True := by
  unfold upcopy
  refine (quiet_expectKeyword _).builds_bind hs fun keyword s₁ hs₁ _ => ?_
  refine (quiet_expectKeyword _).builds_bind hs₁ fun _ s₂ hs₂ _ => ?_
  refine (quiet_typeName _).builds_bind hs₂ fun name s₃ hs₃ _ => ?_
  apply builds_get
  split
  · exact (fails_unknownType _ _).builds hs₃
  · rename_i base _
    extract_lets complete
    split
    · exact (fails_failAt _ _ _).bind.builds hs₃
    · rename_i hbase
      have hancestor : base ∈ s₃.document.ancestors id := by
        simp only [Bool.or_eq_true, beq_iff_eq, Bool.not_eq_true', not_or,
          Bool.not_eq_false] at hbase
        exact (List.mem_cons.1 (List.contains_iff_mem.1 hbase.2)).resolve_left hbase.1
      refine quiet_expectSemicolon.builds_bind hs₃ fun _ s₄ hs₄ hr₄ => ?_
      rw [← hr₄.document] at hancestor
      exact builds_addPlainMember hid rfl ⟨rfl, Document.index_lt_of_mem_ancestors hancestor⟩
        (fun _ => trivial) trivial fun _ => hancestor
  · exact (fails_inappropriate _ _ _).builds hs₃

theorem builds_operator (hs : s.Ready others fail) {id : StructureId}
    (hid : m.extent.structures ≤ id.index) (comment : Option Comment) (modifiers : List Token) :
    Builds checks m fail (operator id comment modifiers) s fun _ _ => True := by
  unfold operator
  refine (quiet_expectKeyword _).builds_bind hs fun keyword s₁ hs₁ _ => ?_
  apply builds_get
  split
  · exact (fails_failHere _ _).builds hs₁
  · refine quiet_advance.builds_bind hs₁ fun _ s₂ hs₂ _ => ?_
    refine quiet_expectSemicolon.builds_bind hs₂ fun _ s₃ hs₃ _ => ?_
    apply builds_get
    exact builds_addPlainMember hid rfl rfl (fun _ => trivial) trivial fun _ => trivial

theorem builds_overriddenField (hs : s.Ready others fail) (id : StructureId) (keyword : Token)
    (name : String) :
    Builds checks fail fail (overriddenField id keyword name) s fun f s' =>
      s.Reads s' ∧ s.document.IsBaseField id name f := by
  apply builds_get
  split
  · rename_i base hbase
    exact (builds_baseField hs _ _ _).mono (Mark.le_refl fail)
      fun _ _ h => ⟨h.1, base, hbase, h.2⟩
  · exact (fails_failAt _ _ _).builds hs

theorem builds_mapM_overriddenField (hs : s.Ready others fail) (id : StructureId)
    (keyword? : Option Token) (name : String) :
    Builds checks fail fail (keyword?.mapM fun keyword => overriddenField id keyword name) s
      fun overridden s' =>
        s.Reads s' ∧ ∀ f, overridden = some f → s.document.IsBaseField id name f := by
  cases keyword? with
  | none => exact builds_pure ⟨State.Reads.refl s, nofun⟩
  | some keyword =>
    refine (builds_overriddenField hs id keyword name).bind_sure
      fun f s' ⟨hr, hf⟩ => ⟨.refl s', hr, ?_⟩
    rintro _ ⟨⟩
    exact hf

theorem builds_field (hs : s.Ready others fail) (hd : m ≤ fail) {id : StructureId}
    (hid : m.extent.structures ≤ id.index) (hlt : id.index < s.document.structures.size)
    (comment : Option Comment) (modifiers : List Token) (weak : Bool) :
    Builds checks m fail (field id comment modifiers weak) s fun _ _ => True := by
  have hscope : s.HasScope (some id) := by
    rintro _ ⟨⟩
    exact hlt
  apply builds_get
  extract_lets location
  refine (builds_typeUse hs hscope _ _).bind hs hd fun use s₁ hs₁ g huse => ?_
  obtain ⟨hu, hm⟩ := huse
  refine (quiet_expectName _).builds_bind hs₁ fun name s₂ hs₂ hr₂ => ?_
  refine (quiet_isAt _ _).builds_bind hs₂ fun hasDefault s₃ hs₃ hr₃ => ?_
  extract_lets complete
  have hcomplete (default : Option Default) (s₄ : State) (hs₄ : s₄.Ready others fail)
      (hr₄ : s₁.Reads s₄) (hadmits : ∀ x, default = some x → s₄.document.Admits use.type? x) :
      Builds checks m fail (complete default) s₄ fun _ _ => True := by
    refine (builds_mapM_overriddenField hs₄ id _ _).bind hs₄ hd
      fun overridden s₅ hs₅ _ hoverridden => ?_
    obtain ⟨hr₅, hf⟩ := hoverridden
    refine quiet_expectSemicolon.builds_bind hs₅ fun _ s₆ hs₆ hr₆ => ?_
    apply builds_get
    extract_lets own node
    have hr := (hr₄.trans hr₅).trans hr₆
    have hu₆ := hu.reads hr
    have hlt₆ : id.index < s₆.document.structures.size := by
      rw [hr.document]
      exact Nat.lt_of_lt_of_le hlt g.extent.1
    obtain ⟨x, hx⟩ := Option.isSome_iff_exists.1
      ((s₆.document.structures.get?_isSome_iff id).2 hlt₆)
    have hposition : (own.map (·.members.length)).getD 0 = x.members.length := by
      simp [own, hx]
    have hplaced : node.bitmask = x.nextBitmask := by
      simp [node, own, hx]
    rw [hposition]
    have hscope₆ : s₆.HasScope (some id) := by
      rintro _ ⟨⟩
      exact hlt₆
    rw [← (hr₅.trans hr₆).document] at hf hadmits
    have hspelled (t : DataType) (ht : use.type? = some t) : s₆.document.IsSpelled t :=
      hm.reads hr t ht
    refine Builds.mono (Q := fun _ s' => s'.document = _) (builds_write ?_ hscope₆)
      (Mark.le_refl m) fun _ _ _ => trivial
    cases overridden with
    | none =>
      have hsuits : (Member.field node).Suits s₆.document x.base :=
        ⟨trivial, hadmits, fun _ t hfield ht => by cases hfield; exact hspelled t ht⟩
      exact .field (m := .field node) (f := node) hid hx rfl ⟨rfl, hu₆.linked⟩ hsuits
        hplaced hu₆
    | some f =>
      obtain ⟨base, hbase, hfind⟩ := hf f rfl
      have hsuits : (Member.override node f).Suits s₆.document x.base := by
        refine ⟨⟨base, ?_, hfind⟩, hadmits, fun _ t hfield ht => ?_⟩
        · simpa [Document.HasBase, hx] using hbase
        · cases hfield
          exact hspelled t ht
      exact .field (m := .override node f) (f := node) hid hx rfl
        ⟨rfl, hu₆.linked, Document.holdsField_of_findField? hfind⟩ hsuits hplaced hu₆
  split
  · refine quiet_advance.builds_bind hs₃ fun _ s₄ hs₄ hr₄ => ?_
    refine (quiet_defaultValue _).builds_bind hs₄ fun default s₅ hs₅ hr₅ => ?_
    refine (builds_checkDefault hs₅ _ _ _).bind hs₅ hd fun _ s₆ hs₆ _ hchecked => ?_
    obtain ⟨hr₆, hadmits⟩ := hchecked
    have hr := (((hr₂.trans hr₃).trans hr₄).trans hr₅).trans hr₆
    refine hcomplete (some default) s₆ hs₆ hr ?_
    rintro _ ⟨⟩
    rwa [hr₆.document]
  · refine hcomplete none s₃ hs₃ (hr₂.trans hr₃) fun _ hnone => ?_
    cases hnone

/-- A member is added to its structure. A nested enumeration is not a member yet, so all that
was built of it lies above the second mark. -/
theorem builds_member (hs : s.Ready others fail) (hd : m ≤ fail) {id : StructureId}
    (hid : m.extent.structures ≤ id.index) (hlt : id.index < s.document.structures.size)
    (comment : Option Comment) (first : Token) :
    Builds checks m fail (member id comment first) s fun nested s' =>
      ∀ e, nested = some e →
        Edits checks fail s s' ∧ s'.document.HasOwner e (some id) := by
  unfold member
  extract_lets dispatch
  have hdispatch (s₁ : State) (hs₁ : s₁.Ready others fail) (hr₁ : s.Reads s₁) :
      Builds checks m fail (dispatch ()) s₁ fun nested s' =>
        ∀ e, nested = some e →
          Edits checks fail s s' ∧ s'.document.HasOwner e (some id) := by
    refine (quiet_modifiers _).builds_bind hs₁ fun taken s₂ hs₂ hr₂ => ?_
    apply builds_get
    extract_lets t form isReference complete
    have hr := hr₁.trans hr₂
    have hlt₂ : id.index < s₂.document.structures.size := by rwa [hr.document]
    have plain {p : Parser Unit} (hp : Builds checks m fail p s₂ fun _ _ => True) :
        Builds checks m fail (do p; let nested ← pure none; complete nested) s₂
          fun nested s' => ∀ e, nested = some e →
            Edits checks fail s s' ∧ s'.document.HasOwner e (some id) := by
      refine hp.bind_sure fun _ s₃ _ => ?_
      apply After.bind
      apply after_pure
      apply After.bind
      refine After.mono (after_reportModifiers _ s₃) (fun _ s₄ hr₄ => ?_) fun _ h => h
      exact after_pure ⟨hr₄, nofun⟩
    clear_value form
    cases form with
    | identification => exact plain (builds_identification hs₂ hid comment taken)
    | upcopy => exact plain (builds_upcopy hs₂ hid comment)
    | operator => exact plain (builds_operator hs₂ hid comment taken)
    | field => exact plain (builds_field hs₂ hd hid hlt₂ comment taken _)
    | enumeration =>
      have howner : s₂.HasScope (some id) := by
        rintro _ ⟨⟩
        exact hlt₂
      refine Builds.bind_sure (Q := fun nested s' => ∃ e, nested = some e ∧
        Edits checks fail s s' ∧ s'.document.HasOwner e (some id)) ?_ ?_
      · refine Builds.bind_sure
          ((builds_enumeration hs₂ howner comment taken).edits hd) fun e s₃ ⟨he, _, ho⟩ => ?_
        exact after_pure ⟨State.Reads.refl s₃, e, rfl, (Edits.read hr).trans he, ho⟩
      · rintro nested s₃ ⟨e, rfl, he, ho⟩
        apply After.bind
        refine After.mono (after_reportModifiers _ s₃) (fun _ s₄ hr₄ => ?_) fun _ h => h
        refine after_pure ⟨hr₄, ?_⟩
        rintro _ ⟨⟩
        refine ⟨he.tail (.read hr₄), ?_⟩
        rwa [hr₄.document]
  split
  · exact (quiet_unexpected _).builds_bind hs fun _ => hdispatch
  · exact hdispatch s hs (State.Reads.refl s)

/-- A member that is broken leaves nothing but messages. -/
theorem reads_structureItem_of_broken (hs : s.Sound others) {id : StructureId}
    (hd : m ≤ s.mark) (hid : m.extent.structures ≤ id.index)
    (hlt : id.index < s.document.structures.size) {comment : Option Comment} {first : Token}
    {e : Reported} {s' : State} (hp : member id comment first s = .error e s') :
    s.Reads (structureItem checks id comment first s) := by
  have hmember : Builds checks m s.mark (member id comment first) s _ :=
    builds_member hs.ready hd hid hlt comment first
  exact reads_construct_of_broken hs hmember State.reads_recover hp

/-- So does a nested enumeration that does not pass its checks. -/
theorem reads_structureItem_of_rejected (hs : s.Sound others) {id : StructureId}
    (hd : m ≤ s.mark) (hid : m.extent.structures ≤ id.index)
    (hlt : id.index < s.document.structures.size) {comment : Option Comment} {first : Token}
    {nested : Option EnumerationId} {s' : State}
    (hp : member id comment first s = .ok nested s')
    (ha : (acceptNested checks id nested s').1 = false) :
    s.Reads (structureItem checks id comment first s) := by
  have hmember : Builds checks m s.mark (member id comment first) s _ :=
    builds_member hs.ready hd hid hlt comment first
  obtain ⟨_, hnested⟩ := After.of_ok hmember hp
  refine reads_construct_of_rejected hs hp ha ?_
  cases nested with
  | none => cases ha
  | some e =>
    have hv := State.reads_visit s' checks (.declaration (.enum e)) false
    have hk := ((hnested e rfl).1.tail (.read hv)).keeps hs.ready
    simp only [acceptNested] at ha ⊢
    split at ha
    · cases ha
    · rename_i hpassed
      simp only [hpassed, Bool.false_eq_true, if_false]
      exact hk

theorem edits_structureItem (hs : s.Sound others) (hd : m ≤ s.mark) {id : StructureId}
    (hid : m.extent.structures ≤ id.index) (hlt : id.index < s.document.structures.size)
    (comment : Option Comment) (first : Token) :
    Edits checks m s (structureItem checks id comment first s) := by
  have hmember : Builds checks m s.mark (member id comment first) s _ :=
    builds_member hs.ready hd hid hlt comment first
  cases hp : member id comment first s with
  | error e s' => exact .read (reads_structureItem_of_broken hs hd hid hlt hp)
  | ok nested s' =>
    obtain ⟨he, hnested⟩ := After.of_ok hmember hp
    cases ha : (acceptNested checks id nested s').1 with
    | false => exact .read (reads_structureItem_of_rejected hs hd hid hlt hp ha)
    | true =>
      have haccept : structureItem checks id comment first s =
          (acceptNested checks id nested s').2 := construct_of_accepted hp ha
      rw [haccept]
      cases nested with
      | none => exact he
      | some e =>
        have hv := State.reads_visit s' checks (.declaration (.enum e)) false
        simp only [acceptNested] at ha ⊢
        split at ha
        · rename_i hpassed
          simp only [hpassed, if_true]
          have hsuits (x : Structure) : (Member.enumeration e).Suits s'.document x.base :=
            Member.suits_enumeration _ x.base e
          exact (he.tail (.read hv)).tail
            (edit_modify (.member hid rfl (hnested e rfl).2.index_lt (fun x _ => hsuits x)
              fun _ _ => (hnested e rfl).2))
        · cases ha

theorem builds_structureHeader (hs : s.Ready others m) (comment : Option Comment)
    (modifiers : List Token) :
    Builds checks m m (structureHeader comment modifiers) s fun id s' =>
      m.extent.structures ≤ id.index ∧ id.index < s'.document.structures.size := by
  unfold structureHeader
  refine (quiet_expectKeyword _).builds_bind hs fun keyword s₁ hs₁ _ => ?_
  refine (quiet_expectName _).builds_bind hs₁ fun name s₂ hs₂ _ => ?_
  apply builds_get
  extract_lets id header finish
  refine (builds_modify (.struct header rfl rfl)).bind hs₂ (Mark.le_refl m)
    fun _ s₃ hs₃ _ hd => ?_
  have hid : m.extent.structures ≤ id.index := hs₂.mark.1.1
  have hlt : id.index < s₃.document.structures.size := by
    simp [hd, Document.insertStructure, id, Arena.next]
  have hheader : s₃.document.structures.get? id = some header := by
    simp [hd, Document.insertStructure, id, Arena.get?_insert]
  refine (quiet_isAtKeyword _).builds_bind hs₃ fun inherit s₄ hs₄ hr₄ => ?_
  rw [← hr₄.document] at hlt
  split
  · refine quiet_advance.builds_bind hs₄ fun _ s₅ hs₅ hr₅ => ?_
    rw [← hr₅.document] at hlt
    refine (builds_structureBase hs₅).bind hs₅ (Mark.le_refl m) fun b s₆ hs₆ _ hread => ?_
    obtain ⟨hr₆, hb⟩ := hread
    rw [← hr₆.document] at hlt
    have hlower : b.index < id.index :=
      Nat.lt_of_lt_of_le (hs₅.settled.covered.listed _ hb) hid
    rw [← ((hr₄.trans hr₅).trans hr₆).document] at hheader
    rw [← hr₆.document] at hb
    have hempty (x : Structure) (hx : s₆.document.structures.get? id = some x) :
        x.members = [] := by
      rw [hheader] at hx
      cases hx
      rfl
    refine (builds_modify (.base hid hlower hempty hb)).bind hs₆ (Mark.le_refl m)
      fun _ s₇ hs₇ g₇ hd₇ => ?_
    have hbase : s₇.document.HasBase id b := by
      simp [hd₇, Document.HasBase, Document.modifyStructure, Arena.get?_modify, hheader]
    have hlt₇ := Nat.lt_of_lt_of_le hlt g₇.extent.1
    refine (quiet_isAtKeyword _).builds_bind hs₇ fun alter s₈ hs₈ hr₈ => ?_
    rw [← hr₈.document] at hlt₇
    split
    · rw [← hr₈.document] at hbase
      refine (builds_alters hs₈ hid hbase).bind hs₈ (Mark.le_refl m) fun _ s₉ hs₉ g₉ _ => ?_
      exact builds_pure ⟨hid, Nat.lt_of_lt_of_le hlt₇ g₉.extent.1⟩
    · exact builds_pure ⟨hid, hlt₇⟩
  · exact builds_pure ⟨hid, hlt⟩

/-- The names below the mark were not read inside a structure above it, so they stay in front
when the names of the structure are moved behind all others. -/
theorem filter_pending_eq (hs : s.Ready others m) {id : StructureId}
    (hid : m.extent.structures ≤ id.index) {p : Binding → Bool}
    (hp : ∀ b, p b = true → b.scope = some id) :
    s.pending.filter (fun b => !p b) =
      s.pending.take m.pending ++ (s.pending.drop m.pending).filter fun b => !p b := by
  have hfront : ∀ b ∈ s.pending.take m.pending, (!p b) = true := by
    intro b hb
    rw [Bool.not_eq_true', ← Bool.not_eq_true]
    intro hpb
    exact Nat.not_lt_of_le hid (hs.settled.scopes b hb id (hp b hpb))
  rw [← List.filter_eq_self.2 hfront, ← List.filter_append, List.take_append_drop]

theorem edit_partition (hs : s.Ready others m) {id : StructureId}
    (hid : m.extent.structures ≤ id.index) {p : Binding → Bool}
    (hp : ∀ b, p b = true → b.scope = some id) :
    Edit checks m s
      { s with pending := s.pending.filter (fun b => !p b) ++ s.pending.filter p } := by
  refine .reorder ?_ ?_
  · exact ((List.perm_append_comm).trans (List.filter_append_perm p s.pending)).symm
  · rw [filter_pending_eq hs hid hp, List.append_assoc]
    exact List.take_left' (List.length_take_of_le hs.mark.2)

/-- When a structure is finished, names that wait in it are bound to its nested enumerations. -/
theorem edits_settleScope (hs : s.Ready others m) {id : StructureId}
    (hid : m.extent.structures ≤ id.index) :
    Edits checks m s (s.settle fun session pending => session.settleScope checks id pending) := by
  let p : Binding → Bool := fun b => b.scope == some id && b.name.path.isEmpty
  have hp (b : Binding) (h : p b = true) : b.scope = some id := by
    simp only [p, Bool.and_eq_true, beq_iff_eq] at h
    exact h.1
  let outside := s.pending.filter fun b => !p b
  have houtside : m.pending ≤ outside.length := by
    simp only [outside, filter_pending_eq hs hid hp, List.length_append,
      List.length_take_of_le hs.mark.2]
    omega
  let find : Session → Binding → Option DataType := fun session b =>
    (session.document.findNested? id b.name.last.text).map .enum
  let I : Session → List Binding → Prop := fun session ws =>
    Edits checks m s { s with toSession := session, pending := outside ++ ws } ∧
      ∀ b ∈ ws, b.scope = some id
  have hsettle : I (s.toSession.settle checks find (s.pending.filter p)).1
      (s.toSession.settle checks find (s.pending.filter p)).2 := by
    refine Session.settle_invariant (fun session kept b back t ⟨he, hscope⟩ ht => ?_) _ _
      ⟨.single (edit_partition hs hid hp), fun b hb => hp b (List.mem_filter.1 hb).2⟩
    obtain ⟨e, hn, rfl⟩ := Option.map_eq_some_iff.1 ht
    have hs' := he.ready hs
    have hbind : Edit checks m
        { s with toSession := session, pending := outside ++ (kept ++ b :: back) } _ :=
      .bind (b := b) (t := .enum e) (List.append_assoc outside kept (b :: back)).symm
        (by simp only [List.length_append]; omega)
        (.nested (Document.isNested_of_findNested? hn))
        (hscope b (by simp)) hid
    refine ⟨he.tail (by simpa only [List.append_assoc] using hbind), fun b' hb' => ?_⟩
    refine hscope b' ?_
    rcases List.mem_append.1 hb' with hb' | hb'
    · exact List.mem_append_left _ hb'
    · exact List.mem_append_right _ (List.mem_cons_of_mem b hb')
  simp only [State.settle, Session.settleScope, List.partition_eq_filter_filter]
  exact hsettle.1

theorem builds_structureDeclaration (hs : s.Ready others m) (comment : Option Comment)
    (modifiers : List Token) :
    Builds checks m m (structureDeclaration checks comment modifiers) s fun id s' =>
      m.extent.structures ≤ id.index ∧ id.index < s'.document.structures.size := by
  refine (builds_structureHeader hs comment modifiers).bind hs (Mark.le_refl m)
    fun id s₁ hs₁ _ ⟨hid, hlt⟩ => ?_
  refine (builds_body hs₁ fun comment t s' hs' g _ _ => .inl ?_).bind hs₁ (Mark.le_refl m)
    fun _ s₂ hs₂ g _ => ?_
  · exact edits_structureItem hs'.sound hs'.mark hid (Nat.lt_of_lt_of_le hlt g.extent.1) comment t
  · have hsettle : Edits checks m s₂ _ := edits_settleScope hs₂ hid
    apply After.bind
    apply after_modify
    refine after_pure ⟨hsettle, hid, ?_⟩
    exact Nat.lt_of_lt_of_le (Nat.lt_of_lt_of_le hlt g.extent.1) (hsettle.grows hs₂).extent.1

section Defer

variable {names : List (String × DataType)} {scope : Option StructureId} {id : StructureId}

theorem defers_addMember (member : Member) :
    Defers names scope 0 (addMember id member) fun _ => True :=
  defers_modifyDocument fun _ => rfl

theorem quiet_baseField (base : StructureId) (name : String) (location : Location) :
    Quiet (baseField base name location) := by
  refine quiet_get.bind fun s => ?_
  split
  · exact quiet_pure _
  · exact quiet_fail _

theorem defers_alters (base : StructureId) :
    Defers names scope 0 (alters id base) fun _ => True := by
  refine defers_iterate (fun _ => ?_) ()
  refine quiet_advance.defers_bind fun _ => ?_
  refine (quiet_expectName _).defers_bind fun name => ?_
  refine (quiet_baseField _ _ _).defers_bind fun f => ?_
  refine (quiet_expectToken _ _).defers_bind fun _ => ?_
  refine (quiet_defaultValue _).defers_bind fun default => ?_
  refine quiet_get.defers_bind fun s => ?_
  refine (quiet_checkDefault _ _ _).defers_bind fun _ => ?_
  refine (defers_addMember _).bind_left fun _ _ => ?_
  refine (quiet_isAt _ _).defers_bind fun comma => ?_
  split
  · exact (quiet_pure _).defers
  · exact (quiet_pure _).defers

theorem defers_structureHeader (comment : Option Comment) (modifiers : List Token) :
    Defers names scope 1 (structureHeader comment modifiers) fun _ => True := by
  unfold structureHeader
  refine (defers_expectKeyword _).bind_left fun keyword _ => ?_
  refine (quiet_expectName _).defers_bind fun name => ?_
  refine quiet_get.defers_bind fun s => ?_
  extract_lets id header finish
  refine .bind_left (defers_modifyDocument fun _ => by rfl) fun _ _ => ?_
  refine (quiet_isAtKeyword _).defers_bind fun inherit => ?_
  split
  · refine quiet_advance.defers_bind fun _ => ?_
    have hbase : Quiet structureBase := by
      refine (quiet_declaredType _).bind fun (name, t) => ?_
      cases t with
      | struct base => exact quiet_pure _
      | _ => exact quiet_inappropriate _ _ _
    refine hbase.defers_bind fun base => ?_
    refine .bind_left (defers_modifyDocument fun _ => by rfl) fun _ _ => ?_
    refine (quiet_isAtKeyword _).defers_bind fun alter => ?_
    split
    · exact (defers_alters base).bind_left fun _ _ => (quiet_pure _).defers
    · exact (quiet_pure _).defers
  · exact (quiet_pure _).defers

theorem defers_identification (comment : Option Comment) (modifiers : List Token) :
    Defers names scope 0 (identification id comment modifiers) fun _ => True := by
  unfold identification
  refine (quiet_expectKeyword _).defers_bind fun keyword => ?_
  extract_lets inFront
  refine quiet_get.defers_bind fun s => ?_
  extract_lets behind complete
  have hcomplete : Defers names scope 0 (complete ()) fun _ => True :=
    quiet_expectSemicolon.defers_bind fun _ => quiet_get.defers_bind fun _ => defers_addMember _
  split
  · exact quiet_advance.defers_bind fun _ => hcomplete
  · exact hcomplete

theorem defers_upcopy (comment : Option Comment) :
    Defers names scope 0 (upcopy id comment) fun _ => True := by
  unfold upcopy
  refine (quiet_expectKeyword _).defers_bind fun keyword => ?_
  refine (quiet_expectKeyword _).defers_bind fun _ => ?_
  refine (quiet_typeName _).defers_bind fun name => ?_
  refine quiet_get.defers_bind fun s => ?_
  split
  · exact (fails_unknownType _ _).defers
  · extract_lets complete
    split
    · exact (fails_failAt _ _ _).bind.defers
    · exact quiet_expectSemicolon.defers_bind fun _ => defers_addMember _
  · exact (fails_inappropriate _ _ _).defers

theorem defers_operator (comment : Option Comment) (modifiers : List Token) :
    Defers names scope 0 (operator id comment modifiers) fun _ => True := by
  unfold operator
  refine (quiet_expectKeyword _).defers_bind fun keyword => ?_
  refine quiet_get.defers_bind fun s => ?_
  split
  · exact (fails_failHere _ _).defers
  · refine quiet_advance.defers_bind fun _ => ?_
    refine quiet_expectSemicolon.defers_bind fun _ => ?_
    exact quiet_get.defers_bind fun _ => defers_addMember _

theorem quiet_overriddenField (id : StructureId) (keyword : Token) (name : String) :
    Quiet (overriddenField id keyword name) := by
  refine quiet_get.bind fun s => ?_
  split
  · exact quiet_baseField _ _ _
  · exact quiet_failAt _ _ _

/-- The name of the type of a field waits in the structure of the field. -/
theorem defers_field (comment : Option Comment) (modifiers : List Token) (weak : Bool) :
    Defers names (some id) 0 (field id comment modifiers weak) fun _ => True := by
  refine quiet_get.defers_bind fun s => ?_
  extract_lets location
  refine (defers_typeUse _ _).bind_left fun use hu => ?_
  refine (quiet_expectName _).defers_bind fun name => ?_
  refine (quiet_isAt _ _).defers_bind fun hasDefault => ?_
  extract_lets complete
  have hcomplete (default : Option Default) :
      Defers names (some id) 0 (complete default) fun _ => True := by
    have hoverridden : Quiet ((taken? modifiers ["override"]).mapM fun keyword =>
        overriddenField id keyword name.value) := by
      cases taken? modifiers ["override"] with
      | none => exact quiet_pure _
      | some keyword => exact (quiet_overriddenField id keyword _).map
    refine hoverridden.defers_bind fun overridden => ?_
    refine quiet_expectSemicolon.defers_bind fun _ => ?_
    refine quiet_get.defers_bind fun s => ?_
    extract_lets own node
    exact (defers_addMember _).bind_left fun _ _ => defers_await hu _ _
  split
  · refine quiet_advance.defers_bind fun _ => ?_
    refine (quiet_defaultValue _).defers_bind fun default => ?_
    exact (quiet_checkDefault _ _ _).defers_bind fun _ => hcomplete (some default)
  · exact hcomplete none

theorem defers_member (comment : Option Comment) (first : Token) :
    Defers names (some id) 0 (member id comment first) fun _ => True := by
  unfold member
  extract_lets dispatch
  have hdispatch : Defers names (some id) 0 (dispatch ()) fun _ => True := by
    refine (quiet_modifiers _).defers_bind fun taken => ?_
    refine quiet_get.defers_bind fun s => ?_
    extract_lets t form isReference complete
    have hcomplete (nested : Option EnumerationId) :
        Defers names (some id) 0 (complete nested) fun _ => True :=
      (quiet_reportModifiers _).defers_bind fun _ => (quiet_pure _).defers
    have plain {p : Parser Unit} (hp : Defers names (some id) 0 p fun _ => True) :
        Defers names (some id) 0 (do p; let nested ← pure none; complete nested) fun _ => True :=
      hp.bind_left fun _ _ => (quiet_pure _).defers_bind hcomplete
    clear_value form
    cases form with
    | identification => exact plain (defers_identification comment taken)
    | upcopy => exact plain (defers_upcopy comment)
    | operator => exact plain (defers_operator comment taken)
    | field => exact plain (defers_field comment taken _)
    | enumeration =>
      refine Defers.bind_left (P := fun _ => True) (fun s hs => ?_) fun nested _ =>
        hcomplete nested
      refine After.bind (After.mono (defers_enumeration comment taken s hs)
        (fun e s' ⟨hd, hl, _⟩ => ?_) fun _ hd => hd)
      exact ⟨hd, Nat.le_of_succ_le hl, trivial⟩
  split
  · exact (quiet_unexpected _).defers_bind fun _ => hdispatch
  · exact hdispatch

theorem defers_structureItem (comment : Option Comment) (first : Token) (s : State) :
    s.Defers (some id) (structureItem checks id comment first s) := by
  refine .construct ?_ (fun nested s' => ?_) State.reads_recover
  · exact (defers_member comment first s rfl).mono (fun _ _ h => h.1) fun _ h => h
  · cases nested with
    | none => exact .of_reads (State.Reads.refl s')
    | some e =>
      have hvisit := State.reads_visit s' checks (.declaration (.enum e)) false
      simp only [acceptNested]
      split
      · exact (State.Defers.of_reads hvisit).modifyDocument rfl
      · exact .of_reads hvisit

theorem defers_structureBody :
    Defers names (some id) 0 (body "structure" (structureItem checks id)) fun _ => True :=
  defers_body fun comment t s _ => defers_structureItem comment t s

/-- The names that a structure defers wait in it, up to the end of its body. -/
theorem after_structureDeclaration_defers (comment : Option Comment) (modifiers : List Token)
    (s : State) :
    After (structureDeclaration checks comment modifiers) s
      (fun id s' => ∃ s₁, s.Defers (some id) s₁ ∧ s₁.remaining < s.remaining ∧
        s' = s₁.settle fun session pending => session.settleScope checks id pending)
      fun s' => s'.cursor.rest <:+ s.cursor.rest := by
  apply After.bind
  have hheader (scope : Option StructureId) :
      After (structureHeader comment modifiers) s _ _ :=
    (defers_structureHeader comment modifiers : Defers _ scope _ _ _) s rfl
  cases hp : structureHeader comment modifiers s with
  | error e s₁ =>
    simp only [After, hp]
    exact ((hheader none).of_error hp).rest
  | ok id s₁ =>
    obtain ⟨hd, hl, _⟩ := (hheader (some id)).of_ok hp
    simp only [After, hp]
    refine After.bind (After.mono (defers_structureBody s₁ rfl) (fun _ s₂ hbody => ?_)
      fun _ hd₂ => hd₂.rest.trans hd.rest)
    obtain ⟨hd₂, hl₂, _⟩ := hbody
    exact ⟨s₂, hd.trans hd₂, by omega, rfl⟩

end Defer

end Idl.Grammar
