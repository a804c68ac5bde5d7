import Idl.Proofs.Draft.View

/-!
Names that are bound in what was read as it was drafted. To bind a name fills a slot with what
was meant to stand there, so all declarations go on to look like their drafts.
-/

namespace Idl

section View

variable {d : Document} {y : Declaration}

/-- Without regard to types a structure looks the same when a field gets a type. -/
theorem Structure.map_view?_modifyField (s : Structure) (position : Nat) (t : DataType) :
    (s.modifyField position fun f => { f with type := some t }).members.map
      (Member.view? fun _ => none) = s.members.map (Member.view? fun _ => none) := by
  refine List.ext_getElem? fun i => ?_
  simp only [Structure.modifyField, List.getElem?_map, List.getElem?_modify, Option.map_eq_map,
    Option.map_map]
  refine Option.map_congr fun m _ => ?_
  simp only [Function.comp_apply]
  split
  · cases m <;> rfl
  · rfl

/-- An interface looks the same when a parameter gets a type. -/
theorem Interface.map_view_modifyParameter (i : Interface) (method parameter : Nat)
    (t : DataType) :
    (i.methods.modify method fun m => m.modifyParameter parameter fun p => p.setType t).map
      (Method.view fun _ => none) = i.methods.map (Method.view fun _ => none) := by
  refine List.ext_getElem? fun j => ?_
  simp only [List.getElem?_map, List.getElem?_modify, Option.map_eq_map, Option.map_map]
  refine Option.map_congr fun m _ => ?_
  simp only [Function.comp_apply]
  split
  · refine Prod.ext rfl (List.ext_getElem? fun k => ?_)
    simp only [Method.view, Method.modifyParameter, List.getElem?_map, List.getElem?_modify,
      Option.map_eq_map, Option.map_map]
    refine Option.map_congr fun p _ => ?_
    simp only [Function.comp_apply]
    split <;> rfl
  · rfl

/-- Without regard to types a declaration looks the same when a slot is filled. -/
theorem Document.viewAs_fill (d : Document) (slot : Slot) (t : DataType) (y : Declaration) :
    (d.fill slot t).viewAs (fun _ => none) y = d.viewAs (fun _ => none) y := by
  cases slot with
  | field f =>
    cases y with
    | struct id =>
      simp only [viewAs, fill, modifyStructure, Arena.get?_modify]
      split
      · rw [Option.map_map]
        exact Option.map_congr fun s _ =>
          congrArg (View.struct _ _ _) (s.map_view?_modifyField f.member t)
      · rfl
    | _ => rfl
  | enumerationParameter id' =>
    cases y with
    | enum id =>
      simp only [viewAs, fill, modifyEnumeration, Arena.get?_modify]
      split
      · rw [Option.map_map]
        rfl
      · rfl
    | _ => rfl
  | methodParameter id' method parameter =>
    cases y with
    | interface id =>
      simp only [viewAs, fill, modifyInterface, Arena.get?_modify]
      split
      · rw [Option.map_map]
        exact Option.map_congr fun i _ =>
          congrArg (View.interface _) (i.map_view_modifyParameter method parameter t)
      · rfl
    | _ => rfl
  | _ => cases y <;> rfl

end View

namespace Session

open Document

variable {s s' : Session} {ws ws' : List Binding} {name : String} {t : DataType}

/-- Some of the names that waited were bound, and nothing else was done. -/
structure Binds (s : Session) (ws : List Binding) (s' : Session) (ws' : List Binding) : Prop where
  sound : s'.document.Sound ws'
  plain : s'.document.IsPlain
  messages : s'.messages = s.messages
  declarations : s'.document.declarations = s.document.declarations
  typeNames : s'.document.typeNames = s.document.typeNames
  readAs : ∀ x y, s.document.ReadAs ws x y → s'.document.ReadAs ws' x y

theorem binds_bind {front back : List Binding} {b : Binding}
    (h : s.Binds ws s' (front ++ b :: back))
    (ht : s'.document.leaf? b.name.last.text = some t) :
    s.Binds ws (s'.bind Check.standard b t) (front ++ back) := by
  have hopen : s'.document.IsOpen b.slot :=
    (h.sound.waiting.slots _).1 (List.mem_map_of_mem (by simp))
  obtain ⟨hdocument, hmessages⟩ := bind_of_plain h.plain hopen t
  have hfront : s'.document.Sound (b :: ([] ++ (front ++ back))) :=
    h.sound.perm (perm_waiting [] front b back)
  have hnamed := h.sound.linked.named (means_of_findType? ht)
  refine ⟨hfront.bind Check.standard hnamed, ?_, hmessages.trans h.messages, ?_, ?_, ?_⟩
  · rw [hdocument]
    exact h.plain.fill hopen t
  · rw [hdocument, ← h.declarations]
    cases b.slot <;> rfl
  · rw [hdocument, ← h.typeNames]
    cases b.slot <;> rfl
  · intro x y hxy
    have hold := h.readAs x y hxy
    rw [hdocument]
    refine ⟨(viewAs_fill _ _ t y).trans hold.view, fun p hp => ?_⟩
    exact (hold.holds p hp).fill h.plain h.sound ht

theorem kept_settle (s : Session) (checks : List Check) (find : Binding → Option DataType)
    (pending : List Binding) :
    (s.settle checks (fun _ b => find b) pending).2 =
      pending.filter fun b => (find b).isNone := by
  induction pending generalizing s with
  | nil => rfl
  | cons b rest ih =>
    rw [settle, List.filter_cons]
    cases hb : find b with
    | some t => simpa using ih _
    | none => simpa using ih s

/-- The names that mean the registered type are bound, and the others are kept. -/
theorem settleRegistered_of_plain (hs : s.document.Sound ws) (hd : s.document.IsPlain)
    (hname : s.document.coreName t = name) (ht : s.document.leaf? name = some t)
    (hbare : ∀ b ∈ ws, b.name.path = [] ∧ b.package = none) :
    s.Binds ws (s.settleRegistered Check.standard t ws).1
        (s.settleRegistered Check.standard t ws).2 ∧
      (s.settleRegistered Check.standard t ws).2 =
        ws.filter fun b => b.name.last.text != name := by
  constructor
  · refine settle_invariant (fun s' front b back u h hb => binds_bind h ?_) s ws
      ⟨hs, hd, rfl, rfl, rfl, fun _ _ h => h⟩
    obtain ⟨haccepts, rfl⟩ := findRegistered_eq_some hb
    simp only [Binding.accepts, Bool.and_eq_true, beq_iff_eq] at haccepts
    rw [hd.leaf?_congr h.plain h.typeNames, haccepts.1, hname]
    exact ht
  · rw [settleRegistered, kept_settle]
    refine List.filter_congr fun b hb => ?_
    obtain ⟨hpath, hpackage⟩ := hbare b hb
    simp only [findRegistered, Binding.accepts, Binding.bindsEarly, hd.packageOf?_eq_none, hname,
      hpath, hpackage]
    by_cases h : b.name.last.text = name <;> simp [h, Package.same]

end Session

end Idl
