import Idl.Message
import Idl.Proofs.Document.Interning
import Idl.Proofs.Text.Substitute
import Mathlib.Data.List.Chain
import Mathlib.Data.List.Nodup

/-!
The text of a message. A template is made so that no hole lies across the seam of two of its
parts: putting in a value goes through the parts, and what stands at the place of a hole at the
end is the value of its parameter with the values of the parameters that were first set later
put into it. Where no value spells the hole of such a parameter, all values are put in at once,
as they were given.
-/

namespace Idl.Message

open Idl.Text

/-- The characters that stand between the words and the holes of a template. -/
def isSeam (c : Char) : Bool :=
  c == ' ' || c == ',' || c == '\''

/-- Words touch a hole with a character that no hole has. -/
def Part.meets : Part → Part → Bool
  | words a, hole _ => a.toList.getLast?.any isSeam
  | hole _, words b => b.toList.head?.any isSeam
  | _, _ => false

theorem Kind.seams (kind : Kind) : kind.template.IsChain fun a b => a.meets b := by
  cases kind <;> decide +kernel

theorem Kind.brace_notMem_words {kind : Kind} {words : String}
    (h : Part.words words ∈ kind.template) : '}' ∉ words.toList := by
  have hall : ∀ part ∈ kind.template, part ∈ Param.all.map Part.hole ∨ '}' ∉ part.text := by
    cases kind <;> decide +kernel
  rcases hall _ h with hhole | hwords
  · simp at hhole
  · exact hwords

namespace Param

variable {p q : Param}

@[simp]
theorem hole_ne_nil (p : Param) : p.hole ≠ [] := by
  simp [hole]

theorem brace_mem_hole (p : Param) : '}' ∈ p.hole := by
  simp [hole]

theorem notMem_hole {c : Char} (h : isSeam c) (p : Param) : c ∉ p.hole := by
  have hall : p.hole.all (!isSeam ·) := by cases p <;> decide
  intro hc
  have := List.all_eq_true.1 hall c hc
  simp [h] at this

theorem eq_of_hole_infix (h : q.hole <:+: p.hole) : q = p := by
  have hall : ∀ p ∈ all, ∀ q ∈ all, q.hole <:+: p.hole → q = p := by decide
  exact hall p (mem_all p) q (mem_all q) h

end Param

/-- The words of a template with a text at the place of each hole. -/
def Kind.fillWith (kind : Kind) (text : Param → List Char) : List Char :=
  kind.template.flatMap fun
    | .words words => words.toList
    | .hole p => text p

theorem templateText_eq (kind : Kind) : templateText kind = kind.fillWith Param.hole := by
  unfold templateText Kind.fillWith
  congr 1

section Fill

variable {value : List Char}

theorem substitute_words {words : String} (p : Param) (h : '}' ∉ words.toList) :
    substitute p.hole value words.toList = words.toList :=
  substitute_of_not_infix fun hin => h (hin.subset p.brace_mem_hole)

section Seams

variable {place : Part → List Char} (hwords : ∀ words, place (.words words) = words.toList)
  {parts : List Part} (h : parts.IsChain fun a b => a.meets b)

include hwords

theorem apart_of_meets {part next : Part} (h : part.meets next) (p : Param) (rest : List Char) :
    Apart p.hole (place part) (place next ++ rest) := by
  cases part with
  | words a =>
    cases next with
    | words _ => simp [Part.meets] at h
    | hole _ =>
      obtain ⟨c, hlast, hc⟩ : ∃ c, a.toList.getLast? = some c ∧ isSeam c := by
        simpa [Part.meets, Option.any_eq_true] using h
      exact ⟨c, p.notMem_hole hc, .inl (by rw [hwords, hlast])⟩
  | hole _ =>
    cases next with
    | hole _ => simp [Part.meets] at h
    | words b =>
      obtain ⟨c, hhead, hc⟩ : ∃ c, b.toList.head? = some c ∧ isSeam c := by
        simpa [Part.meets, Option.any_eq_true] using h
      exact ⟨c, p.notMem_hole hc, .inr (by rw [hwords, List.head?_append, hhead, Option.some_or])⟩

include h

/-- Substitution goes through parts that meet at their seams. -/
theorem substitute_flatMap (p : Param) : substitute p.hole value (parts.flatMap place) =
    parts.flatMap fun part => substitute p.hole value (place part) := by
  induction parts with
  | nil => rfl
  | cons part rest ih =>
    cases rest with
    | nil => simp
    | cons next rest =>
      rw [List.isChain_cons_cons] at h
      have hapart := apart_of_meets hwords h.1 p (rest.flatMap place)
      rw [List.flatMap_cons, List.flatMap_cons (x := part), ← ih h.2, List.flatMap_cons]
      exact hapart.substitute_append p.hole_ne_nil

theorem hole_infix_flatMap_iff (p : Param) :
    p.hole <:+: parts.flatMap place ↔ ∃ part ∈ parts, p.hole <:+: place part := by
  induction parts with
  | nil => simp
  | cons part rest ih =>
    cases rest with
    | nil => simp
    | cons next rest =>
      rw [List.isChain_cons_cons] at h
      have hapart := apart_of_meets hwords h.1 p (rest.flatMap place)
      rw [List.exists_mem_cons_iff, ← ih h.2, List.flatMap_cons, List.flatMap_cons]
      exact hapart.infix_append_iff p.hole_ne_nil

end Seams

/-- The text of a template has no hole but those of its parts. -/
theorem hole_infix_templateText_iff (kind : Kind) (p : Param) :
    p.hole <:+: templateText kind ↔ .hole p ∈ kind.template := by
  rw [templateText, hole_infix_flatMap_iff (fun _ => rfl) kind.seams]
  refine ⟨fun ⟨part, hpart, hin⟩ => ?_, fun h => ⟨_, h, List.infix_rfl⟩⟩
  cases part with
  | words words => exact absurd (hin.subset p.brace_mem_hole) (Kind.brace_notMem_words hpart)
  | hole q => rwa [Param.eq_of_hole_infix hin]

/-- Putting in a value goes through the places of a template. -/
theorem fill_fillWith (kind : Kind) (text : Param → List Char) (param : Param × String) :
    fill (kind.fillWith text) param = kind.fillWith fun p => fill (text p) param := by
  unfold fill Kind.fillWith
  rw [substitute_flatMap (fun _ => rfl) kind.seams]
  refine List.flatMap_congr fun part hpart => ?_
  cases part with
  | words words => exact substitute_words param.1 (Kind.brace_notMem_words hpart)
  | hole p => rfl

theorem foldl_fill_fillWith (kind : Kind) (text : Param → List Char)
    (params : List (Param × String)) :
    params.foldl fill (kind.fillWith text) =
      kind.fillWith fun p => params.foldl fill (text p) := by
  induction params generalizing text with
  | nil => rfl
  | cons param rest ih => rw [List.foldl_cons, fill_fillWith, ih]; rfl

end Fill

/-- What stands at the place of a hole at the end: the value of its parameter with the values
of the parameters behind it put in one after the other. -/
def valueAt (params : List (Param × String)) (p : Param) : List Char :=
  match params.dropWhile (·.1 != p) with
  | [] => p.hole
  | (_, value) :: later => later.foldl fill value.toList

theorem foldl_fill_hole (params : List (Param × String)) (p : Param) :
    params.foldl fill p.hole = valueAt params p := by
  induction params with
  | nil => rfl
  | cons param rest ih =>
    obtain ⟨q, value⟩ := param
    by_cases hq : q = p
    · subst hq
      simp [valueAt, fill, substitute_self]
    · have hfill : fill p.hole (q, value) = p.hole :=
        substitute_of_not_infix fun hin => hq (Param.eq_of_hole_infix hin)
      rw [List.foldl_cons, hfill, ih]
      simp [valueAt, hq]

/-- The text of a message, exactly: the parts of the template are filled on their own. -/
theorem text_eq (m : Message) : m.text = String.ofList (m.kind.fillWith (valueAt m.params)) := by
  rw [text, templateText_eq, foldl_fill_fillWith]
  congr 2
  funext p
  exact foldl_fill_hole m.params p

/-- All values at once, as they were given. -/
def verbatim (value? : Param → Option String) (p : Param) : List Char :=
  match value? p with
  | some value => value.toList
  | none => p.hole

theorem foldl_fill_of_not_infix {params : List (Param × String)} {text : List Char}
    (h : ∀ param ∈ params, ¬ param.1.hole <:+: text) : params.foldl fill text = text := by
  induction params with
  | nil => rfl
  | cons param rest ih =>
    rw [List.forall_mem_cons] at h
    rw [List.foldl_cons, fill, substitute_of_not_infix h.1, ih h.2]

theorem Kind.fillWith_congr {kind : Kind} {a b : Param → List Char}
    (h : ∀ p, .hole p ∈ kind.template → a p = b p) : kind.fillWith a = kind.fillWith b := by
  refine List.flatMap_congr fun part hpart => ?_
  cases part with
  | words _ => rfl
  | hole p => exact h p hpart

/-- No value at a place of the template spells the hole of a parameter that was first set
later. -/
def Settled (kind : Kind) (params : List (Param × String)) : Prop :=
  params.Pairwise fun a b => .hole a.1 ∈ kind.template → ¬ b.1.hole <:+: a.2.toList

instance (kind : Kind) (params : List (Param × String)) : Decidable (Settled kind params) := by
  unfold Settled
  infer_instance

theorem Settled.valueAt_eq {kind : Kind} {params : List (Param × String)}
    (h : Settled kind params) {p : Param} (hp : .hole p ∈ kind.template) :
    valueAt params p = verbatim (fun p => params.lookup p) p := by
  induction params with
  | nil => rfl
  | cons param rest ih =>
    obtain ⟨q, value⟩ := param
    obtain ⟨hlater, hrest⟩ := List.pairwise_cons.1 h
    by_cases hq : q = p
    · subst hq
      have := foldl_fill_of_not_infix fun b hb => hlater b hb hp
      simpa [valueAt, verbatim] using this
    · have hne : (p == q) = false := by simpa using Ne.symm hq
      simpa [valueAt, verbatim, hq, List.lookup_cons, hne] using ih hrest

section Calls

/-- The last value given for a parameter. -/
def lastValue? (calls : List (Param × String)) (p : Param) : Option String :=
  calls.reverse.lookup p

theorem lookup_cons_eq_ite (key : Param) (value : String) (params : List (Param × String))
    (p : Param) :
    ((key, value) :: params).lookup p = if p = key then some value else params.lookup p := by
  by_cases h : p = key
  · simp [h]
  · have hne : (p == key) = false := by simpa using h
    rw [List.lookup_cons, hne, if_neg h]

theorem any_key_iff (params : List (Param × String)) (key : Param) :
    params.any (·.1 == key) = true ↔ (params.lookup key).isSome := by
  rw [List.lookup_isSome_iff, List.any_eq_true]
  simp only [beq_iff_eq, eq_comm (a := key)]

/-- A message is open where its template spells a hole whose parameter was not set. -/
theorem hasOpenHole_iff (m : Message) : m.hasOpenHole = true ↔
    ∃ p : Param, p.hole <:+: templateText m.kind ∧ m.param? p = none := by
  have hunset (p : Param) : (!m.params.any (·.1 == p)) = true ↔ m.param? p = none := by
    rw [Bool.not_eq_true', ← Bool.not_eq_true, any_key_iff, Option.not_isSome_iff_eq_none, param?]
  simp only [hasOpenHole, List.any_eq_true, hole_infix_templateText_iff]
  constructor
  · rintro ⟨part, hpart, hopen⟩
    cases part with
    | words _ => cases hopen
    | hole p => exact ⟨p, hpart, (hunset p).1 hopen⟩
  · rintro ⟨p, hpart, hopen⟩
    exact ⟨.hole p, hpart, (hunset p).2 hopen⟩

theorem lookup_map_set (params : List (Param × String)) (key : Param) (value : String)
    (p : Param) :
    (params.map fun entry => if entry.1 == key then (key, value) else entry).lookup p =
      if p = key then (params.lookup p).map fun _ => value else params.lookup p := by
  induction params with
  | nil => simp
  | cons entry rest ih =>
    obtain ⟨q, v⟩ := entry
    rw [List.map_cons]
    by_cases hq : q = key
    · subst hq
      simp only [BEq.rfl, if_true, lookup_cons_eq_ite, ih]
      split <;> simp
    · rw [if_neg (by simpa using hq), lookup_cons_eq_ite, lookup_cons_eq_ite, ih]
      by_cases hp : p = q
      · simp [hp, hq]
      · simp only [hp, if_false]

theorem lookup_setParam (params : List (Param × String)) (key : Param) (value : String)
    (p : Param) :
    (setParam params key value).lookup p = if p = key then some value else params.lookup p := by
  unfold setParam
  split
  case isTrue hset =>
    rw [lookup_map_set]
    refine ite_congr rfl (fun hp => ?_) fun _ => rfl
    obtain ⟨old, hold⟩ := Option.isSome_iff_exists.1 ((any_key_iff params key).1 hset)
    rw [hp, hold, Option.map_some]
  case isFalse hset =>
    rw [List.lookup_append, lookup_cons_eq_ite]
    split
    case isTrue hp =>
      have hnone : params.lookup key = none := by
        rwa [any_key_iff, Bool.not_eq_true, Option.isSome_eq_false_iff, Option.isNone_iff_eq_none]
          at hset
      rw [hp, hnone, Option.none_or]
    case isFalse hp => simp

theorem nodup_setParam {params : List (Param × String)} (h : (params.map (·.1)).Nodup)
    (key : Param) (value : String) : ((setParam params key value).map (·.1)).Nodup := by
  unfold setParam
  split
  case isTrue =>
    have hkeys : (params.map fun entry => if entry.1 == key then (key, value) else entry).map
        (·.1) = params.map (·.1) := by
      rw [List.map_map]
      refine List.map_congr_left fun entry _ => ?_
      by_cases he : entry.1 = key <;> simp [he]
    rwa [hkeys]
  case isFalse hset =>
    rw [List.map_append, List.map_singleton]
    refine List.Nodup.append h (List.nodup_singleton key) ?_
    rw [List.disjoint_singleton]
    intro hmem
    obtain ⟨entry, hin, hkey⟩ := List.mem_map.1 hmem
    exact hset (List.any_eq_true.2 ⟨entry, hin, by simp [hkey]⟩)

variable (kind : Kind) (location : Location) (calls : List (Param × String))

theorem param?_of (p : Param) : (of kind location calls).param? p = lastValue? calls p := by
  unfold param? of lastValue?
  induction calls using List.reverseRecOn with
  | nil => rfl
  | append_singleton calls call ih =>
    obtain ⟨key, value⟩ := call
    rw [List.foldl_append, List.reverse_append]
    simp only [List.foldl_cons, List.foldl_nil, lookup_setParam, ih, List.reverse_cons,
      List.reverse_nil, List.nil_append, List.singleton_append, lookup_cons_eq_ite]

theorem nodup_params_of : ((of kind location calls).params.map (·.1)).Nodup := by
  unfold of
  induction calls using List.reverseRecOn with
  | nil => exact List.nodup_nil
  | append_singleton calls call ih =>
    rw [List.foldl_append]
    exact nodup_setParam ih call.1 call.2

/-- No value at a place of the template spells the hole of another parameter that is set. -/
def Independent (kind : Kind) (value? : Param → Option String) : Prop :=
  ∀ p ∈ Param.all, .hole p ∈ kind.template → ∀ value ∈ value? p,
    ∀ q ∈ Param.all, q ≠ p → (value? q).isSome → ¬ q.hole <:+: value.toList

instance (kind : Kind) (value? : Param → Option String) : Decidable (Independent kind value?) := by
  unfold Independent
  infer_instance

variable {kind calls}

theorem Independent.settled (h : Independent kind (lastValue? calls)) :
    Settled kind (of kind location calls).params := by
  have hnodup := nodup_params_of kind location calls
  have hlast {entry} (hmem : entry ∈ (of kind location calls).params) :
      lastValue? calls entry.1 = some entry.2 := by
    rw [← param?_of kind location]
    exact lookup_eq_some_of_mem hnodup hmem
  have hkeys : (of kind location calls).params.Pairwise fun a b => a.1 ≠ b.1 :=
    List.pairwise_map.1 hnodup
  refine hkeys.imp_of_mem fun {a b} ha hb hne hplace => ?_
  exact h a.1 a.1.mem_all hplace a.2 (hlast ha) b.1 b.1.mem_all hne.symm (by simp [hlast hb])

/-- The text of a message that was made with any calls. The parts of the template are filled
on their own: at the place of a hole stands the last value given for it, with the values that
were first set later put in. It is the value as it was given where it spells none of their
holes, and where no value spells a hole at all the order of the calls does not matter. -/
theorem texts_are_substitutions (kind : Kind) (location : Location)
    (calls : List (Param × String)) :
    (of kind location calls).text =
        String.ofList (kind.fillWith (valueAt (of kind location calls).params)) ∧
      (Settled kind (of kind location calls).params →
        (of kind location calls).text =
          String.ofList (kind.fillWith (verbatim (lastValue? calls)))) ∧
      (Independent kind (lastValue? calls) →
        ∀ others, (∀ p, lastValue? others p = lastValue? calls p) →
          (of kind location others).text = (of kind location calls).text) := by
  have hsettled (calls : List (Param × String)) (h : Settled kind (of kind location calls).params) :
      (of kind location calls).text =
        String.ofList (kind.fillWith (verbatim (lastValue? calls))) := by
    rw [text_eq]
    refine congrArg String.ofList (Kind.fillWith_congr fun p hp => ?_)
    rw [h.valueAt_eq hp]
    exact congrArg (verbatim · p) (funext fun q => param?_of kind location calls q)
  refine ⟨text_eq _, hsettled calls, fun h others heq => ?_⟩
  have hsame : lastValue? others = lastValue? calls := funext heq
  rw [hsettled calls (h.settled location), hsettled others ((hsame ▸ h).settled location), hsame]

theorem texts_are_substitutions_reset :
    Settled .importDepthExceeded
        (of .importDepthExceeded {}
          [(.source, "{depth}"), (.depth, "64"), (.source, "a{token}")]).params ∧
      Independent .importDepthExceeded
        (lastValue? [(.source, "{depth}"), (.depth, "64"), (.source, "a{token}")]) ∧
      (of .importDepthExceeded {}
          [(.source, "{depth}"), (.depth, "64"), (.source, "a{token}")]).text =
        String.ofList (Kind.importDepthExceeded.fillWith (verbatim
          (lastValue? [(.source, "{depth}"), (.depth, "64"), (.source, "a{token}")]))) ∧
      (of .importDepthExceeded {} [(.depth, "64"), (.source, "a{token}")]).text =
        (of .importDepthExceeded {}
          [(.source, "{depth}"), (.depth, "64"), (.source, "a{token}")]).text := by
  have hsettled : Settled .importDepthExceeded (of .importDepthExceeded {}
      [(.source, "{depth}"), (.depth, "64"), (.source, "a{token}")]).params := by decide
  have hindependent : Independent .importDepthExceeded
      (lastValue? [(.source, "{depth}"), (.depth, "64"), (.source, "a{token}")]) := by decide
  obtain ⟨-, hat, hany⟩ := texts_are_substitutions .importDepthExceeded {}
    [(.source, "{depth}"), (.depth, "64"), (.source, "a{token}")]
  refine ⟨hsettled, hindependent, hat hsettled, hany hindependent _ fun p => ?_⟩
  cases p <;> rfl

theorem value_is_searched_again :
    (of .importDepthExceeded {} [(.source, "{depth}"), (.depth, "64")]).text =
        "import of '64' exceeds the depth limit of 64" ∧
      String.ofList (Kind.importDepthExceeded.fillWith
          (verbatim (lastValue? [(.source, "{depth}"), (.depth, "64")]))) =
        "import of '{depth}' exceeds the depth limit of 64" ∧
      (of .importDepthExceeded {} [(.depth, "64"), (.source, "{depth}")]).text =
        "import of '{depth}' exceeds the depth limit of 64" := by
  decide

end Calls

end Idl.Message
