import BoundView.Proofs.Schema.Places
import Mathlib.Data.List.Induction

/-!
# What a schema makes of a spec

Main statement: each type of a schema is drawn from one node of the spec, the one at the place that
its pointer spells, and each node has a type.  Parts and targets of references are told by their
pointers too, so nothing here hangs on how types are numbered.
-/

namespace BoundView.Schema

open Outcome (bind_eq_ok)
open PropertySpec (storedNames)

variable {ρ : Type} {types : List (TypeDescriptor ρ)} {names : String → ρ → Prop}

/-- Whether the type with this number is there and has the pointer. -/
def PointsTo (types : List (TypeDescriptor ρ)) (id : TypeId) (pointer : String) : Prop :=
  ∃ type, types[id]? = some type ∧ type.pointer = pointer

/-- The kind of the type of a node of this kind; `names` tells what a reference names. -/
inductive Lays (types : List (TypeDescriptor ρ)) (names : String → ρ → Prop) (pointer : String) :
    SpecKind → TypeKind ρ → Prop where
  | string : Lays types names pointer .string .string
  | number (min max : Option Float) :
      Lays types names pointer (.number min max) (.number (rulesOf min max))
  | boolean : Lays types names pointer .boolean .boolean
  | array {items : PropertySpec} {child : TypeId}
      (h : PointsTo types child (itemsPointer pointer)) :
      Lays types names pointer (.array items) (.array child)
  | object {properties : List (String × PropertySpec)} {type : ObjectType}
      (h : List.Forall₂ (fun name field =>
        field.1 = name ∧ PointsTo types field.2 (fieldPointer pointer name))
        (storedNames properties) type.fields) :
      Lays types names pointer (.object properties) (.object type)
  | ref {target : String} {r : ρ} (h : names target r) :
      Lays types names pointer (.ref target) (.ref r)
  | computed (expression : String) :
      Lays types names pointer (.computed expression) (.any "computed")
  | unknown (kind : String) : Lays types names pointer (.unknown kind) (.any kind)

/-- Whether a type is drawn from a node of a spec that stands below a pointer. -/
def Draws (types : List (TypeDescriptor ρ)) (names : String → ρ → Prop) (pointer : String)
    (spec : PropertySpec) (type : TypeDescriptor ρ) : Prop :=
  ∃ place x, spec.node? place = some x ∧ type.pointer = SpecPlace.pointerFrom pointer place
    ∧ type.presence = presenceOf x ∧ Lays types names type.pointer x.kind type.kind

/-- All types of the list are drawn from a spec, the first one from its root. -/
structure Drawn (types : List (TypeDescriptor ρ)) (names : String → ρ → Prop)
    (spec : PropertySpec) : Prop where
  root : PointsTo types 0 "#"
  draws : ∀ type ∈ types, Draws types names "#" spec type

/-! ## Layout -/

/-- Whether types stand in a longer list, from a number on. -/
def Embeds (all types : List (TypeDescriptor ρ)) (next : Nat) : Prop :=
  ∀ i type, types[i]? = some type → all[next + i]? = some type

theorem Embeds.tail {all rest : List (TypeDescriptor ρ)} {first : TypeDescriptor ρ} {next : Nat}
    (h : Embeds all (first :: rest) next) : Embeds all rest (next + 1) := by
  intro i type hi
  have hnext := h (i + 1) type hi
  rwa [Nat.add_comm i 1, ← Nat.add_assoc] at hnext

theorem Embeds.left {all first rest : List (TypeDescriptor ρ)} {next : Nat}
    (h : Embeds all (first ++ rest) next) : Embeds all first next := by
  intro i type hi
  have hlt := (List.getElem?_eq_some_iff.1 hi).1
  exact h i type (by rw [List.getElem?_append_left hlt, hi])

theorem Embeds.right {all first rest : List (TypeDescriptor ρ)} {next : Nat}
    (h : Embeds all (first ++ rest) next) : Embeds all rest (next + first.length) := by
  intro i type hi
  have hnext := h (first.length + i) type
    (by rw [List.getElem?_append_right (Nat.le_add_right _ _), Nat.add_sub_cancel_left, hi])
  rwa [← Nat.add_assoc] at hnext

theorem Draws.below {pointer : String} {spec child : PropertySpec} {step : SpecStep}
    {type : TypeDescriptor ρ} (hchild : spec.child? step = some child)
    (h : Draws types names (SpecPlace.extend pointer step) child type) :
    Draws types names pointer spec type := by
  obtain ⟨place, x, hx, hpointer, hrest⟩ := h
  refine ⟨step :: place, x, ?_, hpointer, hrest⟩
  rw [PropertySpec.node?, hchild]
  exact hx

theorem pointsTo_layOut {all : List (TypeDescriptor String)} {pointer : String} {next : Nat}
    {spec : PropertySpec} (h : Embeds all (layOut pointer next spec).types next) :
    PointsTo all next pointer := by
  obtain ⟨type, rest, htypes, hpointer⟩ : ∃ type rest,
      (layOut pointer next spec).types = type :: rest ∧ type.pointer = pointer := by
    obtain ⟨optional, default, kind⟩ := spec
    cases kind <;> rw [layOut] <;> exact ⟨_, _, rfl, rfl⟩
  rw [htypes] at h
  exact ⟨type, h 0 type rfl, hpointer⟩

mutual

theorem layOut_draws (all : List (TypeDescriptor String)) (pointer : String) (next : Nat) :
    ∀ spec : PropertySpec, spec.Distinct → Embeds all (layOut pointer next spec).types next →
      ∀ type ∈ (layOut pointer next spec).types, Draws all Eq pointer spec type
  | .mk optional default kind, hspec, hembeds => by
    have hroot : ∀ {type}, type.pointer = pointer →
        type.presence = presenceOf (.mk optional default kind) →
        Lays all Eq pointer kind type.kind →
        Draws all Eq pointer (.mk optional default kind) type :=
      fun hpointer hpresence hkind =>
        ⟨[], .mk optional default kind, rfl, hpointer, hpresence, hpointer ▸ hkind⟩
    cases kind with
    | array items =>
      rw [layOut] at hembeds ⊢
      have hitems := Embeds.tail hembeds
      intro type htype
      rcases List.mem_cons.1 htype with rfl | htype
      · exact hroot rfl rfl (.array (pointsTo_layOut hitems))
      · have hdraws := layOut_draws all (itemsPointer pointer) (next + 1) items hspec hitems
        have hchild :
            (PropertySpec.mk optional default (.array items)).child? .items = some items := rfl
        exact Draws.below hchild (hdraws type htype)
    | object properties =>
      rw [layOut] at hembeds ⊢
      obtain ⟨hfields, hdraws⟩ := layOutFields_draws all pointer (next + 1) properties hspec.2
        (Embeds.tail hembeds)
      intro type htype
      rcases List.mem_cons.1 htype with rfl | htype
      · exact hroot rfl rfl (.object hfields)
      · obtain ⟨name, child, hmem, hstored, hdraws⟩ := hdraws type htype
        have hchild : (PropertySpec.mk optional default (.object properties)).child?
            (.property name) = some child := by
          rw [PropertySpec.child?, Members.find?_of_mem hspec.1 hmem]
          simp [hstored]
        exact Draws.below hchild hdraws
    | string | number | boolean | ref | computed | unknown =>
      rw [layOut]
      intro type htype
      obtain rfl := List.mem_singleton.1 htype
      refine hroot rfl rfl ?_
      first
        | exact .string | exact .number _ _ | exact .boolean | exact .ref rfl | exact .computed _
        | exact .unknown _

theorem layOutFields_draws (all : List (TypeDescriptor String)) (pointer : String) (next : Nat) :
    ∀ properties : List (String × PropertySpec), PropertySpec.DistinctAll properties →
      Embeds all (layOutFields pointer next properties).2.types next →
      List.Forall₂ (fun name field =>
          field.1 = name ∧ PointsTo all field.2 (fieldPointer pointer name))
        (storedNames properties) (layOutFields pointer next properties).1.fields
      ∧ ∀ type ∈ (layOutFields pointer next properties).2.types, ∃ name child,
        (name, child) ∈ properties ∧ child.isComputed = false
          ∧ Draws all Eq (fieldPointer pointer name) child type
  | [], _, _ => by
    rw [layOutFields]
    exact ⟨.nil, fun type htype => absurd htype List.not_mem_nil⟩
  | (name, .mk optional default kind) :: rest, hspec, hembeds => by
    by_cases hcomputed : ∃ expression, kind = .computed expression
    · obtain ⟨expression, rfl⟩ := hcomputed
      rw [layOutFields] at hembeds ⊢
      obtain ⟨hfields, hdraws⟩ := layOutFields_draws all pointer next rest hspec.2 hembeds
      refine ⟨hfields, fun type htype => ?_⟩
      obtain ⟨other, child, hmem, hchild⟩ := hdraws type htype
      exact ⟨other, child, List.mem_cons_of_mem _ hmem, hchild⟩
    · have hstored : (PropertySpec.mk optional default kind).isComputed = false := by
        cases kind with
        | computed expression => exact absurd ⟨expression, rfl⟩ hcomputed
        | string | number | boolean | array | object | ref | unknown => rfl
      rw [layOutFields] at hembeds ⊢
      · have hfirst := layOut_draws all (fieldPointer pointer name) next _ hspec.1
          (Embeds.left hembeds)
        obtain ⟨hfields, hdraws⟩ := layOutFields_draws all pointer _ rest hspec.2
          (Embeds.right hembeds)
        have hhead := pointsTo_layOut (Embeds.left hembeds)
        refine ⟨?_, fun type htype => ?_⟩
        · rw [storedNames, List.filter_cons, hstored]
          exact .cons ⟨rfl, hhead⟩ hfields
        · rcases List.mem_append.1 htype with htype | htype
          · exact ⟨name, _, List.mem_cons_self, hstored, hfirst type htype⟩
          · obtain ⟨other, child, hmem, hchild⟩ := hdraws type htype
            exact ⟨other, child, List.mem_cons_of_mem _ hmem, hchild⟩
      all_goals exact fun expression heq => hcomputed ⟨expression, heq⟩

end

theorem layOut_drawn {spec : PropertySpec} (hspec : spec.Distinct) :
    Drawn (layOut "#" 0 spec).types Eq spec := by
  have hembeds : Embeds (layOut "#" 0 spec).types (layOut "#" 0 spec).types 0 := by
    intro i type hi
    rwa [Nat.zero_add]
  exact ⟨pointsTo_layOut hembeds, layOut_draws _ "#" 0 spec hspec hembeds⟩

/-! ## Linking -/

/-- The types that a target names. -/
def Named (types : List (TypeDescriptor ρ)) (target : String) (id : TypeId) : Prop :=
  PointsTo types id (normalizeTarget target)

/-- A list of types after linking. -/
def Linked (d : Draft) (s : Schema) : Prop :=
  List.Forall₂ (fun type type' => d.linkType type = .ok type') d.types s.types

theorem linkType_eq {d : Draft} {type : TypeDescriptor String} {type' : TypeDescriptor TypeId}
    (h : d.linkType type = .ok type') : type'.pointer = type.pointer
      ∧ type'.presence = type.presence ∧ d.linkKind type.pointer type.kind = .ok type'.kind := by
  obtain ⟨kind, hkind, h⟩ := bind_eq_ok.1 h
  obtain rfl := Except.ok.inj h
  exact ⟨rfl, rfl, hkind⟩

theorem Linked.pointsTo {d : Draft} {s : Schema} (h : Linked d s) {id : TypeId} {pointer : String}
    (hid : PointsTo d.types id pointer) : PointsTo s.types id pointer := by
  obtain ⟨type, htype, rfl⟩ := hid
  obtain ⟨hlt, rfl⟩ := List.getElem?_eq_some_iff.1 htype
  have hlt' : id < s.types.length := h.length_eq ▸ hlt
  exact ⟨_, List.getElem?_eq_getElem hlt', (linkType_eq (h.get hlt hlt')).1⟩

theorem pointsTo_of_idOf? {d : Draft} {id : TypeId} {pointer : String}
    (h : d.idOf? pointer = some id) : PointsTo d.types id pointer := by
  obtain ⟨hlt, hpointer, -⟩ := List.findIdx?_eq_some_iff_getElem.1 h
  exact ⟨_, List.getElem?_eq_getElem hlt, beq_iff_eq.1 hpointer⟩

theorem exists_idOf? {d : Draft} {id : TypeId} {pointer : String}
    (h : PointsTo d.types id pointer) : ∃ id, d.idOf? pointer = some id := by
  obtain ⟨type, htype, hpointer⟩ := h
  refine Option.isSome_iff_exists.1 ?_
  rw [Draft.idOf?, List.findIdx?_isSome, List.any_eq_true]
  exact ⟨type, List.mem_of_getElem? htype, beq_iff_eq.2 hpointer⟩

theorem Linked.lays {d : Draft} {s : Schema} (h : Linked d s) {pointer pointer' : String}
    {k : SpecKind} {kind : TypeKind String} {kind' : TypeKind TypeId}
    (hkind : Lays d.types Eq pointer k kind) (hlink : d.linkKind pointer' kind = .ok kind') :
    Lays s.types (Named s.types) pointer k kind' := by
  cases hkind with
  | string => exact Except.ok.inj hlink ▸ .string
  | number => exact Except.ok.inj hlink ▸ .number _ _
  | boolean => exact Except.ok.inj hlink ▸ .boolean
  | computed => exact Except.ok.inj hlink ▸ .computed _
  | unknown => exact Except.ok.inj hlink ▸ .unknown _
  | array hitems => exact Except.ok.inj hlink ▸ .array (h.pointsTo hitems)
  | object hfields =>
    refine Except.ok.inj hlink ▸ .object (hfields.imp fun name field hfield => ?_)
    exact ⟨hfield.1, h.pointsTo hfield.2⟩
  | @ref target _ heq =>
    subst heq
    rw [Draft.linkKind] at hlink
    split at hlink
    · rename_i id hid
      exact Except.ok.inj hlink ▸ .ref (h.pointsTo (pointsTo_of_idOf? hid))
    · split at hlink <;> exact nomatch hlink

/-- A linked schema is drawn from the same spec. -/
theorem link_drawn {d : Draft} {s : Schema} {spec : PropertySpec} (hd : Drawn d.types Eq spec)
    (hlink : d.link = .ok s) : s.root = 0 ∧ Drawn s.types (Named s.types) spec := by
  obtain ⟨types, htypes, h⟩ := bind_eq_ok.1 hlink
  obtain rfl := Except.ok.inj h
  have hlinked : Linked d ⟨types, 0⟩ := Outcome.mapM_eq_ok htypes
  refine ⟨rfl, hlinked.pointsTo hd.root, fun type' htype' => ?_⟩
  obtain ⟨i, hi', rfl⟩ := List.getElem_of_mem htype'
  have hi : i < d.types.length := hlinked.length_eq.symm ▸ hi'
  obtain ⟨hpointer, hpresence, hkind⟩ := linkType_eq (hlinked.get hi hi')
  obtain ⟨place, x, hx, hplace, hsame, hlays⟩ := hd.draws _ (List.getElem_mem hi)
  refine ⟨place, x, hx, ?_, ?_, ?_⟩
  · exact hpointer.trans hplace
  · exact hpresence.trans hsame
  · rw [show types[i].pointer = d.types[i].pointer from hpointer]
    exact hlinked.lays hlays hkind

/-- Linking fails only for a target that names nothing. -/
theorem exists_link {d : Draft} (h : ∀ type ∈ d.types, ∀ target, type.kind = .ref target →
    ∃ id, Named d.types target id) : ∃ s, d.link = .ok s := by
  have hkind : ∀ type ∈ d.types, ∃ type', d.linkType type = .ok type' := by
    intro type htype
    suffices hlinked : ∃ kind, d.linkKind type.pointer type.kind = .ok kind by
      obtain ⟨kind, hlinked⟩ := hlinked
      exact ⟨_, bind_eq_ok.2 ⟨kind, hlinked, rfl⟩⟩
    cases hkind : type.kind with
    | ref target =>
      obtain ⟨id, hid⟩ := h type htype target hkind
      obtain ⟨id', hid'⟩ := exists_idOf? hid
      refine ⟨.ref id', ?_⟩
      simp only [Draft.linkKind, hid']
    | string | number | boolean | array | object | any => exact ⟨_, rfl⟩
  obtain ⟨types, htypes⟩ := Outcome.exists_mapM_eq_ok hkind
  exact ⟨⟨types, 0⟩, bind_eq_ok.2 ⟨types, htypes, rfl⟩⟩

/-! ## Nodes and types -/

namespace Drawn

variable {spec x : PropertySpec} {place : SpecPlace} {id : TypeId} {pointer : String}

/-- Every pointer to a type spells the place of a node. -/
theorem exists_place (h : Drawn types names spec) (hid : PointsTo types id pointer) :
    ∃ place x, spec.node? place = some x ∧ place.pointer = pointer := by
  obtain ⟨type, htype, rfl⟩ := hid
  obtain ⟨place, x, hx, hpointer, -⟩ := h.draws type (List.mem_of_getElem? htype)
  exact ⟨place, x, hx, hpointer.symm⟩

/-- The type with the pointer of a place is drawn from the node there. -/
theorem type_of_place (h : Drawn types names spec) (hid : PointsTo types id place.pointer)
    (hx : spec.node? place = some x) : ∃ type, types[id]? = some type
      ∧ type.presence = presenceOf x ∧ Lays types names place.pointer x.kind type.kind := by
  obtain ⟨type, htype, hpointer⟩ := hid
  obtain ⟨place', x', hx', hpointer', hpresence, hkind⟩ :=
    h.draws type (List.mem_of_getElem? htype)
  obtain rfl : place = place' := SpecPlace.pointer_injective (hpointer.symm.trans hpointer')
  obtain rfl : x = x' := Option.some.inj (hx.symm.trans hx')
  exact ⟨type, htype, hpresence, hpointer ▸ hkind⟩

/-- Every node has a type. -/
theorem exists_id (h : Drawn types names spec) (hx : spec.node? place = some x) :
    ∃ id, PointsTo types id place.pointer := by
  induction place using List.reverseRecOn generalizing x with
  | nil => exact ⟨0, h.root⟩
  | append_singleton place step ih =>
    rw [PropertySpec.node?_append] at hx
    obtain ⟨parent, hparent, hx⟩ := Option.bind_eq_some_iff.1 hx
    obtain ⟨child, hchild, -⟩ := Option.bind_eq_some_iff.1 hx
    obtain ⟨id, hid⟩ := ih hparent
    obtain ⟨type, -, -, hkind⟩ := h.type_of_place hid hparent
    rw [SpecPlace.pointer_concat]
    obtain ⟨optional, default, k⟩ := parent
    change Lays types names (SpecPlace.pointer place) k type.kind at hkind
    generalize type.kind = kind at hkind
    cases step with
    | items =>
      cases hkind with
      | array hitems => exact ⟨_, hitems⟩
      | _ => exact nomatch hchild
    | property name =>
      cases hkind with
      | @object properties _ hfields =>
        obtain ⟨hfind, hstored⟩ := PropertySpec.child?_property_eq_some hchild
        have hname : name ∈ storedNames properties :=
          List.mem_map.2 ⟨_, List.mem_filter.2 ⟨Members.mem_of_find? hfind, by simp [hstored]⟩, rfl⟩
        obtain ⟨i, hi, rfl⟩ := List.getElem_of_mem hname
        have hi' := hfields.length_eq ▸ hi
        exact ⟨_, (hfields.get hi hi').2⟩
      | _ => exact nomatch hchild

end Drawn

/-! ## Types of a schema -/

variable {s : Schema} {id : TypeId} {pointer : String} {spec x : PropertySpec} {p : SpecPlace}

theorem descriptor_eq {type : TypeDescriptor TypeId} (h : s.types[id]? = some type) :
    s.descriptor id = type := by
  rw [descriptor, List.getD_eq_getElem?_getD, h]
  rfl

theorem PointsTo.lt_size (h : PointsTo s.types id pointer) : id < s.size := by
  obtain ⟨type, htype, -⟩ := h
  exact (List.getElem?_eq_some_iff.1 htype).1

/-- What the type of a node is drawn from. -/
theorem Drawn.lays (h : Drawn s.types (Named s.types) spec)
    (hid : PointsTo s.types id p.pointer) (hx : spec.node? p = some x) :
    Lays s.types (Named s.types) p.pointer x.kind (s.descriptor id).kind := by
  obtain ⟨type, htype, -, hkind⟩ := h.type_of_place hid hx
  rwa [descriptor_eq htype]

/-- The targets of references are nodes. -/
theorem exists_target (h : Drawn s.types (Named s.types) spec) {target : String}
    (hx : spec.node? p = some x) (hkind : x.kind = .ref target) :
    ∃ place named, spec.node? place = some named ∧ place.pointer = normalizeTarget target := by
  obtain ⟨id, hid⟩ := h.exists_id hx
  have hlays := h.lays hid hx
  rw [hkind] at hlays
  generalize (s.descriptor id).kind = kind at hlays
  cases hlays with
  | ref hnamed => exact h.exists_place hnamed

end BoundView.Schema
