import BoundView.Proofs.Model.Reachable

/-!
# Values in normal form

A value that was stored has its members in the order in which its types declare them.  Main
statement: what an instantiation gives is in normal form, and a further one gives it back as it is.
-/

namespace BoundView.Schema

open Outcome (bind_eq_ok map_eq_ok)

variable {s : Schema} {id : TypeId} {v : Json}

/-! ## The order of members -/

/-- A value of whose objects none, where an object type says what it holds, has members that are not
declared or stand in another order than the fields. -/
def InOrder (s : Schema) (id : TypeId) (v : Json) : Prop :=
  ∀ path place ms type, s.typeAt id path = some place → v.get? path = some (.object ms) →
    s.kind place = .object type → (ms.map Prod.fst).Sublist (type.fields.map Prod.fst)

theorem InOrder.step? {child : TypeId} {value : Json} {seg : Seg} (h : s.InOrder id v)
    (htype : s.stepType id seg = some child) (hvalue : v.step? seg = some value) :
    s.InOrder child value := by
  intro path place ms type hplace hms hkind
  refine h (seg :: path) place ms type ?_ ?_ hkind
  · rw [typeAt, htype]
    exact hplace
  · rw [Json.get?, hvalue]
    exact hms

theorem inOrder_of_step? (htop : ∀ ms type, v = .object ms → s.kind id = .object type →
      (ms.map Prod.fst).Sublist (type.fields.map Prod.fst))
    (hstep : ∀ seg child value, s.stepType id seg = some child → v.step? seg = some value →
      s.InOrder child value) : s.InOrder id v := by
  intro path place ms type hplace hms hkind
  cases path with
  | nil =>
    obtain rfl := Option.some.inj hplace
    exact htop ms type (Option.some.inj hms) hkind
  | cons seg path =>
    obtain ⟨child, hchild, hplace⟩ := Option.bind_eq_some_iff.1 hplace
    obtain ⟨value, hvalue, hms⟩ := Option.bind_eq_some_iff.1 hms
    exact hstep seg child value hchild hvalue path place ms type hplace hms hkind

/-- A value without parts is in order. -/
theorem inOrder_of_leaf (hleaf : ∀ seg, v.step? seg = none) (hno : ∀ ms, v ≠ .object ms) :
    s.InOrder id v := by
  refine inOrder_of_step? (fun ms type hms => absurd hms (hno ms))
    fun seg child value _ hvalue => ?_
  cases (hleaf seg).symm.trans hvalue

theorem inOrder_null : s.InOrder id .null :=
  inOrder_of_leaf (fun seg => by cases seg <;> rfl) (by simp)

theorem inOrder_composes : s.Composes s.InOrder where
  any := by
    intro id declared hkind j
    refine inOrder_of_step? (fun ms type _ hobject => ?_) fun seg child value hchild => ?_
    · cases hkind.symm.trans hobject
    -- Nothing is said about what stands in a value of any kind.
    · cases seg with
      | field name =>
        obtain ⟨type, hobject, -⟩ := stepType_field hchild
        cases hkind.symm.trans hobject
      | index i => cases hkind.symm.trans (stepType_index hchild)
  string _ text := inOrder_of_leaf (fun seg => by cases seg <;> rfl) (by simp)
  boolean _ b := inOrder_of_leaf (fun seg => by cases seg <;> rfl) (by simp)
  number _ n _ := inOrder_of_leaf (fun seg => by cases seg <;> rfl) (by simp)
  array := by
    intro id items xs hkind hxs
    refine inOrder_of_step? (by simp) fun seg child value hchild hvalue => ?_
    cases seg with
    | field name => cases hvalue
    | index i =>
      obtain rfl := TypeKind.array.inj (hkind.symm.trans (stepType_index hchild))
      obtain ⟨value?, hfills, rfl⟩ := hxs value (List.mem_of_getElem? hvalue)
      cases value? with
      | none => exact inOrder_null
      | some value => exact hfills
  object := by
    intro id type ms hkind hsublist hfills
    refine inOrder_of_step? (fun ms' type' heq hobject => ?_)
      fun seg child value hchild hvalue => ?_
    · obtain rfl := TypeKind.object.inj (hkind.symm.trans hobject)
      obtain rfl := Json.object.inj heq
      exact hsublist
    · cases seg with
      | index i => cases hvalue
      | field name =>
        obtain ⟨type', hobject, hfind⟩ := stepType_field hchild
        obtain rfl := TypeKind.object.inj (hkind.symm.trans hobject)
        have hfill := hfills name child hfind
        rw [show Members.find? name ms = some value from hvalue] at hfill
        exact hfill

/-! ## What is in normal form already -/

/-- Fields that are filled with the members that are there give these members, if they are in
order. -/
theorem fillFields_of_slots {expand : Json → Check} {given : Members (Json × Check)} {path : Path}
    {fields : List (String × TypeId)} {ms : List (String × Json)}
    (hnodup : (fields.map Prod.fst).Nodup)
    (horder : (ms.map Prod.fst).Sublist (fields.map Prod.fst))
    (hslots : ∀ field ∈ fields, s.fillSlot expand (Members.find? field.1 given) field.2
      (path ++ [.field field.1]) = .ok (Members.find? field.1 ms)) :
    s.fillFields expand given path fields = .ok ms := by
  induction fields generalizing ms with
  | nil =>
    obtain rfl := List.map_eq_nil_iff.1 (List.sublist_nil.1 horder)
    rfl
  | cons field rest ih =>
    obtain ⟨name, id⟩ := field
    obtain ⟨hname, hrest⟩ := List.nodup_cons.1 hnodup
    have hslot := hslots (name, id) List.mem_cons_self
    rcases List.sublist_cons_iff.1 horder with htail | ⟨names, hnames, htail⟩
    -- The field is left out.
    · have hms := ih hrest htail fun other hother => hslots other (List.mem_cons_of_mem _ hother)
      have hnone : Members.find? name ms = none :=
        Members.find?_eq_none_iff.2 fun hmem => hname (htail.subset hmem)
      exact bind_eq_ok.2 ⟨none, hnone ▸ hslot, bind_eq_ok.2 ⟨ms, hms, rfl⟩⟩
    -- The field is the first of the members.
    · obtain ⟨⟨key, value⟩, tail, rfl, hkey, rfl⟩ := List.map_eq_cons_iff.1 hnames
      obtain rfl : key = name := hkey
      have hms := ih hrest htail fun other hother => by
        have hne : key ≠ other.1 := fun heq => hname (heq ▸ List.mem_map.2 ⟨other, hother, rfl⟩)
        have hother := hslots other (List.mem_cons_of_mem _ hother)
        rwa [Members.find?, if_neg hne] at hother
      have hsome : Members.find? key ((key, value) :: tail) = some value := if_pos rfl
      exact bind_eq_ok.2 ⟨some value, hsome ▸ hslot, bind_eq_ok.2 ⟨tail, hms, rfl⟩⟩

/-- A value that conforms and is in order comes back from the check as it is. -/
theorem Conforms.check_eq_self (hs : s.WellFormed) (h : s.Conforms id v) (horder : s.InOrder id v)
    (expand : Json → Check) (path : Path) : s.check expand v id path = .ok v := by
  induction h generalizing path with
  | any hkind j => exact check_of_any hkind j path
  | string hkind text => simp only [Schema.check, checkLeaf, hkind]
  | boolean hkind b => simp only [Schema.check, checkLeaf, hkind]
  | number hkind n hrules =>
    have hnone := List.find?_eq_none.2 fun rule hrule => Bool.eq_false_iff.1 (hrules rule hrule)
    simp only [Schema.check, checkLeaf, hkind, hnone]
  | @array id items xs hkind hitems hnulls ih =>
    have hcheck : ∀ x ∈ xs, x.isNull = false → ∀ path,
        ∃ out, s.check expand x items path = .ok out ∧ out = x := by
      intro x hx hnull path
      obtain ⟨i, hi⟩ := List.mem_iff_getElem?.1 hx
      have htype : s.stepType id (.index i) = some items := stepType_of_array hkind
      exact ⟨x, ih x hx hnull (horder.step? htype hi) path, rfl⟩
    obtain ⟨ys, hys, hsame⟩ := fillElements_of_conforms rfl hcheck hnulls path 0
    obtain rfl : ys = xs := List.forall₂_eq_eq_eq ▸ hsame
    rw [Schema.check]
    simp only [hkind]
    exact map_eq_ok.2 ⟨ys, hys, rfl⟩
  | @object id type ms hkind hnodup hdeclared hmembers habsent ih =>
    have hfields := hs.fields_nodup hkind
    -- Each field is filled with the member that is there, or left out with it.
    have hslots : ∀ field ∈ type.fields, s.fillSlot expand
        (Members.find? field.1 (s.checkMembers expand ms)) field.2 (path ++ [.field field.1])
          = .ok (Members.find? field.1 ms) := by
      intro field hfield
      have hfind := Members.find?_of_mem hfields hfield
      have htype : s.stepType id (.field field.1) = some field.2 := stepType_of_find? hkind hfind
      have hfits : s.Fits field.2 (Members.find? field.1 ms) :=
        ((Conforms.object_iff hkind).1 (.object hkind hnodup hdeclared hmembers habsent)).2.2
          field.1 field.2 hfind
      have hcheck : ∀ value, Members.find? field.1 ms = some value → ∃ out,
          s.check expand value field.2 (path ++ [.field field.1]) = .ok out ∧ out = value :=
        fun value hvalue =>
          ⟨value, ih field.1 field.2 value hfind hvalue (horder.step? htype hvalue) _, rfl⟩
      obtain ⟨out?, hout, hsame⟩ := fillSlot_of_fits rfl hfits hcheck
      rw [find?_checkMembers]
      rw [hout]
      generalize Members.find? field.1 ms = value? at hsame ⊢
      cases hsame with
      | some heq => rw [heq]
      | none => rfl
    rw [Schema.check]
    simp only [hkind]
    have hsublist := horder [] id ms type rfl rfl hkind
    exact map_eq_ok.2 ⟨ms, fillFields_of_slots hfields hsublist hslots, rfl⟩

/-! ## Main statement -/

/-- What an instantiation of any value gives, at any type of a compiled schema, has its members in
the order of the fields that are declared, and instantiating it once more, wherever it stands, gives
it back as it is. -/
theorem Compiled.instantiate_instantiate (h : s.Compiled) {at' : Path} {w : Json}
    (hw : s.instantiate id v at' = .ok w) :
    (∀ path, s.instantiate id w path = .ok w) ∧ s.InOrder id w := by
  have hs := h.wellFormed
  have horder : s.InOrder id w := instantiate_gives hs inOrder_composes v id at' w hw
  have hconforms := instantiate_conforms hs hw
  exact ⟨fun path => hconforms.check_eq_self hs horder _ path, horder⟩

end BoundView.Schema

namespace BoundView.Todo

/-- A member too much and a list too few. -/
theorem instantiate_instantiate_extra : schema.Compiled
    ∧ schema.instantiate 0 (.object [("owner", .null)]) [] = .ok (.object [("todos", .array [])])
    ∧ (∀ path, schema.instantiate 0 (.object [("todos", .array [])]) path
      = .ok (.object [("todos", .array [])]))
    ∧ schema.InOrder 0 (.object [("todos", .array [])]) := by
  have hw : schema.instantiate 0 (.object [("owner", .null)]) []
      = .ok (.object [("todos", .array [])]) := by
    rfl
  exact ⟨compiled, hw, Schema.Compiled.instantiate_instantiate compiled hw⟩

end BoundView.Todo
