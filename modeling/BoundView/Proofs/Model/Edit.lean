import BoundView.Model.Patch
import BoundView.Proofs.Json.Path
import BoundView.Proofs.Outcome

/-!
# What an accepted patch does

A patch that is accepted either replaces the node at its reference or makes one edit at one step
below a container.  `Schema.Edits` lists the edits that a type allows, with the value that is stored
and the container after the edit, and `ModelRef.Accepts` puts them at their places.  Whatever holds
of all accepted patches is proved by cases on these two.
-/

namespace BoundView

open Outcome (bind_eq_ok mapError_eq_ok)

/-- The value that a patch gives to a field; one that removes gives none. -/
def Patch.given? (patch : Patch) : Option Json :=
  if patch.op = .remove then none else patch.value?

/-- Whether a token stands for the position `i` of an array of `length` elements. -/
def Patch.Points (patch : Patch) (token : String) (length i : Nat) : Prop :=
  if patch.op = .add ∧ token = "-" then i = length else arrayIndex? token = some i

theorem ObjectType.storedField_eq_ok {type : ObjectType} {name : String} {field : TypeId}
    (h : type.storedField name = .ok field) : Members.find? name type.fields = some field := by
  unfold storedField at h
  split at h
  · exact nomatch h
  split at h
  · rename_i field' hfind
    rw [hfind, Except.ok.inj h]
  · exact nomatch h

namespace Schema

variable (s : Schema)

/-- The edits of a container of a type that a patch may ask for: the step, the edit there, and the
container after it. -/
inductive Edits (patch : Patch) (container : Path) (token : String) (id : TypeId) :
    Json → Seg → Edit → Json → Prop where
  | setField {type : ObjectType} {field : TypeId} {ms : List (String × Json)} {value : Json}
      (hkind : s.kind id = .object type) (hfield : type.storedField token = .ok field)
      (hslot : s.instantiateSlot field patch.given? (container ++ [.field token])
        = .ok (some value)) :
      Edits patch container token id (.object ms) (.field token) (.set value)
        (.object (Members.set token value ms))
  | unsetField {type : ObjectType} {field : TypeId} {ms : List (String × Json)}
      (hkind : s.kind id = .object type) (hfield : type.storedField token = .ok field)
      (hslot : s.instantiateSlot field patch.given? (container ++ [.field token]) = .ok none) :
      Edits patch container token id (.object ms) (.field token) .unset
        (.object (Members.erase token ms))
  | setElement {items : TypeId} {xs : List Json} {i : Nat} {value? : Option Json}
      (hkind : s.kind id = .array items) (hop : patch.op = .replace)
      (hpoints : patch.Points token xs.length i) (hbound : i < xs.length)
      (hslot : s.instantiateSlot items patch.value? (container ++ [.index i]) = .ok value?) :
      Edits patch container token id (.array xs) (.index i) (.set (value?.getD .null))
        (.array (xs.set i (value?.getD .null)))
  | insertElement {items : TypeId} {xs : List Json} {i : Nat} {value? : Option Json}
      (hkind : s.kind id = .array items) (hop : patch.op = .add)
      (hpoints : patch.Points token xs.length i) (hbound : i ≤ xs.length)
      (hslot : s.instantiateSlot items patch.value? (container ++ [.index i]) = .ok value?) :
      Edits patch container token id (.array xs) (.index i) (.insert (value?.getD .null))
        (.array (xs.insertIdx i (value?.getD .null)))
  | deleteElement {items : TypeId} {xs : List Json} {i : Nat}
      (hkind : s.kind id = .array items) (hop : patch.op = .remove)
      (hpoints : patch.Points token xs.length i) (hbound : i < xs.length) :
      Edits patch container token id (.array xs) (.index i) .delete (.array (xs.eraseIdx i))

variable {s}

theorem Edits.apply_eq {patch : Patch} {container : Path} {token : String} {id : TypeId}
    {node node' : Json} {seg : Seg} {edit : Edit}
    (h : s.Edits patch container token id node seg edit node') :
    edit.apply seg node = some node' := by
  cases h <;> rfl

theorem planField_eq_ok {type : ObjectType} {container : Path} {token : String} {patch : Patch}
    {id : TypeId} {plan : Plan} (ms : List (String × Json)) (hkind : s.kind id = .object type)
    (h : s.planField type container token patch = .ok plan) :
    plan.container = container
      ∧ ∃ node', s.Edits patch container token id (.object ms) plan.seg plan.edit node' := by
  obtain ⟨field, hfield, h⟩ := bind_eq_ok.1 h
  obtain ⟨value?, hslot, h⟩ := bind_eq_ok.1 h
  replace hslot : s.instantiateSlot field patch.given? (container ++ [.field token]) = .ok value? :=
    mapError_eq_ok.1 hslot
  obtain rfl := Except.ok.inj h
  cases value? with
  | none => exact ⟨rfl, _, .unsetField hkind hfield hslot⟩
  | some value => exact ⟨rfl, _, .setField hkind hfield hslot⟩

/-- The plan of an edit of an array: the position, its bound, and then the element. -/
theorem planElement_eq (items : TypeId) (length : Nat) (container : Path) (token : String)
    (patch : Patch) :
    s.planElement items length container token patch = (
      (if patch.op = .add ∧ token = "-" then .ok length else arrayIndex token) >>= fun i =>
      if (if patch.op = .add then length + 1 else length) ≤ i then .error (.invalidIndex token)
      else if patch.op = .remove then .ok ⟨container, .index i, .delete⟩
      else do
        let value? ← s.checkSlot items patch.value? (container ++ [.index i])
        .ok ⟨container, .index i,
          if patch.op = .add then .insert (value?.getD .null) else .set (value?.getD .null)⟩) := by
  -- Both sides branch on the operation and on the token for the end alone.
  unfold planElement
  obtain ⟨op, path, value⟩ := patch
  cases op <;> by_cases ht : token = "-" <;> simp [ht] <;>
    exact congrArg _ (funext fun i => by split <;> rfl)

theorem points_of_arrayIndex {patch : Patch} {token : String} {length i : Nat}
    (h : (if patch.op = .add ∧ token = "-" then .ok length else arrayIndex token) = .ok i) :
    patch.Points token length i := by
  unfold Patch.Points
  split
  · rename_i hadd
    rw [if_pos hadd] at h
    exact (Except.ok.inj h).symm
  · rename_i hadd
    rw [if_neg hadd, arrayIndex] at h
    split at h
    · rename_i j hindex
      rw [hindex, Except.ok.inj h]
    · exact nomatch h

theorem planElement_eq_ok {items : TypeId} {xs : List Json} {container : Path} {token : String}
    {patch : Patch} {id : TypeId} {plan : Plan} (hkind : s.kind id = .array items)
    (h : s.planElement items xs.length container token patch = .ok plan) :
    plan.container = container
      ∧ ∃ node', s.Edits patch container token id (.array xs) plan.seg plan.edit node' := by
  rw [planElement_eq] at h
  obtain ⟨i, hindex, h⟩ := bind_eq_ok.1 h
  have hpoints := points_of_arrayIndex hindex
  -- The operation tells which bound was checked and which edit is planned.
  cases hop : patch.op with
  | add =>
    simp only [hop, if_true, reduceCtorEq, if_false] at h
    split at h
    · exact nomatch h
    rename_i hbound
    obtain ⟨value?, hslot, h⟩ := bind_eq_ok.1 h
    obtain rfl := Except.ok.inj h
    exact ⟨rfl, _, .insertElement hkind hop hpoints (by omega) (mapError_eq_ok.1 hslot)⟩
  | replace =>
    simp only [hop, reduceCtorEq, if_false] at h
    split at h
    · exact nomatch h
    rename_i hbound
    obtain ⟨value?, hslot, h⟩ := bind_eq_ok.1 h
    obtain rfl := Except.ok.inj h
    exact ⟨rfl, _, .setElement hkind hop hpoints (by omega) (mapError_eq_ok.1 hslot)⟩
  | remove =>
    simp only [hop, if_true, reduceCtorEq, if_false] at h
    split at h
    · exact nomatch h
    rename_i hbound
    obtain rfl := Except.ok.inj h
    exact ⟨rfl, _, .deleteElement hkind hop hpoints (by omega)⟩

theorem planWithin_eq_ok {id : TypeId} {node : Json} {container : Path} {token : String}
    {patch : Patch} {plan : Plan} (h : s.planWithin id node container token patch = .ok plan) :
    plan.container = container
      ∧ ∃ node', s.Edits patch container token id node plan.seg plan.edit node' := by
  unfold planWithin at h
  split at h
  · rename_i ms type hkind
    exact planField_eq_ok ms hkind h
  · rename_i xs items hkind
    exact planElement_eq_ok hkind h
  · exact nomatch h

/-! ## The place of an edit -/

theorem stepToken_eq_ok {id child : TypeId} {place : Path} {token : String} {seg : Seg}
    (h : s.stepToken id place token = .ok (seg, child)) : s.stepType id seg = some child := by
  unfold stepToken at h
  split at h
  · rename_i type hkind
    obtain ⟨field, hfield, h⟩ := bind_eq_ok.1 h
    obtain ⟨rfl, rfl⟩ := Prod.mk.inj (Except.ok.inj h)
    simp [stepType, object?, hkind, TypeKind.object?, ObjectType.storedField_eq_ok hfield]
  · rename_i items hkind
    obtain ⟨i, -, h⟩ := bind_eq_ok.1 h
    obtain ⟨rfl, rfl⟩ := Prod.mk.inj (Except.ok.inj h)
    simp [stepType, hkind]
  · exact nomatch h

theorem typeAt_append (id : TypeId) (p q : Path) :
    s.typeAt id (p ++ q) = (s.typeAt id p).bind fun child => s.typeAt child q := by
  induction p generalizing id with
  | nil => rfl
  | cons seg p ih =>
    simp only [List.cons_append, typeAt, Option.bind_assoc]
    exact congrArg _ (funext ih)

theorem typeAt_of_walk {root id container : TypeId} {place path : Path} {tokens : List String}
    (hplace : s.typeAt root place = some id) (h : s.walk id place tokens = .ok (path, container)) :
    s.typeAt root path = some container := by
  induction tokens generalizing id place with
  | nil =>
    obtain ⟨rfl, rfl⟩ := Prod.mk.inj (Except.ok.inj h)
    exact hplace
  | cons token tokens ih =>
    obtain ⟨⟨seg, child⟩, hstep, h⟩ := bind_eq_ok.1 h
    refine ih ?_ h
    rw [typeAt_append, hplace, Option.bind_some, typeAt, stepToken_eq_ok hstep]
    rfl

end Schema

/-! ## Accepted patches -/

/-- What an accepted patch through a reference does to a model: the change that it reports, and the
document of the model after it. -/
inductive ModelRef.Accepts (r : ModelRef) (m : Model) (patch : Patch) : Change → Json → Prop where
  | whole {id : TypeId} {given value data : Json}
      (hsplit : Pointer.split patch.path = some []) (hop : patch.op ≠ .remove)
      (htype : m.schema.typeAt m.type r.path = some id)
      (hgiven : patch.value? = some given) (hnull : given.isNull = false)
      (hvalue : m.schema.instantiate id given r.path = .ok value)
      (hdata : m.data.replace? value r.path = some data) :
      Accepts r m patch ⟨r.model, r.path, none⟩ data
  | edit {parents : List String} {last : String} {start id : TypeId} {container : Path}
      {node node' data : Json} {seg : Seg} {edit : Edit}
      (hsplit : Pointer.split patch.path = some (parents ++ [last]))
      (hstart : m.schema.typeAt m.type r.path = some start)
      (hwalk : m.schema.walk start r.path parents = .ok (container, id))
      (hnode : m.data.get? container = some node)
      (hedits : m.schema.Edits patch container last id node seg edit node')
      (hdata : m.data.modify? (edit.apply seg) container = some data) :
      Accepts r m patch (Plan.change ⟨container, seg, edit⟩ r.model) data

theorem Model.replaceWhole_eq_ok {m m' : Model} {place : Path} {patch : Patch}
    (h : m.replaceWhole place patch = .ok m') :
    patch.op ≠ .remove ∧ ∃ id given value data, m.schema.typeAt m.type place = some id
      ∧ patch.value? = some given ∧ given.isNull = false
      ∧ m.schema.instantiate id given place = .ok value
      ∧ m.data.replace? value place = some data ∧ m' = { m with data } := by
  unfold replaceWhole at h
  dsimp only at h
  split at h
  · exact nomatch h
  rename_i hop
  refine ⟨hop, ?_⟩
  split at h
  · exact nomatch h
  rename_i id htype
  split at h
  · exact nomatch h
  rename_i given hgiven
  split at h
  · exact nomatch h
  rename_i hnull
  obtain ⟨value, hvalue, h⟩ := bind_eq_ok.1 h
  split at h
  · rename_i data hdata
    exact ⟨id, given, value, data, htype, hgiven, by simpa using hnull, mapError_eq_ok.1 hvalue,
      hdata, (Except.ok.inj h).symm⟩
  · exact nomatch h

theorem Model.plan_ofOption_eq_ok {α : Type} {a? : Option α} {e : PatchError} {a : α}
    (h : Model.plan.ofOption a? e = .ok a) : a? = some a := by
  unfold Model.plan.ofOption at h
  split at h
  · exact congrArg some (Except.ok.inj h)
  · exact nomatch h

theorem ModelRef.applyTo_eq_ok {r : ModelRef} {m m' : Model} {patch : Patch} {c : Change}
    (h : r.applyTo m patch = .ok (c, m')) :
    ∃ data, m' = { m with data } ∧ r.Accepts m patch c data := by
  unfold applyTo at h
  split at h
  · exact nomatch h
  · rename_i hsplit
    obtain ⟨m', hwhole, h⟩ := bind_eq_ok.1 h
    obtain ⟨rfl, rfl⟩ := Prod.mk.inj (Except.ok.inj h)
    obtain ⟨hop, id, given, value, data, htype, hgiven, hnull, hvalue, hdata, rfl⟩ :=
      Model.replaceWhole_eq_ok hwhole
    exact ⟨data, rfl, .whole hsplit hop htype hgiven hnull hvalue hdata⟩
  · rename_i token tokens hsplit
    -- The last token is the step below the container that the others lead to.
    obtain ⟨plan, hplan, h⟩ := bind_eq_ok.1 h
    obtain ⟨m', hdone, h⟩ := bind_eq_ok.1 h
    obtain ⟨rfl, rfl⟩ := Prod.mk.inj (Except.ok.inj h)
    obtain ⟨start, hstart, hplan⟩ := bind_eq_ok.1 hplan
    obtain ⟨⟨container, id⟩, hwalk, hplan⟩ := bind_eq_ok.1 hplan
    obtain ⟨node, hnode, hplan⟩ := bind_eq_ok.1 hplan
    obtain ⟨rfl, node', hedits⟩ := Schema.planWithin_eq_ok hplan
    unfold Model.carryOut at hdone
    split at hdone
    · rename_i data hdata
      refine ⟨data, (Except.ok.inj hdone).symm, .edit ?_ (Model.plan_ofOption_eq_ok hstart) hwalk
        (Model.plan_ofOption_eq_ok hnode) hedits hdata⟩
      rw [hsplit, List.dropLast_concat_getLast]
    · exact nomatch hdone

/-- An accepted patch changes the document of one model and nothing else. -/
theorem ModelRef.apply_eq_ok {r : ModelRef} {models models' : Models} {patch : Patch} {c : Change}
    (h : r.apply models patch = .ok (c, models')) :
    ∃ m data, r.model? models = some m ∧ r.Accepts m patch c data
      ∧ models' = IdMap.insert r.model { m with data } models := by
  unfold apply at h
  split at h
  · exact nomatch h
  · rename_i m hm
    obtain ⟨⟨c', m'⟩, happly, h⟩ := bind_eq_ok.1 h
    obtain ⟨rfl, rfl⟩ := Prod.mk.inj (Except.ok.inj h)
    obtain ⟨data, rfl, haccepts⟩ := applyTo_eq_ok happly
    exact ⟨m, data, hm, haccepts, rfl⟩

/-! ## A list of things to do -/

namespace Todo

/-- An object with a list of objects that have titles. -/
def schema : Schema where
  types := [
    ⟨"#", .optional, .object ⟨[("todos", 1)], []⟩⟩,
    ⟨"#/properties/todos", .defaulted (.array []), .array 2⟩,
    ⟨"#/properties/todos/items", .optional, .object ⟨[("title", 3)], []⟩⟩,
    ⟨"#/properties/todos/items/properties/title", .optional, .string⟩]
  root := 0

def item (title : String) : Json :=
  .object [("title", .string title)]

def document (titles : List String) : Json :=
  .object [("todos", .array (titles.map item))]

def models (titles : List String) : Models :=
  [(1, ⟨schema, 0, document titles⟩)]

/-- To add an item behind the last one. -/
def append (title : String) : Patch :=
  ⟨.add, "/todos/-", some (item title)⟩

theorem apply_append : (ModelRef.root 1).apply (models ["a", "b"]) (append "c")
    = .ok (⟨1, [.field "todos", .index 2], some ([.field "todos"], 2)⟩,
        models ["a", "b", "c"]) := by
  cbv

end Todo

end BoundView
