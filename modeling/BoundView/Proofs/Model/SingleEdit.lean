import BoundView.Proofs.Model.Affected
import BoundView.Proofs.Model.Reachable

/-!
# The one edit of a patch

What an accepted patch does to a document is told here by looking at the document alone: which
member of which object, or which element of which array, is another one afterwards.  Main statement:
there is one such place, it is the one that the change names, and all else stays as it is.  Once the
place and the value of an edit are found valid, nothing can fail any more.
-/

namespace BoundView

/-! ## Members and elements before and after -/

/-- A member was written: in its place if its name was there, and else behind all others. -/
structure Members.Written {α : Type} (name : String) (value : α) (ms ms' : Members α) : Prop where
  value_eq : find? name ms' = some value
  others_eq : ∀ other, other ≠ name → find? other ms' = find? other ms
  keys_eq : keys ms' = if name ∈ keys ms then keys ms else keys ms ++ [name]

/-- A member was left out, if it was there. -/
structure Members.Removed {α : Type} (name : String) (ms ms' : Members α) : Prop where
  value_eq : find? name ms' = none
  others_eq : ∀ other, other ≠ name → find? other ms' = find? other ms
  keys_eq : keys ms' = (keys ms).erase name

namespace Members

variable {α : Type} {name : String} {ms : Members α}

theorem keys_set (value : α) :
    keys (set name value ms) = if name ∈ keys ms then keys ms else keys ms ++ [name] := by
  induction ms with
  | nil => rfl
  | cons pair rest ih =>
    rw [set]
    by_cases hk : pair.1 = name
    · rw [if_pos hk, if_pos (hk ▸ List.mem_cons_self)]
      rfl
    · have hmem : name ∈ keys (pair :: rest) ↔ name ∈ keys rest :=
        List.mem_cons.trans (or_iff_right (Ne.symm hk))
      rw [if_neg hk]
      show pair.1 :: keys (set name value rest) = _
      rw [ih]
      by_cases hrest : name ∈ keys rest
      · rw [if_pos hrest, if_pos (hmem.2 hrest)]
        rfl
      · rw [if_neg hrest, if_neg (mt hmem.1 hrest)]
        rfl

theorem written_set (value : α) : Written name value ms (set name value ms) where
  value_eq := find?_set_self name value ms
  others_eq _ hne := find?_set_of_ne value ms hne
  keys_eq := keys_set value

theorem removed_erase (hnodup : (ms.map Prod.fst).Nodup) : Removed name ms (erase name ms) where
  value_eq := find?_erase_self hnodup
  others_eq _ hne := find?_erase_of_ne ms hne
  keys_eq := keys_erase

end Members

namespace Json

/-- The element at a position is another one. -/
structure Replaced (i : Nat) (value : Json) (xs xs' : List Json) : Prop where
  lt_length : i < xs.length
  length_eq : xs'.length = xs.length
  value_eq : xs'[i]? = some value
  others_eq : ∀ j, j ≠ i → xs'[j]? = xs[j]?

/-- An element was put in, and those from its position on were moved behind it. -/
structure Inserted (i : Nat) (value : Json) (xs xs' : List Json) : Prop where
  le_length : i ≤ xs.length
  length_eq : xs'.length = xs.length + 1
  value_eq : xs'[i]? = some value
  before_eq : ∀ j, j < i → xs'[j]? = xs[j]?
  moved_eq : ∀ j, i ≤ j → xs'[j + 1]? = xs[j]?

/-- An element was taken out, and those behind it were moved up. -/
structure Deleted (i : Nat) (xs xs' : List Json) : Prop where
  lt_length : i < xs.length
  length_eq : xs'.length + 1 = xs.length
  before_eq : ∀ j, j < i → xs'[j]? = xs[j]?
  moved_eq : ∀ j, i < j → xs'[j - 1]? = xs[j]?

theorem replaced_set {i : Nat} {xs : List Json} (value : Json) (hi : i < xs.length) :
    Replaced i value xs (xs.set i value) where
  lt_length := hi
  length_eq := List.length_set
  value_eq := List.getElem?_set_self hi
  others_eq _ hne := List.getElem?_set_ne (Ne.symm hne)

theorem inserted_insertIdx {i : Nat} {xs : List Json} (value : Json) (hi : i ≤ xs.length) :
    Inserted i value xs (xs.insertIdx i value) where
  le_length := hi
  length_eq := List.length_insertIdx_of_le_length hi value
  value_eq := by rw [List.getElem?_insertIdx_self, if_pos hi]
  before_eq _ hj := List.getElem?_insertIdx_of_lt hj
  moved_eq j hj := by
    rw [List.getElem?_insertIdx_of_gt (show i < j + 1 by omega), Nat.add_sub_cancel]

theorem deleted_eraseIdx {i : Nat} {xs : List Json} (hi : i < xs.length) :
    Deleted i xs (xs.eraseIdx i) where
  lt_length := hi
  length_eq := List.length_eraseIdx_add_one hi
  before_eq _ hj := List.getElem?_eraseIdx_of_lt hj
  moved_eq j hj := by
    rw [List.getElem?_eraseIdx_of_ge (Nat.le_sub_one_of_lt hj), Nat.sub_add_cancel (by omega)]

/-! ## The node at a place -/

/-- What becomes of a document hangs on what becomes of the node at the path. -/
theorem modify?_congr {f g : Json → Option Json} {j node : Json} {path : Path}
    (hnode : j.get? path = some node) (hf : f node = g node) :
    j.modify? f path = j.modify? g path := by
  induction path generalizing j with
  | nil =>
    obtain rfl := Option.some.inj hnode
    exact hf
  | cons seg path ih =>
    obtain ⟨child, hstep, hnode⟩ := Option.bind_eq_some_iff.1 hnode
    simp only [modify?, hstep, Option.bind_eq_bind, Option.bind_some, ih hnode]

/-- To change a node is to put what it becomes in its place. -/
theorem replace?_of_modify? {f : Json → Option Json} {j j' node node' : Json} {path : Path}
    (hnode : j.get? path = some node) (hf : f node = some node')
    (h : j.modify? f path = some j') : j.replace? node' path = some j' := by
  rw [replace?, ← h]
  exact modify?_congr hnode hf.symm

theorem isSome_modify? {f : Json → Option Json} {j node : Json} {path : Path}
    (hnode : j.get? path = some node) (hf : (f node).isSome = true) :
    (j.modify? f path).isSome = true := by
  induction path generalizing j with
  | nil =>
    obtain rfl := Option.some.inj hnode
    exact hf
  | cons seg path ih =>
    obtain ⟨child, hstep, hnode⟩ := Option.bind_eq_some_iff.1 hnode
    obtain ⟨child', hchild⟩ := Option.isSome_iff_exists.1 (ih hnode)
    rw [modify?_cons_eq_some.2 ⟨child, child', hstep, hchild, rfl⟩]
    rfl

/-- To put a value below a container is to put another container in the place of the first. -/
theorem replace?_concat_eq_some {j j' value : Json} {path : Path} {seg : Seg}
    (h : j.replace? value (path ++ [seg]) = some j') :
    ∃ node old, j.get? path = some node ∧ node.step? seg = some old
      ∧ j.replace? (node.putStep seg value) path = some j' := by
  unfold replace? at h ⊢
  induction path generalizing j j' with
  | nil =>
    obtain ⟨old, value', hstep, hvalue, rfl⟩ := modify?_cons_eq_some.1 h
    obtain rfl := Option.some.inj hvalue
    exact ⟨j, old, rfl, hstep, rfl⟩
  | cons first path ih =>
    obtain ⟨child, child', hstep, hchild, rfl⟩ := modify?_cons_eq_some.1 h
    obtain ⟨node, old, hnode, hold, hreplace⟩ := ih hchild
    refine ⟨node, old, ?_, hold, modify?_cons_eq_some.2 ⟨child, child', hstep, hreplace, rfl⟩⟩
    rw [get?, hstep]
    exact hnode

end Json

/-! ## Edits of documents -/

namespace Model

variable (m : Model)

/-- What the slot at a place makes of the value that a patch gives. -/
def Normalises (patch : Patch) (place : Path) (value? : Option Json) : Prop :=
  ∃ id, m.schema.typeAt m.type place = some id
    ∧ m.schema.instantiateSlot id patch.given? place = .ok value?

/-- The one edit of a document that a change describes, and the document after it: the node at
`place` is the container of the edit, and no other node is put in. -/
inductive EditedBy (patch : Patch) (model : ModelId) : Change → Json → Prop where
  | whole {data : Json} (hvalue : m.Normalises patch [] (some data)) :
      EditedBy patch model ⟨model, [], none⟩ data
  | fieldSet {place : Path} {name : String} {ms ms' : Members Json} {value data : Json}
      (hnode : m.data.get? place = some (.object ms))
      (hvalue : m.Normalises patch (place ++ [.field name]) (some value))
      (hwritten : ms.Written name value ms')
      (hdata : m.data.replace? (.object ms') place = some data) :
      EditedBy patch model ⟨model, place ++ [.field name], none⟩ data
  | fieldRemoved {place : Path} {name : String} {ms ms' : Members Json} {data : Json}
      (hnode : m.data.get? place = some (.object ms))
      (hvalue : m.Normalises patch (place ++ [.field name]) none)
      (hremoved : ms.Removed name ms')
      (hdata : m.data.replace? (.object ms') place = some data) :
      EditedBy patch model ⟨model, place ++ [.field name], none⟩ data
  | elementReplaced {place : Path} {i : Nat} {xs xs' : List Json} {value? : Option Json}
      {data : Json} (hnode : m.data.get? place = some (.array xs)) (hop : patch.op ≠ .remove)
      (hvalue : m.Normalises patch (place ++ [.index i]) value?)
      (hreplaced : Json.Replaced i (value?.getD .null) xs xs')
      (hdata : m.data.replace? (.array xs') place = some data) :
      EditedBy patch model ⟨model, place ++ [.index i], none⟩ data
  | elementInserted {place : Path} {i : Nat} {xs xs' : List Json} {value? : Option Json}
      {data : Json} (hnode : m.data.get? place = some (.array xs)) (hop : patch.op = .add)
      (hvalue : m.Normalises patch (place ++ [.index i]) value?)
      (hinserted : Json.Inserted i (value?.getD .null) xs xs')
      (hdata : m.data.replace? (.array xs') place = some data) :
      EditedBy patch model ⟨model, place ++ [.index i], some (place, i)⟩ data
  | elementDeleted {place : Path} {i : Nat} {xs xs' : List Json} {data : Json}
      (hnode : m.data.get? place = some (.array xs)) (hop : patch.op = .remove)
      (hdeleted : Json.Deleted i xs xs') (hdata : m.data.replace? (.array xs') place = some data) :
      EditedBy patch model ⟨model, place ++ [.index i], some (place, i)⟩ data

variable {m} {patch : Patch} {model : ModelId} {c : Change} {data : Json}

theorem EditedBy.model_eq (h : m.EditedBy patch model c data) : c.model = model := by
  cases h <;> rfl

/-- What is moved are the elements from the edited one on. -/
theorem EditedBy.path_of_shifted (h : m.EditedBy patch model c data) {array : Path} {start : Nat}
    (hshifted : c.shifted = some (array, start)) : c.path = array ++ [.index start] := by
  cases h with
  | whole | fieldSet | fieldRemoved | elementReplaced => exact nomatch hshifted
  | elementInserted | elementDeleted =>
    obtain ⟨rfl, rfl⟩ := Prod.mk.inj (Option.some.inj hshifted)
    rfl

/-- Each node of a document is of the type of its place. -/
theorem conforms_of_get? {s : Schema} {id target : TypeId} {j node : Json} {path : Path}
    (h : j.isNull = false → s.Conforms id j) (htype : s.typeAt id path = some target)
    (hget : j.get? path = some node) (hnull : node.isNull = false) : s.Conforms target node := by
  induction path generalizing id j with
  | nil =>
    obtain rfl := Option.some.inj htype
    obtain rfl := Option.some.inj hget
    exact h hnull
  | cons seg path ih =>
    obtain ⟨child, hchild, htype⟩ := Option.bind_eq_some_iff.1 htype
    obtain ⟨value, hvalue, hget⟩ := Option.bind_eq_some_iff.1 hget
    exact ih (fun hne => (h (Json.isNull_of_step? hvalue)).step? hchild hvalue hne) htype hget

theorem normalises_of_instantiate {id : TypeId} {given value : Json} {place : Path}
    (htype : m.schema.typeAt m.type place = some id) (hop : patch.op ≠ .remove)
    (hgiven : patch.value? = some given) (hnull : given.isNull = false)
    (hvalue : m.schema.instantiate id given place = .ok value) :
    m.Normalises patch place (some value) := by
  refine ⟨id, htype, ?_⟩
  have hslot : m.schema.instantiateSlot id (some given) place
      = some <$> m.schema.instantiate id given place := by
    simp [Schema.instantiateSlot, Schema.fillSlot, hnull, Schema.instantiate]
  rw [Patch.given?, if_neg hop, hgiven, hslot, hvalue]
  rfl

/-- A value in the place of a whole node is a member or an element of the container around it. -/
theorem editedBy_of_replace? {place : Path} {value : Json}
    (hvalue : m.Normalises patch place (some value)) (hop : patch.op ≠ .remove)
    (hdata : m.data.replace? value place = some data) :
    m.EditedBy patch model ⟨model, place, none⟩ data := by
  rcases List.eq_nil_or_concat' place with rfl | ⟨place, seg, rfl⟩
  · obtain rfl := Option.some.inj hdata
    exact .whole hvalue
  obtain ⟨node, old, hnode, hold, hdata⟩ := Json.replace?_concat_eq_some hdata
  cases seg with
  | field name =>
    cases node with
    | object ms => exact .fieldSet hnode hvalue (Members.written_set value) hdata
    | null | bool | number | string | array => exact nomatch hold
  | index i =>
    cases node with
    | array xs =>
      have hi : i < xs.length := (List.getElem?_eq_some_iff.1 hold).1
      exact .elementReplaced hnode hop hvalue (Json.replaced_set value hi) hdata
    | null | bool | number | string | object => exact nomatch hold

end Model

namespace Schema

variable {s : Schema} {patch : Patch} {container : Path} {token : String} {id : TypeId}
  {node node' : Json} {seg : Seg} {edit : Edit}

/-- What is planned below a container can be made there. -/
theorem Edits.isSome_apply (h : s.Edits patch container token id node seg edit node') :
    (edit.apply seg node).isSome = true := by
  rw [h.apply_eq]
  rfl

theorem stepType_of_object {type : ObjectType} {field : TypeId}
    (hkind : s.kind id = .object type) (hfield : type.storedField token = .ok field) :
    s.stepType id (.field token) = some field :=
  stepType_of_find? hkind (ObjectType.storedField_eq_ok hfield)

end Schema

namespace ModelRef

variable {r : ModelRef} {m : Model} {patch : Patch} {c : Change} {data : Json}

theorem Accepts.editedBy (h : r.Accepts m patch c data)
    (hconforms : m.schema.Conforms m.type m.data) : m.EditedBy patch r.model c data := by
  cases h with
  | whole hsplit hop htype hgiven hnull hvalue hdata =>
    exact Model.editedBy_of_replace?
      (Model.normalises_of_instantiate htype hop hgiven hnull hvalue) hop hdata
  | @edit parents last start id container node node' data seg edit hsplit hstart hwalk hnode hedits
      hdata =>
    have htype := Schema.typeAt_of_walk hstart hwalk
    have hplaced := Json.replace?_of_modify? hnode hedits.apply_eq hdata
    -- The slot of the edit is one step below the container, and so is its type.
    have hslotType : ∀ {child}, m.schema.stepType id seg = some child →
        m.schema.typeAt m.type (container ++ [seg]) = some child := by
      intro child hchild
      rw [Schema.typeAt_append, htype, Option.bind_some, Schema.typeAt, hchild]
      rfl
    cases hedits with
    | setField hkind hfield hslot =>
      have hfieldType := hslotType (Schema.stepType_of_object hkind hfield)
      exact .fieldSet hnode ⟨_, hfieldType, hslot⟩ (Members.written_set _) hplaced
    | unsetField hkind hfield hslot =>
      have hfieldType := hslotType (Schema.stepType_of_object hkind hfield)
      have hnodup := ((Schema.Conforms.object_iff hkind).1
        (Model.conforms_of_get? (fun _ => hconforms) htype hnode rfl)).1
      exact .fieldRemoved hnode ⟨_, hfieldType, hslot⟩ (Members.removed_erase hnodup) hplaced
    | setElement hkind hop hpoints hbound hslot =>
      have hne : patch.op ≠ .remove := by simp [hop]
      have hitemType := hslotType (Schema.stepType_of_array hkind)
      rw [← show patch.given? = patch.value? from if_neg hne] at hslot
      exact .elementReplaced hnode hne ⟨_, hitemType, hslot⟩ (Json.replaced_set _ hbound) hplaced
    | insertElement hkind hop hpoints hbound hslot =>
      have hne : patch.op ≠ .remove := by simp [hop]
      have hitemType := hslotType (Schema.stepType_of_array hkind)
      rw [← show patch.given? = patch.value? from if_neg hne] at hslot
      exact .elementInserted hnode hop ⟨_, hitemType, hslot⟩ (Json.inserted_insertIdx _ hbound)
        hplaced
    | deleteElement hkind hop hpoints hbound =>
      exact .elementDeleted hnode hop (Json.deleted_eraseIdx hbound) hplaced

/-- A node that the change neither is at, nor above, nor below, and that it does not move, is the
same as before. -/
theorem Accepts.get?_eq_of_apart (h : r.Accepts m patch c data)
    (hedited : m.EditedBy patch r.model c data) {place : Path} (hbelow : ¬c.path <+: place)
    (habove : ¬place <+: c.path)
    (hmoved : ∀ array start i rest, c.shifted = some (array, start) →
      place = array ++ .index i :: rest → i < start) :
    data.get? place = m.data.get? place := by
  refine h.get?_eq_of_beside hbelow habove fun array start hshifted => ?_
  by_cases harray : array <+: place
  · obtain ⟨rest, rfl⟩ := harray
    cases rest with
    | nil =>
      -- The array itself is above the change.
      rw [List.append_nil, hedited.path_of_shifted hshifted] at habove
      exact absurd (List.prefix_append array _) habove
    | cons seg rest =>
      rw [Change.moves_append]
      cases seg with
      | field name => rfl
      | index i =>
        have hlt := hmoved array start i rest hshifted rfl
        simpa using hlt
  · have hprefix : array.isPrefixOf place = false :=
      Bool.eq_false_iff.2 (mt List.isPrefixOf_iff_prefix.1 harray)
    rw [Change.moves, hprefix, Bool.false_and]

theorem applyTo_of_plan {m' : Model} {parents : List String} {last : String} {plan : Plan}
    (hsplit : Pointer.split patch.path = some (parents ++ [last]))
    (hplan : m.plan r.path parents last patch = .ok plan) (hdone : m.carryOut plan = .ok m') :
    r.applyTo m patch = .ok (plan.change r.model, m') := by
  unfold applyTo
  cases htokens : parents ++ [last] with
  | nil => simp at htokens
  | cons token tokens =>
    rw [hsplit, htokens]
    have hparents : (token :: tokens).dropLast = parents := by simp [← htokens]
    have hlast : (token :: tokens).getLast (by simp) = last := by simp [← htokens]
    dsimp only
    rw [hparents, hlast, hplan]
    show (m.carryOut plan >>= fun m => .ok (plan.change r.model, m)) = _
    rw [hdone]
    rfl

theorem apply_of_applyTo {m' : Model} {models : Models} (hm : r.model? models = some m)
    (h : r.applyTo m patch = .ok (c, m')) :
    r.apply models patch = .ok (c, IdMap.insert r.model m' models) := by
  rw [apply, hm]
  show (r.applyTo m patch >>= fun p => .ok (p.1, IdMap.insert r.model p.2 models)) = _
  rw [h]
  rfl

/-- Once a plan is made, nothing can fail any more. -/
theorem apply_of_plan {models : Models} {parents : List String} {last : String} {plan : Plan}
    (hm : r.model? models = some m) (hsplit : Pointer.split patch.path = some (parents ++ [last]))
    (hplan : m.plan r.path parents last patch = .ok plan) :
    ∃ models', r.apply models patch = .ok (plan.change r.model, models') := by
  obtain ⟨start, hstart, hfound⟩ := Outcome.bind_eq_ok.1 hplan
  obtain ⟨⟨container, id⟩, hwalk, hfound⟩ := Outcome.bind_eq_ok.1 hfound
  obtain ⟨node, hnode, hfound⟩ := Outcome.bind_eq_ok.1 hfound
  obtain ⟨rfl, node', hedits⟩ := Schema.planWithin_eq_ok hfound
  obtain ⟨data, hdata⟩ := Option.isSome_iff_exists.1
    (Json.isSome_modify? (Model.plan_ofOption_eq_ok hnode) hedits.isSome_apply)
  have hdone : m.carryOut plan = .ok { m with data } := by
    rw [Model.carryOut, hdata]
  exact ⟨_, apply_of_applyTo hm (applyTo_of_plan hsplit hplan hdone)⟩

end ModelRef

/-! ## Main statement -/

namespace Live

/-- A patch whose place and value are found valid is applied.  One that is applied makes just the
edit that its change describes: at the path of the change a member is written or left out, or an
element replaced, put in or taken out, with the value that the slot there makes of the given one.
Whatever is not at this path, above it or below it, nor moved, is the same node as before, and so
is every other model. -/
theorem apply_edits {l : Live} (hl : l.Reachable) (r : ModelRef) (patch : Patch) :
    (∀ m parents last plan, r.model? l.models = some m →
      Pointer.split patch.path = some (parents ++ [last]) →
      m.plan r.path parents last patch = .ok plan →
      ∃ l', l.apply r patch = .ok (plan.change r.model, l'))
    ∧ ∀ c l', l.apply r patch = .ok (c, l') →
      ∃ m data, r.model? l.models = some m ∧ r.model? l'.models = some { m with data }
        ∧ (∀ id, id ≠ r.model → IdMap.find? id l'.models = IdMap.find? id l.models)
        ∧ m.EditedBy patch r.model c data
        ∧ ∀ place, ¬c.path <+: place → ¬place <+: c.path →
          (∀ array start i rest, c.shifted = some (array, start) →
            place = array ++ .index i :: rest → i < start) →
          data.get? place = m.data.get? place := by
  constructor
  · intro m parents last plan hm hsplit hplan
    obtain ⟨models', happly⟩ := ModelRef.apply_of_plan hm hsplit hplan
    exact ⟨⟨(l.observers.notify (plan.change r.model)).2, models'⟩, by rw [apply, happly]; rfl⟩
  · intro c l' h
    obtain ⟨happly, -⟩ := apply_eq_ok h
    obtain ⟨m, data, hm, haccepts, hmodels⟩ := ModelRef.apply_eq_ok happly
    have hconforms := (hl.valid r.model m hm).2.conforms
    have hedited := haccepts.editedBy hconforms
    refine ⟨m, data, hm, ?_, fun id hid => ?_, hedited, fun place => ?_⟩
    · rw [hmodels]
      exact IdMap.find?_insert_self _ _ _
    · rw [hmodels]
      exact IdMap.find?_insert_of_ne _ _ hid
    · exact haccepts.get?_eq_of_apart hedited

end Live

/-! ## A list of things to do -/

namespace Todo

/-- To add an item behind the last one puts in one element and leaves the others in their places. -/
theorem apply_edits_append : (live ["a", "b"]).Reachable
    ∧ ∃ m data, (ModelRef.root 1).model? (live ["a", "b"]).models = some m
      ∧ (ModelRef.root 1).model? (live ["a", "b", "c"]).models = some { m with data }
      ∧ m.EditedBy (append "c") 1
        ⟨1, [.field "todos", .index 2], some ([.field "todos"], 2)⟩ data
      ∧ data.get? [.field "todos", .index 1] = m.data.get? [.field "todos", .index 1] := by
  refine ⟨reachable_live, ?_⟩
  obtain ⟨-, happlied⟩ := Live.apply_edits reachable_live (.root 1) (append "c")
  obtain ⟨m, data, hm, hm', -, hedited, hframe⟩ := happlied _ _ live_apply_append
  refine ⟨m, data, hm, hm', hedited, hframe _ (by decide) (by decide) ?_⟩
  intro array start i rest hshifted hplace
  obtain ⟨rfl, rfl⟩ := Prod.mk.inj (Option.some.inj hshifted)
  simp at hplace
  omega

end Todo

end BoundView
