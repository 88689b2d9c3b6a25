import BoundView.Schema.Describe
import BoundView.Proofs.Schema.Circles
import BoundView.Proofs.Schema.Unfolding

/-!
# Descriptions as trees

The types of a schema may refer to one another in circles, but what a description says of a type is
a finite tree: its nodes are types, the children of a node are what the parts of the type lead to,
and a branch is cut where a type comes back that is above it on the branch.  Main statement: there
is just one such tree for each type of a compiled schema, no branch of it is longer than the schema
has types, and the description of the type is that tree written out.
-/

namespace BoundView

/-- What a description goes through: a type with what it says of its parts, or the mark of a type
that is being described further up. -/
inductive Summary where
  | mark (type : TypeId)
  | node (type : TypeId) (parts : List Summary)

namespace Summary

def type : Summary → TypeId
  | .mark type => type
  | .node type _ => type

def isMark : Summary → Bool
  | .mark _ => true
  | .node _ _ => false

/-- Whether the second summary stands in the first one, inside those of the types listed, of which
the innermost comes first. -/
inductive At : Summary → List TypeId → Summary → Prop where
  | here (t : Summary) : At t [] t
  | inside {type : TypeId} {parts : List Summary} {part inner : Summary} {around : List TypeId}
      (hpart : part ∈ parts) (h : At part around inner) :
      At (.node type parts) (around ++ [type]) inner

end Summary

namespace Schema

/-! ## Trees written out -/

/-- The text of a type, given the texts of its parts. -/
def nodeText (s : Schema) (type : TypeId) (parts : List String) : String :=
  match (s.descriptor type).kind with
  | .string => "string"
  | .boolean => "boolean"
  | .any _ => "any"
  | .ref _ => "any"
  | .number rules => numberText rules
  | .array items => elementsText (s.presence items).isOptional (parts.headD "")
  | .object object =>
    let fields := List.zipWith (fun (name, field) part => fieldText name (s.presence field) part)
      object.fields parts
    objectText (fields ++ object.computed.map fun (name, expression) =>
      computedText name expression)

mutual

def write (s : Schema) : Summary → String
  | .mark type => "@" ++ s.pointer type
  | .node type parts => s.nodeText type (writeAll s parts)

def writeAll (s : Schema) : List Summary → List String
  | [] => []
  | part :: rest => write s part :: writeAll s rest

end

variable {s : Schema} {id type : TypeId} {above fresh : List TypeId} {t t' : Summary}

/-- The types that a type mentions, references aside. -/
def partsOf (s : Schema) (type : TypeId) : List TypeId :=
  (s.descriptor type).kind.parts

theorem describeFresh_eq (s : Schema) (fresh : List TypeId) (id : TypeId) :
    s.describeFresh fresh id =
      if s.resolve id ∈ fresh then
        s.nodeText (s.resolve id)
          ((s.partsOf (s.resolve id)).map (s.describeFresh (fresh.erase (s.resolve id))))
      else "@" ++ s.pointer (s.resolve id) := by
  rw [describeFresh]
  split
  · unfold nodeText partsOf
    cases (s.descriptor (s.resolve id)).kind with
    | object object =>
      have hfields : ∀ describe : TypeId → String,
          List.zipWith (fun (field : String × TypeId) part =>
            fieldText field.1 (s.presence field.2) part) object.fields
            ((object.fields.map Prod.snd).map describe)
          = object.fields.map fun field =>
            fieldText field.1 (s.presence field.2) (describe field.2) := by
        intro describe
        rw [List.map_map, List.zipWith_map_right, List.zipWith_self]
        rfl
      dsimp only [TypeKind.parts]
      rw [hfields]
    | string | number | boolean | array | ref | any => rfl
  · rfl

/-! ## Trees of a schema -/

mutual

/-- How a tree comes about: a type that is above becomes a mark, and any other one a node over what
its parts become below it. -/
inductive Told (s : Schema) : List TypeId → TypeId → Summary → Prop where
  | mark {above : List TypeId} {id : TypeId} (h : s.resolve id ∈ above) :
      Told s above id (.mark (s.resolve id))
  | node {above : List TypeId} {id : TypeId} {parts : List Summary} (h : s.resolve id ∉ above)
      (hparts : ToldAll s (s.resolve id :: above) (s.partsOf (s.resolve id)) parts) :
      Told s above id (.node (s.resolve id) parts)

inductive ToldAll (s : Schema) : List TypeId → List TypeId → List Summary → Prop where
  | nil {above : List TypeId} : ToldAll s above [] []
  | cons {above ids : List TypeId} {id : TypeId} {part : Summary} {parts : List Summary}
      (h : Told s above id part) (hrest : ToldAll s above ids parts) :
      ToldAll s above (id :: ids) (part :: parts)

end

theorem Told.type_eq (h : s.Told above id t) : t.type = s.resolve id := by
  cases h with
  | mark => rfl
  | node => rfl

theorem Told.isMark_iff (h : s.Told above id t) : t.isMark = true ↔ t.type ∈ above := by
  cases h with
  | mark h => exact iff_of_true rfl h
  | node h => exact iff_of_false Bool.false_ne_true h

theorem ToldAll.exists_of_mem {ids : List TypeId} {parts : List Summary} {part : Summary}
    (h : s.ToldAll above ids parts) (hpart : part ∈ parts) : ∃ id ∈ ids, s.Told above id part := by
  induction ids generalizing parts with
  | nil =>
    cases h
    exact absurd hpart List.not_mem_nil
  | cons id ids ih =>
    cases h with
    | cons h hrest =>
      rcases List.mem_cons.1 hpart with rfl | hpart
      · exact ⟨id, List.mem_cons_self, h⟩
      · obtain ⟨id', hid', h⟩ := ih hrest hpart
        exact ⟨id', List.mem_cons_of_mem id hid', h⟩

/-- What stands in a tree is a tree itself, below more types. -/
theorem Told.at {around : List TypeId} {inner : Summary} (h : s.Told above id t)
    (hat : t.At around inner) : ∃ id, s.Told (around ++ above) id inner := by
  induction hat generalizing above id with
  | here t => exact ⟨id, h⟩
  | @inside type parts part inner around hpart _ ih =>
    cases h with
    | node hfresh hparts =>
      obtain ⟨id', -, hid'⟩ := hparts.exists_of_mem hpart
      obtain ⟨id'', hid''⟩ := ih hid'
      exact ⟨id'', by rwa [List.append_assoc]⟩

/-- The types that a branch goes through differ, and each of them has parts. -/
theorem Told.branch {around : List TypeId} {inner : Summary} (h : s.Told above id t)
    (hat : t.At around inner) (hnodup : above.Nodup) :
    (around ++ above).Nodup ∧ ∀ type ∈ around, s.partsOf type ≠ [] := by
  induction hat generalizing above id with
  | here t => exact ⟨hnodup, fun type h => absurd h List.not_mem_nil⟩
  | @inside type parts part inner around hpart _ ih =>
    cases h with
    | node hfresh hparts =>
      obtain ⟨id', hid', h⟩ := hparts.exists_of_mem hpart
      obtain ⟨haround, hhas⟩ := ih h (List.nodup_cons.2 ⟨hfresh, hnodup⟩)
      refine ⟨by rwa [List.append_assoc], fun type htype => ?_⟩
      rcases List.mem_append.1 htype with htype | htype
      · exact hhas type htype
      · obtain rfl := List.mem_singleton.1 htype
        exact List.ne_nil_of_mem hid'

mutual

/-- There is only one tree for a type below the same types. -/
theorem Told.unique {above : List TypeId} {id : TypeId} {t t' : Summary}
    (h : s.Told above id t) (h' : s.Told above id t') : t = t' :=
  match h, h' with
  | .mark _, .mark _ => rfl
  | .mark h, .node hfresh _ => absurd h hfresh
  | .node hfresh _, .mark h => absurd h hfresh
  | .node _ hparts, .node _ hparts' => congrArg _ (hparts.unique hparts')

theorem ToldAll.unique {above ids : List TypeId} {parts parts' : List Summary}
    (h : s.ToldAll above ids parts) (h' : s.ToldAll above ids parts') : parts = parts' :=
  match h, h' with
  | .nil, .nil => rfl
  | .cons h hrest, .cons h' hrest' => congrArg₂ _ (h.unique h') (hrest.unique hrest')

end

/-! ## Descriptions -/

/-- The tree of a type: the children of its nodes are what the parts of their types lead to, and its
marks stand just where a type is above itself. -/
structure Describes (s : Schema) (id : TypeId) (t : Summary) : Prop where
  type_eq : t.type = s.resolve id
  parts_eq : ∀ around type parts, t.At around (.node type parts) →
    parts.map Summary.type = (s.partsOf type).map s.resolve
  isMark_iff : ∀ around inner, t.At around inner → (inner.isMark = true ↔ inner.type ∈ around)

/-- The same of a tree that stands below some types. -/
structure Shaped (s : Schema) (above : List TypeId) (t : Summary) : Prop where
  parts_eq : ∀ around type parts, t.At around (.node type parts) →
    parts.map Summary.type = (s.partsOf type).map s.resolve
  isMark_iff : ∀ around inner, t.At around inner →
    (inner.isMark = true ↔ inner.type ∈ around ++ above)

theorem Shaped.part {parts : List Summary} {part : Summary}
    (h : s.Shaped above (.node type parts)) (hpart : part ∈ parts) :
    s.Shaped (type :: above) part where
  parts_eq around type' parts' hat := h.parts_eq _ type' parts' (.inside hpart hat)
  isMark_iff around inner hat := by
    have hiff := h.isMark_iff _ inner (.inside hpart hat)
    rwa [List.append_assoc] at hiff

mutual

theorem told_of_shaped : ∀ (t : Summary) {above : List TypeId} {id : TypeId},
    t.type = s.resolve id → s.Shaped above t → s.Told above id t
  | .mark type, above, id, htype, h => by
    obtain rfl : type = s.resolve id := htype
    exact .mark ((h.isMark_iff [] _ (.here _)).1 rfl)
  | .node type parts, above, id, htype, h => by
    obtain rfl : type = s.resolve id := htype
    refine .node (fun hmem => ?_) ?_
    · exact Bool.false_ne_true ((h.isMark_iff [] _ (.here _)).2 hmem)
    · exact toldAll_of_shaped parts (h.parts_eq [] _ parts (.here _)) fun part => h.part

theorem toldAll_of_shaped : ∀ (parts : List Summary) {above ids : List TypeId},
    parts.map Summary.type = ids.map s.resolve → (∀ part ∈ parts, s.Shaped above part) →
      s.ToldAll above ids parts
  | [], above, ids, htypes, h => by
    obtain rfl := List.map_eq_nil_iff.1 htypes.symm
    exact .nil
  | part :: parts, above, ids, htypes, h => by
    obtain ⟨id, ids, rfl, hid, hids⟩ := List.map_eq_cons_iff.1 htypes.symm
    rw [List.forall_mem_cons] at h
    exact .cons (told_of_shaped part hid.symm h.1) (toldAll_of_shaped parts hids.symm h.2)

end

theorem ToldAll.map_type {ids : List TypeId} {parts : List Summary}
    (h : s.ToldAll above ids parts) : parts.map Summary.type = ids.map s.resolve := by
  induction ids generalizing parts with
  | nil =>
    cases h
    rfl
  | cons id ids ih =>
    cases h with
    | cons h hrest => rw [List.map_cons, List.map_cons, h.type_eq, ih hrest]

theorem describes_iff : s.Describes id t ↔ s.Told [] id t := by
  constructor
  · intro h
    refine told_of_shaped t h.type_eq ⟨h.parts_eq, fun around inner hat => ?_⟩
    rw [List.append_nil]
    exact h.isMark_iff around inner hat
  · intro h
    refine ⟨h.type_eq, fun around type parts hat => ?_, fun around inner hat => ?_⟩
    · obtain ⟨id, hid⟩ := h.at hat
      cases hid with
      | node _ hparts => exact hparts.map_type
    · obtain ⟨id, hid⟩ := h.at hat
      rw [List.append_nil] at hid
      exact hid.isMark_iff

/-! ## Compiled schemas -/

theorem Compiled.resolve_lt (hs : s.Compiled) (hid : id < s.size) : s.resolve id < s.size := by
  obtain ⟨spec, hspec, hs⟩ := hs
  obtain ⟨linked, hlink, hchecked⟩ := Outcome.bind_eq_ok.1 hs
  obtain ⟨rfl, -⟩ := checked_eq_ok.1 hchecked
  exact follow_lt (fun type htype => ((lt_size_of_link hspec hlink).2 type htype).2) _ id hid

theorem Compiled.partsOf_lt (hs : s.Compiled) :
    ∀ part ∈ s.partsOf (s.resolve id), part < s.size :=
  hs.wellFormed.part_lt id

theorem exists_toldAll {ids : List TypeId}
    (h : ∀ id ∈ ids, ∃ t, s.Told above id t ∧ s.describeFresh fresh id = s.write t) :
    ∃ parts, s.ToldAll above ids parts ∧ ids.map (s.describeFresh fresh) = s.writeAll parts := by
  induction ids with
  | nil => exact ⟨[], .nil, rfl⟩
  | cons id ids ih =>
    rw [List.forall_mem_cons] at h
    obtain ⟨⟨part, hpart, htext⟩, hrest⟩ := h
    obtain ⟨parts, hparts, htexts⟩ := ih hrest
    exact ⟨part :: parts, .cons hpart hparts, congrArg₂ _ htext htexts⟩

/-- What is written while some types are above is the tree below them.  The types that are not above
are fresh, and each node leaves one fresh type less for what is below it. -/
theorem exists_told (hs : s.Compiled) (hnodup : fresh.Nodup)
    (hfresh : ∀ type < s.size, type ∈ fresh ↔ type ∉ above) (hid : id < s.size) :
    ∃ t, s.Told above id t ∧ s.describeFresh fresh id = s.write t := by
  induction hn : fresh.length using Nat.strong_induction_on generalizing fresh above id with
  | _ n ih =>
    have htarget := hs.resolve_lt hid
    rw [describeFresh_eq]
    by_cases hmem : s.resolve id ∈ fresh
    · have hlt : (fresh.erase (s.resolve id)).length < n := by
        have hpos := List.length_pos_of_mem hmem
        rw [List.length_erase_of_mem hmem]
        omega
      have hbelow : ∀ type < s.size,
          type ∈ fresh.erase (s.resolve id) ↔ type ∉ s.resolve id :: above := by
        intro type htype
        rw [hnodup.mem_erase_iff, hfresh type htype, List.mem_cons, not_or]
      obtain ⟨parts, hparts, htexts⟩ := exists_toldAll fun part hpart =>
        ih _ hlt (hnodup.erase _) hbelow (hs.partsOf_lt part hpart) rfl
      refine ⟨.node (s.resolve id) parts, .node ((hfresh _ htarget).1 hmem) hparts, ?_⟩
      rw [if_pos hmem, htexts, write]
    · have habove : s.resolve id ∈ above := by
        by_contra hnot
        exact hmem ((hfresh _ htarget).2 hnot)
      refine ⟨.mark (s.resolve id), .mark habove, ?_⟩
      rw [if_neg hmem, write]

/-- A branch is no longer than the schema has types. -/
theorem length_le_size {types : List TypeId} (hnodup : types.Nodup)
    (hlt : ∀ type ∈ types, type < s.size) : types.length ≤ s.size := by
  have hsub : types ⊆ List.range s.size := fun type htype => List.mem_range.2 (hlt type htype)
  have hle := (hnodup.subperm hsub).length_le
  rwa [List.length_range] at hle

theorem lt_size_of_partsOf (h : s.partsOf type ≠ []) : type < s.size := by
  by_contra hle
  rw [partsOf, descriptor_of_le s type (Nat.le_of_not_lt hle)] at h
  exact h rfl

/-- Every type of a compiled schema has just one tree, and its description is that tree written out.
On no branch of the tree a type comes twice, or is marked without having been there with its parts;
so no branch is longer than the schema has types. -/
theorem describe_tree (hs : s.Compiled) (hid : id < s.size) :
    ∃ t, s.Describes id t ∧ (∀ t', s.Describes id t' → t' = t) ∧ s.describe id = s.write t
      ∧ ∀ around inner, t.At around inner →
        around.Nodup ∧ around.length ≤ s.size ∧ ∀ type ∈ around, s.partsOf type ≠ [] := by
  have hfresh : ∀ type < s.size, type ∈ List.range s.size ↔ type ∉ ([] : List TypeId) :=
    fun type htype => iff_of_true (List.mem_range.2 htype) List.not_mem_nil
  obtain ⟨t, ht, htext⟩ := exists_told hs List.nodup_range hfresh hid
  refine ⟨t, describes_iff.2 ht, fun t' ht' => (describes_iff.1 ht').unique ht, htext,
    fun around inner hat => ?_⟩
  obtain ⟨hnodup, hparts⟩ := ht.branch hat List.nodup_nil
  rw [List.append_nil] at hnodup
  exact ⟨hnodup, length_le_size hnodup fun type htype => lt_size_of_partsOf (hparts type htype),
    hparts⟩

end Schema

/-! ## A chain of stops -/

namespace Route

/-- Where a route starts, and the stop that is declared: each leads on to a stop. -/
def summary : Summary :=
  let stop := Summary.node 2 [.node 3 [], .mark 2]
  .node 0 [stop, stop]

theorem describes_summary : schema.Describes 0 summary := by
  have hname : schema.Told [2, 0] 3 (.node 3 []) :=
    @Schema.Told.node schema [2, 0] 3 [] (by decide) .nil
  have hnext : schema.Told [2, 0] 4 (.mark 2) :=
    @Schema.Told.mark schema [2, 0] 4 List.mem_cons_self
  have hparts : schema.ToldAll [2, 0] [3, 4] [.node 3 [], .mark 2] :=
    .cons hname (.cons hnext .nil)
  -- The start leads to the stop by a reference.
  have hstart : schema.Told [0] 1 (.node 2 [.node 3 [], .mark 2]) :=
    @Schema.Told.node schema [0] 1 _ (by decide) hparts
  have hstop : schema.Told [0] 2 (.node 2 [.node 3 [], .mark 2]) :=
    @Schema.Told.node schema [0] 2 _ (by decide) hparts
  exact Schema.describes_iff.2 (@Schema.Told.node schema [] 0 _ List.not_mem_nil
    (.cons hstart (.cons hstop .nil)))

/-- A stop is described where it is first come by on a branch, and marked where it comes back. -/
theorem describe_tree_stops : schema.Compiled ∧ 0 < schema.size
    ∧ schema.describe 0 = "\x7b start: \x7b name: string; next?: @#/properties/stop \x7d; "
      ++ "stop?: \x7b name: string; next?: @#/properties/stop \x7d \x7d" := by
  have hcompiled : schema.Compiled := ⟨spec, distinct, compile_eq⟩
  have hsize : 0 < schema.size := by decide
  obtain ⟨t, -, hunique, htext, -⟩ := Schema.describe_tree hcompiled hsize
  refine ⟨hcompiled, hsize, ?_⟩
  rw [htext, ← hunique summary describes_summary]
  decide

end Route

end BoundView
