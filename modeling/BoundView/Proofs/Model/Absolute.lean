import BoundView.Proofs.Model.Reachable
import BoundView.Proofs.Pointer

/-!
# Patches through references

A patch through a reference starts from the type at the path of the reference, while a patch of the
root reads that path off its pointer, token by token.  Main statement: the two do the same, for
every reference that was ever given out, whether or not anything stands there by now.
-/

namespace BoundView

open Outcome (bind_eq_ok bind_eq_error)

/-- The positions of a path are machine numbers. -/
def Path.Addressable (path : Path) : Prop :=
  ∀ i, Seg.index i ∈ path → i < twoTo 64

theorem Path.Addressable.cons {seg : Seg} {path : Path} (h : Path.Addressable (seg :: path)) :
    Path.Addressable [seg] ∧ Path.Addressable path := by
  refine ⟨fun i hi => h i ?_, fun i hi => h i (List.mem_cons_of_mem seg hi)⟩
  rw [List.mem_singleton.1 hi]
  exact List.mem_cons_self

/-- The same patch, to be applied from so much further up. -/
def Patch.below (place : Path) (patch : Patch) : Patch :=
  { patch with path := Pointer.format place ++ patch.path }

/-- A reference is given out for a node that stands there, and is kept when the node is gone. -/
def Live.Gave (l : Live) (r : ModelRef) : Prop :=
  ∃ (l₀ : Live) (node : Json), l₀.Reachable ∧ l₀.Reaches l ∧ r.node? l₀.models = some node

/-! ## Steps and their names -/

theorem arrayIndex?_toString {i : Nat} (h : i < twoTo 64) : arrayIndex? (toString i) = some i := by
  have htoList : (toString i).toList = Nat.toDigits 10 i := by
    rw [Nat.toString_eq_ofList_toDigits, String.toList_ofList]
  have hdigits : (Nat.toDigits 10 i).all Char.isDigit = true :=
    List.all_eq_true.2 fun c hc => Nat.isDigit_of_mem_toDigits (by decide) (by decide) hc
  have hvalue : (Nat.toDigits 10 i).foldl (fun n c => 10 * n + (c.toNat - '0'.toNat)) 0 = i := by
    rw [← Nat.ofDigitChars_eq_foldl]
    exact Nat.ofDigitChars_ten_toDigits
  unfold arrayIndex?
  rw [htoList]
  split
  -- No digit is a plus sign.
  · rename_i rest hplus
    rw [hplus] at hdigits
    exact absurd (List.all_eq_true.1 hdigits '+' List.mem_cons_self) (by decide)
  · have hempty : (Nat.toDigits 10 i).isEmpty = false := by simp
    simp only [hempty, hdigits, hvalue, if_pos h]
    rfl

namespace Schema

variable {s : Schema} {id child : TypeId} {seg : Seg} {path place : Path} {j node : Json}

theorem WellFormed.storedField_of_find? (hs : s.WellFormed) {type : ObjectType} {name : String}
    (hkind : s.kind id = .object type) (hfind : Members.find? name type.fields = some child) :
    type.storedField name = .ok child := by
  have hdisjoint := (List.nodup_append.1 (hs.names_nodup id type hkind)).2.2
  have hcomputed : Members.find? name type.computed = none :=
    Members.find?_eq_none_iff.2 fun hname =>
      hdisjoint name (Members.mem_names_of_find? hfind) name hname rfl
  unfold ObjectType.storedField
  rw [Members.contains, hcomputed, hfind]
  rfl

/-- What leads one step down is found by its name, too. -/
theorem WellFormed.stepToken_of_stepType (hs : s.WellFormed) (h : s.stepType id seg = some child)
    (haddress : Path.Addressable [seg]) (place : Path) :
    s.stepToken id place seg.name = .ok (seg, child) := by
  unfold stepToken
  cases seg with
  | field name =>
    obtain ⟨type, hkind, hfind⟩ := stepType_field h
    simp only [hkind]
    exact bind_eq_ok.2 ⟨child, hs.storedField_of_find? hkind hfind, rfl⟩
  | index i =>
    have hindex : arrayIndex (toString i) = .ok i := by
      rw [arrayIndex, arrayIndex?_toString (haddress i List.mem_cons_self)]
    simp only [stepType_index h]
    exact bind_eq_ok.2 ⟨i, hindex, rfl⟩

/-- Only in a node that may be anything do steps lead to nodes without a type. -/
theorem Conforms.kind_eq_any (h : s.Conforms id j) (hnode : j.step? seg = some node)
    (hnone : s.stepType id seg = none) : ∃ declared, s.kind id = .any declared := by
  cases h with
  | any hkind => exact ⟨_, hkind⟩
  | string | boolean | number => cases seg <;> cases hnode
  | array hkind =>
    cases seg with
    | field name => cases hnode
    | index i =>
      rw [stepType, hkind] at hnone
      cases hnone
  | object hkind hnodup hdeclared =>
    cases seg with
    | index i => cases hnode
    | field name =>
      obtain ⟨field, hfield⟩ :=
        Members.exists_of_mem_names (hdeclared name (Members.mem_names_of_find? hnode))
      have hboth := hnone.symm.trans (stepType_of_find? hkind hfield)
      cases hboth

/-! ## The path of a reference in a pointer -/

/-- Where there is a type at the end of a path, its names lead there. -/
theorem WellFormed.walk_of_typeAt (hs : s.WellFormed) (haddress : Path.Addressable path)
    (h : s.typeAt id path = some child) (place : Path) (rest : List String) :
    s.walk id place (path.map Seg.name ++ rest) = s.walk child (place ++ path) rest := by
  induction path generalizing id place with
  | nil =>
    obtain rfl := Option.some.inj h
    rw [List.append_nil]
    rfl
  | cons seg path ih =>
    obtain ⟨next, hnext, h⟩ := Option.bind_eq_some_iff.1 h
    obtain ⟨hseg, hpath⟩ := haddress.cons
    have hstep := hs.stepToken_of_stepType hnext hseg place
    rw [List.map_cons, List.cons_append, walk, hstep]
    show s.walk next (place ++ [seg]) _ = _
    rw [ih hpath h, List.append_assoc]
    rfl

/-- Where there was a node, but no type, its names lead nowhere. -/
theorem WellFormed.exists_walk_eq_error (hs : s.WellFormed) (haddress : Path.Addressable path)
    (h : j.isNull = false → s.Conforms id j) (hnode : j.get? path = some node)
    (hnone : s.typeAt id path = none) (place : Path) (rest : List String) :
    ∃ e, s.walk id place (path.map Seg.name ++ rest) = .error e := by
  induction path generalizing id j place with
  | nil => exact nomatch hnone
  | cons seg path ih =>
    obtain ⟨below, hbelow, hnode⟩ := Option.bind_eq_some_iff.1 hnode
    obtain ⟨hseg, hpath⟩ := haddress.cons
    have hconforms := h (Json.isNull_of_step? hbelow)
    rw [List.map_cons, List.cons_append, walk]
    cases hnext : s.stepType id seg with
    | none =>
      obtain ⟨declared, hkind⟩ := hconforms.kind_eq_any hbelow hnext
      refine ⟨.notAContainer place, bind_eq_error.2 (.inl ?_)⟩
      unfold stepToken
      simp only [hkind]
    | some next =>
      rw [typeAt, hnext] at hnone
      obtain ⟨e, he⟩ := ih hpath (hconforms.step? hnext hbelow) hnode hnone (place ++ [seg])
      exact ⟨e, bind_eq_error.2 (.inr ⟨_, hs.stepToken_of_stepType hnext hseg place, he⟩)⟩

end Schema

/-! ## Patches -/

namespace ModelRef

variable {r : ModelRef} {m : Model} {patch : Patch} {id : TypeId} {node : Json}

theorem applyTo_of_split {parents : List String} {last : String}
    (h : Pointer.split patch.path = some (parents ++ [last])) (r : ModelRef) (m : Model) :
    r.applyTo m patch = (do
      let plan ← m.plan r.path parents last patch
      let m ← m.carryOut plan
      .ok (plan.change r.model, m)) := by
  unfold applyTo
  split
  · rename_i hsplit
    exact nomatch hsplit.symm.trans h
  · rename_i hsplit
    have hnil := Option.some.inj (hsplit.symm.trans h)
    exact absurd hnil.symm (by simp)
  · rename_i token tokens hsplit
    have htokens := Option.some.inj (hsplit.symm.trans h)
    simp only [htokens, List.dropLast_concat, List.getLast_concat]

/-- The pointer of the longer patch has the names of the path in front. -/
theorem exists_split_below (path : Path) (hslash : patch.path.toList.head? = some '/') :
    ∃ parents last, Pointer.split patch.path = some (parents ++ [last])
      ∧ Pointer.split (patch.below path).path
        = some (path.map Seg.name ++ parents ++ [last]) := by
  obtain ⟨cs, hcs⟩ := List.head?_eq_some_iff.1 hslash
  obtain ⟨parents, last, htokens⟩ :=
    (List.eq_nil_or_concat' (Pointer.tokens cs)).resolve_left (Pointer.tokens_ne_nil cs)
  refine ⟨parents, last, ?_, ?_⟩
  · rw [Pointer.split_of_slash hcs, htokens]
  · rw [Patch.below, Pointer.split_format_append path hcs, htokens, List.append_assoc]

theorem plan_below (m : Model) (place from_ : Path) (parents : List String) (last : String) :
    m.plan from_ parents last (patch.below place) = m.plan from_ parents last patch :=
  rfl

/-- Where there is a type, both ways agree even on what goes wrong. -/
theorem applyTo_root_below (hs : m.schema.WellFormed) (haddress : r.path.Addressable)
    (htype : m.schema.typeAt m.type r.path = some id)
    (hslash : patch.path.toList.head? = some '/') :
    (root r.model).applyTo m (patch.below r.path) = r.applyTo m patch := by
  obtain ⟨parents, last, hsplit, hbelow⟩ := exists_split_below r.path hslash
  have hwalk := hs.walk_of_typeAt haddress htype [] parents
  have hplan : m.plan [] (r.path.map Seg.name ++ parents) last patch
      = m.plan r.path parents last patch := by
    unfold Model.plan
    rw [htype, Schema.typeAt]
    show m.schema.walk m.type [] _ >>= _ = m.schema.walk id r.path _ >>= _
    rw [hwalk]
    rfl
  rw [applyTo_of_split hsplit, applyTo_of_split hbelow]
  rw [plan_below]
  exact congrArg (· >>= _) hplan

/-- Where there is none, both ways fail. -/
theorem applyTo_of_typeAt_eq_none {data : Json} (hs : m.schema.WellFormed)
    (haddress : r.path.Addressable) (hdata : m.schema.Conforms m.type data)
    (hnode : data.get? r.path = some node) (hnone : m.schema.typeAt m.type r.path = none)
    (hslash : patch.path.toList.head? = some '/') :
    (∃ e, r.applyTo m patch = .error e)
      ∧ ∃ e, (root r.model).applyTo m (patch.below r.path) = .error e := by
  obtain ⟨parents, last, hsplit, hbelow⟩ := exists_split_below r.path hslash
  rw [applyTo_of_split hsplit, applyTo_of_split hbelow]
  constructor
  · refine ⟨.pathNotFound r.path, bind_eq_error.2 (.inl (bind_eq_error.2 (.inl ?_)))⟩
    rw [hnone]
    rfl
  · obtain ⟨e, he⟩ := hs.exists_walk_eq_error haddress (fun _ => hdata) hnode hnone [] parents
    refine ⟨e, bind_eq_error.2 (.inl (bind_eq_error.2 (.inr ⟨m.type, rfl, ?_⟩)))⟩
    exact bind_eq_error.2 (.inl he)

end ModelRef

namespace Live

variable {l : Live} {r : ModelRef} {patch : Patch}

/-- The model of a reference that was given out is there, and its document was once one of the same
type in which the path led to a node. -/
theorem Gave.exists_model (h : l.Gave r) :
    ∃ m data node, r.model? l.models = some m ∧ m.Valid ∧ m.schema.Conforms m.type data
      ∧ data.get? r.path = some node := by
  obtain ⟨l₀, node, hreachable, hreaches, hnode⟩ := h
  obtain ⟨m₀, hm₀, hnode⟩ := Option.bind_eq_some_iff.1 hnode
  have hvalid₀ := hreachable.valid
  obtain ⟨hvalid, hmodels⟩ := hreaches.valid hvalid₀
  obtain ⟨data, hm⟩ := hmodels r.model m₀ hm₀
  exact ⟨{ m₀ with data }, m₀.data, node, hm, (hvalid r.model _ hm).2,
    (hvalid₀ r.model m₀ hm₀).2.conforms, hnode⟩

/-- A patch through a reference and the patch of the root that has the pointer of the reference in
front of its path: the one is accepted just if the other is, and both give the same change and leave
the same models, with the same observers marked. -/
theorem apply_eq_ok_iff_root (h : l.Gave r) (haddress : r.path.Addressable)
    (hslash : patch.path.toList.head? = some '/') (c : Change) (l' : Live) :
    l.apply r patch = .ok (c, l')
      ↔ l.apply (.root r.model) (patch.below r.path) = .ok (c, l') := by
  obtain ⟨m, data, node, hm, hvalid, hconforms, hnode⟩ := h.exists_model
  have hs := hvalid.compiled.wellFormed
  suffices happly : ∀ out, r.applyTo m patch = .ok out
      ↔ (ModelRef.root r.model).applyTo m (patch.below r.path) = .ok out by
    have hroot : (ModelRef.root r.model).model? l.models = some m := hm
    simp only [apply, ModelRef.apply, hm, hroot, bind_eq_ok]
    simp only [happly]
    rfl
  intro out
  cases htype : m.schema.typeAt m.type r.path with
  | some id => rw [ModelRef.applyTo_root_below hs haddress htype hslash]
  | none =>
    obtain ⟨⟨e, he⟩, e', he'⟩ :=
      ModelRef.applyTo_of_typeAt_eq_none hs haddress hconforms hnode htype hslash
    rw [he, he']
    constructor <;> intro h <;> cases h

end Live

/-! ## A list of things to do -/

namespace Todo

/-- The second item. -/
def second : ModelRef :=
  ⟨1, [.field "todos", .index 1]⟩

def entitle (title : String) : Patch :=
  ⟨.replace, "/title", some (.string title)⟩

theorem gave_second : (live ["a", "b"]).Gave second :=
  ⟨live ["a", "b"], item "b", reachable_live, .refl, rfl⟩

theorem addressable_second : second.path.Addressable := by
  intro i hi
  have hone : i = 1 := by simpa [second] using hi
  subst hone
  decide

theorem live_apply_entitle : (live ["a", "b"]).apply second (entitle "z")
    = .ok (⟨1, [.field "todos", .index 1, .field "title"], none⟩, live ["a", "z"]) := by
  cbv

theorem below_second (title : String) : (entitle title).below second.path
    = ⟨.replace, "/todos/1/title", some (.string title)⟩ := by
  rfl

/-- The item gets its title from the root as well. -/
theorem apply_root_entitle : (live ["a", "b"]).Gave second ∧ second.path.Addressable
    ∧ (live ["a", "b"]).apply (.root 1) ⟨.replace, "/todos/1/title", some (.string "z")⟩
      = .ok (⟨1, [.field "todos", .index 1, .field "title"], none⟩, live ["a", "z"]) := by
  refine ⟨gave_second, addressable_second, ?_⟩
  rw [← below_second]
  exact (Live.apply_eq_ok_iff_root gave_second addressable_second rfl _ _).1 live_apply_entitle

end Todo

end BoundView
