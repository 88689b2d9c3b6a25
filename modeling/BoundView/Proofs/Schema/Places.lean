import BoundView.Proofs.Members
import BoundView.Proofs.Pointer
import BoundView.Proofs.Schema.Layout

/-!
# Places of a spec

A spec is a tree, and each of its nodes that gets a type has a place in it: the steps that lead
there.  The pointer of a type spells the place of its node.  Main statement: no two places are
spelled alike, whatever the properties are called.
-/

namespace BoundView

/-- A step from a node of a spec to one that it is made of. -/
inductive SpecStep where
  | items
  | property (name : String)
  deriving DecidableEq

/-- The steps from the root of a spec to one of its nodes. -/
abbrev SpecPlace := List SpecStep

namespace SpecPlace

/-- The pointer one step further. -/
def extend (pointer : String) : SpecStep → String
  | .items => Schema.itemsPointer pointer
  | .property name => Schema.fieldPointer pointer name

/-- The pointer of a place below another one. -/
def pointerFrom (pointer : String) (place : SpecPlace) : String :=
  place.foldl extend pointer

def pointer (place : SpecPlace) : String :=
  pointerFrom "#" place

theorem pointerFrom_append (pointer : String) (place rest : SpecPlace) :
    pointerFrom pointer (place ++ rest) = pointerFrom (pointerFrom pointer place) rest :=
  List.foldl_append

theorem pointer_concat (place : SpecPlace) (step : SpecStep) :
    SpecPlace.pointer (place ++ [step]) = extend place.pointer step :=
  pointerFrom_append "#" place [step]

end SpecPlace

/-! ## How places are spelled -/

namespace SpecPlace

/-- What a place adds to a pointer. -/
def suffix : SpecPlace → List Char
  | [] => []
  | .items :: place => '/' :: "items".toList ++ suffix place
  | .property name :: place =>
    '/' :: "properties/".toList ++ (Pointer.escapeChars name.toList ++ suffix place)

theorem toList_pointerFrom (pointer : String) (place : SpecPlace) :
    (pointerFrom pointer place).toList = pointer.toList ++ suffix place := by
  induction place generalizing pointer with
  | nil => exact (List.append_nil _).symm
  | cons step place ih =>
    show (pointerFrom (extend pointer step) place).toList = _
    rw [ih]
    cases step with
    | items => simp [extend, Schema.itemsPointer, suffix]
    | property name => simp [extend, Schema.fieldPointer, Pointer.escape, suffix]

theorem suffix_eq_nil_or_slash (place : SpecPlace) :
    suffix place = [] ∨ ∃ rest, suffix place = '/' :: rest := by
  rcases place with _ | ⟨_ | _, _⟩
  · exact .inl rfl
  · exact .inr ⟨_, rfl⟩
  · exact .inr ⟨_, rfl⟩

/-- An escaped name ends where the next slash stands. -/
theorem takeWhile_name (name : String) (place : SpecPlace) :
    (Pointer.escapeChars name.toList ++ suffix place).takeWhile (· != '/')
      = Pointer.escapeChars name.toList := by
  have hname : ∀ c ∈ Pointer.escapeChars name.toList, (c != '/') = true := fun c hc =>
    bne_iff_ne.2 (Pointer.escapeChars_ne_slash name.toList c hc)
  rw [List.takeWhile_append_of_pos hname]
  rcases suffix_eq_nil_or_slash place with heq | ⟨rest, heq⟩
  · rw [heq]
    exact List.append_nil _
  · rw [heq]
    exact List.append_nil _

theorem suffix_injective : Function.Injective suffix := by
  intro place
  induction place with
  | nil =>
    intro place' h
    rcases place' with _ | ⟨_ | _, _⟩
    · rfl
    · exact nomatch h
    · exact nomatch h
  | cons step place ih =>
    intro place' h
    cases step with
    | items =>
      rcases place' with _ | ⟨_ | name', place'⟩
      · exact nomatch h
      · rw [ih (List.append_cancel_left h)]
      · simp [suffix] at h
    | property name =>
      rcases place' with _ | ⟨_ | name', place'⟩
      · exact nomatch h
      · simp [suffix] at h
      · have hrest : Pointer.escapeChars name.toList ++ suffix place
            = Pointer.escapeChars name'.toList ++ suffix place' := List.append_cancel_left h
        have hescaped : Pointer.escapeChars name.toList = Pointer.escapeChars name'.toList := by
          rw [← takeWhile_name name place, hrest, takeWhile_name]
        have hname : name = name' := String.toList_inj.1 (Pointer.escapeChars_injective hescaped)
        subst hname
        rw [ih (List.append_cancel_left hrest)]

/-- No two places have one pointer. -/
theorem pointer_injective : Function.Injective pointer := by
  intro place place' h
  have hchars := congrArg String.toList h
  rw [pointer, pointer, toList_pointerFrom, toList_pointerFrom] at hchars
  exact suffix_injective (List.append_cancel_left hchars)

end SpecPlace

/-! ## Nodes -/

/-- Whether the value is computed and never stored. -/
def SpecKind.isComputed : SpecKind → Bool
  | .computed _ => true
  | _ => false

namespace PropertySpec

def isComputed (spec : PropertySpec) : Bool :=
  spec.kind.isComputed

/-- The names of the properties that get types: all but the computed ones. -/
def storedNames (properties : List (String × PropertySpec)) : List String :=
  (properties.filter fun property => !property.2.isComputed).map Prod.fst

/-- The node one step down, if it gets a type. -/
def child? : PropertySpec → SpecStep → Option PropertySpec
  | .mk _ _ (.array items), .items => some items
  | .mk _ _ (.object properties), .property name =>
    (Members.find? name properties).filter fun child => !child.isComputed
  | _, _ => none

/-- The node at a place. -/
def node? (spec : PropertySpec) : SpecPlace → Option PropertySpec
  | [] => some spec
  | step :: place => (spec.child? step).bind fun child => child.node? place

/-- Give the node at a place another kind; whether it may be absent stays its own affair. -/
def withKind (kind : SpecKind) : SpecPlace → PropertySpec → PropertySpec
  | [], .mk optional default _ => .mk optional default kind
  | .items :: place, .mk optional default (.array items) =>
    .mk optional default (.array (withKind kind place items))
  | .property name :: place, .mk optional default (.object properties) =>
    match Members.find? name properties with
    | some child =>
      .mk optional default (.object (Members.set name (withKind kind place child) properties))
    | none => .mk optional default (.object properties)
  | _, spec => spec

variable {spec child x : PropertySpec} {step other : SpecStep} {place rest : SpecPlace}
  {kind : SpecKind} {name : String}

theorem node?_append (spec : PropertySpec) (place rest : SpecPlace) :
    spec.node? (place ++ rest) = (spec.node? place).bind fun x => x.node? rest := by
  induction place generalizing spec with
  | nil => rfl
  | cons step place ih =>
    simp only [List.cons_append, node?, Option.bind_assoc]
    exact congrArg _ (funext ih)

theorem child?_property_eq_some {optional : Bool} {default : Option Json}
    {properties : List (String × PropertySpec)}
    (h : (PropertySpec.mk optional default (.object properties)).child? (.property name)
      = some child) : Members.find? name properties = some child ∧ child.isComputed = false := by
  obtain ⟨hfind, hstored⟩ := Option.filter_eq_some_iff.1 h
  exact ⟨hfind, by simpa using hstored⟩

theorem withKind_property {optional : Bool} {default : Option Json}
    {properties : List (String × PropertySpec)} (h : Members.find? name properties = some child) :
    withKind kind (.property name :: place) (.mk optional default (.object properties))
      = .mk optional default
        (.object (Members.set name (withKind kind place child) properties)) := by
  rw [withKind, h]

theorem isComputed_withKind (hkind : kind.isComputed = false) (hspec : spec.isComputed = false) :
    (withKind kind place spec).isComputed = false := by
  obtain ⟨optional, default, k⟩ := spec
  cases place with
  | nil => exact hkind
  | cons step place =>
    cases step with
    | items => cases k <;> exact hspec
    | property name =>
      cases k with
      | object properties =>
        rw [withKind]
        split <;> rfl
      | string | number | boolean | array | computed | ref | unknown => exact hspec

theorem presenceOf_withKind (kind : SpecKind) (place : SpecPlace) (spec : PropertySpec) :
    Schema.presenceOf (withKind kind place spec) = Schema.presenceOf spec := by
  obtain ⟨optional, default, k⟩ := spec
  cases place with
  | nil => rfl
  | cons step place =>
    cases step with
    | items => cases k <;> rfl
    | property name =>
      cases k with
      | object properties =>
        rw [withKind]
        split <;> rfl
      | string | number | boolean | array | computed | ref | unknown => rfl

theorem child?_withKind_self (hkind : kind.isComputed = false) (h : spec.child? step = some child) :
    (withKind kind (step :: place) spec).child? step = some (withKind kind place child) := by
  obtain ⟨optional, default, k⟩ := spec
  cases step with
  | items =>
    cases k with
    | array items =>
      obtain rfl := Option.some.inj h
      rfl
    | string | number | boolean | object | computed | ref | unknown => exact nomatch h
  | property name =>
    cases k with
    | object properties =>
      obtain ⟨hfind, hstored⟩ := child?_property_eq_some h
      rw [withKind_property hfind, child?, Members.find?_set_self]
      simp [isComputed_withKind hkind hstored]
    | string | number | boolean | array | computed | ref | unknown => exact nomatch h

theorem child?_withKind_of_ne (hne : other ≠ step) (kind : SpecKind) (place : SpecPlace)
    (spec : PropertySpec) :
    (withKind kind (step :: place) spec).child? other = spec.child? other := by
  obtain ⟨optional, default, k⟩ := spec
  cases step with
  | items =>
    cases other with
    | items => exact absurd rfl hne
    | property name => cases k <;> rfl
  | property name =>
    cases k with
    | object properties =>
      cases hfind : Members.find? name properties with
      | none => rw [withKind, hfind]
      | some child =>
        rw [withKind_property hfind]
        cases other with
        | items => rfl
        | property other =>
          have hother : other ≠ name := fun heq => hne (by rw [heq])
          rw [child?, child?, Members.find?_set_of_ne _ _ hother]
    | string | number | boolean | array | computed | ref | unknown => rfl

/-- At and below the place stand the nodes of the new kind. -/
theorem node?_withKind_append (hkind : kind.isComputed = false) (h : spec.node? place = some x)
    (rest : SpecPlace) :
    (withKind kind place spec).node? (place ++ rest) = (withKind kind [] x).node? rest := by
  induction place generalizing spec with
  | nil =>
    obtain rfl := Option.some.inj h
    rfl
  | cons step place ih =>
    obtain ⟨child, hchild, h⟩ := Option.bind_eq_some_iff.1 h
    rw [List.cons_append, node?, child?_withKind_self hkind hchild]
    exact ih h

/-- Kinds that differ at most in nodes further down. -/
inductive SameTop : SpecKind → SpecKind → Prop where
  | refl (kind : SpecKind) : SameTop kind kind
  | array (items items' : PropertySpec) : SameTop (.array items) (.array items')
  | object {properties properties' : List (String × PropertySpec)}
      (h : storedNames properties = storedNames properties') :
      SameTop (.object properties) (.object properties')

theorem storedNames_set {properties : List (String × PropertySpec)} {child' : PropertySpec}
    (h : Members.find? name properties = some child)
    (hstored : child'.isComputed = child.isComputed) :
    storedNames (Members.set name child' properties) = storedNames properties := by
  induction properties with
  | nil => exact nomatch h
  | cons property rest ih =>
    obtain ⟨key, first⟩ := property
    rw [Members.find?] at h
    rw [Members.set]
    by_cases hkey : key = name
    · rw [if_pos hkey] at h ⊢
      obtain rfl := Option.some.inj h
      simp only [storedNames, List.filter_cons, hstored]
      split <;> rfl
    · rw [if_neg hkey] at h ⊢
      have hrest := ih h
      simp only [storedNames, List.filter_cons] at hrest ⊢
      split
      · rw [List.map_cons, List.map_cons, hrest]
      · exact hrest

theorem sameTop_withKind (hkind : kind.isComputed = false)
    (h : ∃ child, spec.child? step = some child) :
    SameTop spec.kind (withKind kind (step :: place) spec).kind := by
  obtain ⟨child, hchild⟩ := h
  obtain ⟨optional, default, k⟩ := spec
  cases step with
  | items =>
    cases k with
    | array items => exact .array _ _
    | string | number | boolean | object | computed | ref | unknown => exact nomatch hchild
  | property name =>
    cases k with
    | object properties =>
      obtain ⟨hfind, hstored⟩ := child?_property_eq_some hchild
      rw [withKind_property hfind]
      have hstored' : (withKind kind place child).isComputed = false :=
        isComputed_withKind hkind hstored
      exact .object (storedNames_set hfind (hstored'.trans hstored.symm)).symm
    | string | number | boolean | array | computed | ref | unknown => exact nomatch hchild

/-- Beside and above the place all nodes stay, but for what is further down. -/
theorem node?_withKind_of_not_prefix {q p : SpecPlace} (hkind : kind.isComputed = false)
    (hq : spec.node? q = some x) (hp : ¬q <+: p) :
    Option.Rel (fun y y' => Schema.presenceOf y = Schema.presenceOf y' ∧ SameTop y.kind y'.kind)
      (spec.node? p) ((withKind kind q spec).node? p) := by
  induction p generalizing q spec with
  | nil =>
    cases q with
    | nil => exact absurd List.nil_prefix hp
    | cons step q =>
      obtain ⟨child, hchild, -⟩ := Option.bind_eq_some_iff.1 hq
      exact .some ⟨(presenceOf_withKind kind _ spec).symm, sameTop_withKind hkind ⟨child, hchild⟩⟩
  | cons other p ih =>
    cases q with
    | nil => exact absurd List.nil_prefix hp
    | cons step q =>
      obtain ⟨child, hchild, hbelow⟩ := Option.bind_eq_some_iff.1 hq
      by_cases heq : other = step
      · subst heq
        rw [node?, node?, hchild, child?_withKind_self hkind hchild]
        exact ih hbelow fun hprefix => hp (List.cons_prefix_cons.2 ⟨rfl, hprefix⟩)
      · rw [node?, node?, child?_withKind_of_ne heq]
        cases (spec.child? other).bind fun child => child.node? p with
        | none => exact .none
        | some y => exact .some ⟨rfl, .refl y.kind⟩

/-! ## Different names -/

theorem Distinct.child? (hspec : spec.Distinct) (h : spec.child? step = some child) :
    child.Distinct := by
  obtain ⟨optional, default, k⟩ := spec
  cases step with
  | items =>
    cases k with
    | array items =>
      obtain rfl := Option.some.inj h
      exact hspec
    | string | number | boolean | object | computed | ref | unknown => exact nomatch h
  | property name =>
    cases k with
    | object properties =>
      obtain ⟨hfind, -⟩ := child?_property_eq_some h
      exact distinctAll_iff.1 hspec.2 _ (Members.mem_of_find? hfind)
    | string | number | boolean | array | computed | ref | unknown => exact nomatch h

theorem Distinct.node? (hspec : spec.Distinct) (h : spec.node? place = some x) : x.Distinct := by
  induction place generalizing spec with
  | nil =>
    obtain rfl := Option.some.inj h
    exact hspec
  | cons step place ih =>
    obtain ⟨child, hchild, h⟩ := Option.bind_eq_some_iff.1 h
    exact ih (hspec.child? hchild) h

theorem distinct_kind (hspec : spec.Distinct) : spec.kind.Distinct := by
  cases spec
  exact hspec

theorem Distinct.withKind (hkind : kind.Distinct) (hspec : spec.Distinct) :
    (withKind kind place spec).Distinct := by
  induction place generalizing spec with
  | nil =>
    obtain ⟨optional, default, k⟩ := spec
    exact hkind
  | cons step place ih =>
    obtain ⟨optional, default, k⟩ := spec
    cases step with
    | items =>
      cases k with
      | array items => exact ih hspec
      | string | number | boolean | object | computed | ref | unknown => exact hspec
    | property name =>
      cases k with
      | object properties =>
        cases hfind : Members.find? name properties with
        | none =>
          rw [PropertySpec.withKind, hfind]
          exact hspec
        | some child =>
          rw [withKind_property hfind]
          have hall := distinctAll_iff.1 hspec.2
          refine ⟨Members.nodup_names_set hspec.1, distinctAll_iff.2 fun pair hpair => ?_⟩
          rcases Members.mem_set hpair with hpair | heq
          · exact hall pair hpair
          · rw [heq]
            exact ih (hall _ (Members.mem_of_find? hfind))
      | string | number | boolean | array | computed | ref | unknown => exact hspec

end PropertySpec

end BoundView
