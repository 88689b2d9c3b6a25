import BoundView.Proofs.Schema.Defaults
import BoundView.Proofs.Schema.Drawing

/-!
# Unfolded specs

A spec is unfolded by writing the kind of the node that a reference names in place of the reference.
The types of both schemas are compared by the places of their nodes: what stands at or below the
former reference comes from what stands at or below the named node, and all else from its own place.
Main statement: types whose nodes come from one another check alike.
-/

namespace BoundView

namespace PropertySpec

/-- A reference at the place `q` of a spec, and the node that it names, at the place `t`. -/
structure Refers (spec : PropertySpec) (q t : SpecPlace) (x y : PropertySpec) : Prop where
  node : spec.node? q = some x
  named : ∃ target, x.kind = .ref target ∧ t.pointer = Schema.normalizeTarget target
  target : spec.node? t = some y
  stored : y.kind.isComputed = false

/-! ## Nodes before and after -/

/-- Whether the node at `p'` of the unfolded spec has its kind from the node at `p`. -/
def Mirrors (q t p p' : SpecPlace) : Prop :=
  (p ≠ q ∧ p' = p) ∨ ∃ rest, p = t ++ rest ∧ p' = q ++ rest

/-- Whether it also has its presence from there. -/
def Continues (q t p p' : SpecPlace) : Prop :=
  p' = p ∨ ∃ step rest, p = t ++ step :: rest ∧ p' = q ++ step :: rest

theorem Mirrors.concat {q t p p' : SpecPlace} (h : Mirrors q t p p') (step : SpecStep) :
    Continues q t (p ++ [step]) (p' ++ [step]) := by
  rcases h with ⟨-, rfl⟩ | ⟨rest, rfl, rfl⟩
  · exact .inl rfl
  · rw [List.append_assoc, List.append_assoc]
    cases rest with
    | nil => exact .inr ⟨step, [], rfl, rfl⟩
    | cons first rest => exact .inr ⟨first, rest ++ [step], rfl, rfl⟩

/-- Whether following references leads from both nodes to the same. -/
def Leads (q t p p' : SpecPlace) : Prop :=
  Mirrors q t p p' ∨ p = q ∧ p' = q

theorem Continues.leads {q t p p' : SpecPlace} (h : Continues q t p p') : Leads q t p p' := by
  rcases h with rfl | ⟨step, rest, rfl, rfl⟩
  · by_cases hq : p' = q
    · exact .inr ⟨hq, hq⟩
    · exact .inl (.inl ⟨hq, rfl⟩)
  · exact .inl (.inr ⟨step :: rest, rfl, rfl⟩)

variable {spec x y z : PropertySpec} {q t p p' : SpecPlace}

/-- Nothing stands below a reference. -/
theorem Refers.not_prefix (h : spec.Refers q t x y) (hp : spec.node? p = some z) (hne : p ≠ q) :
    ¬q <+: p := by
  rintro ⟨rest, rfl⟩
  cases rest with
  | nil => exact hne (List.append_nil q)
  | cons step rest =>
    obtain ⟨target, hkind, -⟩ := h.named
    obtain ⟨optional, default, k⟩ := x
    obtain rfl : k = .ref target := hkind
    rw [node?_append, h.node] at hp
    cases step <;> exact nomatch hp

theorem child?_congr {spec spec' : PropertySpec} (h : spec.kind = spec'.kind) (step : SpecStep) :
    spec.child? step = spec'.child? step := by
  obtain ⟨optional, default, k⟩ := spec
  obtain ⟨optional', default', k'⟩ := spec'
  obtain rfl : k = k' := h
  cases k <;> cases step <;> rfl

/-- Where the reference was stands a node of the named kind. -/
theorem Refers.node?_self (h : spec.Refers q t x y) :
    (withKind y.kind q spec).node? q = some (withKind y.kind [] x) := by
  have hself := node?_withKind_append h.stored h.node []
  rwa [List.append_nil] at hself

/-- Below the former reference stand the nodes below the named one. -/
theorem Refers.node?_below (h : spec.Refers q t x y) (step : SpecStep) (rest : SpecPlace) :
    (withKind y.kind q spec).node? (q ++ step :: rest) = spec.node? (t ++ step :: rest) := by
  have hkind : (withKind y.kind [] x).kind = y.kind := by
    cases x
    rfl
  rw [node?_withKind_append h.stored h.node, node?_append, h.target, Option.bind_some, node?, node?,
    child?_congr hkind]

/-- A node of the unfolded spec is of the same kind as the one that it mirrors. -/
theorem Refers.sameTop (h : spec.Refers q t x y) (hp : spec.node? p = some z)
    (hmirrors : Mirrors q t p p') :
    ∃ z', (withKind y.kind q spec).node? p' = some z' ∧ SameTop z.kind z'.kind := by
  rcases hmirrors with ⟨hne, rfl⟩ | ⟨rest, rfl, rfl⟩
  · have hsame := node?_withKind_of_not_prefix h.stored h.node (h.not_prefix hp hne)
    rw [hp] at hsame
    generalize (withKind y.kind q spec).node? p' = z'? at hsame ⊢
    cases hsame with
    | some hz => exact ⟨_, rfl, hz.2⟩
  · cases rest with
    | nil =>
      rw [List.append_nil, h.target] at hp
      obtain rfl := Option.some.inj hp
      refine ⟨withKind y.kind [] x, ?_, ?_⟩
      · rw [List.append_nil, h.node?_self]
      · cases x
        exact .refl _
    | cons step rest =>
      refine ⟨z, ?_, .refl _⟩
      rw [h.node?_below, hp]

theorem Refers.presence_eq (h : spec.Refers q t x y) (hp : spec.node? p = some z)
    (hcontinues : Continues q t p p') : ∃ z', (withKind y.kind q spec).node? p' = some z'
      ∧ Schema.presenceOf z = Schema.presenceOf z' := by
  rcases hcontinues with rfl | ⟨step, rest, rfl, rfl⟩
  · by_cases hq : p' = q
    · subst hq
      obtain rfl := Option.some.inj (h.node.symm.trans hp)
      exact ⟨_, h.node?_self, (presenceOf_withKind _ _ _).symm⟩
    · have hsame := node?_withKind_of_not_prefix h.stored h.node (h.not_prefix hp hq)
      rw [hp] at hsame
      generalize (withKind y.kind q spec).node? p' = z'? at hsame ⊢
      cases hsame with
      | some hz => exact ⟨_, rfl, hz.1⟩
  · exact ⟨z, by rw [h.node?_below, hp], rfl⟩

/-- Every node of the unfolded spec comes from a node of the spec. -/
theorem Refers.exists_continues (h : spec.Refers q t x y) {z' : PropertySpec}
    (hp' : (withKind y.kind q spec).node? p' = some z') :
    ∃ p z, Continues q t p p' ∧ spec.node? p = some z := by
  by_cases hprefix : q <+: p'
  · obtain ⟨rest, rfl⟩ := hprefix
    cases rest with
    | nil => exact ⟨q, x, .inl (List.append_nil q), h.node⟩
    | cons step rest =>
      rw [h.node?_below] at hp'
      exact ⟨_, z', .inr ⟨step, rest, rfl, rfl⟩, hp'⟩
  · have hsame := node?_withKind_of_not_prefix h.stored h.node hprefix
    rw [hp'] at hsame
    cases hp : spec.node? p' with
    | none =>
      rw [hp] at hsame
      cases hsame
    | some z => exact ⟨p', z, .inl rfl, hp⟩

/-- And every node of a kind of the unfolded spec mirrors one of the spec. -/
theorem Refers.exists_mirrors (h : spec.Refers q t x y) {z' : PropertySpec}
    (hp' : (withKind y.kind q spec).node? p' = some z') :
    ∃ p z, Mirrors q t p p' ∧ spec.node? p = some z := by
  obtain ⟨p, z, hcontinues, hp⟩ := h.exists_continues hp'
  rcases hcontinues.leads with hmirrors | ⟨rfl, rfl⟩
  · exact ⟨p, z, hmirrors, hp⟩
  · exact ⟨t, y, .inr ⟨[], (List.append_nil t).symm, (List.append_nil p').symm⟩, h.target⟩

theorem Refers.distinct (h : spec.Refers q t x y) (hspec : spec.Distinct) :
    (withKind y.kind q spec).Distinct :=
  hspec.withKind (distinct_kind (hspec.node? h.target))

end PropertySpec

namespace Schema

open PropertySpec (Refers Mirrors Continues Leads SameTop withKind)
open Outcome (bind_eq_ok)

variable {spec x y z : PropertySpec} {q t p p' : SpecPlace} {s s' : Schema}

theorem KindsAlike.isRef_eq {rel : TypeId → TypeId → Prop} {kind kind' : TypeKind TypeId}
    (h : KindsAlike rel kind kind') : kind.isRef = kind'.isRef := by
  cases h <;> rfl

/-- Fields with the same names are related if their types are. -/
theorem fields_alike {rel : TypeId → TypeId → Prop} {has has' : String → TypeId → Prop}
    (hrel : ∀ name id id', has name id → has' name id' → rel id id') {names : List String}
    {fields fields' : List (String × TypeId)}
    (h : List.Forall₂ (fun name field => field.1 = name ∧ has name field.2) names fields)
    (h' : List.Forall₂ (fun name field => field.1 = name ∧ has' name field.2) names fields') :
    List.Forall₂ (fun field field' => field.1 = field'.1 ∧ rel field.2 field'.2)
      fields fields' := by
  induction h generalizing fields' with
  | nil =>
    cases h'
    exact .nil
  | cons hfirst _ ih =>
    cases h' with
    | cons hfirst' hrest' =>
      exact .cons ⟨hfirst.1.trans hfirst'.1.symm, hrel _ _ _ hfirst.2 hfirst'.2⟩ (ih hrest')

/-! ## Types before and after -/

/-- A reference, and a schema of each of the two specs. -/
structure Unfolds (spec : PropertySpec) (q t : SpecPlace) (x y : PropertySpec) (s s' : Schema) :
    Prop where
  refers : spec.Refers q t x y
  before : Drawn s.types (Named s.types) spec
  after : Drawn s'.types (Named s'.types) (withKind y.kind q spec)

/-- The types of two nodes that are related by their places. -/
def Nodes (rel : SpecPlace → SpecPlace → Prop) (spec : PropertySpec) (s s' : Schema)
    (id id' : TypeId) : Prop :=
  ∃ p p', rel p p' ∧ (∃ z, spec.node? p = some z) ∧ PointsTo s.types id p.pointer
    ∧ PointsTo s'.types id' p'.pointer

theorem Nodes.lt_size {rel : SpecPlace → SpecPlace → Prop} {id id' : TypeId}
    (h : Nodes rel spec s s' id id') : id < s.size ∧ id' < s'.size := by
  obtain ⟨p, p', -, -, hid, hid'⟩ := h
  exact ⟨hid.lt_size, hid'.lt_size⟩

/-- Types of which one has its kind from the other. -/
abbrev Mirrored (spec : PropertySpec) (q t : SpecPlace) :
    Schema → Schema → TypeId → TypeId → Prop :=
  Nodes (Mirrors q t) spec

/-- Types of which one has its kind and its presence from the other. -/
abbrev Continued (spec : PropertySpec) (q t : SpecPlace) :
    Schema → Schema → TypeId → TypeId → Prop :=
  Nodes (Continues q t) spec

variable {id id' : TypeId}

theorem Continued.leads (hid : Continued spec q t s s' id id') :
    Nodes (Leads q t) spec s s' id id' := by
  obtain ⟨p, p', hcontinues, hrest⟩ := hid
  exact ⟨p, p', hcontinues.leads, hrest⟩

namespace Unfolds

/-- What a type and its mirror image are drawn from. -/
theorem lays (h : Unfolds spec q t x y s s') (hid : Mirrored spec q t s s' id id') :
    ∃ p p' k k', Mirrors q t p p' ∧ SameTop k k'
      ∧ Lays s.types (Named s.types) p.pointer k (s.descriptor id).kind
      ∧ Lays s'.types (Named s'.types) p'.pointer k' (s'.descriptor id').kind := by
  obtain ⟨p, p', hmirrors, ⟨z, hz⟩, hid, hid'⟩ := hid
  obtain ⟨z', hz', hsame⟩ := h.refers.sameTop hz hmirrors
  exact ⟨p, p', z.kind, z'.kind, hmirrors, hsame, h.before.lays hid hz, h.after.lays hid' hz'⟩

/-- A type that is no reference and its mirror image are of one kind. -/
theorem kindsAlike (h : Unfolds spec q t x y s s') (hid : Mirrored spec q t s s' id id')
    (hno : (s.descriptor id).kind.isRef = false) :
    KindsAlike (Continued spec q t s s') (s.descriptor id).kind (s'.descriptor id').kind := by
  obtain ⟨p, p', k, k', hmirrors, hsame, hkind, hkind'⟩ := h.lays hid
  have hchild : ∀ step child child', PointsTo s.types child (SpecPlace.extend p.pointer step) →
      PointsTo s'.types child' (SpecPlace.extend p'.pointer step) →
      Continued spec q t s s' child child' := by
    intro step child child' hchild hchild'
    rw [← SpecPlace.pointer_concat] at hchild hchild'
    obtain ⟨place, z, hz, hplace⟩ := h.before.exists_place hchild
    obtain rfl := SpecPlace.pointer_injective hplace
    exact ⟨_, _, hmirrors.concat step, ⟨z, hz⟩, hchild, hchild'⟩
  generalize (s.descriptor id).kind = kind at hkind hno ⊢
  generalize (s'.descriptor id').kind = kind' at hkind' ⊢
  cases hkind with
  | ref => exact nomatch hno
  | string | number | boolean | computed | unknown =>
    cases hsame
    cases hkind'
    constructor
  | array hitems =>
    cases hsame <;> cases hkind' with
    | array hitems' => exact .array (hchild .items _ _ hitems hitems')
  | object hfields =>
    have hfield := fun name => hchild (.property name)
    cases hsame with
    | refl =>
      cases hkind' with
      | object hfields' => exact .object (fields_alike hfield hfields hfields')
    | object hnames =>
      cases hkind' with
      | object hfields' =>
        rw [← hnames] at hfields'
        exact .object (fields_alike hfield hfields hfields')

/-- A reference at the former place leads on to the named node, and any other one leads alike in
both schemas. -/
theorem leads_of_ref (h : Unfolds spec q t x y s s') {target : TypeId}
    (hid : Nodes (Leads q t) spec s s' id id') (hkind : (s.descriptor id).kind = .ref target) :
    Mirrored spec q t s s' target id' ∨ ∃ target', (s'.descriptor id').kind = .ref target'
      ∧ Nodes (Leads q t) spec s s' target target' := by
  obtain ⟨p, p', hmirrors | ⟨rfl, rfl⟩, hz, hid, hid'⟩ := hid
  · right
    obtain ⟨_, _, k, k', -, hsame, hlays, hlays'⟩ := h.lays ⟨p, p', hmirrors, hz, hid, hid'⟩
    rw [hkind] at hlays
    cases hlays with
    | ref hnamed =>
      generalize (s'.descriptor id').kind = kind' at hlays' ⊢
      cases hsame with
      | refl =>
        cases hlays' with
        | ref hnamed' =>
          obtain ⟨place, z, hplace, heq⟩ := h.before.exists_place hnamed
          rw [Named, ← heq] at hnamed hnamed'
          exact ⟨_, rfl, place, place, Continues.leads (.inl rfl), ⟨z, hplace⟩, hnamed, hnamed'⟩
  · left
    have hlays := h.before.lays hid h.refers.node
    obtain ⟨named, hxkind, hpointer⟩ := h.refers.named
    rw [hkind, hxkind] at hlays
    cases hlays with
    | ref hnamed =>
      rw [Named, ← hpointer] at hnamed
      exact ⟨t, p', .inr ⟨[], (List.append_nil t).symm, (List.append_nil p').symm⟩,
        ⟨y, h.refers.target⟩, hnamed, hid'⟩

/-- Types of which one leads where the other one does, but that are no references, are mirror
images. -/
theorem mirrored_of_isRef (h : Unfolds spec q t x y s s') (hid : Nodes (Leads q t) spec s s' id id')
    (hno : (s.descriptor id).kind.isRef = false) : Mirrored spec q t s s' id id' := by
  obtain ⟨p, p', hmirrors | ⟨rfl, rfl⟩, hz, hid, hid'⟩ := hid
  · exact ⟨p, p', hmirrors, hz, hid, hid'⟩
  · have hlays := h.before.lays hid h.refers.node
    obtain ⟨named, hxkind, -⟩ := h.refers.named
    rw [hxkind] at hlays
    generalize (s.descriptor id).kind = kind at hlays hno
    cases hlays
    exact nomatch hno

/-- Chains of references that end lead to mirror images. -/
theorem exists_ends (h : Unfolds spec q t x y s s') {n : Nat} (hends : s.Ends n id)
    (hid : Nodes (Leads q t) spec s s' id id') :
    ∃ n', s'.Ends n' id' ∧ Mirrored spec q t s s' (s.follow n id) (s'.follow n' id') := by
  induction n generalizing id id' with
  | zero =>
    have hmirrored := h.mirrored_of_isRef hid hends
    exact ⟨0, (h.kindsAlike hmirrored hends).isRef_eq.symm.trans hends, hmirrored⟩
  | succ n ih =>
    cases hkind : (s.descriptor id).kind with
    | ref target =>
      rw [Ends, follow_succ_of_ref hkind] at hends
      rw [follow_succ_of_ref hkind]
      rcases h.leads_of_ref hid hkind with ⟨p, p', hmirrors, hrest⟩ | ⟨target', hkind', htarget⟩
      · exact ih hends ⟨p, p', .inl hmirrors, hrest⟩
      · obtain ⟨n', hends', hmirrored⟩ := ih hends htarget
        refine ⟨n' + 1, ?_, ?_⟩
        · rwa [Ends, follow_succ_of_ref hkind']
        · rwa [follow_succ_of_ref hkind']
    | string | number | boolean | array | object | any =>
      have hno : (s.descriptor id).kind.isRef = false := by rw [hkind]; rfl
      have hlast : s.Ends n id := by rwa [Ends, follow_of_isRef hno]
      rw [hlast.follow_eq (Nat.le_succ n)]
      exact ih hlast hid

theorem resolve (h : Unfolds spec q t x y s s') (hs : s.WellFormed)
    (hid : Nodes (Leads q t) spec s s' id id') :
    Mirrored spec q t s s' (s.resolve id) (s'.resolve id') ∧ (s'.kind id').isRef = false := by
  obtain ⟨n', hends', hmirrored⟩ := h.exists_ends (hs.isRef_eq_false id) hid
  rw [kind, hends'.resolve_eq]
  exact ⟨hmirrored, hends'⟩

/-- Main statement: what comes from one another checks alike. -/
theorem simulates (h : Unfolds spec q t x y s s') (hs : s.WellFormed) :
    Simulates (Continued spec q t s s') s s' where
  presence_eq hid := by
    obtain ⟨p, p', hcontinues, ⟨z, hz⟩, hid, hid'⟩ := hid
    obtain ⟨z', hz', hpresence⟩ := h.refers.presence_eq hz hcontinues
    obtain ⟨type, htype, heq, -⟩ := h.before.type_of_place hid hz
    obtain ⟨type', htype', heq', -⟩ := h.after.type_of_place hid' hz'
    rw [presence, presence, descriptor_eq htype, descriptor_eq htype', heq, heq', hpresence]
  kinds hid := h.kindsAlike (h.resolve hs hid.leads).1 (hs.isRef_eq_false _)

/-- Every type of the unfolded schema comes from a type. -/
theorem exists_continued (h : Unfolds spec q t x y s s') (hid' : id' < s'.size) :
    ∃ id, Continued spec q t s s' id id' := by
  obtain ⟨p', z', hz', hpointer, -⟩ := h.after.draws _ (List.getElem_mem hid')
  obtain ⟨p, z, hcontinues, hz⟩ := h.refers.exists_continues hz'
  obtain ⟨id, hid⟩ := h.before.exists_id hz
  exact ⟨id, p, p', hcontinues, ⟨z, hz⟩, hid, _, List.getElem?_eq_getElem hid', hpointer⟩

end Unfolds

end Schema

end BoundView
