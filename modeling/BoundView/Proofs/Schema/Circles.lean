import BoundView.Proofs.Schema.Numbering
import BoundView.Proofs.Schema.Rounds
import Mathlib.Data.Finset.Card
import Mathlib.Logic.Relation

/-!
# Chains of references

What the references of a spec name, and where chains of them lead, is told by the places of the spec
alone.  Main statements: the spec can be linked just if every reference names a node that gets a
type, and then the search for circles finds one just if some chain of references comes back to where
it started.
-/

namespace BoundView

open Relation (TransGen ReflTransGen)

/-! ## References of a spec -/

def SpecKind.isRef : SpecKind → Bool
  | .ref _ => true
  | _ => false

namespace PropertySpec

/-- Whether the node at `p` is a reference, and names the node at `t`. -/
def RefersTo (spec : PropertySpec) (p t : SpecPlace) : Prop :=
  ∃ x target y, spec.node? p = some x ∧ x.kind = .ref target ∧ spec.node? t = some y
    ∧ t.pointer = Schema.normalizeTarget target

/-- Every reference names a node that gets a type. -/
def RefsNamed (spec : PropertySpec) : Prop :=
  ∀ p x target, spec.node? p = some x → x.kind = .ref target →
    ∃ t y, spec.node? t = some y ∧ t.pointer = Schema.normalizeTarget target

/-- Some chain of references comes back to where it started. -/
def Loops (spec : PropertySpec) : Prop :=
  ∃ p, TransGen spec.RefersTo p p

/-- Every chain of references leads to a node that is none. -/
def RefsEnd (spec : PropertySpec) : Prop :=
  ∀ p x, spec.node? p = some x →
    ∃ t y, ReflTransGen spec.RefersTo p t ∧ spec.node? t = some y ∧ y.kind.isRef = false

end PropertySpec

namespace Schema

variable {s : Schema} {id target : TypeId} {n : Nat}

/-! ## References of a schema -/

/-- Whether a type is a reference, and leads to the other one in one step. -/
def RefersTo (s : Schema) (id target : TypeId) : Prop :=
  (s.descriptor id).kind = .ref target

theorem RefersTo.lt_size (h : s.RefersTo id target) : id < s.size := by
  by_contra hle
  rw [RefersTo, descriptor_of_le s id (Nat.le_of_not_lt hle)] at h
  exact nomatch h

theorem isRef_eq_true : (s.descriptor id).kind.isRef = true ↔ ∃ target, s.RefersTo id target := by
  unfold RefersTo
  cases (s.descriptor id).kind with
  | ref target => exact iff_of_true rfl ⟨target, rfl⟩
  | string | number | boolean | array | object | any =>
    refine iff_of_false Bool.false_ne_true ?_
    rintro ⟨target, h⟩
    exact nomatch h

theorem reaches_follow (s : Schema) (n id : Nat) : ReflTransGen s.RefersTo id (s.follow n id) := by
  induction n generalizing id with
  | zero => exact .refl
  | succ n ih =>
    cases href : (s.descriptor id).kind.isRef with
    | false =>
      rw [follow_of_isRef href]
    | true =>
      obtain ⟨target, htarget⟩ := isRef_eq_true.1 href
      rw [follow_succ_of_ref htarget]
      exact .head htarget (ih target)

theorem Ends.isRef_kind (h : s.Ends n id) : (s.kind id).isRef = false := by
  rw [kind, h.resolve_eq]
  exact h

theorem exists_ends (h : ReflTransGen s.RefersTo id target)
    (hno : (s.descriptor target).kind.isRef = false) : ∃ n, s.Ends n id := by
  induction h using ReflTransGen.head_induction_on with
  | refl => exact ⟨0, hno⟩
  | head hto _ ih =>
    obtain ⟨n, hn⟩ := ih
    exact ⟨n + 1, by rwa [Ends, follow_succ_of_ref hto]⟩

/-- Further along a chain less of it is left. -/
theorem Ends.of_transGen (h : s.Ends n id) (hto : TransGen s.RefersTo id target) :
    ∃ m < n, s.Ends m target := by
  have hstep : ∀ {n id target}, s.Ends n id → s.RefersTo id target →
      ∃ m < n, s.Ends m target := by
    intro n id target h hto
    cases n with
    | zero =>
      rw [Ends, follow, hto] at h
      cases h
    | succ n =>
      rw [Ends, follow_succ_of_ref hto] at h
      exact ⟨n, Nat.lt_succ_self n, h⟩
  induction hto with
  | single hto => exact hstep h hto
  | tail _ hto ih =>
    obtain ⟨m, hm, hends⟩ := ih
    obtain ⟨k, hk, hends⟩ := hstep hends hto
    exact ⟨k, Nat.lt_trans hk hm, hends⟩

theorem Ends.not_loop (h : s.Ends n id) : ¬TransGen s.RefersTo id id := by
  induction n using Nat.strong_induction_on with
  | _ n ih =>
    intro hloop
    obtain ⟨m, hm, hends⟩ := h.of_transGen hloop
    exact ih m hm hends hloop

/-- A chain that never ends comes by some type twice, since there are only so many. -/
theorem exists_loop (hrefs : ∀ type ∈ s.types, ∀ target, type.kind = .ref target → target < s.size)
    (h : (s.kind id).isRef = true) : ∃ id, TransGen s.RefersTo id id := by
  have hno : ∀ n, (s.descriptor (s.follow n id)).kind.isRef = true := by
    intro n
    by_contra hends
    have hkind := Ends.isRef_kind (n := n) (Bool.eq_false_iff.2 hends)
    exact Bool.false_ne_true (hkind.symm.trans h)
  have hstep : ∀ n, s.RefersTo (s.follow n id) (s.follow (n + 1) id) := by
    intro n
    obtain ⟨target, htarget⟩ := isRef_eq_true.1 (hno n)
    rwa [follow_succ, follow_succ_of_ref htarget]
  have hid : id < s.size := (hstep 0).lt_size
  -- Of the first `s.size + 1` types of the chain two are the same.
  have hmaps : ∀ n ∈ Finset.range (s.size + 1), s.follow n id ∈ Finset.range s.size :=
    fun n _ => Finset.mem_range.2 (follow_lt hrefs n id hid)
  have hcard : (Finset.range s.size).card < (Finset.range (s.size + 1)).card := by
    rw [Finset.card_range, Finset.card_range]
    exact Nat.lt_succ_self _
  obtain ⟨i, -, j, -, hne, heq⟩ := Finset.exists_ne_map_eq_of_card_lt_of_maps_to hcard hmaps
  have hchain : ∀ i k, TransGen s.RefersTo (s.follow i id) (s.follow (i + k + 1) id) := by
    intro i k
    induction k with
    | zero => exact .single (hstep i)
    | succ k ih => exact ih.tail (hstep (i + k + 1))
  rcases Nat.lt_or_gt_of_ne hne with hlt | hlt
  · obtain ⟨k, rfl⟩ := Nat.exists_eq_add_of_lt hlt
    exact ⟨s.follow i id, heq.symm ▸ hchain i k⟩
  · obtain ⟨k, rfl⟩ := Nat.exists_eq_add_of_lt hlt
    exact ⟨s.follow j id, heq ▸ hchain j k⟩

theorem exists_isRef_iff
    (hrefs : ∀ type ∈ s.types, ∀ target, type.kind = .ref target → target < s.size) :
    (∃ id, (s.kind id).isRef = true) ↔ ∃ id, TransGen s.RefersTo id id := by
  constructor
  · rintro ⟨id, hid⟩
    exact exists_loop hrefs hid
  · rintro ⟨id, hloop⟩
    refine ⟨id, ?_⟩
    by_contra hends
    have hends : s.Ends (s.size + 1) id := Bool.eq_false_iff.2 hends
    exact hends.not_loop hloop

/-! ## Chains of a spec and of its schema -/

theorem Lays.isRef_eq {types : List (TypeDescriptor TypeId)} {names : String → TypeId → Prop}
    {pointer : String} {k : SpecKind} {kind : TypeKind TypeId}
    (h : Lays types names pointer k kind) : kind.isRef = k.isRef := by
  cases h <;> rfl

namespace Drawn

variable {spec : PropertySpec} {p t : SpecPlace}

theorem exists_node (h : Drawn s.types (Named s.types) spec) (hid : id < s.size) :
    ∃ p x, spec.node? p = some x ∧ PointsTo s.types id p.pointer := by
  obtain ⟨p, x, hx, hpointer, -⟩ := h.draws _ (List.getElem_mem hid)
  exact ⟨p, x, hx, _, List.getElem?_eq_getElem hid, hpointer⟩

/-- A type has the pointer of one place only. -/
theorem place_unique (hid : PointsTo s.types id p.pointer) (hid' : PointsTo s.types id t.pointer) :
    p = t := by
  obtain ⟨type, htype, hpointer⟩ := hid
  obtain ⟨type', htype', hpointer'⟩ := hid'
  obtain rfl := Option.some.inj (htype.symm.trans htype')
  exact SpecPlace.pointer_injective (hpointer.symm.trans hpointer')

theorem refersTo (h : Drawn s.types (Named s.types) spec) (hid : PointsTo s.types id p.pointer)
    (hto : spec.RefersTo p t) :
    ∃ target, s.RefersTo id target ∧ PointsTo s.types target t.pointer := by
  obtain ⟨x, named, y, hx, hkind, -, hpointer⟩ := hto
  have hlays := h.lays hid hx
  unfold RefersTo
  rw [hkind] at hlays
  generalize (s.descriptor id).kind = kind at hlays ⊢
  cases hlays with
  | ref hnamed => exact ⟨_, rfl, hpointer ▸ hnamed⟩

theorem exists_refersTo (h : Drawn s.types (Named s.types) spec)
    (hid : PointsTo s.types id p.pointer) (hto : s.RefersTo id target) :
    ∃ t, spec.RefersTo p t ∧ PointsTo s.types target t.pointer := by
  obtain ⟨p', x, hx, hpointer⟩ := h.exists_place hid
  obtain rfl := SpecPlace.pointer_injective hpointer
  have hlays := h.lays hid hx
  rw [hto] at hlays
  generalize hkind : x.kind = kind at hlays
  cases hlays with
  | ref hnamed =>
    obtain ⟨t, y, hy, htarget⟩ := h.exists_place hnamed
    exact ⟨t, ⟨x, _, y, hx, hkind, hy, htarget⟩, htarget ▸ hnamed⟩

theorem reaches (h : Drawn s.types (Named s.types) spec) (hid : PointsTo s.types id p.pointer)
    (hto : ReflTransGen spec.RefersTo p t) :
    ∃ target, ReflTransGen s.RefersTo id target ∧ PointsTo s.types target t.pointer := by
  induction hto with
  | refl => exact ⟨id, .refl, hid⟩
  | tail _ hto ih =>
    obtain ⟨middle, hreaches, hmiddle⟩ := ih
    obtain ⟨target, hnext, htarget⟩ := h.refersTo hmiddle hto
    exact ⟨target, hreaches.tail hnext, htarget⟩

theorem exists_reaches (h : Drawn s.types (Named s.types) spec)
    (hid : PointsTo s.types id p.pointer) (hto : ReflTransGen s.RefersTo id target) :
    ∃ t, ReflTransGen spec.RefersTo p t ∧ PointsTo s.types target t.pointer := by
  induction hto with
  | refl => exact ⟨p, .refl, hid⟩
  | tail _ hto ih =>
    obtain ⟨middle, hreaches, hmiddle⟩ := ih
    obtain ⟨t, hnext, ht⟩ := h.exists_refersTo hmiddle hto
    exact ⟨t, hreaches.tail hnext, ht⟩

/-- References run in a circle in the spec just if they do so in the schema. -/
theorem loops_iff (h : Drawn s.types (Named s.types) spec)
    (hnodup : (s.types.map TypeDescriptor.pointer).Nodup) :
    spec.Loops ↔ ∃ id, TransGen s.RefersTo id id := by
  constructor
  · rintro ⟨p, hloop⟩
    -- The first step says that there is a node at `p` at all.
    obtain ⟨t, hto, hback⟩ := TransGen.head'_iff.1 hloop
    obtain ⟨x, -, -, hx, -⟩ := id hto
    obtain ⟨id, hid⟩ := h.exists_id hx
    obtain ⟨middle, hnext, hmiddle⟩ := h.refersTo hid hto
    obtain ⟨last, hreaches, hlast⟩ := h.reaches hmiddle hback
    -- Back at the place it started from, the chain is back at the type, too.
    obtain rfl := hlast.inj hnodup hid
    exact ⟨last, TransGen.head'_iff.2 ⟨middle, hnext, hreaches⟩⟩
  · rintro ⟨id, hloop⟩
    obtain ⟨middle, hto, hback⟩ := TransGen.head'_iff.1 hloop
    obtain ⟨p, -, -, hid⟩ := h.exists_node hto.lt_size
    obtain ⟨t, hnext, ht⟩ := h.exists_refersTo hid hto
    obtain ⟨last, hreaches, hlast⟩ := h.exists_reaches ht hback
    obtain rfl := place_unique hlast hid
    exact ⟨last, TransGen.head'_iff.2 ⟨t, hnext, hreaches⟩⟩

end Drawn

/-! ## Linking and the search for circles -/

variable {spec : PropertySpec}

theorem drawn_of_link (hspec : spec.Distinct) (hlink : (layOut "#" 0 spec).link = .ok s) :
    Drawn s.types (Named s.types) spec :=
  (link_drawn (layOut_drawn hspec) hlink).2

theorem nodup_pointers_of_link (hspec : spec.Distinct)
    (hlink : (layOut "#" 0 spec).link = .ok s) :
    (s.types.map TypeDescriptor.pointer).Nodup := by
  obtain ⟨types, hmap, h⟩ := Outcome.bind_eq_ok.1 hlink
  obtain rfl := Except.ok.inj h
  have hlinked : Linked (layOut "#" 0 spec) ⟨types, 0⟩ := Outcome.mapM_eq_ok hmap
  rw [hlinked.pointers_eq]
  exact nodup_pointers hspec

/-- Every type that a linked schema mentions is one of its types. -/
theorem lt_size_of_link (hspec : spec.Distinct) (hlink : (layOut "#" 0 spec).link = .ok s) :
    s.root < s.size ∧ ∀ type ∈ s.types, (∀ part ∈ type.kind.parts, part < s.size)
      ∧ ∀ target, type.kind = .ref target → target < s.size := by
  obtain ⟨hpos, htidy⟩ := layOut_tidy "#" 0 spec hspec
  rw [Nat.zero_add] at htidy
  obtain ⟨hroot, hsize, htypes⟩ := link_eq_ok htidy hlink
  refine ⟨hroot ▸ hsize ▸ hpos, fun type htype => ?_⟩
  obtain ⟨⟨hparts, -⟩, hrefs⟩ := htypes type htype
  exact ⟨fun part hpart => (hparts part hpart).2, hrefs⟩

/-- A spec can be linked just if all its references name nodes. -/
theorem exists_link_iff (hspec : spec.Distinct) :
    (∃ s, (layOut "#" 0 spec).link = .ok s) ↔ spec.RefsNamed := by
  constructor
  · rintro ⟨s, hlink⟩ p x target hx hkind
    exact exists_target (drawn_of_link hspec hlink) hx hkind
  · intro hnamed
    have hdraft := layOut_drawn hspec
    refine exists_link fun type htype target hkind => ?_
    obtain ⟨p, x, hx, -, -, hlays⟩ := hdraft.draws type htype
    rw [hkind] at hlays
    generalize hx' : x.kind = kind at hlays
    cases hlays with
    | ref heq =>
      obtain ⟨t, y, hy, hpointer⟩ := hnamed p x target hx (hx'.trans (congrArg _ heq))
      obtain ⟨id, hid⟩ := hdraft.exists_id hy
      exact ⟨id, by rwa [Named, ← hpointer]⟩

/-- The search for circles finds one just if there is one. -/
theorem firstCircular?_eq_none_iff_loops (hspec : spec.Distinct)
    (hlink : (layOut "#" 0 spec).link = .ok s) : s.firstCircular? = none ↔ ¬spec.Loops := by
  have hloops := (drawn_of_link hspec hlink).loops_iff (nodup_pointers_of_link hspec hlink)
  have hrefs := fun type htype => ((lt_size_of_link hspec hlink).2 type htype).2
  rw [firstCircular?_eq_none, hloops, ← exists_isRef_iff hrefs, not_exists]
  exact forall_congr' fun id => Bool.eq_false_iff

theorem firstCircular?_eq_none_iff_refsEnd (hspec : spec.Distinct)
    (hlink : (layOut "#" 0 spec).link = .ok s) : s.firstCircular? = none ↔ spec.RefsEnd := by
  have hdrawn := drawn_of_link hspec hlink
  rw [firstCircular?_eq_none]
  constructor
  · intro h p x hx
    obtain ⟨id, hid⟩ := hdrawn.exists_id hx
    obtain ⟨t, hreaches, ht⟩ := hdrawn.exists_reaches hid (s.reaches_follow (s.size + 1) id)
    obtain ⟨t', y, hy, hpointer⟩ := hdrawn.exists_place ht
    obtain rfl := SpecPlace.pointer_injective hpointer
    exact ⟨t', y, hreaches, hy, (hdrawn.lays ht hy).isRef_eq.symm.trans (h id)⟩
  · intro h id
    by_cases hid : id < s.size
    · obtain ⟨p, x, hx, hpoints⟩ := hdrawn.exists_node hid
      obtain ⟨t, y, hreaches, hy, hno⟩ := h p x hx
      obtain ⟨target, hto, htarget⟩ := hdrawn.reaches hpoints hreaches
      obtain ⟨n, hn⟩ := exists_ends hto ((hdrawn.lays htarget hy).isRef_eq.trans hno)
      exact hn.isRef_kind
    · rw [kind_of_le s id (Nat.le_of_not_lt hid)]
      rfl

end Schema

end BoundView
