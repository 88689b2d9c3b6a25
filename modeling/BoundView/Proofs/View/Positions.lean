import BoundView.Proofs.View.FlushOrder
import BoundView.Proofs.View.ItemScopes
import BoundView.Proofs.View.Marks
import BoundView.Proofs.View.Rows

/-!
# Items by position

A flush that renders a collection again keeps the item at each position where the value is the same
as before, makes a new one at each other position, and drops whatever is left over.
-/

namespace BoundView

open Interpreter (itemContext)
open Relation (ReflTransGen)

namespace Stage

/-! ## Items -/

/-- Whether an item can be told to be the same as before: what its collection sees, and what it is
shown by, equals itself. -/
def Recognizes (ctx : Context) (template : ViewNode) : Prop :=
  ctx.Steady ∧ (template == template) = true

/-- The items of a collection, by their positions. -/
def items (s : Stage) (id : BoundaryId) : List BoundaryId :=
  (s.children id).filter fun c => (s.boundary? c).map Boundary.role = some .item

/-- The value that an item shows. -/
def shown (s : Stage) (item : BoundaryId) : Value :=
  ((s.boundary? item).bind fun b => Members.find? "$self" b.context).getD .undefined

variable {s s' : Stage} {id item c : BoundaryId} {ctx : Context} {source template : ViewNode}
  {heads items : List BoundaryId} {value : Value} {i : Nat}

theorem shown_of_place? {parent? : Option BoundaryId}
    (h : s.place? item = some ⟨.item, template, itemContext ctx value i, parent?⟩) :
    s.shown item = value := by
  obtain ⟨b, hb, hplace⟩ := exists_boundary? h
  have hcontext : b.context = itemContext ctx value i := congrArg Place.context hplace
  rw [shown, hb, Option.bind_some, hcontext, Context.find?_itemContext_self]
  rfl

/-- An item of a collection sees its value and its position. -/
theorem Row.place?_item (h : s.Row id ctx source template heads items)
    (hi : items[i]? = some item) :
    s.place? item = some ⟨.item, template, itemContext ctx (s.shown item) i, some id⟩ := by
  obtain ⟨value, hplace⟩ := h.item i item hi
  rw [shown_of_place? hplace]
  exact hplace

theorem role_of_place? {p : Place} (h : s.place? c = some p) :
    (s.boundary? c).map Boundary.role = some p.role := by
  obtain ⟨b, hb, rfl⟩ := exists_boundary? h
  rw [hb]
  rfl

/-- The items of a collection stand behind what its source stands for. -/
theorem Row.items_eq (h : s.Row id ctx source template heads items) {b : Boundary}
    (hb : s.boundary? id = some b) (hsplit : b.children = heads ++ items) : s.items id = items := by
  have hchildren : s.children id = heads ++ items := by
    rw [children, hb]
    exact hsplit
  have hheads : ∀ c ∈ heads, ¬decide ((s.boundary? c).map Boundary.role = some .item) = true := by
    intro c hc
    obtain ⟨p, hp, hrole⟩ := h.head c hc
    rw [decide_eq_true_eq, role_of_place? hp]
    exact fun heq => hrole (Option.some.inj heq)
  have hitems : ∀ c ∈ items, decide ((s.boundary? c).map Boundary.role = some .item) = true := by
    intro c hc
    obtain ⟨i, hi⟩ := List.mem_iff_getElem?.1 hc
    rw [decide_eq_true_eq, role_of_place? (h.place?_item hi)]
  rw [Stage.items, hchildren, List.filter_append, List.filter_eq_nil_iff.2 hheads,
    List.filter_eq_self.2 hitems, List.nil_append]

/-- An item shows what is asked for at its position just if it shows the value and items can be told
to be the same. -/
theorem Row.shows_item (h : s.Row id ctx source template heads items)
    (hnames : (ctx.map Prod.fst).Nodup) (hi : items[i]? = some item) :
    s.shows .item template (itemContext ctx value i) item = true
      ↔ (s.shown item == value) = true ∧ Recognizes ctx template := by
  rw [Recorded.shows_iff, Recognizes, ← and_assoc, ← Context.beq_itemContext_iff hnames]
  have hplace := h.place?_item hi
  constructor
  · rintro ⟨p, hp, -, htemplate, hbeq⟩
    obtain rfl := Option.some.inj (hplace.symm.trans hp)
    exact ⟨hbeq, htemplate⟩
  · exact fun ⟨hbeq, htemplate⟩ => ⟨_, hplace, rfl, htemplate, hbeq⟩

/-- The answer to what a collection asks for at a position is the item there if that shows the value
and can be told to be the same, and otherwise a new boundary. -/
theorem Row.answered (h : s.Row id ctx source template heads items)
    (hnames : (ctx.map Prod.fst).Nodup)
    (hanswers : Recorded.Answers s s' (some id) items[i]?
      ⟨.item, template, itemContext ctx value i⟩ c) :
    (items[i]? = some c ∧ (s.shown c == value) = true ∧ Recognizes ctx template)
      ∨ (∀ item, items[i]? = some item →
          ¬((s.shown item == value) = true ∧ Recognizes ctx template))
        ∧ s.lastId < c
        ∧ s'.place? c = some ⟨.item, template, itemContext ctx value i, some id⟩ := by
  rcases hanswers with hkept | ⟨hnone, hnew⟩
  · obtain ⟨hi, hshows⟩ := Option.filter_eq_some_iff.1 hkept
    exact .inl ⟨hi, (h.shows_item hnames hi).1 hshows⟩
  · refine .inr ⟨fun item hi hsame => ?_, hnew⟩
    rw [hi, Option.filter_eq_none_iff] at hnone
    exact hnone item rfl ((h.shows_item hnames hi).2 hsame)

theorem Row.isMounted (h : s.Row id ctx source template heads items) (hc : c ∈ items) :
    s.isMounted c = true := by
  obtain ⟨i, hi⟩ := List.mem_iff_getElem?.1 hc
  exact isMounted_iff_place?.2 ⟨_, h.place?_item hi⟩

/-- A row stays where it is while its collection is left alone. -/
theorem Row.keep (h : s.Row id ctx source template heads items) (hs : s.Linked)
    (hkeeps : Keeps s s')
    {b : Boundary} (hb' : s'.boundary? id = some b) (hsplit : b.children = heads ++ items) :
    s'.Row id ctx source template heads items := by
  refine h.carry fun c hc p hp => ?_
  have hle := le_of_place? hs.bounded hp
  exact hkeeps.orderly.place?_child hb' (hsplit ▸ hc) (fun p => hkeeps.place? c p hle) hp

variable {heads' items' : List BoundaryId}

/-- An item shows the same as long as it is there. -/
theorem Row.shown_eq (h : s.Row id ctx source template heads items)
    (h' : s'.Row id ctx source template heads' items') (hs : s.Bounded) (hkeeps : Keeps s s')
    (hc : c ∈ items) (hc' : c ∈ items') : s'.shown c = s.shown c := by
  obtain ⟨i, hi⟩ := List.mem_iff_getElem?.1 hc
  obtain ⟨j, hj⟩ := List.mem_iff_getElem?.1 hc'
  have hle := le_of_place? hs (h.place?_item hi)
  exact (shown_of_place? (hkeeps.place? c _ hle (h'.place?_item hj))).symm

/-! ## Boundaries that are gone -/

/-- Whatever was beneath a boundary that is gone is gone as well, with its subscriptions. -/
theorem Keeps.gone (hs : s.Orderly) (hkeeps : Keeps s s') (hmounted : s.isMounted item = true)
    (hgone : s'.isMounted item = false) (hbeneath : ReflTransGen (ParentOf s s) item c) :
    s'.isMounted c = false ∧ ¬s'.Holds c := by
  have hboth : s.isMounted c = true ∧ s'.isMounted c = false := by
    induction hbeneath with
    | refl => exact ⟨hmounted, hgone⟩
    | @tail parent c _ h ih =>
      obtain ⟨b, hb, hparent⟩ := h
      have hb : s.boundary? c = some b := hb.elim id id
      refine ⟨isMounted_of_boundary? hb, Bool.eq_false_iff.2 fun hc => ?_⟩
      obtain ⟨p, hp⟩ := isMounted_iff_place?.1 hc
      have hp' := hkeeps.place? c p (hs.bounded c b hb) hp
      obtain rfl := Option.some.inj (hp'.symm.trans (place?_of_boundary? hb))
      -- Its parent would be mounted as well.
      obtain ⟨b', hb', -⟩ := hkeeps.orderly.listed c _ parent hp hparent
      exact Bool.eq_false_iff.1 ih.2 (isMounted_of_boundary? hb')
  refine ⟨hboth.2, fun hholds => ?_⟩
  rcases hkeeps.holds c hholds with hc | ⟨-, hc⟩
  · exact Bool.eq_false_iff.1 hboth.2 hc
  · exact Bool.eq_false_iff.1 hc hboth.1

/-- A child that is not listed any more is gone. -/
theorem Keeps.gone_of_not_listed (hs : s.Orderly) (hkeeps : Keeps s s') {p : Place}
    (hp : s.place? c = some p) (hparent : p.parent? = some id)
    (hnot : ∀ b, s'.boundary? id = some b → c ∉ b.children) : s'.isMounted c = false := by
  refine Bool.eq_false_iff.2 fun hc => ?_
  obtain ⟨p', hp'⟩ := isMounted_iff_place?.1 hc
  have hle := le_of_place? hs.bounded hp
  obtain rfl := Option.some.inj ((hkeeps.place? c p' hle hp').symm.trans hp)
  obtain ⟨b', hb', hmem⟩ := hkeeps.orderly.listed c p' id hp' hparent
  exact hnot b' hb' hmem

/-- An item that does not stand in the new row is gone. -/
theorem Row.gone (h : s.Row id ctx source template heads items)
    (h' : s'.Row id ctx source template heads' items') (hs : s.Orderly) (hkeeps : Keeps s s')
    {b' : Boundary} (hb' : s'.boundary? id = some b') (hsplit' : b'.children = heads' ++ items')
    (hitem : item ∈ items) (hnot : item ∉ items') : s'.isMounted item = false := by
  obtain ⟨i, hi⟩ := List.mem_iff_getElem?.1 hitem
  have hplace := h.place?_item hi
  refine hkeeps.gone_of_not_listed hs hplace rfl fun b hb hmem => ?_
  obtain rfl := Option.some.inj (hb'.symm.trans hb)
  rcases List.mem_append.1 (hsplit' ▸ hmem) with hhead | hitem'
  -- No head of the new row has been an item.
  · obtain ⟨p, hp, hrole⟩ := h'.head item hhead
    have hp' := hkeeps.place? item p (le_of_place? hs.bounded hplace) hp
    obtain rfl := Option.some.inj (hplace.symm.trans hp')
    exact hrole rfl
  · exact hnot hitem'

end Stage

open Stage

/-! ## Boundaries that are left alone -/

namespace Recorded

variable {s : Stage} {id c : BoundaryId} {b : Boundary} (v : Interpreter)

/-- What boundaries that are rendered again leave alone. -/
structure Spares (s s' : Stage) (ids : List BoundaryId) : Prop extends Keeps s s' where
  models_eq : s'.live.models = s.live.models
  boundary? : ∀ c b, c ≤ s.lastId → c ∉ ids → s'.boundary? c = some b → s.boundary? c = some b

theorem Spares.trans {s₁ s₂ : Stage} {ids : List BoundaryId} (h : Spares s s₁ ids)
    (h' : Spares s₁ s₂ ids) : Spares s s₂ ids where
  toKeeps := h.toKeeps.trans h'.toKeeps
  models_eq := h'.models_eq.trans h.models_eq
  boundary? c b hc hnot hb :=
    h.boundary? c b hc hnot (h'.boundary? c b (Nat.le_trans hc h.lastId_le) hnot hb)

theorem rerender_spares {ids : List BoundaryId} (hs : s.Orderly) (hb : s.boundary? id = some b)
    (hid : id ∈ ids) : Spares s ((rerender v id).run s none).stage ids := by
  obtain ⟨kids, reads, out, hgrown, -, hclosed⟩ := rerender_closed v hs hb
  refine ⟨(rerender_renewed v hs hb).toKeeps, hclosed.models_eq.trans hgrown.sprouts.models_eq,
    fun c b' hc hnot hb' => ?_⟩
  have hne : c ≠ id := fun heq => hnot (heq ▸ hid)
  rcases (hgrown.regrown hs hb).old_or_new hne (hclosed.left c b' hne hb').1 with ⟨hold, -⟩ | hnew
  · exact hold
  · exact absurd hnew (Nat.not_lt_of_le hc)

theorem rerenderAll_spares (ids : List BoundaryId) (hs : s.Orderly) :
    Spares s ((rerenderAll v ids).run s none).stage ids :=
  rerenderAll_induction (P := fun s' => Spares s s' ids) v hs
    ⟨.refl hs, rfl, fun _ _ _ _ hb => hb⟩ fun _ _ _ hmem hs₁ hb hspares =>
      hspares.trans (rerender_spares v hs₁ hb hmem)

theorem stage_rerenderAll_append (earlier later : List BoundaryId) :
    ((rerenderAll v (earlier ++ later)).run s none).stage
      = ((rerenderAll v later).run ((rerenderAll v earlier).run s none).stage none).stage := by
  induction earlier generalizing s with
  | nil => rfl
  | cons id rest ih =>
    rw [List.cons_append]
    cases hb : s.boundary? id with
    | none =>
      have hid := isMounted_eq_false hb
      rw [(rerenderAll_cons_of_unmounted v (rest ++ later) hid).1,
        (rerenderAll_cons_of_unmounted v rest hid).1]
      exact ih
    | some b =>
      rw [stage_rerenderAll_cons v (rest ++ later) hb, stage_rerenderAll_cons v rest hb]
      exact ih

/-- A boundary that is left was rendered again at its turn, and left alone before and after that. -/
theorem rerenderAll_turn {ids : List BoundaryId} (hs : s.Orderly) (hnodup : ids.Nodup)
    (hmem : id ∈ ids) (hb : s.boundary? id = some b)
    (hmounted : ((rerenderAll v ids).run s none).stage.isMounted id = true) :
    ∃ s₁, Keeps s s₁ ∧ s₁.live.models = s.live.models ∧ s₁.boundary? id = some b
      ∧ let s₂ := ((rerender v id).run s₁ none).stage
        let s' := ((rerenderAll v ids).run s none).stage
        Keeps s₂ s' ∧ s'.boundary? id = s₂.boundary? id := by
  obtain ⟨earlier, later, rfl⟩ := List.append_of_mem hmem
  obtain ⟨-, hlater, hdisjoint⟩ := List.nodup_append.1 hnodup
  have hnotEarlier : id ∉ earlier := fun h => hdisjoint id h id List.mem_cons_self rfl
  have hnotLater : id ∉ later := (List.nodup_cons.1 hlater).1
  have hid := hs.bounded id b hb
  -- Those in front of it leave its record as it is: it was mounted then, for it still is.
  have hbefore := rerenderAll_spares v earlier hs
  rw [stage_rerenderAll_append v earlier _] at hmounted ⊢
  generalize ((rerenderAll v earlier).run s none).stage = s₁ at hbefore hmounted ⊢
  have hs₁ := hbefore.orderly
  have hid₁ := Nat.le_trans hid hbefore.lastId_le
  have hb₁ : s₁.boundary? id = some b := by
    have hmounted₁ := (rerenderAll_spares v (id :: later) hs₁).toKeeps.isMounted hid₁ hmounted
    obtain ⟨b₁, hb₁⟩ := exists_of_isMounted hmounted₁
    rw [hb₁, ← hb]
    exact (hbefore.boundary? id b₁ hid hnotEarlier hb₁).symm
  rw [stage_rerenderAll_cons v later hb₁] at hmounted ⊢
  have hrenewed := rerender_renewed v hs₁ hb₁
  -- Those behind it do not come back to it, since nobody is marked twice.
  have hafter := rerenderAll_spares v later hrenewed.orderly
  obtain ⟨b', hb'⟩ := exists_of_isMounted hmounted
  refine ⟨s₁, hbefore.toKeeps, hbefore.models_eq, hb₁, hafter.toKeeps, hb'.trans ?_⟩
  exact (hafter.boundary? id b' (Nat.le_trans hid₁ hrenewed.lastId_le) hnotLater hb').symm

/-- In a flush each item of a collection that is rendered again is the former one at its position,
if that shows the same value and can be told to be the same, and otherwise a new one. -/
theorem rerenderAll_row {ids : List BoundaryId} {source template : ViewNode}
    {heads items : List BoundaryId} (hs : s.Orderly) (hnodup : ids.Nodup) (hmem : id ∈ ids)
    (hb : s.boundary? id = some b) (hrole : b.role = .collection)
    (hnode : b.node = .collection source template) (hnames : (b.context.map Prod.fst).Nodup)
    (hsplit : b.children = heads ++ items) (hrow : s.Row id b.context source template heads items)
    (hmounted : ((rerenderAll v ids).run s none).stage.isMounted id = true) :
    let s' := ((rerenderAll v ids).run s none).stage
    let values := v.valuesOf s.live.models b.context source
    ∃ b' heads' items', s'.boundary? id = some b' ∧ b'.children = heads' ++ items'
      ∧ s'.Row id b.context source template heads' items' ∧ items'.length = values.length
      ∧ ∀ (i : Nat) (c : BoundaryId) (value : Value), items'[i]? = some c →
        values[i]? = some value →
          (items[i]? = some c ∧ (s.shown c == value) = true ∧ Recognizes b.context template)
          ∨ (∀ item, items[i]? = some item →
              ¬((s.shown item == value) = true ∧ Recognizes b.context template))
            ∧ s.lastId < c ∧ s'.shown c = value := by
  intro s' values
  obtain ⟨s₁, hbefore, hmodels, hb₁, hafter, hsame⟩ :=
    rerenderAll_turn v hs hnodup hmem hb hmounted
  have hs₁ := hbefore.orderly
  have hs₂ := (rerender_renewed v hs₁ hb₁).orderly
  have hrow₁ := hrow.keep hs.toLinked hbefore hb₁ hsplit
  obtain ⟨b₂, heads', items', hb₂, -, hsplit', hrow₂, hlength, hanswers⟩ :=
    rerender_row v hs₁ hb₁ hrole hnode hsplit hrow₁
  rw [hmodels] at hlength hanswers
  have hb' := hsame.trans hb₂
  have hrow' := hrow₂.keep hs₂.toLinked hafter hb' hsplit'
  -- What an item shows does not depend on when it is looked at.
  have hshown : ∀ item ∈ items, s₁.shown item = s.shown item := fun item hitem =>
    hrow.shown_eq hrow₁ hs.bounded hbefore hitem hitem
  refine ⟨b₂, heads', items', hb', hsplit', hrow', hlength, fun i c value hc hvalue => ?_⟩
  rcases hrow₁.answered hnames (hanswers i c value hc hvalue) with ⟨hi, hsame⟩
    | ⟨hnone, hlt, hplace⟩
  · rw [hshown c (List.mem_of_getElem? hi)] at hsame
    exact .inl ⟨hi, hsame⟩
  · refine .inr ⟨fun item hi => ?_, Nat.lt_of_le_of_lt hbefore.lastId_le hlt, ?_⟩
    · rw [← hshown item (List.mem_of_getElem? hi)]
      exact hnone item hi
    · have hitem := List.mem_of_getElem? hc
      exact (hrow₂.shown_eq hrow' hs₂.bounded hafter hitem hitem).trans (shown_of_place? hplace)

end Recorded

namespace ViewNode

/-- What a collection goes through. -/
def source? : ViewNode → Option ViewNode
  | .collection source _ => some source
  | _ => none

/-- What a collection shows each of its values by. -/
def template? : ViewNode → Option ViewNode
  | .collection _ template => some template
  | _ => none

end ViewNode

namespace Stage

/-- What a flush makes of the items of a collection whose source stands for these values: an item
is kept just if it shows the value at its position, and items are recognized. -/
structure Reused (before after : Stage) (id : BoundaryId) (values : List Value)
    (recognizes : Prop) : Prop where
  length_eq : (after.items id).length = values.length
  kept_iff : ∀ (i : Nat) (item : BoundaryId) (value : Value), (before.items id)[i]? = some item →
    values[i]? = some value →
      ((after.items id)[i]? = some item ↔ (before.shown item == value) = true ∧ recognizes)
  kept_or_made : ∀ (i : Nat) (item : BoundaryId) (value : Value),
    (after.items id)[i]? = some item → values[i]? = some value →
      (before.items id)[i]? = some item ∨ before.lastId < item ∧ after.shown item = value
  rendered : ∀ item ∈ before.items id, item ∈ after.items id →
    after.renders item ≠ before.renders item → item ∈ before.live.observers.pending
  gone : ∀ item ∈ before.items id, item ∉ after.items id →
    ∀ c, ReflTransGen (ParentOf before before) item c →
      after.isMounted c = false ∧ ¬after.Holds c

/-- The items of a collection whose source stands for these values are kept where their values are
the same, and made where they are not. -/
structure Matched (before after : Stage) (id : BoundaryId) (values : List Value) : Prop where
  length_eq : (after.items id).length = values.length
  kept : ∀ (i : Nat) (item : BoundaryId) (value : Value), (before.items id)[i]? = some item →
    values[i]? = some value → (before.shown item == value) = true →
      (after.items id)[i]? = some item
  made : ∀ (i : Nat) (item : BoundaryId) (value : Value), (after.items id)[i]? = some item →
    values[i]? = some value →
      (∀ former, (before.items id)[i]? = some former → (before.shown former == value) = false) →
        before.lastId < item ∧ after.shown item = value
  rendered : ∀ item ∈ before.items id, item ∈ after.items id →
    after.renders item ≠ before.renders item → item ∈ before.live.observers.pending
  gone : ∀ item ∈ before.items id, item ∉ after.items id →
    ∀ c, ReflTransGen (ParentOf before before) item c →
      after.isMounted c = false ∧ ¬after.Holds c

section

variable {before after : Stage} {id : BoundaryId} {values : List Value} {recognizes : Prop}

/-- Where nothing is to be kept, nothing needs to be recognized. -/
theorem Reused.matched_iff (h : Reused before after id values recognizes) :
    Matched before after id values ↔ recognizes
      ∨ ∀ (i : Nat) (item : BoundaryId) (value : Value), (before.items id)[i]? = some item →
        values[i]? = some value → (before.shown item == value) = false := by
  constructor
  · intro hmatched
    by_cases hrecognizes : recognizes
    · exact .inl hrecognizes
    refine .inr fun i item value hi hvalue => Bool.eq_false_iff.2 fun hbeq => hrecognizes ?_
    exact ((h.kept_iff i item value hi hvalue).1 (hmatched.kept i item value hi hvalue hbeq)).2
  · intro hor
    refine ⟨h.length_eq, fun i item value hi hvalue hbeq => ?_,
      fun i item value hi hvalue hne => ?_, h.rendered, h.gone⟩
    · rcases hor with hrecognizes | hnone
      · exact (h.kept_iff i item value hi hvalue).2 ⟨hbeq, hrecognizes⟩
      · exact absurd hbeq (Bool.eq_false_iff.1 (hnone i item value hi hvalue))
    · rcases h.kept_or_made i item value hi hvalue with hformer | hnew
      · have hbeq := ((h.kept_iff i item value hformer hvalue).1 hi).1
        exact absurd hbeq (Bool.eq_false_iff.1 (hne item hformer))
      · exact hnew

end

/-- A new item is all that comes of a value behind those that are shown. -/
theorem Matched.concat {before after : Stage} {id : BoundaryId} {values : List Value}
    {value : Value}
    (h : Matched before after id (values ++ [value]))
    (hshown : List.Forall₂ (fun item value => (before.shown item == value) = true)
      (before.items id) values) :
    ∃ item, after.items id = before.items id ++ [item] ∧ before.lastId < item := by
  obtain ⟨hlength, hpointwise⟩ := List.forall₂_iff_get.1 hshown
  have hlengths : (after.items id).length = (before.items id).length + 1 := by
    rw [h.length_eq, List.length_append, hlength]
    rfl
  have hlt : (before.items id).length < (after.items id).length := hlengths ▸ Nat.lt_succ_self _
  have hlast := List.getElem?_eq_getElem hlt
  refine ⟨_, List.ext_getElem? fun i => ?_, (h.made _ _ value hlast ?_ ?_).1⟩
  · rcases Nat.lt_trichotomy i (before.items id).length with hi | rfl | hi
    · have hitem := List.getElem?_eq_getElem hi
      have hvalue := List.getElem?_eq_getElem (hlength ▸ hi : i < values.length)
      rw [List.getElem?_append_left hi, hitem]
      refine h.kept i _ _ hitem ?_ (hpointwise i hi (hlength ▸ hi))
      rw [List.getElem?_append_left (hlength ▸ hi), hvalue]
      rfl
    · rw [List.getElem?_concat_length, hlast]
    · rw [List.getElem?_eq_none (hlengths ▸ hi), List.getElem?_eq_none]
      rw [List.length_append]
      exact hi
  · rw [hlength, List.getElem?_concat_length]
  · intro former hformer
    exact absurd (List.getElem?_eq_some_iff.1 hformer).1 (Nat.lt_irrefl _)

end Stage

namespace Interpreter

variable (v : Interpreter)

theorem stage_flush (s : Stage) : (v.flush s none).stage = ((Recorded.rerenderAll v
    s.live.observers.pending).run (Recorded.unmarked s) none).stage := by
  rw [Recorded.run_rerenderAll]
  rfl

theorem pending_le_lastId (errands : List Errand) :
    ∀ id ∈ (v.run errands).stage.live.observers.pending, id ≤ (v.run errands).stage.lastId := by
  intro id hid
  have horderly := v.orderly_run errands
  rcases horderly.holds id (.inr hid) with hmounted | houtside
  · obtain ⟨b, hb⟩ := exists_of_isMounted hmounted
    exact horderly.stage.bounded id b hb
  · exact horderly.outside_le id houtside

theorem mem_pending_of_renders (errands : List Errand) {id : BoundaryId}
    (hid : id ≤ (v.run errands).stage.lastId)
    (hmounted : (v.flush (v.run errands).stage none).stage.isMounted id = true)
    (hrenders : (v.flush (v.run errands).stage none).stage.renders id
      ≠ (v.run errands).stage.renders id) :
    id ∈ (v.run errands).stage.live.observers.pending := by
  have haccounts := Recorded.rerenderAll_accounts v
    (Recorded.orderly_unmarked (v.orderly_run errands).stage) (v.sorted_run errands)
    (v.pending_le_lastId errands)
  rw [← stage_flush] at haccounts
  by_contra hnot
  refine hrenders ((haccounts.renders_eq id hmounted).trans ?_)
  rw [List.count_eq_zero.2 fun hmem => ?_]
  · rfl
  -- Whoever is rendered was marked or is new.
  · rcases haccounts.rendered id hmem with ⟨hpending, -⟩ | ⟨hlt, -⟩
    · exact hnot hpending
    · exact Nat.not_lt_of_le hid hlt

theorem models_flush (errands : List Errand) :
    (v.flush (v.run errands).stage none).stage.live.models
      = (v.run errands).stage.live.models := by
  have hspares := Recorded.rerenderAll_spares v (v.run errands).stage.live.observers.pending
    (Recorded.orderly_unmarked (v.orderly_run errands).stage)
  rw [stage_flush]
  exact hspares.models_eq

/-- What a flush makes of the items of a collection that it renders again. -/
theorem reused_flush (errands : List Errand) {id : BoundaryId} {b : Boundary}
    {source template : ViewNode} {heads items : List BoundaryId}
    (hb : (v.run errands).stage.boundary? id = some b) (hrole : b.role = .collection)
    (hnode : b.node = .collection source template) (hnames : (b.context.map Prod.fst).Nodup)
    (hsplit : b.children = heads ++ items)
    (hrow : (v.run errands).stage.Row id b.context source template heads items)
    (hrenders : (v.flush (v.run errands).stage none).stage.renders id
      ≠ (v.run errands).stage.renders id)
    (hmounted : (v.flush (v.run errands).stage none).stage.isMounted id = true) :
    let before := (v.run errands).stage
    let after := (v.flush before none).stage
    Reused before after id (v.valuesOf after.live.models b.context source)
        (Recognizes b.context template)
      ∧ ∃ b' heads', after.boundary? id = some b' ∧ b'.children = heads' ++ after.items id
        ∧ after.Row id b.context source template heads' (after.items id) := by
  intro before after
  have hs : before.Orderly := (v.orderly_run errands).stage
  have hkeeps : Keeps before after := by
    have hkeeps := Recorded.flush_keeps v hs
    rw [Recorded.run_flush] at hkeeps
    exact hkeeps
  have hmem := v.mem_pending_of_renders errands (hs.bounded id b hb) hmounted hrenders
  have hnodup : before.live.observers.pending.Nodup :=
    (v.sorted_run errands).imp fun h => Nat.ne_of_lt h
  have hmodels : after.live.models = before.live.models := v.models_flush errands
  have hunmarked : (Recorded.unmarked before).Row id b.context source template heads items :=
    hrow.carry fun _ _ _ hp => hp
  have hfinal := Recorded.rerenderAll_row v (Recorded.orderly_unmarked hs) hnodup hmem hb hrole
    hnode hnames hsplit hunmarked (by rw [← stage_flush]; exact hmounted)
  rw [← stage_flush] at hfinal
  obtain ⟨b', heads', items', hb', hsplit', hrow', hlength, hanswers⟩ := hfinal
  have hitems : before.items id = items := hrow.items_eq hb hsplit
  have hitems' : after.items id = items' := hrow'.items_eq hb' hsplit'
  rw [hmodels]
  refine ⟨?_, b', heads', hb', hitems' ▸ hsplit', hitems' ▸ hrow'⟩
  constructor <;> rw [hitems']
  case length_eq => exact hlength
  case kept_iff =>
    rw [hitems]
    intro i item value hi hvalue
    have hlt : i < items'.length := hlength ▸ (List.getElem?_eq_some_iff.1 hvalue).1
    have hc := List.getElem?_eq_getElem hlt
    rcases hanswers i _ value hc hvalue with ⟨hi', hsame⟩ | ⟨hnone, hlast, -⟩
    · obtain rfl := Option.some.inj (hi.symm.trans hi')
      exact iff_of_true hc hsame
    -- A new boundary is not the item that was there.
    · refine iff_of_false (fun hi' => ?_) (hnone item hi)
      obtain ⟨b₁, hb₁⟩ := exists_of_isMounted (hrow.isMounted (List.mem_of_getElem? hi))
      rw [Option.some.inj (hc.symm.trans hi')] at hlast
      exact Nat.not_lt_of_le (hs.bounded item b₁ hb₁) hlast
  case kept_or_made =>
    rw [hitems]
    intro i item value hi hvalue
    exact (hanswers i item value hi hvalue).imp And.left And.right
  case rendered =>
    rw [hitems]
    intro item hitem hkept hne
    obtain ⟨b₁, hb₁⟩ := exists_of_isMounted (hrow.isMounted hitem)
    exact v.mem_pending_of_renders errands (hs.bounded item b₁ hb₁) (hrow'.isMounted hkept) hne
  case gone =>
    rw [hitems]
    intro item hitem hnot c hbeneath
    have hgone := hrow.gone hrow' hs hkeeps hb' hsplit' hitem hnot
    exact hkeeps.gone hs (hrow.isMounted hitem) hgone hbeneath

/-- A flush that renders a collection again leaves an item for each value that its source stands
for, the former one or a new one; whatever is left over is gone with all that is beneath it.  The
former items are kept where their values are the same, and all others are new, if and only if what
the collection sees and its template equal themselves, or there is no value that is the same.  If
they do, a new item is all that comes of an element that is appended.  No scope has a name twice. -/
theorem flush_collection (errands : List Errand) {id : BoundaryId} {b : Boundary}
    (huntouched : v.Untouched errands id) (hb : (v.run errands).stage.boundary? id = some b)
    (hrole : b.role = .collection) (hnames : (b.context.map Prod.fst).Nodup)
    (hrenders : (v.run errands).stage.renders id
      < (v.flush (v.run errands).stage none).stage.renders id)
    (hmounted : (v.flush (v.run errands).stage none).stage.isMounted id = true) :
    let before := (v.run errands).stage
    let after := (v.flush before none).stage
    ∃ source template, b.node = .collection source template
      ∧ (∀ s ∈ [before, after], ∀ (i : Nat) (item : BoundaryId), (s.items id)[i]? = some item →
        s.place? item
          = some ⟨.item, template, itemContext b.context (s.shown item) i, some id⟩)
      ∧ let values := v.valuesOf after.live.models b.context source
        Reused before after id values (Recognizes b.context template)
          ∧ (Matched before after id values ↔ Recognizes b.context template
            ∨ ∀ (i : Nat) (item : BoundaryId) (value : Value), (before.items id)[i]? = some item →
              values[i]? = some value → (before.shown item == value) = false)
          ∧ ∀ models (r : ModelRef) xs x, Recognizes b.context template →
            v.valueOf models b.context source = .model r → r.node? models = some (.array xs) →
            List.Forall₂ (fun item value => (before.shown item == value) = true) (before.items id)
              (v.valuesOf models b.context source) →
            v.valueOf after.live.models b.context source = .model r →
            r.node? after.live.models = some (.array (xs ++ [x])) →
              ∃ item, after.items id = before.items id ++ [item] ∧ before.lastId < item := by
  intro before after
  obtain ⟨source, template, heads, items, hnode, hsplit, hrow⟩ :=
    v.inRow_run errands huntouched b hb hrole
  obtain ⟨hreused, b', heads', hb', hsplit', hrow'⟩ := v.reused_flush errands hb hrole hnode
    hnames hsplit hrow (Nat.ne_of_gt hrenders) hmounted
  refine ⟨source, template, hnode, fun s hs i item hi => ?_, hreused, hreused.matched_iff, ?_⟩
  · rcases List.mem_cons.1 hs with rfl | hs
    · rw [hrow.items_eq hb hsplit] at hi
      exact hrow.place?_item hi
    · obtain rfl := List.mem_singleton.1 hs
      exact hrow'.place?_item hi
  -- The appended element is the last of the values; the others are where they were.
  · intro models r xs x hrecognizes hvalue harray hshown hvalue' harray'
    have hmatched := hreused.matched_iff.2 (.inl hrecognizes)
    rw [valuesOf_of_array hvalue harray] at hshown
    rw [valuesOf_of_array hvalue' harray', List.mapIdx_concat] at hmatched
    exact hmatched.concat hshown

end Interpreter

theorem World.models_patch {w : World} {v : Interpreter} {r : ModelRef} {patch : Patch} {c : Change}
    {models : Models} (h : r.apply w.stage.live.models patch = .ok (c, models)) :
    (w.after v (.patch r patch)).stage.live.models = models := by
  have happly : w.stage.live.apply r patch
      = .ok (c, ⟨(w.stage.live.observers.notify c).2, models⟩) :=
    Outcome.bind_eq_ok.2 ⟨(c, models), h, rfl⟩
  simp only [World.after, happly]
  rfl

/-! ## A list that grows -/

namespace Todo

/-- The titles of all items. -/
def titles : ViewNode :=
  .collection (.read "$root.todos") (.read "$self.title")

/-- To mount the titles of two items, and to append a third item. -/
def appendErrands (ctx : Context) : List Errand :=
  [.create schema 0 (document ["a", "b"]), .mount titles (("$root", .model (.root 1)) :: ctx),
    .patch (.root 1) (append "c")]

theorem untouched_append (ctx : Context) (id : BoundaryId) :
    Interpreter.standard.Untouched (appendErrands ctx) id := by
  intro earlier c later heq
  have hmem : Errand.unmount c ∈ appendErrands ctx :=
    heq ▸ List.mem_append_right earlier List.mem_cons_self
  simp [appendErrands] at hmem

theorem models_append (ctx : Context) :
    (Interpreter.standard.run (appendErrands ctx)).stage.live.models = models ["a", "b", "c"] := by
  let created := Interpreter.standard.run [.create schema 0 (document ["a", "b"])]
  have hcreate : created.stage.live = live ["a", "b"] := by cbv
  obtain ⟨stage, hperform, hsprouts, -⟩ :=
    (Interpreter.standard.orderly_run [.create schema 0 (document ["a", "b"])]).perform_mount
      (v := .standard) titles (("$root", .model (.root 1)) :: ctx)
  have hmodels : (created.perform (Interpreter.standard.mount titles
      (("$root", .model (.root 1)) :: ctx))).stage.live.models = models ["a", "b"] := by
    rw [hperform]
    exact hsprouts.models_eq.trans (congrArg Live.models hcreate)
  exact World.models_patch (v := .standard) (hmodels ▸ apply_append)

/-- The reference to the list. -/
def list : ModelRef :=
  ⟨1, [.field "todos"]⟩

/-- Just a new item is made for what is appended. -/
theorem flush_collection_append :
    let before := (Interpreter.standard.run (appendErrands [])).stage
    let after := (Interpreter.standard.flush before none).stage
    Interpreter.standard.Untouched (appendErrands []) 3
      ∧ before.renders 3 < after.renders 3 ∧ after.isMounted 3 = true
      ∧ ∃ item, after.items 3 = [4, 5, item] ∧ 5 < item := by
  intro before after
  have huntouched := untouched_append [] 3
  have hrenders : before.renders 3 < after.renders 3 := by decide +kernel
  have hmounted : after.isMounted 3 = true := by decide +kernel
  have hitems : before.items 3 = [4, 5] := by decide +kernel
  have hlast : before.lastId = 5 := by decide +kernel
  have hshown : (before.shown 4 == .model (list.child (.index 0))) = true
      ∧ (before.shown 5 == .model (list.child (.index 1))) = true := by decide +kernel
  have hmodels : after.live.models = models ["a", "b", "c"] :=
    (Interpreter.models_flush .standard _).trans (models_append [])
  obtain ⟨b, hb, hrole, hsteady, htemplate, hsource⟩ : ∃ b ∈ before.boundary? 3,
      b.role = .collection ∧ b.context.Steady
      ∧ (∀ template ∈ b.node.template?, (template == template) = true)
      ∧ ∀ source ∈ b.node.source?, ∀ titles ∈ [["a", "b"], ["a", "b", "c"]],
        (Interpreter.standard.valueOf (models titles) b.context source == .model list) = true := by
    decide +kernel
  obtain ⟨source, template, hnode, -, -, -, happend⟩ := Interpreter.flush_collection .standard
    (appendErrands []) huntouched hb hrole hsteady.nodup hrenders hmounted
  have hrecognizes : Recognizes b.context template := ⟨hsteady, htemplate _ (by rw [hnode]; rfl)⟩
  have hvalue : ∀ titles ∈ [["a", "b"], ["a", "b", "c"]],
      Interpreter.standard.valueOf (models titles) b.context source = .model list :=
    fun titles h => Value.beq_model_iff.1 (hsource source (by rw [hnode]; rfl) titles h)
  have hbefore := hvalue ["a", "b"] (by decide)
  have harray : list.node? (models ["a", "b"]) = some (.array [item "a", item "b"]) := rfl
  obtain ⟨new, hnew, hlt⟩ := happend (models ["a", "b"]) list [item "a", item "b"] (item "c")
    hrecognizes hbefore harray
    (by
      rw [Interpreter.valuesOf_of_array hbefore harray]
      show List.Forall₂ _ (before.items 3) _
      rw [hitems]
      exact .cons hshown.1 (.cons hshown.2 .nil))
    (by
      show Interpreter.standard.valueOf after.live.models b.context source = _
      rw [hmodels]
      exact hvalue ["a", "b", "c"] (by decide))
    (by
      show list.node? after.live.models = _
      rw [hmodels]
      rfl)
  exact ⟨huntouched, hrenders, hmounted, new, by rw [hitems] at hnew; exact hnew, hlast ▸ hlt⟩

/-- Where the collection sees a number that differs from itself, all items are made anew. -/
theorem not_kept_of_nan :
    let ctx : Context := [("x", .number (.ofBits 0x7ff8000000000000))]
    let before := (Interpreter.standard.run (appendErrands ctx)).stage
    let after := (Interpreter.standard.flush before none).stage
    Interpreter.standard.Untouched (appendErrands ctx) 3
      ∧ (before.boundary? 3).map Boundary.role = some .collection
      ∧ before.renders 3 < after.renders 3 ∧ after.isMounted 3 = true
      ∧ (before.shown 4 == after.shown 6) = true
      ∧ before.items 3 = [4, 5] ∧ after.items 3 = [6, 7, 8] := by
  refine ⟨untouched_append _ 3, ?_⟩
  decide +kernel

end Todo

end BoundView
