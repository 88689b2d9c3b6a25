import BoundView.Proofs.View.Asking
import BoundView.Proofs.View.World

/-!
# Collections in a row

The children of a collection stand in a row: first those that its source stands for, then one item
for each position, which sees its value and its position.  Main statement: in a world every
collection stands in a row as long as the host has not taken a child of it away.
-/

namespace BoundView

open Interpreter (itemContext)

namespace Stage

variable {s s' : Stage} {id : BoundaryId} {ctx : Context} {source template : ViewNode}
  {heads items : List BoundaryId}

/-- The children that the source of a collection stands for, and one item for each position. -/
structure Row (s : Stage) (id : BoundaryId) (ctx : Context) (source template : ViewNode)
    (heads items : List BoundaryId) : Prop where
  heads_length : heads.length = source.parts.length
  head : ∀ c ∈ heads, ∃ p, s.place? c = some p ∧ p.role ≠ .item
  item : ∀ (i : Nat) (c : BoundaryId), items[i]? = some c →
    ∃ value, s.place? c = some ⟨.item, template, itemContext ctx value i, some id⟩

/-- A boundary stands in a row if it is a collection. -/
def InRow (s : Stage) (id : BoundaryId) : Prop :=
  ∀ b, s.boundary? id = some b → b.role = .collection → ∃ source template heads items,
    b.node = .collection source template ∧ b.children = heads ++ items
      ∧ s.Row id b.context source template heads items

theorem Row.carry (h : s.Row id ctx source template heads items)
    (hplaces : ∀ c ∈ heads ++ items, ∀ p, s.place? c = some p → s'.place? c = some p) :
    s'.Row id ctx source template heads items where
  heads_length := h.heads_length
  head c hc := by
    obtain ⟨p, hp, hrole⟩ := h.head c hc
    exact ⟨p, hplaces c (List.mem_append_left items hc) p hp, hrole⟩
  item i c hc := by
    obtain ⟨value, hplace⟩ := h.item i c hc
    have hmem : c ∈ heads ++ items := List.mem_append_right heads (List.mem_of_getElem? hc)
    exact ⟨value, hplaces c hmem _ hplace⟩

/-- A boundary stays in its row if its children stay in their places. -/
theorem InRow.carry (h : s.InRow id) (hb : ∀ b', s'.boundary? id = some b' →
      ∃ b, s.boundary? id = some b ∧ b'.place = b.place ∧ b'.children = b.children
        ∧ ∀ c ∈ b.children, ∀ p, s.place? c = some p → s'.place? c = some p) : s'.InRow id := by
  intro b' hb' hrole
  obtain ⟨b, hb, hplace, hchildren, hplaces⟩ := hb b' hb'
  obtain ⟨hrole', hnode, hcontext, -⟩ := Place.mk.inj hplace
  obtain ⟨source, template, heads, items, hcollection, hsplit, hrow⟩ :=
    h b hb (hrole'.symm.trans hrole)
  refine ⟨source, template, heads, items, hnode.trans hcollection, hchildren.trans hsplit, ?_⟩
  rw [hcontext]
  exact hrow.carry fun c hc => hplaces c (hsplit ▸ hc)

theorem InRow.withLive (h : s.InRow id) (live : Live) : Stage.InRow { s with live } id :=
  h.carry fun b hb => ⟨b, hb, rfl, rfl, fun _ _ _ hp => hp⟩

/-- What is added leaves a boundary in its row. -/
theorem InRow.extend (h : s.InRow id) (hs : s.Bounded) (hextends : Extends s s')
    (hid : id ≤ s.lastId) : s'.InRow id :=
  h.carry fun b hb => ⟨b, (hextends.boundary?_eq id hid).symm.trans hb, rfl, rfl,
    fun _ _ _ hp => hextends.place?_eq_some hs hp⟩

theorem inRow_of_boundary?_eq_none (h : s.boundary? id = none) : s.InRow id := by
  intro b hb
  cases h.symm.trans hb

/-- A child that is left is where it was. -/
theorem Linked.place?_child (h : s'.Linked) {b : Boundary} (hb : s'.boundary? id = some b)
    {c : BoundaryId} (hc : c ∈ b.children)
    (hplace : ∀ p, s'.place? c = some p → s.place? c = some p) {p : Place}
    (hp : s.place? c = some p) : s'.place? c = some p := by
  obtain ⟨-, p', hp', -⟩ := h.child id b c hb hc
  obtain rfl := Option.some.inj ((hplace p' hp').symm.trans hp)
  exact hp'

end Stage

open Stage

namespace ViewNode

mutual

/-- No item stands for a part of a node. -/
theorem role_of_mem_parts : ∀ {node : ViewNode} {part : Role × ViewNode}, part ∈ node.parts →
    part.1 ≠ .item
  | .sequence items, part, h => by
    rw [parts] at h
    exact role_of_mem_partsAll h
  | .collection source template, part, h => by
    rw [parts] at h
    rw [List.mem_singleton.1 h]
    exact Role.noConfusion
  | .element tag props, part, h => by
    rw [parts] at h
    rw [List.mem_singleton.1 h]
    exact Role.noConfusion
  | .literal _, part, h | .read _, part, h | .write _, part, h | .raw _, part, h =>
    absurd h List.not_mem_nil

theorem role_of_mem_partsAll : ∀ {items : List ViewNode} {part : Role × ViewNode},
    part ∈ partsAll items → part.1 ≠ .item
  | [], part, h => by
    rw [partsAll] at h
    exact absurd h List.not_mem_nil
  | item :: rest, part, h => by
    rw [partsAll] at h
    rcases List.mem_append.1 h with h | h
    · exact role_of_mem_parts h
    · exact role_of_mem_partsAll h

end

end ViewNode

namespace Recorded

variable {α β : Type} {s : Stage} {f? : Option Frame} {ids : List BoundaryId} {id : BoundaryId}
  {role : Role} {node source template : ViewNode} {ctx : Context} {values : List Value}

/-! ## Rows that are asked for -/

/-- A body that asks for the children of a collection. -/
def Collects (body : Recorded Rendered) (source template : ViewNode) (ctx : Context) : Prop :=
  ∀ s f?, Fits s f? → Asks s f? body fun _ asks =>
    ∃ values, asks = rowAsked source template ctx values

theorem renderCollection_collects (v : Interpreter) (source template : ViewNode) (ctx : Context) :
    Collects (renderCollection (resolve v ctx source) template
      (fun scope => resolve v scope template) ctx) source template ctx := by
  intro s f? hfits
  obtain ⟨ids, asks, hasked, hasks⟩ := renderCollection_asks v source template ctx hfits
  exact ⟨ids, asks, hasked, _, hasks⟩

/-- What a collection asks for stands in a row, if the former children at the positions of the items
are items as well. -/
theorem Asked.row {p : Recorded α} (h : Asked s f? p ids (rowAsked source template ctx values))
    (hs : s.Bounded) (howner : f?.map Frame.owner = some id)
    (hformer : ∀ (i : Nat) (c : BoundaryId), (former f?)[source.parts.length + i]? = some c →
      ∃ value, s.place? c = some ⟨.item, template, itemContext ctx value i, some id⟩) :
    (p.run s f?).stage.Row id ctx source template (ids.take source.parts.length)
      (ids.drop source.parts.length) where
  heads_length := by
    rw [List.length_take, h.length_eq, length_rowAsked]
    exact Nat.min_eq_left (Nat.le_add_right _ _)
  head c hc := by
    obtain ⟨i, hi⟩ := List.mem_iff_getElem?.1 hc
    rw [List.getElem?_take] at hi
    split at hi
    · rename_i hlt
      have hrole := ViewNode.role_of_mem_parts (List.getElem_mem hlt)
      rcases h.answers i c _ hi (getElem?_rowAsked_head hlt) with hkept | ⟨-, -, hplace⟩
      · obtain ⟨p, hp, hrole', -⟩ := shows_iff.1 (Option.filter_eq_some_iff.1 hkept).2
        exact ⟨p, h.sprouts.place?_eq_some hs hp, hrole' ▸ hrole⟩
      · exact ⟨_, hplace, hrole⟩
    · cases hi
  item i c hc := by
    rw [List.getElem?_drop] at hc
    have hlt : source.parts.length + i < ids.length := (List.getElem?_eq_some_iff.1 hc).1
    rw [h.length_eq] at hlt
    have hask := List.getElem?_eq_getElem hlt
    obtain ⟨value, -, heq⟩ := Option.map_eq_some_iff.1 (getElem?_rowAsked_item.symm.trans hask)
    -- A former child here is an item at the same position, whatever its value.
    rcases h.answers _ c _ hc hask with hkept | ⟨-, -, hplace⟩
    · obtain ⟨value, hplace⟩ := hformer i c (Option.filter_eq_some_iff.1 hkept).1
      exact ⟨value, h.sprouts.place?_eq_some hs hplace⟩
    · rw [← heq, howner] at hplace
      exact ⟨value, hplace⟩

/-! ## New collections -/

/-- A rendering that grows, and whose new collections stand in a row. -/
structure Rows (p : Recorded α) : Prop where
  grows : p.Grows
  inRow : ∀ s f?, Fits s f? → ∀ id, s.lastId < id → (p.run s f?).stage.InRow id

theorem Rows.quiet {m : Rendering α} (hstage : ∀ s f?, (m s f?).stage = s)
    (hframe : ∀ s f?, (m s f?).frame? = f?) : (quiet m).Rows where
  grows := .quiet hstage hframe
  inRow s f? hfits id hid := by
    show (m s f?).stage.InRow id
    rw [hstage]
    exact inRow_of_boundary?_eq_none (boundary?_eq_none (isMounted_of_lt hfits.bounded hid))

theorem Rows.pure (a : α) : (pure a : Recorded α).Rows :=
  .quiet (fun _ _ => rfl) fun _ _ => rfl

theorem Rows.ofReading (m : Reading α) : (ofReading m).Rows :=
  .quiet (fun _ _ => rfl) fun _ _ => rfl

theorem Rows.bind {p : Recorded α} {k : α → Recorded β} (h : p.Rows) (hk : ∀ a, (k a).Rows) :
    (p >>= k).Rows where
  grows := h.grows.bind fun a => (hk a).grows
  inRow s f? hfits id hid := by
    obtain ⟨ids, hgrown⟩ := h.grows s f? hfits
    have hfits' := hfits.after hgrown
    obtain ⟨others, hgrown'⟩ := (hk (p.run s f?).value).grows _ _ hfits'
    rw [(bind_of_eq (k := k) rfl rfl hgrown.frame?_eq).1]
    by_cases hid' : id ≤ (p.run s f?).stage.lastId
    -- What the first part added is left alone by the second one.
    · exact (h.inRow s f? hfits id hid).extend hgrown.sprouts.bounded hgrown'.sprouts.toExtends hid'
    · exact (hk _).inRow _ _ hfits' id (Nat.lt_of_not_le hid')

variable {body : Recorded Rendered}

/-- What a new boundary asks for stands in a row if it is a collection. -/
theorem Rows.planted (hbody : body.Rows) (hs : s.Bounded) (parent? : Option BoundaryId)
    (hcollection : role = .collection → ∃ source template,
      node = .collection source template ∧ body.Collects source template ctx) :
    let planted := (Rendering.planted s role node ctx parent?).opened (s.lastId + 1)
    ∃ ids, Grown planted (some ⟨s.lastId + 1, [], []⟩) body ids
      ∧ (role = .collection → ∃ source template heads items, node = .collection source template
        ∧ ids = heads ++ items ∧ (body.run planted (some ⟨s.lastId + 1, [], []⟩)).stage.Row
          (s.lastId + 1) ctx source template heads items) := by
  intro planted
  have hfits : Fits planted (some ⟨s.lastId + 1, [], []⟩) := fits_planted hs
  by_cases hrole : role = .collection
  · obtain ⟨source, template, hnode, hcollects⟩ := hcollection hrole
    obtain ⟨ids, _, hasked, values, rfl⟩ := hcollects _ _ hfits
    refine ⟨ids, hasked.toGrown, fun _ => ⟨source, template, _, _, hnode,
      (List.take_append_drop source.parts.length ids).symm, hasked.row hfits.bounded rfl ?_⟩⟩
    exact fun _ _ hc => nomatch hc
  · obtain ⟨ids, hgrown⟩ := hbody.grows _ _ hfits
    exact ⟨ids, hgrown, fun h => absurd h hrole⟩

theorem Rows.spawn (hbody : body.Rows) (hs : s.Bounded) (parent? : Option BoundaryId)
    (frame? : Option Frame) (hcollection : role = .collection → ∃ source template,
      node = .collection source template ∧ body.Collects source template ctx)
    (hid : s.lastId < id) :
    ((Recorded.spawn role node ctx parent? body).run s frame?).stage.InRow id := by
  obtain ⟨ids, hgrown, hrow⟩ := hbody.planted hs parent? hcollection
  have hclosed := fun reads out => @Rendering.boundary?_closed (s.lastId + 1)
    _ _ _ reads ids out rfl
    hgrown.sprouts.toExtends boundary?_opened_planted
  rw [run_spawn rfl hgrown frame?]
  by_cases hne : id = s.lastId + 1
  · subst hne
    intro b hb hrole
    obtain rfl := Option.some.inj ((hclosed _ _).1.symm.trans hb)
    obtain ⟨source, template, heads, items, hnode, hids, hrow⟩ := hrow hrole
    exact ⟨source, template, heads, items, hnode, hids,
      hrow.carry fun _ _ _ hplace => place?_close.trans hplace⟩
  -- Whatever is beneath it was made by its body.
  · have hlt : s.lastId + 1 < id := Nat.lt_of_le_of_ne hid (Ne.symm hne)
    have hfits : Fits ((Rendering.planted s role node ctx parent?).opened (s.lastId + 1))
        (some ⟨s.lastId + 1, [], []⟩) := fits_planted hs
    refine (hbody.inRow _ _ hfits id hlt).carry fun b hb => ?_
    exact ⟨b, ((hclosed _ _).2 id hne).symm.trans hb, rfl, rfl,
      fun _ _ _ hplace => place?_close.trans hplace⟩

theorem Rows.child (hbody : body.Rows) (role : Role) (node : ViewNode) (ctx : Context)
    (hcollection : role = .collection → ∃ source template,
      node = .collection source template ∧ body.Collects source template ctx) :
    (child role node ctx body).Rows where
  grows := hbody.grows.child role node ctx
  inRow s f? hfits id hid := by
    rcases hbody.grows.child_cases hfits.bounded role node ctx f? with ⟨_, -, hrun, -⟩
      | ⟨-, events, stage, inner?, hspawn, hrun, -⟩
    · rw [hrun]
      exact inRow_of_boundary?_eq_none (boundary?_eq_none (isMounted_of_lt hfits.bounded hid))
    · have hinRow := hbody.spawn hfits.bounded (f?.map Frame.owner) inner? hcollection hid
      rw [hspawn] at hinRow
      rw [hrun]
      exact hinRow

/-! ## The interpreter -/

variable (v : Interpreter)

theorem renderElement_rows (tag : String) {props : Recorded (Members Rendered)}
    (h : props.Rows) : (renderElement v tag props).Rows := by
  refine h.bind fun outs => ?_
  cases Members.find? tag v.registry with
  | none => exact .pure _
  | some component => exact .pure _

theorem renderItems_rows (template : ViewNode) {render : Context → Recorded Rendered}
    (h : ∀ scope, (render scope).Rows) (ctx : Context) (index : Nat) (values : List Value) :
    (renderItems template render ctx index values).Rows := by
  induction values generalizing index with
  | nil => exact .pure _
  | cons value rest ih =>
    refine ((h _).child .item template _ Role.noConfusion).bind fun id => ?_
    exact (ih (index + 1)).bind fun _ => .pure _

theorem renderCollection_rows {source : Recorded Rendered} (hsource : source.Rows)
    (template : ViewNode) {render : Context → Recorded Rendered}
    (h : ∀ scope, (render scope).Rows) (ctx : Context) :
    (renderCollection source template render ctx).Rows := by
  refine hsource.bind fun out => (Rows.ofReading _).bind fun values => ?_
  exact (renderItems_rows template h ctx 0 values).bind fun _ => .pure _

mutual

theorem resolve_rows : ∀ (node : ViewNode) (ctx : Context), (resolve v ctx node).Rows
  | .literal value, ctx => by
    rw [resolve]
    exact .pure _
  | .read expression, ctx => by
    rw [resolve]
    exact (Rows.ofReading _).bind fun _ => .pure _
  | .write expression, ctx => by
    rw [resolve]
    exact .pure _
  | .sequence items, ctx => by
    rw [resolve]
    exact (resolveItems_rows items ctx).bind fun _ => .pure _
  | .collection source template, ctx => by
    rw [resolve]
    have hbody := renderCollection_rows (resolve_rows source ctx) template
      (fun scope => resolve_rows template scope) ctx
    refine (hbody.child .collection _ _ fun _ => ?_).bind fun _ => .pure _
    exact ⟨source, template, rfl, renderCollection_collects v source template ctx⟩
  | .element tag props, ctx => by
    rw [resolve]
    have hbody := renderElement_rows v tag (resolveProps_rows props ctx)
    exact (hbody.child .element _ _ Role.noConfusion).bind fun _ => .pure _
  | .raw document, ctx => by
    rw [resolve]
    exact .pure _

theorem resolveItems_rows : ∀ (items : List ViewNode) (ctx : Context),
    (resolveItems v ctx items).Rows
  | [], ctx => by
    rw [resolveItems]
    exact .pure _
  | item :: rest, ctx => by
    rw [resolveItems]
    refine (resolve_rows item ctx).bind fun first => ?_
    exact (resolveItems_rows rest ctx).bind fun _ => .pure _

theorem resolveProps_rows : ∀ (props : List (String × ViewNode)) (ctx : Context),
    (resolveProps v ctx props).Rows
  | [], ctx => by
    rw [resolveProps]
    exact .pure _
  | (name, prop) :: rest, ctx => by
    rw [resolveProps]
    refine (resolve_rows prop ctx).bind fun first => (Rows.ofReading _).bind fun _ => ?_
    exact (resolveProps_rows rest ctx).bind fun _ => .pure _

end

theorem evaluate_rows (role : Role) (node : ViewNode) (ctx : Context) :
    (evaluate v role node ctx).Rows := by
  unfold evaluate
  split
  · exact renderElement_rows v _ (resolveProps_rows v _ ctx)
  · exact renderCollection_rows (resolve_rows v _ ctx) _ (fun scope => resolve_rows v _ scope) ctx
  · exact resolve_rows v node ctx

/-! ## Boundaries that are rendered again -/

variable {b : Boundary} {c : BoundaryId}

/-- A boundary that is rendered again asks for what its body asks for, in the case of a collection
for a row. -/
theorem evaluate_asks (hs : s.Orderly) (hb : s.boundary? id = some b) :
    ∃ ids, Grown (s.opened id) (some ⟨id, b.children, []⟩) (evaluate v b.role b.node b.context) ids
      ∧ ∀ source template, b.role = .collection → b.node = .collection source template →
        Asked (s.opened id) (some ⟨id, b.children, []⟩) (evaluate v b.role b.node b.context) ids
          (rowAsked source template b.context (v.valuesOf s.live.models b.context source)) := by
  have hfits := fits_opened hs hb
  by_cases h : ∃ source template, b.role = .collection ∧ b.node = .collection source template
  · obtain ⟨source, template, hrole, hnode⟩ := h
    rw [hrole, hnode]
    obtain ⟨ids, _, hasked, rfl⟩ := renderCollection_asks v source template b.context hfits
    refine ⟨ids, hasked.toGrown, fun source' template' _ heq => ?_⟩
    obtain ⟨rfl, rfl⟩ := ViewNode.collection.inj heq
    exact hasked
  · obtain ⟨ids, hgrown⟩ := evaluate_grows v b.role b.node b.context _ _ hfits
    exact ⟨ids, hgrown, fun source template hrole hnode =>
      absurd ⟨source, template, hrole, hnode⟩ h⟩

/-- What was asked for becomes the children. -/
theorem rerender_closed (hs : s.Orderly) (hb : s.boundary? id = some b) : ∃ ids reads out,
    let body := evaluate v b.role b.node b.context
    let frame? := some ⟨id, b.children, []⟩
    Grown (s.opened id) frame? body ids
      ∧ (∀ source template, b.role = .collection → b.node = .collection source template →
        Asked (s.opened id) frame? body ids
          (rowAsked source template b.context (v.valuesOf s.live.models b.context source)))
      ∧ Closed (body.run (s.opened id) frame?).stage ((rerender v id).run s none).stage id
        (b.closed ids out) reads := by
  obtain ⟨ids, hgrown, hasked⟩ := evaluate_asks v hs hb
  obtain ⟨events, reads, out, s', hrun, -, hclosed⟩ := hgrown.render_closed hs hb
  rw [(rerender_of_boundary? v hb).1, hrun]
  exact ⟨ids, reads, out, hgrown, hasked, hclosed⟩

/-- A collection that stands in a row and is rendered again stands in a new row, in which the item
for each value is the former one at the position or a new one. -/
theorem rerender_row (hs : s.Orderly) (hb : s.boundary? id = some b) (hrole : b.role = .collection)
    (hnode : b.node = .collection source template) {heads items : List BoundaryId}
    (hsplit : b.children = heads ++ items) (hrow : s.Row id b.context source template heads items) :
    let s' := ((rerender v id).run s none).stage
    ∃ b' heads' items', s'.boundary? id = some b' ∧ b'.place = b.place
      ∧ b'.children = heads' ++ items' ∧ s'.Row id b.context source template heads' items'
      ∧ items'.length = (v.valuesOf s.live.models b.context source).length
      ∧ ∀ (i : Nat) (c : BoundaryId) (value : Value), items'[i]? = some c →
        (v.valuesOf s.live.models b.context source)[i]? = some value →
          Answers s s' (some id) items[i]? ⟨.item, template, itemContext b.context value i⟩ c := by
  intro s'
  obtain ⟨ids, reads, out, hgrown, hasked, hclosed⟩ := rerender_closed v hs hb
  have hrenewed := rerender_renewed v hs hb
  have hasked := hasked source template hrole hnode
  have hids := List.take_append_drop source.parts.length ids
  have hkid : ∀ kid ∈ ids, ∀ p, _ → s'.place? kid = some p := fun kid hmem p hp =>
    hrenewed.orderly.place?_child hclosed.boundary?_self hmem (hclosed.place? kid) hp
  -- The former children at the positions of the items are items.
  have hformer : ∀ i, (former (some ⟨id, b.children, []⟩))[source.parts.length + i]?
      = items[i]? := by
    intro i
    show b.children[source.parts.length + i]? = _
    rw [hsplit, ← hrow.heads_length, List.getElem?_append_right (Nat.le_add_right _ i),
      Nat.add_sub_cancel_left]
  have hrow' := hasked.row (bounded_opened hs.bounded) rfl fun i kid hkid => by
    rw [hformer] at hkid
    obtain ⟨value, hplace⟩ := hrow.item i kid hkid
    exact ⟨value, place?_opened.trans hplace⟩
  refine ⟨_, _, _, hclosed.boundary?_self, rfl, hids.symm,
    hrow'.carry fun kid hmem p hp => hkid kid (hids ▸ hmem) p hp, ?_, fun i c value hc hvalue => ?_⟩
  · rw [List.length_drop, hasked.length_eq, length_rowAsked, Nat.add_sub_cancel_left]
  · rw [List.getElem?_drop] at hc
    have hask : (rowAsked source template b.context
        (v.valuesOf s.live.models b.context source))[source.parts.length + i]?
          = some ⟨.item, template, itemContext b.context value i⟩ := by
      rw [getElem?_rowAsked_item, hvalue]
      rfl
    have hanswers := hasked.answers _ c _ hc hask
    rw [hformer, Answers, shows_opened] at hanswers
    refine hanswers.imp_right ?_
    rintro ⟨hnone, hlt, hplace⟩
    exact ⟨hnone, hlt, hkid c (List.mem_of_getElem? hc) _ hplace⟩

/-- Whichever boundary is rendered again, every collection stays in its row. -/
theorem inRow_rerender (hs : s.Orderly) (hb : s.boundary? id = some b) (hrow : s.InRow c) :
    ((rerender v id).run s none).stage.InRow c := by
  obtain ⟨ids, reads, out, hgrown, -, hclosed⟩ := rerender_closed v hs hb
  have hrenewed := rerender_renewed v hs hb
  have hregrown := hgrown.regrown hs hb
  have hkid : ∀ {b'}, ((rerender v id).run s none).stage.boundary? c = some b' →
      ∀ kid ∈ b'.children, ∀ p, _ → ((rerender v id).run s none).stage.place? kid = some p :=
    fun hb' kid hkid p hp => hrenewed.orderly.place?_child hb' hkid (hclosed.place? kid) hp
  by_cases hne : c = id
  · subst hne
    intro b' hb' hrole'
    have hrole : b.role = .collection := by
      obtain rfl := Option.some.inj (hclosed.boundary?_self.symm.trans hb')
      exact hrole'
    obtain ⟨source, template, heads, items, hnode, hsplit, hrow⟩ := hrow b hb hrole
    obtain ⟨_, heads', items', hb'', hplace, hsplit', hrow', -⟩ :=
      rerender_row v hs hb hrole hnode hsplit hrow
    obtain rfl := Option.some.inj (hb''.symm.trans hb')
    obtain ⟨-, hnode', hcontext, -⟩ := Place.mk.inj hplace
    exact ⟨source, template, heads', items', hnode'.trans hnode, hsplit', hcontext ▸ hrow'⟩
  by_cases hlt : s.lastId < c
  · exact ((evaluate_rows v b.role b.node b.context).inRow _ _ (fits_opened hs hb) c hlt).carry
      fun b' hb' => ⟨b', (hclosed.left c b' hne hb').1, rfl, rfl, hkid hb'⟩
  -- Whoever else was there before is as it was.
  · refine hrow.carry fun b' hb' => ?_
    rcases hregrown.old_or_new hne (hclosed.left c b' hne hb').1 with ⟨hold, -⟩ | hnew
    · exact ⟨b', hold, rfl, rfl, fun kid hmem p hp =>
        hkid hb' kid hmem p (hregrown.place?_eq_some hp)⟩
    · exact absurd hnew hlt

theorem inRow_rerenderAll (ids : List BoundaryId) (hs : s.Orderly) (hrow : s.InRow c) :
    ((rerenderAll v ids).run s none).stage.InRow c :=
  rerenderAll_induction (P := fun s => s.InRow c) v hs hrow fun _ _ _ _ hs₁ hb =>
    inRow_rerender v hs₁ hb

end Recorded

namespace Stage

variable {s : Stage} {id c : BoundaryId}

/-! ## Boundaries that are taken away -/

theorem shrinks_drop (s : Stage) (ids : List BoundaryId) : Shrinks s (s.drop ids) :=
  drop_preserves (fun s' id h => h.trans (shrinks_removeBoundary s' id)) s ids (.refl s)

/-- A collection stays in its row unless one of its children is taken away. -/
theorem Orderly.inRow_unmount (hs : s.Orderly) (hrow : s.InRow id)
    (hother : ∀ b, s.boundary? c = some b → b.parent? ≠ some id) : (s.unmount c).InRow id := by
  have hshrinks := shrinks_drop (s.struck c) [c]
  rw [← unmount_eq] at hshrinks
  have hplaces : ∀ kid p, (s.unmount c).place? kid = some p → s.place? kid = some p := by
    intro kid p hp
    obtain ⟨b', hb', rfl⟩ := exists_boundary? hp
    exact place?_struck.symm.trans (place?_of_boundary? (hshrinks.boundary? kid b' hb'))
  refine hrow.carry fun b' hb' => ?_
  obtain ⟨b, hb, hplace, hchildren⟩ := boundary?_struck (hshrinks.boundary? id b' hb')
  have hparent : ¬(s.place? c).bind Place.parent? = some id := by
    intro heq
    obtain ⟨p, hp, hparent⟩ := Option.bind_eq_some_iff.1 heq
    obtain ⟨b'', hb'', rfl⟩ := exists_boundary? hp
    exact hother b'' hb'' hparent
  rw [if_neg hparent] at hchildren
  exact ⟨b, hb, hplace, hchildren, fun kid hmem p hp =>
    (hs.keeps_unmount c).orderly.place?_child hb' (hchildren ▸ hmem) (hplaces kid) hp⟩

end Stage

/-! ## Worlds -/

namespace World

variable {v : Interpreter} {w : World} {id : BoundaryId}

theorem inRow_perform {α : Type} (h : w.Orderly) (hrow : w.stage.InRow id) {p : Recorded α}
    (hp : p.Rows) : (w.perform p.run).stage.InRow id := by
  show (p.run w.stage none).stage.InRow id
  by_cases hlt : w.stage.lastId < id
  · exact hp.inRow _ _ h.fits id hlt
  · obtain ⟨ids, hgrown⟩ := hp.grows w.stage none h.fits
    exact hrow.extend h.stage.bounded hgrown.sprouts.toExtends (Nat.le_of_not_lt hlt)

theorem inRow_mount (h : w.Orderly) (hrow : w.stage.InRow id) (node : ViewNode) (ctx : Context) :
    (w.perform (v.mount node ctx)).stage.InRow id := by
  by_cases hlt : w.stage.lastId < id
  · rw [mount_eq]
    exact (Recorded.evaluate_rows v .view node ctx).spawn h.stage.bounded none none
      Role.noConfusion hlt
  · obtain ⟨stage, hperform, hsprouts, -⟩ := h.perform_mount (v := v) node ctx
    rw [hperform]
    exact hrow.extend h.stage.bounded hsprouts.toExtends (Nat.le_of_not_lt hlt)

/-- Whatever is called, a collection stays in its row unless one of its children is taken away. -/
theorem inRow_after (h : w.Orderly) (hrow : w.stage.InRow id) (errand : Errand)
    (hother : ∀ c, errand = .unmount c → ∀ b, w.stage.boundary? c = some b → b.parent? ≠ some id) :
    (w.after v errand).stage.InRow id := by
  cases errand with
  | create schema type initial =>
    unfold World.after
    dsimp only
    split
    · exact hrow.withLive _
    · exact hrow
  | patch r patch =>
    unfold World.after
    dsimp only
    split
    · exact hrow.withLive _
    · exact hrow
  | observe => exact hrow.withLive _
  | track observer reading =>
    unfold World.after
    dsimp only
    split
    · exact hrow.withLive _
    · exact hrow
  | mount node ctx => exact inRow_mount h hrow node ctx
  | renderView document ctx => exact inRow_mount h hrow document.shown ctx
  | resolve node ctx =>
    have hresolve := inRow_perform h hrow (Recorded.resolve_rows v node ctx)
    rw [Recorded.run_resolve] at hresolve
    exact hresolve
  | flush =>
    have hflush := Recorded.inRow_rerenderAll v w.stage.live.observers.pending
      (Recorded.orderly_unmarked h.stage) (hrow.withLive _)
    rw [Recorded.run_rerenderAll] at hflush
    exact hflush
  | unmount c => exact h.stage.inRow_unmount hrow (hother c rfl)
  | unmountAll =>
    refine inRow_of_boundary?_eq_none ?_
    show IdMap.find? id w.stage.unmountAll.boundaries = none
    rw [h.stage.boundaries_unmountAll]
    rfl

end World

namespace Interpreter

/-- The host has not taken a child of a boundary away. -/
def Untouched (v : Interpreter) (errands : List Errand) (id : BoundaryId) : Prop :=
  ∀ earlier c later, errands = earlier ++ .unmount c :: later →
    ∀ b, (v.run earlier).stage.boundary? c = some b → b.parent? ≠ some id

theorem inRow_run (v : Interpreter) (errands : List Errand) {id : BoundaryId}
    (h : v.Untouched errands id) : (v.run errands).stage.InRow id := by
  induction errands using List.reverseRecOn with
  | nil => exact inRow_of_boundary?_eq_none rfl
  | append_singleton errands errand ih =>
    rw [run_concat]
    have hbefore : v.Untouched errands id := by
      rintro earlier c later rfl
      exact h earlier c (later ++ [errand]) (by rw [List.append_assoc]; rfl)
    refine World.inRow_after (v.orderly_run errands) (ih hbefore) errand fun c heq => ?_
    exact h errands c [] (by rw [heq])

end Interpreter

end BoundView
