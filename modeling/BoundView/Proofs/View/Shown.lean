import BoundView.Proofs.View.Picture

/-!
# Outputs that show a node

An output shows a node in a scope when it is what the interpreter makes of the node, up to near
values, and its boundaries play the parts that the node asks for.  Main statement: an output goes on
showing its node as long as nothing changes that it depends on.
-/

namespace BoundView

open Interpreter (standard itemContext elementsOf)
open Value (Near NearItems)

/-- Which boundaries stand for a node in a scope, each in a role. -/
abbrev Cast : Type :=
  BoundaryId → Role → ViewNode → Context → Prop

/-- A cast that takes a scope for any that is near. -/
def Cast.Lenient (plays : Cast) : Prop :=
  ∀ id role node (scope scope' : Context), scope.Near (fun _ => True) scope' →
    plays id role node scope → plays id role node scope'

namespace ViewNode

/-- What an element with these properties puts out. -/
def elementOutput (tag : String) (outs : Members Rendered) : Rendered :=
  match Members.find? tag Registry.standard with
  | some component => component outs
  | none => .host tag outs

section

variable (models : Models) (plays : Cast) (known : Dependency → Prop) (ctx : Context)

mutual

/-- An output that shows a node, with its boundaries; `known` are the dependencies that are on
record. -/
inductive Shown : ViewNode → Rendered → List BoundaryId → Prop where
  | literal (v : Value) : Shown (.literal v) (.value v) []
  | read (expression : String) {v : Value}
      (hvalue : v.Near (fun _ => True) (standard.readBinding expression ctx models).1)
      (hreads : ∀ d ∈ (standard.readBinding expression ctx models).2.reads, known d) :
      Shown (.read expression) (.value v) []
  | write (expression : String) (scope : Context) :
      Shown (.write expression) (.handler ⟨expression, scope⟩) []
  | sequence {items : List ViewNode} {outs : List Rendered} {ids : List BoundaryId}
      (h : ShownAll items outs ids) : Shown (.sequence items) (.sequence outs) ids
  | collection {source template : ViewNode} {id : BoundaryId}
      (h : plays id .collection (.collection source template) ctx) :
      Shown (.collection source template) (.boundary id) [id]
  | element {tag : String} {props : List (String × ViewNode)} {id : BoundaryId}
      (h : plays id .element (.element tag props) ctx) :
      Shown (.element tag props) (.boundary id) [id]
  | raw (document : Json) : Shown (.raw document) (.raw document) []

inductive ShownAll : List ViewNode → List Rendered → List BoundaryId → Prop where
  | nil : ShownAll [] [] []
  | cons {item : ViewNode} {rest : List ViewNode} {out : Rendered} {outs : List Rendered}
      {ids others : List BoundaryId} (h : Shown item out ids) (hs : ShownAll rest outs others) :
      ShownAll (item :: rest) (out :: outs) (ids ++ others)

end

inductive ShownProps : List (String × ViewNode) → List (String × Rendered) → List BoundaryId →
    Prop where
  | nil : ShownProps [] [] []
  | cons {name : String} {prop : ViewNode} {rest : List (String × ViewNode)} {out : Rendered}
      {outs : List (String × Rendered)} {ids others : List BoundaryId}
      (h : Shown models plays known ctx prop out ids) (hs : ShownProps rest outs others) :
      ShownProps ((name, prop) :: rest) ((name, out) :: outs) (ids ++ others)

/-- Boundaries that show the template of a collection for these items, from an index on. -/
inductive ShownItems (template : ViewNode) : Nat → List Value → List BoundaryId → Prop where
  | nil (index : Nat) : ShownItems template index [] []
  | cons {index : Nat} {item : Value} {rest : List Value} {id : BoundaryId}
      {others : List BoundaryId} (h : plays id .item template (itemContext ctx item index))
      (hs : ShownItems template (index + 1) rest others) :
      ShownItems template index (item :: rest) (id :: others)

/-- An output that shows a node as the boundary of a role puts it out. -/
def ShownAs (role : Role) (node : ViewNode) (out : Rendered) (ids : List BoundaryId) : Prop :=
  match role, node with
  | .element, .element tag props =>
    ∃ outs, ShownProps models plays known ctx props outs ids ∧ out = elementOutput tag outs
  | .collection, .collection source template =>
    ∃ sourceOut sourceIds itemIds, Shown models plays known ctx source sourceOut sourceIds
      ∧ (∀ d ∈ (elementsOf sourceOut models).2.reads, known d)
      ∧ ShownItems plays ctx template 0 (elementsOf sourceOut models).1 itemIds
      ∧ ids = sourceIds ++ itemIds ∧ out = .sequence (itemIds.map Rendered.boundary)
  | _, node => Shown models plays known ctx node out ids

end

variable {models : Models} {plays plays' : Cast} {known known' : Dependency → Prop} {ctx : Context}

/-! ## Other boundaries and dependencies -/

mutual

theorem Shown.imp (hknown : ∀ d, known d → known' d) : ∀ {node : ViewNode} {out : Rendered}
    {ids : List BoundaryId}, Shown models plays known ctx node out ids →
      (∀ id ∈ ids, ∀ role node scope, plays id role node scope → plays' id role node scope) →
      Shown models plays' known' ctx node out ids
  | _, _, _, .literal v, _ => .literal v
  | _, _, _, .read expression hvalue hreads, _ =>
    .read expression hvalue fun d hd => hknown d (hreads d hd)
  | _, _, _, .write expression scope, _ => .write expression scope
  | _, _, _, .sequence h, hplays => .sequence (ShownAll.imp hknown h hplays)
  | _, _, _, .collection h, hplays => .collection (hplays _ List.mem_cons_self _ _ _ h)
  | _, _, _, .element h, hplays => .element (hplays _ List.mem_cons_self _ _ _ h)
  | _, _, _, .raw document, _ => .raw document

theorem ShownAll.imp (hknown : ∀ d, known d → known' d) : ∀ {items : List ViewNode}
    {outs : List Rendered} {ids : List BoundaryId}, ShownAll models plays known ctx items outs ids →
      (∀ id ∈ ids, ∀ role node scope, plays id role node scope → plays' id role node scope) →
      ShownAll models plays' known' ctx items outs ids
  | _, _, _, .nil, _ => .nil
  | _, _, _, .cons h hs, hplays =>
    .cons (Shown.imp hknown h fun id hid => hplays id (List.mem_append_left _ hid))
      (ShownAll.imp hknown hs fun id hid => hplays id (List.mem_append_right _ hid))

end

theorem ShownProps.imp (hknown : ∀ d, known d → known' d) {props : List (String × ViewNode)}
    {outs : List (String × Rendered)} {ids : List BoundaryId}
    (h : ShownProps models plays known ctx props outs ids)
    (hplays : ∀ id ∈ ids, ∀ role node scope, plays id role node scope → plays' id role node scope) :
    ShownProps models plays' known' ctx props outs ids := by
  induction h with
  | nil => exact .nil
  | cons h _ ih =>
    exact .cons (h.imp hknown fun id hid => hplays id (List.mem_append_left _ hid))
      (ih fun id hid => hplays id (List.mem_append_right _ hid))

theorem ShownItems.imp {template : ViewNode} {index : Nat} {items : List Value}
    {ids : List BoundaryId} (h : ShownItems plays ctx template index items ids)
    (hplays : ∀ id ∈ ids, ∀ role node scope, plays id role node scope → plays' id role node scope) :
    ShownItems plays' ctx template index items ids := by
  induction h with
  | nil index => exact .nil index
  | cons h _ ih =>
    exact .cons (hplays _ List.mem_cons_self _ _ _ h)
      (ih fun id hid => hplays id (List.mem_cons_of_mem _ hid))

/-- An output shows its node whatever becomes of other boundaries, and whatever else is known. -/
theorem ShownAs.imp (hknown : ∀ d, known d → known' d) {role : Role} {node : ViewNode}
    {out : Rendered} {ids : List BoundaryId} (h : ShownAs models plays known ctx role node out ids)
    (hplays : ∀ id ∈ ids, ∀ role node scope, plays id role node scope → plays' id role node scope) :
    ShownAs models plays' known' ctx role node out ids := by
  unfold ShownAs at h ⊢
  split at h
  · obtain ⟨outs, hprops, hout⟩ := h
    exact ⟨outs, hprops.imp hknown hplays, hout⟩
  · obtain ⟨sourceOut, sourceIds, itemIds, hsource, hreads, hitems, rfl, hout⟩ := h
    refine ⟨sourceOut, sourceIds, itemIds, ?_, fun d hd => hknown d (hreads d hd), ?_, rfl, hout⟩
    · exact hsource.imp hknown fun id hid => hplays id (List.mem_append_left _ hid)
    · exact hitems.imp fun id hid => hplays id (List.mem_append_right _ hid)
  · exact Shown.imp hknown h hplays

/-! ## Other models -/

section

variable {before after : Models} {unaffected : Dependency → Prop} {held : ModelRef → Prop}
  {model : ModelId}

theorem Shown.near_value (htwins : Twins before after unaffected held) (hctx : ctx.Near held ctx)
    (hknown : ∀ d, known d → unaffected d) {node : ViewNode} (hnode : Tidy node) {v : Value}
    {ids : List BoundaryId} (h : Shown before plays known ctx node (.value v) ids) :
    Near held v v := by
  cases h with
  | literal => exact Near.mono (fun _ hq => hq.elim) hnode
  | read expression hvalue hreads =>
    -- What is read holds on to nothing else, and the output is near what is read.
    have hagree := (Interpreter.readBinding_agree htwins hctx expression fun d hd =>
      hknown d (hreads d hd)).1
    exact Near.self hvalue ((hagree.trans hagree.symm).mono fun _ hq => hq.1)

theorem ShownAll.near_value (htwins : Twins before after unaffected held)
    (hctx : ctx.Near held ctx) (hknown : ∀ d, known d → unaffected d) {items : List ViewNode}
    (hitems : TidyItems items) {outs : List Rendered} {ids : List BoundaryId}
    (h : ShownAll before plays known ctx items outs ids) (v : Value) (hv : .value v ∈ outs) :
    Near held v v := by
  induction items generalizing outs ids with
  | nil =>
    cases h
    exact absurd hv List.not_mem_nil
  | cons item rest ih =>
    cases h with
    | cons h hs =>
      rcases List.mem_cons.1 hv with rfl | hv
      · exact h.near_value htwins hctx hknown hitems.1
      · exact ih hitems.2 hs hv

/-- What a collection finds in the output of its source holds on to nothing else than its scope. -/
theorem Shown.holds (htwins : Twins before after unaffected held) (hctx : ctx.Near held ctx)
    (hknown : ∀ d, known d → unaffected d) {node : ViewNode} (hnode : Tidy node) {out : Rendered}
    {ids : List BoundaryId} (h : Shown before plays known ctx node out ids) : out.Holds held := by
  cases out with
  | value v => exact h.near_value htwins hctx hknown hnode
  | sequence outs =>
    cases h with
    | sequence h => exact h.near_value htwins hctx hknown hnode
  | handler | host | boundary | raw => trivial

mutual

theorem Shown.keep (htwins : Twins before after unaffected held) (hctx : ctx.Near held ctx)
    (hknown : ∀ d, known d → unaffected d) : ∀ {node : ViewNode} {out : Rendered}
    {ids : List BoundaryId}, Shown before plays known ctx node out ids →
      Shown after plays known ctx node out ids
  | _, _, _, .literal v => .literal v
  | _, _, _, .read expression hvalue hreads => by
    obtain ⟨hnear, htrace⟩ := Interpreter.readBinding_agree htwins hctx expression fun d hd =>
      hknown d (hreads d hd)
    refine .read expression ((hvalue.trans hnear).mono fun _ _ => trivial) fun d hd => ?_
    rw [htrace] at hd
    exact hreads d hd
  | _, _, _, .write expression scope => .write expression scope
  | _, _, _, .sequence h => .sequence (ShownAll.keep htwins hctx hknown h)
  | _, _, _, .collection h => .collection h
  | _, _, _, .element h => .element h
  | _, _, _, .raw document => .raw document

theorem ShownAll.keep (htwins : Twins before after unaffected held) (hctx : ctx.Near held ctx)
    (hknown : ∀ d, known d → unaffected d) : ∀ {items : List ViewNode} {outs : List Rendered}
    {ids : List BoundaryId}, ShownAll before plays known ctx items outs ids →
      ShownAll after plays known ctx items outs ids
  | _, _, _, .nil => .nil
  | _, _, _, .cons h hs =>
    .cons (Shown.keep htwins hctx hknown h) (ShownAll.keep htwins hctx hknown hs)

end

theorem ShownProps.keep (htwins : Twins before after unaffected held) (hctx : ctx.Near held ctx)
    (hknown : ∀ d, known d → unaffected d) {props : List (String × ViewNode)}
    {outs : List (String × Rendered)} {ids : List BoundaryId}
    (h : ShownProps before plays known ctx props outs ids) :
    ShownProps after plays known ctx props outs ids := by
  induction h with
  | nil => exact .nil
  | cons h _ ih => exact .cons (h.keep htwins hctx hknown) ih

theorem ShownItems.of_near (hplays : plays.Lenient) (hctx : ctx.Scope model) {template : ViewNode}
    {index : Nat} {items items' : List Value} {ids : List BoundaryId}
    (h : ShownItems plays ctx template index items ids) (hnear : NearItems held items items') :
    ShownItems plays ctx template index items' ids := by
  induction h generalizing items' with
  | nil index =>
    cases hnear
    exact .nil index
  | cons h _ ih =>
    cases hnear with
    | cons hitem hitems =>
      exact .cons (hplays _ _ _ _ _
        (near_itemContext hctx hctx (Near.mono (fun _ _ => trivial) hitem) _) h) (ih hitems)

/-- An output goes on showing its node while nothing changes that is on record for it. -/
theorem ShownAs.keep (htwins : Twins before after unaffected held) (hctx : ctx.Near held ctx)
    (hscope : ctx.Scope model) (hknown : ∀ d, known d → unaffected d) (hplays : plays.Lenient)
    {role : Role} {node : ViewNode} (hnode : Tidy node) {out : Rendered} {ids : List BoundaryId}
    (h : ShownAs before plays known ctx role node out ids) :
    ShownAs after plays known ctx role node out ids := by
  unfold ShownAs at h ⊢
  split at h
  · obtain ⟨outs, hprops, hout⟩ := h
    exact ⟨outs, hprops.keep htwins hctx hknown, hout⟩
  · obtain ⟨sourceOut, sourceIds, itemIds, hsource, hreads, hitems, hids⟩ := h
    -- The output of the source is the same as before, and only what is read through it may differ.
    obtain ⟨hnear, htrace⟩ := Interpreter.elementsOf_agree htwins
      (hsource.holds htwins hctx hknown hnode.1) fun d hd => hknown d (hreads d hd)
    refine ⟨sourceOut, sourceIds, itemIds, hsource.keep htwins hctx hknown, fun d hd => ?_,
      hitems.of_near hplays hscope hnear, hids⟩
    rw [htrace] at hd
    exact hreads d hd
  · exact Shown.keep htwins hctx hknown h

end

/-! ## Boundaries inside -/

section

variable {held : ModelRef → Prop} {model : ModelId} {id : BoundaryId}

mutual

theorem Shown.exists_part : ∀ {node : ViewNode} {out : Rendered} {ids : List BoundaryId},
    Shown models plays known ctx node out ids → id ∈ ids → ∃ role node', plays id role node' ctx
  | _, _, _, .literal _, hid => absurd hid List.not_mem_nil
  | _, _, _, .read _ _ _, hid => absurd hid List.not_mem_nil
  | _, _, _, .write _ _, hid => absurd hid List.not_mem_nil
  | _, _, _, .sequence h, hid => ShownAll.exists_part h hid
  | _, _, _, .collection h, hid => List.mem_singleton.1 hid ▸ ⟨_, _, h⟩
  | _, _, _, .element h, hid => List.mem_singleton.1 hid ▸ ⟨_, _, h⟩
  | _, _, _, .raw _, hid => absurd hid List.not_mem_nil

theorem ShownAll.exists_part : ∀ {items : List ViewNode} {outs : List Rendered}
    {ids : List BoundaryId}, ShownAll models plays known ctx items outs ids → id ∈ ids →
      ∃ role node', plays id role node' ctx
  | _, _, _, .nil, hid => absurd hid List.not_mem_nil
  | _, _, _, .cons h hs, hid =>
    (List.mem_append.1 hid).elim (Shown.exists_part h) (ShownAll.exists_part hs)

end

theorem ShownProps.exists_part {props : List (String × ViewNode)}
    {outs : List (String × Rendered)} {ids : List BoundaryId}
    (h : ShownProps models plays known ctx props outs ids) (hid : id ∈ ids) :
    ∃ role node', plays id role node' ctx := by
  induction h with
  | nil => exact absurd hid List.not_mem_nil
  | cons h _ ih => exact (List.mem_append.1 hid).elim h.exists_part ih

theorem ShownItems.exists_part (hscope : ctx.Scope model) (hroot : held (.root model))
    {template : ViewNode} {index : Nat} {items : List Value} {ids : List BoundaryId}
    (h : ShownItems plays ctx template index items ids) (hitems : NearItems held items items)
    (hid : id ∈ ids) : ∃ role node' scope, plays id role node' scope ∧ scope.Near held scope := by
  induction h with
  | nil => exact absurd hid List.not_mem_nil
  | @cons index item rest first others h _ ih =>
    cases hitems with
    | cons hitem hitems =>
      rcases List.mem_cons.1 hid with rfl | hid
      · refine ⟨_, _, _, h, ?_⟩
        rw [hscope.itemContext_eq]
        exact Context.near_item hroot hitem (.refl _)
      · exact ih hitems hid

/-- The boundaries inside see nothing else than the scope around them and what is read there. -/
theorem ShownAs.exists_part (htwins : Twins models models (fun _ => True) held)
    (hctx : ctx.Near held ctx) (hscope : ctx.Scope model) (hroot : held (.root model)) {role : Role}
    {node : ViewNode} (hnode : Tidy node) {out : Rendered} {ids : List BoundaryId}
    (h : ShownAs models plays known ctx role node out ids) (hid : id ∈ ids) :
    ∃ role node' scope, plays id role node' scope ∧ scope.Near held scope := by
  have hinner : (∃ role node', plays id role node' ctx) →
      ∃ role node' scope, plays id role node' scope ∧ scope.Near held scope :=
    fun ⟨role, node', hplays⟩ => ⟨role, node', ctx, hplays, hctx⟩
  unfold ShownAs at h
  split at h
  · obtain ⟨outs, hprops, -⟩ := h
    exact hinner (hprops.exists_part hid)
  · obtain ⟨sourceOut, sourceIds, itemIds, hsource, -, hitems, rfl, -⟩ := h
    rcases List.mem_append.1 hid with hid | hid
    · exact hinner (hsource.exists_part hid)
    -- An item sees the element that it stands for, which was read out of the source.
    · have hholds := hsource.holds htwins hctx (fun _ _ => trivial) hnode.1
      have hnear := (Interpreter.elementsOf_agree htwins hholds fun _ _ => trivial).1
      exact hitems.exists_part hscope hroot hnear hid
  · exact hinner (Shown.exists_part h hid)

end

end ViewNode

end BoundView
