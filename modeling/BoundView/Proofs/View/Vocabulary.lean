import BoundView.Proofs.Session
import BoundView.Proofs.View.Upkeep

/-!
# What stands in a tree

The tags and the handlers of a tree are taken from the document of the view, and all that comes from
models and events is data.  A vocabulary says which tags and which handlers there may be; nodes,
outputs and trees keep within it, and so do stages, whatever is rendered.  Main statement: after any
patches, events and flushes each tag that a session shows is one of an element of its view, and each
handler a `%` binding of its view.
-/

namespace BoundView

/-! ## Vocabularies -/

/-- The tags that elements of a view have, the tags that the host sees, and the expressions that
handlers have. -/
structure Vocabulary where
  Tag : String → Prop
  Shown : String → Prop
  Handler : String → Prop

variable {w : Vocabulary}

/-- A node whose elements and handlers are in a vocabulary. -/
inductive ViewNode.Within (w : Vocabulary) : ViewNode → Prop where
  | literal (v : Value) : Within w (.literal v)
  | read (expression : String) : Within w (.read expression)
  | write {expression : String} (h : w.Handler expression) : Within w (.write expression)
  | sequence {items : List ViewNode} (h : ∀ item ∈ items, Within w item) :
      Within w (.sequence items)
  | collection {source template : ViewNode} (hsource : Within w source)
      (htemplate : Within w template) : Within w (.collection source template)
  | element {tag : String} {props : List (String × ViewNode)} (htag : w.Tag tag)
      (h : ∀ prop ∈ props, Within w prop.2) : Within w (.element tag props)
  | raw (document : Json) : Within w (.raw document)

/-- An output whose elements and handlers are in a vocabulary. -/
inductive Rendered.Within (w : Vocabulary) : Rendered → Prop where
  | value (v : Value) : Within w (.value v)
  | handler {h : EventHandler} (hexpression : w.Handler h.expression) : Within w (.handler h)
  | sequence {items : List Rendered} (h : ∀ item ∈ items, Within w item) :
      Within w (.sequence items)
  | host {tag : String} {props : List (String × Rendered)} (htag : w.Shown tag)
      (h : ∀ prop ∈ props, Within w prop.2) : Within w (.host tag props)
  | boundary (id : BoundaryId) : Within w (.boundary id)
  | raw (document : Json) : Within w (.raw document)

/-- A tree whose elements and handlers are in a vocabulary; all else in it is data. -/
inductive RenderTree.Within (w : Vocabulary) : RenderTree → Prop where
  | data (document : Json) : Within w (.data document)
  | handler {h : EventHandler} (hexpression : w.Handler h.expression) : Within w (.handler h)
  | fragment {items : List RenderTree} (h : ∀ item ∈ items, Within w item) :
      Within w (.fragment items)
  | element {tag : String} {props : List (String × RenderTree)} (htag : w.Shown tag)
      (h : ∀ prop ∈ props, Within w prop.2) : Within w (.element tag props)

/-- Boundaries that stand for nodes in a vocabulary and show outputs in it. -/
def Stage.Within (w : Vocabulary) (s : Stage) : Prop :=
  ∀ id b, s.boundary? id = some b → b.node.Within w ∧ b.output.Within w

/-! ## Trees -/

namespace RenderTree

mutual

theorem Within.find? {tag : String} : ∀ {t found : RenderTree}, t.Within w →
    t.find? tag = some found → found.Within w ∧ w.Shown tag
  | .data _, _, _, hfind => nomatch hfind
  | .handler _, _, _, hfind => nomatch hfind
  | .fragment items, found, h, hfind => by
    cases h with
    | fragment h => exact Within.findItem? h hfind
  | .element own props, found, h, hfind => by
    rw [RenderTree.find?] at hfind
    cases h with
    | element htag h =>
      split at hfind
      · rename_i heq
        exact ⟨Option.some.inj hfind ▸ .element htag h, heq ▸ htag⟩
      · exact Within.findProp? h hfind

theorem Within.findItem? {tag : String} : ∀ {items : List RenderTree} {found : RenderTree},
    (∀ item ∈ items, item.Within w) → findItem? tag items = some found →
      found.Within w ∧ w.Shown tag
  | [], _, _, hfind => nomatch hfind
  | item :: rest, found, h, hfind => by
    rw [List.forall_mem_cons] at h
    rw [RenderTree.findItem?, Option.or_eq_some_iff] at hfind
    rcases hfind with hfind | ⟨-, hfind⟩
    · exact Within.find? h.1 hfind
    · exact Within.findItem? h.2 hfind

theorem Within.findProp? {tag : String} : ∀ {props : List (String × RenderTree)}
    {found : RenderTree}, (∀ prop ∈ props, prop.2.Within w) → findProp? tag props = some found →
      found.Within w ∧ w.Shown tag
  | [], _, _, hfind => nomatch hfind
  | (_, prop) :: rest, found, h, hfind => by
    rw [List.forall_mem_cons] at h
    rw [RenderTree.findProp?, Option.or_eq_some_iff] at hfind
    rcases hfind with hfind | ⟨-, hfind⟩
    · exact Within.find? h.1 hfind
    · exact Within.findProp? h.2 hfind

end

theorem Within.handler? {name : String} {t : RenderTree} {h : EventHandler} (ht : t.Within w)
    (hhandler : t.handler? name = some h) : w.Handler h.expression := by
  unfold RenderTree.handler? RenderTree.prop? at hhandler
  split at hhandler
  · rename_i hprop
    obtain rfl := Option.some.inj hhandler
    cases ht with
    | element htag hprops =>
      cases hprops _ (Members.mem_of_find? hprop) with
      | handler hexpression => exact hexpression
    | data | handler | fragment => exact nomatch hprop
  · exact nomatch hhandler

end RenderTree

namespace Rendered

variable {models : Models} {inner : BoundaryId → RenderTree}

mutual

theorem Within.tree (hinner : ∀ id, (inner id).Within w) : ∀ {out : Rendered}, out.Within w →
    (out.tree models inner).Within w
  | .value v, _ => .data _
  | .raw document, _ => .data _
  | .boundary id, _ => hinner id
  | .handler h, hout => by
    cases hout with
    | handler hexpression => exact .handler hexpression
  | .sequence items, hout => by
    cases hout with
    | sequence h => exact .fragment (Within.treeItems hinner h)
  | .host tag props, hout => by
    cases hout with
    | host htag h => exact .element htag (Within.treeProps hinner h)

theorem Within.treeItems (hinner : ∀ id, (inner id).Within w) : ∀ {items : List Rendered},
    (∀ item ∈ items, item.Within w) → ∀ t ∈ treeItems models inner items, t.Within w
  | [], _ => fun _ ht => absurd ht List.not_mem_nil
  | item :: rest, h => by
    rw [List.forall_mem_cons] at h
    rw [Rendered.treeItems, List.forall_mem_cons]
    exact ⟨Within.tree hinner h.1, Within.treeItems hinner h.2⟩

theorem Within.treeProps (hinner : ∀ id, (inner id).Within w) :
    ∀ {props : List (String × Rendered)}, (∀ prop ∈ props, prop.2.Within w) →
      ∀ prop ∈ treeProps models inner props, prop.2.Within w
  | [], _ => fun _ ht => absurd ht List.not_mem_nil
  | (_, prop) :: rest, h => by
    rw [List.forall_mem_cons] at h
    rw [Rendered.treeProps, List.forall_mem_cons]
    exact ⟨Within.tree hinner h.1, Within.treeProps hinner h.2⟩

end

end Rendered

namespace Stage

variable {s : Stage}

theorem Within.treeWithin (h : s.Within w) (depth : Nat) (id : BoundaryId) :
    (s.treeWithin depth id).Within w := by
  induction depth generalizing id with
  | zero => exact .data _
  | succ depth ih =>
    rw [Stage.treeWithin]
    cases hout : s.output? id with
    | none => exact .data _
    | some out =>
      obtain ⟨b, hb, rfl⟩ := Option.map_eq_some_iff.1 hout
      exact Rendered.Within.tree ih (h id b hb).2

/-! ## Renderings -/

theorem Within.modifyBoundary (h : s.Within w) (id : BoundaryId) {f : Boundary → Boundary}
    (hf : ∀ b, b.node.Within w ∧ b.output.Within w → (f b).node.Within w ∧ (f b).output.Within w) :
    (s.modifyBoundary id f).Within w := by
  intro other b hb
  by_cases hne : other = id
  · subst hne
    rw [boundary?_modifyBoundary_self] at hb
    obtain ⟨former, hformer, rfl⟩ := Option.map_eq_some_iff.1 hb
    exact hf former (h other former hformer)
  · rw [boundary?_modifyBoundary_of_ne f hne] at hb
    exact h other b hb

theorem Within.removeBoundary (h : s.Within w) (id : BoundaryId) :
    (s.removeBoundary id).Within w := by
  intro other b hb
  by_cases hne : other = id
  · subst hne
    exact nomatch boundary?_removeBoundary_self.symm.trans hb
  · rw [boundary?_removeBoundary_of_ne hne] at hb
    exact h other b hb

theorem Within.drop (h : s.Within w) (ids : List BoundaryId) : (s.drop ids).Within w :=
  drop_preserves (P := Stage.Within w) (fun _ id h => h.removeBoundary id) s ids h

end Stage

namespace Rendering

variable {α β : Type}

/-- What is done keeps a stage within a vocabulary, and what it gives is as it should be. -/
def Within (w : Vocabulary) (post : α → Prop) (m : Rendering α) : Prop :=
  ∀ s frame?, s.Within w → (m s frame?).stage.Within w ∧ post (m s frame?).value

variable {post : α → Prop} {post' : β → Prop} {body : Rendering Rendered}

theorem Within.pure {a : α} (h : post a) : Within w post (pure a) :=
  fun _ _ hs => ⟨hs, h⟩

theorem Within.bind {m : Rendering α} {f : α → Rendering β} (h : Within w post m)
    (hf : ∀ a, post a → Within w post' (f a)) : Within w post' (m >>= f) := by
  intro s frame? hs
  obtain ⟨hstage, hvalue⟩ := h s frame? hs
  exact hf _ hvalue _ _ hstage

theorem Within.ofReading (m : Reading α) : Within w (fun _ => True) (ofReading m) :=
  fun _ _ hs => ⟨hs, trivial⟩

theorem Within.render (h : Within w (Rendered.Within w) body) (id : BoundaryId) :
    Within w (fun _ => True) (render id body) := by
  intro s frame? hs
  unfold Rendering.render
  split
  · exact ⟨hs, trivial⟩
  · rename_i b hb
    obtain ⟨hstage, hvalue⟩ := h _ (some ⟨id, b.children, []⟩)
      (hs.modifyBoundary id (f := fun b => { b with children := [] }) fun _ hb => hb)
    refine ⟨Stage.Within.modifyBoundary (Stage.Within.drop ?_ _) id fun _ hb => ⟨hb.1, hvalue⟩,
      trivial⟩
    exact hstage

theorem Within.spawn (h : Within w (Rendered.Within w) body) (role : Role) {node : ViewNode}
    (hnode : node.Within w) (ctx : Context) (parent? : Option BoundaryId) :
    Within w (fun _ => True) (spawn role node ctx parent? body) := by
  intro s frame? hs
  refine ⟨(h.render _ _ frame? fun other b hb => ?_).1, trivial⟩
  by_cases hne : other = s.lastId + 1
  · subst hne
    obtain rfl := Option.some.inj (boundary?_planted_self.symm.trans hb)
    exact ⟨hnode, .value _⟩
  · exact hs other b ((boundary?_planted_of_ne hne).symm.trans hb)

theorem Within.child (h : Within w (Rendered.Within w) body) (role : Role) {node : ViewNode}
    (hnode : node.Within w) (ctx : Context) :
    Within w (fun _ => True) (child role node ctx body) := by
  intro s frame? hs
  refine ⟨?_, trivial⟩
  unfold Rendering.child
  split
  · exact (h.spawn role hnode ctx none s none hs).1
  · dsimp only
    split
    -- A boundary that is kept keeps its output.
    · exact hs
    · exact (h.spawn role hnode ctx _ s _ hs).1

end Rendering

/-! ## Interpreters -/

/-- Components that make outputs in a vocabulary of properties in it, where tags that stand for none
are shown as they are. -/
structure Registry.Speaks (w : Vocabulary) (r : Registry) : Prop where
  component : ∀ (tag : String) (c : Component) (props : Members Rendered), w.Tag tag →
    Members.find? tag r = some c → (∀ prop ∈ props, prop.2.Within w) → (c props).Within w
  plain : ∀ tag, w.Tag tag → Members.find? tag r = none → w.Shown tag

namespace Interpreter

open Rendering (child)

variable {v : Interpreter} {ctx : Context}

theorem renderElement_within (hv : v.registry.Speaks w) {tag : String} (htag : w.Tag tag)
    {props : Rendering (Members Rendered)}
    (h : Rendering.Within w (fun props => ∀ prop ∈ props, prop.2.Within w) props) :
    Rendering.Within w (Rendered.Within w) (v.renderElement tag props) := by
  refine h.bind fun props hprops => ?_
  split
  · rename_i c hc
    exact .pure (hv.component tag c props htag hc hprops)
  · rename_i hnone
    exact .pure (.host (hv.plain tag htag hnone) hprops)

theorem renderItems_within {template : ViewNode} (htemplate : template.Within w)
    {render : Context → Rendering Rendered}
    (hrender : ∀ scope, Rendering.Within w (Rendered.Within w) (render scope)) (index : Nat)
    (values : List Value) :
    Rendering.Within w (fun items => ∀ item ∈ items, item.Within w)
      (renderItems template render ctx index values) := by
  induction values generalizing index with
  | nil => exact .pure fun _ h => absurd h List.not_mem_nil
  | cons value rest ih =>
    refine ((hrender _).child .item htemplate _).bind fun id _ => ?_
    refine (ih (index + 1)).bind fun others hothers => .pure ?_
    exact List.forall_mem_cons.2 ⟨.boundary id, hothers⟩

theorem renderCollection_within {source : Rendering Rendered}
    (hsource : Rendering.Within w (Rendered.Within w) source) {template : ViewNode}
    (htemplate : template.Within w) {render : Context → Rendering Rendered}
    (hrender : ∀ scope, Rendering.Within w (Rendered.Within w) (render scope)) :
    Rendering.Within w (Rendered.Within w) (renderCollection source template render ctx) := by
  refine hsource.bind fun out _ => ?_
  refine (Rendering.Within.ofReading _).bind fun values _ => ?_
  exact (renderItems_within htemplate hrender 0 values).bind fun items hitems =>
    .pure (.sequence hitems)

mutual

theorem resolve_within (hv : v.registry.Speaks w) : ∀ {node : ViewNode}, node.Within w → ∀ ctx,
    Rendering.Within w (Rendered.Within w) (v.resolve ctx node)
  | .literal value, _, ctx => by
    rw [resolve]
    exact .pure (.value value)
  | .read expression, _, ctx => by
    rw [resolve]
    exact (Rendering.Within.ofReading _).bind fun value _ => .pure (.value value)
  | .write expression, h, ctx => by
    rw [resolve]
    cases h with
    | write h => exact .pure (.handler h)
  | .raw document, _, ctx => by
    rw [resolve]
    exact .pure (.raw document)
  | .sequence items, h, ctx => by
    rw [resolve]
    cases h with
    | sequence h =>
      exact (resolveItems_within hv h ctx).bind fun items hitems => .pure (.sequence hitems)
  | .collection source template, h, ctx => by
    rw [resolve]
    cases h with
    | collection hsource htemplate =>
      have hbody := @renderCollection_within _ ctx _ (resolve_within hv hsource ctx) _ htemplate _
        fun scope => resolve_within hv htemplate scope
      exact (hbody.child .collection (.collection hsource htemplate) ctx).bind fun id _ =>
        .pure (.boundary id)
  | .element tag props, h, ctx => by
    rw [resolve]
    cases h with
    | element htag h =>
      have hbody := renderElement_within hv htag (resolveProps_within hv h ctx)
      exact (hbody.child .element (.element htag h) ctx).bind fun id _ => .pure (.boundary id)

theorem resolveItems_within (hv : v.registry.Speaks w) : ∀ {items : List ViewNode},
    (∀ item ∈ items, item.Within w) → ∀ ctx,
      Rendering.Within w (fun items => ∀ item ∈ items, item.Within w) (v.resolveItems ctx items)
  | [], _, ctx => by
    rw [resolveItems]
    exact .pure fun _ h => absurd h List.not_mem_nil
  | item :: rest, h, ctx => by
    rw [List.forall_mem_cons] at h
    rw [resolveItems]
    refine (resolve_within hv h.1 ctx).bind fun first hfirst => ?_
    exact (resolveItems_within hv h.2 ctx).bind fun others hothers =>
      .pure (List.forall_mem_cons.2 ⟨hfirst, hothers⟩)

theorem resolveProps_within (hv : v.registry.Speaks w) : ∀ {props : List (String × ViewNode)},
    (∀ prop ∈ props, prop.2.Within w) → ∀ ctx,
      Rendering.Within w (fun props => ∀ prop ∈ props, prop.2.Within w) (v.resolveProps ctx props)
  | [], _, ctx => by
    rw [resolveProps]
    exact .pure fun _ h => absurd h List.not_mem_nil
  | (name, prop) :: rest, h, ctx => by
    rw [List.forall_mem_cons] at h
    rw [resolveProps]
    refine (resolve_within hv h.1 ctx).bind fun first hfirst => ?_
    refine (Rendering.Within.ofReading _).bind fun _ _ => ?_
    exact (resolveProps_within hv h.2 ctx).bind fun others hothers =>
      .pure (List.forall_mem_cons.2 ⟨hfirst, hothers⟩)

end

theorem evaluate_within (hv : v.registry.Speaks w) (role : Role) {node : ViewNode}
    (h : node.Within w) (ctx : Context) :
    Rendering.Within w (Rendered.Within w) (v.evaluate role node ctx) := by
  unfold evaluate
  split
  · cases h with
    | element htag h => exact renderElement_within hv htag (resolveProps_within hv h ctx)
  · cases h with
    | collection hsource htemplate =>
      exact renderCollection_within (resolve_within hv hsource ctx) htemplate
        fun scope => resolve_within hv htemplate scope
  · exact resolve_within hv h ctx

theorem rerender_within (hv : v.registry.Speaks w) (id : BoundaryId) :
    Rendering.Within w (fun _ => True) (v.rerender id) := by
  intro s frame? hs
  unfold rerender
  split
  · exact ⟨hs, trivial⟩
  -- The node that is rendered again is the one that the boundary was made for.
  · rename_i b hb
    exact (evaluate_within hv b.role (hs id b hb).1 b.context).render id s frame? hs

theorem rerenderAll_within (hv : v.registry.Speaks w) (ids : List BoundaryId) :
    Rendering.Within w (fun _ => True) (v.rerenderAll ids) := by
  induction ids with
  | nil => exact .pure trivial
  | cons id rest ih =>
    intro s frame? hs
    unfold rerenderAll
    split
    · have hboth : Rendering.Within w (fun _ => True) (do
          v.rerender id
          let others ← v.rerenderAll rest
          pure (others + 1)) :=
        (rerender_within hv id).bind fun _ _ => ih.bind fun _ _ => .pure trivial
      exact hboth s frame? hs
    · exact ih s frame? hs

theorem flush_within (hv : v.registry.Speaks w) : Rendering.Within w (fun _ => True) v.flush :=
  fun _ frame? hs => rerenderAll_within hv _ _ frame? hs

theorem mount_within (hv : v.registry.Speaks w) {node : ViewNode} (h : node.Within w)
    (ctx : Context) :
    Rendering.Within w (fun _ => True) (v.mount node ctx) :=
  (evaluate_within hv .view h ctx).spawn .view h ctx none

end Interpreter

/-! ## Documents of views -/

open ViewNode (truthyMember? classify classifyMembers tagText)

/-- The parts of a document that are views on their own: elements of arrays, the source and the
template of a collection, and the properties of an element.  What is inside of other objects is
none. -/
inductive Json.ViewPart (root : Json) : Json → Prop where
  | root : ViewPart root root
  | item {items : List Json} {j : Json} (h : ViewPart root (.array items)) (hj : j ∈ items) :
      ViewPart root j
  | source {ms : Members Json} {source j : Json} {name : String} (h : ViewPart root (.object ms))
      (hsource : truthyMember? "[]" ms = some source) (hname : name = "[]" ∨ name = "template")
      (hj : Members.find? name ms = some j) : ViewPart root j
  | prop {ms : Members Json} {tag j : Json} {name : String} (h : ViewPart root (.object ms))
      (hsource : truthyMember? "[]" ms = none) (htag : truthyMember? "<>" ms = some tag)
      (hj : (name, j) ∈ Members.erase "<>" ms) : ViewPart root j

namespace ViewDocument

/-- A part of the document that is a view on its own. -/
def Part (d : ViewDocument) (j : Json) : Prop :=
  ∃ root, d.root?.filter (fun root => (Value.ofJson root).isTruthy) = some root ∧ root.ViewPart j

/-- The tag of an element of the view. -/
def ElementTag (d : ViewDocument) (tag : String) : Prop :=
  ∃ ms value, d.Part (.object ms) ∧ truthyMember? "[]" ms = none
    ∧ truthyMember? "<>" ms = some value ∧ tagText value = tag

/-- The text behind the `%` of a binding of the view. -/
def Binds (d : ViewDocument) (expression : String) : Prop :=
  ∃ text, d.Part (.string text) ∧ Text.trimBlank text.toList = '%' :: expression.toList

/-- The tags that the host sees with the standard components: those of the elements, but for the
ones that have a component, and that of the placeholder. -/
inductive Shows (d : ViewDocument) : String → Prop where
  | plain {tag : String} (h : d.ElementTag tag)
      (hplain : Members.find? tag Registry.standard = none) :
      Shows d tag
  | button (h : d.ElementTag "Button") : Shows d "button"
  | placeholder (h : d.rootNode? = none) : Shows d "h1"

def vocabulary (d : ViewDocument) : Vocabulary where
  Tag tag := d.ElementTag tag ∨ d.rootNode? = none ∧ tag = "h1"
  Shown := d.Shows
  Handler := d.Binds

variable {d : ViewDocument}

theorem standard_speaks (d : ViewDocument) : Registry.standard.Speaks d.vocabulary where
  component tag c props htag hc hprops := by
    have hnames := Members.mem_of_find? hc
    simp only [Registry.standard, List.mem_cons, List.not_mem_nil, or_false,
      Prod.mk.injEq] at hnames
    rcases hnames with ⟨rfl, rfl⟩ | ⟨rfl, rfl⟩
    · rcases htag with htag | ⟨-, htag⟩
      · refine .host (.button htag) (Members.forall_mem_merge (fun prop hprop => ?_) hprops)
        obtain rfl := List.mem_singleton.1 hprop
        exact .value _
      · exact absurd htag (by decide)
    · exact .value _
  plain tag htag hnone := by
    rcases htag with htag | ⟨hroot, rfl⟩
    · exact .plain htag hnone
    · exact .placeholder hroot

/-! ## Nodes of a document -/

theorem Part.item {items : List Json} {j : Json} (h : d.Part (.array items)) (hj : j ∈ items) :
    d.Part j := by
  obtain ⟨root, hroot, h⟩ := h
  exact ⟨root, hroot, h.item hj⟩

theorem ofText_within {text : String} (h : d.Part (.string text)) :
    (ViewNode.ofText text).Within d.vocabulary := by
  unfold ViewNode.ofText
  split
  · exact .read _
  · rename_i rest htext
    exact .write ⟨text, h, by rw [htext, String.toList_ofList]⟩
  · exact .literal _

theorem ofMembers_within {ms : Members Json} (h : d.Part (.object ms))
    (hms : ∀ pair ∈ ms, d.Part pair.2 → (classify pair.2).Within d.vocabulary) :
    (ViewNode.ofMembers ms (classifyMembers ms)).Within d.vocabulary := by
  obtain ⟨root, hroot, hpart⟩ := h
  rw [ViewNode.classifyMembers_eq]
  unfold ViewNode.ofMembers
  split
  · rename_i source hsource
    have hfound {name : String} (hname : name = "[]" ∨ name = "template") :
        ((Members.find? name (Members.mapValues classify ms)).getD (.literal .undefined)).Within
          d.vocabulary := by
      rw [Members.find?_mapValues]
      cases hfind : Members.find? name ms with
      | none => exact .literal _
      | some j =>
        exact hms (name, j) (Members.mem_of_find? hfind)
          ⟨root, hroot, hpart.source hsource hname hfind⟩
    exact .collection (hfound (.inl rfl)) (hfound (.inr rfl))
  · rename_i value hsource htag
    refine .element (.inl ⟨ms, value, ⟨root, hroot, hpart⟩, hsource, htag, rfl⟩) ?_
    rw [← Members.mapValues_erase]
    intro prop hprop
    obtain ⟨pair, hpair, rfl⟩ := List.mem_map.1 hprop
    exact hms pair ((Members.erase_sublist "<>" ms).subset hpair)
      ⟨root, hroot, hpart.prop hsource htag hpair⟩
  · exact .raw _

mutual

theorem classify_within : ∀ j : Json, d.Part j → (classify j).Within d.vocabulary
  | .null, _ => .literal _
  | .bool b, _ => .literal _
  | .number n, _ => .literal _
  | .string text, h => by
    rw [classify]
    exact ofText_within h
  | .array items, h => by
    rw [classify, ViewNode.classifyItems_eq]
    refine .sequence fun node hnode => ?_
    obtain ⟨j, hj, rfl⟩ := List.mem_map.1 hnode
    exact classifyItems_within items j hj (h.item hj)
  | .object ms, h => by
    rw [classify]
    exact ofMembers_within h (classifyMembers_within ms)

theorem classifyItems_within : ∀ items : List Json, ∀ j ∈ items, d.Part j →
    (classify j).Within d.vocabulary
  | [] => fun _ hj => absurd hj List.not_mem_nil
  | item :: rest =>
    List.forall_mem_cons.2 ⟨classify_within item, classifyItems_within rest⟩

theorem classifyMembers_within : ∀ ms : List (String × Json), ∀ pair ∈ ms, d.Part pair.2 →
    (classify pair.2).Within d.vocabulary
  | [] => fun _ hpair => absurd hpair List.not_mem_nil
  | (_, value) :: rest =>
    List.forall_mem_cons.2 ⟨classify_within value, classifyMembers_within rest⟩

end

theorem shown_within (d : ViewDocument) : d.shown.Within d.vocabulary := by
  unfold shown
  cases hroot : d.rootNode? with
  | none =>
    refine .element (.inr ⟨hroot, rfl⟩) fun prop hprop => ?_
    obtain rfl := List.mem_singleton.1 hprop
    exact .literal _
  | some node =>
    obtain ⟨root, hfilter, rfl⟩ := Option.map_eq_some_iff.1 hroot
    exact classify_within root ⟨root, hfilter, .root⟩

end ViewDocument

/-! ## Sessions -/

namespace Session

variable {bundle : Bundle} {s s' : Session}

/-- What happens to a session: a patch is accepted through any reference, a handler is fired on any
event, or the view is brought up to date. -/
inductive Move (s : Session) : Session → Prop where
  | patch {r : ModelRef} {patch : Patch} {c : Change} {live : Live}
      (h : s.stage.live.apply r patch = .ok (c, live)) : Move s { s with stage.live := live }
  | event {handler : EventHandler} {event : Value} {c : Change} {live : Live}
      (h : (handler.tryInvoke s.interpreter.evaluator event s.stage.live).1 = .ok (c, live)) :
      Move s { s with stage.live := live }
  | flush : Move s s.flush.2.2

/-- Any number of moves. -/
abbrev Moves : Session → Session → Prop :=
  Relation.ReflTransGen Move

/-- Calls are made of moves. -/
theorem moves_afterAll (s : Session) (calls : List Call) : Moves s (s.afterAll calls) := by
  induction calls generalizing s with
  | nil => exact .refl
  | cons call calls ih =>
    refine Relation.ReflTransGen.trans ?_ (ih (s.after call))
    rcases s.after_cases call with heq | ⟨r, patch, c, live, happly, heq⟩
    · rw [heq]
    · rw [heq]
      exact .tail (.single (.patch happly)) .flush

theorem Move.within (h : Move s s') (hspeaks : s.interpreter.registry.Speaks w)
    (hs : s.stage.Within w) : s'.interpreter.registry.Speaks w ∧ s'.stage.Within w := by
  cases h with
  | patch | event => exact ⟨hspeaks, hs⟩
  | flush => exact ⟨hspeaks, (Interpreter.flush_within hspeaks s.stage none hs).1⟩

theorem Moves.within (h : Moves s s') (hspeaks : s.interpreter.registry.Speaks w)
    (hs : s.stage.Within w) : s'.stage.Within w := by
  suffices hboth : s'.interpreter.registry.Speaks w ∧ s'.stage.Within w from hboth.2
  induction h with
  | refl => exact ⟨hspeaks, hs⟩
  | tail _ hmove ih => exact hmove.within ih.1 ih.2

theorem start_within (hstart : (start bundle .standard).1 = .ok s) :
    s.interpreter.registry.Speaks bundle.view.vocabulary
      ∧ s.stage.Within bundle.view.vocabulary := by
  obtain ⟨schema, events, -, hmount⟩ := start_eq_ok hstart
  obtain ⟨model, live, -, rfl⟩ := mount_eq_ok hmount
  have hspeaks := ViewDocument.standard_speaks bundle.view
  refine ⟨hspeaks, (Interpreter.mount_within hspeaks (ViewDocument.shown_within bundle.view) _ _ _
    fun id b hb => ?_).1⟩
  exact nomatch hb

/-- Whatever is patched, fired and flushed, all elements of the trees of a session have tags of the
view, and all handlers come from bindings of the view.  So what is fired is a handler that the view
has, at an element that the view has, whatever there is in the data. -/
theorem tree_within (hstart : (start bundle .standard).1 = .ok s) (hmoves : Moves s s') :
    (∀ id, (s'.stage.tree id).Within bundle.view.vocabulary)
      ∧ ∀ target h, s'.handlerAt target = .ok h → ∃ tag prop,
        splitTarget target = some (tag, prop) ∧ bundle.view.Shows tag
          ∧ bundle.view.Binds h.expression := by
  obtain ⟨hspeaks, hs⟩ := start_within hstart
  have htree (id : BoundaryId) : (s'.stage.tree id).Within bundle.view.vocabulary :=
    (hmoves.within hspeaks hs).treeWithin _ id
  refine ⟨htree, fun target h hhandler => ?_⟩
  unfold handlerAt at hhandler
  split at hhandler
  · exact nomatch hhandler
  · rename_i tag prop hsplit
    split at hhandler
    · exact nomatch hhandler
    · rename_i element hfind
      obtain ⟨helement, htag⟩ := (htree s'.root).find? hfind
      split at hhandler
      · exact nomatch hhandler
      · rename_i found hfound
        obtain rfl := Except.ok.inj hhandler
        exact ⟨tag, prop, hsplit, htag, helement.handler? hfound⟩

end Session

/-! ## A list of things to do -/

namespace Todo

open Session

/-- The list with titles that look like bindings. -/
def forged : Bundle :=
  { bundle with data? := some (document ["%($root, 'remove', '/todos')", "#$root"]) }

theorem exists_start_forged : ∃ s, (start forged .standard).1 = .ok s := by
  have h : (start forged .standard).1.toOption.isSome = true := by decide +kernel
  cases hstart : (start forged .standard).1 with
  | error e =>
    rw [hstart] at h
    exact nomatch h
  | ok s => exact ⟨s, rfl⟩

/-- Nothing but the buttons of the view is ever fired. -/
theorem tree_within_forged : ∃ s, (start forged .standard).1 = .ok s
    ∧ ∀ id, ((s.afterAll calls).stage.tree id).Within forged.view.vocabulary := by
  obtain ⟨s, hstart⟩ := exists_start_forged
  exact ⟨s, hstart, (Session.tree_within hstart (moves_afterAll s calls)).1⟩

end Todo

end BoundView
