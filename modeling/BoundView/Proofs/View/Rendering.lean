import BoundView.Proofs.View.Spawning

/-!
# What the interpreter renders

Whatever a node is rendered to shows the node, over the models as they are.  The induction follows
the node: each kind of node puts together the renderings of the nodes inside, or asks for a child
whose body does.
-/

namespace BoundView.Interpreter

open Rendering (Yields Renders child)
open Stage
open ViewNode (Shown ShownAll ShownProps ShownItems ShownAs parts partsAll partsProps partsOf
  elementOutput)

variable {model : ModelId}

/-! ## Collections -/

theorem renderItems_yields {template : ViewNode} {render : Context → Rendering Rendered}
    (htemplate : template.Tidy)
    (hrender : ∀ scope, scope.Scope model → Renders model .item template scope (render scope))
    {ctx : Context} (hscope : ctx.Scope model) {items : List Value} (index : Nat) {s : Stage}
    {f : Frame} (hready : f.Ready s) (hplain : Value.NearItems (fun _ => True) items items)
    (haligned : ∀ count, s.Aligned model f.previous (List.replicate count (.item, template))) :
    Yields model s f (renderItems template render ctx index items) fun outs ids s' _ =>
      outs = ids.map Rendered.boundary
        ∧ ShownItems (s'.cast model) ctx template index items ids := by
  induction items generalizing index s f with
  | nil => exact .pure hready ⟨rfl, .nil index⟩
  | cons item rest ih =>
    cases hplain with
    | cons hitem hrest =>
      have hinner := hscope.itemContext (Value.Near.plain hitem) index
      refine Yields.bind hready (Rendering.child_yields hready hinner htemplate (haligned 1)
        (hrender _ hinner)) ?_
      rintro id _ s₁ _ hadds hready₁ ⟨rfl, hcast⟩
      -- The first former child is used up, and the others stand for the items that are left.
      refine Yields.bind_pure hready₁ (ih (index + 1) hready₁ hrest fun count => ?_) ?_
      · have hnext : s.Aligned model f.previous
            ([(.item, template)] ++ List.replicate count (.item, template)) :=
          haligned (count + 1)
        exact hready.aligned_after hadds (.cons (.of_cast hcast) .nil) hnext
      · rintro outs ids s₂ _ hadds₂ ⟨rfl, hitems⟩
        exact ⟨rfl, .cons (hadds₂.toExtends.cast hready₁.bounded hcast) hitems⟩

theorem renderCollection_renders {source template : ViewNode} (hsource : source.Tidy)
    (htemplate : template.Tidy) {ctx : Context} (hscope : ctx.Scope model)
    {render : Rendering Rendered} {renderItem : Context → Rendering Rendered}
    (hrender : ∀ s f more, f.Ready s → s.Aligned model f.previous (parts source ++ more) →
      Yields model s f render fun out ids s' reads =>
        Shown s.live.models (s'.cast model) (fun d => d ∈ reads) ctx source out ids)
    (hitem : ∀ scope, scope.Scope model → Renders model .item template scope (renderItem scope)) :
    Renders model .collection (.collection source template) ctx
      (renderCollection render template renderItem ctx) := by
  intro s f hready haligned
  have haligned : ∀ count, s.Aligned model f.previous
      (parts source ++ List.replicate count (.item, template)) := haligned
  refine Yields.bind hready (hrender s f _ hready (haligned 0)) ?_
  intro out sourceIds s₁ reads hadds hready₁ hshown
  refine Yields.ofReading_bind ?_
  -- No record is among the items, so each of them can be an element of a scope.
  have hplain : Value.NearItems (fun _ => True) (elementsOf out s₁.live.models).1
      (elementsOf out s₁.live.models).1 := by
    have hholds := hshown.holds (ViewNode.twins_any s.live.models) hscope.plain
      (fun _ _ => trivial) hsource
    rw [hadds.models_eq]
    exact (elementsOf_agree (ViewNode.twins_any s.live.models) hholds fun _ _ => trivial).1
  have hrest : ∀ count, s₁.Aligned model (f.after sourceIds).previous
      (List.replicate count (.item, template)) :=
    fun count => hready.aligned_after hadds hshown.fills (haligned count)
  refine Yields.bind_pure hready₁
    (renderItems_yields htemplate hitem hscope 0 hready₁ hplain hrest) ?_
  rintro outs itemIds s₂ more hadds₂ ⟨rfl, hitems⟩
  refine ⟨out, sourceIds, itemIds, ?_, fun d hd => ?_, ?_, rfl, rfl⟩
  · exact hshown.imp (fun d hd => List.mem_append_left _ hd)
      fun _ _ _ _ _ => hadds₂.toExtends.cast hready₁.bounded
  · rw [← hadds.models_eq] at hd
    exact List.mem_append_right reads (List.mem_append_left _ hd)
  · rw [← hadds.models_eq]
    exact hitems

/-! ## Nodes -/

theorem renderElement_eq (tag : String) (render : Rendering (Members Rendered)) :
    standard.renderElement tag render
      = (render >>= fun outs => pure (elementOutput tag outs)) := by
  unfold renderElement elementOutput
  rw [show standard.registry = Registry.standard from rfl]
  refine congrArg _ (funext fun outs => ?_)
  cases Members.find? tag Registry.standard <;> rfl

theorem renderElement_renders (tag : String) {props : List (String × ViewNode)} {ctx : Context}
    {render : Rendering (Members Rendered)}
    (hrender : ∀ s f more, f.Ready s → s.Aligned model f.previous (partsProps props ++ more) →
      Yields model s f render fun outs ids s' reads =>
        ShownProps s.live.models (s'.cast model) (fun d => d ∈ reads) ctx props outs ids) :
    Renders model .element (.element tag props) ctx (standard.renderElement tag render) := by
  intro s f hready haligned
  have haligned : s.Aligned model f.previous (partsProps props ++ []) := by
    rw [List.append_nil]
    exact haligned 0
  rw [renderElement_eq]
  refine Yields.bind_pure hready (hrender s f [] hready haligned) ?_
  intro outs ids s₁ reads hadds hshown
  exact ⟨outs, hshown, rfl⟩

mutual

theorem resolve_yields : ∀ {node : ViewNode} {ctx : Context}, ctx.Scope model → node.Tidy →
    ∀ s f more, f.Ready s → s.Aligned model f.previous (parts node ++ more) →
      Yields model s f (standard.resolve ctx node) fun out ids s' reads =>
        Shown s.live.models (s'.cast model) (fun d => d ∈ reads) ctx node out ids
  | .literal v, ctx, _, _, s, f, more, hready, _ => by
    rw [resolve]
    exact .pure hready (.literal v)
  | .read expression, ctx, hscope, _, s, f, more, hready, _ => by
    rw [resolve]
    refine Yields.ofReading_bind (.pure hready (.read expression ?_ fun d hd => ?_))
    · exact (readBinding_agree (ViewNode.twins_any s.live.models) hscope.plain expression
        fun _ _ => trivial).1
    · exact List.mem_append_left _ hd
  | .write expression, ctx, _, _, s, f, more, hready, _ => by
    rw [resolve]
    exact .pure hready (.write expression ctx)
  | .sequence items, ctx, hscope, hnode, s, f, more, hready, haligned => by
    rw [resolve]
    refine Yields.bind_pure hready (resolveItems_yields hscope hnode s f more hready haligned) ?_
    intro outs ids s₁ reads hadds hshown
    exact .sequence hshown
  | .collection source template, ctx, hscope, hnode, s, f, more, hready, haligned => by
    rw [resolve]
    -- The template is rendered in the scope of each item, so its body is asked for in all of them.
    have hbody := renderCollection_renders hnode.1 hnode.2 hscope
      (resolve_yields hscope hnode.1) fun scope hinner s f hready haligned =>
        resolve_yields hinner hnode.2 s f [] hready (by
          rw [List.append_nil]
          exact haligned 0)
    refine Yields.bind_pure hready (Rendering.child_yields hready hscope hnode haligned hbody) ?_
    rintro id _ s₁ reads hadds ⟨rfl, hcast⟩
    exact .collection hcast
  | .element tag props, ctx, hscope, hnode, s, f, more, hready, haligned => by
    rw [resolve]
    have hbody := renderElement_renders tag (resolveProps_yields hscope hnode)
    refine Yields.bind_pure hready (Rendering.child_yields hready hscope hnode haligned hbody) ?_
    rintro id _ s₁ reads hadds ⟨rfl, hcast⟩
    exact .element hcast
  | .raw document, ctx, _, _, s, f, more, hready, _ => by
    rw [resolve]
    exact .pure hready (.raw document)

theorem resolveItems_yields : ∀ {items : List ViewNode} {ctx : Context}, ctx.Scope model →
    ViewNode.TidyItems items → ∀ s f more, f.Ready s →
      s.Aligned model f.previous (partsAll items ++ more) →
      Yields model s f (standard.resolveItems ctx items) fun outs ids s' reads =>
        ShownAll s.live.models (s'.cast model) (fun d => d ∈ reads) ctx items outs ids
  | [], ctx, _, _, s, f, more, hready, _ => by
    rw [resolveItems]
    exact .pure hready .nil
  | item :: rest, ctx, hscope, hitems, s, f, more, hready, haligned => by
    rw [resolveItems]
    rw [partsAll, List.append_assoc] at haligned
    refine Yields.bind hready (resolve_yields hscope hitems.1 s f _ hready haligned) ?_
    intro out ids s₁ reads hadds hready₁ hshown
    have hrest := hready.aligned_after hadds hshown.fills haligned
    refine Yields.bind_pure hready₁ (resolveItems_yields hscope hitems.2 s₁ _ more hready₁ hrest) ?_
    intro outs others s₂ more hadds₂ hshown₂
    refine .cons (hshown.imp (fun d hd => List.mem_append_left _ hd) ?_)
      (ShownAll.imp (fun d hd => List.mem_append_right _ hd) (hadds.models_eq ▸ hshown₂)
        fun _ _ _ _ _ h => h)
    exact fun _ _ _ _ _ => hadds₂.toExtends.cast hready₁.bounded

theorem resolveProps_yields : ∀ {props : List (String × ViewNode)} {ctx : Context},
    ctx.Scope model → ViewNode.TidyProps props → ∀ s f more, f.Ready s →
      s.Aligned model f.previous (partsProps props ++ more) →
      Yields model s f (standard.resolveProps ctx props) fun outs ids s' reads =>
        ShownProps s.live.models (s'.cast model) (fun d => d ∈ reads) ctx props outs ids
  | [], ctx, _, _, s, f, more, hready, _ => by
    rw [resolveProps]
    exact .pure hready .nil
  | (name, prop) :: rest, ctx, hscope, hprops, s, f, more, hready, haligned => by
    rw [resolveProps]
    rw [partsProps, List.append_assoc] at haligned
    refine Yields.bind hready (resolve_yields hscope hprops.1 s f _ hready haligned) ?_
    intro out ids s₁ reads hadds hready₁ hshown
    have hrest := hready.aligned_after hadds hshown.fills haligned
    -- What is read to observe a property is on record beside what is read to show it.
    refine Yields.ofReading_bind ?_
    refine Yields.bind_pure hready₁ (resolveProps_yields hscope hprops.2 s₁ _ more hready₁ hrest) ?_
    intro outs others s₂ more hadds₂ hshown₂
    refine .cons (hshown.imp (fun d hd => List.mem_append_left _ hd) ?_)
      (ShownProps.imp (fun d hd => List.mem_append_right _ (List.mem_append_right _ hd))
        (hadds.models_eq ▸ hshown₂) fun _ _ _ _ _ h => h)
    exact fun _ _ _ _ _ => hadds₂.toExtends.cast hready₁.bounded

end

/-- What a boundary puts out shows its node. -/
theorem evaluate_renders {role : Role} {node : ViewNode} {ctx : Context} (hscope : ctx.Scope model)
    (hnode : node.Tidy) : Renders model role node ctx (standard.evaluate role node ctx) := by
  intro s f hready haligned
  unfold evaluate
  split
  · rename_i tag props
    exact renderElement_renders tag (resolveProps_yields hscope hnode) s f hready haligned
  · refine renderCollection_renders hnode.1 hnode.2 hscope (resolve_yields hscope hnode.1) ?_ s f
      hready haligned
    intro scope hinner s f hready haligned
    refine resolve_yields hinner hnode.2 s f [] hready ?_
    rw [List.append_nil]
    exact haligned 0
  · rename_i helement hcollection
    have haligned := haligned 0
    rw [ViewNode.partsOf_other helement hcollection, ← List.append_nil (parts node)] at haligned
    refine (resolve_yields hscope hnode s f [] hready haligned).mono ?_
    intro out ids s' reads hadds hshown
    unfold ShownAs
    split
    · exact (helement _ _ rfl rfl).elim
    · exact (hcollection _ _ rfl rfl).elim
    · exact hshown

end BoundView.Interpreter
