import BoundView.Proofs.View.Shown

/-!
# Trees of outputs

The tree of an output is put together from the trees of the boundaries inside.  Main statement: once
these show their pictures, an output shows the picture of the node that it shows.
-/

namespace BoundView

open Interpreter (itemContext elementsOf)
open Value (Near NearItems)

namespace ViewNode

variable {models : Models} {plays : Cast} {known : Dependency → Prop} {ctx : Context}
  {model : ModelId} {inner : BoundaryId → RenderTree}

/-! ## Elements -/

theorem toMembers_treeProps (models : Models) (inner : BoundaryId → RenderTree)
    (outs : List (String × Rendered)) :
    RenderTree.toMembers (Rendered.treeProps models inner outs)
      = Members.mapValues (fun out => (out.tree models inner).toJson) outs := by
  induction outs with
  | nil => rfl
  | cons pair rest ih => exact congrArg _ ih

theorem elementOutput_tree (models : Models) (inner : BoundaryId → RenderTree) (tag : String)
    (outs : Members Rendered) :
    ((elementOutput tag outs).tree models inner).toJson
      = elementPicture tag
          (Members.mapValues (fun out => (out.tree models inner).toJson) outs) := by
  have hhost : ∀ tag outs, ((Rendered.host tag outs).tree models inner).toJson
      = .object (Members.merge [("<>", .string tag)]
        (Members.mapValues (fun out => (out.tree models inner).toJson) outs)) := by
    intro tag outs
    rw [Rendered.tree, RenderTree.toJson, toMembers_treeProps]
  unfold elementOutput elementPicture Registry.standard
  by_cases hbutton : tag = "Button"
  · rw [if_pos hbutton, Members.find?, if_pos hbutton.symm]
    show ((Rendered.host "button" _).tree models inner).toJson = _
    rw [hhost, Members.mapValues_merge]
    rfl
  · rw [if_neg hbutton, Members.find?, if_neg (Ne.symm hbutton), Members.find?]
    by_cases hundefined : tag = "undefined"
    · rw [if_pos hundefined, if_pos hundefined.symm]
      rfl
    · rw [if_neg hundefined, if_neg (Ne.symm hundefined)]
      exact hhost tag outs

/-! ## Trees -/

/-- The boundaries of a cast show the pictures of their parts. -/
def Pictured (models : Models) (model : ModelId) (plays : Cast) (inner : BoundaryId → RenderTree)
    (ids : List BoundaryId) : Prop :=
  ∀ id ∈ ids, ∀ role node scope, scope.Scope model → plays id role node scope →
    (inner id).toJson = picture models scope node

theorem Pictured.left {ids others : List BoundaryId}
    (h : Pictured models model plays inner (ids ++ others)) :
    Pictured models model plays inner ids :=
  fun id hid => h id (List.mem_append_left _ hid)

theorem Pictured.right {ids others : List BoundaryId}
    (h : Pictured models model plays inner (ids ++ others)) :
    Pictured models model plays inner others :=
  fun id hid => h id (List.mem_append_right _ hid)

mutual

theorem Shown.tree_eq (hscope : ctx.Scope model) : ∀ {node : ViewNode} {out : Rendered}
    {ids : List BoundaryId}, Shown models plays known ctx node out ids →
      Pictured models model plays inner ids →
      (out.tree models inner).toJson = picture models ctx node
  | _, _, _, .literal _, _ => rfl
  | _, _, _, .read expression hvalue _, _ => by
    rw [picture]
    exact toJson_eq_of_near hvalue
  | _, _, _, .write _ _, _ => rfl
  | _, _, _, .sequence h, hinner => by
    rw [picture, Rendered.tree, RenderTree.toJson, ShownAll.tree_eq hscope h hinner]
  | _, _, _, .collection h, hinner => by
    rw [Rendered.tree]
    exact hinner _ List.mem_cons_self _ _ _ hscope h
  | _, _, _, .element h, hinner => by
    rw [Rendered.tree]
    exact hinner _ List.mem_cons_self _ _ _ hscope h
  | _, _, _, .raw _, _ => rfl

theorem ShownAll.tree_eq (hscope : ctx.Scope model) : ∀ {items : List ViewNode}
    {outs : List Rendered} {ids : List BoundaryId}, ShownAll models plays known ctx items outs ids →
      Pictured models model plays inner ids →
      RenderTree.toItems (Rendered.treeItems models inner outs) = pictures models ctx items
  | _, _, _, .nil, _ => rfl
  | _, _, _, .cons h hs, hinner => by
    rw [Rendered.treeItems, RenderTree.toItems, pictures, Shown.tree_eq hscope h hinner.left,
      ShownAll.tree_eq hscope hs hinner.right]

end

theorem ShownProps.tree_eq (hscope : ctx.Scope model) {props : List (String × ViewNode)}
    {outs : List (String × Rendered)} {ids : List BoundaryId}
    (h : ShownProps models plays known ctx props outs ids)
    (hinner : Pictured models model plays inner ids) :
    Members.mapValues (fun out => (out.tree models inner).toJson) outs
      = propPictures models ctx props := by
  induction h with
  | nil => rfl
  | @cons name prop rest out outs ids others h _ ih =>
    rw [propPictures, ← h.tree_eq hscope hinner.left, ← ih hinner.right]
    rfl

/-- A collection goes through the items of its source. -/
theorem Shown.nearItems_elementsOf {source : ViewNode} (hsource : Tidy source) {out : Rendered}
    {ids : List BoundaryId} (h : Shown models plays known ctx source out ids) :
    NearItems (fun _ => True) (elementsOf out models).1 (sourceItems models ctx source) := by
  cases h with
  | literal v =>
    exact nearItems_of_near models (Near.mono (fun _ hq => hq.elim) hsource)
  | read expression hvalue => exact nearItems_of_near models hvalue
  | @sequence items outs ids h =>
    have hitems : TidyItems items := hsource
    clear hsource
    induction items generalizing outs ids with
    | nil =>
      cases h
      exact .nil
    | cons item rest ih =>
      cases h with
      | cons h hs =>
        refine .cons ?_ (ih hs hitems.2)
        cases h with
        | literal v => exact Near.mono (fun _ hq => hq.elim) hitems.1
        | read expression hvalue => exact hvalue
        | write | sequence | collection | element | raw => exact .undefined
  | write | collection | element | raw => exact .nil

theorem ShownItems.map_eq (hscope : ctx.Scope model) {template : ViewNode}
    (htemplate : Tidy template) {index : Nat} {items items' : List Value} {ids : List BoundaryId}
    (h : ShownItems plays ctx template index items ids)
    (hnear : NearItems (fun _ => True) items items')
    (hinner : Pictured models model plays inner ids) :
    ids.map (fun id => (inner id).toJson)
      = items'.mapIdx fun i item => picture models (itemContext ctx item (index + i)) template := by
  induction h generalizing items' with
  | nil index =>
    cases hnear
    rfl
  | @cons index item rest id others h _ ih =>
    cases hnear with
    | @cons _ item' _ rest' hitem hitems =>
      have hitem : Near (fun _ => True) item item' := hitem
      have hscope₁ := hscope.itemContext hitem.plain index
      have hscope₂ := hscope.itemContext hitem.symm.plain index
      have hfirst : (inner id).toJson = picture models (itemContext ctx item' index) template := by
        rw [hinner id List.mem_cons_self _ _ _ hscope₁ h]
        exact picture_eq_of_near htemplate hscope₁ hscope₂
          (near_itemContext hscope hscope hitem index)
      -- The other items stand one position further on.
      have hothers := ih hitems fun id hid => hinner id (List.mem_cons_of_mem _ hid)
      rw [List.map_cons, List.mapIdx_cons, hfirst, hothers, Nat.add_zero]
      refine congrArg _ (congrArg (List.mapIdx · rest') ?_)
      funext i item
      rw [Nat.add_assoc, Nat.add_comm 1 i]

theorem toItems_treeItems (models : Models) (inner : BoundaryId → RenderTree)
    (outs : List Rendered) :
    RenderTree.toItems (Rendered.treeItems models inner outs)
      = outs.map fun out => (out.tree models inner).toJson := by
  induction outs with
  | nil => rfl
  | cons out rest ih => exact congrArg _ ih

/-- An output shows the picture of its node once the boundaries inside show theirs. -/
theorem ShownAs.tree_eq (hscope : ctx.Scope model) {role : Role} {node : ViewNode}
    (hnode : Tidy node) {out : Rendered} {ids : List BoundaryId}
    (h : ShownAs models plays known ctx role node out ids)
    (hinner : Pictured models model plays inner ids) :
    (out.tree models inner).toJson = picture models ctx node := by
  unfold ShownAs at h
  split at h
  · obtain ⟨outs, hprops, rfl⟩ := h
    rw [elementOutput_tree, picture, hprops.tree_eq hscope hinner]
  · obtain ⟨sourceOut, sourceIds, itemIds, hsource, -, hitems, rfl, rfl⟩ := h
    have hpictures := hitems.map_eq hscope hnode.2 (hsource.nearItems_elementsOf hnode.1)
      hinner.right
    rw [Rendered.tree, RenderTree.toJson, toItems_treeItems, List.map_map, picture]
    simp only [Nat.zero_add] at hpictures
    exact congrArg _ hpictures
  · exact Shown.tree_eq hscope h hinner

end ViewNode

end BoundView
