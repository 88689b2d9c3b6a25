import BoundView.Proofs.View.Scope
import BoundView.View.Tree

/-!
# What a view shows

The picture of a node over some models is what the host sees of it, told without boundaries: an
element with the pictures of its properties, a collection as the list of the pictures of its
template, a binding as the document of its value.  It does not tell near scopes apart.
-/

namespace BoundView

open Interpreter (standard itemContext)
open Value (Near NearItems)

namespace ViewNode

/-! ## Nodes of documents -/

mutual

/-- A node whose literals are leaves, as they are in a document. -/
def Tidy : ViewNode → Prop
  | .literal v => Near (fun _ => False) v v
  | .sequence items => TidyItems items
  | .collection source template => Tidy source ∧ Tidy template
  | .element _ props => TidyProps props
  | _ => True

def TidyItems : List ViewNode → Prop
  | [] => True
  | item :: rest => Tidy item ∧ TidyItems rest

def TidyProps : List (String × ViewNode) → Prop
  | [] => True
  | (_, prop) :: rest => Tidy prop ∧ TidyProps rest

end

theorem TidyProps.find? {name : String} {props : Members ViewNode} (h : TidyProps props) :
    Tidy ((Members.find? name props).getD (.literal .undefined)) := by
  induction props with
  | nil => exact .undefined
  | cons pair rest ih =>
    rw [Members.find?]
    split
    · exact h.1
    · exact ih h.2

theorem TidyProps.erase {name : String} {props : Members ViewNode} (h : TidyProps props) :
    TidyProps (Members.erase name props) := by
  induction props with
  | nil => exact h
  | cons pair rest ih =>
    rw [Members.erase]
    split
    · exact h.2
    · exact ⟨h.1, ih h.2⟩

theorem tidy_ofText (text : String) : Tidy (ofText text) := by
  unfold ofText
  split
  · trivial
  · trivial
  · exact .string text

theorem tidy_ofMembers {ms : Members Json} {nodes : Members ViewNode} (h : TidyProps nodes) :
    Tidy (ofMembers ms nodes) := by
  unfold ofMembers
  split
  · exact ⟨h.find?, h.find?⟩
  · exact h.erase
  · trivial

mutual

theorem tidy_classify : ∀ j : Json, Tidy (classify j)
  | .null => .null
  | .bool b => .bool b
  | .number n => .number (.refl n.toFloat)
  | .string text => by
    rw [classify]
    exact tidy_ofText text
  | .array items => by
    rw [classify]
    exact tidy_classifyItems items
  | .object ms => by
    rw [classify]
    exact tidy_ofMembers (tidy_classifyMembers ms)

theorem tidy_classifyItems : ∀ items : List Json, TidyItems (classifyItems items)
  | [] => trivial
  | item :: rest => ⟨tidy_classify item, tidy_classifyItems rest⟩

theorem tidy_classifyMembers : ∀ ms : List (String × Json), TidyProps (classifyMembers ms)
  | [] => trivial
  | (_, value) :: rest => ⟨tidy_classify value, tidy_classifyMembers rest⟩

end

theorem classifyMembers_eq (ms : Members Json) :
    classifyMembers ms = Members.mapValues classify ms := by
  induction ms with
  | nil => rfl
  | cons pair rest ih =>
    rw [classifyMembers, ih]
    rfl

theorem classifyItems_eq (items : List Json) : classifyItems items = items.map classify := by
  induction items with
  | nil => rfl
  | cons item rest ih => rw [classifyItems, ih, List.map_cons]

theorem tidy_shown (document : ViewDocument) : Tidy document.shown := by
  unfold ViewDocument.shown ViewDocument.rootNode?
  cases document.root?.filter fun root => (Value.ofJson root).isTruthy with
  | none => exact ⟨.string _, trivial⟩
  | some root => exact tidy_classify root

/-! ## Pictures -/

variable (models : Models)

/-- The value that a node stands for in the list of a source. -/
def itemValue (ctx : Context) : ViewNode → Value
  | .literal v => v
  | .read expression => (standard.readBinding expression ctx models).1
  | _ => .undefined

/-- The values that a collection with this source goes through. -/
def sourceItems (ctx : Context) : ViewNode → List Value
  | .sequence items => items.map (itemValue models ctx)
  | source => (((itemValue models ctx source).items? models).1).getD []

/-- An element with these properties: the standard components, and any other tag as it is. -/
def elementPicture (tag : String) (props : Members Json) : Json :=
  if tag = "Button" then
    .object (Members.merge [("<>", .string "button")]
      (Members.merge [("className", .string "button")] props))
  else if tag = "undefined" then .string "undefined"
  else .object (Members.merge [("<>", .string tag)] props)

mutual

/-- What a node shows. -/
def picture (ctx : Context) : ViewNode → Json
  | .literal v => (v.toJson models).1
  | .read expression => ((standard.readBinding expression ctx models).1.toJson models).1
  | .write expression => .string ("%" ++ expression)
  | .sequence items => .array (pictures ctx items)
  | .collection source template =>
    .array ((sourceItems models ctx source).mapIdx fun index item =>
      picture (itemContext ctx item index) template)
  | .element tag props => elementPicture tag (propPictures ctx props)
  | .raw document => document

def pictures (ctx : Context) : List ViewNode → List Json
  | [] => []
  | item :: rest => picture ctx item :: pictures ctx rest

def propPictures (ctx : Context) : List (String × ViewNode) → Members Json
  | [] => []
  | (name, prop) :: rest => (name, picture ctx prop) :: propPictures ctx rest

end

/-! ## Near scopes -/

variable {models} {model : ModelId} {ctx ctx' : Context}

/-- Nothing that is looked at differs from itself. -/
theorem twins_any (models : Models) : Twins models models (fun _ => True) fun _ => True :=
  .self (fun _ _ => trivial) fun _ _ _ => trivial

theorem near_itemValue (h : ctx.Near (fun _ => True) ctx') {node : ViewNode} (hnode : Tidy node) :
    Near (fun _ => True) (itemValue models ctx node) (itemValue models ctx' node) := by
  cases node with
  | literal v => exact Near.mono (fun _ hq => hq.elim) hnode
  | read expression =>
    exact (Interpreter.readBinding_agree (twins_any models) h expression fun _ _ => trivial).1
  | write | sequence | collection | element | raw => exact .undefined

theorem nearItems_of_near (models : Models) {v w : Value} (h : Near (fun _ => True) v w) :
    NearItems (fun _ => True) ((v.items? models).1.getD []) ((w.items? models).1.getD []) := by
  have hitems :=
    (Value.items?_agree (twins_any models) Zeros.congruence_same h fun _ _ => trivial).1
  generalize (v.items? models).1 = vs? at hitems ⊢
  generalize (w.items? models).1 = ws? at hitems ⊢
  cases hitems with
  | none => exact .nil
  | some hitems => exact hitems

theorem nearItems_sourceItems (h : ctx.Near (fun _ => True) ctx') {source : ViewNode}
    (hsource : Tidy source) :
    NearItems (fun _ => True) (sourceItems models ctx source) (sourceItems models ctx' source) := by
  have hvalue : Near (fun _ => True) (itemValue models ctx source) (itemValue models ctx' source) :=
    near_itemValue h hsource
  cases source with
  | sequence items =>
    have hitems : TidyItems items := hsource
    clear hsource hvalue
    induction items with
    | nil => exact .nil
    | cons item rest ih => exact .cons (near_itemValue h hitems.1) (ih hitems.2)
  | literal | read | write | collection | element | raw =>
    exact nearItems_of_near models hvalue

theorem mapIdx_eq_of_nearItems {α : Type} {f g : Nat → Value → α} {held : ModelRef → Prop}
    {vs ws : List Value} (h : NearItems held vs ws)
    (hfg : ∀ i v w, Near held v w → f i v = g i w) : vs.mapIdx f = ws.mapIdx g := by
  induction vs generalizing f g ws with
  | nil => cases h; rfl
  | cons v vs ih =>
    cases h with
    | cons h hs =>
      rw [List.mapIdx_cons, List.mapIdx_cons, hfg 0 _ _ h]
      exact congrArg _ (ih hs fun i v w hvw => hfg (i + 1) v w hvw)

theorem toJson_eq_of_near {v w : Value} (h : Near (fun _ => True) v w) :
    (v.toJson models).1 = (w.toJson models).1 :=
  (Value.toJson_agree (twins_any models) Zeros.congruence_same h fun _ _ => trivial).1

/-- Near items stand in near scopes. -/
theorem near_itemContext (hctx : ctx.Scope model) (hctx' : ctx'.Scope model) {v w : Value}
    (h : Near (fun _ => True) v w) (index : Nat) :
    (itemContext ctx v index).Near (fun _ => True) (itemContext ctx' w index) := by
  rw [hctx.itemContext_eq, hctx'.itemContext_eq]
  exact Context.near_item trivial h (.refl _)

mutual

/-- A picture does not tell near scopes apart. -/
theorem picture_eq_of_near : ∀ {node : ViewNode} {ctx ctx' : Context}, Tidy node →
    ctx.Scope model → ctx'.Scope model → ctx.Near (fun _ => True) ctx' →
      picture models ctx node = picture models ctx' node
  | .literal v, _, _, _, _, _, _ => rfl
  | .read expression, _, _, hnode, _, _, h => by
    rw [picture, picture]
    exact toJson_eq_of_near (near_itemValue h hnode)
  | .write expression, _, _, _, _, _, _ => rfl
  | .sequence items, _, _, hnode, hctx, hctx', h => by
    rw [picture, picture, pictures_eq_of_near hnode hctx hctx' h]
  | .collection source template, ctx, ctx', hnode, hctx, hctx', h => by
    rw [picture, picture]
    -- The items are near one by one, and so are the scopes that the template is shown in.
    refine congrArg _ (mapIdx_eq_of_nearItems (nearItems_sourceItems h hnode.1) fun i v w hvw => ?_)
    exact picture_eq_of_near hnode.2 (hctx.itemContext hvw.plain i)
      (hctx'.itemContext hvw.symm.plain i) (near_itemContext hctx hctx' hvw i)
  | .element tag props, _, _, hnode, hctx, hctx', h => by
    rw [picture, picture, propPictures_eq_of_near hnode hctx hctx' h]
  | .raw document, _, _, _, _, _, _ => rfl

theorem pictures_eq_of_near : ∀ {items : List ViewNode} {ctx ctx' : Context}, TidyItems items →
    ctx.Scope model → ctx'.Scope model → ctx.Near (fun _ => True) ctx' →
      pictures models ctx items = pictures models ctx' items
  | [], _, _, _, _, _, _ => rfl
  | item :: rest, _, _, hitems, hctx, hctx', h => by
    rw [pictures, pictures, picture_eq_of_near hitems.1 hctx hctx' h,
      pictures_eq_of_near hitems.2 hctx hctx' h]

theorem propPictures_eq_of_near : ∀ {props : List (String × ViewNode)} {ctx ctx' : Context},
    TidyProps props → ctx.Scope model → ctx'.Scope model → ctx.Near (fun _ => True) ctx' →
      propPictures models ctx props = propPictures models ctx' props
  | [], _, _, _, _, _, _ => rfl
  | (name, prop) :: rest, _, _, hprops, hctx, hctx', h => by
    rw [propPictures, propPictures, picture_eq_of_near hprops.1 hctx hctx' h,
      propPictures_eq_of_near hprops.2 hctx hctx' h]

end

end ViewNode

end BoundView
