import BoundView.Proofs.Json.Path
import BoundView.Proofs.View.Sprouting

/-!
# What bodies ask for

The children that a body asks for depend on its node, its scope and the models alone, and each is
answered by the former child at its position or by a new boundary.  A collection asks for whatever
its source stands for and then for one item for each of the values that it goes through.
-/

namespace BoundView

open Stage

/-! ## Arrays -/

theorem Reading.fst_bind {α β : Type} (m : Reading α) (f : α → Reading β) (models : Models) :
    ((m >>= f) models).1 = (f (m models).1 models).1 :=
  rfl

namespace ModelRef

variable {r : ModelRef} {models : Models} {j : Json} {xs : List Json}

/-- The value of a document that stands at a reference. -/
def valueOf (r : ModelRef) : Json → Value
  | .array _ => .model r
  | .object _ => .model r
  | leaf => Value.ofJson leaf

theorem load_of_node? (h : r.node? models = some j) : (r.load models).1 = r.valueOf j := by
  simp only [load, Reading.peek, h]
  cases j <;> rfl

theorem node?_child (h : r.node? models = some j) (seg : Seg) :
    (r.child seg).node? models = j.step? seg := by
  obtain ⟨model, hmodel, hget⟩ := Option.bind_eq_some_iff.1 h
  show (r.model? models).bind (fun model => model.data.get? (r.path ++ [seg])) = _
  rw [hmodel, Option.bind_some, Json.get?_append, hget, Option.bind_some]
  cases hstep : j.step? seg <;> rw [Json.get?, hstep] <;> rfl

theorem elements_of_node? (index : Nat)
    (h : ∀ i x, xs[i]? = some x → (r.child (.index (index + i))).node? models = some x) :
    (r.elements index xs.length models).1
      = xs.mapIdx fun i x => (r.child (.index (index + i))).valueOf x := by
  induction xs generalizing index with
  | nil => rfl
  | cons x rest ih =>
    have hrest := ih (index + 1) fun i y hi => by
      rw [Nat.add_right_comm, Nat.add_assoc]
      exact h (i + 1) y hi
    simp only [Nat.add_right_comm index 1, Nat.add_assoc] at hrest
    rw [List.mapIdx_cons, ← hrest, ← load_of_node? (h 0 x rfl)]
    rfl

/-- A reference to an array goes through its elements. -/
theorem items?_of_array (h : r.node? models = some (.array xs)) :
    (r.items? models).1 = some (xs.mapIdx fun i x => (r.child (.index i)).valueOf x) := by
  have hlength : (r.length? models).1 = some xs.length := by
    unfold length?
    rw [Reading.fst_bind]
    simp only [Reading.peek, h]
  have helements : (r.elements 0 xs.length models).1 = _ := elements_of_node? 0 fun i x hi => by
    rw [node?_child h, Nat.zero_add]
    exact hi
  simp only [Nat.zero_add] at helements
  unfold items?
  rw [Reading.fst_bind, hlength, ← helements]
  rfl

end ModelRef

/-! ## The values of a source -/

/-- The value that an output stands for in a list. -/
def Rendered.listed : Rendered → Value
  | .value v => v
  | _ => .undefined

namespace Interpreter

variable (v : Interpreter) (models : Models) (ctx : Context)

/-- The value that a node stands for in a list. -/
def valueOf : ViewNode → Value
  | .literal value => value
  | .read expression => (v.readBinding expression ctx models).1
  | _ => .undefined

/-- The values that a collection with this source goes through. -/
def valuesOf : ViewNode → List Value
  | .sequence items => items.map (v.valueOf models ctx)
  | source => ((v.valueOf models ctx source).items? models).1.getD []

variable {v models ctx} {source : ViewNode} {r : ModelRef}

theorem valuesOf_of_array {xs : List Json} (h : v.valueOf models ctx source = .model r)
    (harray : r.node? models = some (.array xs)) :
    v.valuesOf models ctx source = xs.mapIdx fun i x => (r.child (.index i)).valueOf x := by
  have hvalues : v.valuesOf models ctx source = (r.items? models).1.getD [] := by
    cases source with
    | sequence => cases h
    | _ =>
      rw [valuesOf, h]
      · rfl
      · intro items heq
        cases heq
  rw [hvalues, ModelRef.items?_of_array harray]
  rfl

end Interpreter

namespace Recorded

variable {α β : Type} {s s₁ s₂ : Stage} {f? : Option Frame} {ids others : List BoundaryId}
  {id : BoundaryId} {owner? former? : Option BoundaryId} {ask : Ask} {asks more : List Ask}

/-! ## Answers -/

theorem shows_iff {role : Role} {node : ViewNode} {ctx : Context} :
    s.shows role node ctx id = true ↔
    ∃ p, s.place? id = some p ∧ p.role = role ∧ (p.node == node) = true
      ∧ (Value.map p.context == Value.map ctx) = true := by
  unfold shows place?
  cases s.boundary? id with
  | none => exact iff_of_false Bool.false_ne_true fun ⟨_, h, _⟩ => nomatch h
  | some b =>
    rw [Bool.and_eq_true, Bool.and_eq_true, decide_eq_true_eq, and_assoc]
    refine ⟨fun h => ⟨b.place, rfl, h⟩, fun ⟨p, hp, h⟩ => ?_⟩
    obtain rfl := Option.some.inj hp
    exact h

theorem shows_opened {role : Role} {node : ViewNode} {ctx : Context} :
    (s.opened id).shows role node ctx = s.shows role node ctx := by
  funext c
  rw [Bool.eq_iff_iff, shows_iff, shows_iff, place?_opened]

/-- What is asked for later is answered from the same former children. -/
theorem Answers.mono (h : Answers s₁ s₂ owner? former? ask id) (hextends : Extends s s₁)
    (hformer : ∀ c ∈ former?, c ≤ s.lastId) : Answers s s₂ owner? former? ask id := by
  have hshows : former?.filter (s₁.shows ask.role ask.node ask.context)
      = former?.filter (s.shows ask.role ask.node ask.context) := by
    cases former? with
    | none => rfl
    | some c =>
      rw [Option.filter_some, Option.filter_some, shows, hextends.boundary?_eq c (hformer c rfl)]
      rfl
  rw [Answers, hshows] at h
  exact h.imp_right fun ⟨hnone, hlt, hplace⟩ =>
    ⟨hnone, Nat.lt_of_le_of_lt hextends.lastId_le hlt, hplace⟩

theorem Answers.extend (h : Answers s s₁ owner? former? ask id) (hextends : Extends s₁ s₂)
    (hs₁ : s₁.Bounded) : Answers s s₂ owner? former? ask id :=
  h.imp_right fun ⟨hnone, hlt, hplace⟩ => ⟨hnone, hlt, hextends.place?_eq_some hs₁ hplace⟩

/-- Part of a rendering grows, and the boundaries that it asks for answer this, one by one. -/
structure Asked (s : Stage) (f? : Option Frame) (p : Recorded α) (ids : List BoundaryId)
    (asks : List Ask) : Prop extends Grown s f? p ids where
  length_eq : ids.length = asks.length
  answers : ∀ (i : Nat) (id : BoundaryId) (ask : Ask), ids[i]? = some id → asks[i]? = some ask →
    Answers s (p.run s f?).stage (f?.map Frame.owner) (former f?)[i]? ask id

/-- Part of a rendering gives a result and asks for boundaries with a property. -/
def Asks (s : Stage) (f? : Option Frame) (p : Recorded α) (post : α → List Ask → Prop) : Prop :=
  ∃ ids asks, Asked s f? p ids asks ∧ post (p.run s f?).value asks

/-! ## Rules -/

variable {post : α → List Ask → Prop} {post' : β → List Ask → Prop}

theorem Asks.quiet {m : Rendering α} (hfits : Fits s f?) (hstage : (m s f?).stage = s)
    (hframe : (m s f?).frame? = f?) (h : post (m s f?).value []) : Asks s f? (quiet m) post :=
  ⟨[], [], ⟨.quiet hfits hstage hframe, rfl, fun _ _ _ h => nomatch h⟩, h⟩

theorem Asks.pure {a : α} (hfits : Fits s f?) (h : post a []) : Asks s f? (pure a) post :=
  .quiet hfits rfl rfl h

theorem Asks.ofReading {m : Reading α} (hfits : Fits s f?) :
    Asks s f? (ofReading m) fun a asks => a = (m s.live.models).1 ∧ asks = [] :=
  .quiet hfits rfl rfl ⟨rfl, rfl⟩

theorem Asks.child {body : Recorded Rendered} {role : Role} {node : ViewNode} {ctx : Context}
    {post : BoundaryId → List Ask → Prop} (hfits : Fits s f?) (hbody : body.Grows)
    (h : ∀ id, post id [⟨role, node, ctx⟩]) : Asks s f? (child role node ctx body) post := by
  obtain ⟨id, hvalue, hgrown, hanswers⟩ := hbody.child_answers hfits role node ctx
  refine ⟨[id], [⟨role, node, ctx⟩], ⟨hgrown, rfl, fun i c ask hc hask => ?_⟩, hvalue ▸ h id⟩
  cases i with
  | zero =>
    obtain rfl := Option.some.inj hc
    obtain rfl := Option.some.inj hask
    rw [← List.head?_eq_getElem?]
    exact hanswers
  | succ i => cases hc

/-- What one part asks for is answered from the former children that the part before it has left. -/
theorem Asked.bind {p : Recorded α} {k : α → Recorded β} (hasked : Asked s f? p ids asks)
    (hfits : Fits s f?)
    (hasked' : Asked (p.run s f?).stage (f?.map (·.after ids)) (k (p.run s f?).value) others more) :
    Asked s f? (p >>= k) (ids ++ others) (asks ++ more) where
  toGrown := hasked.toGrown.bind hfits hasked'.toGrown
  length_eq := by
    rw [List.length_append, List.length_append, hasked.length_eq, hasked'.length_eq]
  answers i id ask hid hask := by
    have hrun := (bind_of_eq (k := k) rfl rfl hasked.frame?_eq).1
    have howner : (f?.map (·.after ids)).map Frame.owner = f?.map Frame.owner := by
      cases f? <;> rfl
    rw [hrun]
    by_cases hi : i < ids.length
    -- What the first part was answered is left alone by the second one.
    · rw [List.getElem?_append_left hi] at hid
      rw [List.getElem?_append_left (hasked.length_eq ▸ hi)] at hask
      exact (hasked.answers i id ask hid hask).extend hasked'.sprouts.toExtends
        hasked.sprouts.bounded
    -- The former children of the second part stand behind as many as the first one asked for.
    · obtain ⟨j, rfl⟩ := Nat.exists_eq_add_of_le (Nat.le_of_not_lt hi)
      rw [List.getElem?_append_right (Nat.le_add_right _ j), Nat.add_sub_cancel_left] at hid
      rw [hasked.length_eq, List.getElem?_append_right (Nat.le_add_right _ j),
        Nat.add_sub_cancel_left] at hask
      have hanswers := hasked'.answers j id ask hid hask
      rw [howner, former_after, List.getElem?_drop] at hanswers
      exact hanswers.mono hasked.sprouts.toExtends fun c hc =>
        hfits.former_le c (List.mem_of_getElem? hc)

theorem Asks.bind {p : Recorded α} {k : α → Recorded β} (hfits : Fits s f?)
    (h : Asks s f? p post)
    (hk : ∀ a asks s₁ f₁?, Fits s₁ f₁? → s₁.live.models = s.live.models → post a asks →
      Asks s₁ f₁? (k a) fun b more => post' b (asks ++ more)) : Asks s f? (p >>= k) post' := by
  obtain ⟨ids, asks, hasked, hpost⟩ := h
  obtain ⟨others, more, hasked', hpost'⟩ := hk _ _ _ _ (hfits.after hasked.toGrown)
    hasked.sprouts.models_eq hpost
  refine ⟨ids ++ others, asks ++ more, hasked.bind hfits hasked', ?_⟩
  rw [(bind_of_eq (k := k) rfl rfl hasked.frame?_eq).1]
  exact hpost'

theorem Asks.bind_pure {p : Recorded α} {g : α → β} (hfits : Fits s f?) (h : Asks s f? p post)
    (himp : ∀ a asks, post a asks → post' (g a) asks) :
    Asks s f? (p >>= fun a => Pure.pure (g a)) post' := by
  refine .bind hfits h fun a asks s₁ f₁? hfits₁ _ hpost => .pure hfits₁ ?_
  rw [List.append_nil]
  exact himp a asks hpost

/-! ## Nodes -/

variable (v : Interpreter)

/-- What a node is rendered to inside a boundary asks for its parts. -/
def partsAsked (ctx : Context) (parts : List (Role × ViewNode)) : List Ask :=
  parts.map fun part => ⟨part.1, part.2, ctx⟩

mutual

theorem resolve_asks : ∀ (node : ViewNode) (ctx : Context) {s : Stage} {f? : Option Frame},
    Fits s f? → Asks s f? (resolve v ctx node) fun out asks =>
      asks = partsAsked ctx node.parts ∧ out.listed = v.valueOf s.live.models ctx node
        ∧ (Interpreter.elementsOf out s.live.models).1 = v.valuesOf s.live.models ctx node
  | .literal value, ctx, _, _, hfits => by
    rw [resolve]
    exact .pure hfits ⟨rfl, rfl, rfl⟩
  | .read expression, ctx, _, _, hfits => by
    rw [resolve]
    refine .bind_pure hfits (.ofReading hfits) ?_
    rintro value asks ⟨rfl, rfl⟩
    exact ⟨rfl, rfl, rfl⟩
  | .write expression, ctx, _, _, hfits => by
    rw [resolve]
    exact .pure hfits ⟨rfl, rfl, rfl⟩
  | .sequence items, ctx, _, _, hfits => by
    rw [resolve]
    refine .bind_pure hfits (resolveItems_asks items ctx hfits) fun outs asks ⟨hasks, houts⟩ => ?_
    exact ⟨hasks, rfl, houts⟩
  | .collection source template, ctx, _, _, hfits => by
    rw [resolve]
    have hbody := renderCollection_grows (resolve_grows v source ctx) template
      (fun scope => resolve_grows v template scope) ctx
    exact .bind_pure hfits (.child hfits hbody fun _ => rfl) fun id asks h => ⟨h.symm, rfl, rfl⟩
  | .element tag props, ctx, _, _, hfits => by
    rw [resolve]
    have hbody := renderElement_grows v tag (resolveProps_grows v props ctx)
    exact .bind_pure hfits (.child hfits hbody fun _ => rfl) fun id asks h => ⟨h.symm, rfl, rfl⟩
  | .raw document, ctx, _, _, hfits => by
    rw [resolve]
    exact .pure hfits ⟨rfl, rfl, rfl⟩

theorem resolveItems_asks : ∀ (items : List ViewNode) (ctx : Context) {s : Stage}
    {f? : Option Frame}, Fits s f? → Asks s f? (resolveItems v ctx items) fun outs asks =>
      asks = partsAsked ctx (ViewNode.partsAll items)
        ∧ outs.map Rendered.listed = items.map (v.valueOf s.live.models ctx)
  | [], ctx, _, _, hfits => by
    rw [resolveItems]
    exact .pure hfits ⟨rfl, rfl⟩
  | item :: rest, ctx, _, _, hfits => by
    rw [resolveItems]
    refine .bind hfits (resolve_asks item ctx hfits) ?_
    rintro first asks s₁ f₁? hfits₁ hmodels ⟨rfl, hfirst, -⟩
    have hrest := resolveItems_asks rest ctx hfits₁
    rw [hmodels] at hrest
    refine .bind_pure hfits₁ hrest ?_
    rintro others more ⟨rfl, hothers⟩
    exact ⟨List.map_append.symm, congr (congrArg _ hfirst) hothers⟩

end

/-! ## Collections -/

/-- What a collection asks for: the parts of its source, and behind them an item for each value. -/
def rowAsked (source template : ViewNode) (ctx : Context) (values : List Value) : List Ask :=
  partsAsked ctx source.parts ++ values.mapIdx fun index value =>
    ⟨.item, template, Interpreter.itemContext ctx value index⟩

section

variable {source template : ViewNode} {ctx : Context} {values : List Value} {i : Nat}

theorem length_rowAsked :
    (rowAsked source template ctx values).length = source.parts.length + values.length := by
  rw [rowAsked, partsAsked, List.length_append, List.length_map, List.length_mapIdx]

theorem getElem?_rowAsked_head (h : i < source.parts.length) :
    (rowAsked source template ctx values)[i]?
      = some ⟨source.parts[i].1, source.parts[i].2, ctx⟩ := by
  rw [rowAsked, partsAsked, List.getElem?_append_left (by rw [List.length_map]; exact h),
    List.getElem?_map, List.getElem?_eq_getElem h]
  rfl

theorem getElem?_rowAsked_item :
    (rowAsked source template ctx values)[source.parts.length + i]?
      = values[i]?.map fun value => ⟨.item, template, Interpreter.itemContext ctx value i⟩ := by
  rw [rowAsked, partsAsked,
    List.getElem?_append_right (by rw [List.length_map]; exact Nat.le_add_right _ i),
    List.length_map, Nat.add_sub_cancel_left, List.getElem?_mapIdx]

end

theorem renderItems_asks (template : ViewNode) {render : Context → Recorded Rendered}
    (h : ∀ scope, (render scope).Grows) (ctx : Context) (index : Nat) (values : List Value)
    (hfits : Fits s f?) :
    Asks s f? (renderItems template render ctx index values) fun _ asks =>
      asks = values.mapIdx fun i value =>
        ⟨.item, template, Interpreter.itemContext ctx value (index + i)⟩ := by
  induction values generalizing index s f? with
  | nil => exact .pure hfits rfl
  | cons value rest ih =>
    refine .bind hfits (.child hfits (h _) fun _ => rfl) ?_
    rintro id asks s₁ f₁? hfits₁ - rfl
    refine .bind_pure hfits₁ (ih (index + 1) hfits₁) ?_
    rintro others more rfl
    rw [List.mapIdx_cons]
    refine congrArg (_ :: ·) (congrArg (List.mapIdx · rest) (funext fun i => funext fun w => ?_))
    rw [Nat.add_right_comm, Nat.add_assoc]

theorem renderCollection_asks (source template : ViewNode) (ctx : Context) (hfits : Fits s f?) :
    Asks s f? (renderCollection (resolve v ctx source) template
      (fun scope => resolve v scope template) ctx) fun _ asks =>
        asks = rowAsked source template ctx (v.valuesOf s.live.models ctx source) := by
  refine .bind hfits (resolve_asks v source ctx hfits) ?_
  rintro out asks s₁ f₁? hfits₁ hmodels ⟨rfl, -, hvalues⟩
  refine .bind hfits₁ (.ofReading hfits₁) ?_
  rintro values asks s₂ f₂? hfits₂ - ⟨rfl, rfl⟩
  rw [hmodels, hvalues]
  refine .bind_pure hfits₂ (renderItems_asks template (fun scope => resolve_grows v template scope)
    ctx 0 _ hfits₂) ?_
  rintro outs asks rfl
  simp only [Nat.zero_add, List.nil_append]
  rfl

end Recorded

end BoundView
