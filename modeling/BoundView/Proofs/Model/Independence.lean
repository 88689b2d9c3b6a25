import BoundView.Proofs.Model.Commuting

/-!
# Patches that do not affect one another

A patch that is accepted makes an edit whose place and value hang on the types, on the node that is
edited and, for one that moves elements, on their number.  Main statement: if neither of two changes
affects a deep reader at the place of the other, then the patches are accepted in either order, and
report the same changes, and leave the same document.
-/

namespace BoundView

open Json (SameTop Reordered)

/-! ## What is accepted is done -/

theorem arrayIndex_of_points {patch : Patch} {token : String} {length i : Nat}
    (h : patch.Points token length i) :
    (if patch.op = .add ∧ token = "-" then .ok length else arrayIndex token)
      = (.ok i : Except PatchError Nat) := by
  unfold Patch.Points at h
  split at h
  · rw [if_pos ‹_›, h]
  · rw [if_neg ‹_›, arrayIndex, h]

/-- Whether an edit of a container can be made in another one: in one of the same kind and, if the
edit moves elements, of the same length.  An edit that moves none needs the element that it
replaces. -/
def Edit.Serves (e : Edit) (seg : Seg) (node other : Json) : Prop :=
  SameTop node other ∨ e.shifts = false ∧ ∃ xs ys i, node = .array xs ∧ other = .array ys
    ∧ seg = .index i ∧ i < ys.length

namespace Schema

variable {s : Schema} {patch : Patch} {container : Path} {token : String} {id : TypeId}
  {node node' : Json} {seg : Seg} {edit : Edit}

theorem checkSlot_eq_ok {value? given? : Option Json} {path : Path}
    (h : s.instantiateSlot id given? path = .ok value?) :
    s.checkSlot id given? path = .ok value? :=
  Outcome.mapError_eq_ok.2 h

/-- Every edit that the type allows is planned. -/
theorem planField_eq {type : ObjectType} {field : TypeId} {value? : Option Json}
    (hfield : type.storedField token = .ok field)
    (hslot : s.instantiateSlot field patch.given? (container ++ [.field token]) = .ok value?) :
    s.planField type container token patch
      = .ok ⟨container, .field token, value?.elim .unset .set⟩ := by
  rw [planField, hfield]
  show (s.checkSlot field patch.given? _ >>= _) = _
  rw [checkSlot_eq_ok hslot]
  cases value? <;> rfl

theorem Edits.planWithin_eq (h : s.Edits patch container token id node seg edit node') :
    s.planWithin id node container token patch = .ok ⟨container, seg, edit⟩ := by
  cases h with
  | setField hkind hfield hslot =>
    simp only [planWithin, hkind]
    exact planField_eq hfield hslot
  | unsetField hkind hfield hslot =>
    simp only [planWithin, hkind]
    exact planField_eq hfield hslot
  | @setElement items xs i value? hkind hop hpoints hbound hslot =>
    simp only [planWithin, hkind]
    rw [planElement_eq, arrayIndex_of_points hpoints]
    have hnot : ¬xs.length ≤ i := by omega
    show (if (if patch.op = .add then _ else _) ≤ i then _ else _) = _
    simp only [hop, reduceCtorEq, if_false, if_neg hnot, checkSlot_eq_ok hslot]
    rfl
  | @insertElement items xs i value? hkind hop hpoints hbound hslot =>
    simp only [planWithin, hkind]
    rw [planElement_eq, arrayIndex_of_points hpoints]
    have hnot : ¬xs.length + 1 ≤ i := by omega
    show (if (if patch.op = .add then _ else _) ≤ i then _ else _) = _
    simp only [hop, reduceCtorEq, if_true, if_false, if_neg hnot, checkSlot_eq_ok hslot]
    rfl
  | @deleteElement items xs i hkind hop hpoints hbound =>
    simp only [planWithin, hkind]
    rw [planElement_eq, arrayIndex_of_points hpoints]
    have hnot : ¬xs.length ≤ i := by omega
    show (if (if patch.op = .add then _ else _) ≤ i then _ else _) = _
    simp only [hop, reduceCtorEq, if_true, if_false, if_neg hnot]

theorem Edits.carry {node₁ : Json} (h : s.Edits patch container token id node seg edit node')
    (hnode : edit.Serves seg node node₁) :
    ∃ node₁', s.Edits patch container token id node₁ seg edit node₁' := by
  rcases hnode with hsame | ⟨hshifts, xs, ys, i, rfl, rfl, rfl, hi⟩
  · cases h with
    | setField hkind hfield hslot =>
      cases hsame <;> exact ⟨_, .setField hkind hfield hslot⟩
    | unsetField hkind hfield hslot =>
      cases hsame <;> exact ⟨_, .unsetField hkind hfield hslot⟩
    | setElement hkind hop hpoints hbound hslot =>
      cases hsame with
      | refl => exact ⟨_, .setElement hkind hop hpoints hbound hslot⟩
      | array hlength =>
        exact ⟨_, .setElement hkind hop (hlength ▸ hpoints) (hlength ▸ hbound) hslot⟩
    | insertElement hkind hop hpoints hbound hslot =>
      cases hsame with
      | refl => exact ⟨_, .insertElement hkind hop hpoints hbound hslot⟩
      | array hlength =>
        exact ⟨_, .insertElement hkind hop (hlength ▸ hpoints) (hlength ▸ hbound) hslot⟩
    | deleteElement hkind hop hpoints hbound =>
      cases hsame with
      | refl => exact ⟨_, .deleteElement hkind hop hpoints hbound⟩
      | array hlength =>
        exact ⟨_, .deleteElement hkind hop (hlength ▸ hpoints) (hlength ▸ hbound)⟩
  · cases h with
    | setElement hkind hop hpoints hbound hslot =>
      refine ⟨_, .setElement hkind hop ?_ hi hslot⟩
      -- Only what is added can be meant for the end of the array.
      have hadd : ¬(patch.op = .add ∧ token = "-") := fun hadd => nomatch hop.symm.trans hadd.1
      rw [Patch.Points, if_neg hadd] at hpoints ⊢
      exact hpoints
    | insertElement | deleteElement => exact nomatch hshifts

end Schema

namespace Model

theorem ofOption_some {α : Type} (a : α) (e : PatchError) :
    plan.ofOption (some a) e = .ok a := rfl

end Model

namespace ModelRef

variable {r : ModelRef} {m : Model} {patch : Patch} {c : Change} {data : Json}

/-- Whatever a patch may do is done. -/
theorem Accepts.applyTo_eq (h : r.Accepts m patch c data) :
    r.applyTo m patch = .ok (c, { m with data }) := by
  cases h with
  | whole hsplit hop htype hgiven hnull hvalue hdata =>
    have hwhole : m.replaceWhole r.path patch = .ok { m with data } := by
      unfold Model.replaceWhole
      simp only [if_neg hop, htype, hgiven, hnull, Bool.false_eq_true, if_false, hvalue,
        Except.mapError, bind, Except.bind, hdata]
    unfold applyTo
    rw [hsplit]
    show (m.replaceWhole r.path patch >>= _) = _
    rw [hwhole]
    rfl
  | @edit parents last start id container node node' _ seg edit hsplit hstart hwalk hnode hedits
      hdata =>
    have hplan : m.plan r.path parents last patch = .ok ⟨container, seg, edit⟩ := by
      unfold Model.plan
      rw [hstart, Model.ofOption_some]
      show (m.schema.walk start r.path parents >>= _) = _
      rw [hwalk]
      show (Model.plan.ofOption (m.data.get? container) _ >>= _) = _
      rw [hnode, Model.ofOption_some]
      exact hedits.planWithin_eq
    have hdone : m.carryOut ⟨container, seg, edit⟩ = .ok { m with data } := by
      rw [Model.carryOut, hdata]
    exact applyTo_of_plan hsplit hplan hdone

/-! ## Plans of accepted patches -/

theorem Accepts.typeAt_path (h : r.Accepts m patch c data) :
    ∃ id, m.schema.typeAt m.type c.path = some id := by
  cases h with
  | whole hsplit hop htype hgiven hnull hvalue hdata => exact ⟨_, htype⟩
  | @edit parents last start id container node node' _ seg edit hsplit hstart hwalk hnode hedits
      hdata =>
    have htype := Schema.typeAt_of_walk hstart hwalk
    have hchild : ∃ child, m.schema.stepType id seg = some child := by
      cases hedits with
      | setField hkind hfield | unsetField hkind hfield =>
        exact ⟨_, Schema.stepType_of_object hkind hfield⟩
      | setElement hkind | insertElement hkind | deleteElement hkind =>
        exact ⟨_, Schema.stepType_of_array hkind⟩
    obtain ⟨child, hchild⟩ := hchild
    refine ⟨child, ?_⟩
    show m.schema.typeAt m.type (container ++ [seg]) = some child
    rw [Schema.typeAt_append, htype, Option.bind_some, Schema.typeAt, hchild]
    rfl

theorem makes?_of_replace? {container : Path} {seg : Seg} {value j j' : Json}
    (h : j.replace? value (container ++ [seg]) = some j') :
    Plan.makes? ⟨container, seg, .set value⟩ j = some j' := by
  obtain ⟨node, old, hnode, hold, hplaced⟩ := Json.replace?_concat_eq_some h
  have hset : (Edit.set value).apply seg node = some (node.putStep seg value) := by
    cases node with
    | null | bool | number | string => cases seg <;> exact nomatch hold
    | array xs =>
      cases seg with
      | field => exact nomatch hold
      | index => rfl
    | object ms =>
      cases seg with
      | field => rfl
      | index => exact nomatch hold
  rw [← hplaced]
  exact Json.modify?_congr hnode hset

/-- A document that still has what an edit of another one needs: the same node at its place, and a
container that serves. -/
structure Suits (plan : Plan) (j d : Json) : Prop where
  place_eq : d.get? plan.path = j.get? plan.path
  container : ∀ node, j.get? plan.container = some node →
    ∃ node', d.get? plan.container = some node' ∧ plan.edit.Serves plan.seg node node'

/-- An accepted patch that does not replace the whole document makes an edit of some container, and
it is accepted for any other document that suits this edit. -/
theorem Accepts.exists_plan (h : r.Accepts m patch c data) (hne : c.path ≠ []) :
    ∃ plan : Plan, plan.change r.model = c ∧ plan.makes? m.data = some data
      ∧ ∀ d, Suits plan m.data d →
        ∃ data', plan.makes? d = some data' ∧ r.Accepts { m with data := d } patch c data' := by
  cases h with
  | @whole id given value _ hsplit hop htype hgiven hnull hvalue hdata =>
    obtain ⟨container, seg, hpath⟩ := (List.eq_nil_or_concat' r.path).resolve_left hne
    have hchange : Plan.change ⟨container, seg, .set value⟩ r.model = ⟨r.model, r.path, none⟩ := by
      rw [hpath]
      rfl
    refine ⟨_, hchange, makes?_of_replace? (hpath ▸ hdata), fun d hsuits => ?_⟩
    obtain ⟨old, -, hold, -⟩ := Json.modify?_eq_some hdata
    have hold' : d.get? r.path = some old := by
      rw [hpath] at hold ⊢
      exact hsuits.place_eq.trans hold
    obtain ⟨data', hdata'⟩ := Option.isSome_iff_exists.1
      (Json.isSome_modify? (f := fun _ => some value) hold' rfl)
    exact ⟨data', makes?_of_replace? (hpath ▸ hdata'),
      .whole hsplit hop htype hgiven hnull hvalue hdata'⟩
  | @edit parents last start id container node node' _ seg edit hsplit hstart hwalk hnode hedits
      hdata =>
    refine ⟨⟨container, seg, edit⟩, rfl, hdata, fun d hsuits => ?_⟩
    obtain ⟨node₁, hnode₁, hkept⟩ := hsuits.container node hnode
    obtain ⟨node₁', hedits₁⟩ := hedits.carry hkept
    obtain ⟨data', hdata'⟩ := Option.isSome_iff_exists.1
      (Json.isSome_modify? hnode₁ hedits₁.isSome_apply)
    exact ⟨data', hdata', .edit hsplit hstart hwalk hnode₁ hedits₁ hdata'⟩

/-! ## Two patches -/

/-- A patch that moves elements of an array leaves an array up to them. -/
theorem Accepts.array_of_shifted (h : r.Accepts m patch c data) {array : Path} {start : Nat}
    (hshifted : c.shifted = some (array, start)) :
    ∃ xs ys, m.data.get? array = some (.array xs) ∧ data.get? array = some (.array ys)
      ∧ start ≤ ys.length := by
  cases h with
  | whole => exact nomatch hshifted
  | @edit parents last start id container node node' _ seg edit hsplit hstart hwalk hnode hedits
      hdata =>
    obtain ⟨before, after, hbefore, hafter, hrest⟩ := Json.modify?_eq_some hdata
    obtain rfl : node = before := Option.some.inj (hnode.symm.trans hbefore)
    obtain rfl : node' = after := Option.some.inj (hedits.apply_eq.symm.trans hafter)
    have hnode' := hrest []
    rw [List.append_nil] at hnode'
    cases hedits with
    | setField | unsetField | setElement => exact nomatch hshifted
    | @insertElement items xs i value? hkind hop hpoints hbound =>
      obtain ⟨rfl, rfl⟩ := Prod.mk.inj (Option.some.inj hshifted)
      refine ⟨xs, _, hnode, hnode', ?_⟩
      rw [List.length_insertIdx_of_le_length hbound]
      omega
    | @deleteElement items xs i hkind hop hpoints hbound =>
      obtain ⟨rfl, rfl⟩ := Prod.mk.inj (Option.some.inj hshifted)
      refine ⟨xs, _, hnode, hnode', ?_⟩
      have hlength := List.length_eraseIdx_add_one hbound
      omega

end ModelRef

namespace Plan

variable {p : Plan} {model : ModelId} {array path : Path} {i : Nat}

theorem change_shifted_eq_some (h : (p.change model).shifted = some (array, i)) :
    p.edit.shifts = true ∧ p.seg = .index i ∧ p.container = array := by
  unfold change at h
  dsimp only at h
  split at h
  · rename_i k hshifts hseg
    obtain ⟨rfl, rfl⟩ := Prod.mk.inj (Option.some.inj h)
    exact ⟨hshifts, hseg, rfl⟩
  · exact nomatch h

theorem change_shifted_eq (hshifts : p.edit.shifts = true) (hseg : p.seg = .index i) :
    (p.change model).shifted = some (p.container, i) := by
  rw [change, hshifts, hseg]

/-- What does not affect a deep reader of a place spares the place. -/
theorem spares_of_affects (h : (p.change model).affects ⟨model, path, true⟩ = false) :
    p.Spares path := by
  obtain ⟨hbelow, -, hmoved⟩ := Change.affects_eq_false rfl h
  refine ⟨hbelow, fun other rest hpath hshifts i k hseg hother => ?_⟩
  have hmoves := hmoved p.container i (change_shifted_eq hshifts hseg)
  rw [hpath, hother, Change.moves_append] at hmoves
  exact Nat.lt_of_not_le (of_decide_eq_false hmoves)

/-- Where an array stands, edits are made at indices. -/
theorem exists_index {j j' : Json} {xs : List Json} (h : p.makes? j = some j')
    (hnode : j.get? p.container = some (.array xs)) : ∃ i, p.seg = .index i := by
  obtain ⟨before, after, hbefore, hafter, -⟩ := Json.modify?_eq_some h
  obtain rfl := Option.some.inj (hnode.symm.trans hbefore)
  cases hseg : p.seg with
  | index i => exact ⟨i, rfl⟩
  | field name =>
    rw [hseg] at hafter
    cases hedit : p.edit <;> rw [hedit] at hafter <;> cases hafter

/-- An element is not moved along with those behind it if a place among these is spared. -/
theorem shifts_eq_false_of_affects {q : Plan} {start : Nat}
    (hshifted : (p.change model).shifted = some (q.container, start)) (hseg : q.seg = .index i)
    (hlt : i < start) (h : (q.change model).affects ⟨model, p.path, true⟩ = false) :
    q.edit.shifts = false := by
  rw [← Bool.not_eq_true]
  intro hshifts
  obtain ⟨-, -, hmoved⟩ := Change.affects_eq_false rfl h
  have hmoves := hmoved q.container i (change_shifted_eq hshifts hseg)
  obtain ⟨-, hpseg, hpcontainer⟩ := change_shifted_eq_some hshifted
  rw [Plan.path, hpseg, hpcontainer, Change.moves_append] at hmoves
  have hge := of_decide_eq_false hmoves
  omega

end Plan

namespace ModelRef

variable {r : ModelRef} {m : Model} {patch : Patch} {data : Json} {p q : Plan}

/-- After a patch, the container of an edit that it does not affect serves as before. -/
theorem Accepts.container_of_affects (h : r.Accepts m patch (p.change r.model) data)
    {other : Json} (hq : q.makes? m.data = some other)
    (hleft : (p.change r.model).affects ⟨r.model, q.path, true⟩ = false)
    (hright : (q.change r.model).affects ⟨r.model, p.path, true⟩ = false) :
    ∀ node, m.data.get? q.container = some node →
      ∃ node', data.get? q.container = some node' ∧ q.edit.Serves q.seg node node' := by
  intro node hnode
  obtain ⟨hbelow, -, hmoved⟩ := Change.affects_eq_false rfl hleft
  change ¬p.path <+: q.container ++ [q.seg] at hbelow
  change ∀ array start, (p.change r.model).shifted = some (array, start) →
    Change.moves array start (q.container ++ [q.seg]) = false at hmoved
  by_cases hsame : ∃ start, (p.change r.model).shifted = some (q.container, start)
  · -- The elements of one array: the one that is edited stands in front of those that move.
    obtain ⟨start, hshifted⟩ := hsame
    obtain ⟨xs, ys, hxs, hys, hle⟩ := h.array_of_shifted hshifted
    obtain rfl : node = .array xs := Option.some.inj (hnode.symm.trans hxs)
    obtain ⟨i, hseg⟩ := Plan.exists_index hq hnode
    have hlt : i < start := by
      have hmoves := hmoved q.container start hshifted
      rw [hseg, Change.moves_append] at hmoves
      exact Nat.lt_of_not_le (of_decide_eq_false hmoves)
    have hshifts := Plan.shifts_eq_false_of_affects hshifted hseg hlt hright
    exact ⟨_, hys, .inr ⟨hshifts, xs, ys, i, rfl, rfl, hseg, Nat.lt_of_lt_of_le hlt hle⟩⟩
  · have hcontainer : ¬p.path <+: q.container := fun hpath =>
      hbelow (hpath.trans (List.prefix_append _ _))
    have htop := h.sameTop_of_not_affects hcontainer fun array start hshifted =>
      Change.moves_eq_false_of_concat (fun heq => hsame ⟨start, heq ▸ hshifted⟩)
        (hmoved array start hshifted)
    rw [hnode] at htop
    generalize data.get? q.container = node? at htop ⊢
    cases htop with
    | some hsame' => exact ⟨_, rfl, .inl hsame'⟩

theorem Accepts.suits (h : r.Accepts m patch (p.change r.model) data) {other : Json}
    (hq : q.makes? m.data = some other)
    (hleft : (p.change r.model).affects ⟨r.model, q.path, true⟩ = false)
    (hright : (q.change r.model).affects ⟨r.model, p.path, true⟩ = false) :
    Suits q m.data data where
  place_eq := by
    obtain ⟨hbelow, habove, hmoved⟩ := Change.affects_eq_false rfl hleft
    exact h.get?_eq_of_beside hbelow (habove rfl) hmoved
  container := h.container_of_affects hq hleft hright

/-- On the way to an edit no object has a name twice. -/
theorem Accepts.nodup_names {c : Change} (h : r.Accepts m patch c data)
    (hdata : m.schema.Conforms m.type m.data) {place rest : Path} {seg : Seg}
    {ms : List (String × Json)} (hpath : c.path = place ++ seg :: rest)
    (hget : m.data.get? place = some (.object ms)) : (ms.map Prod.fst).Nodup := by
  obtain ⟨id, htype⟩ := h.typeAt_path
  rw [hpath, Schema.typeAt_append] at htype
  obtain ⟨type, hplace, htype⟩ := Option.bind_eq_some_iff.1 htype
  obtain ⟨child, hchild, -⟩ := Option.bind_eq_some_iff.1 htype
  have hconforms : m.schema.Conforms type (.object ms) :=
    Model.conforms_of_get? (fun _ => hdata) hplace hget rfl
  cases hconforms with
  | object _ hnodup => exact hnodup
  | any hkind =>
    -- No step leads out of what may be anything.
    cases seg with
    | field name =>
      obtain ⟨type', hkind', -⟩ := Schema.stepType_field hchild
      exact nomatch hkind.symm.trans hkind'
    | index i => exact nomatch hkind.symm.trans (Schema.stepType_index hchild)

/-- No object on the way to the place of an accepted patch has two members of one name. -/
theorem Accepts.distinctAlong (h : r.Accepts m patch (p.change r.model) data)
    (hdata : m.schema.Conforms m.type m.data) : m.data.DistinctAlong p.container := by
  rintro place ms ⟨rest, hrest⟩ hget
  obtain ⟨seg, rest', hpath⟩ : ∃ seg rest', rest ++ [p.seg] = seg :: rest' :=
    List.exists_cons_of_ne_nil (by simp)
  have hplace : (p.change r.model).path = place ++ seg :: rest' := by
    show p.container ++ [p.seg] = _
    rw [← hrest, List.append_assoc, hpath]
  exact h.nodup_names hdata hplace hget

theorem path_ne_nil_of_affects {c c' : Change} (hmodel : c'.model = c.model)
    (h : c.affects ⟨c'.model, c'.path, true⟩ = false) : c.path ≠ [] := by
  intro hnil
  obtain ⟨hbelow, -⟩ := Change.affects_eq_false (d := ⟨c'.model, c'.path, true⟩) hmodel h
  rw [hnil] at hbelow
  exact hbelow List.nil_prefix

/-- Of two accepted patches of a model that do not affect one another, either is accepted after the
other. -/
theorem Accepts.comm {r₁ r₂ : ModelRef} {p₁ p₂ : Patch} {c₁ c₂ : Change} {d₁ d₂ : Json}
    (hmodel : r₁.model = r₂.model) (hdata : m.schema.Conforms m.type m.data)
    (h₁ : r₁.Accepts m p₁ c₁ d₁) (h₂ : r₂.Accepts m p₂ c₂ d₂)
    (hleft : c₁.affects ⟨c₂.model, c₂.path, true⟩ = false)
    (hright : c₂.affects ⟨c₁.model, c₁.path, true⟩ = false) :
    ∃ d₁₂ d₂₁, r₂.Accepts { m with data := d₁ } p₂ c₂ d₁₂
      ∧ r₁.Accepts { m with data := d₂ } p₁ c₁ d₂₁ ∧ Reordered d₁₂ d₂₁ := by
  have hsame : c₂.model = c₁.model := h₂.model_eq.trans (hmodel.symm.trans h₁.model_eq.symm)
  obtain ⟨p, rfl, hp, hagain₁⟩ := h₁.exists_plan (path_ne_nil_of_affects hsame hleft)
  obtain ⟨q, rfl, hq, hagain₂⟩ := h₂.exists_plan (path_ne_nil_of_affects hsame.symm hright)
  change (p.change r₁.model).affects ⟨r₂.model, q.path, true⟩ = false at hleft
  change (q.change r₂.model).affects ⟨r₁.model, p.path, true⟩ = false at hright
  have hspares : p.Spares q.path := Plan.spares_of_affects (hmodel ▸ hleft)
  have hspares' : q.Spares p.path := Plan.spares_of_affects (hmodel ▸ hright)
  have hsuits₂ : Suits q m.data d₁ := by
    rw [← hmodel] at hleft hright
    exact h₁.suits hq hleft hright
  have hsuits₁ : Suits p m.data d₂ := by
    rw [hmodel] at hleft hright
    exact h₂.suits hp hright hleft
  obtain ⟨d₁₂, hq', haccepts₂⟩ := hagain₂ d₁ hsuits₂
  obtain ⟨d₂₁, hp', haccepts₁⟩ := hagain₁ d₂ hsuits₁
  refine ⟨d₁₂, d₂₁, haccepts₂, haccepts₁, ?_⟩
  exact Plan.reordered_of_makes? hspares hspares' (h₁.distinctAlong hdata) hp hq hq' hp'

end ModelRef

/-! ## Main statement -/

namespace Live

theorem apply_of_accepts {l : Live} {r : ModelRef} {m : Model} {patch : Patch} {c : Change}
    {data : Json} (hm : r.model? l.models = some m) (h : r.Accepts m patch c data) :
    ∃ l', l.apply r patch = .ok (c, l')
      ∧ l'.models = IdMap.insert r.model { m with data } l.models := by
  have happly := ModelRef.apply_of_applyTo hm h.applyTo_eq
  exact ⟨⟨(l.observers.notify c).2, _⟩, by rw [apply, happly]; rfl, rfl⟩

/-- Two patches of a model of which neither affects a deep reader of the other's place can be
applied in either order: both are accepted, with the same changes, and every document comes out the
same, but for the order of members. -/
theorem apply_comm {l l₁ l₂ : Live} (hl : l.Reachable) {r₁ r₂ : ModelRef}
    (hmodel : r₁.model = r₂.model) {p₁ p₂ : Patch} {c₁ c₂ : Change}
    (h₁ : l.apply r₁ p₁ = .ok (c₁, l₁)) (h₂ : l.apply r₂ p₂ = .ok (c₂, l₂))
    (hleft : c₁.affects ⟨c₂.model, c₂.path, true⟩ = false)
    (hright : c₂.affects ⟨c₁.model, c₁.path, true⟩ = false) :
    ∃ l₁₂ l₂₁, l₁.apply r₂ p₂ = .ok (c₂, l₁₂) ∧ l₂.apply r₁ p₁ = .ok (c₁, l₂₁)
      ∧ ∀ id, (l₁₂.data id).Reordered (l₂₁.data id) := by
  obtain ⟨m, d₁, hm, haccepts₁, hmodels₁⟩ := ModelRef.apply_eq_ok (apply_eq_ok h₁).1
  obtain ⟨m', d₂, hm', haccepts₂, hmodels₂⟩ := ModelRef.apply_eq_ok (apply_eq_ok h₂).1
  rw [ModelRef.model?, ← hmodel] at hm'
  obtain rfl : m = m' := Option.some.inj (hm.symm.trans hm')
  obtain ⟨d₁₂, d₂₁, haccepts₁₂, haccepts₂₁, hsame⟩ :=
    haccepts₁.comm hmodel (hl.valid r₁.model m hm).2.conforms haccepts₂ hleft hright
  rw [← hmodel] at hmodels₂
  have hafter₁ : r₂.model? l₁.models = some { m with data := d₁ } := by
    rw [ModelRef.model?, hmodels₁, ← hmodel, IdMap.find?_insert_self]
  have hafter₂ : r₁.model? l₂.models = some { m with data := d₂ } := by
    rw [ModelRef.model?, hmodels₂, IdMap.find?_insert_self]
  obtain ⟨l₁₂, happly₁₂, hmodels₁₂⟩ := apply_of_accepts hafter₁ haccepts₁₂
  obtain ⟨l₂₁, happly₂₁, hmodels₂₁⟩ := apply_of_accepts hafter₂ haccepts₂₁
  refine ⟨l₁₂, l₂₁, happly₁₂, happly₂₁, fun id => ?_⟩
  rw [← hmodel, hmodels₁] at hmodels₁₂
  rw [hmodels₂] at hmodels₂₁
  by_cases hid : id = r₁.model
  · rw [data, data, hmodels₁₂, hmodels₂₁, hid, IdMap.find?_insert_self, IdMap.find?_insert_self]
    exact hsame
  · rw [data, data, hmodels₁₂, hmodels₂₁, IdMap.find?_insert_of_ne _ _ hid,
      IdMap.find?_insert_of_ne _ _ hid, IdMap.find?_insert_of_ne _ _ hid,
      IdMap.find?_insert_of_ne _ _ hid]
    exact .refl _

end Live

/-! ## A list of things to do -/

namespace Todo

/-- The first item. -/
def first : ModelRef :=
  ⟨1, [.field "todos", .index 0]⟩

def retitle (title : String) : Patch :=
  ⟨.replace, "/title", some (.string title)⟩

theorem live_apply_retitle : (live ["a", "b"]).apply first (retitle "z")
    = .ok (⟨1, [.field "todos", .index 0, .field "title"], none⟩, live ["z", "b"]) := by
  cbv

/-- An item may be added before or after the first one gets another title. -/
theorem apply_comm_append_retitle : (live ["a", "b"]).Reachable
    ∧ ∃ l₁₂ l₂₁,
      (live ["a", "b", "c"]).apply first (retitle "z")
        = .ok (⟨1, [.field "todos", .index 0, .field "title"], none⟩, l₁₂)
      ∧ (live ["z", "b"]).apply (.root 1) (append "c")
        = .ok (⟨1, [.field "todos", .index 2], some ([.field "todos"], 2)⟩, l₂₁)
      ∧ ∀ id, (l₁₂.data id).Reordered (l₂₁.data id) := by
  refine ⟨reachable_live, ?_⟩
  have hmodel : (ModelRef.root 1).model = first.model := rfl
  refine Live.apply_comm reachable_live hmodel live_apply_append live_apply_retitle ?_ ?_
  · decide
  · decide

end Todo

end BoundView
