import BoundView.Model.Live
import BoundView.Proofs.Model.Edit

/-!
# Reads that a change does not affect

A reader records what it looked at as dependencies.  Main statement: after an accepted patch every
node on which the change affects no dependency reads as before, for a shallow dependency the node by
itself and for a deep one everything beneath it.  So `Change.affects` forgets nobody.
-/

namespace BoundView

open Json (SameTop)

theorem sameTop_refl (node? : Option Json) : Option.Rel SameTop node? node? := by
  cases node? with
  | none => exact .none
  | some node => exact .some (.refl node)

/-! ## What a change does not affect -/

namespace Change

theorem moves_append (array : Path) (start : Nat) (seg : Seg) (rest : Path) :
    moves array start (array ++ seg :: rest) =
      match seg with
      | .index i => decide (start ≤ i)
      | .field _ => false := by
  have hprefix : array.isPrefixOf (array ++ seg :: rest) = true :=
    List.isPrefixOf_iff_prefix.2 (List.prefix_append array _)
  rw [moves, hprefix, Bool.true_and, List.drop_left]
  cases seg <;> rfl

theorem moves_self (array : Path) (start : Nat) : moves array start array = true := by
  have hprefix : array.isPrefixOf array = true :=
    List.isPrefixOf_iff_prefix.2 (List.prefix_refl array)
  rw [moves, hprefix, Bool.true_and, List.drop_length]

/-- Unless it is the array itself, a container leaves an array where the places in it do. -/
theorem moves_eq_false_of_concat {array container : Path} {start : Nat} {seg : Seg}
    (hne : array ≠ container) (h : moves array start (container ++ [seg]) = false) :
    moves array start container = false := by
  by_cases harray : array <+: container
  · obtain ⟨rest, rfl⟩ := harray
    cases rest with
    | nil => exact absurd (List.append_nil array).symm hne
    | cons first rest =>
      rw [List.append_assoc, List.cons_append, moves_append] at h
      rw [moves_append]
      exact h
  · have hprefix : array.isPrefixOf container = false :=
      Bool.eq_false_iff.2 (mt List.isPrefixOf_iff_prefix.1 harray)
    rw [moves, hprefix, Bool.false_and]

theorem affects_eq_false {c : Change} {d : Dependency} (hmodel : d.model = c.model)
    (h : c.affects d = false) :
    ¬c.path <+: d.path ∧ (d.deep = true → ¬d.path <+: c.path)
      ∧ ∀ array start, c.shifted = some (array, start) → moves array start d.path = false := by
  have hmodel' : (d.model == c.model) = true := beq_iff_eq.2 hmodel
  rw [affects, hmodel', Bool.true_and, Bool.or_eq_false_iff, Bool.or_eq_false_iff] at h
  obtain ⟨⟨hbelow, habove⟩, hmoved⟩ := h
  refine ⟨fun hp => ?_, fun hdeep hp => ?_, fun array start hshifted => ?_⟩
  · rw [List.isPrefixOf_iff_prefix.2 hp] at hbelow
    exact nomatch hbelow
  · rw [hdeep, List.isPrefixOf_iff_prefix.2 hp] at habove
    exact nomatch habove
  · rw [hshifted] at hmoved
    exact hmoved

end Change

/-! ## The container of an edit -/

namespace Edit

variable {e : Edit} {seg other : Seg} {j j' : Json}

/-- Whether the edit at a step leaves the elements at another one where they are. -/
def Keeps (e : Edit) (seg other : Seg) : Prop :=
  e.shifts = true → ∀ i k, seg = .index i → other = .index k → k < i

/-- Beside the step of an edit the container stays as it is, up to the first element that moves. -/
theorem step?_eq (h : e.apply seg j = some j') (hne : other ≠ seg) (hkeeps : e.Keeps seg other) :
    j'.step? other = j.step? other := by
  cases j with
  | null | bool | number | string => exact nomatch h
  | object ms =>
    cases seg with
    | index i => cases e <;> exact nomatch h
    | field name =>
      cases other with
      | index k =>
        cases e with
        | set | unset => exact Option.some.inj h ▸ rfl
        | insert | delete => exact nomatch h
      | field key =>
        have hkey : key ≠ name := fun heq => hne (by rw [heq])
        cases e with
        | set value =>
          obtain rfl := Option.some.inj h
          exact Members.find?_set_of_ne value ms hkey
        | unset =>
          obtain rfl := Option.some.inj h
          exact Members.find?_erase_of_ne ms hkey
        | insert | delete => exact nomatch h
  | array xs =>
    cases seg with
    | field name => cases e <;> exact nomatch h
    | index i =>
      cases other with
      | field key =>
        cases e with
        | set | insert | delete => exact Option.some.inj h ▸ rfl
        | unset => exact nomatch h
      | index k =>
        cases e with
        | set value =>
          obtain rfl := Option.some.inj h
          exact List.getElem?_set_ne fun heq => hne (by rw [heq])
        | insert value =>
          obtain rfl := Option.some.inj h
          exact List.getElem?_insertIdx_of_lt (hkeeps rfl i k rfl rfl)
        | delete =>
          obtain rfl := Option.some.inj h
          exact List.getElem?_eraseIdx_of_lt (hkeeps rfl i k rfl rfl)
        | unset => exact nomatch h

end Edit

namespace Schema.Edits

variable {s : Schema} {patch : Patch} {container : Path} {token : String} {id : TypeId}
  {node node' : Json} {seg : Seg} {edit : Edit}

/-- An edit that moves nothing leaves a container of the same kind and length. -/
theorem sameTop (h : s.Edits patch container token id node seg edit node')
    (hshifts : edit.shifts = false) : SameTop node node' := by
  cases h with
  | setField => exact .object _ _
  | unsetField => exact .object _ _
  | setElement => exact .array (List.length_set ..).symm
  | insertElement => exact nomatch hshifts
  | deleteElement => exact nomatch hshifts

/-- Beside the step of an edit the container stays as it is. -/
theorem step?_eq (h : s.Edits patch container token id node seg edit node') {other : Seg}
    (hne : other ≠ seg) (hkeeps : edit.Keeps seg other) : node'.step? other = node.step? other :=
  Edit.step?_eq h.apply_eq hne hkeeps

end Schema.Edits

/-! ## Documents before and after -/

namespace ModelRef.Accepts

variable {r : ModelRef} {m : Model} {patch : Patch} {c : Change} {data : Json}

theorem model_eq (h : r.Accepts m patch c data) : c.model = r.model := by
  cases h <;> rfl

/-- What is neither changed nor moved nor leads to the change is the same subtree as before. -/
theorem get?_eq_of_beside (h : r.Accepts m patch c data) {path : Path}
    (hbelow : ¬c.path <+: path) (habove : ¬path <+: c.path)
    (hmoved : ∀ array start, c.shifted = some (array, start) →
      Change.moves array start path = false) :
    data.get? path = m.data.get? path := by
  cases h with
  | whole hsplit hop htype hgiven hnull hvalue hdata =>
    exact Json.get?_modify?_of_beside hdata hbelow habove
  | @edit parents last start id container node node' data seg edit hsplit hstart hwalk hnode hedits
      hdata =>
    change ¬container ++ [seg] <+: path at hbelow
    change ¬path <+: container ++ [seg] at habove
    -- Below the container the first step decides, and elsewhere the container is beside the path.
    by_cases hcontainer : container <+: path
    · obtain ⟨rest, rfl⟩ := hcontainer
      cases rest with
      | nil =>
        rw [List.append_nil] at habove
        exact absurd (List.prefix_append container [seg]) habove
      | cons other rest =>
        have hne : other ≠ seg := by
          rintro rfl
          rw [List.prefix_append_right_inj] at hbelow
          exact hbelow ⟨rest, rfl⟩
        obtain ⟨before, after, hbefore, hafter, hrest⟩ := Json.modify?_eq_some hdata
        rw [hnode] at hbefore
        obtain rfl := Option.some.inj hbefore
        obtain rfl : node' = after := Option.some.inj (hedits.apply_eq.symm.trans hafter)
        rw [hrest, Json.get?_append, hnode, Option.bind_some, Json.get?, Json.get?,
          hedits.step?_eq hne fun hshifts i j hi hj => ?_]
        -- An element in front of the first one that moves keeps its position.
        subst hi hj
        have hmoves := hmoved container i (by simp [Plan.change, hshifts])
        rw [Change.moves_append] at hmoves
        exact Nat.lt_of_not_le (of_decide_eq_false hmoves)
    · refine Json.get?_modify?_of_beside hdata hcontainer fun hpath => ?_
      exact habove (hpath.trans (List.prefix_append container [seg]))

/-- A node that a shallow dependency of nobody hears of is the same leaf, absent as before, or a
container of the same kind and length. -/
theorem sameTop_of_not_affects (h : r.Accepts m patch c data) {path : Path}
    (hbelow : ¬c.path <+: path)
    (hmoved : ∀ array start, c.shifted = some (array, start) →
      Change.moves array start path = false) :
    Option.Rel SameTop (m.data.get? path) (data.get? path) := by
  by_cases habove : path <+: c.path
  · suffices hnodes : ∃ node node', m.data.get? path = some node ∧ data.get? path = some node'
        ∧ SameTop node node' by
      obtain ⟨node, node', hbefore, hafter, hsame⟩ := hnodes
      rw [hbefore, hafter]
      exact .some hsame
    cases h with
    | whole hsplit hop htype hgiven hnull hvalue hdata =>
      refine Json.sameTop_modify?_of_above hdata habove fun heq => hbelow ?_
      exact heq ▸ List.prefix_refl path
    | @edit parents last start id container node node' data seg edit hsplit hstart hwalk hnode
        hedits hdata =>
      change ¬container ++ [seg] <+: path at hbelow
      change path <+: container ++ [seg] at habove
      -- A path that leads to the edit is the edited place, the container, or above the container.
      rcases List.prefix_concat_iff.1 habove with rfl | hpath
      · exact absurd (List.prefix_refl _) hbelow
      by_cases hne : path = container
      · subst hne
        obtain ⟨before, after, hbefore, hafter, hrest⟩ := Json.modify?_eq_some hdata
        obtain rfl : node = before := Option.some.inj (hnode.symm.trans hbefore)
        obtain rfl : node' = after := Option.some.inj (hedits.apply_eq.symm.trans hafter)
        have hafter' := hrest []
        rw [List.append_nil] at hafter'
        refine ⟨node, node', hnode, hafter', hedits.sameTop (Bool.eq_false_iff.2 fun hshifts => ?_)⟩
        -- What moves elements affects the array as well, so it would have been heard of.
        cases seg with
        | index i =>
          have hmoves := hmoved path i (by simp [Plan.change, hshifts])
          rw [Change.moves_self] at hmoves
          cases hmoves
        | field name => cases hedits <;> cases hshifts
      · exact Json.sameTop_modify?_of_above hdata hpath hne
  · rw [h.get?_eq_of_beside hbelow habove hmoved]
    exact sameTop_refl _

end ModelRef.Accepts

/-! ## References before and after -/

namespace ModelRef

variable {r q : ModelRef} {models models' : Models} {patch : Patch} {c : Change}

/-- The node at a reference to the changed model before and after a patch. -/
theorem node?_of_apply (h : r.apply models patch = .ok (c, models')) (hmodel : q.model = c.model) :
    ∃ m data, r.Accepts m patch c data ∧ q.node? models = m.data.get? q.path
      ∧ q.node? models' = data.get? q.path := by
  obtain ⟨m, data, hm, haccepts, rfl⟩ := apply_eq_ok h
  have hr : q.model = r.model := hmodel.trans haccepts.model_eq
  refine ⟨m, data, haccepts, ?_, ?_⟩
  · rw [node?, model?, hr]
    rw [model?] at hm
    rw [hm, Option.bind_some]
  · rw [node?, model?, hr, IdMap.find?_insert_self, Option.bind_some]

theorem model?_of_apply_of_ne (h : r.apply models patch = .ok (c, models'))
    (hmodel : q.model ≠ c.model) : q.model? models' = q.model? models := by
  obtain ⟨m, data, hm, haccepts, rfl⟩ := apply_eq_ok h
  exact IdMap.find?_insert_of_ne _ models (haccepts.model_eq ▸ hmodel)

theorem sameTop_of_not_affects (h : r.apply models patch = .ok (c, models'))
    (hq : c.affects (q.dependency false) = false) :
    Option.Rel SameTop (q.node? models) (q.node? models') := by
  by_cases hmodel : q.model = c.model
  · obtain ⟨m, data, haccepts, hbefore, hafter⟩ := node?_of_apply h hmodel
    obtain ⟨hbelow, -, hmoved⟩ := Change.affects_eq_false (d := q.dependency false) hmodel hq
    rw [hbefore, hafter]
    exact haccepts.sameTop_of_not_affects hbelow hmoved
  · rw [node?, node?, model?_of_apply_of_ne h hmodel]
    exact sameTop_refl _

theorem node?_eq_of_not_affects (h : r.apply models patch = .ok (c, models'))
    (hq : c.affects (q.dependency true) = false) : q.node? models' = q.node? models := by
  by_cases hmodel : q.model = c.model
  · obtain ⟨m, data, haccepts, hbefore, hafter⟩ := node?_of_apply h hmodel
    obtain ⟨hbelow, habove, hmoved⟩ := Change.affects_eq_false (d := q.dependency true) hmodel hq
    rw [hbefore, hafter]
    exact haccepts.get?_eq_of_beside hbelow (habove rfl) hmoved
  · rw [node?, node?, model?_of_apply_of_ne h hmodel]

theorem load_eq_of_sameTop (h : Option.Rel SameTop (q.node? models) (q.node? models')) :
    q.load models' = q.load models := by
  unfold load Reading.peek
  dsimp only
  generalize q.node? models = before at h ⊢
  generalize q.node? models' = after at h ⊢
  cases h with
  | none => rfl
  | some hsame => cases hsame <;> rfl

theorem length?_eq_of_sameTop (h : Option.Rel SameTop (q.node? models) (q.node? models')) :
    q.length? models' = q.length? models := by
  refine Prod.ext ?_ rfl
  unfold length? observe Reading.record Reading.peek
  dsimp only [bind, Reading.bind]
  generalize q.node? models = before at h ⊢
  generalize q.node? models' = after at h ⊢
  cases h with
  | none => rfl
  | some hsame =>
    cases hsame with
    | refl => rfl
    | object => rfl
    | array hlength => simp only [hlength]

/-- After an accepted patch, a node on which the change affects no shallow dependency loads as
before, with the same length if it is an array; one on which it affects no deep dependency is the
same whole subtree. -/
theorem reads_eq_of_not_affects (h : r.apply models patch = .ok (c, models')) (q : ModelRef) :
    (c.affects (q.dependency false) = false →
        q.load models' = q.load models ∧ q.length? models' = q.length? models)
      ∧ (c.affects (q.dependency true) = false → q.node? models' = q.node? models) := by
  refine ⟨fun hq => ?_, node?_eq_of_not_affects h⟩
  have hsame := sameTop_of_not_affects h hq
  exact ⟨load_eq_of_sameTop hsame, length?_eq_of_sameTop hsame⟩

/-- What is added behind two items leaves both as they are. -/
theorem reads_eq_of_append :
    let second : ModelRef := ⟨1, [.field "todos", .index 1]⟩
    second.load (Todo.models ["a", "b", "c"]) = second.load (Todo.models ["a", "b"])
      ∧ second.length? (Todo.models ["a", "b", "c"]) = second.length? (Todo.models ["a", "b"])
      ∧ second.node? (Todo.models ["a", "b", "c"]) = second.node? (Todo.models ["a", "b"]) := by
  intro second
  obtain ⟨hshallow, hdeep⟩ := reads_eq_of_not_affects Todo.apply_append second
  obtain ⟨hload, hlength⟩ := hshallow (by decide)
  exact ⟨hload, hlength, hdeep (by decide)⟩

end ModelRef

end BoundView
