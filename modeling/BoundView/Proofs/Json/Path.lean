import BoundView.Pointer
import BoundView.Proofs.Members

/-!
# Looking along paths after a change

A change at one place of a document leaves everything beside the place as it is.  On the way down to
the place only the kinds of the containers and the lengths of the arrays stay what they were.
-/

namespace BoundView

namespace Json

/-! ## One step -/

/-- Whether two nodes look the same to a reader that does not look beneath them: the same leaf, or
containers of one kind, arrays with as many elements. -/
inductive SameTop : Json → Json → Prop where
  | refl (j : Json) : SameTop j j
  | object (ms ns : List (String × Json)) : SameTop (.object ms) (.object ns)
  | array {xs ys : List Json} (h : xs.length = ys.length) : SameTop (.array xs) (.array ys)

theorem step?_putStep_self {j old : Json} {seg : Seg} (child : Json)
    (h : j.step? seg = some old) : (j.putStep seg child).step? seg = some child := by
  cases j <;> cases seg <;>
    simp_all [step?, member?, element?, putStep, Members.find?_set_self]
  rename_i items i
  exact List.getElem?_set_self (List.getElem?_eq_some_iff.1 h).1

theorem step?_putStep_of_ne {seg other : Seg} (j child : Json) (h : other ≠ seg) :
    (j.putStep seg child).step? other = j.step? other := by
  cases j <;> cases seg <;> cases other <;> try rfl
  · rename_i items i k
    have hik : i ≠ k := fun heq => h (by rw [heq])
    simp [step?, element?, putStep, hik]
  · rename_i ms name key
    have hkey : key ≠ name := fun heq => h (by rw [heq])
    exact Members.find?_set_of_ne child ms hkey

theorem sameTop_putStep (j child : Json) (seg : Seg) : SameTop j (j.putStep seg child) := by
  cases j with
  | object ms => cases seg <;> exact .object _ _
  | array xs =>
    cases seg with
    | field name => exact .refl _
    | index i => exact .array List.length_set.symm
  | null | bool | number | string => cases seg <;> exact .refl _

theorem isNull_of_step? {j child : Json} {seg : Seg} (h : j.step? seg = some child) :
    j.isNull = false := by
  cases j with
  | null => cases seg <;> exact nomatch h
  | bool | number | string | array | object => rfl

theorem isNull_putStep (j child : Json) (seg : Seg) : (j.putStep seg child).isNull = j.isNull := by
  cases j <;> cases seg <;> rfl

/-! ## Whole paths -/

theorem get?_append (j : Json) (p q : Path) :
    j.get? (p ++ q) = (j.get? p).bind fun node => node.get? q := by
  induction p generalizing j with
  | nil => rfl
  | cons seg p ih =>
    simp only [List.cons_append, get?, Option.bind_assoc]
    exact congrArg _ (funext ih)

/-- What leads to a node that is not `null` is not `null`. -/
theorem isNull_of_get? {j node : Json} {path : Path} (h : j.get? path = some node)
    (hnull : node.isNull = false) : j.isNull = false := by
  cases path with
  | nil =>
    obtain rfl := Option.some.inj h
    exact hnull
  | cons seg path =>
    obtain ⟨child, hchild, -⟩ := Option.bind_eq_some_iff.1 h
    exact isNull_of_step? hchild

/-- What a change of the node at a path is made of. -/
theorem modify?_cons_eq_some {f : Json → Option Json} {j j' : Json} {seg : Seg} {path : Path} :
    j.modify? f (seg :: path) = some j' ↔
      ∃ child child', j.step? seg = some child ∧ child.modify? f path = some child'
        ∧ j' = j.putStep seg child' := by
  simp only [modify?, Option.bind_eq_bind, Option.bind_eq_some_iff, Option.some.injEq]
  constructor
  · rintro ⟨child, hstep, child', hchild, rfl⟩
    exact ⟨child, child', hstep, hchild, rfl⟩
  · rintro ⟨child, child', hstep, hchild, rfl⟩
    exact ⟨child, hstep, child', hchild, rfl⟩

/-- The node at the path is there, and what `f` makes of it takes its place. -/
theorem modify?_eq_some {f : Json → Option Json} {j j' : Json} {path : Path}
    (h : j.modify? f path = some j') :
    ∃ node node', j.get? path = some node ∧ f node = some node'
      ∧ ∀ rest, j'.get? (path ++ rest) = node'.get? rest := by
  induction path generalizing j j' with
  | nil => exact ⟨j, j', rfl, h, fun rest => rfl⟩
  | cons seg path ih =>
    obtain ⟨child, child', hstep, hchild, rfl⟩ := modify?_cons_eq_some.1 h
    obtain ⟨node, node', hnode, hf, hrest⟩ := ih hchild
    refine ⟨node, node', ?_, hf, fun rest => ?_⟩
    · rw [get?, hstep]
      exact hnode
    · rw [List.cons_append, get?, step?_putStep_self child' hstep]
      exact hrest rest

/-- What is neither above nor below the place of a change stays as it is. -/
theorem get?_modify?_of_beside {f : Json → Option Json} {j j' : Json} {path other : Path}
    (h : j.modify? f path = some j') (hbelow : ¬path <+: other) (habove : ¬other <+: path) :
    j'.get? other = j.get? other := by
  induction path generalizing j j' other with
  | nil => exact absurd List.nil_prefix hbelow
  | cons seg path ih =>
    obtain ⟨child, child', hstep, hchild, rfl⟩ := modify?_cons_eq_some.1 h
    cases other with
    | nil => exact absurd List.nil_prefix habove
    | cons seg' other =>
      -- The paths go on together or part at this step.
      by_cases hseg : seg' = seg
      · subst hseg
        rw [List.cons_prefix_cons] at hbelow habove
        have hother := ih hchild (fun h => hbelow ⟨rfl, h⟩) fun h => habove ⟨rfl, h⟩
        rw [get?, get?, step?_putStep_self child' hstep, hstep]
        exact hother
      · rw [get?, get?, step?_putStep_of_ne j child' hseg]

/-- The containers that lead to the place of a change keep their kinds and their lengths. -/
theorem sameTop_modify?_of_above {f : Json → Option Json} {j j' : Json} {path other : Path}
    (h : j.modify? f path = some j') (habove : other <+: path) (hne : other ≠ path) :
    ∃ node node', j.get? other = some node ∧ j'.get? other = some node'
      ∧ SameTop node node' := by
  induction path generalizing j j' other with
  | nil => exact absurd (List.prefix_nil.1 habove) hne
  | cons seg path ih =>
    obtain ⟨child, child', hstep, hchild, rfl⟩ := modify?_cons_eq_some.1 h
    cases other with
    | nil => exact ⟨j, j.putStep seg child', rfl, rfl, sameTop_putStep j child' seg⟩
    | cons seg' other =>
      obtain ⟨rfl, hother⟩ := List.cons_prefix_cons.1 habove
      obtain ⟨node, node', hnode, hnode', hsame⟩ :=
        ih hchild hother fun heq => hne (by rw [heq])
      refine ⟨node, node', ?_, ?_, hsame⟩
      · rw [get?, hstep]
        exact hnode
      · rw [get?, step?_putStep_self child' hstep]
        exact hnode'

end Json

end BoundView
