import BoundView.Proofs.Model.SingleEdit

/-!
# Edits that do not meet

Two edits of one document do not meet if neither is made at or above the place of the other nor
moves it.  Main statement: whichever of them is made first, the document is the same in the end.
Only members that both edits add to one object come in another order.
-/

namespace BoundView

namespace Members

variable {α : Type} {name other : String} {value value' : α} {ms : Members α}

/-- Members that are there keep their places, so the order of writing does not show. -/
theorem set_comm_of_mem (hne : name ≠ other) (hmem : name ∈ ms.map Prod.fst) :
    set other value' (set name value ms) = set name value (set other value' ms) := by
  induction ms with
  | nil => exact absurd hmem List.not_mem_nil
  | cons pair rest ih =>
    by_cases hname : pair.1 = name
    · have hother : pair.1 ≠ other := fun heq => hne (hname.symm.trans heq)
      simp only [set, if_pos hname, if_neg hother]
    · have hrest : name ∈ rest.map Prod.fst := (List.mem_cons.1 hmem).resolve_left (Ne.symm hname)
      by_cases hother : pair.1 = other
      · simp only [set, if_neg hname, if_pos hother]
      · simp only [set, if_neg hname, if_neg hother, ih hrest]

theorem set_set (name : String) (value value' : α) (ms : Members α) :
    set name value' (set name value ms) = set name value' ms := by
  induction ms with
  | nil => simp only [set, if_true]
  | cons pair rest ih =>
    by_cases hname : pair.1 = name
    · simp only [set, if_pos hname]
    · simp only [set, if_neg hname, ih]

theorem erase_set_of_mem (hne : name ≠ other) (hmem : name ∈ ms.map Prod.fst) :
    erase other (set name value ms) = set name value (erase other ms) := by
  induction ms with
  | nil => exact absurd hmem List.not_mem_nil
  | cons pair rest ih =>
    by_cases hname : pair.1 = name
    · have hother : pair.1 ≠ other := fun heq => hne (hname.symm.trans heq)
      simp only [set, erase, if_pos hname, if_neg hother]
    · have hrest : name ∈ rest.map Prod.fst := (List.mem_cons.1 hmem).resolve_left (Ne.symm hname)
      by_cases hother : pair.1 = other
      · simp only [set, erase, if_neg hname, if_pos hother]
      · simp only [set, erase, if_neg hname, if_neg hother, ih hrest]

end Members

namespace Json

/-- In front of the place where an element is put in, elements may be replaced before or after. -/
theorem insertIdx_set_of_lt {xs : List Json} {i k : Nat} (value value' : Json) (h : k < i) :
    (xs.set k value).insertIdx i value' = (xs.insertIdx i value').set k value := by
  apply List.ext_getElem?
  intro n
  grind

/-! ## Reordered documents -/

theorem Reordered.of_find?_eq {ms ns : List (String × Json)} (hms : (ms.map Prod.fst).Nodup)
    (hns : (ns.map Prod.fst).Nodup) (h : ∀ name, Members.find? name ms = Members.find? name ns) :
    Reordered (.object ms) (.object ns) := by
  refine .object hns ?_ fun name v w hv hw => ?_
  · refine (List.perm_ext_iff_of_nodup hms hns).2 fun name => ?_
    rw [← not_iff_not, ← Members.find?_eq_none_iff, ← Members.find?_eq_none_iff, h]
  · obtain rfl : v = w := Option.some.inj (hv.symm.trans ((h name).trans hw))
    exact .refl v

/-- Reordered values in one slot of a node. -/
theorem Reordered.putStep {j child child' : Json} {seg : Seg}
    (hnames : ∀ ms, j = .object ms → (ms.map Prod.fst).Nodup) (h : Reordered child child') :
    Reordered (j.putStep seg child) (j.putStep seg child') := by
  cases j with
  | null | bool | number | string => cases seg <;> exact .refl _
  | array xs =>
    cases seg with
    | field name => exact .refl _
    | index i =>
      refine .array (by rw [List.length_set, List.length_set]) fun k x y hx hy => ?_
      by_cases hk : i = k
      · subst hk
        have hi : i < xs.length := by
          have hlt := (List.getElem?_eq_some_iff.1 hx).1
          rwa [List.length_set] at hlt
        rw [List.getElem?_set_self hi] at hx hy
        obtain rfl := Option.some.inj hx
        obtain rfl := Option.some.inj hy
        exact h
      · rw [List.getElem?_set_ne hk] at hx hy
        obtain rfl := Option.some.inj (hx.symm.trans hy)
        exact .refl x
  | object ms =>
    cases seg with
    | index i => exact .refl _
    | field name =>
      have hnodup := hnames ms rfl
      have hsame : ∀ value, ((Members.set name value ms).map Prod.fst)
          = if name ∈ ms.map Prod.fst then ms.map Prod.fst else ms.map Prod.fst ++ [name] :=
        Members.keys_set
      refine .object (Members.nodup_names_set hnodup) ?_ fun other v w hv hw => ?_
      · rw [hsame, hsame]
      · by_cases hother : other = name
        · subst hother
          rw [Members.find?_set_self] at hv hw
          obtain rfl := Option.some.inj hv
          obtain rfl := Option.some.inj hw
          exact h
        · rw [Members.find?_set_of_ne _ _ hother] at hv hw
          obtain rfl := Option.some.inj (hv.symm.trans hw)
          exact .refl v

/-! ## Two slots of a node -/

theorem mem_names_of_step? {ms : List (String × Json)} {name : String} {old : Json}
    (h : (Json.object ms).step? (.field name) = some old) : name ∈ ms.map Prod.fst :=
  Members.mem_names_of_find? h

theorem putStep_putStep (j child child' : Json) (seg : Seg) :
    (j.putStep seg child).putStep seg child' = j.putStep seg child' := by
  cases j with
  | null | bool | number | string => cases seg <;> rfl
  | array xs =>
    cases seg with
    | field => rfl
    | index i => exact congrArg Json.array (List.set_set ..)
  | object ms =>
    cases seg with
    | index => rfl
    | field name => exact congrArg Json.object (Members.set_set name child child' ms)

theorem putStep_comm {j old child child' : Json} {seg other : Seg} (hne : seg ≠ other)
    (hold : j.step? seg = some old) :
    (j.putStep seg child).putStep other child' = (j.putStep other child').putStep seg child := by
  cases j with
  | null | bool | number | string => cases seg <;> exact nomatch hold
  | array xs =>
    cases seg with
    | field name => exact nomatch hold
    | index i =>
      cases other with
      | field => rfl
      | index k =>
        have hik : i ≠ k := fun heq => hne (by rw [heq])
        exact congrArg Json.array (List.set_comm child child' hik)
  | object ms =>
    cases seg with
    | index i => exact nomatch hold
    | field name =>
      cases other with
      | index => rfl
      | field key =>
        have hkey : name ≠ key := fun heq => hne (by rw [heq])
        exact congrArg Json.object (Members.set_comm_of_mem hkey (mem_names_of_step? hold))

end Json

/-! ## Two edits of one container -/

open Json (Reordered)

namespace Edit

variable {e e' : Edit} {seg other : Seg} {j j' : Json}

/-- A slot beside an edit may be filled before or after the edit. -/
theorem apply_putStep {old child : Json} (h : e.apply seg j = some j')
    (hold : j.step? other = some old) (hne : other ≠ seg) (hkeeps : e.Keeps seg other) :
    e.apply seg (j.putStep other child) = some (j'.putStep other child) := by
  cases j with
  | null | bool | number | string => exact nomatch h
  | object ms =>
    cases seg with
    | index i => cases e <;> exact nomatch h
    | field name =>
      cases other with
      | index k => exact nomatch hold
      | field key =>
        have hkey : key ≠ name := fun heq => hne (by rw [heq])
        have hmem := Json.mem_names_of_step? hold
        cases e with
        | set value =>
          obtain rfl := Option.some.inj h
          exact congrArg (some ∘ Json.object) (Members.set_comm_of_mem hkey hmem)
        | unset =>
          obtain rfl := Option.some.inj h
          exact congrArg (some ∘ Json.object) (Members.erase_set_of_mem hkey hmem)
        | insert | delete => exact nomatch h
  | array xs =>
    cases seg with
    | field name => cases e <;> exact nomatch h
    | index i =>
      cases other with
      | field key => exact nomatch hold
      | index k =>
        cases e with
        | set value =>
          obtain rfl := Option.some.inj h
          have hki : k ≠ i := fun heq => hne (by rw [heq])
          exact congrArg (some ∘ Json.array) (List.set_comm child value hki)
        | insert value =>
          obtain rfl := Option.some.inj h
          have hlt := hkeeps rfl i k rfl rfl
          exact congrArg (some ∘ Json.array) (Json.insertIdx_set_of_lt child value hlt)
        | delete =>
          obtain rfl := Option.some.inj h
          have hlt := hkeeps rfl i k rfl rfl
          exact congrArg (some ∘ Json.array) (List.eraseIdx_set_gt hlt)
        | unset => exact nomatch h

/-- What an edit of an object makes of its member. -/
def member? : Edit → Option Json
  | .set value => some value
  | _ => none

theorem apply_object {ms : List (String × Json)} {name : String}
    (h : e.apply (.field name) (.object ms) = some j') (hnodup : (ms.map Prod.fst).Nodup) :
    ∃ ms', j' = .object ms' ∧ (ms'.map Prod.fst).Nodup ∧ Members.find? name ms' = e.member?
      ∧ ∀ other, other ≠ name → Members.find? other ms' = Members.find? other ms := by
  cases e with
  | set value =>
    obtain rfl := Option.some.inj h
    exact ⟨_, rfl, Members.nodup_names_set hnodup, Members.find?_set_self name value ms,
      fun other hne => Members.find?_set_of_ne value ms hne⟩
  | unset =>
    obtain rfl := Option.some.inj h
    exact ⟨_, rfl, hnodup.sublist ((Members.erase_sublist name ms).map Prod.fst),
      Members.find?_erase_self hnodup, fun other hne => Members.find?_erase_of_ne ms hne⟩
  | insert | delete => exact nomatch h

/-- An element in front of all that an edit moves may be replaced before or after the edit. -/
theorem apply_array_set {xs : List Json} {i k : Nat} {value j₁ j₁₂ j₂₁ : Json} (hne : i ≠ k)
    (hkeeps : e.Keeps (.index i) (.index k)) (h₁ : e.apply (.index i) (.array xs) = some j₁)
    (h₁₂ : (Edit.set value).apply (.index k) j₁ = some j₁₂)
    (h₂₁ : e.apply (.index i) (.array (xs.set k value)) = some j₂₁) : j₁₂ = j₂₁ := by
  cases e with
  | set value' =>
    obtain rfl := Option.some.inj h₁
    obtain rfl := Option.some.inj h₁₂
    obtain rfl := Option.some.inj h₂₁
    exact congrArg Json.array (List.set_comm value' value hne)
  | insert value' =>
    obtain rfl := Option.some.inj h₁
    obtain rfl := Option.some.inj h₁₂
    obtain rfl := Option.some.inj h₂₁
    have hlt : k < i := hkeeps rfl i k rfl rfl
    exact congrArg Json.array (Json.insertIdx_set_of_lt value value' hlt).symm
  | delete =>
    obtain rfl := Option.some.inj h₁
    obtain rfl := Option.some.inj h₁₂
    obtain rfl := Option.some.inj h₂₁
    have hlt : k < i := hkeeps rfl i k rfl rfl
    exact congrArg Json.array (List.eraseIdx_set_gt hlt).symm
  | unset => exact nomatch h₁

/-- Of two edits of one array that move nothing of one another's, one replaces an element in front
of all that the other moves. -/
theorem apply_array {xs : List Json} {i k : Nat} {j₁ j₂ j₁₂ j₂₁ : Json} (hne : i ≠ k)
    (hkeeps : e.Keeps (.index i) (.index k)) (hkeeps' : e'.Keeps (.index k) (.index i))
    (h₁ : e.apply (.index i) (.array xs) = some j₁) (h₂ : e'.apply (.index k) (.array xs) = some j₂)
    (h₁₂ : e'.apply (.index k) j₁ = some j₁₂) (h₂₁ : e.apply (.index i) j₂ = some j₂₁) :
    j₁₂ = j₂₁ := by
  have hsome : e'.shifts = false ∨ e.shifts = false := by
    by_contra hboth
    rw [not_or, Bool.not_eq_false, Bool.not_eq_false] at hboth
    have hki : k < i := hkeeps hboth.2 i k rfl rfl
    have hik : i < k := hkeeps' hboth.1 k i rfl rfl
    omega
  rcases hsome with hset | hset
  · cases e' with
    | set value =>
      obtain rfl := Option.some.inj h₂
      exact apply_array_set hne hkeeps h₁ h₁₂ h₂₁
    | unset => exact nomatch h₂
    | insert | delete => exact nomatch hset
  · cases e with
    | set value =>
      obtain rfl := Option.some.inj h₁
      exact (apply_array_set (Ne.symm hne) hkeeps' h₂ h₂₁ h₁₂).symm
    | unset => exact nomatch h₁
    | insert | delete => exact nomatch hset

/-- Two edits of one container at different steps. -/
theorem reordered_of_apply {j₁ j₂ j₁₂ j₂₁ : Json} (hne : seg ≠ other)
    (hnames : ∀ ms, j = .object ms → (ms.map Prod.fst).Nodup)
    (hkeeps : e.Keeps seg other) (hkeeps' : e'.Keeps other seg)
    (h₁ : e.apply seg j = some j₁) (h₂ : e'.apply other j = some j₂)
    (h₁₂ : e'.apply other j₁ = some j₁₂) (h₂₁ : e.apply seg j₂ = some j₂₁) :
    Reordered j₁₂ j₂₁ := by
  cases j with
  | null | bool | number | string => exact nomatch h₁
  | array xs =>
    cases seg with
    | field => cases e <;> exact nomatch h₁
    | index i =>
      cases other with
      | field => cases e' <;> exact nomatch h₂
      | index k =>
        have hik : i ≠ k := fun heq => hne (by rw [heq])
        exact apply_array hik hkeeps hkeeps' h₁ h₂ h₁₂ h₂₁ ▸ .refl _
  | object ms =>
    cases seg with
    | index => cases e <;> exact nomatch h₁
    | field name =>
      cases other with
      | index => cases e' <;> exact nomatch h₂
      | field key =>
        have hkey : name ≠ key := fun heq => hne (by rw [heq])
        obtain ⟨ms₁, rfl, hnodup₁, hname₁, hothers₁⟩ := apply_object h₁ (hnames ms rfl)
        obtain ⟨ms₂, rfl, hnodup₂, hkey₂, hothers₂⟩ := apply_object h₂ (hnames ms rfl)
        obtain ⟨ms₁₂, rfl, hnodup₁₂, hkey₁₂, hothers₁₂⟩ := apply_object h₁₂ hnodup₁
        obtain ⟨ms₂₁, rfl, hnodup₂₁, hname₂₁, hothers₂₁⟩ := apply_object h₂₁ hnodup₂
        refine .of_find?_eq hnodup₁₂ hnodup₂₁ fun n => ?_
        -- Each of the two members is made by its own edit, and the others are the former ones.
        by_cases hn : n = name
        · rw [hn, hothers₁₂ name hkey, hname₁, hname₂₁]
        by_cases hn' : n = key
        · rw [hn', hkey₁₂, hothers₂₁ key (Ne.symm hkey), hkey₂]
        · rw [hothers₁₂ n hn', hothers₁ n hn, hothers₂₁ n hn, hothers₂ n hn']

end Edit

/-! ## Two edits of one document -/

/-- Whether no object on the way along a path has two members of one name. -/
def Json.DistinctAlong (j : Json) (path : Path) : Prop :=
  ∀ place ms, place <+: path → j.get? place = some (.object ms) → (ms.map Prod.fst).Nodup

namespace Json.DistinctAlong

variable {j child : Json} {seg : Seg} {path : Path}

theorem here (h : j.DistinctAlong path) (ms : List (String × Json)) (heq : j = .object ms) :
    (ms.map Prod.fst).Nodup :=
  h [] ms List.nil_prefix (congrArg some heq)

theorem tail (h : j.DistinctAlong (seg :: path)) (hchild : j.step? seg = some child) :
    child.DistinctAlong path := by
  intro place ms hplace hget
  refine h (seg :: place) ms (List.cons_prefix_cons.2 ⟨rfl, hplace⟩) ?_
  rw [Json.get?, hchild]
  exact hget

end Json.DistinctAlong

namespace Plan

/-- Make the edit of a plan. -/
def makes? (p : Plan) (j : Json) : Option Json :=
  j.modify? (p.edit.apply p.seg) p.container

/-- Whether a plan is made neither at nor above a path, and leaves the elements that lead there
where they are. -/
def Spares (p : Plan) (path : Path) : Prop :=
  ¬p.path <+: path ∧ ∀ other rest, path = p.container ++ other :: rest → p.edit.Keeps p.seg other

theorem Spares.tail {seg other : Seg} {e : Edit} {container path : Path}
    (h : Spares ⟨other :: container, seg, e⟩ (other :: path)) :
    Spares ⟨container, seg, e⟩ path := by
  refine ⟨fun hpath => h.1 (List.cons_prefix_cons.2 ⟨rfl, hpath⟩), fun next rest heq => ?_⟩
  exact h.2 next rest (by rw [heq, List.cons_append])

theorem Spares.head {seg other : Seg} {e : Edit} {path : Path}
    (h : Spares ⟨[], seg, e⟩ (other :: path)) : other ≠ seg ∧ e.Keeps seg other := by
  refine ⟨?_, h.2 other path rfl⟩
  rintro rfl
  exact h.1 (List.cons_prefix_cons.2 ⟨rfl, List.nil_prefix⟩)

/-- An edit of a container and an edit further down. -/
theorem eq_of_apply_of_modify? {e : Edit} {seg other : Seg} {f : Json → Option Json} {path : Path}
    {j j₁ j₂ j₁₂ j₂₁ : Json} (hne : other ≠ seg) (hkeeps : e.Keeps seg other)
    (h₁ : e.apply seg j = some j₁) (h₂ : j.modify? f (other :: path) = some j₂)
    (h₁₂ : j₁.modify? f (other :: path) = some j₁₂) (h₂₁ : e.apply seg j₂ = some j₂₁) :
    j₁₂ = j₂₁ := by
  obtain ⟨child, child', hstep, hchild, rfl⟩ := Json.modify?_cons_eq_some.1 h₂
  obtain ⟨again, again', hstep', hagain, rfl⟩ := Json.modify?_cons_eq_some.1 h₁₂
  -- The edit leaves the node further down as it is, so the same comes of it.
  rw [Edit.step?_eq h₁ hne hkeeps, hstep] at hstep'
  obtain rfl := Option.some.inj hstep'
  obtain rfl := Option.some.inj (hchild.symm.trans hagain)
  rw [Edit.apply_putStep h₁ hstep hne hkeeps] at h₂₁
  exact Option.some.inj h₂₁

/-- Two edits that spare one another's places come to the same document in either order. -/
theorem reordered_of_makes? {p q : Plan} {j j₁ j₂ j₁₂ j₂₁ : Json} (hp : p.Spares q.path)
    (hq : q.Spares p.path) (hnames : j.DistinctAlong p.container)
    (h₁ : p.makes? j = some j₁) (h₂ : q.makes? j = some j₂) (h₁₂ : q.makes? j₁ = some j₁₂)
    (h₂₁ : p.makes? j₂ = some j₂₁) : Reordered j₁₂ j₂₁ := by
  obtain ⟨path, seg, e⟩ := p
  obtain ⟨path', seg', e'⟩ := q
  -- The induction goes along the steps that both places share.
  induction path generalizing path' j j₁ j₂ j₁₂ j₂₁ with
  | nil =>
    cases path' with
    | nil =>
      have hseg := hp.head
      exact Edit.reordered_of_apply (Ne.symm hseg.1) hnames.here hseg.2 hq.head.2 h₁ h₂ h₁₂ h₂₁
    | cons other path' =>
      have hother := hp.head
      exact eq_of_apply_of_modify? hother.1 hother.2 h₁ h₂ h₁₂ h₂₁ ▸ .refl _
  | cons first path ih =>
    cases path' with
    | nil =>
      have hfirst := hq.head
      exact eq_of_apply_of_modify? hfirst.1 hfirst.2 h₂ h₁ h₂₁ h₁₂ ▸ .refl _
    | cons other path' =>
      obtain ⟨child, child₁, hchild, hmade₁, rfl⟩ := Json.modify?_cons_eq_some.1 h₁
      obtain ⟨child', child₂, hchild', hmade₂, rfl⟩ := Json.modify?_cons_eq_some.1 h₂
      obtain ⟨kid, child₁₂, hkid, hmade₁₂, rfl⟩ := Json.modify?_cons_eq_some.1 h₁₂
      obtain ⟨kid', child₂₁, hkid', hmade₂₁, rfl⟩ := Json.modify?_cons_eq_some.1 h₂₁
      by_cases hsame : first = other
      · subst hsame
        obtain rfl := Option.some.inj (hchild.symm.trans hchild')
        rw [Json.step?_putStep_self child₁ hchild] at hkid
        obtain rfl := Option.some.inj hkid
        rw [Json.step?_putStep_self child₂ hchild] at hkid'
        obtain rfl := Option.some.inj hkid'
        rw [Json.putStep_putStep, Json.putStep_putStep]
        have hbelow := ih (hnames.tail hchild) hmade₁ hmade₂₁ path' hmade₂ hmade₁₂ hp.tail hq.tail
        exact .putStep hnames.here hbelow
      · rw [Json.step?_putStep_of_ne j child₁ (Ne.symm hsame), hchild'] at hkid
        obtain rfl := Option.some.inj hkid
        rw [Json.step?_putStep_of_ne j child₂ hsame, hchild] at hkid'
        obtain rfl := Option.some.inj hkid'
        obtain rfl := Option.some.inj (hmade₂.symm.trans hmade₁₂)
        obtain rfl := Option.some.inj (hmade₁.symm.trans hmade₂₁)
        exact Json.putStep_comm hsame hchild ▸ .refl _

end Plan

end BoundView
