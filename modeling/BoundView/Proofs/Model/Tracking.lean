import BoundView.Proofs.Expr.Agreement
import BoundView.Proofs.Model.Affected
import BoundView.Proofs.Model.Reachable
import BoundView.Proofs.Reactive.Subscriptions

/-!
# What an evaluation depends on

What an expression gives hangs on the nodes that its evaluation recorded, and on one thing more:
whether a reference that is indexed by a number leads to an array.  Main statement: the outcomes of
all expressions outlive every accepted patch that affects none of their dependencies just if the
references that they see lead to arrays before the patch as after it.
-/

namespace BoundView

open Json (SameTop)
open Outcome (Alike)
open Value (Related RelatedItems RelatedMembers)

/-! ## References inside values -/

namespace Value

mutual

/-- All references inside a value are of a kind. -/
def RefersOnlyTo (held : ModelRef → Prop) : Value → Prop
  | .model r => held r
  | .list items => RefersOnlyToItems held items
  | .map ms => RefersOnlyToMembers held ms
  | _ => True

def RefersOnlyToItems (held : ModelRef → Prop) : List Value → Prop
  | [] => True
  | item :: rest => RefersOnlyTo held item ∧ RefersOnlyToItems held rest

def RefersOnlyToMembers (held : ModelRef → Prop) : List (String × Value) → Prop
  | [] => True
  | (_, value) :: rest => RefersOnlyTo held value ∧ RefersOnlyToMembers held rest

end

variable {held held' : ModelRef → Prop}

mutual

theorem RefersOnlyTo.related (himp : ∀ q, held q → held' q) :
    ∀ {v : Value}, v.RefersOnlyTo held → Related Eq True held' v v
  | .undefined, _ => .undefined
  | .null, _ => .null
  | .bool b, _ => .bool b
  | .number _, _ => .number rfl
  | .string s, _ => .string s
  | .list _, h => .list (RefersOnlyToItems.related himp h)
  | .map _, h => .map trivial (RefersOnlyToMembers.related himp h)
  | .model r, h => .model (himp r h)

theorem RefersOnlyToItems.related (himp : ∀ q, held q → held' q) :
    ∀ {vs : List Value}, RefersOnlyToItems held vs → RelatedItems Eq True held' vs vs
  | [], _ => .nil
  | _ :: _, h => .cons (RefersOnlyTo.related himp h.1) (RefersOnlyToItems.related himp h.2)

theorem RefersOnlyToMembers.related (himp : ∀ q, held q → held' q) :
    ∀ {ms : List (String × Value)}, RefersOnlyToMembers held ms → RelatedMembers Eq True held' ms ms
  | [], _ => .nil
  | (name, _) :: _, h =>
    .cons name (RefersOnlyTo.related himp h.1) (RefersOnlyToMembers.related himp h.2)

end

mutual

theorem Related.eq : ∀ {v w : Value}, Related Eq True held v w → v = w
  | _, _, .undefined | _, _, .null | _, _, .bool _ | _, _, .string _ | _, _, .model _ => rfl
  | _, _, .number h => congrArg _ h
  | _, _, .list h => congrArg _ (RelatedItems.eq h)
  | _, _, .map _ h => congrArg _ (RelatedMembers.eq h)

theorem RelatedItems.eq : ∀ {vs ws : List Value}, RelatedItems Eq True held vs ws → vs = ws
  | _, _, .nil => rfl
  | _, _, .cons h hs => by rw [Related.eq h, RelatedItems.eq hs]

theorem RelatedMembers.eq :
    ∀ {ms ns : List (String × Value)}, RelatedMembers Eq True held ms ns → ms = ns
  | _, _, .nil => rfl
  | _, _, .cons name h hs => by rw [Related.eq h, RelatedMembers.eq hs]

end

end Value

/-- All references that an expression sees are of a kind. -/
def Context.RefersOnlyTo (held : ModelRef → Prop) (ctx : Context) : Prop :=
  ∀ name v, Members.find? name ctx = some v → v.RefersOnlyTo held

theorem Context.RefersOnlyTo.related {held held' : ModelRef → Prop} {ctx : Context}
    (h : ctx.RefersOnlyTo held) (himp : ∀ q, held q → held' q) : ctx.Related Eq True held' ctx := by
  intro name
  cases hv : Members.find? name ctx with
  | none => exact .none
  | some v => exact .some ((h name v hv).related himp)

/-! ## Models before and after a patch -/

namespace ModelRef

variable {r q : ModelRef} {models models' : Models} {patch : Patch} {c : Change}

theorem objectType?_of_apply (h : r.apply models patch = .ok (c, models')) :
    q.objectType? models' = q.objectType? models := by
  by_cases hmodel : q.model = c.model
  · obtain ⟨m, data, hm, haccepts, rfl⟩ := apply_eq_ok h
    have hr : q.model = r.model := hmodel.trans haccepts.model_eq
    have hbefore : q.model? models = some m := by
      rw [model?, hr]
      exact hm
    have hafter : q.model? (IdMap.insert r.model { m with data } models)
        = some { m with data } := by
      rw [model?, hr, IdMap.find?_insert_self]
    rw [objectType?, objectType?, hbefore, hafter]
    rfl
  · rw [objectType?, objectType?, model?_of_apply_of_ne h hmodel]

/-- The root of a valid model is an object. -/
theorem isArray_root {id : Nat} (hmodels : ∀ m, IdMap.find? id models = some m → m.Valid) :
    (root id).isArray models = false := by
  unfold isArray node? model? root
  cases hm : IdMap.find? id models with
  | none => rfl
  | some m =>
    -- An object is no array.
    obtain ⟨ms, hdata⟩ := (hmodels m hm).exists_data_eq
    rw [Option.bind_some, Json.get?, hdata]

theorem isArray_of_sameTop (h : Option.Rel SameTop (q.node? models) (q.node? models')) :
    q.isArray models' = q.isArray models := by
  unfold isArray
  generalize q.node? models = before at h ⊢
  generalize q.node? models' = after at h ⊢
  cases h with
  | none => rfl
  | some h => cases h <;> rfl

theorem load_eq_model {v : ModelRef} (h : (q.load models).1 = .model v) : v = q := by
  unfold load Reading.peek at h
  dsimp only at h
  generalize q.node? models = node? at h
  cases node? with
  | none => exact nomatch h
  | some node =>
    cases node with
    | array | object => exact (Value.model.inj h).symm
    | null | bool | number | string => exact nomatch h

/-- Models before and after an accepted patch look the same to every reader that is not affected and
holds on to references that lead to arrays both times or neither time. -/
theorem twins_of_apply (h : r.apply models patch = .ok (c, models'))
    (hvalid : ∀ id m, IdMap.find? id models = some m → m.Valid) :
    Twins models models' (fun d => c.affects d = false)
      fun q => q.isArray models' = q.isArray models where
  sameTop q hq := sameTop_of_not_affects h hq
  node?_eq q hq := node?_eq_of_not_affects h hq
  computed?_eq q name := by rw [computed?, computed?, objectType?_of_apply h]
  isArray_eq q hq := hq
  held_root q _ := by
    have hvalid' : ∀ m, IdMap.find? q.model models' = some m → m.Valid :=
      fun m hm => (valid_of_apply h hvalid hm).1
    rw [isArray_root (hvalid q.model), isArray_root hvalid']
  held_loaded q v hq hload := by
    rw [load_eq_model hload]
    exact isArray_of_sameTop (sameTop_of_not_affects h hq)

end ModelRef

/-! ## Outcomes before and after a patch -/

namespace Live

theorem mem_dependencies_track {α : Type} {l : Live} {observer : ObserverId} {m : Reading α}
    {d : Dependency} :
    d ∈ (l.track observer m).2.2.observers.dependencies observer ↔ d ∈ (m l.models).2.reads :=
  Observers.mem_dependencies_settle

/-- Whether expressions over references of a kind have the same outcome after a patch, if the patch
affects nothing that they depend on: the same value, or a failure both times. -/
def KeepsOutcomes (l l' : Live) (c : Change) (held : ModelRef → Prop) : Prop :=
  ∀ (ctx : Context) (e : Expr) (observer : ObserverId), ctx.RefersOnlyTo held →
    (∀ d ∈ (l.track observer (e.value ctx).run).2.2.observers.dependencies observer,
      c.affects d = false) →
    Alike Eq ((e.value ctx).run l.models).1 ((e.value ctx).run l'.models).1

theorem run_lift_peek {α β : Type} (f : Models → α) (k : α → Reading.Fallible β) (models : Models) :
    (Reading.lift (.peek f) >>= k).run models = (k (f models)).run models := rfl

/-- The element of `x` at a position. -/
def elementOf (x : Float) : Expr :=
  .index (.name "x") (.literal (.number x))

/-- Whether a reference leads to an array is seen by an expression and not recorded. -/
theorem run_elementOf (q : ModelRef) (x : Float) (models : Models) :
    ((elementOf x).value [("x", .model q)]).run models
      = if q.isArray models then
          match Value.position? x with
          | some i => (Except.ok <$> q.readChild (.index i)) models
          | none => (.ok .undefined, .empty)
        else (.error (.notIndexable .model .number), .empty) := by
  have hindex : ((elementOf x).value [("x", .model q)]).run models
      = (Value.index ModelRef.member (.model q) (.number x)).run models := by
    unfold elementOf Expr.value
    rw [Expr.eval, Expr.eval, Expr.eval, Members.find?, if_pos rfl]
    rfl
  rw [hindex, Value.index, run_lift_peek]
  cases q.isArray models with
  | false => rfl
  | true =>
    simp only [if_true]
    cases Value.position? x <;> rfl

/-- The outcomes of all expressions outlive an accepted patch that affects nothing that they depend
on just if each reference that they see leads to an array before the patch and after it, or neither
time. -/
theorem keepsOutcomes_iff {l l' : Live} {r : ModelRef} {patch : Patch} {c : Change}
    (hl : l.Reachable) (h : l.apply r patch = .ok (c, l')) (held : ModelRef → Prop) :
    l.KeepsOutcomes l' c held ↔ ∀ q, held q → q.isArray l'.models = q.isArray l.models := by
  obtain ⟨happly, -⟩ := apply_eq_ok h
  constructor
  · intro hkeeps q hq
    -- A position that no array has tells an array from another node, and nothing is recorded.
    have hposition : Value.position? (0 / 0) = none := by decide +kernel
    have hrun : ∀ models, ((elementOf (0 / 0)).value [("x", .model q)]).run models
        = (if q.isArray models then .ok .undefined else .error (.notIndexable .model .number),
          .empty) := by
      intro models
      rw [run_elementOf, hposition]
      cases q.isArray models <;> rfl
    have halike := hkeeps [("x", .model q)] (elementOf (0 / 0)) 0 ?_ fun d hd => ?_
    · rw [hrun, hrun] at halike
      revert halike
      cases q.isArray l'.models <;> cases q.isArray l.models <;> intro halike
      · rfl
      · exact nomatch halike
      · exact nomatch halike
      · rfl
    · intro name v hv
      rw [Members.find?] at hv
      split at hv
      · obtain rfl := Option.some.inj hv
        exact hq
      · exact nomatch hv
    · rw [mem_dependencies_track, hrun] at hd
      exact absurd hd List.not_mem_nil
  · intro hheld ctx e observer hctx hreads
    have htwins := ModelRef.twins_of_apply happly fun id m hm => (Reachable.valid hl id m hm).2
    obtain ⟨halike, -⟩ := Expr.value_agree htwins congruence_eq (hctx.related hheld) e fun d hd =>
      hreads d (mem_dependencies_track.2 hd)
    generalize ((e.value ctx).run l.models).1 = outcome at halike ⊢
    generalize ((e.value ctx).run l'.models).1 = outcome' at halike ⊢
    cases halike with
    | error => exact .error _ _
    | ok hrelated => exact .ok hrelated.eq

/-- What is added behind two items changes nothing for those who know the list and its items. -/
theorem keepsOutcomes_append : (Todo.live ["a", "b"]).KeepsOutcomes (Todo.live ["a", "b", "c"])
    ⟨1, [.field "todos", .index 2], some ([.field "todos"], 2)⟩
    fun q => q = .root 1 ∨ q = ⟨1, [.field "todos"]⟩ ∨ q = ⟨1, [.field "todos", .index 1]⟩ := by
  have hreachable : (Todo.live ["a", "b"]).Reachable :=
    .single (.create Todo.compiled Todo.create_eq)
  refine (keepsOutcomes_iff hreachable Todo.live_apply_append _).2 fun q hq => ?_
  rcases hq with rfl | rfl | rfl <;> rfl

end Live

/-! ## A field of a kind that is not known -/

namespace Mystery

def spec : PropertySpec :=
  .object [("f", .ofKind (.unknown "mystery"))]

def schema : Schema where
  types := [⟨"#", .optional, .object ⟨[("f", 1)], []⟩⟩,
    ⟨"#/properties/f", .optional, .any "mystery"⟩]
  root := 0

/-- The first model, with this in its field. -/
def live (f : Json) : Live :=
  ⟨⟨1, [], []⟩, [(1, ⟨schema, 0, .object [("f", f)]⟩)]⟩

def before : Live :=
  live (.object [])

def after : Live :=
  live (.array [.number (.int 7)])

def change : Change :=
  ⟨1, [.field "f"], none⟩

/-- The field under the name `x`. -/
def context : Context :=
  [("x", .model ⟨1, [.field "f"]⟩)]

theorem reachable_before : before.Reachable := by
  have hcompiled : schema.Compiled := by
    refine ⟨spec, ?_, by cbv⟩
    simp [spec, PropertySpec.object, PropertySpec.ofKind, Members.ofList, Members.set,
      PropertySpec.Distinct, SpecKind.Distinct, PropertySpec.DistinctAll]
  have hcreate : Live.empty.create schema 0 (.object [("f", .object [])]) = .ok (1, before) := by
    cbv
  exact .single (.create hcompiled hcreate)

theorem apply_replace : before.apply (.root 1) ⟨.replace, "/f", some (.array [.number (.int 7)])⟩
    = .ok (change, after) := by
  cbv

/-- The first element of what is no array yet depends on nothing, so nobody hears of it when an
array takes its place. -/
theorem not_keepsOutcomes :
    before.Reachable
      ∧ before.apply (.root 1) ⟨.replace, "/f", some (.array [.number (.int 7)])⟩
        = .ok (change, after)
      ∧ (before.track 2 ((Live.elementOf 0).value context).run).2.2.observers.dependencies 2 = []
      ∧ (((Live.elementOf 0).value context).run before.models).1
        = .error (.notIndexable .model .number)
      ∧ (((Live.elementOf 0).value context).run after.models).1
        = .ok (.number (Binary64.ofInt 7))
      ∧ ¬before.KeepsOutcomes after change fun _ => True := by
  have hposition : Value.position? 0 = some 0 := by decide +kernel
  have hreads : (((Live.elementOf 0).value context).run before.models).2.reads = [] := by
    rw [context, Live.run_elementOf]
    rfl
  have hbefore : (((Live.elementOf 0).value context).run before.models).1
      = .error (.notIndexable .model .number) := by
    rw [context, Live.run_elementOf]
    rfl
  have hafter : (((Live.elementOf 0).value context).run after.models).1
      = .ok (.number (Binary64.ofInt 7)) := by
    rw [context, Live.run_elementOf, hposition]
    rfl
  have hnone : ∀ d,
      d ∉ (before.track 2 ((Live.elementOf 0).value context).run).2.2.observers.dependencies 2 := by
    intro d hd
    rw [Live.mem_dependencies_track, hreads] at hd
    exact absurd hd List.not_mem_nil
  refine ⟨reachable_before, apply_replace, List.eq_nil_iff_forall_not_mem.2 hnone, hbefore, hafter,
    fun hkeeps => ?_⟩
  have halike := hkeeps context (Live.elementOf 0) 2 (fun name v hv => ?_)
    fun d hd => absurd hd (hnone d)
  · rw [hbefore, hafter] at halike
    exact nomatch halike
  · rw [context, Members.find?] at hv
    split at hv
    · exact Option.some.inj hv ▸ trivial
    · exact nomatch hv

end Mystery

end BoundView
