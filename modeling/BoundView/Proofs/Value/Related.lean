import BoundView.Proofs.Members
import BoundView.Value.Basic

/-!
# Values that no expression tells apart

Two values are related when they are built alike and differ at most in their numbers, where a
relation says which numbers count as the same.  Equality is such a relation; another one takes the
two zeros for one number.
-/

namespace BoundView

/-- A relation of numbers that is kept by all that an expression does with numbers, and that no
expression and no document can tell from equality. -/
structure Congruence (same : Float → Float → Prop) : Prop where
  refl : ∀ x, same x x
  neg : ∀ {x x'}, same x x' → same (-x) (-x')
  add : ∀ {x x' y y'}, same x x' → same y y' → same (x + y) (x' + y')
  sub : ∀ {x x' y y'}, same x x' → same y y' → same (x - y) (x' - y')
  mul : ∀ {x x' y y'}, same x x' → same y y' → same (x * y) (x' * y')
  div : ∀ {x x' y y'}, same x x' → same y y' → (y == 0) = false → same (x / y) (x' / y')
  remainder : ∀ {x x' y y'}, same x x' → same y y' → (y == 0) = false →
    same (Binary64.remainder x y) (Binary64.remainder x' y')
  beq_eq : ∀ {x x' y y'}, same x x' → same y y' → (x == y) = (x' == y')
  lt_eq : ∀ {x x' y y'}, same x x' → same y y' → decide (x < y) = decide (x' < y')
  le_eq : ∀ {x x' y y'}, same x x' → same y y' → decide (x ≤ y) = decide (x' ≤ y')
  isNaN_eq : ∀ {x x'}, same x x' → Binary64.isNaN x = Binary64.isNaN x'
  integer?_eq : ∀ {x x'}, same x x' → Binary64.integer? x = Binary64.integer? x'
  ofFloat_eq : ∀ {x x'}, same x x' → Json.ofFloat x = Json.ofFloat x'

theorem congruence_eq : Congruence Eq := by
  constructor <;> intros <;> subst_vars <;> rfl

namespace Value

variable (same : Float → Float → Prop) (maps : Prop) (held : ModelRef → Prop)

mutual

/-- The same but for numbers, with none but `held` references inside, and with records inside only
if `maps` holds. -/
inductive Related : Value → Value → Prop where
  | undefined : Related .undefined .undefined
  | null : Related .null .null
  | bool (b : Bool) : Related (.bool b) (.bool b)
  | number {x y : Float} (h : same x y) : Related (.number x) (.number y)
  | string (s : String) : Related (.string s) (.string s)
  | list {xs ys : List Value} (h : RelatedItems xs ys) : Related (.list xs) (.list ys)
  | map {ms ns : List (String × Value)} (hmaps : maps) (h : RelatedMembers ms ns) :
      Related (.map ms) (.map ns)
  | model {r : ModelRef} (h : held r) : Related (.model r) (.model r)

inductive RelatedItems : List Value → List Value → Prop where
  | nil : RelatedItems [] []
  | cons {v w : Value} {vs ws : List Value} (h : Related v w) (hs : RelatedItems vs ws) :
      RelatedItems (v :: vs) (w :: ws)

inductive RelatedMembers : List (String × Value) → List (String × Value) → Prop where
  | nil : RelatedMembers [] []
  | cons {v w : Value} {ms ns : List (String × Value)} (name : String) (h : Related v w)
      (hs : RelatedMembers ms ns) : RelatedMembers ((name, v) :: ms) ((name, w) :: ns)

end

variable {same maps held}

theorem RelatedItems.length_eq {vs ws : List Value} (h : RelatedItems same maps held vs ws) :
    vs.length = ws.length := by
  induction vs generalizing ws with
  | nil => cases h; rfl
  | cons v vs ih =>
    cases h with
    | cons _ hs => exact congrArg (· + 1) (ih hs)

theorem RelatedItems.getElem? {vs ws : List Value} (h : RelatedItems same maps held vs ws)
    (i : Nat) :
    Option.Rel (Related same maps held) vs[i]? ws[i]? := by
  induction vs generalizing ws i with
  | nil => cases h; exact .none
  | cons v vs ih =>
    cases h with
    | cons h hs =>
      cases i with
      | zero => exact .some h
      | succ i => exact ih hs i

theorem RelatedMembers.length_eq {ms ns : List (String × Value)}
    (h : RelatedMembers same maps held ms ns) : ms.length = ns.length := by
  induction ms generalizing ns with
  | nil => cases h; rfl
  | cons _ ms ih =>
    cases h with
    | cons _ _ hs => exact congrArg (· + 1) (ih hs)

theorem RelatedMembers.find? {ms ns : List (String × Value)}
    (h : RelatedMembers same maps held ms ns)
    (name : String) :
    Option.Rel (Related same maps held) (Members.find? name ms) (Members.find? name ns) := by
  induction ms generalizing ns with
  | nil => cases h; exact .none
  | cons _ ms ih =>
    cases h with
    | cons key h hs =>
      rw [Members.find?, Members.find?]
      split
      · exact .some h
      · exact ih hs

theorem Related.getD {v? w? : Option Value} (h : Option.Rel (Related same maps held) v? w?) :
    Related same maps held (v?.getD .undefined) (w?.getD .undefined) := by
  cases h with
  | none => exact .undefined
  | some h => exact h

theorem Related.isTruthy_eq (hsame : Congruence same) {v w : Value}
    (h : Related same maps held v w) :
    v.isTruthy = w.isTruthy := by
  cases h with
  | number h =>
    show (!(_ == _) && !_) = (!(_ == _) && !_)
    rw [hsame.beq_eq h (hsame.refl 0), hsame.isNaN_eq h]
  | undefined | null | bool | string | list | map | model => rfl

mutual

theorem Related.beq_eq (hsame : Congruence same) :
    ∀ {v v' w w' : Value}, Related same maps held v v' → Related same maps held w w' →
      beq v w = beq v' w' := by
  intro v v' w w' h h'
  cases h with
  | number h =>
    cases h' with
    | number h' =>
      rw [beq, beq]
      exact hsame.beq_eq h h'
    | undefined | null | bool | string | list | map | model => rfl
  | list h =>
    cases h' with
    | list h' =>
      rw [beq, beq]
      exact RelatedItems.beq_eq hsame h h'
    | undefined | null | bool | number | string | map | model => rfl
  | map _ h =>
    cases h' with
    | map _ h' =>
      rw [beq, beq, h.length_eq, h'.length_eq]
      exact congrArg _ (RelatedMembers.beq_eq hsame h h')
    | undefined | null | bool | number | string | list | model => rfl
  | undefined | null | bool | string | model => cases h' <;> rfl

theorem RelatedItems.beq_eq (hsame : Congruence same) :
    ∀ {vs vs' ws ws' : List Value}, RelatedItems same maps held vs vs' →
      RelatedItems same maps held ws ws' →
      beqItems vs ws = beqItems vs' ws' := by
  intro vs vs' ws ws' h h'
  cases h with
  | nil => cases h' <;> rfl
  | cons h hs =>
    cases h' with
    | nil => rfl
    | cons h' hs' =>
      rw [beqItems, beqItems, Related.beq_eq hsame h h', RelatedItems.beq_eq hsame hs hs']

theorem RelatedMembers.beq_eq (hsame : Congruence same) :
    ∀ {ms ms' ns ns' : List (String × Value)}, RelatedMembers same maps held ms ms' →
      RelatedMembers same maps held ns ns' → beqMembers ms ns = beqMembers ms' ns' := by
  intro ms ms' ns ns' h h'
  cases h with
  | nil => rfl
  | cons name h hs =>
    -- Equality looks each name up on the other side, whatever the order there.
    rw [beqMembers, beqMembers, RelatedMembers.beq_eq hsame hs h']
    have hfind := h'.find? name
    generalize Members.find? name ns = v? at hfind ⊢
    generalize Members.find? name ns' = w? at hfind ⊢
    cases hfind with
    | none => rfl
    | some hfind => exact congrArg (· && _) (Related.beq_eq hsame h hfind)

end

end Value

/-- Two scopes in which every name has related values. -/
def Context.Related (same : Float → Float → Prop) (maps : Prop) (held : ModelRef → Prop)
    (ctx ctx' : Context) : Prop :=
  ∀ name, Option.Rel (Value.Related same maps held) (Members.find? name ctx)
    (Members.find? name ctx')

namespace Context.Related

variable {same : Float → Float → Prop} {maps : Prop} {held : ModelRef → Prop}

theorem nil : Context.Related same maps held [] [] :=
  fun _ => .none

theorem cons (name : String) {v w : Value} {ctx ctx' : Context}
    (h : Value.Related same maps held v w)
    (hs : Context.Related same maps held ctx ctx') :
    Context.Related same maps held ((name, v) :: ctx) ((name, w) :: ctx') := by
  intro other
  rw [Members.find?, Members.find?]
  split
  · exact .some h
  · exact hs other

end Context.Related

end BoundView
