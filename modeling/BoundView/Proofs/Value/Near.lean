import BoundView.Proofs.Expr.Agreement
import BoundView.Proofs.Value.Zeros

/-!
# Values that are as good as equal

Equality of values does not see the sign of a zero.  Two values are near when this is all that they
differ in and no record is inside them; a record is left out because equality does not see the order
of its members either.  No expression makes a record, and what it makes of near values is near.
-/

namespace BoundView

namespace Value

/-- The same but for the signs of zeros, with none but `held` references and no records inside. -/
abbrev Near (held : ModelRef → Prop) : Value → Value → Prop :=
  Related Zeros.Same False held

abbrev NearItems (held : ModelRef → Prop) : List Value → List Value → Prop :=
  RelatedItems Zeros.Same False held

/-- A value without records inside. -/
abbrev Plain (v : Value) : Prop :=
  Near (fun _ => True) v v

variable {held held' : ModelRef → Prop}

mutual

theorem Near.mono (himp : ∀ q, held q → held' q) : ∀ {v w : Value}, Near held v w → Near held' v w
  | _, _, .undefined => .undefined
  | _, _, .null => .null
  | _, _, .bool b => .bool b
  | _, _, .number h => .number h
  | _, _, .string s => .string s
  | _, _, .list h => .list (NearItems.mono himp h)
  | _, _, .model h => .model (himp _ h)

theorem NearItems.mono (himp : ∀ q, held q → held' q) :
    ∀ {vs ws : List Value}, NearItems held vs ws → NearItems held' vs ws
  | _, _, .nil => .nil
  | _, _, .cons h hs => .cons (Near.mono himp h) (NearItems.mono himp hs)

end

mutual

theorem Near.symm : ∀ {v w : Value}, Near held v w → Near held w v
  | _, _, .undefined => .undefined
  | _, _, .null => .null
  | _, _, .bool b => .bool b
  | _, _, .number h => .number h.symm
  | _, _, .string s => .string s
  | _, _, .list h => .list (NearItems.symm h)
  | _, _, .model h => .model h

theorem NearItems.symm : ∀ {vs ws : List Value}, NearItems held vs ws → NearItems held ws vs
  | _, _, .nil => .nil
  | _, _, .cons h hs => .cons (Near.symm h) (NearItems.symm hs)

end

mutual

/-- Near values hold on to the same references, so what is known of them on either side counts. -/
theorem Near.trans :
    ∀ {u v w : Value}, Near held u v → Near held' v w → Near (fun q => held q ∧ held' q) u w
  | _, _, _, .undefined, .undefined => .undefined
  | _, _, _, .null, .null => .null
  | _, _, _, .bool b, .bool _ => .bool b
  | _, _, _, .number h, .number h' => .number (h.trans h')
  | _, _, _, .string s, .string _ => .string s
  | _, _, _, .list h, .list h' => .list (NearItems.trans h h')
  | _, _, _, .model h, .model h' => .model ⟨h, h'⟩

theorem NearItems.trans : ∀ {us vs ws : List Value}, NearItems held us vs →
    NearItems held' vs ws → NearItems (fun q => held q ∧ held' q) us ws
  | _, _, _, .nil, .nil => .nil
  | _, _, _, .cons h hs, .cons h' hs' => .cons (Near.trans h h') (NearItems.trans hs hs')

end

mutual

/-- What equality takes for a value without records is near it. -/
theorem near_of_beq : ∀ {v w : Value}, v.Plain → beq v w = true → Near (fun _ => True) v w := by
  intro v w hv h
  cases hv with
  | undefined =>
    cases w with
    | undefined => exact .undefined
    | null | bool | number | string | list | map | model => exact nomatch h
  | null =>
    cases w with
    | null => exact .null
    | undefined | bool | number | string | list | map | model => exact nomatch h
  | bool b =>
    cases w with
    | bool b' => exact eq_of_beq h ▸ .bool b
    | undefined | null | number | string | list | map | model => exact nomatch h
  | number =>
    cases w with
    | number x => exact .number (Zeros.same_of_beq h)
    | undefined | null | bool | string | list | map | model => exact nomatch h
  | string s =>
    cases w with
    | string s' => exact eq_of_beq h ▸ .string s
    | undefined | null | bool | number | list | map | model => exact nomatch h
  | list hvs =>
    cases w with
    | list ws =>
      rw [beq] at h
      exact .list (nearItems_of_beq hvs h)
    | undefined | null | bool | number | string | map | model => exact nomatch h
  | @model q =>
    cases w with
    | model r => exact eq_of_beq (show (q == r) = true from h) ▸ .model trivial
    | undefined | null | bool | number | string | list | map => exact nomatch h
  | map hmaps => exact hmaps.elim

theorem nearItems_of_beq : ∀ {vs ws : List Value}, NearItems (fun _ => True) vs vs →
    beqItems vs ws = true → NearItems (fun _ => True) vs ws := by
  intro vs ws hvs h
  cases hvs with
  | nil =>
    cases ws with
    | nil => exact .nil
    | cons => exact nomatch h
  | cons hv hvs =>
    cases ws with
    | nil => exact nomatch h
    | cons w ws =>
      rw [beqItems, Bool.and_eq_true] at h
      exact .cons (near_of_beq hv h.1) (nearItems_of_beq hvs h.2)

end

/-- What is near a value that holds on to some references holds on to them as well. -/
theorem Near.self {v w : Value} (h : Near held v w) (hw : Near held' w w) : Near held' v v :=
  ((h.trans hw).trans (hw.trans h.symm)).mono fun _ hq => hq.1.2

theorem Near.plain {v w : Value} (h : Near held v w) : v.Plain :=
  (h.trans h.symm).mono fun _ _ => trivial

end Value

/-! ## Scopes -/

namespace Context

/-- Scopes with near values under the same names. -/
abbrev Near (held : ModelRef → Prop) : Context → Context → Prop :=
  Context.Related Zeros.Same False held

variable {held held' : ModelRef → Prop} {ctx ctx' ctx'' : Context}

theorem Near.mono (h : ctx.Near held ctx') (himp : ∀ q, held q → held' q) :
    ctx.Near held' ctx' := by
  intro name
  have h := h name
  generalize Members.find? name ctx = v? at h ⊢
  generalize Members.find? name ctx' = w? at h ⊢
  cases h with
  | none => exact .none
  | some h => exact .some (Value.Near.mono himp h)

theorem Near.symm (h : ctx.Near held ctx') : ctx'.Near held ctx := by
  intro name
  have h := h name
  generalize Members.find? name ctx = v? at h ⊢
  generalize Members.find? name ctx' = w? at h ⊢
  cases h with
  | none => exact .none
  | some h => exact .some (Value.Near.symm h)

theorem Near.trans (h : ctx.Near held ctx') (h' : ctx'.Near held' ctx'') :
    ctx.Near (fun q => held q ∧ held' q) ctx'' := by
  intro name
  have h := h name
  have h' := h' name
  generalize Members.find? name ctx = u? at h ⊢
  generalize Members.find? name ctx' = v? at h h'
  generalize Members.find? name ctx'' = w? at h' ⊢
  cases h with
  | none => cases h' with | none => exact .none
  | some h => cases h' with | some h' => exact .some (Value.Near.trans h h')

theorem Near.self (h : ctx.Near held ctx') (h' : ctx'.Near held' ctx') : ctx.Near held' ctx :=
  ((h.trans h').trans (h'.trans h.symm)).mono fun _ hq => hq.1.2

end Context

end BoundView
