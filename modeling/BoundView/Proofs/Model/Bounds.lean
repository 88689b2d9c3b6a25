import BoundView.Proofs.Model.Reachable
import BoundView.Proofs.Schema.Location

/-!
# Stored numbers and their bounds

A number is compared with its bounds as a binary64 number, and stored as it was given.  Main
statement: a stored number respects its finite bounds unless it is an integer beyond one of them
that is rounded to it, which takes a bound of at least `2 ^ 53` in magnitude.
-/

namespace BoundView

open Binary64 (toRat)

/-- Whether a number is on the right side of all finite bounds. -/
def Json.Number.Respects (n : Json.Number) (rules : List Rule) : Prop :=
  ∀ rule ∈ rules, Binary64.isFinite rule.bound = true → rule.Admits n.toRat

/-! ## Stored numbers -/

/-- What stands at a place of a conforming document conforms to the type of the place. -/
theorem Schema.Conforms.get? {s : Schema} {id target : TypeId} {j node : Json} {path : Path}
    (htype : s.typeAt id path = some target) (hnode : j.get? path = some node)
    (hnull : node.isNull = false) (h : j.isNull = false → s.Conforms id j) :
    s.Conforms target node := by
  induction path generalizing id j with
  | nil =>
    obtain rfl := Option.some.inj htype
    obtain rfl := Option.some.inj hnode
    exact h hnull
  | cons seg path ih =>
    obtain ⟨child, hchild, htype⟩ := Option.bind_eq_some_iff.1 htype
    obtain ⟨value, hvalue, hnode⟩ := Option.bind_eq_some_iff.1 hnode
    exact ih htype hnode fun hnull => (h (Json.isNull_of_step? hvalue)).step? hchild hvalue hnull

namespace Live

variable {l : Live} {rules : List Rule} {n : Json.Number}

/-- Whether a number stands in a slot of a number type with these rules. -/
def Stores (l : Live) (rules : List Rule) (n : Json.Number) : Prop :=
  ∃ (r : ModelRef) (m : Model) (type : TypeId), r.model? l.models = some m
    ∧ m.schema.typeAt m.type r.path = some type ∧ m.schema.kind type = .number rules
    ∧ m.data.get? r.path = some (.number n)

/-- Every number that is stored respects its bounds. -/
def KeepsBounds (l : Live) : Prop :=
  ∀ rules n, l.Stores rules n → n.Proper → n.Respects rules

/-- No rule rejects what is stored. -/
theorem Stores.rejects (h : l.Stores rules n) (hl : l.Reachable) :
    ∀ rule ∈ rules, rule.rejects n.toFloat = false := by
  obtain ⟨r, m, type, hm, htype, hkind, hnode⟩ := h
  have hvalid := (hl.valid r.model m hm).2
  have hconforms := Schema.Conforms.get? htype hnode rfl fun _ => hvalid.conforms
  cases hconforms with
  | any hany => exact nomatch hkind.symm.trans hany
  | number hnumber _ hrules =>
    obtain rfl := TypeKind.number.inj (hkind.symm.trans hnumber)
    exact hrules

/-- In every state that is reached the binary64 form of a stored number respects its bounds.  The
number itself does so unless it is rounded to a bound that it passes; where the bounds are of less
than 53 bits, this does not happen. -/
theorem Reachable.respects_iff (hl : l.Reachable) (h : l.Stores rules n) (hproper : n.Proper) :
    (∀ rule ∈ rules, Binary64.isFinite rule.bound = true → rule.Admits (toRat n.toFloat))
      ∧ (n.Respects rules ↔ ∀ rule ∈ rules, ¬rule.Overrun n)
      ∧ ((∀ rule ∈ rules, |toRat rule.bound| < 2 ^ 53) → n.Respects rules) := by
  have hrounded : ∀ rule ∈ rules, Binary64.isFinite rule.bound = true →
      rule.Admits (toRat n.toFloat) := fun rule hrule hbound =>
    Rule.admits_of_rejects hbound hproper.isFinite (h.rejects hl rule hrule)
  have hrespects : (∀ rule ∈ rules, ¬rule.Overrun n) → n.Respects rules :=
    fun hnone rule hrule hbound => by
      by_contra hnot
      exact hnone rule hrule (Rule.overrun_of_not_admits hproper hbound
        (hrounded rule hrule hbound) hnot)
  refine ⟨hrounded, ⟨fun hall rule hrule hoverrun => ?_, hrespects⟩, fun hsmall => hrespects ?_⟩
  · obtain ⟨hbound, hnot⟩ := hoverrun.not_admits
    exact hnot (hall rule hrule hbound)
  · exact fun rule hrule hoverrun => absurd (hsmall rule hrule)
      (not_lt.2 (hoverrun.two_pow_le hproper))

end Live

/-! ## A number on the edge -/

namespace Tally

def live (count : Int) : Live :=
  ⟨⟨1, [], []⟩, [(1, ⟨schema, 0, document count⟩)]⟩

theorem create_eq {count : Int} (h : (Rule.atMost limit).rejects (Binary64.ofInt count) = false) :
    Live.empty.create schema 0 (document count) = .ok (1, live count) := by
  unfold Live.create
  rw [instantiate_document h]
  rfl

theorem reachable_live {count : Int}
    (h : (Rule.atMost limit).rejects (Binary64.ofInt count) = false) : (live count).Reachable :=
  .single (.create compiled (create_eq h))

theorem stores_live (count : Int) : (live count).Stores [.atMost limit] (.int count) :=
  ⟨⟨1, [.field "count"]⟩, ⟨schema, 0, document count⟩, 1, rfl, rfl, rfl, rfl⟩

/-- A count that is rounded as well, but not beyond the bound. -/
theorem respects_rounded : (live (-(2 ^ 53 + 1))).Reachable
    ∧ (live (-(2 ^ 53 + 1))).Stores [.atMost limit] (.int (-(2 ^ 53 + 1)))
    ∧ (Json.Number.int (-(2 ^ 53 + 1))).Proper
    ∧ (Json.Number.int (-(2 ^ 53 + 1))).Respects [.atMost limit] := by
  have hreachable : (live (-(2 ^ 53 + 1))).Reachable := reachable_live (by decide +kernel)
  have hproper : (Json.Number.int (-(2 ^ 53 + 1))).Proper := ⟨by decide, by decide⟩
  have hnone : ∀ rule ∈ [Rule.atMost limit], ¬rule.Overrun (.int (-(2 ^ 53 + 1))) := by
    intro rule hrule hoverrun
    obtain rfl := List.mem_singleton.1 hrule
    obtain ⟨i, b, hi, -, hb, hlt⟩ := hoverrun
    obtain rfl := Json.Number.int.inj hi
    obtain rfl := Option.some.inj (integer?_limit.symm.trans hb)
    omega
  exact ⟨hreachable, stores_live _, hproper,
    (Live.Reachable.respects_iff hreachable (stores_live _) hproper).2.1.2 hnone⟩

/-- A count beyond the bound is stored, since it is rounded to the bound. -/
theorem not_keepsBounds : ¬∀ l : Live, l.Reachable → l.KeepsBounds := by
  intro h
  have hle := h (live (2 ^ 53 + 1)) (reachable_live (by decide +kernel)) _ _ (stores_live _)
    ⟨by decide, by decide⟩ (.atMost limit) List.mem_cons_self (by decide +kernel)
  rw [Rule.Admits, Binary64.toRat_of_integer? integer?_limit, Json.Number.toRat, Int.cast_le] at hle
  omega

end Tally

end BoundView
