import BoundView.Proofs.Members
import BoundView.Proofs.Value.Exact
import BoundView.View.Interpreter

/-!
# Scopes of items

An item of a collection sees what the collection sees, its value and its position.  Main statement:
items at the same position see the same just if they have the same value and the collection sees
nothing that differs from itself.
-/

namespace BoundView

namespace Value

theorem beqMembers_iff {ms ns : Members Value} : beqMembers ms ns = true ↔
    ∀ pair ∈ ms, ∃ w, Members.find? pair.1 ns = some w ∧ (pair.2 == w) = true := by
  induction ms with
  | nil => exact iff_of_true (by rw [beqMembers]) fun _ h => absurd h List.not_mem_nil
  | cons pair rest ih =>
    rw [beqMembers, Bool.and_eq_true, ih, List.forall_mem_cons]
    refine and_congr_left fun _ => ?_
    cases Members.find? pair.1 ns with
    | none => exact iff_of_false Bool.false_ne_true fun ⟨_, h, _⟩ => nomatch h
    | some w =>
      refine ⟨fun h => ⟨w, rfl, h⟩, fun ⟨w', hw', h⟩ => ?_⟩
      obtain rfl := Option.some.inj hw'
      exact h

theorem beq_map_iff {ms ns : Members Value} : (Value.map ms == Value.map ns) = true ↔
    ms.length = ns.length
      ∧ ∀ pair ∈ ms, ∃ w, Members.find? pair.1 ns = some w ∧ (pair.2 == w) = true := by
  have hbeq : (Value.map ms == Value.map ns) = (ms.length == ns.length && beqMembers ms ns) := by
    show beq _ _ = _
    rw [beq]
  rw [hbeq, Bool.and_eq_true, beqMembers_iff, beq_iff_eq]

theorem beq_model_iff {v : Value} {r : ModelRef} : (v == .model r) = true ↔ v = .model r := by
  have hbeq : (v == .model r) = beq v (.model r) := rfl
  cases v <;> simp [hbeq, beq]

end Value

namespace Context

open Interpreter (itemContext)

/-- No name occurs twice, and whatever the items of a collection do not see anew equals itself. -/
structure Steady (ctx : Context) : Prop where
  nodup : (ctx.map Prod.fst).Nodup
  beq_self : ∀ pair ∈ ctx, pair.1 ≠ "$self" → pair.1 ≠ "$index" → (pair.2 == pair.2) = true

instance (ctx : Context) : Decidable ctx.Steady :=
  decidable_of_iff ((ctx.map Prod.fst).Nodup
    ∧ ∀ pair ∈ ctx, pair.1 ≠ "$self" → pair.1 ≠ "$index" → (pair.2 == pair.2) = true)
    ⟨fun h => ⟨h.1, h.2⟩, fun h => ⟨h.1, h.2⟩⟩

variable {ctx : Context} {v w : Value} {index : Nat}

theorem find?_itemContext_index :
    Members.find? "$index" (itemContext ctx v index) = some (.number (Binary64.ofNat index)) :=
  Members.find?_set_self _ _ _

theorem find?_itemContext_self : Members.find? "$self" (itemContext ctx v index) = some v := by
  rw [itemContext, Members.find?_set_of_ne _ _ (by decide)]
  exact Members.find?_set_self _ _ _

theorem find?_itemContext_of_ne {name : String} (hself : name ≠ "$self")
    (hindex : name ≠ "$index") :
    Members.find? name (itemContext ctx v index) = Members.find? name ctx := by
  rw [itemContext, Members.find?_set_of_ne _ _ hindex, Members.find?_set_of_ne _ _ hself]

/-- Items at the same position see the same just if they have the same value. -/
theorem Steady.beq_itemContext (h : ctx.Steady) :
    (Value.map (itemContext ctx v index) == Value.map (itemContext ctx w index)) = true
      ↔ (v == w) = true := by
  rw [Value.beq_map_iff]
  constructor
  · rintro ⟨-, hall⟩
    obtain ⟨w', hw', hbeq⟩ := hall _ (Members.mem_of_find? find?_itemContext_self)
    obtain rfl := Option.some.inj (find?_itemContext_self.symm.trans hw')
    exact hbeq
  · intro hbeq
    have hnames : (itemContext ctx v index).map Prod.fst = (itemContext ctx w index).map Prod.fst :=
      Members.names_set (Members.names_set rfl)
    refine ⟨?_, fun pair hpair => ?_⟩
    · rw [← List.length_map (f := Prod.fst), hnames, List.length_map]
    have hnodup : ((itemContext ctx v index).map Prod.fst).Nodup :=
      Members.nodup_names_set (Members.nodup_names_set h.nodup)
    obtain ⟨name, x⟩ := pair
    have hfind : Members.find? name (itemContext ctx v index) = some x :=
      Members.find?_of_mem hnodup hpair
    by_cases hindex : name = "$index"
    · subst hindex
      obtain rfl := Option.some.inj (find?_itemContext_index.symm.trans hfind)
      exact ⟨_, find?_itemContext_index, Binary64.beq_self (Binary64.isNaN_nearest _ _ _)⟩
    by_cases hself : name = "$self"
    · subst hself
      obtain rfl := Option.some.inj (find?_itemContext_self.symm.trans hfind)
      exact ⟨w, find?_itemContext_self, hbeq⟩
    · rw [find?_itemContext_of_ne hself hindex] at hfind
      refine ⟨x, (find?_itemContext_of_ne hself hindex).trans hfind, ?_⟩
      exact h.beq_self (name, x) (Members.mem_of_find? hfind) hself hindex

/-- What differs from itself keeps all items from seeing the same. -/
theorem beq_itemContext_iff (h : (ctx.map Prod.fst).Nodup) :
    (Value.map (itemContext ctx v index) == Value.map (itemContext ctx w index)) = true
      ↔ (v == w) = true ∧ ctx.Steady := by
  constructor
  · intro hbeq
    have hsteady : ctx.Steady := by
      refine ⟨h, fun (name, x) hpair hself hindex => ?_⟩
      have hfind := Members.find?_of_mem h hpair
      have hscope : ∀ v, Members.find? name (itemContext ctx v index) = some x := fun v =>
        (find?_itemContext_of_ne hself hindex).trans hfind
      obtain ⟨y, hy, hxy⟩ := (Value.beq_map_iff.1 hbeq).2 _ (Members.mem_of_find? (hscope v))
      obtain rfl := Option.some.inj ((hscope w).symm.trans hy)
      exact hxy
    exact ⟨hsteady.beq_itemContext.1 hbeq, hsteady⟩
  · exact fun ⟨hbeq, hsteady⟩ => hsteady.beq_itemContext.2 hbeq

end Context

end BoundView
