import BoundView.Proofs.Schema.Faults
import BoundView.Proofs.Schema.Rules

/-!
# Where a value is wrong

A number breaks a bound if it is on the wrong side of it, and a check compares what the number is
rounded to.  Main statement: a check fails just if something is wrong with the value other than an
integer that is rounded to the bound that it breaks, and its error names such a thing.
-/

namespace BoundView

/-- Whether what is violated at a path is a bound, by an integer that is rounded to it. -/
def Json.Overruns (j : Json) (path : Path) (violation : Violation) : Prop :=
  ∃ n rule, j.get? path = some (.number n) ∧ violation = .bound rule ∧ rule.Overrun n

namespace Schema

/-- Something wrong with a value: a number breaks a bound if it is on the wrong side of it. -/
abbrev Fault (s : Schema) : TypeId → Json → Path → Violation → Prop :=
  s.FaultBy fun n rule => rule.Breaks n.toRat

variable {s : Schema} {id : TypeId} {v : Json} {p : Path} {violation : Violation}

/-- A check finds just what is wrong, but for integers that are rounded to the bound they break. -/
theorem finding_iff (hproper : v.Proper) :
    s.Finding id v p violation ↔ s.Fault id v p violation ∧ ¬v.Overruns p violation := by
  constructor
  · intro h
    refine ⟨h.imp fun n rule hn _ hrejects => ?_, ?_⟩
    · exact ((Rule.rejects_toFloat_iff (hproper p n hn)).1 hrejects).1
    · rintro ⟨n, rule, hn, rfl, hoverrun⟩
      exact ((Rule.rejects_toFloat_iff (hproper p n hn)).1 (h.breaks_of_bound hn)).2 hoverrun
  · rintro ⟨h, hnot⟩
    refine h.imp fun n rule hn hviolation hbreaks => ?_
    exact (Rule.rejects_toFloat_iff (hproper p n hn)).2
      ⟨hbreaks, fun hoverrun => hnot ⟨n, rule, hn, hviolation, hoverrun⟩⟩

/-- The check of a value fails just if something is wrong with the value, and the error names one
such thing with the place of the value in front. -/
def LocatesFaults (s : Schema) (id : TypeId) (v : Json) (path : Path) : Prop :=
  ((∃ e, s.instantiate id v path = .error e) ↔ ∃ p violation, s.Fault id v p violation)
    ∧ ∀ e, s.instantiate id v path = .error e →
      ∃ p, s.Fault id v p e.violation ∧ e.pathText = Pointer.format (path ++ p)

/-- A check locates the faults of a value unless there are some, but only integers that are rounded
to the bounds they break: a check fails just if something else is wrong, and its error names such a
thing.  A slot that has a default never fails for being empty, and whether a value passes, and what
is stored for it, is the same wherever it stands. -/
theorem Compiled.locatesFaults_iff (h : s.Compiled) :
    (∀ id v path, v.Proper →
      (s.LocatesFaults id v path ↔ ((∃ p violation, s.Fault id v p violation) →
        ∃ p violation, s.Fault id v p violation ∧ ¬v.Overruns p violation))
      ∧ ((∃ e, s.instantiate id v path = .error e)
        ↔ ∃ p violation, s.Fault id v p violation ∧ ¬v.Overruns p violation)
      ∧ ∀ e, s.instantiate id v path = .error e →
        ∃ p, s.Fault id v p e.violation ∧ ¬v.Overruns p e.violation
          ∧ e.pathText = Pointer.format (path ++ p))
    ∧ (∀ id default value? path, s.presence id = .defaulted default →
      (∀ value, value? = some value → value.isNull = true) →
      ∃ stored, s.instantiateSlot id value? path = .ok stored)
    ∧ ∀ id v path path' out, s.instantiate id v path = .ok out →
      s.instantiate id v path' = .ok out := by
  have hs := h.wellFormed
  have hexpand : s.Expands (s.expandDefault s.size) := h.expandable
  refine ⟨fun id v path hproper => ?_, ?_, ?_⟩
  · have hnames : ∀ e, s.instantiate id v path = .error e →
        ∃ p, s.Fault id v p e.violation ∧ ¬v.Overruns p e.violation
          ∧ e.pathText = Pointer.format (path ++ p) := by
      intro e he
      obtain ⟨p, hfinding, hpath⟩ := check_blames hs hexpand v id path e he
      obtain ⟨hfault, hnot⟩ := (finding_iff hproper).1 hfinding
      exact ⟨p, hfault, hnot, congrArg Pointer.format hpath⟩
    have hfails : (∃ e, s.instantiate id v path = .error e)
        ↔ ∃ p violation, s.Fault id v p violation ∧ ¬v.Overruns p violation := by
      constructor
      · rintro ⟨e, he⟩
        obtain ⟨p, hfault, hnot, -⟩ := hnames e he
        exact ⟨p, e.violation, hfault, hnot⟩
      · rintro ⟨p, violation, hfault⟩
        cases hout : s.instantiate id v path with
        | error e => exact ⟨e, rfl⟩
        | ok out => exact absurd hout (((finding_iff hproper).2 hfault).check_ne_ok hs path out)
    refine ⟨⟨fun hlocates hfault => hfails.1 (hlocates.1.2 hfault), fun hother => ⟨?_, ?_⟩⟩,
      hfails, hnames⟩
    · refine ⟨fun he => ?_, fun hfault => hfails.2 (hother hfault)⟩
      obtain ⟨p, violation, hfault, -⟩ := hfails.1 he
      exact ⟨p, violation, hfault⟩
    · intro e he
      obtain ⟨p, hfault, -, hpath⟩ := hnames e he
      exact ⟨p, hfault, hpath⟩
  · exact fun id default value? path => instantiateSlot_of_default h.expandable
  · exact fun id v path path' out hout => instantiate_moved hout path'

end Schema

/-! ## A number on the edge -/

namespace Tally

/-- The first integer after which one is skipped. -/
def limit : Float :=
  Binary64.ofInt (2 ^ 53)

/-- A count of at most that many. -/
def spec : PropertySpec :=
  .object [("count", .ofKind (.number none (some limit)))]

def schema : Schema where
  types := [
    ⟨"#", .optional, .object ⟨[("count", 1)], []⟩⟩,
    ⟨"#/properties/count", .optional, .number [.atMost limit]⟩]
  root := 0

theorem compiled : schema.Compiled := by
  refine ⟨spec, ?_, ?_⟩
  · simp [spec, PropertySpec.object, PropertySpec.ofKind, Members.ofList,
      Members.set, PropertySpec.Distinct, SpecKind.Distinct, PropertySpec.DistinctAll]
  · have hlink : (Schema.layOut "#" 0 spec).link = .ok schema := rfl
    have hendless : schema.firstEndless? = none := by
      simp [Schema.firstEndless?, Schema.entangled, Schema.needsOneOf, Schema.requiredTypes,
        Schema.descriptor, Schema.presence, Presence.isRequired, Schema.size, schema,
        Schema.resolve, Schema.follow, List.range_succ]
    exact Outcome.bind_eq_ok.2 ⟨schema, hlink, Schema.checked_eq_ok.2 ⟨rfl, rfl, hendless, rfl⟩⟩

/-- What a tally holds. -/
def document (count : Int) : Json :=
  .object [("count", .number (.int count))]

theorem instantiate_document {count : Int}
    (h : (Rule.atMost limit).rejects (Binary64.ofInt count) = false) :
    schema.instantiate 0 (document count) [] = .ok (document count) := by
  have hnone : [Rule.atMost limit].find? (·.rejects (Json.Number.int count).toFloat) = none :=
    List.find?_cons_of_neg (by rw [Json.Number.toFloat, h]; exact Bool.false_ne_true)
  have hleaf : ∀ path, schema.checkLeaf (.number (.int count)) 1 path
      = .ok (.number (.int count)) := fun path => by
    unfold Schema.checkLeaf
    dsimp only
    rw [show schema.kind 1 = .number [.atMost limit] from rfl]
    dsimp only
    rw [hnone]
  let given := [("count", Json.number (.int count), schema.checkLeaf (.number (.int count)))]
  let expand := schema.expandDefault schema.size
  have hslot : schema.fillSlot expand (Members.find? "count" given) 1 [.field "count"]
      = .ok (some (.number (.int count))) := by
    show some <$> schema.checkLeaf (.number (.int count)) 1 [.field "count"] = _
    rw [hleaf]
    rfl
  show Json.object <$> schema.fillFields expand given [] [("count", 1)] = _
  rw [Schema.fillFields, List.nil_append, hslot]
  rfl

theorem integer?_limit : Binary64.integer? limit = some (2 ^ 53) := by
  decide +kernel

theorem document_proper {count : Int} (hlow : -2 ^ 63 ≤ count) (hhigh : count < 2 ^ 64) :
    (document count).Proper := by
  refine Json.proper_of_step? (fun n heq => nomatch heq) fun seg value hvalue => ?_
  cases seg with
  | index i => exact nomatch hvalue
  | field name =>
    obtain ⟨-, rfl⟩ := Prod.mk.inj (List.mem_singleton.1 (Members.mem_of_find? hvalue))
    refine Json.proper_of_step? (fun n heq => ?_) fun seg value hvalue => ?_
    · obtain rfl := Json.number.inj heq
      exact ⟨hlow, hhigh⟩
    · cases seg <;> exact nomatch hvalue

/-- A count beyond the bound is a fault. -/
theorem fault_of_lt {count : Int} (h : 2 ^ 53 < count) :
    schema.Fault 0 (document count) [.field "count"] (.bound (.atMost limit)) := by
  refine .bound rfl rfl rfl List.mem_cons_self ?_
  show Binary64.Below count limit
  rw [Binary64.below_of_isFinite (Binary64.isFinite_of_integer? integer?_limit),
    Binary64.toRat_of_integer? integer?_limit]
  exact Int.cast_lt.2 h

/-- The second count beyond the bound is not rounded to it, and is found wherever the tally
stands. -/
theorem locatesFaults_second : schema.Compiled ∧ (document (2 ^ 53 + 2)).Proper
    ∧ schema.LocatesFaults 0 (document (2 ^ 53 + 2)) [.field "tally"]
    ∧ ∃ e, schema.instantiate 0 (document (2 ^ 53 + 2)) [.field "tally"] = .error e := by
  have hproper : (document (2 ^ 53 + 2)).Proper := document_proper (by decide) (by decide)
  obtain ⟨hlocates, -, -⟩ := compiled.locatesFaults_iff
  obtain ⟨hiff, hfails, -⟩ := hlocates 0 (document (2 ^ 53 + 2)) [.field "tally"] hproper
  have hother : ∃ p violation, schema.Fault 0 (document (2 ^ 53 + 2)) p violation
      ∧ ¬(document (2 ^ 53 + 2)).Overruns p violation := by
    refine ⟨_, _, fault_of_lt (by decide), ?_⟩
    rintro ⟨n, rule, hn, hrule, hoverrun⟩
    obtain rfl := Json.number.inj (Option.some.inj hn)
    obtain rfl := Violation.bound.inj hrule
    obtain ⟨i, b, hi, hrounded, hb, -⟩ := hoverrun
    obtain rfl := Json.Number.int.inj hi
    have hsecond : Binary64.integer? (Binary64.ofInt (2 ^ 53 + 2)) = some (2 ^ 53 + 2) := by
      decide +kernel
    have hlimit := Option.some.inj (integer?_limit.symm.trans hb)
    have hnext := Option.some.inj (hsecond.symm.trans hrounded)
    omega
  exact ⟨compiled, hproper, hiff.2 fun _ => hother, hfails.2 hother⟩

/-- The first count beyond the bound is rounded to it and passes. -/
theorem not_locatesFaults_first : ¬schema.LocatesFaults 0 (document (2 ^ 53 + 1)) [] := by
  rintro ⟨hfails, -⟩
  obtain ⟨e, he⟩ := hfails.2 ⟨_, _, fault_of_lt (by decide)⟩
  have hpasses : schema.instantiate 0 (document (2 ^ 53 + 1)) [] = .ok (document (2 ^ 53 + 1)) :=
    instantiate_document (by decide +kernel)
  exact nomatch hpasses.symm.trans he

end Tally

end BoundView
