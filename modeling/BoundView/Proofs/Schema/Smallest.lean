import BoundView.Proofs.Schema.Faults
import BoundView.Proofs.Value.Exact

/-!
# Minimal values

The minimal value of a type is made of minimal values of what the type requires.  Main statement:
making it comes to an end, and it is accepted if anything is.
-/

namespace BoundView

open Zeros (Same)

/-! ## Numbers within bounds -/

namespace Rule

variable {rule : Rule} {b c w x y : Float}

theorem rejects_atLeast : (Rule.atLeast b).rejects x = false ↔ ¬x < b :=
  decide_eq_false_iff_not

theorem rejects_atMost : (Rule.atMost b).rejects x = false ↔ ¬b < x :=
  decide_eq_false_iff_not

theorem rejects_eq (h : Same x y) : rule.rejects x = rule.rejects y := by
  cases rule with
  | atLeast b => exact Zeros.lt_eq h (.refl b)
  | atMost b => exact Zeros.lt_eq (.refl b) h

/-- What lies on the way from one number to another one, and is not the first. -/
def Toward (c w x : Float) : Prop :=
  c < x ∧ ¬w < x ∨ x < c ∧ ¬x < w

theorem Toward.isFinite (h : Toward c w x) (hc : Binary64.isFinite c = true)
    (hw : Binary64.isFinite w = true) : Binary64.isFinite x = true := by
  rcases h with ⟨hcx, hwx⟩ | ⟨hxc, hxw⟩
  · obtain ⟨-, hx, -⟩ := Binary64.lt_iff_rank.1 hcx
    exact Binary64.isFinite_of_between hc hw
      (fun hxc => Binary64.not_lt_self x (Binary64.lt_trans hxc hcx)) hwx hx
  · obtain ⟨hx, -, -⟩ := Binary64.lt_iff_rank.1 hxc
    exact Binary64.isFinite_of_between hw hc hxw
      (fun hcx => Binary64.not_lt_self x (Binary64.lt_trans hxc hcx)) hx

/-- A bound that two numbers respect is respected by what lies between them. -/
theorem rejects_of_toward (h : Toward c w x) (hw : Binary64.isNaN w = false)
    (hrejects : rule.rejects c = false) (hrejects' : rule.rejects w = false) :
    rule.rejects x = false := by
  cases rule with
  | atLeast b =>
    rw [rejects_atLeast] at hrejects hrejects' ⊢
    intro hxb
    rcases h with ⟨hcx, -⟩ | ⟨-, hxw⟩
    · exact hrejects (Binary64.lt_trans hcx hxb)
    · exact (Binary64.lt_or_lt hw hxb).elim hxw hrejects'
  | atMost b =>
    rw [rejects_atMost] at hrejects hrejects' ⊢
    intro hbx
    rcases h with ⟨-, hwx⟩ | ⟨hxc, -⟩
    · exact (Binary64.lt_or_lt hw hbx).elim hrejects' hwx
    · exact hrejects (Binary64.lt_trans hbx hxc)

/-- A number is moved toward those that respect the bound, if it does not respect it itself. -/
theorem clamp_cases (rule : Rule) (c : Float) (hw : rule.rejects w = false) :
    rule.rejects (Schema.clamp c rule) = false
      ∧ (Schema.clamp c rule = c ∨ Toward c w (Schema.clamp c rule)) := by
  cases rule with
  | atLeast b =>
    rw [rejects_atLeast] at hw ⊢
    by_cases hlt : c < b
    · rw [Schema.clamp, if_pos hlt]
      exact ⟨Binary64.not_lt_self b, .inr (.inl ⟨hlt, hw⟩)⟩
    · rw [Schema.clamp, if_neg hlt]
      exact ⟨hlt, .inl rfl⟩
  | atMost b =>
    rw [rejects_atMost] at hw ⊢
    by_cases hlt : b < c
    · rw [Schema.clamp, if_pos hlt]
      exact ⟨Binary64.not_lt_self b, .inr (.inr ⟨hlt, hw⟩)⟩
    · rw [Schema.clamp, if_neg hlt]
      exact ⟨hlt, .inl rfl⟩

end Rule

namespace Schema

theorem isFinite_zero : Binary64.isFinite 0 = true := by
  decide +kernel

/-- Where some finite number respects all bounds, clamping zero into them gives such a number. -/
theorem foldl_clamp {rules : List Rule} {w : Float} (hw : Binary64.isFinite w = true)
    (hrules : ∀ rule ∈ rules, rule.rejects w = false) :
    Binary64.isFinite (rules.foldl clamp 0) = true
      ∧ ∀ rule ∈ rules, rule.rejects (rules.foldl clamp 0) = false := by
  have hknown := Binary64.isNaN_of_isFinite hw
  induction rules using List.reverseRecOn with
  | nil => exact ⟨isFinite_zero, fun rule hrule => absurd hrule List.not_mem_nil⟩
  | append_singleton rules last ih =>
    obtain ⟨hfinite, hearlier⟩ := ih fun rule hrule => hrules rule (List.mem_append_left _ hrule)
    have hlast := hrules last (List.mem_append_right _ (List.mem_singleton_self last))
    rw [List.foldl_append, List.foldl_cons, List.foldl_nil]
    generalize rules.foldl clamp 0 = c at hfinite hearlier ⊢
    obtain ⟨hrejects, hcases⟩ := Rule.clamp_cases last c hlast
    -- The earlier bounds are respected on both ends of the way.
    have hmoved : Binary64.isFinite (clamp c last) = true
        ∧ ∀ rule ∈ rules, rule.rejects (clamp c last) = false := by
      rcases hcases with heq | htoward
      · rw [heq]
        exact ⟨hfinite, hearlier⟩
      · refine ⟨htoward.isFinite hfinite hw, fun rule hrule => ?_⟩
        exact Rule.rejects_of_toward htoward hknown (hearlier rule hrule)
          (hrules rule (List.mem_append_left _ hrule))
    refine ⟨hmoved.1, fun rule hrule => ?_⟩
    rcases List.mem_append.1 hrule with hrule | hrule
    · exact hmoved.2 rule hrule
    · obtain rfl := List.mem_singleton.1 hrule
      exact hrejects

/-- Where a proper number respects all bounds, so does the one that is as close to zero as they
allow. -/
theorem zeroOf_accepted {rules : List Rule} {n : Json.Number} (hn : n.Proper)
    (hrules : ∀ rule ∈ rules, rule.rejects n.toFloat = false) :
    ∃ m, zeroOf rules = .number m ∧ ∀ rule ∈ rules, rule.rejects m.toFloat = false := by
  obtain ⟨hfinite, hrejects⟩ := foldl_clamp hn.isFinite hrules
  obtain ⟨m, hm, -, hsame⟩ := Json.exists_ofFloat hfinite
  exact ⟨m, hm, fun rule hrule => (Rule.rejects_eq hsame).trans (hrejects rule hrule)⟩

variable {s : Schema} {id part : TypeId} {v : Json} {depth : Nat}

/-! ## Made of parts -/

/-- The fields that a value of an object type has to have. -/
def requiredFields (s : Schema) (type : ObjectType) : List (String × TypeId) :=
  type.fields.filter fun field => (s.presence field.2).isRequired

/-- The minimal value of a type, given those of the fields that are required. -/
def smallest (s : Schema) (parts : TypeId → Json) (id : TypeId) : Json :=
  match s.kind id with
  | .string => .string ""
  | .boolean => .bool false
  | .number rules => zeroOf rules
  | .array _ => .array []
  | .object type => .object ((s.requiredFields type).map fun field => (field.1, parts field.2))
  | .ref _ | .any _ => .null

theorem minimalWithin_succ (s : Schema) (depth : Nat) :
    s.minimalWithin (depth + 1) = s.smallest (s.minimalWithin depth) := by
  funext id
  rw [minimalWithin, smallest]
  rfl

/-- Whether the minimal value of a type is made with that of another one. -/
def Requires (s : Schema) (id part : TypeId) : Prop :=
  ∃ type, s.kind id = .object type ∧ part ∈ (s.requiredFields type).map Prod.snd

/-- No other parts are looked at. -/
theorem smallest_congr {parts parts' : TypeId → Json}
    (h : ∀ part, s.Requires id part → parts part = parts' part) :
    s.smallest parts id = s.smallest parts' id := by
  unfold smallest
  cases hkind : s.kind id with
  | string | number | boolean | array | ref | any => rfl
  | object type =>
    refine congrArg Json.object (List.map_congr_left fun field hfield => ?_)
    rw [h field.2 ⟨type, hkind, List.mem_map.2 ⟨field, hfield, rfl⟩⟩]

theorem mem_requiredFields {type : ObjectType} {field : String × TypeId} :
    field ∈ s.requiredFields type ↔ field ∈ type.fields ∧ s.presence field.2 = .required := by
  rw [requiredFields, List.mem_filter]
  refine and_congr_right fun _ => ?_
  cases s.presence field.2 with
  | required => exact iff_of_true rfl rfl
  | optional | defaulted => exact iff_of_false Bool.false_ne_true fun h => nomatch h

/-- The members of a minimal value are those of the required fields. -/
theorem find?_requiredFields {type : ObjectType} (hnodup : (type.fields.map Prod.fst).Nodup)
    {name : String} (hfind : Members.find? name type.fields = some part) (parts : TypeId → Json)
    {value : Json} : Members.find? name
        ((s.requiredFields type).map fun field => (field.1, parts field.2)) = some value
      ↔ s.presence part = .required ∧ value = parts part := by
  constructor
  · intro hvalue
    obtain ⟨field, hfield, heq⟩ := List.mem_map.1 (Members.mem_of_find? hvalue)
    obtain ⟨rfl, rfl⟩ := Prod.mk.inj heq
    obtain ⟨hmem, hrequired⟩ := mem_requiredFields.1 hfield
    obtain rfl := Option.some.inj (hfind.symm.trans (Members.find?_of_mem hnodup hmem))
    exact ⟨hrequired, rfl⟩
  · rintro ⟨hrequired, rfl⟩
    refine Members.find?_of_mem ?_ (List.mem_map.2 ⟨(name, part), ?_, rfl⟩)
    · rw [List.map_map]
      exact hnodup.sublist (List.filter_sublist.map _)
    · exact mem_requiredFields.2 ⟨Members.mem_of_find? hfind, hrequired⟩

/-! ## Values without faults -/

/-- A value of a type with which a check finds nothing wrong. -/
def Faultless (s : Schema) (id : TypeId) (v : Json) : Prop :=
  ∀ p violation, ¬s.Finding id v p violation

theorem Faultless.takes (h : s.Faultless id v) : (s.kind id).takes v = true := by
  by_contra htakes
  exact h [] _ (.wrongKind rfl rfl (.inl rfl) (Bool.eq_false_iff.2 htakes))

theorem Faultless.accepts {n : Json.Number} {rules : List Rule} (h : s.Faultless id (.number n))
    (hkind : s.kind id = .number rules) : ∀ rule ∈ rules, rule.rejects n.toFloat = false := by
  intro rule hrule
  by_contra hrejects
  exact h [] _ (.bound rfl rfl hkind hrule (Bool.eq_true_of_not_eq_false hrejects))

/-- What is required of a value stands in it, and nothing is wrong with that. -/
theorem Faultless.exists_member (h : s.Faultless id v) {name : String}
    (htype : s.stepType id (.field name) = some part) (hrequired : s.presence part = .required)
    (hknown : (s.kind part).isAny = false) :
    ∃ value, v.step? (.field name) = some value ∧ s.Faultless part value := by
  obtain ⟨type, hkind, -⟩ := stepType_field htype
  have htakes := h.takes
  rw [hkind] at htakes
  cases v with
  | null | bool | number | string | array => exact nomatch htakes
  | object ms =>
    have hlacks : ¬(Json.object ms).Lacks (.field name) :=
      fun hlacks => h _ _ (.here htype hlacks hrequired hknown)
    obtain ⟨value, hvalue⟩ := not_forall.1 hlacks
    obtain ⟨hvalue, hnull⟩ := Classical.not_imp.1 hvalue
    exact ⟨value, hvalue, fun p violation hfault =>
      h _ _ (hfault.below htype hvalue (Bool.eq_false_iff.2 hnull))⟩

/-- Where a proper value is right at the top, the smallest one is. -/
theorem Faultless.smallest_top (h : s.Faultless id v) (hproper : v.Proper) (parts : TypeId → Json)
    {violation : Violation} : ¬s.Finding id (s.smallest parts id) [] violation := by
  intro hfault
  have htakes := h.takes
  unfold smallest at hfault
  have hcases := hfault.nil_cases
  cases hkind : s.kind id with
  | string | boolean | array | object | any =>
    simp [hkind, TypeKind.takes] at hcases
  | ref target =>
    rw [hkind] at htakes
    cases v <;> exact nomatch htakes
  | number rules =>
    rw [hkind] at htakes hcases
    cases v with
    | null | bool | string | array | object => exact nomatch htakes
    | number n =>
      obtain ⟨m, hm, hrules⟩ := zeroOf_accepted (hproper [] n rfl) (h.accepts hkind)
      simp only [hm] at hcases
      rcases hcases with htakes | ⟨m', rules', rule, heq, hkind', hrule, hrejects⟩
      · exact nomatch htakes
      · obtain rfl := Json.number.inj heq
        obtain rfl := TypeKind.number.inj hkind'
        exact Bool.false_ne_true ((hrules rule hrule).symm.trans hrejects)

theorem isAny_of_takes_null {kind : TypeKind TypeId} (h : kind.takes .null = true) :
    kind.isAny = true := by
  cases kind with
  | any => rfl
  | string | number | boolean | array | object | ref => exact nomatch h

theorem FaultBy.isAny_eq_false {breaks : Json.Number → Rule → Prop} {p : Path}
    {violation : Violation} (h : s.FaultBy breaks id v p violation) :
    (s.kind id).isAny = false := by
  cases hkind : s.kind id with
  | string | number | boolean | array | object | ref => rfl
  | any declared =>
    exfalso
    cases p with
    | nil =>
      rcases h.nil_cases with htakes | ⟨n, rules, rule, -, hnumber, -⟩
      · rw [hkind] at htakes
        exact nomatch htakes
      · exact nomatch hkind.symm.trans hnumber
    | cons seg p =>
      obtain ⟨child, htype, -⟩ := h.cons_cases
      cases seg with
      | field name =>
        obtain ⟨type, hobject, -⟩ := stepType_field htype
        exact nomatch hkind.symm.trans hobject
      | index i => exact nomatch hkind.symm.trans (stepType_index htype)

/-- Where nothing is wrong with some proper value, nothing is wrong with the minimal one. -/
theorem Faultless.minimalWithin (hs : s.WellFormed) (hfinite : s.FiniteWithin depth id)
    (hproper : v.Proper) (h : s.Faultless id v) : s.Faultless id (s.minimalWithin depth id) := by
  induction depth generalizing id v with
  | zero => exact hfinite.elim
  | succ depth ih =>
    rw [minimalWithin_succ]
    intro p violation hfault
    cases p with
    | nil => exact h.smallest_top hproper _ hfault
    | cons seg p =>
      obtain ⟨part, htype, hcases⟩ := hfault.cons_cases
      cases seg with
      | index i =>
        -- Minimal arrays have no elements.
        rw [smallest, stepType_index htype] at hcases
        rcases hcases with ⟨⟨x, hx, -⟩, -⟩ | ⟨value, hvalue, -⟩
        · exact nomatch hx
        · exact nomatch hvalue
      | field name =>
        obtain ⟨type, hkind, hfind⟩ := stepType_field htype
        have hnodup := hs.fields_nodup hkind
        -- A required part is there in the given value as well, and has no faults.
        have hmember : s.presence part = .required → (s.kind part).isAny = false →
            s.Faultless part (s.minimalWithin depth part) := by
          intro hrequired hknown
          obtain ⟨value, hvalue, hvalid⟩ := h.exists_member htype hrequired hknown
          refine ih (hfinite type hkind (name, part) (Members.mem_of_find? hfind) ?_)
            (hproper.step? hvalue) hvalid
          rw [hrequired]
          rfl
        simp only [smallest, hkind] at hcases
        rcases hcases with ⟨hlacks, hrequired, hknown⟩ | ⟨value, hvalue, -, hfault⟩
        -- It would have to be null, which only a value of any kind may be.
        · have hnull := hlacks _ ((find?_requiredFields hnodup hfind _).2 ⟨hrequired, rfl⟩)
          have htakes := (hmember hrequired hknown).takes
          rw [Json.eq_null_of_isNull hnull] at htakes
          exact Bool.false_ne_true (hknown.symm.trans (isAny_of_takes_null htakes))
        · obtain ⟨hrequired, rfl⟩ := (find?_requiredFields hnodup hfind _).1 hvalue
          exact hmember hrequired hfault.isAny_eq_false p violation hfault

/-! ## Coming to an end -/

theorem finiteWithin_succ_size (hs : s.WellFormed) (hendless : s.firstEndless? = none)
    (id : TypeId) : s.FiniteWithin (s.size + 1) id := by
  by_cases hid : id < s.size
  · exact (finiteWithin_size hs hendless hid).succ
  · intro type hkind
    rw [kind_of_le s id (Nat.le_of_not_lt hid)] at hkind
    exact nomatch hkind

theorem FiniteWithin.acc (h : s.FiniteWithin depth id) :
    Acc (fun part id => s.Requires id part) id := by
  induction depth generalizing id with
  | zero => exact h.elim
  | succ depth ih =>
    refine ⟨id, ?_⟩
    rintro part ⟨type, hkind, hpart⟩
    obtain ⟨field, hfield, rfl⟩ := List.mem_map.1 hpart
    obtain ⟨hmem, hrequired⟩ := List.mem_filter.1 hfield
    exact ih (h type hkind field hmem hrequired)

theorem minimalValue_eq_smallest (hs : s.WellFormed) (hendless : s.firstEndless? = none) :
    s.minimalValue = s.smallest s.minimalValue := by
  have hdeeper : s.minimalWithin (s.size + 2) = s.minimalValue := by
    funext id
    exact (finiteWithin_succ_size hs hendless id).minimalWithin_eq (Nat.le_succ _)
  calc s.minimalValue = s.minimalWithin (s.size + 2) := hdeeper.symm
    _ = s.smallest (s.minimalWithin (s.size + 1)) := minimalWithin_succ s (s.size + 1)
    _ = s.smallest s.minimalValue := rfl

/-- Whatever is made of parts in this way is the minimal value. -/
theorem eq_minimalValue (hs : s.WellFormed) (hendless : s.firstEndless? = none)
    {f : TypeId → Json} (hf : f = s.smallest f) : f = s.minimalValue := by
  funext id
  induction (finiteWithin_succ_size hs hendless id).acc with
  | intro id _ ih =>
    rw [hf, minimalValue_eq_smallest hs hendless]
    exact smallest_congr ih

/-! ## Main statement -/

theorem Compiled.firstEndless?_eq_none (h : s.Compiled) : s.firstEndless? = none := by
  obtain ⟨spec, -, h⟩ := h
  obtain ⟨linked, -, hchecked⟩ := Outcome.bind_eq_ok.1 h
  obtain ⟨rfl, -, hendless, -⟩ := checked_eq_ok.1 hchecked
  exact hendless

/-- Making the minimal value of a type, from those of what it requires and from nothing else, comes
to an end with every schema that compiles, and there is no other way to do so.  The minimal value is
accepted if any proper document is. -/
theorem Compiled.instantiate_minimalValue (h : s.Compiled) :
    (WellFounded fun part id => s.Requires id part)
    ∧ (∀ f : TypeId → Json, f = s.smallest f ↔ f = s.minimalValue)
    ∧ ∀ id, (∃ v out, v.Proper ∧ s.instantiate id v [] = .ok out) →
      ∃ out, s.instantiate id (s.minimalValue id) [] = .ok out := by
  have hs := h.wellFormed
  have hendless := h.firstEndless?_eq_none
  have hfinite := finiteWithin_succ_size hs hendless
  refine ⟨⟨fun id => (hfinite id).acc⟩, fun f => ⟨eq_minimalValue hs hendless, ?_⟩, ?_⟩
  · rintro rfl
    exact minimalValue_eq_smallest hs hendless
  · rintro id ⟨v, out, hproper, hout⟩
    have hvalid : s.Faultless id v := fun p violation hfault => hfault.check_ne_ok hs [] out hout
    have hminimal := hvalid.minimalWithin hs (hfinite id) hproper
    cases hresult : s.instantiate id (s.minimalValue id) [] with
    | ok out => exact ⟨out, rfl⟩
    | error e =>
      obtain ⟨p, hfault⟩ := h.finding_of_error hresult
      exact absurd hfault (hminimal p e.violation)

end Schema

/-! ## A gauge -/

namespace Gauge

/-- A level from three to nine, and a remark. -/
def spec : PropertySpec :=
  let level := PropertySpec.ofKind (.number (some 3) (some 9))
  .object [("level", level.required), ("remark", .ofKind .string)]

def schema : Schema where
  types := [
    ⟨"#", .optional, .object ⟨[("level", 1), ("remark", 2)], []⟩⟩,
    ⟨"#/properties/level", .required, .number [.atLeast 3, .atMost 9]⟩,
    ⟨"#/properties/remark", .optional, .string⟩]
  root := 0

theorem compiled : schema.Compiled := by
  refine ⟨spec, ?_, ?_⟩
  · simp [spec, PropertySpec.object, PropertySpec.ofKind, PropertySpec.required, Members.ofList,
      Members.set, PropertySpec.Distinct, SpecKind.Distinct, PropertySpec.DistinctAll]
  · have hlink : (Schema.layOut "#" 0 spec).link = .ok schema := rfl
    have hendless : schema.firstEndless? = none := by
      simp [Schema.firstEndless?, Schema.entangled, Schema.needsOneOf, Schema.requiredTypes,
        Schema.descriptor, Schema.presence, Presence.isRequired, Schema.size, schema,
        Schema.resolve, Schema.follow, List.range_succ]
    exact Outcome.bind_eq_ok.2 ⟨schema, hlink, Schema.checked_eq_ok.2 ⟨rfl, rfl, hendless, rfl⟩⟩

/-- What a gauge shows. -/
def shown (level : Int) : Json :=
  .object [("level", .number (.int level))]

theorem proper_shown : (shown 5).Proper := by
  refine Json.proper_of_step? (fun n heq => nomatch heq) fun seg value hvalue => ?_
  cases seg with
  | index i => exact nomatch hvalue
  | field name =>
    obtain ⟨-, rfl⟩ := Prod.mk.inj (List.mem_singleton.1 (Members.mem_of_find? hvalue))
    refine Json.proper_of_step? (fun n heq => ?_) fun seg value hvalue => ?_
    · obtain rfl := Json.number.inj heq
      exact ⟨by decide, by decide⟩
    · cases seg <;> exact nomatch hvalue

/-- Some level is accepted, and so is the least one. -/
theorem instantiate_minimalValue_shown : schema.Compiled ∧ (shown 5).Proper
    ∧ schema.instantiate 0 (shown 5) [] = .ok (shown 5)
    ∧ ∃ out, schema.instantiate 0 (schema.minimalValue 0) [] = .ok out := by
  have hshown : schema.instantiate 0 (shown 5) [] = .ok (shown 5) := by
    rfl
  exact ⟨compiled, proper_shown, hshown,
    (Schema.Compiled.instantiate_minimalValue compiled).2.2 0 ⟨_, _, proper_shown, hshown⟩⟩

end Gauge

end BoundView
