import BoundView.Proofs.Document.Faultless

/-!
# Readers of text and readers of documents

A reader of text agrees with a reader of documents when the second reads of the document in an
outline what the first reads of the outline.  That is so for values, choices, maps and records: an
unknown member that is repeated is passed over each time, and a known one is there once.
-/

namespace BoundView.Document

open Json (Outline Ending ObjectEnd)
open Json.Outline (ofJson ofItems ofMembers)
open Outcome (bind_eq_ok map_eq_ok mapError_eq_ok)

variable {ρ α β : Type} {o : Outline} {document : Json}

/-- Whatever the first reads of an outline, the second reads of the document that it holds. -/
def Agree (ofText ofValue : Outline → Except Problem α) : Prop :=
  ∀ {o document x}, toJson o = .ok document → ofText o = .ok x → ofValue (ofJson document) = .ok x

/-! ## Values -/

theorem agree_toText : Agree toText toText := by
  intro o document x hdocument h
  cases o with
  | string s =>
    obtain ⟨s, hs, rfl⟩ := map_eq_ok.1 hdocument
    exact hs.symm.trans h
  | _ => exact absurd h unexpected_ne_ok

theorem agree_toBool : Agree toBool toBool := by
  intro o document x hdocument h
  cases o with
  | bool b =>
    obtain rfl := Except.ok.inj hdocument
    exact h
  | _ => exact absurd h unexpected_ne_ok

theorem agree_toFloat : Agree toFloat toFloat := by
  intro o document x hdocument h
  cases o with
  | number n =>
    obtain ⟨n, hn, rfl⟩ := map_eq_ok.1 hdocument
    rw [toFloat, hn] at h
    exact h
  | _ => exact absurd h unexpected_ne_ok

theorem agree_toJson : Agree toJson toJson := by
  intro o document x hdocument h
  obtain rfl := Except.ok.inj (hdocument.symm.trans h)
  exact toJson_ofJson hdocument

theorem isNull_ofJson (h : toJson o = .ok document) : (ofJson document).isNull = o.isNull := by
  cases o with
  | null =>
    obtain rfl := Except.ok.inj h
    rfl
  | bool b =>
    obtain rfl := Except.ok.inj h
    rfl
  | number n =>
    obtain ⟨n, -, rfl⟩ := map_eq_ok.1 h
    rfl
  | string s =>
    obtain ⟨s, -, rfl⟩ := map_eq_ok.1 h
    rfl
  | array =>
    obtain ⟨-, documents, -, rfl⟩ := toJson_array_eq_ok.1 h
    rfl
  | object =>
    obtain ⟨-, pairs, -, rfl⟩ := toJson_object_eq_ok.1 h
    rfl
  | deep => exact nomatch h
  | broken => exact nomatch h

theorem optional_of_not_isNull {read : Outline → Except Problem α} (h : o.isNull = false) :
    optional read o = some <$> read o := by
  cases o with
  | null => exact nomatch h
  | _ => rfl

theorem Agree.optional {ofText ofValue : Outline → Except Problem α} (h : Agree ofText ofValue) :
    Agree (optional ofText) (optional ofValue) := by
  intro o document x hdocument hx
  cases hnull : o.isNull with
  | true =>
    cases o with
    | null =>
      obtain rfl := Except.ok.inj hdocument
      exact hx
    | _ => exact nomatch hnull
  | false =>
    rw [optional_of_not_isNull hnull] at hx
    obtain ⟨a, ha, rfl⟩ := map_eq_ok.1 hx
    rw [optional_of_not_isNull ((isNull_ofJson hdocument).trans hnull), h hdocument ha]
    rfl

/-! ## Names of choices -/

theorem readUnit_eq_ok (h : readUnit o = .ok ()) : o = .null := by
  cases o with
  | null => rfl
  | _ => exact absurd h unexpected_ne_ok

theorem endChoice_eq_ok {more : Bool} {ending : ObjectEnd} (h : endChoice more ending = .ok ()) :
    more = false ∧ ending = .plain .closed := by
  unfold endChoice at h
  split at h
  · split at h
    · exact nomatch h
    · rename_i hmore
      exact ⟨Bool.eq_false_iff.2 hmore, rfl⟩
  · exact nomatch h
  · exact nomatch h

/-- A choice in text that is a map: its name is the only key, with `null` below it. -/
theorem readChoice_object_eq_ok {choices : List (String × α)} {x : α}
    {ms : List (Except Json.Fault String × Outline)} {ending : ObjectEnd}
    (h : readChoice .text choices (.object ms ending) = .ok x) :
    ending = .plain .closed ∧ ∃ name, ms = [(.ok name, .null)] ∧ choose choices name = .ok x := by
  cases ms with
  | nil =>
    unfold readChoice at h
    dsimp only at h
    split at h
    · obtain ⟨-, -, h⟩ := bind_eq_ok.1 h
      exact nomatch h
    · unfold emptyChoice at h
      split at h
      · exact nomatch h
      · exact nomatch h
      · obtain ⟨found, -, h⟩ := bind_eq_ok.1 h
        exact nomatch h
      · exact nomatch h
      · obtain ⟨-, -, h⟩ := bind_eq_ok.1 h
        exact nomatch h
  | cons m rest =>
    obtain ⟨name, hname, h⟩ := bind_eq_ok.1 h
    obtain ⟨choice, hchoice, h⟩ := bind_eq_ok.1 h
    obtain ⟨⟨⟩, hunit, h⟩ := bind_eq_ok.1 h
    obtain ⟨⟨⟩, hend, h⟩ := bind_eq_ok.1 h
    obtain rfl := Except.ok.inj h
    obtain ⟨hmore, hclosed⟩ := endChoice_eq_ok hend
    obtain ⟨key, value⟩ := m
    obtain rfl : key = .ok name := ofFault_eq_ok.1 hname
    obtain rfl : value = .null := readUnit_eq_ok (mapError_eq_ok.1 hunit)
    rw [Bool.not_eq_false', List.isEmpty_iff] at hmore
    exact ⟨hclosed, name, hmore ▸ rfl, hchoice⟩

theorem agree_readChoice (choices : List (String × α)) :
    Agree (readChoice .text choices) (readChoice .value choices) := by
  intro o document x hdocument h
  cases o with
  | string s =>
    obtain ⟨s, hs, rfl⟩ := map_eq_ok.1 hdocument
    rw [readChoice, hs] at h
    exact h
  | object ms ending =>
    obtain ⟨rfl, name, rfl, hchoice⟩ := readChoice_object_eq_ok h
    obtain rfl := Except.ok.inj hdocument
    exact bind_eq_ok.2 ⟨name, rfl, bind_eq_ok.2 ⟨x, hchoice, rfl⟩⟩
  | broken shape faults => exact nomatch hdocument
  | deep inner => exact nomatch hdocument
  | _ => exact nomatch h

/-! ## Parts -/

theorem map_itemParts (items : List Outline) (ending : Ending) :
    (itemParts items ending).map Subtype.val = items := by
  rw [itemParts, List.map_map]
  exact List.attach_map_subtype_val items

theorem map_memberParts (ms : List (Except Json.Fault String × Outline)) (ending : ObjectEnd) :
    (memberParts ms ending).map (fun m => (m.1, m.2.1)) = ms := by
  rw [memberParts, List.map_map]
  exact List.attach_map_subtype_val ms

theorem forall₂_itemParts {R : Outline → β → Prop} {items : List Outline} {ending : Ending}
    {bs : List β} (h : List.Forall₂ R items bs) :
    List.Forall₂ (fun part b => R part.1 b) (itemParts items ending) bs := by
  rw [← map_itemParts items ending] at h
  exact List.forall₂_map_left_iff.1 h

theorem keyed_memberParts {R : Outline → β → Prop}
    {ms : List (Except Json.Fault String × Outline)} {ending : ObjectEnd}
    {pairs : List (String × β)} (h : Keyed R ms pairs) :
    Keyed (fun part b => R part.1 b) (memberParts ms ending) pairs := by
  rw [← map_memberParts ms ending] at h
  exact List.forall₂_map_left_iff.1 h

/-- The parts of a document are the outlines of its members. -/
theorem keyed_parts_ofMembers (ms : List (String × Json)) :
    Keyed (fun part inner => part.1 = ofJson inner) (memberParts (ofMembers ms) (.plain .closed))
      ms :=
  keyed_memberParts (R := fun o inner => o = ofJson inner) (keyed_ofMembers fun _ _ => rfl)

/-! ## Maps -/

section

variable {members : List (Except Json.Fault String × Part o)} {pairs : List (String × Json)}
  {R : Part o → Json → Prop} {read : Part o → Except Problem α} {xs : List (String × α)}

theorem forall₂_readEntries {ending : ObjectEnd} (hmembers : Keyed R members pairs)
    (h : readEntries read ending members = .ok xs) :
    List.Forall₂ (fun pair x => pair.1 = x.1 ∧ ∃ part, R part pair.2 ∧ read part = .ok x.2)
      pairs xs := by
  induction hmembers generalizing xs with
  | nil =>
    obtain ⟨-, -, h⟩ := bind_eq_ok.1 h
    obtain rfl := Except.ok.inj h
    exact .nil
  | @cons m pair members pairs hm _ ih =>
    obtain ⟨key, hkey, h⟩ := bind_eq_ok.1 h
    obtain ⟨value, hvalue, h⟩ := bind_eq_ok.1 h
    obtain ⟨rest, hrest, h⟩ := bind_eq_ok.1 h
    obtain rfl := Except.ok.inj h
    have hname := hm.1.symm.trans (ofFault_eq_ok.1 (mapError_eq_ok.1 hkey))
    exact .cons ⟨Except.ok.inj hname, m.2, hm.2, mapError_eq_ok.1 hvalue⟩ (ih hrest)

theorem readEntries_of_forall₂ (hmembers : Keyed R members pairs)
    (h : List.Forall₂ (fun pair x => pair.1 = x.1 ∧ ∀ part, R part pair.2 → read part = .ok x.2)
      pairs xs) : readEntries read (.plain .closed) members = .ok xs := by
  induction hmembers generalizing xs with
  | nil =>
    cases h
    rfl
  | @cons m pair members pairs hm _ ih =>
    obtain ⟨key, part⟩ := m
    cases h with
    | @cons _ x _ xs hx hxs =>
      obtain rfl : key = .ok x.1 := hx.1 ▸ hm.1
      exact bind_eq_ok.2 ⟨x.1, rfl, bind_eq_ok.2 ⟨x.2, mapError_eq_ok.2 (hx.2 part hm.2),
        bind_eq_ok.2 ⟨xs, ih hxs, rfl⟩⟩⟩

end

/-- A map in text is read as the map of the document, if that is so for each value. -/
theorem readMap_agrees {read : Part o → Except Problem α}
    {read' : Part (ofJson document) → Except Problem α} {ms : Members α}
    (hread : ∀ part part' inner x, toJson part.1 = .ok inner → part'.1 = ofJson inner →
      read part = .ok x → read' part' = .ok x)
    (hdocument : toJson o = .ok document) (h : readMap o read = .ok ms) :
    readMap (ofJson document) read' = .ok ms := by
  unfold readMap at h
  split at h
  · obtain ⟨rfl, pairs, hpairs, rfl⟩ := toJson_object_eq_ok.1 hdocument
    obtain ⟨xs, hxs, rfl⟩ := map_eq_ok.1 h
    have hvalues : List.Forall₂ (fun pair x => pair.1 = x.1
        ∧ ∀ part', part'.1 = ofJson pair.2 → read' part' = .ok x.2) pairs xs := by
      refine (forall₂_readEntries (keyed_memberParts hpairs) hxs).imp fun pair x hx => ?_
      obtain ⟨hname, part, hpart, hx⟩ := hx
      exact ⟨hname, fun part' hpart' => hread part part' _ _ hpart hpart' hx⟩
    -- The document keeps of repeated names what the map keeps of the values read of them.
    have hkept := Members.forall₂_ofList
      (R := fun inner x => ∀ part', part'.1 = ofJson inner → read' part' = .ok x) hvalues
    exact map_eq_ok.2 ⟨_, readEntries_of_forall₂ (keyed_parts_ofMembers _) hkept,
      Members.ofList_of_nodup (Members.nodup_ofList xs)⟩
  · exact nomatch h
  · exact absurd h unexpected_ne_ok

/-! ## Records

The members of a record in text may be more than those of the document, where a repeated name stands
once.  What is read of both is therefore told by the known values alone (`Shape.Reads`). -/

/-- The known ones among named values, with their fields. -/
def Shape.known (shape : Shape) (pairs : List (String × Json)) : List (Field × Json) :=
  pairs.filterMap fun pair => (shape.field? pair.1).map (·, pair.2)

/-- The names of the known fields. -/
def Shape.knownNames (shape : Shape) (pairs : List (String × Json)) : List String :=
  (shape.known pairs).map (·.1.name)

/-- Fields that are read one after the other. -/
inductive Steps (step : Field → Json → ρ → ρ → Prop) : List (Field × Json) → ρ → ρ → Prop where
  | nil (r : ρ) : Steps step [] r r
  | cons {field : Field} {inner : Json} {rest : List (Field × Json)} {r r₁ r' : ρ}
      (h : step field inner r r₁) (hrest : Steps step rest r₁ r') :
      Steps step ((field, inner) :: rest) r r'

/-- How a record is read of named values, after the fields in `seen`: the known ones are read one
after the other, none a second time, and no mandatory field is missing. -/
structure Shape.Reads (shape : Shape) (step : Field → Json → ρ → ρ → Prop)
    (pairs : List (String × Json)) (seen : List String) (r r' : ρ) : Prop where
  steps : Steps step (shape.known pairs) r r'
  nodup : (shape.knownNames pairs).Nodup
  fresh : ∀ name ∈ shape.knownNames pairs, name ∉ seen
  complete : ∀ field ∈ shape.fields, field.mandatory = true →
    field.name ∈ seen ∨ field.name ∈ shape.knownNames pairs

section

variable {shape : Shape} {pairs : List (String × Json)} {name : String} {inner : Json}
  {field : Field} {seen : List String} {r r' : ρ} {step step' : Field → Json → ρ → ρ → Prop}

theorem Steps.imp (h : ∀ field inner r r', step field inner r r' → step' field inner r r')
    {fields : List (Field × Json)} (hsteps : Steps step fields r r') : Steps step' fields r r' := by
  induction hsteps with
  | nil r => exact .nil r
  | cons hstep _ ih => exact .cons (h _ _ _ _ hstep) ih

theorem known_cons_none (h : shape.field? name = none) :
    shape.known ((name, inner) :: pairs) = shape.known pairs :=
  List.filterMap_cons_none (by rw [h]; rfl)

theorem known_cons_some (h : shape.field? name = some field) :
    shape.known ((name, inner) :: pairs) = (field, inner) :: shape.known pairs :=
  List.filterMap_cons_some (by rw [h]; rfl)

theorem known_set_none (h : shape.field? name = none) (ms : Members Json) :
    shape.known (Members.set name inner ms) = shape.known ms := by
  induction ms with
  | nil => exact known_cons_none h
  | cons pair rest ih =>
    obtain ⟨key, old⟩ := pair
    rw [Members.set]
    split
    · rename_i hkey
      subst hkey
      rw [known_cons_none h, known_cons_none h]
    · cases hfield : shape.field? key with
      | none => rw [known_cons_none hfield, known_cons_none hfield, ih]
      | some field => rw [known_cons_some hfield, known_cons_some hfield, ih]

theorem mem_knownNames (hfield : shape.field? name = some field) {ms : Members Json}
    (h : name ∈ ms.map Prod.fst) : field.name ∈ shape.knownNames ms := by
  obtain ⟨pair, hpair, rfl⟩ := List.mem_map.1 h
  refine List.mem_map.2 ⟨(field, pair.2), List.mem_filterMap.2 ⟨pair, hpair, ?_⟩, rfl⟩
  rw [hfield]
  rfl

theorem known_append (ms : List (String × Json)) :
    shape.known (ms ++ pairs) = shape.known ms ++ shape.known pairs :=
  List.filterMap_append

/-- The known values stay as they are when repeated names are taken together, for they are there
once. -/
theorem known_ofList (h : (shape.knownNames pairs).Nodup) :
    shape.known (Members.ofList pairs) = shape.known pairs := by
  suffices hfold : ∀ ms : Members Json, (shape.knownNames (ms ++ pairs)).Nodup →
      shape.known (pairs.foldl (fun ms pair => Members.set pair.1 pair.2 ms) ms)
        = shape.known (ms ++ pairs) from hfold [] h
  clear h
  -- Induction on the pairs that are still to be written over what is there.
  induction pairs with
  | nil =>
    intro ms _
    rw [List.append_nil]
    rfl
  | cons pair rest ih =>
    obtain ⟨name, inner⟩ := pair
    intro ms hnodup
    rw [List.foldl_cons]
    cases hfield : shape.field? name with
    | none =>
      have heq : shape.known (Members.set name inner ms ++ rest)
          = shape.known (ms ++ (name, inner) :: rest) := by
        rw [known_append, known_append, known_set_none hfield, known_cons_none hfield]
      rw [← heq]
      refine ih _ ?_
      rwa [Shape.knownNames, heq]
    | some field =>
      -- The name is new, so the value goes to the end.
      have hname : name ∉ ms.map Prod.fst := by
        intro hmem
        rw [Shape.knownNames, known_append, List.map_append, List.nodup_append] at hnodup
        refine hnodup.2.2 _ (mem_knownNames hfield hmem) field.name ?_ rfl
        rw [known_cons_some hfield]
        exact List.mem_cons_self
      have hset := Members.set_of_find?_eq_none inner (Members.find?_eq_none_iff.2 hname)
      rw [List.append_cons] at hnodup ⊢
      rw [← hset] at hnodup ⊢
      exact ih _ hnodup

theorem reads_nil : shape.Reads step [] seen r r' ↔
    (∀ field ∈ shape.fields, field.mandatory = true → field.name ∈ seen) ∧ r = r' := by
  constructor
  · rintro ⟨hsteps, -, -, hcomplete⟩
    cases hsteps
    exact ⟨fun field hfield hmandatory =>
      (hcomplete field hfield hmandatory).resolve_right List.not_mem_nil, rfl⟩
  · rintro ⟨hcomplete, rfl⟩
    exact ⟨.nil r, List.nodup_nil, fun _ hmem => absurd hmem List.not_mem_nil,
      fun field hfield hmandatory => .inl (hcomplete field hfield hmandatory)⟩

/-- Only the known values count. -/
theorem Shape.Reads.of_known {pairs' : List (String × Json)} (h : shape.Reads step pairs seen r r')
    (hknown : shape.known pairs' = shape.known pairs) : shape.Reads step pairs' seen r r' := by
  obtain ⟨hsteps, hnodup, hfresh, hcomplete⟩ := h
  unfold Shape.knownNames at hnodup hfresh hcomplete
  rw [← hknown] at hsteps hnodup hfresh hcomplete
  exact ⟨hsteps, hnodup, hfresh, hcomplete⟩

theorem reads_cons_none (h : shape.field? name = none) :
    shape.Reads step ((name, inner) :: pairs) seen r r' ↔ shape.Reads step pairs seen r r' :=
  ⟨fun hreads => hreads.of_known (known_cons_none h).symm,
    fun hreads => hreads.of_known (known_cons_none h)⟩

theorem reads_cons_some (h : shape.field? name = some field) :
    shape.Reads step ((name, inner) :: pairs) seen r r' ↔ field.name ∉ seen
      ∧ ∃ r₁, step field inner r r₁ ∧ shape.Reads step pairs (field.name :: seen) r₁ r' := by
  have hknown : shape.known ((name, inner) :: pairs) = (field, inner) :: shape.known pairs :=
    known_cons_some h
  have hnames : shape.knownNames ((name, inner) :: pairs)
      = field.name :: shape.knownNames pairs := by
    rw [Shape.knownNames, hknown, List.map_cons, Shape.knownNames]
  constructor
  · rintro ⟨hsteps, hnodup, hfresh, hcomplete⟩
    rw [hknown] at hsteps
    rw [hnames, List.nodup_cons] at hnodup
    rw [hnames, List.forall_mem_cons] at hfresh
    cases hsteps with
    | cons hstep hsteps =>
      refine ⟨hfresh.1, _, hstep, hsteps, hnodup.2, fun other hother => ?_,
        fun other hother hmandatory => ?_⟩
      · rw [List.mem_cons, not_or]
        exact ⟨fun heq => hnodup.1 (heq ▸ hother), hfresh.2 other hother⟩
      · rw [List.mem_cons, or_comm (a := other.name = field.name), or_assoc, ← List.mem_cons,
          ← hnames]
        exact hcomplete other hother hmandatory
  · rintro ⟨hseen, r₁, hstep, hsteps, hnodup, hfresh, hcomplete⟩
    refine ⟨hknown ▸ .cons hstep hsteps, hnames ▸ List.nodup_cons.2 ⟨fun hmem =>
      hfresh _ hmem List.mem_cons_self, hnodup⟩, ?_, fun other hother hmandatory => ?_⟩
    · rw [hnames, List.forall_mem_cons]
      exact ⟨hseen, fun other hother hmem => hfresh other hother (List.mem_cons_of_mem _ hmem)⟩
    · rw [hnames, List.mem_cons, ← or_assoc, or_comm (a := other.name ∈ seen), ← List.mem_cons]
      exact hcomplete other hother hmandatory

theorem Shape.Reads.ofList (h : shape.Reads step pairs seen r r') :
    shape.Reads step (Members.ofList pairs) seen r r' :=
  h.of_known (known_ofList h.nodup)

theorem Shape.Reads.imp (hstep : ∀ field inner r r', step field inner r r' → step' field inner r r')
    (h : shape.Reads step pairs seen r r') : shape.Reads step' pairs seen r r' :=
  { h with steps := h.steps.imp hstep }

end

section

variable {shape : Shape} {set : Field → Part o → ρ → Except Problem ρ} {ending : ObjectEnd}
  {members : List (Except Json.Fault String × Part o)} {pairs : List (String × Json)}
  {R : Part o → Json → Prop} {seen : List String} {r r' : ρ}

theorem readMembers_nil_eq_ok : readMembers shape set ending [] seen r = .ok r' ↔
    ending = .plain .closed ∧ (∀ field ∈ shape.fields, field.mandatory = true → field.name ∈ seen)
      ∧ r = r' := by
  have hclosed : readMembers shape set (.plain .closed) [] seen r = .ok r'
      ↔ (∀ field ∈ shape.fields, field.mandatory = true → field.name ∈ seen) ∧ r = r' := by
    have hnone : (shape.fields.find? fun f => f.mandatory ∧ f.name ∉ seen) = none
        ↔ ∀ field ∈ shape.fields, field.mandatory = true → field.name ∈ seen := by
      simp only [List.find?_eq_none, decide_eq_true_eq, not_and, not_not]
    unfold readMembers
    dsimp only
    constructor
    · intro h
      obtain ⟨⟨⟩, -, h⟩ := bind_eq_ok.1 h
      split at h
      · cases h
      · rename_i hmissing
        exact ⟨hnone.1 hmissing, Except.ok.inj h⟩
    · rintro ⟨hcomplete, rfl⟩
      refine bind_eq_ok.2 ⟨(), rfl, ?_⟩
      rw [hnone.2 hcomplete]
  constructor
  · intro h
    have hend : endObject ending = .ok () := by
      unfold readMembers at h
      dsimp only at h
      iterate 3 split at h
      · cases h
      all_goals
        obtain ⟨⟨⟩, hend, -⟩ := bind_eq_ok.1 h
        exact hend
    obtain rfl := endObject_eq_ok.1 hend
    exact ⟨rfl, hclosed.1 h⟩
  · rintro ⟨rfl, h⟩
    exact hclosed.2 h

theorem readMembers_cons_eq_ok {key : Except Json.Fault String} {part : Part o}
    {rest : List (Except Json.Fault String × Part o)} :
    readMembers shape set ending ((key, part) :: rest) seen r = .ok r' ↔ ∃ name, key = .ok name
      ∧ ((shape.field? name = none ∧ skip part.1 = .ok ()
          ∧ readMembers shape set ending rest seen r = .ok r')
        ∨ ∃ field r₁, shape.field? name = some field ∧ field.name ∉ seen
          ∧ set field part r = .ok r₁
          ∧ readMembers shape set ending rest (field.name :: seen) r₁ = .ok r') := by
  constructor
  · intro h
    rw [readMembers] at h
    obtain ⟨name, hkey, h⟩ := bind_eq_ok.1 h
    refine ⟨name, ofFault_eq_ok.1 (mapError_eq_ok.1 hkey), ?_⟩
    split at h
    · rename_i hfield
      obtain ⟨⟨⟩, hskip, h⟩ := bind_eq_ok.1 h
      exact .inl ⟨hfield, ofFault_eq_ok.1 (mapError_eq_ok.1 hskip), h⟩
    · rename_i field hfield
      split at h
      · cases h
      · rename_i hseen
        obtain ⟨r₁, hset, h⟩ := bind_eq_ok.1 h
        exact .inr ⟨field, r₁, hfield, hseen, mapError_eq_ok.1 hset, h⟩
  · rintro ⟨name, rfl, ⟨hfield, hskip, h⟩ | ⟨field, r₁, hfield, hseen, hset, h⟩⟩
    · rw [readMembers]
      refine bind_eq_ok.2 ⟨name, rfl, ?_⟩
      rw [hfield]
      exact bind_eq_ok.2 ⟨(), mapError_eq_ok.2 (ofFault_eq_ok.2 hskip), h⟩
    · rw [readMembers]
      refine bind_eq_ok.2 ⟨name, rfl, ?_⟩
      rw [hfield]
      dsimp only
      rw [if_neg hseen]
      exact bind_eq_ok.2 ⟨r₁, mapError_eq_ok.2 hset, h⟩

/-- A record that was read of members was read of their values. -/
theorem reads_of_readMembers (hmembers : Keyed R members pairs)
    (h : readMembers shape set ending members seen r = .ok r') :
    shape.Reads (fun field inner r r' => ∃ part, R part inner ∧ set field part r = .ok r')
      pairs seen r r' := by
  induction hmembers generalizing seen r with
  | nil => exact reads_nil.2 (readMembers_nil_eq_ok.1 h).2
  | @cons m pair members pairs hm _ ih =>
    obtain ⟨name, hkey, h⟩ := readMembers_cons_eq_ok.1 h
    obtain rfl := Except.ok.inj (hm.1.symm.trans hkey)
    rcases h with ⟨hfield, -, h⟩ | ⟨field, r₁, hfield, hseen, hset, h⟩
    · exact (reads_cons_none hfield).2 (ih h)
    · exact (reads_cons_some hfield).2 ⟨hseen, r₁, ⟨m.2, hm.2, hset⟩, ih h⟩

/-- A record that can be read of the values is read of members that have them. -/
theorem readMembers_of_reads (hskip : ∀ part inner, R part inner → skip part.1 = .ok ())
    (hmembers : Keyed R members pairs)
    (h : shape.Reads (fun field inner r r' => ∀ part, R part inner → set field part r = .ok r')
      pairs seen r r') : readMembers shape set (.plain .closed) members seen r = .ok r' := by
  induction hmembers generalizing seen r with
  | nil => exact readMembers_nil_eq_ok.2 ⟨rfl, reads_nil.1 h⟩
  | @cons m pair members pairs hm _ ih =>
    refine readMembers_cons_eq_ok.2 ⟨pair.1, hm.1, ?_⟩
    cases hfield : shape.field? pair.1 with
    | none => exact .inl ⟨rfl, hskip _ _ hm.2, ih ((reads_cons_none hfield).1 h)⟩
    | some field =>
      obtain ⟨hseen, r₁, hset, h⟩ := (reads_cons_some hfield).1 h
      exact .inr ⟨field, r₁, rfl, hseen, hset m.2 hm.2, ih h⟩

/-- The array form of a record likewise; it is read to its end in both. -/
theorem readFields_agrees {o' : Outline} {set' : Field → Part o' → ρ → Except Problem ρ}
    {ending : Ending} {index : Nat} {fields : List Field} {parts : List (Part o)}
    {parts' : List (Part o')} {documents : List Json}
    (hset : ∀ field part part' inner r r', toJson part.1 = .ok inner → part'.1 = ofJson inner →
      set field part r = .ok r' → set' field part' r = .ok r')
    (hparts : List.Forall₂ (fun part inner => toJson part.1 = .ok inner) parts documents)
    (hparts' : List.Forall₂ (fun part inner => part.1 = ofJson inner) parts' documents)
    (h : readFields .text shape set ending index fields parts r = .ok r') :
    readFields .value shape set' .closed index fields parts' r = .ok r' := by
  -- Both readers walk the fields, and the parts run out at the same field.
  induction fields generalizing index parts parts' documents r with
  | nil =>
    obtain ⟨⟨⟩, hend, hr⟩ := bind_eq_ok.1 h
    cases hparts with
    | nil =>
      cases hparts'
      exact bind_eq_ok.2 ⟨(), rfl, hr⟩
    | cons => cases hend
  | cons field fields ih =>
    cases hparts with
    | nil =>
      cases hparts'
      rw [readFields] at h ⊢
      obtain ⟨⟨⟩, -, h⟩ := bind_eq_ok.1 h
      refine bind_eq_ok.2 ⟨(), rfl, ?_⟩
      split at h
      · cases h
      · rename_i hlisted
        rw [if_neg hlisted]
        exact ih .nil .nil h
    | cons hpart hparts =>
      cases hparts' with
      | cons hpart' hparts' =>
        obtain ⟨r₁, hr₁, h⟩ := bind_eq_ok.1 h
        exact bind_eq_ok.2 ⟨r₁, mapError_eq_ok.2 (hset _ _ _ _ _ _ hpart hpart'
          (mapError_eq_ok.1 hr₁)), ih hparts hparts' h⟩

end

/-- A record in text is read as the record of the document, if that is so for each field. -/
theorem readRecord_agrees {shape : Shape} {set : Field → Part o → ρ → Except Problem ρ}
    {set' : Field → Part (ofJson document) → ρ → Except Problem ρ} {r r' : ρ}
    (hset : ∀ field part part' inner r r', toJson part.1 = .ok inner → part'.1 = ofJson inner →
      set field part r = .ok r' → set' field part' r = .ok r')
    (hdocument : toJson o = .ok document) (h : readRecord .text shape r o set = .ok r') :
    readRecord .value shape r (ofJson document) set' = .ok r' := by
  unfold readRecord at h
  split at h
  · obtain ⟨rfl, pairs, hpairs, rfl⟩ := toJson_object_eq_ok.1 hdocument
    -- What is read of all members is read of those that the document keeps.
    have hreads := (reads_of_readMembers (keyed_memberParts hpairs) h).ofList
    refine readMembers_of_reads (fun part inner hpart => ?_) (keyed_parts_ofMembers _)
      (hreads.imp fun field inner r r' hr part' hpart' => ?_)
    · exact hpart ▸ skip_of_faultless (faultless_ofJson inner)
    · obtain ⟨part, hpart, hr⟩ := hr
      exact hset field part part' inner r r' hpart hpart' hr
  · obtain ⟨rfl, documents, hitems, rfl⟩ := toJson_array_eq_ok.1 hdocument
    exact readFields_agrees hset (forall₂_itemParts hitems)
      (forall₂_itemParts (R := fun o inner => o = ofJson inner) (forall₂_ofItems fun _ _ => rfl)) h
  · exact nomatch h
  · exact absurd h unexpected_ne_ok

end BoundView.Document
