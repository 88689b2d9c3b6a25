import BoundView.Proofs.Document.Record

/-!
# Outlines that hold a document

An outline holds a document where it has no faults; the document then has the same outline, but for
members whose name is repeated.  What holds a document can also be passed over.
-/

namespace BoundView

open Json (Outline Ending ObjectEnd)
open Outcome (bind_eq_ok map_eq_ok mapError_eq_ok)

/-- Without faults: every number, string and key is readable, every container is closed and none is
beyond the depth to which text is read. -/
inductive Json.Outline.Faultless : Outline → Prop where
  | null : Faultless .null
  | bool (b : Bool) : Faultless (.bool b)
  | number (n : Number) : Faultless (.number (.ok n))
  | string (s : String) : Faultless (.string (.ok s))
  | array {items : List Outline} (hitems : ∀ item ∈ items, Faultless item) :
      Faultless (.array items .closed)
  | object {ms : List (Except Fault String × Outline)} (hkeys : ∀ m ∈ ms, ∃ key, m.1 = .ok key)
      (hvalues : ∀ m ∈ ms, Faultless m.2) : Faultless (.object ms (.plain .closed))

namespace Document

variable {o : Outline} {document : Json}

/-- Members whose keys are the names of these pairs, with values that are related to theirs. -/
abbrev Keyed {α β : Type} (R : α → β → Prop) (ms : List (Except Json.Fault String × α))
    (pairs : List (String × β)) : Prop :=
  List.Forall₂ (fun m pair => m.1 = .ok pair.1 ∧ R m.2 pair.2) ms pairs

/-! ## Reading a whole value -/

theorem ofFault_eq_ok {α : Type} {x : Except Json.Fault α} {a : α} :
    ofFault x = .ok a ↔ x = .ok a := by
  cases x with
  | error f => exact ⟨fun h => (nomatch h), fun h => (nomatch h)⟩
  | ok b => exact ⟨fun h => congrArg _ (Except.ok.inj h), fun h => congrArg _ (Except.ok.inj h)⟩

theorem ofFault?_arrayFault?_eq_ok {ending : Ending} :
    ofFault? ending.arrayFault? = .ok () ↔ ending = .closed := by
  cases ending with
  | closed => exact iff_of_true rfl rfl
  | endOfText | endAfterComma | trailingComma | notContinued => exact iff_of_false nofun nofun

theorem endObject_eq_ok {ending : ObjectEnd} :
    endObject ending = .ok () ↔ ending = .plain .closed := by
  constructor
  · intro h
    cases ending with
    | plain ending =>
      cases ending with
      | closed => rfl
      | endOfText | endAfterComma | trailingComma | notContinued => exact nomatch h
    | keyless | brokenKey => exact nomatch h
    | brokenMember key f =>
      obtain ⟨-, -, h⟩ := bind_eq_ok.1 h
      exact nomatch h
  · rintro rfl
    rfl

theorem toItems_eq_ok {index : Nat} {items : List Outline} {documents : List Json} :
    toItems index items = .ok documents
      ↔ List.Forall₂ (fun item document => toJson item = .ok document) items documents := by
  induction items generalizing index documents with
  | nil =>
    rw [toItems, List.forall₂_nil_left_iff]
    exact ⟨fun h => (Except.ok.inj h).symm, fun h => congrArg _ h.symm⟩
  | cons item items ih =>
    rw [toItems, List.forall₂_cons_left_iff, bind_eq_ok]
    refine exists_congr fun document => ?_
    rw [under, mapError_eq_ok, bind_eq_ok]
    constructor
    · rintro ⟨hitem, rest, hrest, h⟩
      exact ⟨rest, hitem, ih.1 hrest, (Except.ok.inj h).symm⟩
    · rintro ⟨rest, hitem, hrest, rfl⟩
      exact ⟨hitem, rest, ih.2 hrest, rfl⟩

theorem toMembers_eq_ok {ms : List (Except Json.Fault String × Outline)}
    {pairs : List (String × Json)} :
    toMembers ms = .ok pairs ↔ Keyed (fun o document => toJson o = .ok document) ms pairs := by
  induction ms generalizing pairs with
  | nil =>
    rw [toMembers, Keyed, List.forall₂_nil_left_iff]
    exact ⟨fun h => (Except.ok.inj h).symm, fun h => congrArg _ h.symm⟩
  | cons m ms ih =>
    rw [toMembers, Keyed, List.forall₂_cons_left_iff]
    constructor
    · intro h
      obtain ⟨key, hkey, h⟩ := bind_eq_ok.1 h
      obtain ⟨value, hvalue, h⟩ := bind_eq_ok.1 h
      obtain ⟨rest, hrest, h⟩ := bind_eq_ok.1 h
      exact ⟨(key, value), rest, ⟨ofFault_eq_ok.1 (mapError_eq_ok.1 hkey),
        mapError_eq_ok.1 hvalue⟩, ih.1 hrest, (Except.ok.inj h).symm⟩
    · rintro ⟨⟨key, value⟩, rest, ⟨hkey, hvalue⟩, hrest, rfl⟩
      exact bind_eq_ok.2 ⟨key, mapError_eq_ok.2 (ofFault_eq_ok.2 hkey),
        bind_eq_ok.2 ⟨value, mapError_eq_ok.2 hvalue, bind_eq_ok.2 ⟨rest, ih.2 hrest, rfl⟩⟩⟩

theorem toJson_array_eq_ok {items : List Outline} {ending : Ending} :
    toJson (.array items ending) = .ok document ↔ ending = .closed ∧ ∃ documents,
      List.Forall₂ (fun item document => toJson item = .ok document) items documents
        ∧ document = .array documents := by
  rw [toJson]
  constructor
  · intro h
    obtain ⟨documents, hitems, h⟩ := bind_eq_ok.1 h
    obtain ⟨⟨⟩, hend, h⟩ := bind_eq_ok.1 h
    exact ⟨ofFault?_arrayFault?_eq_ok.1 hend, documents, toItems_eq_ok.1 hitems,
      (Except.ok.inj h).symm⟩
  · rintro ⟨rfl, documents, hitems, rfl⟩
    exact bind_eq_ok.2 ⟨documents, toItems_eq_ok.2 hitems, rfl⟩

theorem toJson_object_eq_ok {ms : List (Except Json.Fault String × Outline)} {ending : ObjectEnd} :
    toJson (.object ms ending) = .ok document ↔ ending = .plain .closed ∧ ∃ pairs,
      Keyed (fun o document => toJson o = .ok document) ms pairs
        ∧ document = .object (Members.ofList pairs) := by
  rw [toJson]
  constructor
  · intro h
    obtain ⟨pairs, hmembers, h⟩ := bind_eq_ok.1 h
    obtain ⟨⟨⟩, hend, h⟩ := bind_eq_ok.1 h
    exact ⟨endObject_eq_ok.1 hend, pairs, toMembers_eq_ok.1 hmembers, (Except.ok.inj h).symm⟩
  · rintro ⟨rfl, pairs, hmembers, rfl⟩
    exact bind_eq_ok.2 ⟨pairs, toMembers_eq_ok.2 hmembers, rfl⟩

theorem exists_forall₂ {α β : Type} {R : α → β → Prop} {xs : List α}
    (h : ∀ x ∈ xs, ∃ y, R x y) : ∃ ys, List.Forall₂ R xs ys := by
  induction xs with
  | nil => exact ⟨[], .nil⟩
  | cons x xs ih =>
    rw [List.forall_mem_cons] at h
    obtain ⟨⟨y, hy⟩, hxs⟩ := h
    obtain ⟨ys, hys⟩ := ih hxs
    exact ⟨y :: ys, .cons hy hys⟩

theorem exists_of_mem_left {α β : Type} {R : α → β → Prop} {xs : List α} {ys : List β}
    (h : List.Forall₂ R xs ys) {x : α} (hx : x ∈ xs) : ∃ y ∈ ys, R x y := by
  induction h with
  | nil => exact absurd hx List.not_mem_nil
  | cons hxy _ ih =>
    rcases List.mem_cons.1 hx with rfl | hx
    · exact ⟨_, List.mem_cons_self, hxy⟩
    · obtain ⟨y, hy, hxy⟩ := ih hx
      exact ⟨y, List.mem_cons_of_mem _ hy, hxy⟩

theorem exists_toJson (h : o.Faultless) : ∃ document, toJson o = .ok document := by
  induction h with
  | null | bool b | number n | string s => exact ⟨_, rfl⟩
  | array _ ih =>
    obtain ⟨documents, hitems⟩ := exists_forall₂ ih
    exact ⟨_, toJson_array_eq_ok.2 ⟨rfl, documents, hitems, rfl⟩⟩
  | @object ms hkeys _ ih =>
    have hmembers : ∀ m ∈ ms, ∃ pair : String × Json,
        m.1 = .ok pair.1 ∧ toJson m.2 = .ok pair.2 := by
      intro m hm
      obtain ⟨key, hkey⟩ := hkeys m hm
      obtain ⟨value, hvalue⟩ := ih m hm
      exact ⟨(key, value), hkey, hvalue⟩
    obtain ⟨pairs, hpairs⟩ := exists_forall₂ hmembers
    exact ⟨_, toJson_object_eq_ok.2 ⟨rfl, pairs, hpairs, rfl⟩⟩

theorem faultless_of_toJson {o : Outline} {document : Json} (h : toJson o = .ok document) :
    o.Faultless := by
  cases o with
  | null => exact .null
  | bool b => exact .bool b
  | number n =>
    obtain ⟨n, hn, -⟩ := map_eq_ok.1 h
    exact ofFault_eq_ok.1 hn ▸ .number n
  | string s =>
    obtain ⟨s, hs, -⟩ := map_eq_ok.1 h
    exact ofFault_eq_ok.1 hs ▸ .string s
  | array items ending =>
    obtain ⟨rfl, documents, hitems, -⟩ := toJson_array_eq_ok.1 h
    refine .array fun item hitem => ?_
    have hlt := List.sizeOf_lt_of_mem hitem
    obtain ⟨document, -, hdocument⟩ := exists_of_mem_left hitems hitem
    exact faultless_of_toJson hdocument
  | object ms ending =>
    obtain ⟨rfl, pairs, hmembers, -⟩ := toJson_object_eq_ok.1 h
    refine .object (fun m hm => ?_) fun m hm => ?_
    · obtain ⟨pair, -, hpair⟩ := exists_of_mem_left hmembers hm
      exact ⟨pair.1, hpair.1⟩
    · have hlt : sizeOf m.2 < sizeOf (Outline.object ms (.plain .closed)) := sizeOf_member_lt hm
      obtain ⟨pair, -, hpair⟩ := exists_of_mem_left hmembers hm
      exact faultless_of_toJson hpair.2
  | deep => exact nomatch h
  | broken => exact nomatch h
termination_by sizeOf o

/-- Just the outlines without faults hold a document. -/
theorem faultless_iff : o.Faultless ↔ ∃ document, toJson o = .ok document :=
  ⟨exists_toJson, fun ⟨_, h⟩ => faultless_of_toJson h⟩

/-! ## The outline of a document -/

open Json.Outline (ofJson ofItems ofMembers)

theorem ofItems_eq_map (documents : List Json) : ofItems documents = documents.map ofJson := by
  induction documents with
  | nil => rfl
  | cons document rest ih => rw [ofItems, ih, List.map_cons]

theorem ofMembers_eq_map (ms : List (String × Json)) :
    ofMembers ms = ms.map fun pair => (.ok pair.1, ofJson pair.2) := by
  induction ms with
  | nil => rfl
  | cons pair rest ih => rw [ofMembers, ih, List.map_cons]

/-- The outline of a document has no faults. -/
theorem faultless_ofJson (document : Json) : (ofJson document).Faultless := by
  cases document with
  | null => exact .null
  | bool b => exact .bool b
  | number n => exact .number n
  | string s => exact .string s
  | array documents =>
    rw [ofJson, ofItems_eq_map]
    refine .array (List.forall_mem_map.2 fun document hmem => ?_)
    have hlt := List.sizeOf_lt_of_mem hmem
    exact faultless_ofJson document
  | object ms =>
    rw [ofJson, ofMembers_eq_map]
    refine .object (List.forall_mem_map.2 fun pair _ => ⟨pair.1, rfl⟩)
      (List.forall_mem_map.2 fun pair hmem => ?_)
    have hlt : sizeOf pair.2 < sizeOf ms := by
      have hlt := List.sizeOf_lt_of_mem hmem
      obtain ⟨key, value⟩ := pair
      rw [Prod.mk.sizeOf_spec] at hlt
      show sizeOf value < sizeOf ms
      omega
    exact faultless_ofJson pair.2
termination_by sizeOf document

theorem forall₂_ofItems {R : Outline → Json → Prop} {documents : List Json}
    (h : ∀ document ∈ documents, R (ofJson document) document) :
    List.Forall₂ R (ofItems documents) documents := by
  rw [ofItems_eq_map]
  exact List.forall₂_map_left_iff.2 (List.forall₂_same.2 h)

theorem keyed_ofMembers {R : Outline → Json → Prop} {ms : List (String × Json)}
    (h : ∀ pair ∈ ms, R (ofJson pair.2) pair.2) : Keyed R (ofMembers ms) ms := by
  rw [ofMembers_eq_map]
  exact List.forall₂_map_left_iff.2 (List.forall₂_same.2 fun pair hmem => ⟨rfl, h pair hmem⟩)

/-- A document that an outline holds is what its own outline holds. -/
theorem toJson_ofJson (h : toJson o = .ok document) : toJson (ofJson document) = .ok document := by
  induction faultless_of_toJson h generalizing document with
  | null | bool b | number n | string s =>
    obtain rfl := Except.ok.inj h
    rfl
  | array _ ih =>
    obtain ⟨-, documents, hitems, rfl⟩ := toJson_array_eq_ok.1 h
    refine toJson_array_eq_ok.2 ⟨rfl, documents, forall₂_ofItems fun document hmem => ?_, rfl⟩
    obtain ⟨item, hitem, hdocument⟩ := exists_of_mem_left hitems.flip hmem
    exact ih item hitem hdocument
  | object _ _ ih =>
    obtain ⟨-, pairs, hmembers, rfl⟩ := toJson_object_eq_ok.1 h
    have hvalues : ∀ pair ∈ Members.ofList pairs, toJson (ofJson pair.2) = .ok pair.2 := by
      intro pair hmem
      obtain ⟨other, hother, heq⟩ := Members.exists_of_mem_ofList hmem
      obtain ⟨m, hm, -, hvalue⟩ := exists_of_mem_left hmembers.flip hother
      exact heq ▸ ih m hm hvalue
    -- No name is repeated any more, so taking names together again changes nothing.
    exact toJson_object_eq_ok.2 ⟨rfl, Members.ofList pairs,
      keyed_ofMembers hvalues,
      congrArg _ (Members.ofList_of_nodup (Members.nodup_ofList pairs)).symm⟩

/-! ## What can be passed over -/

theorem skipItems_eq_ok {items : List Outline} :
    skipItems items = .ok () ↔ ∀ item ∈ items, skip item = .ok () := by
  induction items with
  | nil => exact iff_of_true rfl fun _ h => absurd h List.not_mem_nil
  | cons item items ih =>
    rw [skipItems, List.forall_mem_cons, ← ih]
    exact bind_eq_ok.trans ⟨fun ⟨_, h⟩ => h, fun h => ⟨(), h⟩⟩

theorem skipMembers_eq_ok {ms : List (Except Json.Fault String × Outline)} :
    skipMembers ms = .ok () ↔ ∀ m ∈ ms, skip m.2 = .ok () := by
  induction ms with
  | nil => exact iff_of_true rfl fun _ h => absurd h List.not_mem_nil
  | cons m ms ih =>
    rw [skipMembers, List.forall_mem_cons, ← ih]
    exact bind_eq_ok.trans ⟨fun ⟨_, h⟩ => h, fun h => ⟨(), h⟩⟩

theorem skip_array {items : List Outline} (h : ∀ item ∈ items, skip item = .ok ()) :
    skip (.array items .closed) = .ok () := by
  rw [skip, skipItems_eq_ok.2 h]
  rfl

theorem skip_object {ms : List (Except Json.Fault String × Outline)}
    (h : ∀ m ∈ ms, skip m.2 = .ok ()) : skip (.object ms (.plain .closed)) = .ok () := by
  rw [skip, skipMembers_eq_ok.2 h]
  rfl

theorem skip_of_faultless (h : o.Faultless) : skip o = .ok () := by
  induction h with
  | null | bool b | number n | string s => rfl
  | array _ ih => exact skip_array ih
  | object _ _ ih => exact skip_object ih

end Document

end BoundView
