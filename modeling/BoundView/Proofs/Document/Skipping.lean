import BoundView.Proofs.Document.Agreement

/-!
# What is read is a whole value

Whatever a reader of text accepts could have been passed over: it is a value up to its end, however
little of it was looked at.
-/

namespace BoundView.Document

open Json (Outline Ending ObjectEnd)
open Outcome (bind_eq_ok map_eq_ok mapError_eq_ok ite_eq_ok)

variable {ρ α : Type} {o : Outline}

/-! ## Values -/

theorem skip_of_toText {s : String} (h : toText o = .ok s) : skip o = .ok () := by
  cases o with
  | string => rfl
  | _ => exact absurd h unexpected_ne_ok

theorem skip_of_toBool {b : Bool} (h : toBool o = .ok b) : skip o = .ok () := by
  cases o with
  | bool => rfl
  | _ => exact absurd h unexpected_ne_ok

theorem skip_of_toFloat {x : Float} (h : toFloat o = .ok x) : skip o = .ok () := by
  cases o with
  | number => rfl
  | _ => exact absurd h unexpected_ne_ok

theorem skip_of_toJson {document : Json} (h : toJson o = .ok document) : skip o = .ok () :=
  skip_of_faultless (faultless_of_toJson h)

theorem skip_of_isNull (h : o.isNull = true) : skip o = .ok () := by
  cases o with
  | null => rfl
  | _ => exact nomatch h

theorem skip_of_optional {read : Outline → Except Problem α} {x : Option α}
    (hread : ∀ {a}, read o = .ok a → skip o = .ok ()) (h : optional read o = .ok x) :
    skip o = .ok () := by
  cases hnull : o.isNull with
  | true => exact skip_of_isNull hnull
  | false =>
    rw [optional_of_not_isNull hnull] at h
    obtain ⟨a, ha, -⟩ := map_eq_ok.1 h
    exact hread ha

theorem skip_of_readChoice {choices : List (String × α)} {x : α}
    (h : readChoice .text choices o = .ok x) : skip o = .ok () := by
  cases o with
  | string => rfl
  | object ms ending =>
    obtain ⟨rfl, name, rfl, -⟩ := readChoice_object_eq_ok h
    rfl
  | broken shape faults => cases shape <;> exact nomatch h
  | deep inner => cases inner <;> exact nomatch h
  | _ => exact nomatch h

theorem skip_of_memberParts {ms : List (Except Json.Fault String × Outline)} {ending : ObjectEnd}
    (h : (∀ m ∈ memberParts ms ending, skip m.2.1 = .ok ()) ∧ ending = .plain .closed) :
    skip (.object ms ending) = .ok () := by
  obtain ⟨hmembers, rfl⟩ := h
  refine skip_object fun m hm => ?_
  rw [← map_memberParts ms (.plain .closed)] at hm
  obtain ⟨member, hmember, rfl⟩ := List.mem_map.1 hm
  exact hmembers member hmember

theorem skip_of_itemParts {items : List Outline} {ending : Ending}
    (h : (∀ part ∈ itemParts items ending, skip part.1 = .ok ()) ∧ ending = .closed) :
    skip (.array items ending) = .ok () := by
  obtain ⟨hitems, rfl⟩ := h
  refine skip_array fun item hitem => ?_
  rw [← map_itemParts items .closed] at hitem
  obtain ⟨part, hpart, rfl⟩ := List.mem_map.1 hitem
  exact hitems part hpart

theorem skip_of_readMap {read : Part o → Except Problem α} {ms : Members α}
    (hread : ∀ part a, read part = .ok a → skip part.1 = .ok ()) (h : readMap o read = .ok ms) :
    skip o = .ok () := by
  have hentries : ∀ (ending : ObjectEnd) (members : List (Except Json.Fault String × Part o))
      (xs : List (String × α)), readEntries read ending members = .ok xs →
      (∀ m ∈ members, skip m.2.1 = .ok ()) ∧ ending = .plain .closed := by
    intro ending members
    induction members with
    | nil =>
      intro xs h
      obtain ⟨⟨⟩, hend, -⟩ := bind_eq_ok.1 h
      exact ⟨fun _ hmem => absurd hmem List.not_mem_nil, endObject_eq_ok.1 hend⟩
    | cons m rest ih =>
      intro xs h
      obtain ⟨key, -, h⟩ := bind_eq_ok.1 h
      obtain ⟨value, hvalue, h⟩ := bind_eq_ok.1 h
      obtain ⟨others, hothers, -⟩ := bind_eq_ok.1 h
      have hrest := ih others hothers
      exact ⟨List.forall_mem_cons.2 ⟨hread _ _ (mapError_eq_ok.1 hvalue), hrest.1⟩, hrest.2⟩
  unfold readMap at h
  split at h
  · obtain ⟨xs, hxs, -⟩ := map_eq_ok.1 h
    exact skip_of_memberParts (hentries _ _ xs hxs)
  · exact nomatch h
  · exact absurd h unexpected_ne_ok

theorem skip_of_readMembers {shape : Shape} {set : Field → Part o → ρ → Except Problem ρ}
    {ending : ObjectEnd} {members : List (Except Json.Fault String × Part o)} {seen : List String}
    {r r' : ρ} (hset : ∀ field part r r', set field part r = .ok r' → skip part.1 = .ok ())
    (h : readMembers shape set ending members seen r = .ok r') :
    (∀ m ∈ members, skip m.2.1 = .ok ()) ∧ ending = .plain .closed := by
  induction members generalizing seen r with
  | nil =>
    exact ⟨fun _ hmem => absurd hmem List.not_mem_nil, (readMembers_nil_eq_ok.1 h).1⟩
  | cons m rest ih =>
    obtain ⟨name, -, ⟨-, hskip, h⟩ | ⟨field, r₁, -, -, hr, h⟩⟩ := readMembers_cons_eq_ok.1 h
    · exact ⟨List.forall_mem_cons.2 ⟨hskip, (ih h).1⟩, (ih h).2⟩
    · exact ⟨List.forall_mem_cons.2 ⟨hset _ _ _ _ hr, (ih h).1⟩, (ih h).2⟩

theorem skip_of_readFields {shape : Shape} {set : Field → Part o → ρ → Except Problem ρ}
    {ending : Ending} {index : Nat} {fields : List Field} {parts : List (Part o)} {r r' : ρ}
    (hset : ∀ field part r r', set field part r = .ok r' → skip part.1 = .ok ())
    (h : readFields .text shape set ending index fields parts r = .ok r') :
    (∀ part ∈ parts, skip part.1 = .ok ()) ∧ ending = .closed := by
  -- A part behind the last field is refused in text, so each part is that of a field.
  induction fields generalizing index parts r with
  | nil =>
    obtain ⟨⟨⟩, hend, -⟩ := bind_eq_ok.1 h
    cases parts with
    | nil =>
      refine ⟨fun _ hmem => absurd hmem List.not_mem_nil, ?_⟩
      cases ending with
      | closed => rfl
      | _ => cases hend
    | cons => cases hend
  | cons field fields ih =>
    cases parts with
    | nil =>
      rw [readFields] at h
      obtain ⟨⟨⟩, -, h⟩ := bind_eq_ok.1 h
      split at h
      · cases h
      · exact ih h
    | cons part parts =>
      obtain ⟨r₁, hr, h⟩ := bind_eq_ok.1 h
      exact ⟨List.forall_mem_cons.2 ⟨hset _ _ _ _ (mapError_eq_ok.1 hr), (ih h).1⟩, (ih h).2⟩

theorem skip_of_readRecord {shape : Shape} {set : Field → Part o → ρ → Except Problem ρ} {r r' : ρ}
    (hset : ∀ field part r r', set field part r = .ok r' → skip part.1 = .ok ())
    (h : readRecord .text shape r o set = .ok r') : skip o = .ok () := by
  unfold readRecord at h
  split at h
  · exact skip_of_memberParts (skip_of_readMembers hset h)
  · exact skip_of_itemParts (skip_of_readFields hset h)
  · exact nomatch h
  · exact absurd h unexpected_ne_ok

/-! ## Fields -/

theorem imp_of_ite {c : Prop} [Decidable c] {x y : Except Problem ρ} {r : ρ} {q : Prop}
    (hx : x = .ok r → q) (hy : y = .ok r → q) (h : (if c then x else y) = .ok r) : q :=
  (ite_eq_ok.1 h).elim (fun h => hx h.2) fun h => hy h.2

theorem ite_imp_ite {c : Prop} [Decidable c] {x y x' y' : Except Problem ρ} {r : ρ}
    (hx : x = .ok r → x' = .ok r) (hy : y = .ok r → y' = .ok r)
    (h : (if c then x else y) = .ok r) : (if c then x' else y') = .ok r :=
  ite_eq_ok.2 ((ite_eq_ok.1 h).imp (fun h => ⟨h.1, hx h.2⟩) fun h => ⟨h.1, hy h.2⟩)

theorem skip_of_bind {x : Except Problem α} {f : α → Except Problem ρ} {r : ρ}
    (hx : ∀ {a}, x = .ok a → skip o = .ok ()) (h : (x >>= f) = .ok r) : skip o = .ok () := by
  obtain ⟨a, ha, -⟩ := bind_eq_ok.1 h
  exact hx ha

theorem bind_imp_bind {x x' : Except Problem α} {f : α → Except Problem ρ} {r : ρ}
    (hx : ∀ {a}, x = .ok a → x' = .ok a) (h : (x >>= f) = .ok r) : (x' >>= f) = .ok r := by
  obtain ⟨a, ha, h⟩ := bind_eq_ok.1 h
  exact bind_eq_ok.2 ⟨a, hx ha, h⟩

end BoundView.Document
