import BoundView.Model.Patch
import BoundView.Proofs.Document.Skipping
import BoundView.Schema.Spec
import Mathlib

/-!
# Decoders of text

A text that is decoded as a patch or as a property spec begins with a whole value; what stands
behind it is not looked at.  Main statement: the text is a document that is decoded to the same just
where only white space is left behind a value without faults.
-/

namespace BoundView

open Document
open Json (Outline)
open Outcome (bind_eq_ok ite_eq_ok)

/-! ## Patches -/

theorem Patch.skip_of_read {o : Outline} {patch : Patch} (h : read .text o = .ok patch) :
    skip o = .ok () := by
  obtain ⟨draft, hdraft, -⟩ := bind_eq_ok.1 h
  refine skip_of_readRecord (fun field part r r' => ?_) hdraft
  exact imp_of_ite (skip_of_bind skip_of_readChoice)
    (imp_of_ite (skip_of_bind skip_of_toText) (skip_of_bind (skip_of_optional skip_of_toJson)))

theorem Patch.agree_read : Agree (read .text) (read .value) := by
  intro o document patch hdocument h
  obtain ⟨draft, hdraft, h⟩ := bind_eq_ok.1 h
  refine bind_eq_ok.2 ⟨draft, readRecord_agrees ?_ hdocument hdraft, h⟩
  intro field part part' inner r r' hpart hpart'
  rw [hpart']
  exact ite_imp_ite (bind_imp_bind (agree_readChoice _ hpart))
    (ite_imp_ite (bind_imp_bind (agree_toText hpart))
      (bind_imp_bind (agree_toJson.optional hpart)))

/-! ## Property specs -/

theorem PropertySpec.skip_of_read {o : Outline} {spec : PropertySpec}
    (h : read .text o = .ok spec) : skip o = .ok () := by
  rw [read] at h
  obtain ⟨raw, hraw, -⟩ := bind_eq_ok.1 h
  refine skip_of_readRecord (fun field part r r' => ?_) hraw
  clear h hraw
  -- One step for each field, in the order in which the reader tells them apart.
  refine imp_of_ite (skip_of_bind (skip_of_optional skip_of_toText)) ?_
  refine imp_of_ite (skip_of_bind (skip_of_optional skip_of_toBool)) ?_
  refine imp_of_ite (skip_of_bind (skip_of_optional skip_of_toJson)) ?_
  refine imp_of_ite (skip_of_bind (skip_of_optional skip_of_toFloat)) ?_
  refine imp_of_ite (skip_of_bind (skip_of_optional skip_of_toFloat)) ?_
  refine imp_of_ite (skip_of_bind (skip_of_optional skip_of_toText)) ?_
  refine imp_of_ite (skip_of_bind (skip_of_optional skip_of_toText)) ?_
  refine imp_of_ite (skip_of_bind (skip_of_readMap fun inner spec hinner => ?_)) ?_
  · have hlt : sizeOf inner.1 < sizeOf o := Nat.lt_trans inner.2 part.2
    exact skip_of_read hinner
  · intro h
    rcases ite_eq_ok.1 h with ⟨hnull, -⟩ | ⟨-, h⟩
    · exact skip_of_isNull hnull
    · obtain ⟨items, hitems, -⟩ := bind_eq_ok.1 h
      have hlt : sizeOf part.1 < sizeOf o := part.2
      exact skip_of_read hitems
termination_by sizeOf o

theorem PropertySpec.read_agrees {o : Outline} {document : Json} {spec : PropertySpec}
    (hdocument : toJson o = .ok document) (h : read .text o = .ok spec) :
    read .value (Outline.ofJson document) = .ok spec := by
  rw [read] at h ⊢
  obtain ⟨raw, hraw, h⟩ := bind_eq_ok.1 h
  refine bind_eq_ok.2 ⟨raw, readRecord_agrees ?_ hdocument hraw, h⟩
  clear h hraw
  intro field part part' inner r r' hpart hpart'
  rw [hpart']
  -- Both readers tell the fields apart alike; only properties and items hold further specs.
  refine ite_imp_ite (bind_imp_bind (agree_toText.optional hpart)) ?_
  refine ite_imp_ite (bind_imp_bind (agree_toBool.optional hpart)) ?_
  refine ite_imp_ite (bind_imp_bind (agree_toJson.optional hpart)) ?_
  refine ite_imp_ite (bind_imp_bind (agree_toFloat.optional hpart)) ?_
  refine ite_imp_ite (bind_imp_bind (agree_toFloat.optional hpart)) ?_
  refine ite_imp_ite (bind_imp_bind (agree_toText.optional hpart)) ?_
  refine ite_imp_ite (bind_imp_bind (agree_toText.optional hpart)) ?_
  refine ite_imp_ite (bind_imp_bind (readMap_agrees
    (fun property property' value spec hvalue heq hspec => ?_) hpart)) ?_
  · have hlt : sizeOf property.1 < sizeOf o := Nat.lt_trans property.2 part.2
    rw [heq]
    exact read_agrees hvalue hspec
  · rw [isNull_ofJson hpart]
    refine ite_imp_ite id (bind_imp_bind fun {items} hitems => ?_)
    have hlt : sizeOf part.1 < sizeOf o := part.2
    exact read_agrees hpart hitems
termination_by sizeOf o

/-! ## Texts -/

theorem Json.parse_eq_ok {text : String} {document : Json} :
    parse text = .ok document ↔ toJson (Outline.ofText text).1 = .ok document
      ∧ Outline.skipSpace (Outline.ofText text).2 = [] := by
  unfold parse
  dsimp only
  rw [bind_eq_ok]
  constructor
  · rintro ⟨value, hvalue, h⟩
    rcases ite_eq_ok.1 h with ⟨hspace, h⟩ | ⟨-, h⟩
    · exact ⟨Except.ok.inj h ▸ hvalue, List.isEmpty_iff.1 hspace⟩
    · exact nomatch h
  · rintro ⟨hvalue, hspace⟩
    refine ⟨document, hvalue, ?_⟩
    rw [hspace]
    rfl

namespace Document

/-- The whole text is one document, and it is decoded to the same. -/
def DecodedAlike {α : Type} (ofDocument : Json → Except Problem α) (text : String) (x : α) : Prop :=
  ∃ document, Json.parse text = .ok document ∧ ofDocument document = .ok x

/-- Nothing in a value is faulty, and nothing but white space is behind it. -/
structure Whole (text : String) : Prop where
  faultless : (Outline.ofText text).1.Faultless
  blank : Outline.skipSpace (Outline.ofText text).2 = []

theorem decodedAlike_iff {α : Type} {read : Origin → Outline → Except Problem α}
    (hread : Agree (read .text) (read .value)) {text : String} {x : α}
    (h : read .text (Outline.ofText text).1 = .ok x) :
    DecodedAlike (fun document => read .value (Outline.ofJson document)) text x ↔ Whole text := by
  constructor
  · rintro ⟨document, hdocument, -⟩
    obtain ⟨hdocument, hblank⟩ := Json.parse_eq_ok.1 hdocument
    exact ⟨faultless_iff.2 ⟨document, hdocument⟩, hblank⟩
  · rintro ⟨hfaultless, hblank⟩
    obtain ⟨document, hdocument⟩ := faultless_iff.1 hfaultless
    exact ⟨document, Json.parse_eq_ok.2 ⟨hdocument, hblank⟩, hread hdocument h⟩

end Document

/-- A text that is decoded begins with a whole value.  It is a document that is decoded to the same
just where nothing but white space is behind that value and nothing in it is faulty, not even in the
members that are passed over. -/
theorem ofText_decodedAlike_iff (text : String) :
    (∀ patch, Patch.ofText text = .ok patch → skip (Outline.ofText text).1 = .ok ()
      ∧ (DecodedAlike Patch.ofJson text patch ↔ Whole text))
    ∧ ∀ spec, PropertySpec.ofText text = .ok spec → skip (Outline.ofText text).1 = .ok ()
      ∧ (DecodedAlike PropertySpec.ofJson text spec ↔ Whole text) :=
  ⟨fun _ h => ⟨Patch.skip_of_read h, decodedAlike_iff Patch.agree_read h⟩,
    fun _ h => ⟨PropertySpec.skip_of_read h, decodedAlike_iff PropertySpec.read_agrees h⟩⟩

namespace Removal

def patch : Patch := ⟨.remove, "/a", none⟩

/-- The patch, with white space around it. -/
def padded : String := " \x7b\"op\":\"remove\",\"path\":\"/a\"\x7d\n"

/-- The patch, with something else behind it. -/
def overlong : String := "\x7b\"op\":\"remove\",\"path\":\"/a\"\x7d x"

def spec : String := "\x7b\"type\":\"string\"\x7d"

def outline : Outline :=
  .object [(.ok "op", .string (.ok "remove")), (.ok "path", .string (.ok "/a"))] (.plain .closed)

def specOutline : Outline := .object [(.ok "type", .string (.ok "string"))] (.plain .closed)

theorem ofText_padded : Outline.ofText padded = (outline, ['\n']) := by
  cbv

theorem ofText_overlong : Outline.ofText overlong = (outline, [' ', 'x']) := by
  cbv

theorem ofText_spec : Outline.ofText spec = (specOutline, []) := by
  cbv

theorem read_outline : Patch.read .text outline = .ok patch := rfl

theorem read_specOutline :
    PropertySpec.read .text specOutline = .ok (.mk true none .string) := by
  rw [PropertySpec.read]
  rfl

theorem whole_padded : Whole padded where
  faultless := by
    rw [ofText_padded]
    exact faultless_of_toJson rfl
  blank := by
    rw [ofText_padded]
    rfl

theorem whole_spec : Whole spec where
  faultless := by
    rw [ofText_spec]
    exact faultless_of_toJson rfl
  blank := by
    rw [ofText_spec]
    rfl

theorem accepts_padded : Patch.ofText padded = .ok patch := by
  rw [Patch.ofText, ofText_padded]
  exact read_outline

theorem accepts_overlong : Patch.ofText overlong = .ok patch := by
  rw [Patch.ofText, ofText_overlong]
  exact read_outline

theorem accepts_spec : PropertySpec.ofText spec = .ok (.mk true none .string) := by
  rw [PropertySpec.ofText, ofText_spec]
  exact read_specOutline

theorem decodedAlike_padded : DecodedAlike Patch.ofJson padded patch
    ∧ DecodedAlike PropertySpec.ofJson spec (.mk true none .string) :=
  ⟨((ofText_decodedAlike_iff padded).1 patch accepts_padded).2.2 whole_padded,
    ((ofText_decodedAlike_iff spec).2 _ accepts_spec).2.2 whole_spec⟩

/-- What is behind a patch is not looked at, so a text is accepted that is no document. -/
theorem not_decodedAlike_overlong :
    Patch.ofText overlong = .ok patch ∧ ¬DecodedAlike Patch.ofJson overlong patch := by
  refine ⟨accepts_overlong, fun ⟨document, hdocument, _⟩ => ?_⟩
  obtain ⟨-, hblank⟩ := Json.parse_eq_ok.1 hdocument
  rw [ofText_overlong] at hblank
  exact nomatch hblank

end Removal

end BoundView
