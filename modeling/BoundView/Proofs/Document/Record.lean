import BoundView.Document.Record
import BoundView.Proofs.Members
import BoundView.Proofs.Outcome

/-!
# What is read of records and maps

Whatever holds of a record before its members are read, and is kept by the reader of each field,
holds of the record that is read.  A map has no name twice, and each value in it was read.
-/

namespace BoundView

open Outcome (bind_eq_ok map_eq_ok mapError_eq_ok)

namespace Members

variable {α : Type}

theorem nodup_ofList (pairs : List (String × α)) : ((ofList pairs).map Prod.fst).Nodup := by
  suffices h : ∀ ms : Members α, (ms.map Prod.fst).Nodup →
      ((pairs.foldl (fun ms pair => set pair.1 pair.2 ms) ms).map Prod.fst).Nodup from
    h [] List.nodup_nil
  induction pairs with
  | nil => exact fun ms h => h
  | cons pair rest ih => exact fun ms h => ih _ (nodup_names_set h)

theorem exists_of_mem_ofList {pairs : List (String × α)} {pair : String × α}
    (h : pair ∈ ofList pairs) : ∃ other ∈ pairs, other.2 = pair.2 := by
  suffices hfold : ∀ ms : Members α, pair ∈ pairs.foldl (fun ms pair => set pair.1 pair.2 ms) ms →
      pair ∈ ms ∨ ∃ other ∈ pairs, other.2 = pair.2 from
    (hfold [] h).resolve_left List.not_mem_nil
  clear h
  induction pairs with
  | nil => exact fun ms h => .inl h
  | cons first rest ih =>
    intro ms h
    rcases ih _ h with h | ⟨other, hother, heq⟩
    · rcases mem_set h with h | heq
      · exact .inl h
      · exact .inr ⟨first, List.mem_cons_self, heq.symm⟩
    · exact .inr ⟨other, List.mem_cons_of_mem first hother, heq⟩

end Members

namespace Document

open Json (Outline Ending ObjectEnd)

variable {ρ α : Type} {o : Outline} {shape : Shape} {set : Field → Part o → ρ → Except Problem ρ}
  {p : ρ → Prop}

theorem unexpected_ne_ok {expected : String} {a : α} : unexpected expected o ≠ .ok a := by
  intro h
  obtain ⟨found, -, h⟩ := bind_eq_ok.1 h
  cases h

theorem readMembers_keeps (hset : ∀ field part r r', p r → set field part r = .ok r' → p r')
    {ending : ObjectEnd} {members : List (Except Json.Fault String × Part o)} {seen : List String}
    {r r' : ρ} (hr : p r) (h : readMembers shape set ending members seen r = .ok r') : p r' := by
  induction members generalizing seen r with
  | nil =>
    unfold readMembers at h
    dsimp only at h
    -- Only a repeated key is refused at once; the rest ends at the fields that are missing.
    iterate 3 split at h
    · cases h
    all_goals
      obtain ⟨-, -, h⟩ := bind_eq_ok.1 h
      split at h
      · cases h
      · exact Except.ok.inj h ▸ hr
  | cons member rest ih =>
    rw [readMembers] at h
    obtain ⟨key, -, h⟩ := bind_eq_ok.1 h
    split at h
    · obtain ⟨-, -, h⟩ := bind_eq_ok.1 h
      exact ih hr h
    · split at h
      · cases h
      · obtain ⟨r₁, hr₁, h⟩ := bind_eq_ok.1 h
        exact ih (hset _ _ _ _ hr (mapError_eq_ok.1 hr₁)) h

theorem readFields_keeps (hset : ∀ field part r r', p r → set field part r = .ok r' → p r')
    {origin : Origin} {ending : Ending} {index : Nat} {fields : List Field} {parts : List (Part o)}
    {r r' : ρ} (hr : p r)
    (h : readFields origin shape set ending index fields parts r = .ok r') : p r' := by
  induction fields generalizing index parts r with
  | nil =>
    rw [readFields] at h
    obtain ⟨-, -, h⟩ := bind_eq_ok.1 h
    exact Except.ok.inj h ▸ hr
  | cons field fields ih =>
    cases parts with
    | nil =>
      rw [readFields] at h
      obtain ⟨-, -, h⟩ := bind_eq_ok.1 h
      split at h
      · exact nomatch h
      · exact ih hr h
    | cons part parts =>
      rw [readFields] at h
      obtain ⟨r₁, hr₁, h⟩ := bind_eq_ok.1 h
      exact ih (hset _ _ _ _ hr (mapError_eq_ok.1 hr₁)) h

theorem readRecord_keeps (hset : ∀ field part r r', p r → set field part r = .ok r' → p r')
    {origin : Origin} {r r' : ρ} (hr : p r)
    (h : readRecord origin shape r o set = .ok r') : p r' := by
  unfold readRecord at h
  split at h
  · exact readMembers_keeps hset hr h
  · exact readFields_keeps hset hr h
  · exact nomatch h
  · exact absurd h unexpected_ne_ok

theorem readEntries_eq_ok {read : Part o → Except Problem α} {ending : ObjectEnd}
    {members : List (Except Json.Fault String × Part o)} {pairs : List (String × α)}
    (h : readEntries read ending members = .ok pairs) :
    ∀ pair ∈ pairs, ∃ part, read part = .ok pair.2 := by
  induction members generalizing pairs with
  | nil =>
    rw [readEntries] at h
    obtain ⟨-, -, h⟩ := bind_eq_ok.1 h
    obtain rfl := Except.ok.inj h
    exact fun _ hmem => absurd hmem List.not_mem_nil
  | cons member rest ih =>
    rw [readEntries] at h
    obtain ⟨key, -, h⟩ := bind_eq_ok.1 h
    obtain ⟨value, hvalue, h⟩ := bind_eq_ok.1 h
    obtain ⟨others, hothers, h⟩ := bind_eq_ok.1 h
    obtain rfl := Except.ok.inj h
    intro pair hmem
    rcases List.mem_cons.1 hmem with rfl | hmem
    · exact ⟨_, mapError_eq_ok.1 hvalue⟩
    · exact ih hothers pair hmem

theorem readMap_eq_ok {read : Part o → Except Problem α} {ms : Members α}
    (h : readMap o read = .ok ms) :
    (ms.map Prod.fst).Nodup ∧ ∀ pair ∈ ms, ∃ part, read part = .ok pair.2 := by
  unfold readMap at h
  split at h
  · obtain ⟨pairs, hpairs, rfl⟩ := map_eq_ok.1 h
    refine ⟨Members.nodup_ofList pairs, fun pair hmem => ?_⟩
    obtain ⟨other, hother, heq⟩ := Members.exists_of_mem_ofList hmem
    exact heq ▸ readEntries_eq_ok hpairs other hother
  · exact nomatch h
  · exact absurd h unexpected_ne_ok

end Document

end BoundView
