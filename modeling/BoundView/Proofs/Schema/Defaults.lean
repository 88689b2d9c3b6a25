import BoundView.Proofs.Schema.Rounds
import BoundView.Proofs.Schema.Simulation

/-!
# Defaults

A compiled schema has checked each default where it is declared, with an empty path.  Main
statement: no default fails anywhere else, however deep inside of others it is expanded.  With every
nesting that is allowed more defaults come to an end, or from then on no others do; so as many
nestings as there are types are enough for all that ever end.
-/

namespace BoundView.Schema

variable {s : Schema} {depth : Nat} {value out : Json} {id : TypeId} {path : Path}

/-! ## Expansions that come to an end -/

theorem expandDefault_moved (h : s.expandDefault depth value id path = .ok out) (path' : Path) :
    s.expandDefault depth value id path' = .ok out := by
  have hfollows : ChecksAlike False Eq _ _ := expandDefault_follows (.refl s) depth value
  exact (hfollows (Eq.refl id) path path').ok out h

/-- What is stored for a value is the same wherever it stands. -/
theorem instantiate_moved (h : s.instantiate id value path = .ok out) (path' : Path) :
    s.instantiate id value path' = .ok out := by
  -- A check at the top is an expansion with one nesting more than are allowed inside.
  have hexpand : s.expandDefault (s.size + 1) value id path = .ok out := h
  exact expandDefault_moved hexpand path'

/-- Where all defaults that are expanded to something are expanded to the same, a check that
succeeds comes to the same. -/
theorem check_eq_ok_of_expand {expand expand' : Json → Check}
    (hexpand : ∀ id value path path' out, s.presence id = .defaulted value →
      expand value id path = .ok out → expand' value id path' = .ok out)
    (h : s.check expand value id path = .ok out) : s.check expand' value id path = .ok out := by
  have halike : ExpandsAlike False Eq s expand expand' := by
    rintro id id' value rfl hpresence path path'
    exact ⟨fun out => hexpand id value path path' out hpresence, fun hfalse => hfalse.elim⟩
  exact (check_follows (.refl s) halike value rfl path path).ok out h

/-- A default that comes to an end comes to the same with more nestings. -/
theorem expandDefault_succ (h : s.expandDefault depth value id path = .ok out) :
    s.expandDefault (depth + 1) value id path = .ok out := by
  induction depth generalizing value id path out with
  | zero => exact nomatch h
  | succ depth ih =>
    refine check_eq_ok_of_expand (fun id value path path' out _ hout => ?_) h
    exact ih (expandDefault_moved hout path')

theorem expandDefault_mono {depth' : Nat} (hle : depth ≤ depth')
    (h : s.expandDefault depth value id path = .ok out) :
    s.expandDefault depth' value id path = .ok out := by
  induction hle with
  | refl => exact h
  | step _ ih => exact expandDefault_succ ih

theorem expandDefault_unique {depth' : Nat} {out' : Json}
    (h : s.expandDefault depth value id path = .ok out)
    (h' : s.expandDefault depth' value id path = .ok out') : out = out' := by
  have hmax := expandDefault_mono (Nat.le_max_left depth depth') h
  have hmax' := expandDefault_mono (Nat.le_max_right depth depth') h'
  exact Except.ok.inj (hmax.symm.trans hmax')

open Classical in
/-- The types whose defaults come to an end, with so many expansions nested. -/
noncomputable def ended (s : Schema) (depth : Nat) : Finset Nat :=
  (Finset.range s.size).filter fun id =>
    ∃ value out, s.presence id = .defaulted value ∧ s.expandDefault depth value id [] = .ok out

theorem lt_size_of_defaulted (h : s.presence id = .defaulted value) : id < s.size := by
  by_contra hle
  rw [presence, descriptor_of_le s id (Nat.le_of_not_lt hle)] at h
  exact nomatch h

theorem mem_ended : id ∈ s.ended depth ↔ ∃ value out,
    s.presence id = .defaulted value ∧ s.expandDefault depth value id [] = .ok out := by
  classical
  rw [ended, Finset.mem_filter, Finset.mem_range]
  refine and_iff_right_of_imp ?_
  rintro ⟨value, out, hpresence, -⟩
  exact lt_size_of_defaulted hpresence

theorem ended_subset (depth : Nat) : s.ended depth ⊆ Finset.range s.size := by
  intro id hid
  obtain ⟨value, -, hpresence, -⟩ := mem_ended.1 hid
  exact Finset.mem_range.2 (lt_size_of_defaulted hpresence)

theorem ended_succ (depth : Nat) : s.ended depth ⊆ s.ended (depth + 1) := by
  intro id hid
  obtain ⟨value, out, hpresence, hout⟩ := mem_ended.1 hid
  exact mem_ended.2 ⟨value, out, hpresence, expandDefault_succ hout⟩

/-- Once no more defaults come to an end, none of the others ever does. -/
theorem ended_stops (h : s.ended (depth + 1) ⊆ s.ended depth) :
    s.ended (depth + 2) ⊆ s.ended (depth + 1) := by
  intro id hid
  obtain ⟨value, out, hpresence, hout⟩ := mem_ended.1 hid
  refine mem_ended.2 ⟨value, out, hpresence, ?_⟩
  refine check_eq_ok_of_expand (fun part default path path' outPart hpart hdefault => ?_) hout
  -- What the part is expanded to one nesting deeper it is expanded to here as well.
  have hmem : part ∈ s.ended (depth + 1) :=
    mem_ended.2 ⟨default, outPart, hpart, expandDefault_moved hdefault []⟩
  obtain ⟨default', out', hpart', hdefault'⟩ := mem_ended.1 (h hmem)
  obtain rfl := Presence.defaulted.inj (hpart.symm.trans hpart')
  obtain rfl := expandDefault_unique hdefault (expandDefault_moved hdefault' path)
  exact expandDefault_moved hdefault' path'

/-- A default that ever comes to an end does so with as many nestings as there are types. -/
theorem expandDefault_size (hpresence : s.presence id = .defaulted value)
    (h : s.expandDefault depth value id path = .ok out) :
    s.expandDefault s.size value id path = .ok out := by
  have hall : s.ended depth ⊆ s.ended s.size :=
    subset_of_rounds ended_succ ended_subset (fun depth => ended_stops) depth
  have hmem : id ∈ s.ended depth :=
    mem_ended.2 ⟨value, out, hpresence, expandDefault_moved h []⟩
  obtain ⟨value', out', hpresence', hout⟩ := mem_ended.1 (hall hmem)
  obtain rfl := Presence.defaulted.inj (hpresence.symm.trans hpresence')
  have hout := expandDefault_moved hout path
  obtain rfl := expandDefault_unique h hout
  exact hout

/-! ## Compiled schemas -/

/-- A schema in which every default comes to an end. -/
def Expandable (s : Schema) : Prop :=
  ∀ id value, s.presence id = .defaulted value →
    ∀ path, ∃ out, s.expandDefault s.size value id path = .ok out

theorem expandable_of_checkDefaults (h : s.checkDefaults (List.range s.size) = .ok ()) :
    s.Expandable := by
  intro id value hpresence path
  have hid := List.mem_range.2 (lt_size_of_defaulted hpresence)
  obtain ⟨out, hout⟩ := checkDefaults_eq_ok.1 h id hid value hpresence
  replace hout : s.expandDefault (s.size + 1) value id [] = .ok out := hout
  exact ⟨out, expandDefault_moved (expandDefault_size hpresence hout) path⟩

theorem Compiled.expandable (h : s.Compiled) : s.Expandable := by
  obtain ⟨spec, -, h⟩ := h
  obtain ⟨linked, -, hchecked⟩ := Outcome.bind_eq_ok.1 h
  obtain ⟨rfl, -, -, hdefaults⟩ := checked_eq_ok.1 hchecked
  exact expandable_of_checkDefaults hdefaults

end BoundView.Schema
