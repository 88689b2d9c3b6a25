import BoundView.Proofs.View.Regrowth
import BoundView.Proofs.View.Rendering

/-!
# Boundaries that are rendered again

A boundary that is rendered again is fresh afterwards.  It keeps the children whose scopes are near
to what it asks for, drops the others with all that is beneath them, and leaves every other boundary
as it was.
-/

namespace BoundView

open Stage
open ViewNode (ShownAs)

namespace Stage

variable {model : ModelId} {root id : BoundaryId} {node : ViewNode} {stale others : List BoundaryId}
  {s s₁ : Stage} {b : Boundary} {ids : List BoundaryId}

/-- The stage after the body of a boundary was run again, before anything is dropped. -/
structure Redone (model : ModelId) (s s₁ : Stage) (id : BoundaryId) (b : Boundary)
    (ids : List BoundaryId) : Prop where
  bounded : s.Bounded
  boundary? : s.boundary? id = some b
  adds : Adds model (s.opened id) s₁ (some id) ids
  origin : ∀ c ∈ ids, c ∈ b.children
    ∨ s.lastId < c ∧ ∃ p, s₁.place? c = some p ∧ p.parent? = some id

/-- The links of the boundaries of a sound stage. -/
theorem Sound.linked (h : Sound model s root node stale) : s.Linked :=
  ⟨h.le_lastId, fun id b c hb hc => (h.standing id b hb).children c hc, h.listed⟩

namespace Redone

theorem regrown (h : Redone model s s₁ id b ids) (hsound : Sound model s root node stale) :
    Regrown s s₁ id b ids :=
  ⟨hsound.linked, h.boundary?, h.adds.sprouts, h.origin⟩

theorem place?_eq_some (h : Redone model s s₁ id b ids) {c : BoundaryId} {p : Place}
    (hp : s.place? c = some p) : s₁.place? c = some p :=
  h.adds.place?_eq_some (bounded_opened h.bounded) (place?_opened.trans hp)

/-- Every other boundary that is there is an old one as it was, or a new one. -/
theorem old_or_joined (h : Redone model s s₁ id b ids) {c : BoundaryId} {b' : Boundary}
    (hne : c ≠ id) (hb' : s₁.boundary? c = some b') :
    (s.boundary? c = some b' ∧ s₁.dependencies c = s.dependencies c)
      ∨ s.lastId < c ∧ Joined model (s.opened id) s₁ (some id) ids c b' := by
  by_cases hc : c ≤ s.lastId
  · rw [h.adds.boundary?_eq c hc, opened, boundary?_modifyBoundary_of_ne _ hne] at hb'
    exact .inl ⟨hb', h.adds.dependencies_eq c hc⟩
  · have hlt := Nat.lt_of_not_le hc
    exact .inr ⟨hlt, h.adds.joined c b' hlt hb'⟩

theorem standing (h : Redone model s s₁ id b ids) (hsound : Sound model s root node stale)
    {c : BoundaryId} {b' : Boundary} (hne : c ≠ id) (hb' : s₁.boundary? c = some b') :
    Standing model s₁ c b' := by
  rcases h.old_or_joined hne hb' with ⟨hold, -⟩ | ⟨-, hjoined⟩
  · exact (hsound.standing c b' hold).carry fun _ _ _ => h.place?_eq_some
  · exact hjoined.standing

theorem fresh (h : Redone model s s₁ id b ids) (hsound : Sound model s root node stale)
    {c : BoundaryId} {b' : Boundary} (hne : c ≠ id) (hb' : s₁.boundary? c = some b')
    (hstale : c ∉ stale) (hsettled : b'.context.Settled s₁.live.models) : Fresh model s₁ c b' := by
  rcases h.old_or_joined hne hb' with ⟨hold, hdependencies⟩ | ⟨-, hjoined⟩
  · have hmodels : s₁.live.models = s.live.models := h.adds.models_eq
    rw [hmodels] at hsettled
    exact (hsound.fresh c b' hold hstale hsettled).carry hmodels hdependencies
      fun _ _ _ => h.place?_eq_some
  · exact hjoined.fresh

end Redone

/-- A boundary that was rendered again is fresh, and so is whoever was. -/
theorem Redone.sound (h : Redone model s s₁ id b ids) (hsound : Sound model s root node stale)
    {reads : List Dependency} {out : Rendered}
    (hshown : ShownAs s.live.models (s₁.cast model) (fun d => d ∈ reads) b.context b.role b.node out
      ids)
    (hothers : ∀ c ∈ stale, c ≠ id → c ∈ others) {s₂ : Stage}
    (hclosed : Closed s₁ s₂ id (b.closed ids out) reads) : Sound model s₂ root node others where
  place_root := by
    have hid := hsound.root_le id b h.boundary?
    rw [hclosed.place?_of_le root hid]
    exact h.place?_eq_some hsound.place_root
  root_le c b' hb' := by
    by_cases hne : c = id
    · exact hne ▸ hsound.root_le id b h.boundary?
    -- A new boundary has a higher number than all that were there.
    · rcases h.old_or_joined hne (hclosed.left c b' hne hb').1 with ⟨hold, -⟩ | ⟨hlt, -⟩
      · exact hsound.root_le c b' hold
      · have hid := hsound.root_le id b h.boundary?
        exact Nat.le_trans hid (Nat.le_trans (h.bounded id b h.boundary?) (Nat.le_of_lt hlt))
  le_lastId := ((h.regrown hsound).linked_closed hclosed).bounded
  standing c b' hb' := by
    by_cases hne : c = id
    · subst hne
      obtain rfl := Option.some.inj (hclosed.boundary?_self.symm.trans hb')
      obtain ⟨hscope, htidy, -, -⟩ := hsound.standing c b h.boundary?
      refine ⟨hscope, htidy, fun count => (hshown.aligned count).imp ?_, ?_⟩
      · exact fun kid hkid p => hclosed.kid c _ kid p hb' hkid
      · exact fun kid => ((h.regrown hsound).linked_closed hclosed).child c _ kid hb'
    · have hleft := (hclosed.left c b' hne hb').1
      exact (h.standing hsound hne hleft).carry fun kid hkid p => hclosed.kid c b' kid p hb' hkid
  listed := hclosed.listed
  context_root c p hp hnone := by
    have hp₁ := hclosed.place? c p hp
    by_cases hc : c ≤ s.lastId
    · exact hsound.context_root c p ((h.regrown hsound).place?_of_le hc ▸ hp₁) hnone
    · obtain ⟨b', hb', rfl⟩ := exists_boundary? hp₁
      have hparent : b'.parent? = none := hnone
      have hlisted := (h.adds.joined c b' (Nat.lt_of_not_le hc) hb').listed
      rcases hlisted with ⟨howner, -⟩ | ⟨_, _, howner, -⟩
      · exact nomatch hparent.symm.trans howner
      · exact nomatch hparent.symm.trans howner
  fresh c b' hb' hstale hsettled := by
    have hmodels : s₁.live.models = s.live.models := h.adds.models_eq
    by_cases hne : c = id
    · subst hne
      obtain rfl := Option.some.inj (hclosed.boundary?_self.symm.trans hb')
      unfold Fresh
      rw [hclosed.models_eq, hmodels]
      exact hshown.imp hclosed.known fun kid hkid _ _ _ =>
        cast_carry fun p => hclosed.kid c _ kid p hb' hkid
    · obtain ⟨hleft, hdependencies⟩ := hclosed.left c b' hne hb'
      rw [hclosed.models_eq] at hsettled
      refine (h.fresh hsound hne hleft (fun hmem => hstale (hothers c hmem hne)) hsettled).carry
        hclosed.models_eq hdependencies fun kid hkid p => hclosed.kid c b' kid p hb' hkid

end Stage

end BoundView
