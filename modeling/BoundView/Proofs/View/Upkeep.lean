import BoundView.Proofs.View.Sprouting

/-!
# Orderly stages

What is rendered, rendered again or taken away leaves a stage orderly: parents and children know
each other, each child once, and whoever is dropped is not subscribed to anything and not marked.
`Stage.Keeps` says this of two stages, and is what all that an interpreter does has in common.
-/

namespace BoundView

namespace Stage

variable {s s' s'' : Stage} {id : BoundaryId} {b : Boundary} {ids : List BoundaryId}

/-- Parents and children know each other, each child once. -/
structure Orderly (s : Stage) : Prop extends Linked s where
  pos : ∀ id b, s.boundary? id = some b → 0 < id
  nodup : ∀ id b, s.boundary? id = some b → b.children.Nodup

/-- A stage is orderly afterwards.  Boundaries that had a number before are in their places, and
whoever is subscribed or marked is mounted, or was not a boundary before. -/
structure Keeps (s s' : Stage) : Prop where
  orderly : s'.Orderly
  lastId_le : s.lastId ≤ s'.lastId
  place? : ∀ id p, id ≤ s.lastId → s'.place? id = some p → s.place? id = some p
  holds : ∀ id, s'.Holds id → s'.isMounted id = true ∨ s.Holds id ∧ s.isMounted id = false

theorem isMounted_eq_false (h : s.boundary? id = none) : s.isMounted id = false :=
  congrArg Option.isSome h

theorem boundary?_eq_none (h : s.isMounted id = false) : s.boundary? id = none :=
  Option.not_isSome_iff_eq_none.1 (by rw [Bool.not_eq_true]; exact h)

/-- A number that was not given yet is not the number of a boundary. -/
theorem isMounted_of_lt (hs : s.Bounded) (hid : s.lastId < id) : s.isMounted id = false := by
  refine Bool.eq_false_iff.2 fun hmounted => ?_
  obtain ⟨b, hb⟩ := exists_of_isMounted hmounted
  exact Nat.not_le_of_lt hid (hs id b hb)

theorem le_of_place? (hs : s.Bounded) {p : Place} (h : s.place? id = some p) : id ≤ s.lastId := by
  obtain ⟨b, hb, -⟩ := exists_boundary? h
  exact hs id b hb

theorem isMounted_iff_place? : s.isMounted id = true ↔ ∃ p, s.place? id = some p := by
  constructor
  · intro h
    obtain ⟨b, hb⟩ := exists_of_isMounted h
    exact ⟨_, place?_of_boundary? hb⟩
  · rintro ⟨p, hp⟩
    obtain ⟨b, hb, -⟩ := exists_boundary? hp
    exact isMounted_of_boundary? hb

theorem orderly_of_forall_ne (h : ∀ id b, s.boundary? id ≠ some b) : s.Orderly := by
  have hplace : ∀ id p, s.place? id ≠ some p := by
    intro id p hp
    obtain ⟨b, hb, -⟩ := exists_boundary? hp
    exact h id b hb
  exact ⟨⟨fun id b hb => absurd hb (h id b), fun id b _ hb => absurd hb (h id b),
    fun id p _ hp => absurd hp (hplace id p)⟩, fun id b hb => absurd hb (h id b),
    fun id b hb => absurd hb (h id b)⟩

theorem Holds.mounted_or (h : s.Holds id) :
    s.isMounted id = true ∨ s.Holds id ∧ s.isMounted id = false := by
  cases hmounted : s.isMounted id with
  | true => exact .inl rfl
  | false => exact .inr ⟨h, rfl⟩

theorem dependencies_eq_nil (h : ¬s.Holds id) : s.dependencies id = [] := by
  have hnone : IdMap.find? id s.live.observers.subscriptions = none :=
    Option.not_isSome_iff_eq_none.1 fun hsome => h (.inl (IdMap.contains_iff_mem_keys.1 hsome))
  show (IdMap.find? id s.live.observers.subscriptions).getD [] = []
  rw [hnone]
  rfl

theorem Keeps.refl (h : s.Orderly) : Keeps s s :=
  ⟨h, Nat.le_refl _, fun _ _ _ hp => hp, fun _ hid => hid.mounted_or⟩

theorem Keeps.trans (h : Keeps s s') (h' : Keeps s' s'') : Keeps s s'' where
  orderly := h'.orderly
  lastId_le := Nat.le_trans h.lastId_le h'.lastId_le
  place? id p hid hp := h.place? id p hid (h'.place? id p (Nat.le_trans hid h.lastId_le) hp)
  holds id hid := by
    rcases h'.holds id hid with hmounted | ⟨hid, hnot⟩
    · exact .inl hmounted
    · exact .inr ((h.holds id hid).resolve_left (Bool.eq_false_iff.1 hnot))

/-- Who was not mounted is not mounted either, unless it is new. -/
theorem Keeps.isMounted (h : Keeps s s') (hid : id ≤ s.lastId) (hmounted : s'.isMounted id = true) :
    s.isMounted id = true := by
  obtain ⟨p, hp⟩ := isMounted_iff_place?.1 hmounted
  exact isMounted_iff_place?.2 ⟨p, h.place? id p hid hp⟩

/-! ## Roots that are added -/

/-- Boundaries that are added outside of any other leave a stage orderly. -/
theorem Sprouts.keeps (hs : s.Orderly) (h : Sprouts s s' none ids) (htends : Tends s s') :
    Keeps s s' where
  lastId_le := h.lastId_le
  place? id p hid hp := by
    rw [Stage.place?, h.boundary?_eq id hid] at hp
    exact hp
  holds id hid := by
    rcases htends.holds id hid with hid | ⟨-, hmounted⟩
    · refine hid.mounted_or.imp_left fun hmounted => ?_
      obtain ⟨p, hp⟩ := isMounted_iff_place?.1 hmounted
      exact isMounted_iff_place?.2 ⟨p, h.place?_eq_some hs.bounded hp⟩
    · exact .inl hmounted
  orderly := by
    have hold : ∀ id b, s'.boundary? id = some b → s.boundary? id = some b ∨ s.lastId < id := by
      intro id b hb
      by_cases hid : id ≤ s.lastId
      · exact .inl ((h.boundary?_eq id hid).symm.trans hb)
      · exact .inr (Nat.lt_of_not_le hid)
    refine ⟨⟨h.bounded, fun id b c hb hc => ?_, fun id p parent hp hparent => ?_⟩,
      fun id b hb => ?_, fun id b hb => ?_⟩
    · rcases hold id b hb with hb | hlt
      · obtain ⟨hlt, p, hp, hparent⟩ := hs.child id b c hb hc
        exact ⟨hlt, p, h.place?_eq_some hs.bounded hp, hparent⟩
      · exact (h.sprout id b hlt hb).child c hc
    · obtain ⟨b, hb, rfl⟩ := exists_boundary? hp
      rcases hold id b hb with hb | hlt
      · obtain ⟨b', hb', hmem⟩ := hs.listed id _ parent (place?_of_boundary? hb) hparent
        exact ⟨b', (h.boundary?_eq parent (hs.bounded parent b' hb')).trans hb', hmem⟩
      · rcases (h.sprout id b hlt hb).listed with ⟨hnone, -⟩ | ⟨_, b', hparent', -, hb', hmem⟩
        · cases hnone.symm.trans hparent
        · obtain rfl := Option.some.inj (hparent.symm.trans hparent')
          exact ⟨b', hb', hmem⟩
    · rcases hold id b hb with hb | hlt
      · exact hs.pos id b hb
      · exact Nat.zero_lt_of_lt hlt
    · rcases hold id b hb with hb' | hlt
      · exact hs.nodup id b hb'
      · exact htends.nodup id b hlt hb

/-! ## Boundaries that are taken away -/

/-- What is kept when one boundary is taken away is kept when many are. -/
theorem drop_preserves {P : Stage → Prop} (hremove : ∀ s id, P s → P (s.removeBoundary id))
    (s : Stage) (ids : List BoundaryId) (h : P s) : P (s.drop ids) := by
  induction s, ids using Stage.drop.induct with
  | case1 s =>
    rw [drop_nil]
    exact h
  | case2 s id rest hnone ih =>
    rw [drop_cons_of_none hnone]
    exact ih h
  | case3 s id rest b hb ih =>
    rw [drop_cons_of_some hb]
    exact ih (hremove s id h)

theorem lastId_drop (s : Stage) (ids : List BoundaryId) : (s.drop ids).lastId = s.lastId := by
  refine drop_preserves (P := fun s' => s'.lastId = s.lastId) (fun s' id h => ?_) s ids rfl
  exact h

/-- Whoever is dropped is not subscribed to anything and not marked. -/
theorem holds_drop (s : Stage) (ids : List BoundaryId) : ∀ id, (s.drop ids).Holds id →
    s.Holds id ∧ (s.isMounted id = true → (s.drop ids).isMounted id = true) := by
  refine drop_preserves (P := fun s' => ∀ id, s'.Holds id →
    s.Holds id ∧ (s.isMounted id = true → s'.isMounted id = true)) (fun s' other h id hid => ?_)
    s ids fun id hid => ⟨hid, fun h => h⟩
  obtain ⟨hid, hne⟩ := Observers.holds_unsubscribe.1 hid
  obtain ⟨hholds, hmounted⟩ := h id hid
  refine ⟨hholds, fun h => ?_⟩
  obtain ⟨b, hb⟩ := exists_of_isMounted (hmounted h)
  exact isMounted_of_boundary? ((boundary?_removeBoundary_of_ne hne).trans hb)

/-- No mark is made when boundaries are dropped. -/
theorem pending_drop (s : Stage) (ids : List BoundaryId) :
    (s.drop ids).live.observers.pending.Sublist s.live.observers.pending :=
  drop_preserves (P := fun s' => s'.live.observers.pending.Sublist s.live.observers.pending)
    (fun _ _ h => List.filter_sublist.trans h) s ids (.refl _)

/-- The boundaries that are left when the loose ones are dropped know each other. -/
theorem Forest.linked {kids : BoundaryId → List BoundaryId} (h : Forest s kids [])
    (hkids : ∀ id b, s.boundary? id = some b → b.children = kids id)
    (hs : s.Bounded) : s.Linked where
  bounded := hs
  child id b c hb hc := (h.kid id b c hb (hkids id b hb ▸ hc)).2
  listed id p parent hp hparent := by
    obtain ⟨b, hb, hmem⟩ := (h.listed id p parent hp hparent).resolve_left List.not_mem_nil
    exact ⟨b, hb, hkids parent b hb ▸ hmem⟩

/-- A stage from which a parent has struck a child off its list. -/
def struck (s : Stage) (id : BoundaryId) : Stage :=
  match (s.boundary? id).bind Boundary.parent? with
  | some parent =>
    s.modifyBoundary parent fun b => { b with children := b.children.filter (· ≠ id) }
  | none => s

theorem unmount_eq (s : Stage) (id : BoundaryId) : s.unmount id = (s.struck id).drop [id] := rfl

theorem live_struck : (s.struck id).live = s.live := by
  unfold struck
  split <;> rfl

/-- Only the parent of what is struck off lists one child less. -/
theorem boundary?_struck {other : BoundaryId} {b' : Boundary}
    (h : (s.struck id).boundary? other = some b') :
    ∃ b, s.boundary? other = some b ∧ b'.place = b.place
      ∧ b'.children = if (s.place? id).bind Place.parent? = some other
        then b.children.filter (· ≠ id) else b.children := by
  have hparent : (s.place? id).bind Place.parent? = (s.boundary? id).bind Boundary.parent? := by
    unfold Stage.place?
    cases s.boundary? id <;> rfl
  rw [hparent]
  unfold struck at h
  split at h
  · rename_i parent heq
    by_cases hne : other = parent
    · subst hne
      rw [boundary?_modifyBoundary_self] at h
      obtain ⟨b, hb, rfl⟩ := Option.map_eq_some_iff.1 h
      exact ⟨b, hb, rfl, (if_pos heq).symm⟩
    · rw [boundary?_modifyBoundary_of_ne _ hne] at h
      refine ⟨b', h, rfl, (if_neg fun heq' => hne ?_).symm⟩
      exact Option.some.inj (heq'.symm.trans heq)
  · rename_i heq
    refine ⟨b', h, rfl, (if_neg fun heq' => ?_).symm⟩
    cases heq.symm.trans heq'

theorem place?_struck {other : BoundaryId} : (s.struck id).place? other = s.place? other := by
  unfold struck
  split
  · exact place?_modifyBoundary fun _ => rfl
  · rfl

/-- What is struck off is loose, and whoever else has a parent is listed. -/
theorem Orderly.forest_struck (h : s.Orderly) (id : BoundaryId) :
    Forest (s.struck id) (s.struck id).children [id] where
  kid c b' kid hb' hkid := by
    obtain ⟨b, hb, -, hchildren⟩ := boundary?_struck hb'
    rw [children, hb'] at hkid
    have hkid : kid ∈ b'.children := hkid
    rw [place?_struck]
    rw [hchildren] at hkid
    split at hkid
    · obtain ⟨hkid, hne⟩ := List.mem_filter.1 hkid
      refine ⟨fun hmem => ?_, h.child c b kid hb hkid⟩
      exact of_decide_eq_true hne (List.mem_singleton.1 hmem)
    · rename_i hother
      refine ⟨fun hmem => ?_, h.child c b kid hb hkid⟩
      -- Nobody lists it but its parent.
      obtain rfl := List.mem_singleton.1 hmem
      obtain ⟨-, p, hp, hparent⟩ := h.child c b kid hb hkid
      rw [hp] at hother
      exact hother hparent
  listed other p parent hp hparent := by
    rw [place?_struck] at hp
    by_cases hne : other = id
    · exact .inl (List.mem_singleton.2 hne)
    · obtain ⟨b, hb, hmem⟩ := h.listed other p parent hp hparent
      obtain ⟨b', hb', -⟩ := exists_boundary? (place?_struck.trans (place?_of_boundary? hb))
      refine .inr ⟨b', hb', ?_⟩
      obtain ⟨_, hb'', -, hchildren⟩ := boundary?_struck hb'
      obtain rfl := Option.some.inj (hb.symm.trans hb'')
      rw [children, hb']
      show other ∈ b'.children
      rw [hchildren]
      split
      · exact List.mem_filter.2 ⟨hmem, decide_eq_true hne⟩
      · exact hmem

/-- Taking a boundary away leaves a stage orderly. -/
theorem Orderly.keeps_unmount (h : s.Orderly) (id : BoundaryId) : Keeps s (s.unmount id) := by
  rw [unmount_eq]
  have hlast : (s.struck id).lastId = s.lastId := congrArg (·.observers.lastId) live_struck
  cases hb : s.boundary? id with
  | none =>
    have hstruck : s.struck id = s := by
      unfold struck
      rw [hb]
      rfl
    rw [hstruck, drop_cons_of_none hb, drop_nil]
    exact .refl h
  | some b =>
    -- All boundaries have numbers above zero, so none has to be left out.
    obtain ⟨hforest, hshrinks, -⟩ := (h.forest_struck id).drop
      (fun c b' hb' _ => by rw [children, hb']; rfl)
      fun c hc => List.mem_singleton.1 hc ▸ h.pos id b hb
    have hleft : ∀ c b', ((s.struck id).drop [id]).boundary? c = some b' →
        ∃ b, s.boundary? c = some b ∧ b'.place = b.place
          ∧ (b.children.Nodup → b'.children.Nodup) := by
      intro c b' hb'
      obtain ⟨b, hb, hplace, hchildren⟩ := boundary?_struck (hshrinks.boundary? c b' hb')
      refine ⟨b, hb, hplace, fun hnodup => ?_⟩
      rw [hchildren]
      split
      · exact hnodup.filter _
      · exact hnodup
    have hlast' : ((s.struck id).drop [id]).lastId = s.lastId := (lastId_drop _ _).trans hlast
    have hlinked : ((s.struck id).drop [id]).Linked := by
      refine hforest.linked (fun c b' hb' => ?_) fun c b' hb' => ?_
      · rw [children, hshrinks.boundary? c b' hb']
        rfl
      · obtain ⟨b, hb, -⟩ := hleft c b' hb'
        rw [hlast']
        exact h.bounded c b hb
    refine ⟨⟨hlinked, fun c b' hb' => ?_, fun c b' hb' => ?_⟩, Nat.le_of_eq hlast'.symm,
      fun c p _ hp => ?_, fun c hc => ?_⟩
    · obtain ⟨b, hb, -⟩ := hleft c b' hb'
      exact h.pos c b hb
    · obtain ⟨b, hb, -, hnodup⟩ := hleft c b' hb'
      exact hnodup (h.nodup c b hb)
    · obtain ⟨b', hb', rfl⟩ := exists_boundary? hp
      obtain ⟨b, hb, hplace, -⟩ := hleft c b' hb'
      rw [hplace]
      exact place?_of_boundary? hb
    · obtain ⟨hholds, hmounted⟩ := holds_drop _ _ c hc
      have hholds : s.Holds c := by
        rw [Holds, live_struck] at hholds
        exact hholds
      refine hholds.mounted_or.imp_left fun h => hmounted ?_
      obtain ⟨p, hp⟩ := isMounted_iff_place?.1 h
      exact isMounted_iff_place?.2 ⟨p, place?_struck.trans hp⟩

/-! ## All boundaries -/

/-- Nothing is left if whatever is mounted is dropped or listed by a parent with a lower number. -/
theorem boundaries_drop_eq_nil (s : Stage) (ids : List BoundaryId)
    (h : ∀ id b, s.boundary? id = some b → id ∈ ids ∨ ∃ parent b', parent < id
      ∧ s.boundary? parent = some b' ∧ id ∈ b'.children) : (s.drop ids).boundaries = [] := by
  induction s, ids using Stage.drop.induct with
  | case1 s =>
    rw [drop_nil]
    -- There is no lowest number.
    have hnone : ∀ id b, s.boundary? id ≠ some b := by
      intro id
      induction id using Nat.strongRecOn with
      | ind id ih =>
        intro b hb
        obtain ⟨parent, b', hlt, hb', -⟩ := (h id b hb).resolve_left List.not_mem_nil
        exact ih parent hlt b' hb'
    cases hboundaries : s.boundaries with
    | nil => rfl
    | cons entry rest =>
      refine absurd ?_ (hnone entry.1 entry.2)
      rw [boundary?, hboundaries]
      exact if_pos rfl
  | case2 s id rest hnone ih =>
    rw [drop_cons_of_none hnone]
    refine ih fun other b hb => (h other b hb).imp_left fun hmem => ?_
    refine (List.mem_cons.1 hmem).resolve_left fun heq => ?_
    rw [heq, hnone] at hb
    cases hb
  | case3 s id rest b hb ih =>
    rw [drop_cons_of_some hb]
    refine ih fun other b' hb' => ?_
    have hne : other ≠ id := ne_of_place?_removeBoundary (place?_of_boundary? hb')
    rw [boundary?_removeBoundary_of_ne hne] at hb'
    rcases h other b' hb' with hmem | ⟨parent, b'', hlt, hb'', hmem⟩
    · exact .inl (List.mem_append_right _ ((List.mem_cons.1 hmem).resolve_left hne))
    · by_cases hparent : parent = id
      · subst hparent
        obtain rfl := Option.some.inj (hb.symm.trans hb'')
        exact .inl (List.mem_append_left rest hmem)
      · exact .inr ⟨parent, b'', hlt, (boundary?_removeBoundary_of_ne hparent).trans hb'', hmem⟩

/-- Taking all roots away leaves nothing. -/
theorem Orderly.boundaries_unmountAll (h : s.Orderly) : s.unmountAll.boundaries = [] := by
  refine boundaries_drop_eq_nil s s.roots fun id b hb => ?_
  cases hparent : b.parent? with
  | none =>
    refine .inl (List.mem_map.2 ⟨(id, b), List.mem_filter.2 ⟨IdMap.mem_of_find? hb, ?_⟩, rfl⟩)
    rw [hparent]
    rfl
  | some parent =>
    obtain ⟨b', hb', hmem⟩ := h.listed id _ parent (place?_of_boundary? hb) hparent
    exact .inr ⟨parent, b', (h.child parent b' id hb' hmem).1, hb', hmem⟩

theorem Orderly.keeps_unmountAll (h : s.Orderly) : Keeps s s.unmountAll := by
  have hnone : ∀ id b, s.unmountAll.boundary? id ≠ some b := by
    intro id b hb
    rw [boundary?, h.boundaries_unmountAll] at hb
    cases hb
  refine ⟨orderly_of_forall_ne hnone, Nat.le_of_eq (lastId_drop _ _).symm, fun id p _ hp => ?_,
    fun id hid => ?_⟩
  · obtain ⟨b, hb, -⟩ := exists_boundary? hp
    exact absurd hb (hnone id b)
  · obtain ⟨hholds, hmounted⟩ := holds_drop _ _ id hid
    exact hholds.mounted_or.imp_left hmounted

end Stage

end BoundView
