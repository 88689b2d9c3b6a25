import BoundView.Proofs.IdMap
import BoundView.Reactive.Observers

/-!
# What observers are subscribed to

An observer depends on just what it read when it was last evaluated, and a change marks just those
that depend on something that it affects.
-/

namespace BoundView

/-! ## The order of dependencies -/

theorem Seg.compare_eq_iff {a b : Seg} : a.compare b = .eq ↔ a = b := by
  cases a with
  | field s =>
    cases b with
    | field t =>
      rw [compare, Seg.field.injEq]
      split
      · rename_i hlt
        exact iff_of_false (fun h => nomatch h) fun h => String.lt_irrefl t (h ▸ hlt)
      split
      · rename_i heq
        exact iff_of_true rfl heq
      · rename_i hne
        exact iff_of_false (fun h => nomatch h) hne
    | index => exact iff_of_false (fun h => nomatch h) fun h => nomatch h
  | index i =>
    cases b with
    | field => exact iff_of_false (fun h => nomatch h) fun h => nomatch h
    | index j =>
      rw [compare, Seg.index.injEq]
      exact Nat.compare_eq_eq

theorem Path.compare_eq_iff {p q : Path} : p.compare q = .eq ↔ p = q := by
  induction p generalizing q with
  | nil =>
    cases q with
    | nil => exact iff_of_true rfl rfl
    | cons => exact iff_of_false (fun h => nomatch h) fun h => nomatch h
  | cons a p ih =>
    cases q with
    | nil => exact iff_of_false (fun h => nomatch h) fun h => nomatch h
    | cons b q =>
      rw [compare, Ordering.then_eq_eq, Seg.compare_eq_iff, ih, List.cons.injEq]

namespace Dependency

theorem compareDepth_eq_iff {a b : Bool} : compareDepth a b = .eq ↔ a = b := by
  cases a <;> cases b <;> decide

theorem compare_eq_iff {d e : Dependency} : d.compare e = .eq ↔ d = e := by
  cases d
  cases e
  rw [compare, Ordering.then_eq_eq, Ordering.then_eq_eq, Nat.compare_eq_eq, Path.compare_eq_iff,
    compareDepth_eq_iff, mk.injEq, and_assoc]

theorem mem_insert {d e : Dependency} {ds : List Dependency} :
    e ∈ insert d ds ↔ e = d ∨ e ∈ ds := by
  induction ds with
  | nil => exact List.mem_singleton.trans (or_iff_left List.not_mem_nil).symm
  | cons first rest ih =>
    rw [insert]
    split
    · exact List.mem_cons
    · rename_i heq
      obtain rfl := compare_eq_iff.1 heq
      simp
    · rw [List.mem_cons, ih, List.mem_cons]
      exact or_left_comm

/-- What is collected is just what was read. -/
theorem mem_collect {d : Dependency} {reads : List Dependency} :
    d ∈ collect reads ↔ d ∈ reads := by
  -- The fold adds to what was collected so far.
  suffices h : ∀ ds, d ∈ reads.foldl (fun ds d => insert d ds) ds ↔ d ∈ reads ∨ d ∈ ds by
    exact (h []).trans (or_iff_left List.not_mem_nil)
  induction reads with
  | nil => exact fun ds => (or_iff_right List.not_mem_nil).symm
  | cons first rest ih =>
    intro ds
    rw [List.foldl_cons, ih, mem_insert, List.mem_cons, or_left_comm, or_assoc]

end Dependency

namespace Observers

/-- After its evaluation an observer depends on what it read. -/
theorem mem_dependencies_settle {o : Observers} {observer : ObserverId} {reads : List Dependency}
    {d : Dependency} : d ∈ (o.settle observer reads).dependencies observer ↔ d ∈ reads := by
  unfold settle dependencies
  dsimp only
  split
  · rename_i hempty
    rw [IdMap.find?_erase_self, List.isEmpty_iff.1 hempty]
    exact Iff.rfl
  · rw [IdMap.find?_insert_self, Option.getD_some, Dependency.mem_collect]

theorem mem_insertId {id other : Nat} {ids : List Nat} :
    other ∈ insertId id ids ↔ other = id ∨ other ∈ ids := by
  induction ids with
  | nil => exact List.mem_singleton.trans (or_iff_left List.not_mem_nil).symm
  | cons first rest ih =>
    rw [insertId]
    split
    · exact List.mem_cons
    split
    · rename_i heq
      rw [heq, List.mem_cons, ← or_assoc, or_self]
    · rw [List.mem_cons, ih, List.mem_cons]
      exact or_left_comm

theorem dependencies_settle_of_ne {o : Observers} {observer other : ObserverId}
    {reads : List Dependency} (h : other ≠ observer) :
    (o.settle observer reads).dependencies other = o.dependencies other := by
  unfold settle dependencies
  dsimp only
  split
  · rw [IdMap.find?_erase_of_ne _ h]
  · rw [IdMap.find?_insert_of_ne _ _ h]

/-- After a change those are marked that it affects, and those that were marked before. -/
theorem mem_pending_notify_iff {o : Observers} {c : Change} {observer : ObserverId} :
    observer ∈ (o.notify c).2.pending ↔ observer ∈ o.affectedBy c ∨ observer ∈ o.pending := by
  -- The fold adds the affected ones to those that are marked already.
  suffices h : ∀ ids marked : List Nat,
      observer ∈ ids.foldl (fun ids id => insertId id ids) marked ↔
        observer ∈ ids ∨ observer ∈ marked from h _ _
  intro ids
  induction ids with
  | nil => exact fun marked => (or_iff_right List.not_mem_nil).symm
  | cons first rest ih =>
    intro marked
    rw [List.foldl_cons, ih, mem_insertId, List.mem_cons, or_left_comm, or_assoc]

/-- A change marks whoever depends on what it affects. -/
theorem mem_pending_notify {o : Observers} {c : Change} {observer : ObserverId} {d : Dependency}
    (hd : d ∈ o.dependencies observer) (haffects : c.affects d = true) :
    observer ∈ (o.notify c).2.pending := by
  have haffected : observer ∈ o.affectedBy c := by
    unfold dependencies at hd
    cases hfind : IdMap.find? observer o.subscriptions with
    | none =>
      rw [hfind] at hd
      exact absurd hd List.not_mem_nil
    | some ds =>
      rw [hfind] at hd
      refine List.mem_map.2 ⟨(observer, ds), List.mem_filter.2 ⟨IdMap.mem_of_find? hfind, ?_⟩, rfl⟩
      exact List.any_eq_true.2 ⟨d, hd, haffects⟩
  exact mem_pending_notify_iff.2 (.inl haffected)

/-! ## Who holds on to anything -/

/-- An observer that is subscribed to something, or marked. -/
def Holds (o : Observers) (observer : ObserverId) : Prop :=
  observer ∈ IdMap.keys o.subscriptions ∨ observer ∈ o.pending

variable {o : Observers} {observer other : ObserverId}

theorem pending_settle {reads : List Dependency} :
    other ∈ (o.settle observer reads).pending ↔ other ∈ o.pending ∧ other ≠ observer := by
  show other ∈ o.pending.filter (· ≠ observer) ↔ _
  rw [List.mem_filter, decide_eq_true_eq]

theorem Holds.of_settle {reads : List Dependency} (h : (o.settle observer reads).Holds other) :
    other = observer ∨ o.Holds other := by
  rcases h with h | h
  · have h : other ∈ IdMap.keys (if reads.isEmpty then IdMap.erase observer o.subscriptions
        else IdMap.insert observer (Dependency.collect reads) o.subscriptions) := h
    split at h
    · exact .inr (.inl (IdMap.mem_keys_erase.1 h).1)
    · exact (IdMap.mem_keys_insert.1 h).imp_right .inl
  · exact .inr (.inr (pending_settle.1 h).1)

theorem holds_unsubscribe :
    (o.unsubscribe observer).Holds other ↔ o.Holds other ∧ other ≠ observer := by
  show (other ∈ IdMap.keys (IdMap.erase observer o.subscriptions)
    ∨ other ∈ o.pending.filter (· ≠ observer)) ↔ _
  rw [IdMap.mem_keys_erase, List.mem_filter, decide_eq_true_eq, ← or_and_right]
  rfl

/-- Whoever is marked by a change is subscribed to something. -/
theorem Holds.of_notify {c : Change} (h : (o.notify c).2.Holds observer) : o.Holds observer := by
  have haffected : ∀ id ∈ o.affectedBy c, id ∈ IdMap.keys o.subscriptions := by
    intro id hid
    obtain ⟨entry, hentry, rfl⟩ := List.mem_map.1 hid
    exact List.mem_map.2 ⟨entry, (List.mem_filter.1 hentry).1, rfl⟩
  rcases h with h | h
  · exact .inl h
  · exact (mem_pending_notify_iff.1 h).imp (haffected observer) id

end Observers

end BoundView
