import BoundView.Proofs.View.World
import Mathlib

/-!
# The order of a flush

A flush goes through the marked boundaries by their numbers, and a parent has a lower number than
whatever is beneath it.  Main statement: no boundary is rendered twice, none after another one that
is beneath it and none after it was dropped, and each that was marked and is left was rendered.
-/

namespace BoundView

open Stage
open Relation (TransGen)

/-! ## Accounts in order -/

namespace Deed

/-- A boundary is rendered that is mounted on a stage. -/
def isAgain (s : Stage) : Deed → Bool
  | .rendered id => s.isMounted id
  | .dropped _ => false

/-- Whether one deed may come before another, for a relation of parents to children. -/
def Precedes (parentOf : BoundaryId → BoundaryId → Prop) : Deed → Deed → Prop
  | .rendered id, .rendered other => other ≠ id ∧ ¬TransGen parentOf other id
  | .dropped id, .rendered other => other ≠ id
  | _, .dropped _ => True

variable {parentOf : BoundaryId → BoundaryId → Prop} {log : List Deed} {id : BoundaryId}

theorem precedes_dropped (deed : Deed) : deed.Precedes parentOf (.dropped id) := by
  cases deed <;> trivial

theorem lt_of_transGen (hlt : ∀ p c, parentOf p c → p < c) {other : BoundaryId}
    (h : TransGen parentOf other id) : other < id := by
  induction h with
  | single h => exact hlt _ _ h
  | tail _ h ih => exact Nat.lt_trans ih (hlt _ _ h)

/-- Boundaries may be rendered by their numbers. -/
theorem precedes_of_lt (hlt : ∀ p c, parentOf p c → p < c) {other : BoundaryId} (h : id < other) :
    (rendered id).Precedes parentOf (.rendered other) :=
  ⟨Nat.ne_of_gt h, fun hbeneath => Nat.lt_asymm h (lt_of_transGen hlt hbeneath)⟩

theorem count_le_one (h : log.Pairwise (Precedes parentOf)) : log.count (.rendered id) ≤ 1 := by
  induction h with
  | nil => exact Nat.zero_le 1
  | @cons deed rest hfirst _ ih =>
    by_cases heq : deed = .rendered id
    · have hnot : .rendered id ∉ rest := by
        intro hmem
        have hprecedes := hfirst _ hmem
        rw [heq] at hprecedes
        exact hprecedes.1 rfl
      rw [heq, List.count_cons_self]
      exact Nat.succ_le_succ (Nat.le_of_eq (List.count_eq_zero.2 hnot))
    · rw [List.count_cons_of_ne heq]
      exact ih

end Deed

/-! ## Boundaries rendered one after the other -/

namespace Recorded

variable {s s₁ s₂ : Stage} {id : BoundaryId} {ids gone : List BoundaryId}
  {parentOf : BoundaryId → BoundaryId → Prop}

theorem count_births {first last id : Nat} : (births first last).count (.rendered id)
    = if first < id ∧ id ≤ last then 1 else 0 := by
  have hnodup : (births first last).Nodup :=
    (List.nodup_range' (s := first + 1)).map fun _ _ h => Deed.rendered.inj h
  rw [hnodup.count]
  exact if_congr mem_births rfl rfl

/-- What a boundary that is rendered again comes to: itself, what is new beneath it, and what is
gone. -/
def renewal (s s₁ : Stage) (id : BoundaryId) (gone : List BoundaryId) : List Deed :=
  .rendered id :: (births s.lastId s₁.lastId ++ gone.map .dropped)

theorem mem_renewal {other : BoundaryId} : .rendered other ∈ renewal s s₁ id gone
    ↔ other = id ∨ s.lastId < other ∧ other ≤ s₁.lastId := by
  rw [renewal, List.mem_cons, List.mem_append, mem_births, Deed.rendered.injEq]
  have hnot : .rendered other ∉ gone.map Deed.dropped := by
    intro hmem
    obtain ⟨_, -, heq⟩ := List.mem_map.1 hmem
    exact nomatch heq
  rw [or_iff_left hnot]

theorem mem_dropped {other : BoundaryId} :
    .dropped other ∈ renewal s s₁ id gone ↔ other ∈ gone := by
  have hnot : .dropped other ∉ births s.lastId s₁.lastId := by
    intro hmem
    obtain ⟨_, -, heq⟩ := List.mem_map.1 hmem
    exact nomatch heq
  rw [renewal, List.mem_cons, List.mem_append, or_iff_right (fun heq => nomatch heq),
    or_iff_right hnot, List.mem_map_of_injective fun _ _ h => Deed.dropped.inj h]

theorem count_renewal (hid : id ≤ s.lastId) {other : BoundaryId} :
    (renewal s s₁ id gone).count (.rendered other)
      = if other = id ∨ s.lastId < other ∧ other ≤ s₁.lastId then 1 else 0 := by
  have hgone : (gone.map Deed.dropped).count (.rendered other) = 0 := by
    refine List.count_eq_zero.2 fun hmem => ?_
    obtain ⟨_, -, heq⟩ := List.mem_map.1 hmem
    exact nomatch heq
  rw [renewal, List.count_cons, List.count_append, count_births, hgone]
  by_cases heq : other = id
  · subst heq
    simp [Nat.not_lt_of_le hid]
  · simp [heq, Ne.symm heq]

/-- Within it everything is in order. -/
theorem renewal_ordered (hlt : ∀ p c, parentOf p c → p < c) (hid : id ≤ s.lastId) :
    (renewal s s₁ id gone).Pairwise (Deed.Precedes parentOf) := by
  have hbirths : (births s.lastId s₁.lastId).Pairwise (Deed.Precedes parentOf) := by
    rw [births, List.pairwise_map]
    exact (List.pairwise_lt_range' 1 Nat.one_pos).imp fun h => Deed.precedes_of_lt hlt h
  have hgone : (gone.map Deed.dropped).Pairwise (Deed.Precedes parentOf) := by
    rw [List.pairwise_map]
    exact List.pairwise_of_forall fun _ _ => Deed.precedes_dropped _
  rw [renewal, List.pairwise_cons, List.pairwise_append]
  refine ⟨fun deed hdeed => ?_, hbirths, hgone, fun deed _ other hother => ?_⟩
  · rcases List.mem_append.1 hdeed with hdeed | hdeed
    · obtain ⟨other, hother, rfl⟩ := List.mem_map.1 hdeed
      have hother := (List.mem_range'_1.1 hother).1
      exact Deed.precedes_of_lt hlt (Nat.lt_of_lt_of_le (Nat.lt_succ_of_le hid) hother)
    · obtain ⟨other, -, rfl⟩ := List.mem_map.1 hdeed
      exact Deed.precedes_dropped _
  · obtain ⟨other, -, rfl⟩ := List.mem_map.1 hother
    exact Deed.precedes_dropped _

/-- Whoever is above a boundary that is new stands above the one that is rendered again, or is new
as well. -/
theorem above_new (hrenewed : Renewed s s₁ id) (hlt : ∀ p c, parentOf p c → p < c)
    (hparent : ∀ p c, s.lastId < c → c ≤ s₁.lastId → parentOf p c →
      ∃ place, s₁.place? c = some place ∧ place.parent? = some p)
    {other c : BoundaryId} (h : TransGen parentOf other c) (hc : s.lastId < c)
    (hc₁ : c ≤ s₁.lastId) : other ≤ id ∨ s.lastId < other := by
  induction h with
  | single h =>
    obtain ⟨place, hplace, hother⟩ := hparent _ _ hc hc₁ h
    exact (hrenewed.parent _ place _ hc hplace hother).imp_left Nat.le_of_eq
  | tail hmiddle h ih =>
    obtain ⟨place, hplace, hother⟩ := hparent _ _ hc hc₁ h
    rcases hrenewed.parent _ place _ hc hplace hother with rfl | hnew
    · exact .inl (Nat.le_of_lt (Deed.lt_of_transGen hlt hmiddle))
    · exact ih hnew (Nat.le_trans (Nat.le_of_lt (hlt _ _ h)) hc₁)

/-- What an account says of marked boundaries that are rendered one after the other. -/
structure Accounts (s s' : Stage) (ids : List BoundaryId) (count : Nat) (log : List Deed) :
    Prop where
  rendered : ∀ id, .rendered id ∈ log →
    id ∈ ids ∧ s.isMounted id = true ∨ s.lastId < id ∧ id ≤ s'.lastId
  ordered : ∀ parentOf : BoundaryId → BoundaryId → Prop, (∀ p c, parentOf p c → p < c) →
    (∀ p c, s.lastId < c → parentOf p c →
      ∃ place, s'.place? c = some place ∧ place.parent? = some p) →
    log.Pairwise (Deed.Precedes parentOf)
  marked : ∀ id ∈ ids, s'.isMounted id = true → .rendered id ∈ log
  count_eq : count = log.countP (Deed.isAgain s)
  renders_eq : ∀ id, s'.isMounted id = true →
    s'.renders id = s.renders id + log.count (.rendered id)
  dropped : ∀ id, s.isMounted id = true → s'.isMounted id = false → .dropped id ∈ log
  pending : ∀ id ∈ s'.live.observers.pending, id ∈ s.live.observers.pending

/-- Only the one that is rendered again was mounted before. -/
theorem countP_renewal (hs : s.Bounded) (hmounted : s.isMounted id = true) :
    (renewal s s₁ id gone).countP (Deed.isAgain s) = 1 := by
  have hbirths : (births s.lastId s₁.lastId).countP (Deed.isAgain s) = 0 := by
    refine List.countP_eq_zero.2 fun deed hdeed => ?_
    obtain ⟨c, hc, rfl⟩ := List.mem_map.1 hdeed
    have hc := (List.mem_range'_1.1 hc).1
    exact Bool.eq_false_iff.1 (isMounted_of_lt hs hc)
  have hdropped : (gone.map Deed.dropped).countP (Deed.isAgain s) = 0 := by
    refine List.countP_eq_zero.2 fun deed hdeed => ?_
    obtain ⟨c, -, rfl⟩ := List.mem_map.1 hdeed
    exact Bool.false_ne_true
  have hagain : Deed.isAgain s (.rendered id) = true := hmounted
  rw [renewal, List.countP_cons_of_pos hagain, List.countP_append, hbirths, hdropped]

/-- How often a boundary that is left in the end was rendered before. -/
theorem renders_renewed (hs : s.Orderly) (hrenewed : Renewed s s₁ id) (hkeeps : Keeps s₁ s₂)
    (hid : id ≤ s.lastId) {c : BoundaryId} (hc : s₂.isMounted c = true) :
    s₁.renders c = s.renders c + (renewal s s₁ id gone).count (.rendered c) := by
  have hlast : s.lastId ≤ s₁.lastId := hrenewed.lastId_le
  rw [count_renewal hid]
  cases hb : s₁.boundary? c with
  | some b =>
    have hle : c ≤ s₁.lastId := hrenewed.orderly.bounded c b hb
    rw [renders_of_boundary? hb, hrenewed.renders_eq c b hb]
    simp only [hle, and_true]
  | none =>
    -- It is new, and so it was not there before.
    have hnew : s₁.lastId < c := by
      refine Nat.lt_of_not_le fun hle => ?_
      exact Bool.eq_false_iff.1 (isMounted_eq_false hb) (hkeeps.isMounted hle hc)
    have hnone := boundary?_eq_none (isMounted_of_lt hs.bounded (Nat.lt_of_le_of_lt hlast hnew))
    have hnot : ¬(c = id ∨ s.lastId < c ∧ c ≤ s₁.lastId) := by
      rintro (rfl | ⟨-, hle⟩)
      · exact Nat.not_le_of_lt hnew (Nat.le_trans hid hlast)
      · exact Nat.not_le_of_lt hnew hle
    rw [renders_of_boundary?_eq_none hb, renders_of_boundary?_eq_none hnone, if_neg hnot]

namespace Accounts

variable {rest : List BoundaryId} {count : Nat} {log : List Deed}

/-- What is done to one boundary comes before what is done to those with higher numbers. -/
theorem precedes (h : Accounts s₁ s₂ rest count log) (hrenewed : Renewed s s₁ id)
    (hgone : Gone s s₁ gone) (hid : id ≤ s.lastId) (hfirst : ∀ c ∈ rest, id < c)
    (hrest : ∀ c ∈ rest, c ≤ s.lastId) (hlt : ∀ p c, parentOf p c → p < c)
    (hparent : ∀ p c, s.lastId < c → c ≤ s₁.lastId → parentOf p c →
      ∃ place, s₁.place? c = some place ∧ place.parent? = some p)
    {deed later : Deed} (hdeed : deed ∈ renewal s s₁ id gone) (hlater : later ∈ log) :
    deed.Precedes parentOf later := by
  cases later with
  | dropped c => exact Deed.precedes_dropped _
  | rendered c =>
    -- It has a higher number than the one that is rendered first, and is marked or new.
    have hc := h.rendered c hlater
    have hidc : id < c := by
      rcases hc with ⟨hmem, -⟩ | ⟨hnew, -⟩
      · exact hfirst c hmem
      · exact Nat.lt_of_le_of_lt (Nat.le_trans hid hrenewed.lastId_le) hnew
    cases deed with
    | rendered d =>
      rcases mem_renewal.1 hdeed with rfl | ⟨hd, hd₁⟩
      · exact Deed.precedes_of_lt hlt hidc
      · rcases hc with ⟨hmem, -⟩ | ⟨hnew, -⟩
        · have hcd : c < d := Nat.lt_of_le_of_lt (hrest c hmem) hd
          refine ⟨Nat.ne_of_lt hcd, fun habove => ?_⟩
          rcases above_new hrenewed hlt hparent habove hd hd₁ with hle | hnew
          · exact Nat.not_le_of_lt hidc hle
          · exact Nat.not_le_of_lt hnew (hrest c hmem)
        · exact Deed.precedes_of_lt hlt (Nat.lt_of_le_of_lt hd₁ hnew)
    | dropped d =>
      have hd := mem_dropped.1 hdeed
      show c ≠ d
      rintro rfl
      rcases hc with ⟨-, hc₁⟩ | ⟨hnew, -⟩
      · exact Bool.eq_false_iff.1 (hgone.not_mounted c hd) hc₁
      · exact Nat.not_le_of_lt hnew (hgone.le_lastId c hd)

/-- Of those that come later the same were mounted before. -/
theorem countP_isAgain (h : Accounts s₁ s₂ rest count log) (hs : s.Bounded)
    (hrenewed : Renewed s s₁ id) (hrest : ∀ c ∈ rest, c ≤ s.lastId) :
    log.countP (Deed.isAgain s) = log.countP (Deed.isAgain s₁) := by
  refine List.countP_congr fun deed hdeed => ?_
  cases deed with
  | dropped c => exact Iff.rfl
  | rendered c =>
    show s.isMounted c = true ↔ s₁.isMounted c = true
    rcases h.rendered c hdeed with ⟨hmem, hc₁⟩ | ⟨hnew, -⟩
    · exact iff_of_true (hrenewed.isMounted (hrest c hmem) hc₁) hc₁
    · rw [isMounted_of_lt hrenewed.orderly.bounded hnew,
        isMounted_of_lt hs (Nat.lt_of_le_of_lt hrenewed.lastId_le hnew)]

/-- One more boundary is accounted for. -/
theorem cons (h : Accounts s₁ s₂ rest count log) (hs : s.Orderly)
    (hmounted : s.isMounted id = true) (hrenewed : Renewed s s₁ id) (hgone : Gone s s₁ gone)
    (hkeeps : Keeps s₁ s₂) (hsorted : (id :: rest).Pairwise (· < ·))
    (hgiven : ∀ c ∈ id :: rest, c ≤ s.lastId) :
    Accounts s s₂ (id :: rest) (count + 1) (renewal s s₁ id gone ++ log) := by
  obtain ⟨hfirst, -⟩ := List.pairwise_cons.1 hsorted
  have hid : id ≤ s.lastId := hgiven id List.mem_cons_self
  have hlast : s.lastId ≤ s₁.lastId := hrenewed.lastId_le
  have hrest : ∀ c ∈ rest, c ≤ s.lastId := fun c hc => hgiven c (List.mem_cons_of_mem id hc)
  refine ⟨fun c hc => ?_, fun parentOf hlt hparent => ?_, fun c hc hc' => ?_, ?_, fun c hc => ?_,
    fun c hc hc' => ?_, fun c hc => hrenewed.pending.subset (h.pending c hc)⟩
  · rcases List.mem_append.1 hc with hc | hc
    · rcases mem_renewal.1 hc with rfl | ⟨hnew, hle⟩
      · exact .inl ⟨List.mem_cons_self, hmounted⟩
      · exact .inr ⟨hnew, Nat.le_trans hle hkeeps.lastId_le⟩
    · rcases h.rendered c hc with ⟨hmem, hc₁⟩ | ⟨hnew, hle⟩
      · exact .inl ⟨List.mem_cons_of_mem id hmem, hrenewed.isMounted (hrest c hmem) hc₁⟩
      · exact .inr ⟨Nat.lt_of_le_of_lt hlast hnew, hle⟩
  · have hlog := h.ordered parentOf hlt fun p c hc => hparent p c (Nat.lt_of_le_of_lt hlast hc)
    have hparent₁ : ∀ p c, s.lastId < c → c ≤ s₁.lastId → parentOf p c →
        ∃ place, s₁.place? c = some place ∧ place.parent? = some p := by
      intro p c hc hc₁ hp
      obtain ⟨place, hplace, hp⟩ := hparent p c hc hp
      exact ⟨place, hkeeps.place? c place hc₁ hplace, hp⟩
    exact List.pairwise_append.2 ⟨renewal_ordered hlt hid, hlog, fun _ hdeed _ hlater =>
      h.precedes hrenewed hgone hid hfirst hrest hlt hparent₁ hdeed hlater⟩
  · rcases List.mem_cons.1 hc with rfl | hc
    · exact List.mem_append_left _ (mem_renewal.2 (.inl rfl))
    · exact List.mem_append_right _ (h.marked c hc hc')
  · rw [List.countP_append, countP_renewal hs.bounded hmounted,
      h.countP_isAgain hs.bounded hrenewed hrest, ← h.count_eq, Nat.add_comm]
  · rw [h.renders_eq c hc, List.count_append, ← Nat.add_assoc,
      renders_renewed hs hrenewed hkeeps hid hc]
  · cases hc₁ : s₁.isMounted c with
    | false => exact List.mem_append_left _ (mem_dropped.2 (hgone.mem c hc hc₁))
    | true => exact List.mem_append_right _ (h.dropped c hc₁ hc')

end Accounts

theorem rerenderAll_accounts (v : Interpreter) (hs : s.Orderly) (hsorted : ids.Pairwise (· < ·))
    (hgiven : ∀ id ∈ ids, id ≤ s.lastId) :
    Accounts s ((rerenderAll v ids).run s none).stage ids ((rerenderAll v ids).run s none).value
      ((rerenderAll v ids).deeds s none) := by
  induction ids generalizing s with
  | nil =>
    exact ⟨fun _ h => absurd h List.not_mem_nil, fun _ _ _ => .nil,
      fun _ h => absurd h List.not_mem_nil, rfl, fun _ _ => rfl,
      fun _ h h' => absurd (h'.symm.trans h) Bool.false_ne_true, fun _ h => h⟩
  | cons id rest ih =>
    obtain ⟨hfirst, hrest⟩ := List.pairwise_cons.1 hsorted
    have hgiven' : ∀ c ∈ rest, c ≤ s.lastId := fun c hc => hgiven c (List.mem_cons_of_mem id hc)
    cases hb : s.boundary? id with
    | none =>
      -- It was dropped by a parent that was rendered before.
      obtain ⟨hrun, hdeeds⟩ := rerenderAll_cons_of_unmounted v rest (isMounted_eq_false hb)
      have haccounts := ih hs hrest hgiven'
      rw [hrun, hdeeds]
      refine ⟨fun c hc => (haccounts.rendered c hc).imp_left fun ⟨hmem, hc'⟩ =>
          ⟨List.mem_cons_of_mem id hmem, hc'⟩, haccounts.ordered, fun c hc hc' => ?_,
        haccounts.count_eq, haccounts.renders_eq, haccounts.dropped, haccounts.pending⟩
      rcases List.mem_cons.1 hc with rfl | hc
      · have hmounted := (rerenderAll_keeps v rest hs).isMounted (hgiven c List.mem_cons_self) hc'
        exact absurd hmounted (Bool.eq_false_iff.1 (isMounted_eq_false hb))
      · exact haccounts.marked c hc hc'
    | some b =>
      obtain ⟨s₁, gone, hrenewed, hstage, hvalue, hdeeds, hgone⟩ :=
        rerenderAll_cons_of_boundary? v rest hs hb
      rw [hstage, hvalue, hdeeds]
      have haccounts := ih hrenewed.orderly hrest fun c hc =>
        Nat.le_trans (hgiven' c hc) hrenewed.lastId_le
      exact haccounts.cons hs (isMounted_of_boundary? hb) hrenewed hgone
        (rerenderAll_keeps v rest hrenewed.orderly) hsorted hgiven

end Recorded

namespace Stage

/-! ## Flushes -/

/-- A stage on which just these observers are marked. -/
def marked (s : Stage) (ids : List ObserverId) : Stage :=
  { s with live := { s.live with observers := { s.live.observers with pending := ids } } }

/-- One boundary is the parent of another before a flush or after it. -/
def ParentOf (before after : Stage) (parent id : BoundaryId) : Prop :=
  ∃ b, (before.boundary? id = some b ∨ after.boundary? id = some b) ∧ b.parent? = some parent

/-- A flush that renders so many boundaries again and comes to this account. -/
structure Flushes (before after : Stage) (count : Nat) (log : List Deed) : Prop where
  once : ∀ id, log.count (.rendered id) ≤ 1
  parents_first : ∀ earlier later id other, log = earlier ++ later → .rendered id ∈ earlier →
    .rendered other ∈ later → ¬TransGen (ParentOf before after) other id
  not_dropped : ∀ earlier later id, log = earlier ++ later → .dropped id ∈ earlier →
    .rendered id ∉ later
  marked : ∀ id ∈ before.live.observers.pending, after.isMounted id = true →
    log.count (.rendered id) = 1
  count_eq : count = log.countP (Deed.isAgain before)
  renders_eq : ∀ id, after.isMounted id = true →
    after.renders id = before.renders id + log.count (.rendered id)
  dropped : ∀ id, before.isMounted id = true → after.isMounted id = false → .dropped id ∈ log
  pending : after.live.observers.pending = []

end Stage

namespace Recorded

theorem flush_flushes (v : Interpreter) {s : Stage} (hs : s.Orderly)
    (hsorted : s.live.observers.pending.Pairwise (· < ·))
    (hgiven : ∀ id ∈ s.live.observers.pending, id ≤ s.lastId) :
    Flushes s ((flush v).run s none).stage ((flush v).run s none).value
      ((flush v).deeds s none) := by
  have hafter := (flush_keeps v hs).orderly
  have haccounts := rerenderAll_accounts v (orderly_unmarked hs) hsorted hgiven
  have hlt : ∀ p c, ParentOf s ((flush v).run s none).stage p c → p < c := by
    rintro p c ⟨b, hb | hb, hp⟩
    · exact hs.parent_lt (place?_of_boundary? hb) hp
    · exact hafter.parent_lt (place?_of_boundary? hb) hp
  have hordered := haccounts.ordered (ParentOf s ((flush v).run s none).stage) hlt (by
    rintro p c hc ⟨b, hb | hb, hp⟩
    · exact absurd (hs.bounded c b hb) (Nat.not_le_of_lt hc)
    · exact ⟨_, place?_of_boundary? hb, hp⟩)
  have hsplit : ∀ earlier later deed other, (flush v).deeds s none = earlier ++ later →
      deed ∈ earlier → other ∈ later →
      deed.Precedes (ParentOf s ((flush v).run s none).stage) other := by
    intro earlier later deed other heq hdeed hother
    have hordered : ((flush v).deeds s none).Pairwise _ := hordered
    rw [heq] at hordered
    exact (List.pairwise_append.1 hordered).2.2 deed hdeed other hother
  refine ⟨fun id => Deed.count_le_one hordered, ?_, ?_, fun id hid hmounted => ?_,
    haccounts.count_eq, haccounts.renders_eq, haccounts.dropped,
    List.eq_nil_iff_forall_not_mem.2 fun id hid => List.not_mem_nil (haccounts.pending id hid)⟩
  · exact fun earlier later id other heq hid hother => (hsplit _ _ _ _ heq hid hother).2
  · exact fun earlier later id heq hid hother => hsplit _ _ _ _ heq hid hother rfl
  · refine Nat.le_antisymm (Deed.count_le_one hordered) ?_
    exact List.count_pos_iff.2 (haccounts.marked id hid hmounted)

end Recorded

namespace Interpreter

/-- Whatever is marked in a world, a flush renders no boundary twice, none after another one beneath
it and none that it has dropped; what was marked and is left was rendered, and a second flush has
nothing to do. -/
theorem flush_run (v : Interpreter) (errands : List Errand) {ids : List ObserverId}
    (hsorted : ids.Pairwise (· < ·)) (hgiven : ∀ id ∈ ids, id ≤ (v.run errands).stage.lastId) :
    let before := (v.run errands).stage.marked ids
    let flushed := v.flush before none
    (Recorded.flush v).run = v.flush
      ∧ Flushes before flushed.stage flushed.value ((Recorded.flush v).deeds before none)
      ∧ (v.flush flushed.stage none).value = 0 := by
  have hs := (v.orderly_run errands).stage
  have hmarked : ((v.run errands).stage.marked ids).Orderly :=
    ⟨⟨hs.bounded, hs.child, hs.listed⟩, hs.pos, hs.nodup⟩
  have hflushes := Recorded.flush_flushes v hmarked hsorted hgiven
  rw [Recorded.run_flush] at hflushes
  refine ⟨Recorded.run_flush, hflushes, ?_⟩
  generalize v.flush ((v.run errands).stage.marked ids) none = flushed at hflushes
  show (v.rerenderAll flushed.stage.live.observers.pending _ none).value = 0
  rw [hflushes.pending]
  rfl

theorem flush_run_list :
    [1, 2, 4].Pairwise (· < ·)
      ∧ (∀ id ∈ [1, 2, 4], id ≤ (standard.run listErrands).stage.lastId)
      ∧ (Recorded.flush standard).run = standard.flush
      ∧ Flushes ((standard.run listErrands).stage.marked [1, 2, 4])
        (standard.flush ((standard.run listErrands).stage.marked [1, 2, 4]) none).stage
        (standard.flush ((standard.run listErrands).stage.marked [1, 2, 4]) none).value
        ((Recorded.flush standard).deeds ((standard.run listErrands).stage.marked [1, 2, 4]) none)
      ∧ (standard.flush (standard.flush ((standard.run listErrands).stage.marked [1, 2, 4])
        none).stage none).value = 0 := by
  have hsorted : [1, 2, 4].Pairwise (· < ·) := by decide
  have hlast : (standard.run listErrands).stage.lastId = 4 := by cbv
  have hgiven : ∀ id ∈ [1, 2, 4], id ≤ (standard.run listErrands).stage.lastId := by
    rw [hlast]
    decide
  exact ⟨hsorted, hgiven, flush_run standard listErrands hsorted hgiven⟩

end Interpreter

end BoundView
