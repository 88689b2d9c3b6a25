import BoundView.Proofs.View.Links
import BoundView.Proofs.View.Sound

/-!
# Renderings that only add

What is rendered inside a boundary leaves every boundary that was there as it was, and adds
boundaries that are fresh and stand in their places.  `Rendering.Yields` says this of a part of a
rendering, together with what the part gives; a rule for each way to put renderings together carries
it from the parts to the whole.
-/

namespace BoundView

namespace Stage

variable {model : ModelId} {s s' s'' : Stage} {id : BoundaryId} {b : Boundary}
  {owner? : Option BoundaryId} {ids others : List BoundaryId}

/-- What holds of a boundary that was added. -/
structure Joined (model : ModelId) (s s' : Stage) (owner? : Option BoundaryId)
    (ids : List BoundaryId) (id : BoundaryId) (b : Boundary) : Prop where
  le_lastId : id ≤ s'.lastId
  standing : Standing model s' id b
  fresh : Fresh model s' id b
  listed : (b.parent? = owner? ∧ id ∈ ids)
    ∨ ∃ parent b', b.parent? = some parent ∧ s.lastId < parent ∧ s'.boundary? parent = some b'
      ∧ id ∈ b'.children

/-- Boundaries were added on behalf of an owner, of which `ids` are its children. -/
structure Adds (model : ModelId) (s s' : Stage) (owner? : Option BoundaryId)
    (ids : List BoundaryId) : Prop extends Extends s s' where
  joined : ∀ id b, s.lastId < id → s'.boundary? id = some b → Joined model s s' owner? ids id b

theorem Extends.cast (h : Extends s s') (hs : s.Bounded) {role : Role} {node : ViewNode}
    {scope : Context} (hcast : s.cast model id role node scope) :
    s'.cast model id role node scope :=
  cast_carry (fun _ hp => h.place?_eq_some hs hp) hcast

theorem Extends.aligned (h : Extends s s') (hs : s.Bounded) {parts : List (Role × ViewNode)}
    (haligned : s.Aligned model ids parts) : s'.Aligned model ids parts :=
  haligned.imp fun _ _ _ hp => h.place?_eq_some hs hp

theorem Adds.refl (hs : s.Bounded) : Adds model s s owner? [] where
  toExtends := .refl s
  joined id b hid hb := absurd (hs id b hb) (Nat.not_le_of_lt hid)

/-- A boundary that was added is linked. -/
theorem Adds.sprouts (h : Adds model s s' owner? ids) : Sprouts s s' owner? ids where
  toExtends := h.toExtends
  sprout id b hid hb :=
    have hjoined := h.joined id b hid hb
    ⟨hjoined.le_lastId, hjoined.standing.children, hjoined.listed⟩

theorem Adds.bounded (h : Adds model s s' owner? ids) : s'.Bounded :=
  h.sprouts.bounded

theorem Adds.trans {s₁ s₂ : Stage} (h : Adds model s s₁ owner? ids)
    (h' : Adds model s₁ s₂ owner? others) : Adds model s s₂ owner? (ids ++ others) where
  toExtends := h.toExtends.trans h'.toExtends
  joined id b hid hb := by
    obtain ⟨hle, -, hlisted⟩ := (h.sprouts.trans h'.sprouts).sprout id b hid hb
    by_cases hid₁ : id ≤ s₁.lastId
    -- What the first part added is left alone by the second one.
    · rw [h'.boundary?_eq id hid₁] at hb
      have hjoined := h.joined id b hid hb
      have hplaces : ∀ c p, s₁.place? c = some p → s₂.place? c = some p :=
        fun _ _ hp => h'.toExtends.place?_eq_some h.bounded hp
      exact ⟨hle, hjoined.standing.carry fun c _ => hplaces c,
        hjoined.fresh.carry h'.models_eq (h'.dependencies_eq id hid₁) fun c _ => hplaces c,
        hlisted⟩
    · have hjoined := h'.joined id b (Nat.lt_of_not_le hid₁) hb
      exact ⟨hle, hjoined.standing, hjoined.fresh, hlisted⟩

end Stage

open Stage

/-! ## Parts of a rendering -/

/-- The frame after these children were asked for. -/
def Frame.after (f : Frame) (ids : List BoundaryId) : Frame :=
  ⟨f.owner, f.previous.drop ids.length, f.children ++ ids⟩

theorem Frame.after_nil (f : Frame) : f.after [] = f := by
  rw [after, List.append_nil]
  rfl

theorem Frame.after_after (f : Frame) (ids others : List BoundaryId) :
    (f.after ids).after others = f.after (ids ++ others) := by
  rw [after, after, after, List.drop_drop, List.append_assoc, List.length_append]

/-- A frame of a boundary that has its number. -/
structure Frame.Ready (f : Frame) (s : Stage) : Prop where
  bounded : s.Bounded
  owner_le : f.owner ≤ s.lastId

theorem Frame.Ready.after {model : ModelId} {f : Frame} {s s' : Stage} {ids : List BoundaryId}
    (h : f.Ready s) (hadds : Adds model s s' (some f.owner) ids) : (f.after ids).Ready s' :=
  ⟨hadds.bounded, Nat.le_trans h.owner_le hadds.lastId_le⟩

/-- The former children that are left stand for the parts that are still to be asked for. -/
theorem Frame.Ready.aligned_after {model : ModelId} {f : Frame} {s s' : Stage}
    {ids : List BoundaryId} {parts more : List (Role × ViewNode)} (h : f.Ready s)
    (hadds : Adds model s s' (some f.owner) ids) (hfills : List.Forall₂ (s'.Fills model) ids parts)
    (haligned : s.Aligned model f.previous (parts ++ more)) :
    s'.Aligned model (f.after ids).previous more := by
  have hdrop := haligned.drop
  rw [← hfills.length_eq] at hdrop
  exact hadds.toExtends.aligned h.bounded hdrop

namespace Rendering

variable {α β : Type} {model : ModelId} {s : Stage} {f : Frame}

/-- What part of a rendering does to the stage on behalf of a frame, where `ids` are the children
that it asks for: each is the former one at its position or a new one. -/
structure Does (model : ModelId) (s : Stage) (f : Frame) (r : Result α) (ids : List BoundaryId) :
    Prop where
  frame?_eq : r.frame? = some (f.after ids)
  adds : Adds model s r.stage (some f.owner) ids
  origin : ∀ id ∈ ids, id ∈ f.previous
    ∨ s.lastId < id ∧ ∃ p, r.stage.place? id = some p ∧ p.parent? = some f.owner

/-- A part of a rendering yields a result, children, a stage and reads with a property. -/
def Yields (model : ModelId) (s : Stage) (f : Frame) (m : Rendering α)
    (post : α → List BoundaryId → Stage → List Dependency → Prop) : Prop :=
  ∃ ids, Does model s f (m s (some f)) ids
    ∧ post (m s (some f)).value ids (m s (some f)).stage (m s (some f)).trace.reads

variable {post post' : α → List BoundaryId → Stage → List Dependency → Prop}
  {post'' : β → List BoundaryId → Stage → List Dependency → Prop}

theorem Yields.pure {a : α} (hready : f.Ready s) (h : post a [] s []) :
    Yields model s f (pure a) post := by
  refine ⟨[], ⟨?_, .refl hready.bounded, fun _ hid => absurd hid List.not_mem_nil⟩, h⟩
  rw [f.after_nil]
  rfl

theorem Yields.ofReading_bind {m : Reading α} {k : α → Rendering β}
    (h : Yields model s f (k (m s.live.models).1) fun b ids s' reads =>
      post'' b ids s' ((m s.live.models).2.reads ++ reads)) :
    Yields model s f (ofReading m >>= k) post'' := by
  obtain ⟨ids, hdoes, hpost⟩ := h
  exact ⟨ids, ⟨hdoes.frame?_eq, hdoes.adds, hdoes.origin⟩, hpost⟩

theorem Yields.mono {m : Rendering α} (h : Yields model s f m post)
    (himp : ∀ a ids s' reads, Adds model s s' (some f.owner) ids → post a ids s' reads →
      post' a ids s' reads) : Yields model s f m post' := by
  obtain ⟨ids, hdoes, hpost⟩ := h
  exact ⟨ids, hdoes, himp _ _ _ _ hdoes.adds hpost⟩

theorem Yields.bind {m : Rendering α} {k : α → Rendering β} (hready : f.Ready s)
    (h : Yields model s f m post)
    (hk : ∀ a ids s₁ reads, Adds model s s₁ (some f.owner) ids → (f.after ids).Ready s₁ →
      post a ids s₁ reads →
      Yields model s₁ (f.after ids) (k a) fun b others s₂ more =>
        post'' b (ids ++ others) s₂ (reads ++ more)) :
    Yields model s f (m >>= k) post'' := by
  obtain ⟨ids, hdoes, hpost⟩ := h
  -- The second part starts from the stage and the frame that the first one leaves.
  obtain ⟨others, hdoes', hpost'⟩ := hk _ _ _ _ hdoes.adds (hready.after hdoes.adds) hpost
  have hbind : (m >>= k) s (some f)
      = { k (m s (some f)).value (m s (some f)).stage (some (f.after ids)) with
          trace := (m s (some f)).trace.append
            (k (m s (some f)).value (m s (some f)).stage (some (f.after ids))).trace } := by
    rw [← hdoes.frame?_eq]
    rfl
  refine ⟨ids ++ others, ?_, ?_⟩
  · rw [hbind]
    refine ⟨?_, hdoes.adds.trans hdoes'.adds, fun id hid => ?_⟩
    · rw [← f.after_after]
      exact hdoes'.frame?_eq
    · rcases List.mem_append.1 hid with hid | hid
      · refine (hdoes.origin id hid).imp_right fun ⟨hlt, p, hp, hparent⟩ => ⟨hlt, p, ?_, hparent⟩
        exact hdoes'.adds.toExtends.place?_eq_some hdoes.adds.bounded hp
      · rcases hdoes'.origin id hid with hprevious | ⟨hlt, hplace⟩
        · exact .inl (List.mem_of_mem_drop hprevious)
        · exact .inr ⟨Nat.lt_of_le_of_lt hdoes.adds.lastId_le hlt, hplace⟩
  · rw [hbind]
    exact hpost'

theorem Yields.bind_pure {m : Rendering α} {g : α → β} (hready : f.Ready s)
    (h : Yields model s f m post)
    (himp : ∀ a ids s₁ reads, Adds model s s₁ (some f.owner) ids → post a ids s₁ reads →
      post'' (g a) ids s₁ reads) : Yields model s f (m >>= fun a => Pure.pure (g a)) post'' := by
  refine .bind hready h fun a ids s₁ reads hadds hready₁ hpost => .pure hready₁ ?_
  rw [List.append_nil, List.append_nil]
  exact himp a ids s₁ reads hadds hpost

end Rendering

end BoundView
