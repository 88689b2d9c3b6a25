import BoundView.Proofs.View.Positions
import BoundView.Proofs.View.Remaining

/-!
# Several interpreters over the same models

Interpreters that share their models and observers have boundaries of their own, but there is one
set of marks, and whoever flushes takes it as a whole.  Main statement: marks stay until the
interpreter that they are meant for gets to them just if none of the others flushes before it.
-/

namespace BoundView

/-- Live models with observers, the observers that are no boundaries, and what each of several
interpreters has mounted. -/
structure Gallery (ι : Type) where
  live : Live
  outside : List ObserverId
  boundaries : ι → IdMap Boundary

namespace Gallery

open Stage

variable {ι : Type} {g g' g'' : Gallery ι} {i j : ι} {id : BoundaryId}

def empty : Gallery ι :=
  ⟨.empty, [], fun _ => []⟩

/-- What one of the interpreters sees. -/
def stage (g : Gallery ι) (i : ι) : Stage :=
  ⟨g.live, g.boundaries i⟩

def world (g : Gallery ι) (i : ι) : World :=
  ⟨g.stage i, g.outside⟩

/-- A boundary of this interpreter that is marked. -/
def Marked (g : Gallery ι) (i : ι) (id : BoundaryId) : Prop :=
  (g.stage i).isMounted id = true ∧ id ∈ g.live.observers.pending

/-- A boundary of this interpreter was rendered again, or is gone. -/
def Tended (g g' : Gallery ι) (i : ι) (id : BoundaryId) : Prop :=
  (g'.stage i).isMounted id = true → (g.stage i).renders id < (g'.stage i).renders id

/-- The mark of such a boundary is still there, or was heeded. -/
def Kept (g g' : Gallery ι) (i : ι) (id : BoundaryId) : Prop :=
  id ∈ g'.live.observers.pending ∨ Tended g g' i id

/-- No boundary belongs to two interpreters. -/
structure Orderly (g : Gallery ι) : Prop where
  world : ∀ i, (g.world i).Shared
  apart : ∀ i j id, (g.stage i).isMounted id = true → (g.stage j).isMounted id = true → i = j

/-- For each of the interpreters, numbers are given once and boundaries are only rendered more. -/
def Follows (g g' : Gallery ι) : Prop :=
  ∀ i, Passes (g.stage i) (g'.stage i)

theorem Follows.trans (h : Follows g g') (h' : Follows g' g'') : Follows g g'' :=
  fun i => (h i).trans (h' i)

theorem Orderly.le_lastId (h : g.Orderly) (hid : (g.stage i).isMounted id = true) :
    id ≤ g.live.observers.lastId := by
  obtain ⟨b, hb⟩ := exists_of_isMounted hid
  exact (h.world i).stage.bounded id b hb

theorem orderly_empty : (empty : Gallery ι).Orderly where
  world _ := World.orderly_empty.shared .nil
  apart _ _ _ hid := absurd hid Bool.false_ne_true

/-- What was rendered again or is gone stays so, whatever was done before or is done later. -/
theorem Tended.of_follows (h : Tended g' g'' i id) (hid : id ≤ (g.stage i).lastId)
    (hfollows : Follows g g') (hfollows' : Follows g' g'') : Tended g g'' i id := by
  intro hmounted
  have hmounted' := (hfollows' i).isMounted id (Nat.le_trans hid (hfollows i).lastId_le) hmounted
  exact Nat.lt_of_le_of_lt ((hfollows i).renders_le id hid hmounted') (h hmounted)

theorem Tended.follows (h : Tended g g' i id) (hid : id ≤ (g'.stage i).lastId)
    (hfollows : Follows g' g'') : Tended g g'' i id := by
  intro hmounted
  exact Nat.lt_of_lt_of_le (h ((hfollows i).isMounted id hid hmounted))
    ((hfollows i).renders_le id hid hmounted)

/-! ## Calls -/

variable [DecidableEq ι] {vs : ι → Interpreter} {calls before since later : List (ι × Errand)}

/-- The gallery after a call of one of the interpreters. -/
def after (vs : ι → Interpreter) (g : Gallery ι) (call : ι × Errand) : Gallery ι :=
  let w := (g.world call.1).after (vs call.1) call.2
  ⟨w.stage.live, w.outside, Function.update g.boundaries call.1 w.stage.boundaries⟩

def afterAll (vs : ι → Interpreter) (g : Gallery ι) (calls : List (ι × Errand)) : Gallery ι :=
  calls.foldl (after vs) g

/-- The gallery after calls, from the start. -/
def run (vs : ι → Interpreter) (calls : List (ι × Errand)) : Gallery ι :=
  empty.afterAll vs calls

theorem run_append (vs : ι → Interpreter) (calls others : List (ι × Errand)) :
    run vs (calls ++ others) = (run vs calls).afterAll vs others :=
  List.foldl_append

theorem run_concat (vs : ι → Interpreter) (calls : List (ι × Errand)) (call : ι × Errand) :
    run vs (calls ++ [call]) = (run vs calls).after vs call :=
  run_append vs calls [call]

/-- Whoever is called does as it does alone. -/
theorem world_after_self (g : Gallery ι) (vs : ι → Interpreter) (call : ι × Errand) :
    (g.after vs call).world call.1 = (g.world call.1).after (vs call.1) call.2 := by
  show World.mk ⟨_, Function.update g.boundaries call.1 _ call.1⟩ _ = _
  rw [Function.update_self]
  rfl

/-- The others keep their boundaries. -/
theorem boundaries_after_of_ne (g : Gallery ι) (call : ι × Errand) (hne : i ≠ call.1) :
    (g.after vs call).boundaries i = g.boundaries i :=
  Function.update_of_ne hne _ _

theorem boundary?_after_of_ne (g : Gallery ι) (call : ι × Errand) (hne : i ≠ call.1) :
    ((g.after vs call).stage i).boundary? id = (g.stage i).boundary? id :=
  congrArg (IdMap.find? id) (g.boundaries_after_of_ne call hne)

theorem isMounted_after_of_ne (g : Gallery ι) (call : ι × Errand) (hne : i ≠ call.1) :
    ((g.after vs call).stage i).isMounted id = (g.stage i).isMounted id :=
  congrArg Option.isSome (g.boundary?_after_of_ne call hne)

theorem renders_after_of_ne (g : Gallery ι) (call : ι × Errand) (hne : i ≠ call.1) :
    ((g.after vs call).stage i).renders id = (g.stage i).renders id :=
  renders_eq_of_boundary? (g.boundary?_after_of_ne call hne)

/-! ## What every call keeps -/

/-- To those that are not called it looks as if time passed. -/
theorem Orderly.after_of_ne (h : g.Orderly) (vs : ι → Interpreter) (call : ι × Errand)
    (hne : i ≠ call.1) :
    ((g.after vs call).world i).Shared
      ∧ Passes (g.stage i) ((g.after vs call).stage i) := by
  obtain ⟨hshared, hpasses⟩ := (h.world call.1).after (v := vs call.1) call.2
  have hboundary : ∀ id, ((g.after vs call).stage i).boundary? id = (g.stage i).boundary? id :=
    fun _ => g.boundary?_after_of_ne call hne
  have hmounted : ∀ id, ((g.after vs call).stage i).isMounted id = (g.stage i).isMounted id :=
    fun _ => g.isMounted_after_of_ne call hne
  have hplace : ∀ id, ((g.after vs call).stage i).place? id = (g.stage i).place? id :=
    fun id => congrArg (Option.map Boundary.place) (hboundary id)
  have hold := (h.world i).stage
  have horderly : ((g.after vs call).stage i).Orderly := by
    refine ⟨⟨fun id b hb => ?_, fun id b c hb hc => ?_, fun id p parent hp hparent => ?_⟩,
      fun id b hb => ?_, fun id b hb => ?_⟩
    · rw [hboundary] at hb
      exact Nat.le_trans (hold.bounded id b hb) hpasses.lastId_le
    · rw [hboundary] at hb
      rw [hplace]
      exact hold.child id b c hb hc
    · rw [hplace] at hp
      rw [hboundary]
      exact hold.listed id p parent hp hparent
    · rw [hboundary] at hb
      exact hold.pos id b hb
    · rw [hboundary] at hb
      exact hold.nodup id b hb
  refine ⟨⟨horderly, hshared.holds_le, hshared.sorted, hshared.outside_le, fun id hid => ?_⟩,
    hpasses.lastId_le, fun id _ hid => ?_, fun id _ _ => ?_⟩
  · have hid : id ∈ ((g.world call.1).after (vs call.1) call.2).outside := hid
    show ((g.after vs call).stage i).isMounted id = false
    rw [hmounted]
    -- Whoever came to be outside has a number that no boundary had.
    rcases World.of_mem_outside_after hid with hid | ⟨-, rfl⟩
    · exact (h.world i).not_mounted id hid
    · exact isMounted_of_lt hold.bounded (Nat.lt_succ_self _)
  · rw [hmounted] at hid
    exact hid
  · rw [g.renders_after_of_ne call hne]

theorem Orderly.after (h : g.Orderly) (vs : ι → Interpreter) (call : ι × Errand) :
    (g.after vs call).Orderly ∧ Follows g (g.after vs call) := by
  have hall : ∀ i, ((g.after vs call).world i).Shared
      ∧ Passes (g.stage i) ((g.after vs call).stage i) := by
    intro i
    by_cases heq : i = call.1
    · subst heq
      have hafter := (h.world call.1).after (v := vs call.1) call.2
      rw [← g.world_after_self vs call] at hafter
      exact hafter
    · exact h.after_of_ne vs call heq
  refine ⟨⟨fun i => (hall i).1, fun i j id hi hj => ?_⟩, fun i => (hall i).2⟩
  -- What belongs to two of them now belonged to both before, since one of them was not called.
  by_cases hcall : i = call.1
  · by_cases hcall' : j = call.1
    · exact hcall.trans hcall'.symm
    · rw [g.isMounted_after_of_ne call hcall'] at hj
      exact h.apart i j id ((hall i).2.isMounted id (h.le_lastId hj) hi) hj
  · rw [g.isMounted_after_of_ne call hcall] at hi
    exact h.apart i j id hi ((hall j).2.isMounted id (h.le_lastId hi) hj)

theorem Orderly.afterAll (h : g.Orderly) (vs : ι → Interpreter) (calls : List (ι × Errand)) :
    (g.afterAll vs calls).Orderly ∧ Follows g (g.afterAll vs calls) := by
  induction calls generalizing g with
  | nil => exact ⟨h, fun _ => .refl _⟩
  | cons call calls ih =>
    obtain ⟨horderly, hfollows⟩ := h.after vs call
    obtain ⟨horderly', hfollows'⟩ := ih horderly
    exact ⟨horderly', hfollows.trans hfollows'⟩

theorem orderly_run (vs : ι → Interpreter) (calls : List (ι × Errand)) : (run vs calls).Orderly :=
  (orderly_empty.afterAll vs calls).1

theorem follows_run (vs : ι → Interpreter) (calls others : List (ι × Errand)) :
    Follows (run vs calls) (run vs (calls ++ others)) := by
  rw [run_append]
  exact ((orderly_run vs calls).afterAll vs others).2

/-! ## Marks -/

/-- An interpreter that flushes renders whatever of its boundaries is marked. -/
theorem Orderly.tended_flush (h : g.Orderly) (hmarked : g.Marked i id) :
    Tended g (g.after vs (i, .flush)) i id := by
  intro hmounted
  obtain ⟨count, log, hflushes⟩ := (h.world i).flush_flushes (v := vs i)
  have hstage : (g.after vs (i, .flush)).stage i = ((g.world i).after (vs i) .flush).stage :=
    congrArg World.stage (g.world_after_self vs (i, .flush))
  rw [hstage] at hmounted ⊢
  have honce := hflushes.marked id hmarked.2 hmounted
  rw [hflushes.renders_eq id hmounted, honce]
  exact Nat.lt_succ_self _

theorem Orderly.pending_flush (h : g.Orderly) (i : ι) :
    (g.after vs (i, .flush)).live.observers.pending = [] := by
  obtain ⟨count, log, hflushes⟩ := (h.world i).flush_flushes (v := vs i)
  exact hflushes.pending

/-- A mark outlives every call but a flush of another interpreter. -/
theorem Orderly.mark_after (h : g.Orderly) {call : ι × Errand} (hmarked : g.Marked i id)
    (hown : call.2 = .flush → i = call.1) :
    Kept g (g.after vs call) i id := by
  obtain ⟨j, errand⟩ := call
  by_cases hflush : errand = .flush
  · subst hflush
    obtain rfl := hown rfl
    exact .inr (h.tended_flush hmarked)
  · have hid : id ≤ (g.world j).stage.lastId := h.le_lastId hmarked.1
    have houtside : id ∉ (g.world j).outside := by
      intro hmem
      exact Bool.false_ne_true (((h.world i).not_mounted id hmem).symm.trans hmarked.1)
    refine (World.mem_pending_after (v := vs j) hflush hid houtside hmarked.2).imp_right
      fun hdropped hleft => ?_
    obtain ⟨hmounted, hgone⟩ := hdropped
    obtain rfl := h.apart i j id hmarked.1 hmounted
    have hstage := congrArg World.stage (g.world_after_self vs (i, errand))
    have hleft : ((g.after vs (i, errand)).world i).stage.isMounted id = true := hleft
    rw [hstage] at hleft
    exact absurd hleft (Bool.eq_false_iff.1 hgone)

/-- A mark that was kept or heeded before a call is so afterwards, unless another interpreter
flushes while it is there. -/
theorem Orderly.kept_after (h' : g'.Orderly) (vs : ι → Interpreter) (call : ι × Errand)
    (hfollows : Follows g g') (hid : id ≤ (g.stage i).lastId) (hkept : Kept g g' i id)
    (hown : g'.Marked i id → call.2 = .flush → i = call.1) : Kept g (g'.after vs call) i id := by
  obtain ⟨-, hafter⟩ := h'.after vs call
  have hid' : id ≤ (g'.stage i).lastId := Nat.le_trans hid (hfollows i).lastId_le
  rcases hkept with hpending | htended
  · by_cases hmounted : (g'.stage i).isMounted id = true
    · have hmarked : g'.Marked i id := ⟨hmounted, hpending⟩
      exact (h'.mark_after hmarked (hown hmarked)).imp_right fun htended =>
        htended.of_follows hid hfollows hafter
    · exact .inr fun hleft => absurd ((hafter i).isMounted id hid' hleft) hmounted
  · exact .inr (htended.follows hid' hafter)

/-! ## Main statement -/

/-- Marks are taken by those that they are meant for: whatever was marked is marked still, was
rendered again or is gone; and once all have flushed after a patch, whoever it affects was rendered
again or is gone. -/
structure Faithful (vs : ι → Interpreter) (calls : List (ι × Errand)) : Prop where
  kept : ∀ before since later, calls = before ++ since ++ later →
    ∀ i id, (run vs before).Marked i id → Kept (run vs before) (run vs (before ++ since)) i id
  renewed : ∀ before k r patch since later,
    calls = before ++ (k, .patch r patch) :: since ++ later → ∀ c live,
    (run vs before).live.apply r patch = .ok (c, live) → (∀ j, (j, .flush) ∈ since) →
    ∀ i id d, ((run vs before).stage i).isMounted id = true →
      d ∈ ((run vs before).stage i).dependencies id → c.affects d = true →
      Tended (run vs before) (run vs (before ++ (k, .patch r patch) :: since)) i id

/-- Whoever flushes finds no marks that are meant for others. -/
def Undisturbed (vs : ι → Interpreter) (calls : List (ι × Errand)) : Prop :=
  ∀ before k later, calls = before ++ (k, .flush) :: later →
    ∀ i ≠ k, ∀ id, ¬(run vs before).Marked i id

theorem Undisturbed.kept (h : Undisturbed vs calls) (before since later : List (ι × Errand))
    (hcalls : calls = before ++ since ++ later) (hmarked : (run vs before).Marked i id) :
    Kept (run vs before) (run vs (before ++ since)) i id := by
  have hid := (orderly_run vs before).le_lastId hmarked.1
  induction since using List.reverseRecOn generalizing later with
  | nil =>
    rw [List.append_nil]
    exact .inl hmarked.2
  | append_singleton since call ih =>
    have hcalls : calls = before ++ since ++ call :: later := by
      rw [hcalls]
      simp only [List.append_assoc, List.singleton_append]
    rw [← List.append_assoc, run_concat]
    refine (orderly_run vs _).kept_after vs call (follows_run vs before since) hid (ih _ hcalls) ?_
    intro hstill hflush
    by_contra hne
    have hcall : call = (call.1, .flush) := Prod.ext rfl hflush
    rw [hcall] at hcalls
    exact h _ _ _ hcalls i hne id hstill

/-- An interpreter that gets to its marks before the others flush renders what is marked. -/
theorem Undisturbed.tended (h : Undisturbed vs calls) (hcalls : calls = before ++ since ++ later)
    (hmarked : (run vs before).Marked i id) (hflush : (i, .flush) ∈ since) :
    Tended (run vs before) (run vs (before ++ since)) i id := by
  obtain ⟨earlier, rest, rfl⟩ := List.append_of_mem hflush
  have hid := (orderly_run vs before).le_lastId hmarked.1
  have hsplit : before ++ (earlier ++ (i, .flush) :: rest)
      = before ++ earlier ++ [(i, .flush)] ++ rest := by
    simp only [List.append_assoc, List.singleton_append]
  rw [hsplit] at hcalls ⊢
  have hkept := h.kept before earlier ([(i, .flush)] ++ rest ++ later)
    (by rw [hcalls]; simp only [List.append_assoc]) hmarked
  have hkept' := (orderly_run vs (before ++ earlier)).kept_after vs (i, .flush)
    (follows_run vs before earlier) hid hkept fun _ _ => rfl
  rw [Kept, (orderly_run vs (before ++ earlier)).pending_flush i, ← run_concat] at hkept'
  have hfollows := (follows_run vs before earlier).trans
    (follows_run vs (before ++ earlier) [(i, .flush)])
  exact (hkept'.resolve_left List.not_mem_nil).follows
    (Nat.le_trans hid (hfollows i).lastId_le) (follows_run vs _ rest)

/-- A patch marks whoever it affects, and leaves the boundaries alone. -/
theorem marked_patch {r : ModelRef} {patch : Patch} {c : Change} {live : Live} {d : Dependency}
    (k : ι) (happly : g.live.apply r patch = .ok (c, live))
    (hmounted : (g.stage i).isMounted id = true) (hd : d ∈ (g.stage i).dependencies id)
    (haffects : c.affects d = true) : (g.after vs (k, .patch r patch)).Marked i id := by
  have hworld : (g.world k).after (vs k) (.patch r patch) = (g.world k).withLive live := by
    have happly : (g.world k).stage.live.apply r patch = .ok (c, live) := happly
    simp only [World.after, happly]
  have hafter : g.after vs (k, .patch r patch) = { g with live } := by
    unfold after
    dsimp only
    rw [hworld]
    exact congrArg (Gallery.mk live g.outside) (Function.update_eq_self k g.boundaries)
  have hpending : id ∈ live.observers.pending := by
    rw [(Live.apply_eq_ok happly).2]
    exact Observers.mem_pending_notify hd haffects
  rw [hafter]
  exact ⟨hmounted, hpending⟩

/-- Marks are taken by those that they are meant for just if nobody flushes while a boundary of
another interpreter is marked. -/
theorem faithful_iff (vs : ι → Interpreter) (calls : List (ι × Errand)) :
    Faithful vs calls ↔ Undisturbed vs calls := by
  constructor
  · rintro h before k later rfl i hne id hmarked
    have hkept := h.kept before [(k, .flush)] later (by simp) i id hmarked
    rw [Kept, run_concat, (orderly_run vs before).pending_flush k] at hkept
    -- The flush has left the boundary where it was.
    have htended := hkept.resolve_left List.not_mem_nil
    have hlt := htended (((run vs before).isMounted_after_of_ne _ hne).trans hmarked.1)
    rw [(run vs before).renders_after_of_ne _ hne] at hlt
    exact Nat.lt_irrefl _ hlt
  · intro h
    refine ⟨fun before since later hcalls i id hmarked =>
      h.kept before since later hcalls hmarked, ?_⟩
    intro before k r patch since later hcalls c live happly hflush i id d hmounted hd haffects
    have hsplit : before ++ (k, .patch r patch) :: since
        = before ++ [(k, .patch r patch)] ++ since := by
      rw [List.append_assoc, List.singleton_append]
    have hmarked : (run vs (before ++ [(k, .patch r patch)])).Marked i id := by
      rw [run_concat]
      exact marked_patch k happly hmounted hd haffects
    rw [hsplit] at hcalls ⊢
    have hid := (orderly_run vs before).le_lastId hmounted
    exact (h.tended hcalls hmarked (hflush i)).of_follows hid (follows_run vs before _)
      (follows_run vs _ since)

end Gallery

/-! ## Two views of one list -/

namespace Todo

/-- To mount the titles in two interpreters, to append an item, and to bring first the one and then
the other up to date. -/
def twoViews : List (Bool × Errand) :=
  let ctx : Context := [("$root", .model (.root 1))]
  [(false, .create schema 0 (document ["a", "b"])), (false, .mount titles ctx),
    (true, .mount titles ctx), (false, .patch (.root 1) (append "c")), (false, .flush),
    (true, .flush)]

/-- The second interpreter never renders its list again, although the patch affects it. -/
theorem not_faithful_twoViews : ¬∀ (vs : Bool → Interpreter) (calls : List (Bool × Errand)),
    Gallery.Faithful vs calls := by
  intro h
  let vs : Bool → Interpreter := fun _ => .standard
  let before := Gallery.run vs (twoViews.take 3)
  let after := Gallery.run vs twoViews
  have haffected : (before.live.apply (.root 1) (append "c")).toOption.any
      (fun out => ((before.stage true).dependencies 7).any out.1.affects) = true := by
    decide +kernel
  have hmounted : (before.stage true).isMounted 7 = true := by decide +kernel
  have hleft : (after.stage true).isMounted 7 = true := by decide +kernel
  have hrenders : (after.stage true).renders 7 = (before.stage true).renders 7 := by decide +kernel
  cases happly : before.live.apply (.root 1) (append "c") with
  | error e =>
    rw [happly] at haffected
    exact Bool.false_ne_true haffected
  | ok out =>
    rw [happly] at haffected
    obtain ⟨d, hd, haffects⟩ := List.any_eq_true.1 haffected
    have htended := (h vs twoViews).renewed (twoViews.take 3) false (.root 1) (append "c")
      [(false, .flush), (true, .flush)] [] rfl out.1 out.2 happly
      (fun j => by cases j <;> simp) true 7 d hmounted hd haffects
    exact absurd (htended hleft) (Nat.not_lt_of_le (Nat.le_of_eq hrenders))

end Todo

end BoundView
