import BoundView.Proofs.Json.Path
import BoundView.Proofs.Outcome
import BoundView.Proofs.Value.Related
import BoundView.Value.Reading

/-!
# Readings before and after

A reading is made twice, of models before and of models after.  Where nothing that the first reading
recorded was affected in between, both give related results and record the same.  This is put
together from the looks at single nodes, for which it has to be known.
-/

namespace BoundView

open Json (SameTop)
open Outcome (Alike)

/-- Models before and after, of which everything that an unaffected dependency stands for is the
same.  Whether a reference leads to an array is looked at without being recorded, so this has to be
known of all references that are held. -/
structure Twins (before after : Models) (unaffected : Dependency → Prop)
    (held : ModelRef → Prop) : Prop where
  sameTop : ∀ q : ModelRef, unaffected (q.dependency false) →
    Option.Rel SameTop (q.node? before) (q.node? after)
  node?_eq : ∀ q : ModelRef, unaffected (q.dependency true) → q.node? after = q.node? before
  computed?_eq : ∀ (q : ModelRef) name, q.computed? name after = q.computed? name before
  isArray_eq : ∀ q : ModelRef, held q → q.isArray after = q.isArray before
  held_root : ∀ q : ModelRef, held q → held (.root q.model)
  held_loaded : ∀ (q : ModelRef) v, unaffected (q.dependency false) →
    (q.load before).1 = .model v → held v

namespace Reading

variable (before after : Models) (unaffected : Dependency → Prop)

/-- If nothing that the first reading records is affected, both give related results and record the
same. -/
def Agree {α β : Type} (rel : α → β → Prop) (m : Reading α) (m' : Reading β) : Prop :=
  (∀ d ∈ (m before).2.reads, unaffected d) →
    rel (m before).1 (m' after).1 ∧ (m' after).2.reads = (m before).2.reads

variable {before after unaffected} {α α' β β' : Type} {rel : α → α' → Prop} {rel' : β → β' → Prop}

theorem Agree.pure {a : α} {b : α'} (h : rel a b) :
    Agree before after unaffected rel (pure a) (pure b) :=
  fun _ => ⟨h, rfl⟩

theorem Agree.bind {m : Reading α} {m' : Reading α'} {f : α → Reading β} {f' : α' → Reading β'}
    (h : Agree before after unaffected rel m m')
    (hf : ∀ a b, rel a b → Agree before after unaffected rel' (f a) (f' b)) :
    Agree before after unaffected rel' (m >>= f) (m' >>= f') := by
  intro hreads
  -- The second reading goes on from related results, and its reads count as well.
  have hreads' : ∀ d ∈ (m before).2.reads ++ (f (m before).1 before).2.reads, unaffected d := hreads
  obtain ⟨hrel, htrace⟩ := h fun d hd => hreads' d (List.mem_append_left _ hd)
  obtain ⟨hrel', htrace'⟩ := hf _ _ hrel fun d hd => hreads' d (List.mem_append_right _ hd)
  refine ⟨hrel', ?_⟩
  show (m' after).2.reads ++ (f' (m' after).1 after).2.reads
    = (m before).2.reads ++ (f (m before).1 before).2.reads
  rw [htrace, htrace']

theorem Agree.map {m : Reading α} {m' : Reading α'} {f : α → β} {f' : α' → β'}
    (h : Agree before after unaffected rel m m') (hf : ∀ a b, rel a b → rel' (f a) (f' b)) :
    Agree before after unaffected rel' (f <$> m) (f' <$> m') :=
  h.bind fun a b hab => .pure (hf a b hab)

theorem Agree.peek {f : Models → α} {f' : Models → α'} (h : rel (f before) (f' after)) :
    Agree before after unaffected rel (Reading.peek f) (Reading.peek f') :=
  fun _ => ⟨h, rfl⟩

theorem Agree.peek_any (f : Models → α) (f' : Models → α') :
    Agree before after unaffected (fun _ _ => True) (Reading.peek f) (Reading.peek f') :=
  .peek trivial

theorem Agree.log (e e' : Event) :
    Agree before after unaffected (fun _ _ => True) (Reading.log e) (Reading.log e') :=
  fun _ => ⟨trivial, rfl⟩

/-- What is done behind a record may rely on the record. -/
theorem Agree.record_bind {d : Dependency} {m : Reading α} {m' : Reading α'}
    (h : unaffected d → Agree before after unaffected rel m m') :
    Agree before after unaffected rel (Reading.record d >>= fun _ => m)
      (Reading.record d >>= fun _ => m') := by
  intro hreads
  have hreads' : ∀ e ∈ d :: (m before).2.reads, unaffected e := hreads
  obtain ⟨hrel, htrace⟩ :=
    h (hreads' d List.mem_cons_self) fun e he => hreads' e (List.mem_cons_of_mem d he)
  exact ⟨hrel, congrArg (d :: ·) htrace⟩

/-! ## Readings that may fail -/

/-- Agreement of readings that may fail; it is enough that both do. -/
abbrev Fallible.Agree (before after : Models) (unaffected : Dependency → Prop) {α β : Type}
    (rel : α → β → Prop) (m : Fallible α) (m' : Fallible β) : Prop :=
  Reading.Agree before after unaffected (Alike rel) m.run m'.run

theorem Fallible.Agree.pure {a : α} {b : α'} (h : rel a b) :
    Fallible.Agree before after unaffected rel (Pure.pure a) (Pure.pure b) :=
  Reading.Agree.pure (.ok h)

theorem Fallible.Agree.throw (e e' : Expr.Error) :
    Fallible.Agree before after unaffected rel (throw e) (throw e') :=
  Reading.Agree.pure (.error e e')

theorem Fallible.Agree.lift {m : Reading α} {m' : Reading α'}
    (h : Reading.Agree before after unaffected rel m m') :
    Fallible.Agree before after unaffected rel (Reading.lift m) (Reading.lift m') :=
  Reading.Agree.map h fun _ _ hab => .ok hab

theorem Fallible.Agree.bind {m : Fallible α} {m' : Fallible α'} {f : α → Fallible β}
    {f' : α' → Fallible β'} (h : Fallible.Agree before after unaffected rel m m')
    (hf : ∀ a b, rel a b → Fallible.Agree before after unaffected rel' (f a) (f' b)) :
    Fallible.Agree before after unaffected rel' (m >>= f) (m' >>= f') := by
  show Reading.Agree before after unaffected (Alike rel') (m.run >>= ExceptT.bindCont f)
    (m'.run >>= ExceptT.bindCont f')
  refine Reading.Agree.bind h fun a b hab => ?_
  cases hab with
  | error e e' => exact Reading.Agree.pure (.error e e')
  | ok hab => exact hf _ _ hab

end Reading

/-! ## Looks at nodes -/

section Looks

variable {before after : Models} {unaffected : Dependency → Prop} {held : ModelRef → Prop}
  {same : Float → Float → Prop} {maps : Prop}

open Reading (Agree)
open Value (Related RelatedItems RelatedMembers)

theorem ModelRef.load_related (htwins : Twins before after unaffected held)
    (hsame : Congruence same) (q : ModelRef) (hq : unaffected (q.dependency false)) :
    Related same maps held (q.load before).1 (q.load after).1 := by
  have htop := htwins.sameTop q hq
  have hheld := htwins.held_loaded q q hq
  unfold load Reading.peek at hheld ⊢
  dsimp only at hheld ⊢
  -- A container is not looked into: what is read is a reference to it.
  generalize q.node? before = node at htop hheld ⊢
  generalize q.node? after = node' at htop ⊢
  cases htop with
  | none => exact .undefined
  | some htop =>
    cases htop with
    | refl =>
      rename_i j
      cases j with
      | null => exact .null
      | bool b => exact .bool b
      | number n => exact .number (hsame.refl _)
      | string s => exact .string s
      | array xs => exact .model (hheld rfl)
      | object ms => exact .model (hheld rfl)
    | object ms ns => exact .model (hheld rfl)
    | array h => exact .model (hheld rfl)

theorem ModelRef.readChild_agree (htwins : Twins before after unaffected held)
    (hsame : Congruence same) (q : ModelRef) (seg : Seg) :
    Agree before after unaffected (Related same maps held) (q.readChild seg) (q.readChild seg) :=
  .record_bind fun hd => fun _ => ⟨ModelRef.load_related htwins hsame (q.child seg) hd, rfl⟩

theorem ModelRef.length?_agree (htwins : Twins before after unaffected held) (q : ModelRef) :
    Agree before after unaffected Eq q.length? q.length? := by
  refine .record_bind fun hd => .peek ?_
  have htop := htwins.sameTop q hd
  generalize q.node? before = node at htop ⊢
  generalize q.node? after = node' at htop ⊢
  cases htop with
  | none => rfl
  | some htop =>
    cases htop with
    | refl | object => rfl
    | array h => simp only [h]

theorem ModelRef.elements_agree (htwins : Twins before after unaffected held)
    (hsame : Congruence same) (q : ModelRef) (index count : Nat) :
    Agree before after unaffected (RelatedItems same maps held) (q.elements index count)
      (q.elements index count) := by
  induction count generalizing index with
  | zero => exact .pure .nil
  | succ count ih =>
    have hfirst : Agree before after unaffected (Related same maps held)
        (q.readChild (.index index)) (q.readChild (.index index)) :=
      ModelRef.readChild_agree htwins hsame q _
    refine hfirst.bind fun v w hv => ?_
    exact (ih (index + 1)).bind fun vs ws hvs => .pure (.cons hv hvs)

theorem ModelRef.items?_agree (htwins : Twins before after unaffected held)
    (hsame : Congruence same) (q : ModelRef) :
    Agree before after unaffected (Option.Rel (RelatedItems same maps held)) q.items? q.items? := by
  refine (ModelRef.length?_agree htwins q).bind fun length length' hlength => ?_
  subst hlength
  cases length with
  | none => exact .pure .none
  | some length =>
    have helements : Agree before after unaffected (RelatedItems same maps held)
        (q.elements 0 length) (q.elements 0 length) :=
      ModelRef.elements_agree htwins hsame q 0 length
    exact helements.map fun _ _ h => .some h

theorem ModelRef.snapshot_agree (htwins : Twins before after unaffected held) (q : ModelRef) :
    Agree before after unaffected Eq q.snapshot q.snapshot :=
  .record_bind fun hd => .peek (by rw [htwins.node?_eq q hd])

/-! ## Values -/

mutual

theorem Value.toJson_agree (htwins : Twins before after unaffected held) (hsame : Congruence same) :
    ∀ {v w : Value}, Related same maps held v w →
      Agree before after unaffected Eq v.toJson w.toJson := by
  intro v w h
  cases h with
  | undefined | null => exact .pure rfl
  | bool | string => exact .pure rfl
  | number h => exact .pure (hsame.ofFloat_eq h)
  | list h =>
    rw [toJson, toJson]
    exact (Value.toItems_agree htwins hsame h).bind fun _ _ h => .pure (by rw [h])
  | map _ h =>
    rw [toJson, toJson]
    exact (Value.toMembers_agree htwins hsame h).bind fun _ _ h => .pure (by rw [h])
  | model h =>
    rw [toJson]
    exact ModelRef.snapshot_agree htwins _

theorem Value.toItems_agree (htwins : Twins before after unaffected held)
    (hsame : Congruence same) : ∀ {vs ws : List Value}, RelatedItems same maps held vs ws →
      Agree before after unaffected Eq (toItems vs) (toItems ws) := by
  intro vs ws h
  cases h with
  | nil => exact .pure rfl
  | cons h hs =>
    rw [toItems, toItems]
    refine (Value.toJson_agree htwins hsame h).bind fun j j' hj => ?_
    exact (Value.toItems_agree htwins hsame hs).bind fun js js' hjs => .pure (by rw [hj, hjs])

theorem Value.toMembers_agree (htwins : Twins before after unaffected held)
    (hsame : Congruence same) :
    ∀ {ms ns : List (String × Value)}, RelatedMembers same maps held ms ns →
      Agree before after unaffected Eq (toMembers ms) (toMembers ns) := by
  intro ms ns h
  cases h with
  | nil => exact .pure rfl
  | cons name h hs =>
    rw [toMembers, toMembers]
    refine (Value.toJson_agree htwins hsame h).bind fun j j' hj => ?_
    exact (Value.toMembers_agree htwins hsame hs).bind fun js js' hjs => .pure (by rw [hj, hjs])

end

theorem Value.items?_agree (htwins : Twins before after unaffected held) (hsame : Congruence same)
    {v w : Value} (h : Related same maps held v w) :
    Agree before after unaffected (Option.Rel (RelatedItems same maps held)) v.items? w.items? := by
  cases h with
  | list h => exact .pure (.some h)
  | model h => exact ModelRef.items?_agree htwins hsame _
  | undefined | null | bool | number | string | map => exact .pure .none

theorem Value.display_agree (htwins : Twins before after unaffected held)
    (hsame : Congruence same) {v w : Value} (h : Related same maps held v w) :
    Agree before after unaffected Eq v.display w.display := by
  have hcompact : Agree before after unaffected Eq (Json.compact <$> v.toJson)
      (Json.compact <$> w.toJson) :=
    (Value.toJson_agree htwins hsame h).map fun _ _ heq => congrArg _ heq
  cases h with
  | undefined => exact .pure rfl
  | string => exact .pure rfl
  | null | bool | number | list | map | model => exact hcompact

theorem Value.displayAll_agree (htwins : Twins before after unaffected held)
    (hsame : Congruence same) {vs ws : List Value} (h : RelatedItems same maps held vs ws) :
    Agree before after unaffected Eq (displayAll vs) (displayAll ws) := by
  induction vs generalizing ws with
  | nil =>
    cases h
    exact .pure rfl
  | cons v vs ih =>
    cases h with
    | cons h hs =>
      refine (Value.display_agree htwins hsame h).bind fun s s' heq => ?_
      exact (ih hs).bind fun ss ss' heqs => .pure (by rw [heq, heqs])

end Looks

end BoundView
