import BoundView.Proofs.Json.Alike
import BoundView.Proofs.View.World

/-!
# Static views

A view without bindings, collections and components is static.  To render one is to read nothing,
and what is put out displays its document: `Stage.Displays` says so of an output whatever is added
to the stage later on.  Main statement: the tree of a static view is the document of the view but
for the order of members and the way numbers are written, unless `2 ^ 63` is shown, and nobody
subscribes to anything.
-/

namespace BoundView

open ViewNode (classify truthyMember?)

/-! ## Static documents -/

namespace Json

/-- A document that has no bindings, no collections and no components as a view.  What is inside of
an object without a meaning does not count. -/
inductive Static (registry : Registry) : Json → Prop where
  | null : Static registry .null
  | bool (b : Bool) : Static registry (.bool b)
  | number (n : Number) : Static registry (.number n)
  | string {text : String} (hread : (Text.trimBlank text.toList).head? ≠ some '#')
      (hwrite : (Text.trimBlank text.toList).head? ≠ some '%') : Static registry (.string text)
  | array {items : List Json} (hitems : ∀ item ∈ items, Static registry item) :
      Static registry (.array items)
  | element {ms : Members Json} {tag : String} (hnodup : (ms.map Prod.fst).Nodup)
      (hsource : truthyMember? "[]" ms = none) (htag : truthyMember? "<>" ms = some (.string tag))
      (hhost : Members.find? tag registry = none)
      (hprops : ∀ pair ∈ ms, pair.1 ≠ "<>" → Static registry pair.2) :
      Static registry (.object ms)
  | raw {ms : Members Json} (hsource : truthyMember? "[]" ms = none)
      (htag : truthyMember? "<>" ms = none) : Static registry (.object ms)

/-- A number of a document, outside of objects without a meaning. -/
inductive ShowsNumber (n : Number) : Json → Prop where
  | number : ShowsNumber n (.number n)
  | array {items : List Json} {item : Json} (hitem : item ∈ items) (h : ShowsNumber n item) :
      ShowsNumber n (.array items)
  | element {ms : Members Json} {tag : Json} {pair : String × Json}
      (htag : truthyMember? "<>" ms = some tag) (hpair : pair ∈ ms) (hname : pair.1 ≠ "<>")
      (h : ShowsNumber n pair.2) : ShowsNumber n (.object ms)

/-- Whether the numbers of a document come back from binary64 as they were. -/
def Exact (j : Json) : Prop :=
  ∀ n, ShowsNumber n j → n.Proper ∧ Binary64.toRat n.toFloat = n.toRat

mutual

/-- A document with its numbers written as the binary64 numbers that they are read as. -/
def rewritten : Json → Json
  | .number n => ofFloat n.toFloat
  | .array items => .array (rewrittenItems items)
  | .object ms =>
    match truthyMember? "<>" ms with
    | some _ => .object (rewrittenMembers ms)
    | none => .object ms
  | leaf => leaf

def rewrittenItems : List Json → List Json
  | [] => []
  | item :: rest => rewritten item :: rewrittenItems rest

def rewrittenMembers : List (String × Json) → Members Json
  | [] => []
  | (name, value) :: rest => (name, rewritten value) :: rewrittenMembers rest

end

variable {registry : Registry} {j : Json} {n : Number} {items : List Json} {ms : Members Json}

theorem rewritten_array : rewritten (.array items) = .array (items.map rewritten) := by
  have hitems : rewrittenItems items = items.map rewritten := by
    induction items with
    | nil => rfl
    | cons item rest ih => rw [rewrittenItems, ih, List.map_cons]
  rw [rewritten, hitems]

theorem rewritten_element {tag : Json} (htag : truthyMember? "<>" ms = some tag) :
    rewritten (.object ms) = .object (Members.mapValues rewritten ms) := by
  have hmembers : rewrittenMembers ms = Members.mapValues rewritten ms := by
    clear htag
    induction ms with
    | nil => rfl
    | cons pair rest ih =>
      rw [rewrittenMembers, ih]
      rfl
  rw [rewritten, htag, hmembers]

theorem rewritten_raw (htag : truthyMember? "<>" ms = none) :
    rewritten (.object ms) = .object ms := by
  rw [rewritten, htag]

/-- A number that is shown stands at the same place before and after it is rewritten. -/
theorem ShowsNumber.exists_path (h : ShowsNumber n j) (hj : j.Static registry) :
    ∃ path, j.get? path = some (.number n) ∧ j.rewritten.get? path = some (ofFloat n.toFloat) := by
  induction h with
  | number => exact ⟨[], rfl, by rw [rewritten]; rfl⟩
  | @array items item hitem _ ih =>
    cases hj with
    | array hitems =>
      obtain ⟨path, hpath, hrewritten⟩ := ih (hitems item hitem)
      obtain ⟨i, hi⟩ := List.mem_iff_getElem?.1 hitem
      refine ⟨.index i :: path, ?_, ?_⟩
      · show items[i]?.bind _ = _
        rw [hi]
        exact hpath
      · rw [rewritten_array]
        show (items.map rewritten)[i]?.bind _ = _
        rw [List.getElem?_map, hi]
        exact hrewritten
  | @element ms tag pair htag hpair hname _ ih =>
    cases hj with
    | raw _ hnone => exact nomatch hnone.symm.trans htag
    | element hnodup _ _ _ hprops =>
      obtain ⟨path, hpath, hrewritten⟩ := ih (hprops pair hpair hname)
      have hfind : Members.find? pair.1 ms = some pair.2 := Members.find?_of_mem hnodup hpair
      refine ⟨.field pair.1 :: path, ?_, ?_⟩
      · show (Members.find? pair.1 ms).bind _ = _
        rw [hfind]
        exact hpath
      · rw [rewritten_element htag]
        show (Members.find? pair.1 (Members.mapValues rewritten ms)).bind _ = _
        rw [Members.find?_mapValues, hfind]
        exact hrewritten

/-- What is written for an exact number stands for it, unless the number is `2 ^ 63`. -/
theorem exists_rewritten (hproper : n.Proper) (hexact : Binary64.toRat n.toFloat = n.toRat) :
    ∃ m, ofFloat n.toFloat = .number m ∧ (m.toRat = n.toRat ↔ n.toRat ≠ 2 ^ 63) := by
  obtain ⟨m, hm, -, -⟩ := exists_ofFloat hproper.isFinite
  refine ⟨m, hm, ?_⟩
  rw [← hexact]
  exact toRat_ofFloat hproper.isFinite hm

/-- An exact document that is rewritten says the same just if it does not show `2 ^ 63`. -/
theorem Static.rewritten_alike_iff (h : j.Static registry) (hexact : j.Exact) :
    j.rewritten.Alike j ↔ ∀ n, ShowsNumber n j → n.toRat ≠ 2 ^ 63 := by
  constructor
  · intro halike n hn
    obtain ⟨path, hpath, hrewritten⟩ := hn.exists_path h
    obtain ⟨m, hm, hiff⟩ := exists_rewritten (hexact n hn).1 (hexact n hn).2
    have hhead := halike path
    rw [hpath, hrewritten, hm] at hhead
    exact hiff.1 (Head.number.inj (Option.some.inj hhead))
  · intro hne
    induction h with
    | null | bool | string => exact .refl _
    | number n =>
      obtain ⟨m, hm, hiff⟩ := exists_rewritten (hexact n .number).1 (hexact n .number).2
      rw [rewritten, hm]
      exact alike_number (hiff.2 (hne n .number))
    | @array items _ ih =>
      rw [rewritten_array]
      refine alike_array (List.length_map _) fun i x y hx hy => ?_
      rw [List.getElem?_map, hy] at hx
      obtain rfl := Option.some.inj hx
      have hmem := List.mem_of_getElem? hy
      exact ih y hmem (fun n hn => hexact n (.array hmem hn)) fun n hn => hne n (.array hmem hn)
    | @element ms tag hnodup hsource htag hhost _ ih =>
      rw [rewritten_element htag]
      have hnames : (Members.mapValues rewritten ms).map Prod.fst = ms.map Prod.fst :=
        List.map_map
      refine alike_object (fun name => by rw [hnames]) fun name v w hv hw => ?_
      rw [Members.find?_mapValues, hw] at hv
      obtain rfl := Option.some.inj hv
      have hmem := Members.mem_of_find? hw
      by_cases hname : name = "<>"
      -- The tag is a text, which stays as it is.
      · subst hname
        obtain rfl := Option.some.inj (hw.symm.trans (Option.filter_eq_some_iff.1 htag).1)
        exact .refl _
      · exact ih (name, w) hmem hname (fun n hn => hexact n (.element htag hmem hname hn))
          fun n hn => hne n (.element htag hmem hname hn)
    | raw _ htag =>
      rw [rewritten_raw htag]
      exact .refl _

end Json

/-! ## Outputs that display a document -/

/-- An output that reads no model where it is handed to the host. -/
def Rendered.Quiet (out : Rendered) : Prop :=
  ∀ models, (out.observeDeep models).2.reads = []

theorem Rendered.observeItems_reads {outs : List Rendered} (h : ∀ out ∈ outs, out.Quiet)
    (models : Models) : (Rendered.observeItems outs models).2.reads = [] := by
  induction outs with
  | nil => rfl
  | cons out rest ih =>
    rw [List.forall_mem_cons] at h
    have happend : (Rendered.observeItems (out :: rest) models).2.reads
        = (out.observeDeep models).2.reads ++ (Rendered.observeItems rest models).2.reads := rfl
    rw [happend, h.1 models, ih h.2, List.append_nil]

namespace Stage

variable {s s' s'' : Stage} {above above' id : BoundaryId} {out : Rendered} {j : Json}

/-- What was put out by the boundaries with a number above another one is still there. -/
structure Retains (above : BoundaryId) (s s' : Stage) : Prop where
  lastId_le : s.lastId ≤ s'.lastId
  output?_eq : ∀ id, above < id → id ≤ s.lastId → s'.output? id = s.output? id

theorem Retains.refl (above : BoundaryId) (s : Stage) : Retains above s s :=
  ⟨Nat.le_refl _, fun _ _ _ => rfl⟩

theorem Retains.trans (h : Retains above s s') (h' : Retains above s' s'') :
    Retains above s s'' where
  lastId_le := Nat.le_trans h.lastId_le h'.lastId_le
  output?_eq id hid hle :=
    (h'.output?_eq id hid (Nat.le_trans hle h.lastId_le)).trans (h.output?_eq id hid hle)

theorem Retains.mono (h : Retains above s s') (hle : above ≤ above') : Retains above' s s' :=
  ⟨h.lastId_le, fun id hid => h.output?_eq id (Nat.lt_of_le_of_lt hle hid)⟩

theorem Extends.retains (h : Extends s s') (above : BoundaryId) : Retains above s s' where
  lastId_le := h.lastId_le
  output?_eq id _ hle := by
    rw [output?, h.boundary?_eq id hle]
    rfl

/-- An output displays a document by boundaries with a number above another one, also when more is
added to the stage. -/
def Displays (s : Stage) (above : BoundaryId) (out : Rendered) (j : Json) : Prop :=
  ∀ s', Retains above s s' → ∀ depth, s'.countFrom (above + 1) ≤ depth →
    (out.tree s'.live.models (s'.treeWithin depth)).toJson.Reordered j

theorem Displays.carry (h : s.Displays above out j) (hretains : Retains above s s') :
    s'.Displays above out j :=
  fun s'' hretains' => h s'' (hretains.trans hretains')

theorem Displays.mono (h : s.Displays above' out j) (hle : above ≤ above') :
    s.Displays above out j :=
  fun s' hretains depth hdepth => h s' (hretains.mono hle) depth
    (Nat.le_trans (countFrom_le (Nat.succ_le_succ hle)) hdepth)

theorem Displays.value {v : Value} (h : ∀ models, (v.toJson models).1 = j) :
    s.Displays above (.value v) j := by
  intro s' _ depth _
  rw [Rendered.tree, RenderTree.toJson, h]
  exact .refl j

theorem Displays.raw (j : Json) : s.Displays above (.raw j) j :=
  fun _ _ _ _ => .refl j

theorem Displays.sequence {outs : List Rendered} {items : List Json}
    (h : List.Forall₂ (s.Displays above) outs items) :
    s.Displays above (.sequence outs) (.array items) := by
  intro s' hretains depth hdepth
  rw [Rendered.tree, RenderTree.toJson, ViewNode.toItems_treeItems]
  exact .of_forall₂ (List.forall₂_map_left_iff.2 (h.imp fun _ _ h => h s' hretains depth hdepth))

/-- Properties that display the members of the same names. -/
def DisplaysProps (s : Stage) (above : BoundaryId) (outs : Members Rendered)
    (ms : Members Json) : Prop :=
  List.Forall₂ (fun p q => p.1 = q.1 ∧ s.Displays above p.2 q.2) outs ms

theorem Displays.host {ms : Members Json} {tag : String} {outs : Members Rendered}
    (hnodup : (ms.map Prod.fst).Nodup) (htag : Members.find? "<>" ms = some (.string tag))
    (h : s.DisplaysProps above outs (Members.erase "<>" ms)) :
    s.Displays above (.host tag outs) (.object ms) := by
  intro s' hretains depth hdepth
  rw [Rendered.tree, RenderTree.toJson, ViewNode.toMembers_treeProps]
  refine .of_erase hnodup htag (List.forall₂_map_left_iff.2 (h.imp fun _ _ h => ?_))
  exact ⟨h.1, h.2 s' hretains depth hdepth⟩

/-- A boundary displays what it has put out. -/
theorem Displays.boundary (hlt : above < id) (hle : id ≤ s.lastId) (hout : s.output? id = some out)
    (h : s.Displays id out j) : s.Displays above (.boundary id) j := by
  intro s' hretains depth hdepth
  have hout : s'.output? id = some out := (hretains.output?_eq id hlt hle).trans hout
  obtain ⟨b, hb, -⟩ := Option.map_eq_some_iff.1 hout
  -- The boundary is one of those that are counted, and all that it hangs on have higher numbers.
  have hcount : s'.countFrom (id + 1) < depth :=
    Nat.lt_of_lt_of_le (countFrom_lt hb (Nat.lt_succ_self id))
      (Nat.le_trans (countFrom_le hlt) hdepth)
  cases depth with
  | zero => exact absurd hcount (Nat.not_lt_zero _)
  | succ depth =>
    rw [Rendered.tree, treeWithin, hout]
    exact h s' (hretains.mono (Nat.le_of_lt hlt)) depth (Nat.le_of_lt_succ hcount)

/-- Nobody depends on anything that they did not depend on before. -/
def Idle (s s' : Stage) : Prop :=
  ∀ id d, d ∈ s'.dependencies id → d ∈ s.dependencies id

end Stage

open Stage

/-! ## Renderings that read nothing -/

namespace Recorded

variable {α β : Type} {s : Stage} {post post' : Stage → BoundaryId → α → Prop}
  {post'' : Stage → BoundaryId → β → Prop}

/-- Nothing was read, and what came out has a property that may hang on all boundaries with a new
number. -/
structure Rests (s : Stage) (r : Rendering.Result α) (post : Stage → BoundaryId → α → Prop) :
    Prop where
  reads_eq : r.trace.reads = []
  idle : Idle s r.stage
  post : post r.stage s.lastId r.value

/-- A rendering that rests wherever there are no former children to choose from. -/
structure Still (p : Recorded α) (post : Stage → BoundaryId → α → Prop) : Prop where
  grows : p.Grows
  rests : ∀ s f?, Fits s f? → former f? = [] → Rests s (p.run s f?) post

theorem Still.pure {a : α} (h : ∀ s : Stage, post s s.lastId a) :
    (pure a : Recorded α).Still post where
  grows := .pure a
  rests s _ _ _ := ⟨rfl, fun _ _ hd => hd, h s⟩

theorem Still.mono {p : Recorded α} (h : p.Still post)
    (himp : ∀ s above a, post s above a → post' s above a) : p.Still post' where
  grows := h.grows
  rests s f? hfits hformer := by
    obtain ⟨hreads, hidle, hpost⟩ := h.rests s f? hfits hformer
    exact ⟨hreads, hidle, himp _ _ _ hpost⟩

theorem Still.ofReading {m : Reading α} (h : ∀ models, (m models).2.reads = []) :
    (ofReading m).Still fun _ _ _ => True where
  grows := .ofReading m
  rests s _ _ _ := ⟨h s.live.models, fun _ _ hd => hd, trivial⟩

/-- What the first part gave is known to the second one, which starts later and leaves it alone. -/
theorem Still.bind {p : Recorded α} {k : α → Recorded β} (h : p.Still post)
    (hgrows : ∀ a, (k a).Grows) (hk : ∀ s above a, post s above a →
      (k a).Still fun s' above' b => above ≤ above' → Retains above s s' → post'' s' above b) :
    (p >>= k).Still post'' where
  grows := h.grows.bind hgrows
  rests s f? hfits hformer := by
    obtain ⟨ids, hgrown⟩ := h.grows s f? hfits
    obtain ⟨hreads, hidle, hpost⟩ := h.rests s f? hfits hformer
    have hfits' := hfits.after hgrown
    obtain ⟨others, hgrown'⟩ := hgrows (p.run s f?).value _ _ hfits'
    have hformer' : former (f?.map (·.after ids)) = [] := by
      rw [former_after, hformer, List.drop_nil]
    obtain ⟨hreads', hidle', hpost'⟩ := (hk _ _ _ hpost).rests _ _ hfits' hformer'
    rw [(bind_of_eq (k := k) rfl rfl hgrown.frame?_eq).1]
    refine ⟨?_, fun id d hd => hidle id d (hidle' id d hd), ?_⟩
    · show (p.run s f?).trace.reads ++ _ = []
      rw [hreads, hreads', List.append_nil]
    · exact hpost' hgrown.sprouts.lastId_le (hgrown'.sprouts.toExtends.retains _)

theorem Still.bind_pure {p : Recorded α} {g : α → β} (h : p.Still post)
    (himp : ∀ s above a, post s above a → post'' s above (g a)) :
    (p >>= fun a => Pure.pure (g a)).Still post'' where
  grows := h.grows.bind fun _ => .pure _
  rests s f? hfits hformer := by
    obtain ⟨hreads, hidle, hpost⟩ := h.rests s f? hfits hformer
    refine ⟨?_, hidle, himp _ _ _ hpost⟩
    show (p.run s f?).trace.reads ++ [] = []
    rw [hreads, List.append_nil]

/-! ## Boundaries that are made -/

variable {body : Recorded Rendered} {j : Json}

/-- A new boundary whose body rests displays what its body does. -/
theorem Still.spawn (h : body.Still fun s above out => s.Displays above out j) (hs : s.Bounded)
    (role : Role) (node : ViewNode) (ctx : Context) (parent? : Option BoundaryId)
    (f? : Option Frame) :
    Rests s ((Recorded.spawn role node ctx parent? body).run s f?) fun s above id =>
      s.Displays above (.boundary id) j := by
  -- A new boundary has no former children to choose from.
  have hfits : Fits ((Rendering.planted s role node ctx parent?).opened (s.lastId + 1))
      (some ⟨s.lastId + 1, [], []⟩) := fits_planted hs
  obtain ⟨ids, hgrown⟩ := h.grows _ _ hfits
  obtain ⟨hreads, hidle, hdisplays⟩ := h.rests _ _ hfits rfl
  have hextends := hgrown.sprouts.toExtends
  rw [run_spawn rfl hgrown f?]
  generalize body.run ((Rendering.planted s role node ctx parent?).opened (s.lastId + 1))
    (some ⟨s.lastId + 1, [], []⟩) = r at hreads hidle hdisplays hextends ⊢
  obtain ⟨hself, hother⟩ := @Rendering.boundary?_closed (s.lastId + 1) _ _ _ r.trace.reads ids
    r.value rfl hextends boundary?_opened_planted
  refine ⟨rfl, fun c d hd => ?_, ?_⟩
  · have hd : d ∈ (r.stage.settle (s.lastId + 1) r.trace.reads).dependencies c := hd
    by_cases hc : c = s.lastId + 1
    · rw [hc, mem_dependencies_settle, hreads] at hd
      exact absurd hd List.not_mem_nil
    · rw [dependencies_settle_of_ne hc] at hd
      exact hidle c d hd
  · refine .boundary (Nat.lt_succ_self _) hextends.lastId_le ?_
      (hdisplays.carry ⟨Nat.le_refl _, ?_⟩)
    · exact congrArg (Option.map Boundary.output) hself
    · exact fun c hc _ => congrArg (Option.map Boundary.output) (hother c (Nat.ne_of_gt hc))

theorem Still.child (h : body.Still fun s above out => s.Displays above out j) (role : Role)
    (node : ViewNode) (ctx : Context) :
    (child role node ctx body).Still fun s above id => s.Displays above (.boundary id) j where
  grows := h.grows.child role node ctx
  rests s f? hfits hformer := by
    rcases h.grows.child_cases hfits.bounded role node ctx f? with ⟨_, hhead, -⟩
      | ⟨-, events, stage, inner?, hspawn, hrun, -⟩
    · rw [hformer] at hhead
      exact nomatch hhead
    · have hrests := h.spawn hfits.bounded role node ctx (f?.map Frame.owner) inner?
      rw [hspawn] at hrests
      rw [hrun]
      exact ⟨hrests.reads_eq, hrests.idle, hrests.post⟩

/-! ## Static nodes -/

variable (v : Interpreter)

/-- A node that is rendered to what displays a document, and is quiet where it is a property. -/
def StillNode (ctx : Context) (node : ViewNode) (j : Json) : Prop :=
  (resolve v ctx node).Still fun s above out => s.Displays above out j ∧ out.Quiet

variable {v} {ctx : Context}

theorem stillNode_literal {value : Value} (htree : ∀ models, (value.toJson models).1 = j)
    (hquiet : ∀ models, (value.observeDeep models).2.reads = []) :
    StillNode v ctx (.literal value) j := by
  unfold StillNode
  rw [resolve]
  exact .pure fun _ => ⟨.value htree, hquiet⟩

theorem stillNode_raw : StillNode v ctx (.raw j) j := by
  unfold StillNode
  rw [resolve]
  exact .pure fun _ => ⟨.raw j, fun _ => rfl⟩

theorem resolveItems_still {nodes : List ViewNode} {items : List Json}
    (h : List.Forall₂ (StillNode v ctx) nodes items) :
    (resolveItems v ctx nodes).Still fun s above outs =>
      List.Forall₂ (s.Displays above) outs items ∧ ∀ out ∈ outs, out.Quiet := by
  induction h with
  | nil =>
    rw [resolveItems]
    exact .pure fun _ => ⟨.nil, fun _ hout => absurd hout List.not_mem_nil⟩
  | cons hfirst _ ih =>
    rw [resolveItems]
    refine hfirst.bind (fun _ => (resolveItems_grows v _ ctx).bind fun _ => .pure _) ?_
    rintro s above out ⟨hout, hquiet⟩
    refine ih.bind_pure ?_
    rintro s' above' outs ⟨houts, hquiets⟩ hle hretains
    exact ⟨.cons (hout.carry hretains) (houts.imp fun _ _ h => h.mono hle),
      List.forall_mem_cons.2 ⟨hquiet, hquiets⟩⟩

theorem stillNode_sequence {nodes : List ViewNode} {items : List Json}
    (h : List.Forall₂ (StillNode v ctx) nodes items) :
    StillNode v ctx (.sequence nodes) (.array items) := by
  unfold StillNode
  rw [resolve]
  exact (resolveItems_still h).bind_pure fun s above outs houts =>
    ⟨.sequence houts.1, Rendered.observeItems_reads houts.2⟩

theorem resolveProps_still {props : Members ViewNode} {ms : Members Json}
    (h : List.Forall₂ (fun p q => p.1 = q.1 ∧ StillNode v ctx p.2 q.2) props ms) :
    (resolveProps v ctx props).Still fun s above outs => s.DisplaysProps above outs ms := by
  induction h with
  | nil =>
    rw [resolveProps]
    exact .pure fun _ => .nil
  | @cons p q props ms hfirst _ ih =>
    have hgrows := resolveProps_grows v props ctx
    rw [resolveProps]
    refine hfirst.2.bind (fun _ => (Grows.ofReading _).bind fun _ =>
      hgrows.bind fun _ => .pure _) ?_
    rintro s above out ⟨hout, hquiet⟩
    refine (Still.ofReading hquiet).bind (fun _ => hgrows.bind fun _ => .pure _) ?_
    intro s₁ above₁ _ _
    refine ih.bind_pure fun s₂ above₂ outs houts hle₁ hretains₁ hle hretains => ?_
    exact .cons ⟨hfirst.1, hout.carry hretains⟩
      (houts.imp fun _ _ h => ⟨h.1, h.2.mono (Nat.le_trans hle hle₁)⟩)

theorem renderElement_still {tag : String} {render : Recorded (Members Rendered)}
    {ms : Members Json} (hnodup : (ms.map Prod.fst).Nodup)
    (htag : Members.find? "<>" ms = some (.string tag))
    (hhost : Members.find? tag v.registry = none)
    (h : render.Still fun s above outs => s.DisplaysProps above outs (Members.erase "<>" ms)) :
    (renderElement v tag render).Still fun s above out => s.Displays above out (.object ms) := by
  unfold renderElement
  rw [hhost]
  exact h.bind_pure fun s above outs houts => .host hnodup htag houts

theorem stillNode_element {tag : String} {props : Members ViewNode} {ms : Members Json}
    (hnodup : (ms.map Prod.fst).Nodup) (htag : Members.find? "<>" ms = some (.string tag))
    (hhost : Members.find? tag v.registry = none)
    (h : List.Forall₂ (fun p q => p.1 = q.1 ∧ StillNode v ctx p.2 q.2) props
      (Members.erase "<>" ms)) :
    StillNode v ctx (.element tag props) (.object ms) := by
  unfold StillNode
  rw [resolve]
  have hbody := renderElement_still hnodup htag hhost (resolveProps_still h)
  exact (hbody.child _ _ _).bind_pure fun s above id hid => ⟨hid, fun _ => rfl⟩

/-- A static document is rendered to what displays it with its numbers rewritten. -/
theorem stillNode_classify (h : j.Static v.registry) (ctx : Context) :
    StillNode v ctx (classify j) j.rewritten := by
  induction h with
  | null => exact stillNode_literal (fun _ => rfl) fun _ => rfl
  | bool b => exact stillNode_literal (fun _ => rfl) fun _ => rfl
  | number n => exact stillNode_literal (fun _ => rfl) fun _ => rfl
  | @string text hread hwrite =>
    have hliteral : classify (.string text) = .literal (.string text) := by
      rw [classify, ViewNode.ofText]
      split
      · rename_i htrim
        exact absurd (congrArg List.head? htrim) hread
      · rename_i htrim
        exact absurd (congrArg List.head? htrim) hwrite
      · rfl
    rw [hliteral]
    exact stillNode_literal (fun _ => rfl) fun _ => rfl
  | @array items _ ih =>
    rw [classify, ViewNode.classifyItems_eq, Json.rewritten_array]
    refine stillNode_sequence (List.forall₂_map_left_iff.2 (List.forall₂_map_right_iff.2 ?_))
    exact List.forall₂_same.2 ih
  | @element ms tag hnodup hsource htag hhost _ ih =>
    have helement : classify (.object ms)
        = .element tag (Members.mapValues classify (Members.erase "<>" ms)) := by
      rw [classify, ViewNode.ofMembers, hsource, htag, ViewNode.classifyMembers_eq,
        Members.mapValues_erase]
      rfl
    have hnames : (Members.mapValues Json.rewritten ms).map Prod.fst = ms.map Prod.fst :=
      List.map_map
    have htext : Members.find? "<>" (Members.mapValues Json.rewritten ms)
        = some (.string tag) := by
      rw [Members.find?_mapValues, (Option.filter_eq_some_iff.1 htag).1]
      rfl
    rw [helement, Json.rewritten_element htag]
    refine stillNode_element (hnames ▸ hnodup) htext hhost ?_
    rw [← Members.mapValues_erase]
    refine List.forall₂_map_left_iff.2 (List.forall₂_map_right_iff.2 ?_)
    refine List.forall₂_same.2 fun pair hpair => ⟨rfl, ?_⟩
    refine ih pair ((Members.erase_sublist _ _).subset hpair) fun hname => ?_
    have hnone : Members.find? "<>" (Members.erase "<>" ms) = none :=
      Members.find?_erase_self hnodup
    exact Members.find?_eq_none_iff.1 hnone (List.mem_map.2 ⟨pair, hpair, hname⟩)
  | @raw ms hsource htag =>
    have hraw : classify (.object ms) = .raw (.object ms) := by
      rw [classify, ViewNode.ofMembers, hsource, htag]
    rw [hraw, Json.rewritten_raw htag]
    exact stillNode_raw

/-- What is mounted is rendered to what displays it. -/
theorem evaluate_still (h : j.Static v.registry) (ctx : Context) :
    (evaluate v .view (classify j) ctx).Still fun s above out =>
      s.Displays above out j.rewritten := by
  have hevaluate : evaluate v .view (classify j) ctx = resolve v ctx (classify j) := by
    cases classify j <;> rfl
  rw [hevaluate]
  exact (stillNode_classify h ctx).mono fun _ _ _ hout => hout.1

end Recorded

/-! ## Main statement -/

namespace Interpreter

open Recorded

/-- A static view that is mounted shows its document with its numbers rewritten, and is subscribed
to nothing. -/
theorem tree_mount (v : Interpreter) (errands : List Errand) (ctx : Context) {j : Json}
    (h : j.Static v.registry) :
    let before := (v.run errands).stage
    let mounted := (v.mount (classify j) ctx).perform before
    (∃ tree, mounted.2.2.tree? mounted.1 = some tree ∧ tree.toJson.Reordered j.rewritten)
      ∧ (∀ id, mounted.2.2.dependencies id = before.dependencies id)
      ∧ ∀ id, before.lastId < id → mounted.2.2.dependencies id = [] := by
  have horderly := v.orderly_run errands
  generalize v.run errands = w at horderly
  intro before mounted
  have hstill := evaluate_still h ctx
  obtain ⟨events, after, hrun, hsprouts, -, hplace, -⟩ :=
    hstill.grows.spawn horderly.stage.bounded .view (classify j) ctx none none
  have hrests := hstill.spawn horderly.stage.bounded .view (classify j) ctx none none
  have hmounted : mounted = (before.lastId + 1, events, after) := by
    show (v.mount (classify j) ctx).perform before = _
    rw [World.mount_eq, Rendering.perform, hrun]
  rw [hrun] at hrests
  rw [hmounted]
  have hnew (id : BoundaryId) (hid : before.lastId < id) : after.dependencies id = [] := by
    refine List.eq_nil_iff_forall_not_mem.2 fun d hd => ?_
    have hd := hrests.idle id d hd
    rw [horderly.dependencies_of_lt hid] at hd
    exact absurd hd List.not_mem_nil
  refine ⟨⟨after.tree (before.lastId + 1), ?_, ?_⟩, fun id => ?_, hnew⟩
  · obtain ⟨b, hb, -⟩ := exists_boundary? hplace
    exact if_pos (isMounted_of_boundary? hb)
  · exact hrests.post after (.refl _ after) _ (List.length_filter_le _ _)
  · by_cases hid : id ≤ before.lastId
    · exact hsprouts.dependencies_eq id hid
    · rw [hnew id (Nat.lt_of_not_le hid), horderly.dependencies_of_lt (Nat.lt_of_not_le hid)]

/-- A view that is mounted shows its own document. -/
def ShowsItself (v : Interpreter) (s : Stage) (ctx : Context) (j : Json) : Prop :=
  let mounted := (v.mount (classify j) ctx).perform s
  ∃ tree, mounted.2.2.tree? mounted.1 = some tree ∧ tree.toJson.Alike j

theorem showsItself_iff (v : Interpreter) (errands : List Errand) (ctx : Context) {j : Json}
    (h : j.Static v.registry) (hexact : j.Exact) :
    v.ShowsItself (v.run errands).stage ctx j ↔ ∀ n, Json.ShowsNumber n j → n.toRat ≠ 2 ^ 63 := by
  obtain ⟨tree, htree, hreordered⟩ := (v.tree_mount errands ctx h).1
  rw [← h.rewritten_alike_iff hexact]
  constructor
  · rintro ⟨tree', htree', halike⟩
    obtain rfl := Option.some.inj (htree.symm.trans htree')
    exact hreordered.alike.symm.trans halike
  · exact fun halike => ⟨tree, htree, hreordered.alike.trans halike⟩

/-- Whatever was done before and whatever names a scope has, a static view that is mounted shows its
document with its numbers rewritten, and neither its boundaries nor any other observer depend on
anything for it.  If the numbers are exact, it shows its own document just if `2 ^ 63` is not among
them. -/
theorem mount_static (v : Interpreter) (errands : List Errand) (ctx : Context) {j : Json}
    (h : j.Static v.registry) :
    let before := (v.run errands).stage
    let mounted := (v.mount (classify j) ctx).perform before
    (∃ tree, mounted.2.2.tree? mounted.1 = some tree ∧ tree.toJson.Reordered j.rewritten)
      ∧ (j.Exact → (v.ShowsItself before ctx j ↔ ∀ n, Json.ShowsNumber n j → n.toRat ≠ 2 ^ 63))
      ∧ (∀ id, mounted.2.2.dependencies id = before.dependencies id)
      ∧ ∀ id, before.lastId < id → mounted.2.2.dependencies id = [] := by
  obtain ⟨htree, hkept, hnew⟩ := v.tree_mount errands ctx h
  exact ⟨htree, v.showsItself_iff errands ctx h, hkept, hnew⟩

/-- A page with an empty source, and with an object whose tag is zero. -/
def leaflet : Json :=
  .object [("title", .string "100% #1"), ("<>", .string "main"), ("[]", .string ""),
    ("children", .array [.object [("<>", .string "p"), ("text", .string "Welcome")], .null,
      .object [("<>", .number (.int 0)), ("text", .string "#name")], .number (.int 7)])]

theorem static_leaflet : leaflet.Static standard.registry := by
  have hparagraph : Json.Static standard.registry
      (.object [("<>", .string "p"), ("text", .string "Welcome")]) := by
    refine @Json.Static.element _ _ "p" (by decide) rfl rfl rfl ?_
    refine List.forall_mem_cons.2 ⟨fun hne => absurd rfl hne,
      List.forall_mem_singleton.2 fun _ => ?_⟩
    exact .string (by decide) (by decide)
  have hchildren : Json.Static standard.registry
      (.array [.object [("<>", .string "p"), ("text", .string "Welcome")], .null,
        .object [("<>", .number (.int 0)), ("text", .string "#name")], .number (.int 7)]) := by
    refine .array (List.forall_mem_cons.2 ⟨hparagraph, List.forall_mem_cons.2 ⟨.null, ?_⟩⟩)
    exact List.forall_mem_cons.2 ⟨.raw rfl rfl, List.forall_mem_singleton.2 (.number _)⟩
  refine @Json.Static.element _ _ "main" (by decide) rfl rfl rfl ?_
  refine List.forall_mem_cons.2 ⟨fun _ => .string (by decide) (by decide), ?_⟩
  refine List.forall_mem_cons.2 ⟨fun hne => absurd rfl hne, ?_⟩
  refine List.forall_mem_cons.2 ⟨fun _ => .string (by decide) (by decide), ?_⟩
  exact List.forall_mem_singleton.2 fun _ => hchildren

/-- The tag that is zero is inside of an object without a meaning. -/
theorem eq_of_showsNumber_leaflet {n : Json.Number} (h : Json.ShowsNumber n leaflet) :
    n = .int 7 := by
  have hraw : truthyMember? "<>" [("<>", Json.number (.int 0)), ("text", .string "#name")] = none :=
    rfl
  cases h with
  | element _ hpair _ h =>
    simp only [List.mem_cons, List.not_mem_nil, or_false] at hpair
    rcases hpair with rfl | rfl | rfl | rfl
    · cases h
    · cases h
    · cases h
    cases h with
    | array hitem h =>
      simp only [List.mem_cons, List.not_mem_nil, or_false] at hitem
      rcases hitem with rfl | rfl | rfl | rfl
      · cases h with
        | element _ hpair _ h =>
          simp only [List.mem_cons, List.not_mem_nil, or_false] at hpair
          rcases hpair with rfl | rfl <;> cases h
      · cases h
      · cases h with
        | element htag => cases hraw.symm.trans htag
      · cases h with
        | number => rfl

theorem exact_leaflet : leaflet.Exact := by
  intro n hn
  obtain rfl := eq_of_showsNumber_leaflet hn
  exact ⟨⟨by decide, by decide⟩, Binary64.toRat_ofInt (by decide)⟩

/-- It is shown as it is beside a list that was mounted before, and reads no name of its scope. -/
theorem mount_static_leaflet : leaflet.Static standard.registry ∧ leaflet.Exact
    ∧ standard.ShowsItself (standard.run listErrands).stage [("name", .string "Ann")] leaflet := by
  refine ⟨static_leaflet, exact_leaflet, ?_⟩
  have hiff := (standard.mount_static listErrands [("name", .string "Ann")] static_leaflet).2.1
  refine (hiff exact_leaflet).2 fun n hn => ?_
  obtain rfl := eq_of_showsNumber_leaflet hn
  rw [Json.Number.toRat]
  norm_num

/-- The power of two that is written one less. -/
def power : Json :=
  .number (.int (2 ^ 63))

/-- It is an exact binary64 number, and is not shown as it is. -/
theorem not_showsItself_power : power.Static standard.registry ∧ power.Exact
    ∧ ¬standard.ShowsItself (standard.run []).stage [] power := by
  have hpower : (Json.Number.int (2 ^ 63)).toRat = 2 ^ 63 := by norm_num [Json.Number.toRat]
  have hexact : power.Exact := by
    intro n hn
    cases hn
    refine ⟨⟨by decide, by decide⟩, ?_⟩
    exact Binary64.toRat_of_integer? (n := 2 ^ 63) (by decide +kernel)
  refine ⟨.number _, hexact, fun hshows => ?_⟩
  exact (standard.showsItself_iff [] [] (.number _) hexact).1 hshows _ .number hpower

end Interpreter

end BoundView
