import BoundView.Proofs.Model.Absolute
import Mathlib

/-!
# How pointers of patches are spelled

RFC 6901 has one text for each location, but patches are read more freely: zeros or a plus sign may
stand in front of a position, and a tilde may stand for itself.  Main statement: the change of an
accepted patch is where its pointer says just if that pointer is spelled as RFC 6901 has it, and
then no other text that is spelled so leads there, but for the dash behind the last element.
-/

namespace BoundView

open Outcome (bind_eq_ok)

namespace Pointer

/-! ## Positions -/

/-- The text of a position as RFC 6901 writes it: a zero, or digits that do not begin with one. -/
inductive ArrayIndex : List Char → Prop where
  | zero : ArrayIndex ['0']
  | positive {c : Char} {rest : List Char} (hc : c.isDigit = true) (hzero : c ≠ '0')
      (hrest : ∀ d ∈ rest, d.isDigit = true) : ArrayIndex (c :: rest)

theorem ArrayIndex.isDigit {cs : List Char} (h : ArrayIndex cs) : ∀ c ∈ cs, c.isDigit = true := by
  cases h with
  | zero => simp
  | positive hc hzero hrest => exact List.forall_mem_cons.2 ⟨hc, hrest⟩

theorem le_toNat_of_isDigit {c : Char} (h : c.isDigit = true) : 48 ≤ c.toNat ∧ c.toNat ≤ 57 := by
  simpa [Char.isDigit, UInt32.le_iff_toNat_le] using h

theorem digitChar_sub_of_isDigit {c : Char} (h : c.isDigit = true) :
    Nat.digitChar (c.toNat - 48) = c := by
  have hc := le_toNat_of_isDigit h
  apply Char.toNat_inj.1
  rw [Nat.toNat_digitChar_of_lt_ten (by omega)]
  omega

/-- Digits go behind those of a number that is not zero. -/
theorem toDigits_append {cs : List Char} (h : ∀ c ∈ cs, c.isDigit = true) {n : Nat} (hn : 0 < n) :
    Nat.toDigits 10 n ++ cs = Nat.toDigits 10 (Nat.ofDigitChars 10 cs n) := by
  induction cs generalizing n with
  | nil => rw [List.append_nil, Nat.ofDigitChars_nil]
  | cons c cs ih =>
    rw [List.forall_mem_cons] at h
    have hc := le_toNat_of_isDigit h.1
    have hlt : c.toNat - 48 < 10 := by omega
    have hdigit : Nat.toDigits 10 n ++ [c] = Nat.toDigits 10 (10 * n + (c.toNat - 48)) := by
      rw [← Nat.toDigits_append_toDigits (by decide) hn hlt, Nat.toDigits_of_lt_base hlt,
        digitChar_sub_of_isDigit h.1]
    rw [Nat.ofDigitChars_cons, List.append_cons, hdigit]
    exact ih h.2 (by omega)

theorem ArrayIndex.toDigits_ofDigitChars {cs : List Char} (h : ArrayIndex cs) :
    Nat.toDigits 10 (Nat.ofDigitChars 10 cs 0) = cs := by
  cases h with
  | zero => rfl
  | @positive c rest hc hzero hrest =>
    have hbounds := le_toNat_of_isDigit hc
    have hne : c.toNat ≠ 48 := fun heq => hzero (Char.toNat_inj.1 heq)
    have hlt : c.toNat - 48 < 10 := by omega
    have hpos : 0 < c.toNat - 48 := by omega
    calc Nat.toDigits 10 (Nat.ofDigitChars 10 (c :: rest) 0)
        = Nat.toDigits 10 (Nat.ofDigitChars 10 rest (c.toNat - 48)) := by
          rw [Nat.ofDigitChars_cons, Nat.mul_zero, Nat.zero_add]
          rfl
      _ = Nat.toDigits 10 (c.toNat - 48) ++ rest := (toDigits_append hrest hpos).symm
      _ = c :: rest := by
          rw [Nat.toDigits_of_lt_base hlt, digitChar_sub_of_isDigit hc]
          rfl

theorem arrayIndex_toDigits (n : Nat) : ArrayIndex (Nat.toDigits 10 n) := by
  induction n using Nat.strong_induction_on with
  | _ n ih =>
    by_cases hlt : n < 10
    · rw [Nat.toDigits_of_lt_base hlt]
      interval_cases n
      · exact .zero
      all_goals exact .positive (by decide) (by decide) (fun _ h => absurd h List.not_mem_nil)
    · have hle : 10 ≤ n := by omega
      have hfront := ih (n / 10) (by omega)
      have hvalue : Nat.ofDigitChars 10 (Nat.toDigits 10 (n / 10)) 0 = n / 10 :=
        Nat.ofDigitChars_ten_toDigits
      have hdigits : ∀ c ∈ Nat.toDigits 10 n, c.isDigit = true := fun c hc =>
        Nat.isDigit_of_mem_toDigits (by decide) (by decide) hc
      rw [Nat.toDigits_of_base_le (by decide) hle] at hdigits ⊢
      -- What stands in front of the last digit is not zero.
      generalize Nat.toDigits 10 (n / 10) = front at hfront hvalue hdigits ⊢
      cases hfront with
      | zero =>
        have hzero : 0 = n / 10 := hvalue
        omega
      | positive hc hzero hrest =>
        exact .positive hc hzero (List.forall_mem_cons.1 hdigits).2

theorem exists_unescapeChars_cons (c : Char) (rest : List Char) :
    ∃ d tail, unescapeChars (c :: rest) = d :: unescapeChars tail
      ∧ (d = '/' ∨ d = '~' ∨ d = c ∧ tail = rest) := by
  cases hcs : c :: rest using unescapeChars.induct with
  | case1 => exact nomatch hcs
  | case2 tail =>
    rw [unescapeChars]
    exact ⟨_, _, rfl, .inl rfl⟩
  | case3 tail =>
    rw [unescapeChars]
    exact ⟨_, _, rfl, .inr (.inl rfl)⟩
  | case4 d tail hslash htilde =>
    obtain ⟨rfl, rfl⟩ := List.cons.inj hcs
    rw [unescapeChars]
    · exact ⟨_, _, rfl, .inr (.inr ⟨rfl, rfl⟩)⟩
    · exact hslash
    · exact htilde

theorem unescapeChars_eq_dash {cs : List Char} (h : unescapeChars cs = ['-']) : cs = ['-'] := by
  cases cs with
  | nil => exact nomatch h
  | cons c rest =>
    obtain ⟨d, tail, heq, hd⟩ := exists_unescapeChars_cons c rest
    obtain ⟨rfl, htail⟩ := List.cons.inj (heq.symm.trans h)
    rcases hd with hd | hd | ⟨rfl, rfl⟩
    · exact absurd hd (by decide)
    · exact absurd hd (by decide)
    cases tail with
    | nil => rfl
    | cons e tail =>
      obtain ⟨_, _, heq, -⟩ := exists_unescapeChars_cons e tail
      exact nomatch heq.symm.trans htail

/-- The pointer of a position does not end with a dash. -/
theorem format_index_ne_dash (path : Path) (i : Nat) (front : String) :
    format (path ++ [.index i]) ≠ front ++ "/-" := by
  intro h
  have hne : (token (.index i)).toList ≠ [] := by
    rw [token, Nat.toString_eq_ofList_toDigits, String.toList_ofList]
    exact Nat.toDigits_ne_nil
  have hlast : ('/' :: (token (.index i)).toList).getLast? = some '-' := by
    have hlists := congrArg (fun text => text.toList.getLast?) h
    rw [format_append] at hlists
    simpa [format] using hlists
  rw [List.getLast?_cons, List.getLast?_eq_some_getLast hne] at hlast
  have hdigit := isDigit_of_mem_toString (List.getLast_mem hne)
  rw [show (token (.index i)).toList.getLast hne = '-' from Option.some.inj hlast] at hdigit
  exact absurd hdigit (by decide)

end Pointer

open Pointer

/-! ## Steps and what they are read from -/

/-- The step that a token is read as, by the type of the container. -/
def Seg.ReadFrom : Seg → String → Prop
  | .field name, token => name = token
  | .index i, token => arrayIndex? token = some i

/-- The text of a step as RFC 6901 writes it. -/
def Seg.Spells : Seg → List Char → Prop
  | .field _, part => ReferenceToken part
  | .index _, part => ArrayIndex part

theorem arrayIndex?_of_isDigit {cs : List Char} {i : Nat} (hcs : ∀ c ∈ cs, c.isDigit = true)
    (h : arrayIndex? (String.ofList cs) = some i) : i = Nat.ofDigitChars 10 cs 0 := by
  unfold arrayIndex? at h
  rw [String.toList_ofList] at h
  split at h
  -- No digit is a plus sign.
  · exact absurd (hcs '+' List.mem_cons_self) (by decide)
  · dsimp only at h
    split at h
    · exact nomatch h
    split at h
    · rw [Nat.ofDigitChars_eq_foldl]
      exact (Option.some.inj h).symm
    · exact nomatch h

/-- A step that was read from a part of a pointer has this part for its token just if the part is
spelled as it should be. -/
theorem Seg.ReadFrom.token_eq_iff {seg : Seg} {part : List Char}
    (h : seg.ReadFrom (String.ofList (unescapeChars part))) :
    (token seg).toList = part ↔ seg.Spells part := by
  cases seg with
  | field name =>
    obtain rfl : name = _ := h
    rw [token, escape, String.toList_ofList, String.toList_ofList]
    exact escapeChars_unescapeChars_iff
  | index i =>
    rw [token, Nat.toString_eq_ofList_toDigits, String.toList_ofList]
    refine ⟨fun heq => heq ▸ arrayIndex_toDigits i, fun hpart => ?_⟩
    replace hpart : ArrayIndex part := hpart
    have hplain : unescapeChars part = part := unescapeChars_of_ne_tilde fun c hc heq => by
      subst heq
      exact absurd (hpart.isDigit _ hc) (by decide)
    replace h : arrayIndex? (String.ofList (unescapeChars part)) = some i := h
    rw [hplain] at h
    rw [arrayIndex?_of_isDigit hpart.isDigit h, hpart.toDigits_ofDigitChars]

/-! ## What the steps of a change are read from -/

theorem arrayIndex_eq_ok {token : String} {i : Nat} (h : arrayIndex token = .ok i) :
    arrayIndex? token = some i := by
  unfold arrayIndex at h
  split at h
  · rename_i j hindex
    rw [hindex, Except.ok.inj h]
  · exact nomatch h

namespace Schema

variable {s : Schema}

theorem stepToken_readFrom {id child : TypeId} {place : Path} {token : String} {seg : Seg}
    (h : s.stepToken id place token = .ok (seg, child)) : seg.ReadFrom token := by
  unfold stepToken at h
  split at h
  · obtain ⟨field, hfield, h⟩ := bind_eq_ok.1 h
    obtain ⟨rfl, rfl⟩ := Prod.mk.inj (Except.ok.inj h)
    exact rfl
  · obtain ⟨i, hindex, h⟩ := bind_eq_ok.1 h
    obtain ⟨rfl, rfl⟩ := Prod.mk.inj (Except.ok.inj h)
    exact arrayIndex_eq_ok hindex
  · exact nomatch h

theorem walk_readFrom {id container : TypeId} {place path : Path} {tokens : List String}
    (h : s.walk id place tokens = .ok (path, container)) :
    ∃ steps, path = place ++ steps ∧ List.Forall₂ Seg.ReadFrom steps tokens := by
  induction tokens generalizing id place with
  | nil =>
    obtain ⟨rfl, rfl⟩ := Prod.mk.inj (Except.ok.inj h)
    exact ⟨[], (List.append_nil _).symm, .nil⟩
  | cons token tokens ih =>
    obtain ⟨⟨seg, child⟩, hstep, h⟩ := bind_eq_ok.1 h
    obtain ⟨steps, rfl, hsteps⟩ := ih h
    exact ⟨seg :: steps, by rw [List.append_assoc]; rfl, .cons (stepToken_readFrom hstep) hsteps⟩

/-- The last token is read as the step of the edit, or it is the dash behind the last element. -/
theorem Edits.readFrom {patch : Patch} {container : Path} {token : String} {id : TypeId}
    {node node' : Json} {seg : Seg} {edit : Edit}
    (h : s.Edits patch container token id node seg edit node') :
    seg.ReadFrom token
      ∨ patch.op = .add ∧ token = "-" ∧
        ∃ items, node = .array items ∧ seg = .index items.length := by
  cases h with
  | setField | unsetField => exact .inl rfl
  | @setElement items xs i value? hkind hop hpoints
  | @insertElement items xs i value? hkind hop hpoints
  | @deleteElement items xs i hkind hop hpoints =>
    unfold Patch.Points at hpoints
    split at hpoints
    · rename_i hdash
      exact .inr ⟨hdash.1, hdash.2, xs, rfl, congrArg Seg.index hpoints⟩
    · exact .inl hpoints

end Schema

/-! ## Where a change is -/

/-- How a step is to be spelled in the pointer of a patch: as RFC 6901 has it, where a dash may
stand for the position behind the last element if something is to be added there. -/
def Patch.Spells (patch : Patch) (seg : Seg) (part : List Char) : Prop :=
  seg.Spells part ∨ patch.op = .add ∧ part = ['-'] ∧ ∃ i, seg = .index i

/-- The pointer of a patch spells these steps. -/
def Patch.Spelled (patch : Patch) (steps : Path) : Prop :=
  List.Forall₂ patch.Spells steps (texts patch.path)

/-- The patch adds behind a slash and a dash. -/
def Patch.Dashed (patch : Patch) : Prop :=
  patch.op = .add ∧ ∃ front, patch.path = front ++ "/-"

/-- A change is where the pointer of its patch says: its pointer is the one of the reference with
that of the patch behind it, except that a dash at the end stands for the length that the array had
before. -/
inductive Live.Lands (l : Live) (r : ModelRef) (patch : Patch) (c : Change) : Prop where
  | exact (h : format c.path = format r.path ++ patch.path) : Lands l r patch c
  | behind {array : Path} {front : String} {items : List Json} (hop : patch.op = .add)
      (hdash : patch.path = front ++ "/-") (harray : format array = format r.path ++ front)
      (hitems : (⟨c.model, array⟩ : ModelRef).node? l.models = some (.array items))
      (hc : c.path = array ++ [.index items.length]) : Lands l r patch c

namespace Patch

variable {patch : Patch} {seg : Seg} {part : List Char}

theorem not_readFrom_dash {i : Nat} : ¬ (Seg.index i).ReadFrom "-" := by
  intro h
  have hnone : arrayIndex? "-" = none := by decide
  exact nomatch hnone.symm.trans h

theorem Spells.of_readFrom (h : seg.ReadFrom (String.ofList (unescapeChars part))) :
    patch.Spells seg part ↔ (token seg).toList = part := by
  rw [h.token_eq_iff]
  refine ⟨?_, .inl⟩
  rintro (hspells | ⟨-, rfl, i, rfl⟩)
  · exact hspells
  · exact absurd h not_readFrom_dash

/-- Steps that were all read from tokens are spelled well just if these are their tokens. -/
theorem spells_iff_of_readFrom {steps : Path} {parts : List (List Char)}
    (h : List.Forall₂ (fun seg part => seg.ReadFrom (String.ofList (unescapeChars part)))
      steps parts) :
    List.Forall₂ patch.Spells steps parts ↔ written steps = parts := by
  induction h with
  | nil => exact ⟨fun _ => rfl, fun _ => .nil⟩
  | cons hseg hsteps ih =>
    rw [List.forall₂_cons, ih, Spells.of_readFrom hseg]
    exact (List.cons.injEq _ _ _ _).symm.to_iff

end Patch

theorem forall₂_concat_iff {α β : Type} {R : α → β → Prop} {as : List α} {bs : List β} {a : α}
    {b : β} : List.Forall₂ R (as ++ [a]) (bs ++ [b]) ↔ List.Forall₂ R as bs ∧ R a b := by
  rw [← List.forall₂_reverse_iff, List.reverse_concat', List.reverse_concat', List.forall₂_cons,
    List.forall₂_reverse_iff, and_comm]

namespace Pointer

theorem format_concat_dash (path : Path) : format (path ++ [.field "-"]) = format path ++ "/-" := by
  rw [format_append]
  rfl

theorem format_concat_eq_iff {pointer : String} {names : List String}
    (h : split pointer = some names) {parts : List (List Char)} {part : List Char}
    (htexts : texts pointer = parts ++ [part]) (path : Path) (seg : Seg) :
    format (path ++ [seg]) = pointer ↔ written path = parts ∧ (token seg).toList = part := by
  rw [format_eq_iff h, htexts, written, List.map_append, List.map_singleton,
    ← List.concat_eq_append, ← List.concat_eq_append, List.concat_inj]
  rfl

end Pointer

section Accepted

variable {l l' : Live} {r : ModelRef} {m : Model} {patch : Patch} {c : Change} {data : Json}

theorem ModelRef.Accepts.lands_iff_spelled (hm : r.model? l.models = some m)
    (h : r.Accepts m patch c data) :
    ∃ steps, c.path = r.path ++ steps ∧ (l.Lands r patch c ↔ patch.Spelled steps) := by
  cases h with
  | whole hsplit =>
    obtain ⟨hnames, hpath⟩ := split_eq_some hsplit
    have htexts : texts patch.path = [] := List.map_eq_nil_iff.1 hnames.symm
    have hempty : patch.path = "" := String.toList_inj.1 (by rw [hpath, htexts]; rfl)
    refine ⟨[], (List.append_nil _).symm, fun _ => ?_, fun _ => .exact ?_⟩
    · rw [Patch.Spelled, htexts]
      exact .nil
    · rw [hempty, String.append_empty]
  | @edit parents last start id container node node' _ seg edit hsplit hstart hwalk hnode hedits =>
    obtain ⟨steps, rfl, hsteps⟩ := Schema.walk_readFrom hwalk
    -- The parts of the pointer are those of the steps to the container and that of the last step.
    obtain ⟨parts, ends, htexts, hparents, hlast⟩ :=
      List.map_eq_append_iff.1 (split_eq_some hsplit).1.symm
    obtain ⟨part, rfl, hpart⟩ := List.map_eq_singleton_iff.1 hlast
    rw [← hparents, List.forall₂_map_right_iff] at hsteps
    have hspelled : patch.Spelled (steps ++ [seg])
        ↔ written steps = parts ∧ patch.Spells seg part := by
      rw [Patch.Spelled, htexts, forall₂_concat_iff, Patch.spells_iff_of_readFrom hsteps]
    have hdash : patch.path = format steps ++ "/-" ↔ written steps = parts ∧ ['-'] = part := by
      rw [← format_concat_dash, eq_comm]
      exact format_concat_eq_iff hsplit htexts steps (.field "-")
    have hexact : format (r.path ++ (steps ++ [seg])) = format r.path ++ patch.path
        ↔ written steps = parts ∧ (token seg).toList = part := by
      rw [format_append, String.append_right_inj, format_concat_eq_iff hsplit htexts]
    have hread : seg.ReadFrom (String.ofList (unescapeChars part)) ∨ patch.op = .add ∧ part = ['-']
        ∧ ∃ items, node = .array items ∧ seg = .index items.length := by
      rw [hpart]
      refine hedits.readFrom.imp_right fun ⟨hop, htoken, hlength⟩ => ⟨hop, ?_, hlength⟩
      exact unescapeChars_eq_dash (String.ofList_injective (hpart.trans htoken))
    have hassoc : r.path ++ steps ++ [seg] = r.path ++ (steps ++ [seg]) := List.append_assoc _ _ _
    refine ⟨steps ++ [seg], hassoc, ?_⟩
    rw [hspelled]
    constructor
    · rintro (hpath | ⟨hop, hpath, harray, -, hc⟩)
      · obtain ⟨hsteps, htoken⟩ := hexact.1 ((congrArg format hassoc).symm.trans hpath)
        refine ⟨hsteps, ?_⟩
        rcases hread with hread | ⟨hop, hpart, items, -, hseg⟩
        · exact (Patch.Spells.of_readFrom hread).2 htoken
        · exact .inr ⟨hop, hpart, _, hseg⟩
      · obtain ⟨rfl, hseg⟩ := List.append_inj' hc rfl
        rw [format_append, String.append_right_inj] at harray
        obtain ⟨hsteps, hpart⟩ := hdash.1 (harray ▸ hpath)
        exact ⟨hsteps, .inr ⟨hop, hpart.symm, _, (List.cons.inj hseg).1⟩⟩
    · rintro ⟨hsteps, hspells⟩
      rcases hread with hread | ⟨hop, hpart, items, rfl, rfl⟩
      · refine .exact ((congrArg format hassoc).trans (hexact.2 ⟨hsteps, ?_⟩))
        exact (Patch.Spells.of_readFrom hread).1 hspells
      · refine .behind hop (hdash.2 ⟨hsteps, hpart.symm⟩) (format_append r.path steps) ?_ rfl
        exact Option.bind_eq_some_iff.2 ⟨m, hm, hnode⟩

/-- Two pointers that lead to where they say, and to the same place, are one text, if a dash for the
end of an array stands in both or in neither. -/
theorem Live.Lands.path_eq {other : Patch} {c' : Change} (h : l.Lands r patch c)
    (h' : l.Lands r other c') (hc : c'.path = c.path) (hdashed : patch.Dashed ↔ other.Dashed) :
    patch.path = other.path := by
  -- What a pointer with a dash leads to is a position.
  have hcross {p : Patch} {array : Path} {i : Nat} (hp : p.Dashed)
      (hpath : format (array ++ [.index i]) = format r.path ++ p.path) : False := by
    obtain ⟨-, front, hfront⟩ := hp
    rw [hfront, ← String.append_assoc] at hpath
    exact format_index_ne_dash array i _ hpath
  cases h with
  | exact h =>
    cases h' with
    | exact h' => exact (String.append_right_inj _).1 (h.symm.trans (hc ▸ h'))
    | behind hop hdash harray hitems hpath =>
      exact (hcross (hdashed.2 ⟨hop, _, hdash⟩) (hpath ▸ hc ▸ h)).elim
  | behind hop hdash harray hitems hpath =>
    cases h' with
    | exact h' => exact (hcross (hdashed.1 ⟨hop, _, hdash⟩) (hpath ▸ hc ▸ h')).elim
    | behind hop' hdash' harray' hitems' hpath' =>
      obtain ⟨rfl, -⟩ := List.append_inj' (hpath.symm.trans (hc.symm.trans hpath')) rfl
      rw [hdash, hdash', (String.append_right_inj _).1 (harray.symm.trans harray')]

/-- The change of an accepted patch is where the pointer of the patch says just if that pointer
spells its steps, and then no other pointer that spells them leads there. -/
theorem Live.lands_iff (h : l.apply r patch = .ok (c, l')) :
    ∃ steps, c.path = r.path ++ steps ∧ (l.Lands r patch c ↔ patch.Spelled steps)
      ∧ (patch.Spelled steps → ∀ (other : Patch) (c' : Change) (l'' : Live),
        l.apply r other = .ok (c', l'') → c'.path = c.path → other.Spelled steps →
        (patch.Dashed ↔ other.Dashed) → other.path = patch.path) := by
  have hlands {p : Patch} {d : Change} {k : Live} (h : l.apply r p = .ok (d, k)) :
      ∃ steps, d.path = r.path ++ steps ∧ (l.Lands r p d ↔ p.Spelled steps) := by
    obtain ⟨m, data, hm, haccepts, -⟩ := ModelRef.apply_eq_ok (Live.apply_eq_ok h).1
    exact haccepts.lands_iff_spelled hm
  obtain ⟨steps, hsteps, hiff⟩ := hlands h
  refine ⟨steps, hsteps, hiff, fun hspelled other c' l'' hother hc hspelled' hdashed => ?_⟩
  obtain ⟨steps', hsteps', hiff'⟩ := hlands hother
  obtain rfl := List.append_cancel_left (hsteps'.symm.trans (hc.trans hsteps))
  exact ((hiff.2 hspelled).path_eq (hiff'.2 hspelled') hc hdashed).symm

end Accepted

/-! ## A list of things to do -/

namespace Todo

/-- The new item is behind the old ones, as the dash says. -/
theorem lands_append : (live ["a", "b"]).Lands (.root 1) (append "c")
    ⟨1, [.field "todos", .index 2], some ([.field "todos"], 2)⟩ := by
  obtain ⟨steps, hsteps, hlands, -⟩ := Live.lands_iff live_apply_append
  obtain rfl : [.field "todos", .index 2] = steps := hsteps
  have htexts : texts "/todos/-" = [escapeChars "todos".toList, ['-']] := by decide
  refine hlands.2 ?_
  rw [Patch.Spelled, append, htexts]
  exact .cons (.inl (referenceToken_escapeChars _)) (.cons (.inr ⟨rfl, rfl, 2, rfl⟩) .nil)

/-- To give the first item another title, by a pointer of some text. -/
def entitleFirst (path : String) : Patch :=
  ⟨.replace, path, some (.string "z")⟩

def firstTitle : Change :=
  ⟨1, [.field "todos", .index 0, .field "title"], none⟩

theorem exists_apply_entitleFirst {path : String}
    (hpath : path ∈ ["/todos/0/title", "/todos/00/title", "/todos/+0/title"]) :
    ∃ l', (live ["a", "b"]).apply (.root 1) (entitleFirst path) = .ok (firstTitle, l') := by
  have hchange : ∀ path ∈ ["/todos/0/title", "/todos/00/title", "/todos/+0/title"],
      ((live ["a", "b"]).apply (.root 1) (entitleFirst path)).toOption.map Prod.fst
        = some firstTitle := by decide +kernel
  replace hchange := hchange path hpath
  cases happly : (live ["a", "b"]).apply (.root 1) (entitleFirst path) with
  | error e =>
    rw [happly] at hchange
    exact nomatch hchange
  | ok out =>
    rw [happly] at hchange
    exact ⟨out.2, by rw [← Option.some.inj hchange]⟩

/-- Three texts lead to one place, and only the shortest one says so. -/
theorem not_lands_zeros : (live ["a", "b"]).Reachable
    ∧ (∃ l', (live ["a", "b"]).apply (.root 1) (entitleFirst "/todos/0/title")
      = .ok (firstTitle, l'))
    ∧ ∀ path ∈ ["/todos/00/title", "/todos/+0/title"],
      (∃ l', (live ["a", "b"]).apply (.root 1) (entitleFirst path) = .ok (firstTitle, l'))
        ∧ ¬ (live ["a", "b"]).Lands (.root 1) (entitleFirst path) firstTitle := by
  refine ⟨reachable_live, exists_apply_entitleFirst List.mem_cons_self, fun path hpath =>
    ⟨exists_apply_entitleFirst (List.mem_cons_of_mem _ hpath), ?_⟩⟩
  rintro (hlands | ⟨hop, -⟩)
  · revert path
    decide +kernel
  · exact nomatch hop

end Todo

end BoundView
