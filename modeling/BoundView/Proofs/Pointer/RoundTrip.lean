import BoundView.Proofs.Pointer
import Mathlib.Data.List.Basic

/-!
# Pointers written and read

Escaping puts a text through two replacements, tildes before slashes, and reading undoes them in the
opposite order; one walk over the text does the same.  Main statement: a path is read back from its
pointer as the names of its steps, and a pointer is written again from its tokens just if each of
its tildes stands before `0` or `1`.
-/

namespace BoundView.Pointer

/-! ## Escaping by replacements -/

/-- Every `c` of a text replaced. -/
def replaceChar (c : Char) (replacement cs : List Char) : List Char :=
  cs.flatMap fun d => if d = c then replacement else [d]

/-- Every `a` with `b` right behind it replaced, from left to right. -/
def replacePair (a b replacement : Char) : List Char → List Char
  | [] => []
  | [c] => [c]
  | c :: d :: rest =>
    if c = a ∧ d = b then replacement :: replacePair a b replacement rest
    else c :: replacePair a b replacement (d :: rest)

theorem replaceChar_cons_self (c : Char) (replacement cs : List Char) :
    replaceChar c replacement (c :: cs) = replacement ++ replaceChar c replacement cs := by
  rw [replaceChar, List.flatMap_cons, if_pos rfl]
  rfl

theorem replaceChar_cons_of_ne {c d : Char} (h : d ≠ c) (replacement cs : List Char) :
    replaceChar c replacement (d :: cs) = d :: replaceChar c replacement cs := by
  rw [replaceChar, List.flatMap_cons, if_neg h]
  rfl

/-- The tildes come first, for those that slashes are written with stay as they are. -/
theorem escapeChars_eq_replace (cs : List Char) :
    escapeChars cs = replaceChar '/' ['~', '1'] (replaceChar '~' ['~', '0'] cs) := by
  induction cs using escapeChars.induct with
  | case1 => rfl
  | case2 rest ih =>
    rw [escapeChars, ih, replaceChar_cons_self]
    rfl
  | case3 rest ih =>
    rw [escapeChars, ih, replaceChar_cons_of_ne (by decide : '/' ≠ '~'), replaceChar_cons_self]
    rfl
  | case4 c rest htilde hslash ih =>
    rw [escapeChars, ih, replaceChar_cons_of_ne htilde, replaceChar_cons_of_ne hslash]
    · exact htilde
    · exact hslash

section

variable {a b replacement c : Char} {cs : List Char}

theorem replacePair_pair (rest : List Char) :
    replacePair a b replacement (a :: b :: rest)
      = replacement :: replacePair a b replacement rest := by
  rw [replacePair, if_pos ⟨rfl, rfl⟩]

theorem replacePair_cons (h : c = a → cs.head? ≠ some b) :
    replacePair a b replacement (c :: cs) = c :: replacePair a b replacement cs := by
  cases cs with
  | nil => rfl
  | cons d rest => rw [replacePair, if_neg fun hpair => h hpair.1 (congrArg some hpair.2)]

theorem head?_replacePair {d : Char} (h : (replacePair a b replacement cs).head? = some d) :
    d = replacement ∨ cs.head? = some d := by
  unfold replacePair at h
  split at h
  · exact .inr h
  · exact .inr h
  · split at h
    · exact .inl (Option.some.inj h).symm
    · exact .inr h

end

/-- The slashes come first, for a tilde that is read may stand before `1`; and a slash that is read
does not stand where `0` is looked for. -/
theorem unescapeChars_eq_replace (cs : List Char) :
    unescapeChars cs = replacePair '~' '0' '~' (replacePair '~' '1' '/' cs) := by
  induction cs using unescapeChars.induct with
  | case1 => rfl
  | case2 rest ih =>
    rw [unescapeChars, ih, replacePair_pair, replacePair_cons fun h => absurd h (by decide)]
  | case3 rest ih =>
    have hzero : replacePair '~' '1' '/' ('0' :: rest) = '0' :: replacePair '~' '1' '/' rest :=
      replacePair_cons fun h => absurd h (by decide)
    have htilde : replacePair '~' '1' '/' ('~' :: '0' :: rest)
        = '~' :: replacePair '~' '1' '/' ('0' :: rest) :=
      replacePair_cons fun _ h => absurd (Option.some.inj h) (by decide)
    rw [unescapeChars, ih, htilde, hzero, replacePair_pair]
  | case4 c rest hslash htilde ih =>
    have hone : c = '~' → rest.head? ≠ some '1' := by
      intro hc h
      obtain ⟨tail, htail⟩ := List.head?_eq_some_iff.1 h
      exact hslash tail hc htail
    have hzero : c = '~' → (replacePair '~' '1' '/' rest).head? ≠ some '0' := by
      intro hc h
      obtain ⟨tail, htail⟩ := List.head?_eq_some_iff.1
        ((head?_replacePair h).resolve_left (by decide))
      exact htilde tail hc htail
    rw [replacePair_cons hone, replacePair_cons hzero, ← ih, unescapeChars]
    · exact hslash
    · exact htilde

/-- A tilde that was escaped does not turn the character behind it into a slash. -/
example : unescapeChars ['~', '0', '1'] = ['~', '1'] := by decide

/-! ## Tildes -/

/-- Whether every tilde of a text has `0` or `1` right behind it. -/
def TildesPaired (cs : List Char) : Prop :=
  ∀ before after, cs = before ++ '~' :: after →
    after.head? = some '0' ∨ after.head? = some '1'

theorem tildesPaired_nil : TildesPaired [] := by
  intro before after h
  exact absurd h (by simp)

theorem tildesPaired_cons {c : Char} {cs : List Char} :
    TildesPaired (c :: cs) ↔
      (c = '~' → cs.head? = some '0' ∨ cs.head? = some '1') ∧ TildesPaired cs := by
  constructor
  · intro h
    refine ⟨fun hc => h [] cs (by rw [hc]; rfl), fun before after heq => ?_⟩
    exact h (c :: before) after (by rw [heq]; rfl)
  · rintro ⟨hhead, htail⟩ before after heq
    cases before with
    | nil =>
      obtain ⟨hc, rfl⟩ := List.cons.inj heq
      exact hhead hc
    | cons d before => exact htail before after (List.cons.inj heq).2

/-- No tilde is completed by what stands behind a slash. -/
theorem tildesPaired_append_slash (cs ds : List Char) :
    TildesPaired (cs ++ '/' :: ds) ↔ TildesPaired cs ∧ TildesPaired ds := by
  induction cs with
  | nil =>
    rw [List.nil_append, tildesPaired_cons]
    exact and_congr_left fun _ => iff_of_true (fun h => absurd h (by decide)) tildesPaired_nil
  | cons c cs ih =>
    have hhead : ∀ d : Char, d ≠ '/' → ((cs ++ '/' :: ds).head? = some d ↔ cs.head? = some d) := by
      intro d hd
      cases cs with
      | nil => exact iff_of_false (fun h => hd (Option.some.inj h).symm) (fun h => nomatch h)
      | cons e cs => exact Iff.rfl
    rw [List.cons_append, tildesPaired_cons, tildesPaired_cons, ih, hhead '0' (by decide),
      hhead '1' (by decide), and_assoc]

theorem tildesPaired_flatMap (parts : List (List Char)) :
    TildesPaired (parts.flatMap ('/' :: ·)) ↔ ∀ part ∈ parts, TildesPaired part := by
  induction parts with
  | nil => exact iff_of_true tildesPaired_nil fun _ h => absurd h List.not_mem_nil
  | cons part rest ih =>
    have hstart : ∀ cs, TildesPaired ('/' :: cs) ↔ TildesPaired cs := by
      intro cs
      exact (tildesPaired_append_slash [] cs).trans (and_iff_right tildesPaired_nil)
    rw [List.forall_mem_cons, ← ih, List.flatMap_cons, List.cons_append, hstart]
    cases rest with
    | nil =>
      rw [List.flatMap_nil, List.append_nil]
      exact (and_iff_left tildesPaired_nil).symm
    | cons next rest =>
      rw [List.flatMap_cons, List.cons_append, tildesPaired_append_slash, hstart]

theorem referenceToken_iff (cs : List Char) :
    ReferenceToken cs ↔ TildesPaired cs ∧ ∀ c ∈ cs, c ≠ '/' := by
  constructor
  · intro h
    induction h with
    | nil => exact ⟨tildesPaired_nil, fun _ h => absurd h List.not_mem_nil⟩
    | unescaped htilde hslash _ ih =>
      exact ⟨tildesPaired_cons.2 ⟨fun h => absurd h htilde, ih.1⟩,
        List.forall_mem_cons.2 ⟨hslash, ih.2⟩⟩
    | tilde _ ih | slash _ ih =>
      rw [tildesPaired_cons, tildesPaired_cons, List.forall_mem_cons, List.forall_mem_cons]
      exact ⟨⟨fun _ => by simp, fun h => absurd h (by decide), ih.1⟩, by decide, by decide, ih.2⟩
  · rintro ⟨hpaired, hslash⟩
    -- A tilde is taken together with the character behind it.
    induction cs using unescapeChars.induct with
    | case1 => exact .nil
    | case2 rest ih =>
      rw [tildesPaired_cons, tildesPaired_cons] at hpaired
      exact .slash (ih hpaired.2.2 fun c hc => hslash c (by simp [hc]))
    | case3 rest ih =>
      rw [tildesPaired_cons, tildesPaired_cons] at hpaired
      exact .tilde (ih hpaired.2.2 fun c hc => hslash c (by simp [hc]))
    | case4 c rest hone hzero ih =>
      rw [tildesPaired_cons] at hpaired
      rw [List.forall_mem_cons] at hslash
      refine .unescaped (fun hc => ?_) hslash.1 (ih hpaired.2 hslash.2)
      rcases hpaired.1 hc with h | h
      · obtain ⟨tail, htail⟩ := List.head?_eq_some_iff.1 h
        exact hzero tail hc htail
      · obtain ⟨tail, htail⟩ := List.head?_eq_some_iff.1 h
        exact hone tail hc htail

/-! ## Round trips -/

theorem split_format (path : Path) : split (format path) = some (path.map Seg.name) := by
  obtain ⟨names, hnames⟩ : ∃ names, split (format path) = some names := by
    cases path with
    | nil => exact ⟨[], rfl⟩
    | cons seg path => exact ⟨_, split_of_slash (toList_format_cons seg path)⟩
  rw [hnames, (split_eq_some hnames).1, texts_format, written, List.map_map]
  refine congrArg some (List.map_congr_left fun seg _ => ?_)
  rw [Function.comp_apply, unescapeChars_token, String.ofList_toList]

theorem escapeChars_of_ne {cs : List Char} (h : ∀ c ∈ cs, c ≠ '~' ∧ c ≠ '/') :
    escapeChars cs = cs := by
  induction cs with
  | nil => rfl
  | cons c cs ih =>
    rw [List.forall_mem_cons] at h
    rw [escapeChars, ih h.2]
    · exact h.1.1
    · exact h.1.2

/-- The digits of a position need no escapes. -/
theorem token_eq_escape (seg : Seg) : token seg = escape seg.name := by
  cases seg with
  | field name => rfl
  | index i =>
    have hdigits : ∀ c ∈ (toString i).toList, c ≠ '~' ∧ c ≠ '/' := by
      intro c hc
      have hdigit : c.isDigit = true := isDigit_of_mem_toString hc
      constructor
      · rintro rfl
        exact absurd hdigit (by decide)
      · rintro rfl
        exact absurd hdigit (by decide)
    rw [token, escape, Seg.name, escapeChars_of_ne hdigits, String.ofList_toList]

/-- Two paths have one pointer just if their steps have the same names in the same order. -/
theorem format_eq_format_iff (p q : Path) :
    format p = format q ↔ p.map Seg.name = q.map Seg.name := by
  constructor
  · intro h
    have hsplit := congrArg split h
    rw [split_format, split_format] at hsplit
    exact Option.some.inj hsplit
  · have hformat : ∀ path : Path,
        format path = String.join ((path.map Seg.name).map fun name => "/" ++ escape name) := by
      intro path
      simp only [format, token_eq_escape, List.map_map, Function.comp_def]
    intro h
    rw [hformat, hformat, h]

theorem parts_ne_slash (cs : List Char) : ∀ part ∈ parts cs, ∀ c ∈ part, c ≠ '/' := by
  induction cs using parts.induct with
  | case1 => simp [parts]
  | case2 rest ih =>
    rw [parts, List.forall_mem_cons]
    exact ⟨fun c hc => absurd hc List.not_mem_nil, ih⟩
  | case3 c rest hslash hnil => exact absurd hnil (parts_ne_nil rest)
  | case4 c rest hslash first others hparts ih =>
    rw [hparts, List.forall_mem_cons] at ih
    rw [parts, hparts]
    · exact List.forall_mem_cons.2 ⟨List.forall_mem_cons.2 ⟨hslash, ih.1⟩, ih.2⟩
    · exact hslash

theorem texts_ne_slash (pointer : String) : ∀ part ∈ texts pointer, ∀ c ∈ part, c ≠ '/' := by
  unfold texts
  split
  · exact parts_ne_slash _
  · exact fun part h => absurd h List.not_mem_nil

theorem written_field (names : List String) :
    written (names.map .field) = names.map fun name => escapeChars name.toList := by
  rw [written, List.map_map]
  refine List.map_congr_left fun name _ => ?_
  rw [Function.comp_apply, token, escape, String.toList_ofList]

/-- A pointer is written again from its tokens just if each of its tildes is paired. -/
theorem format_split_iff {pointer : String} {names : List String}
    (h : split pointer = some names) :
    format (names.map .field) = pointer ↔ TildesPaired pointer.toList := by
  obtain ⟨hnames, htexts⟩ := split_eq_some h
  calc format (names.map .field) = pointer
      ↔ (texts pointer).map (fun part => escapeChars (unescapeChars part)) = texts pointer := by
        rw [format_eq_iff h, written_field, hnames, List.map_map]
        simp only [Function.comp_def, String.toList_ofList]
    _ ↔ ∀ part ∈ texts pointer, escapeChars (unescapeChars part) = part := by
        rw [← List.map_inj_left, List.map_id']
    _ ↔ ∀ part ∈ texts pointer, TildesPaired part := by
        refine forall₂_congr fun part hpart => ?_
        rw [escapeChars_unescapeChars_iff, referenceToken_iff]
        exact and_iff_left (texts_ne_slash pointer part hpart)
    _ ↔ TildesPaired pointer.toList := by
        rw [htexts, tildesPaired_flatMap]

/-- What is written is read back; what is read is written again just if its tildes are paired; and
no two lists of tokens have one pointer. -/
theorem split_format_inverse :
    (∀ path : Path, split (format path) = some (path.map Seg.name))
      ∧ (∀ pointer names, split pointer = some names →
          (format (names.map .field) = pointer ↔ TildesPaired pointer.toList))
      ∧ Function.Injective fun names : List String => format (names.map .field) := by
  refine ⟨split_format, fun pointer names => format_split_iff, fun names names' h => ?_⟩
  have hnames : ∀ names : List String, (names.map Seg.field).map Seg.name = names := by
    intro names
    rw [List.map_map]
    exact List.map_id names
  have hsame := (format_eq_format_iff _ _).1 h
  rwa [hnames, hnames] at hsame

/-- Tokens at either end may be empty, and a written `~01` is no slash. -/
theorem split_format_inverse_emptyEnds :
    split "//~01/" = some ["", "~1", ""] ∧ TildesPaired "//~01/".toList
      ∧ format [.field "", .field "~1", .field ""] = "//~01/" := by
  have hsplit : split "//~01/" = some ["", "~1", ""] := by decide
  have hformat : format [.field "", .field "~1", .field ""] = "//~01/" := by decide
  exact ⟨hsplit, (split_format_inverse.2.1 _ _ hsplit).1 hformat, hformat⟩

end BoundView.Pointer
