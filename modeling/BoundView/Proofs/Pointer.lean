import BoundView.Pointer
import Mathlib.Data.List.Basic

/-!
# Pointers read back

A token is escaped so that no slash is left in it.  Main statement: a pointer that goes on after the
pointer of a path has the tokens of the path, as they were before they were escaped, in front of its
own.
-/

namespace BoundView

/-- What a step is called in a pointer, before it is escaped. -/
def Seg.name : Seg → String
  | .field name => name
  | .index i => toString i

namespace Pointer

/-! ## Escaped names -/

theorem escapeChars_ne_slash (cs : List Char) : ∀ c ∈ escapeChars cs, c ≠ '/' := by
  induction cs using escapeChars.induct with
  | case1 => exact fun c hc => absurd hc List.not_mem_nil
  | case2 rest ih | case3 rest ih =>
    rw [escapeChars, List.forall_mem_cons, List.forall_mem_cons]
    exact ⟨by decide, by decide, ih⟩
  | case4 c rest htilde hslash ih =>
    rw [escapeChars, List.forall_mem_cons]
    · exact ⟨hslash, ih⟩
    all_goals assumption

theorem unescapeChars_escapeChars (cs : List Char) : unescapeChars (escapeChars cs) = cs := by
  induction cs using escapeChars.induct with
  | case1 => rfl
  | case2 rest ih => rw [escapeChars, unescapeChars, ih]
  | case3 rest ih => rw [escapeChars, unescapeChars, ih]
  | case4 c rest htilde hslash ih =>
    rw [escapeChars, unescapeChars, ih]
    · exact fun _ heq => absurd heq htilde
    · exact fun _ heq => absurd heq htilde
    · exact htilde
    · exact hslash

theorem escapeChars_injective : Function.Injective escapeChars :=
  Function.LeftInverse.injective unescapeChars_escapeChars

theorem unescapeChars_of_ne_tilde {cs : List Char} (h : ∀ c ∈ cs, c ≠ '~') :
    unescapeChars cs = cs := by
  induction cs with
  | nil => rfl
  | cons c cs ih =>
    rw [List.forall_mem_cons] at h
    rw [unescapeChars, ih h.2]
    · exact fun _ heq => absurd heq h.1
    · exact fun _ heq => absurd heq h.1

/-- The text of a token as RFC 6901 writes it: no slash, and a tilde only before `0` or `1`. -/
inductive ReferenceToken : List Char → Prop where
  | nil : ReferenceToken []
  | unescaped {c : Char} {rest : List Char} (htilde : c ≠ '~') (hslash : c ≠ '/')
      (h : ReferenceToken rest) : ReferenceToken (c :: rest)
  | tilde {rest : List Char} (h : ReferenceToken rest) : ReferenceToken ('~' :: '0' :: rest)
  | slash {rest : List Char} (h : ReferenceToken rest) : ReferenceToken ('~' :: '1' :: rest)

theorem referenceToken_escapeChars (cs : List Char) : ReferenceToken (escapeChars cs) := by
  induction cs using escapeChars.induct with
  | case1 => exact .nil
  | case2 rest ih => exact .tilde ih
  | case3 rest ih => exact .slash ih
  | case4 c rest htilde hslash ih =>
    rw [escapeChars]
    · exact .unescaped htilde hslash ih
    · exact htilde
    · exact hslash

theorem ReferenceToken.escapeChars_unescapeChars {cs : List Char} (h : ReferenceToken cs) :
    escapeChars (unescapeChars cs) = cs := by
  induction h with
  | nil => rfl
  | tilde h ih | slash h ih => rw [unescapeChars, escapeChars, ih]
  | unescaped htilde hslash h ih =>
    rw [unescapeChars, escapeChars, ih]
    · exact htilde
    · exact hslash
    · exact fun _ heq => absurd heq htilde
    · exact fun _ heq => absurd heq htilde

/-- Just the texts of tokens come back when they are read and escaped again. -/
theorem escapeChars_unescapeChars_iff {cs : List Char} :
    escapeChars (unescapeChars cs) = cs ↔ ReferenceToken cs :=
  ⟨fun h => h ▸ referenceToken_escapeChars _, ReferenceToken.escapeChars_unescapeChars⟩

/-! ## Tokens -/

theorem isDigit_of_mem_toString {i : Nat} {c : Char} (h : c ∈ (toString i).toList) :
    c.isDigit = true := by
  rw [Nat.toString_eq_ofList_toDigits, String.toList_ofList] at h
  exact Nat.isDigit_of_mem_toDigits (by decide) (by decide) h

theorem token_ne_slash (seg : Seg) : ∀ c ∈ (token seg).toList, c ≠ '/' := by
  cases seg with
  | field name =>
    rw [token, escape, String.toList_ofList]
    exact escapeChars_ne_slash name.toList
  | index i =>
    rintro c hc rfl
    have hdigit : Char.isDigit '/' = true := isDigit_of_mem_toString hc
    exact absurd hdigit (by decide)

theorem unescapeChars_token (seg : Seg) :
    unescapeChars (token seg).toList = seg.name.toList := by
  cases seg with
  | field name =>
    rw [token, escape, String.toList_ofList, unescapeChars_escapeChars]
    rfl
  | index i =>
    refine unescapeChars_of_ne_tilde ?_
    rintro c hc rfl
    have hdigit : Char.isDigit '~' = true := isDigit_of_mem_toString hc
    exact absurd hdigit (by decide)

/-! ## Pointers -/

/-- A part ends where the next slash stands. -/
theorem parts_append_slash {cs : List Char} (h : ∀ c ∈ cs, c ≠ '/') (rest : List Char) :
    parts (cs ++ '/' :: rest) = cs :: parts rest := by
  induction cs with
  | nil => rw [List.nil_append, parts]
  | cons c cs ih =>
    rw [List.forall_mem_cons] at h
    rw [List.cons_append, parts, ih h.2]
    exact h.1

/-- The tokens between slashes, unescaped. -/
def tokens (cs : List Char) : List String :=
  (parts cs).map fun part => String.ofList (unescapeChars part)

theorem parts_ne_nil (cs : List Char) : parts cs ≠ [] := by
  unfold parts
  split
  · exact List.cons_ne_nil _ _
  · exact List.cons_ne_nil _ _
  · split <;> exact List.cons_ne_nil _ _

theorem tokens_ne_nil (cs : List Char) : tokens cs ≠ [] :=
  fun h => parts_ne_nil cs (List.map_eq_nil_iff.1 h)

theorem split_of_slash {pointer : String} {cs : List Char} (h : pointer.toList = '/' :: cs) :
    split pointer = some (tokens cs) := by
  rw [split, h]
  rfl

theorem tokens_token_append (seg : Seg) (rest : List Char) :
    tokens ((token seg).toList ++ '/' :: rest) = seg.name :: tokens rest := by
  rw [tokens, parts_append_slash (token_ne_slash seg), List.map_cons, unescapeChars_token,
    String.ofList_toList]
  rfl

theorem toList_format_cons (seg : Seg) (path : Path) :
    (format (seg :: path)).toList = '/' :: ((token seg).toList ++ (format path).toList) := by
  simp [format]

/-- The pointer of a path, and whatever begins with a slash behind it. -/
theorem split_format_append (path : Path) {rest : String} {cs : List Char}
    (hrest : rest.toList = '/' :: cs) :
    split (format path ++ rest) = some (path.map Seg.name ++ tokens cs) := by
  induction path with
  | nil => exact split_of_slash (String.toList_append.trans hrest)
  | cons seg path ih =>
    obtain ⟨ds, hds⟩ : ∃ ds, (format path ++ rest).toList = '/' :: ds := by
      cases path with
      | nil => exact ⟨cs, String.toList_append.trans hrest⟩
      | cons seg path => exact ⟨_, by rw [String.toList_append, toList_format_cons]; rfl⟩
    have hcons : (format (seg :: path) ++ rest).toList
        = '/' :: ((token seg).toList ++ '/' :: ds) := by
      rw [← hds, String.toList_append, String.toList_append, toList_format_cons]
      simp
    have htokens : tokens ds = path.map Seg.name ++ tokens cs :=
      Option.some.inj ((split_of_slash hds).symm.trans ih)
    rw [split_of_slash hcons, tokens_token_append, htokens]
    rfl

/-! ## The text of a pointer -/

/-- The parts of a pointer as they are written. -/
def texts (pointer : String) : List (List Char) :=
  match pointer.toList with
  | '/' :: cs => parts cs
  | _ => []

theorem parts_of_ne_slash {cs : List Char} (h : ∀ c ∈ cs, c ≠ '/') : parts cs = [cs] := by
  induction cs with
  | nil => rfl
  | cons c cs ih =>
    rw [List.forall_mem_cons] at h
    rw [parts, ih h.2]
    exact h.1

theorem flatMap_parts (cs : List Char) : (parts cs).flatMap ('/' :: ·) = '/' :: cs := by
  induction cs using parts.induct with
  | case1 => rfl
  | case2 rest ih =>
    rw [parts, List.flatMap_cons, ih]
    rfl
  | case3 c rest hslash hnil => exact absurd hnil (parts_ne_nil rest)
  | case4 c rest hslash first others hparts ih =>
    rw [hparts, List.flatMap_cons] at ih
    rw [parts, hparts]
    · rw [List.flatMap_cons, ← (List.cons.inj ih).2]
      rfl
    · exact hslash

theorem split_eq_some {pointer : String} {names : List String} (h : split pointer = some names) :
    names = (texts pointer).map (fun part => String.ofList (unescapeChars part))
      ∧ pointer.toList = (texts pointer).flatMap ('/' :: ·) := by
  unfold split at h
  unfold texts
  split at h
  · rename_i hnil
    rw [hnil]
    exact ⟨(Option.some.inj h).symm, rfl⟩
  · rename_i cs hcs
    rw [hcs]
    exact ⟨(Option.some.inj h).symm, (flatMap_parts cs).symm⟩
  · exact nomatch h

/-- The tokens of a path, as its pointer has them. -/
def written (path : Path) : List (List Char) :=
  path.map fun seg => (token seg).toList

theorem texts_format (path : Path) : texts (format path) = written path := by
  induction path with
  | nil => rfl
  | cons seg path ih =>
    rw [written, List.map_cons, ← written, ← ih]
    unfold texts
    rw [toList_format_cons]
    cases path with
    | nil =>
      rw [show (format []).toList = [] from rfl, List.append_nil]
      exact parts_of_ne_slash (token_ne_slash seg)
    | cons next path =>
      rw [toList_format_cons]
      exact parts_append_slash (token_ne_slash seg) _

/-- A text that can be split is the pointer of a path if and only if its parts are the tokens of
the path. -/
theorem format_eq_iff {pointer : String} {names : List String} (h : split pointer = some names)
    (path : Path) :
    format path = pointer ↔ written path = texts pointer := by
  refine ⟨fun heq => heq ▸ (texts_format path).symm, fun htexts => String.toList_inj.1 ?_⟩
  rw [(split_eq_some h).2, ← htexts]
  simp [format, written, List.flatMap_map, String.toList_join]

theorem format_append (p q : Path) : format (p ++ q) = format p ++ format q := by
  simp [format, String.join_append]

end Pointer

end BoundView
