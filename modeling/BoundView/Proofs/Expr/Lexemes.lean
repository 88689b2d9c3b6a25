import BoundView.Expr.Lexer
import Mathlib

/-!
# The lexemes of expressions

What each kind of lexeme may look like is told here by rules alone, with no order in which the kinds
are tried and no word on where a lexeme ends.  Main statement: what is found at the start of a text
is the longest lexeme that stands there, and where nothing is found none stands there.
-/

namespace BoundView.Expr.Lexeme

/-! ## The grammar -/

/-- Digits of any script, at least one. -/
def Digits (cs : List Char) : Prop :=
  cs ≠ [] ∧ ∀ c ∈ cs, Text.isDecimalDigit c = true

/-- What may follow the first digits of a number: a point with digits behind it, or nothing. -/
inductive Fraction : List Char → Prop where
  | none : Fraction []
  | some {ds : List Char} (h : Digits ds) : Fraction ('.' :: ds)

/-- A power of ten, or nothing. -/
inductive Power : List Char → Prop where
  | none : Power []
  | some {mark : Char} {sign ds : List Char} (hmark : mark = 'e' ∨ mark = 'E')
      (hsign : sign = [] ∨ sign = ['+'] ∨ sign = ['-']) (h : Digits ds) :
      Power (mark :: (sign ++ ds))

/-- What may stand between two quotes: no such quote and no backslash, or a backslash before any
character but a line feed. -/
inductive Quotable (quote : Char) : List Char → Prop where
  | nil : Quotable quote []
  | plain {c : Char} {rest : List Char} (hquote : c ≠ quote) (hslash : c ≠ '\\')
      (h : Quotable quote rest) : Quotable quote (c :: rest)
  | escaped {c : Char} {rest : List Char} (hc : c ≠ '\n') (h : Quotable quote rest) :
      Quotable quote ('\\' :: c :: rest)

/-- The texts of the kinds of lexemes. -/
inductive Writes : Lexeme → List Char → Prop where
  | blank {cs : List Char} (hne : cs ≠ []) (h : ∀ c ∈ cs, Text.isBlank c = true) :
      Writes .blank cs
  | number {whole fraction power : List Char} (hwhole : Digits whole)
      (hfraction : Fraction fraction) (hpower : Power power) :
      Writes .number (whole ++ (fraction ++ power))
  | quoted {quote : Char} {inner : List Char} (hquote : quote = '"' ∨ quote = '\x27')
      (h : Quotable quote inner) : Writes .quoted (quote :: (inner ++ [quote]))
  | name {dollar rest : List Char} {c : Char} (hdollar : dollar = [] ∨ dollar = ['$'])
      (hc : isNameStart c = true) (hrest : ∀ d ∈ rest, isNamePart d = true) :
      Writes .name (dollar ++ c :: rest)
  | symbol (s : Symbol) : Writes (.symbol s) s.text.toList

/-! ## Classes of characters -/

theorem isDecimalDigit_cases {c : Char} (h : Text.isDecimalDigit c = true) :
    c.toNat - 48 ≤ 9 ∧ 48 ≤ c.toNat ∨ 1632 ≤ c.toNat := by
  have hzeros : ∀ first ∈ Text.zeroDigits, first = 48 ∨ 1632 ≤ first := by decide
  obtain ⟨first, hfirst, hc⟩ := List.any_eq_true.1 h
  rw [Bool.and_eq_true, decide_eq_true_iff, decide_eq_true_iff] at hc
  rcases hzeros first hfirst with rfl | hle <;> omega

/-- No digit of any script is a blank. -/
theorem isBlank_of_isDecimalDigit {c : Char} (h : Text.isDecimalDigit c = true) :
    Text.isBlank c = false := by
  have hzeros : ∀ first ∈ Text.zeroDigits, (0xd < first ∧ first + 9 < 0x85 ∧ 0x20 < first)
      ∨ (0xa0 < first ∧ first + 9 < 0x1680) ∨ (0x1680 < first ∧ first + 9 < 0x2000)
      ∨ 0x3000 < first := by decide
  obtain ⟨first, hfirst, hc⟩ := List.any_eq_true.1 h
  rw [Bool.and_eq_true, decide_eq_true_iff, decide_eq_true_iff] at hc
  have hn := hzeros first hfirst
  simp only [Text.isBlank, Bool.or_eq_false_iff, Bool.and_eq_false_iff, decide_eq_false_iff_not,
    beq_eq_false_iff_ne]
  omega

/-- What a name starts with is neither a blank nor a digit, a quote or a dollar sign. -/
theorem isNameStart_apart {c : Char} (h : isNameStart c = true) :
    Text.isBlank c = false ∧ Text.isDecimalDigit c = false ∧ ¬(c = '"' ∨ c = '\x27') ∧ c ≠ '$' := by
  have hn : 65 ≤ c.toNat ∧ c.toNat ≤ 122 := by
    simp only [isNameStart, Char.isAlpha, Char.isUpper, Char.isLower, Bool.or_eq_true,
      Bool.and_eq_true, decide_eq_true_iff, beq_iff_eq, UInt32.le_iff_toNat_le, ge_iff_le] at h
    change ((65 ≤ c.toNat ∧ c.toNat ≤ 90) ∨ (97 ≤ c.toNat ∧ c.toNat ≤ 122)) ∨ c = '_' at h
    rcases h with (h | h) | rfl
    · omega
    · omega
    · decide
  refine ⟨?_, ?_, ?_, ?_⟩
  · simp only [Text.isBlank, Bool.or_eq_false_iff, Bool.and_eq_false_iff, decide_eq_false_iff_not,
      beq_eq_false_iff_ne]
    omega
  · refine Bool.eq_false_iff.2 fun hdigit => ?_
    have hcases := isDecimalDigit_cases hdigit
    omega
  · rintro (rfl | rfl)
    · exact absurd hn (by decide)
    · exact absurd hn (by decide)
  · rintro rfl
    exact absurd hn (by decide)

/-! ## Runs of characters -/

section

variable {p : Char → Bool} {cs ds rest taken : List Char} {c : Char}

theorem run?_eq_some (h : run? p cs = some (taken, rest)) :
    taken ≠ [] ∧ (∀ c ∈ taken, p c = true) ∧ taken = cs.takeWhile p ∧ rest = cs.dropWhile p := by
  unfold run? at h
  split at h
  · exact nomatch h
  · rename_i hne
    obtain ⟨rfl, rfl⟩ := Prod.mk.inj (Option.some.inj h)
    exact ⟨hne, fun c hc => List.mem_takeWhile_imp hc, rfl, rfl⟩

/-- A run goes on as far as the class does. -/
theorem run?_of_forall (hne : ds ≠ []) (h : ∀ c ∈ ds, p c = true) (rest : List Char) :
    run? p (ds ++ rest) = some (ds ++ rest.takeWhile p, rest.dropWhile p) := by
  unfold run?
  rw [List.takeWhile_append_of_pos h, List.dropWhile_append_of_pos h]
  split
  · rename_i hnil
    exact absurd (List.append_eq_nil_iff.1 hnil).1 hne
  · rfl

end

/-! ## Numbers -/

section

variable {cs taken rest : List Char}

theorem digits_of_run? (h : run? Text.isDecimalDigit cs = some (taken, rest)) : Digits taken :=
  ⟨(run?_eq_some h).1, (run?_eq_some h).2.1⟩

theorem fraction_writes (cs : List Char) : Fraction (fraction cs).1 := by
  unfold fraction
  split
  · split
    · rename_i h
      exact .some (digits_of_run? h)
    · exact .none
  · exact .none

theorem power_writes (cs : List Char) : Power (exponent cs).1 := by
  unfold exponent
  split
  · rename_i c rest
    split
    · rename_i hmark
      split
      · rename_i h
        refine .some hmark ?_ (digits_of_run? h)
        unfold sign
        split
        · exact .inr (.inl rfl)
        · exact .inr (.inr rfl)
        · exact .inl rfl
      · exact .none
    · exact .none
  · exact .none

theorem number?_writes (h : number? cs = some (taken, rest)) : Writes .number taken := by
  unfold number? at h
  split at h
  · exact nomatch h
  · rename_i whole behind hwhole
    obtain ⟨rfl, rfl⟩ := Prod.mk.inj (Option.some.inj h)
    rw [List.append_assoc]
    exact .number (digits_of_run? hwhole) (fraction_writes behind) (power_writes _)

theorem fraction_of_digits {ds : List Char} (h : Digits ds) (rest : List Char) :
    fraction ('.' :: (ds ++ rest))
      = ('.' :: (ds ++ rest.takeWhile Text.isDecimalDigit),
          rest.dropWhile Text.isDecimalDigit) := by
  rw [fraction, run?_of_forall h.1 h.2]

theorem sign_of_digits {sign' ds : List Char} (hsign : sign' = [] ∨ sign' = ['+'] ∨ sign' = ['-'])
    (h : Digits ds) (rest : List Char) : sign (sign' ++ (ds ++ rest)) = (sign', ds ++ rest) := by
  rcases hsign with rfl | rfl | rfl
  · cases ds with
    | nil => exact absurd rfl h.1
    | cons d ds =>
      have hd := h.2 d List.mem_cons_self
      rw [List.nil_append, List.cons_append, sign]
      · intro tail heq
        obtain ⟨rfl, -⟩ := List.cons.inj heq
        exact absurd hd (by decide)
      · intro tail heq
        obtain ⟨rfl, -⟩ := List.cons.inj heq
        exact absurd hd (by decide)
  · rfl
  · rfl

theorem exponent_of_digits {mark : Char} {sign' ds : List Char} (hmark : mark = 'e' ∨ mark = 'E')
    (hsign : sign' = [] ∨ sign' = ['+'] ∨ sign' = ['-']) (h : Digits ds) (rest : List Char) :
    exponent (mark :: (sign' ++ (ds ++ rest)))
      = (mark :: (sign' ++ (ds ++ rest.takeWhile Text.isDecimalDigit)),
        rest.dropWhile Text.isDecimalDigit) := by
  rw [exponent, if_pos hmark, sign_of_digits hsign h, run?_of_forall h.1 h.2]
  rfl

theorem number?_eq {whole rest : List Char}
    (h : run? Text.isDecimalDigit cs = some (whole, rest)) :
    number? cs = some (whole ++ ((fraction rest).1 ++ (exponent (fraction rest).2).1),
      (exponent (fraction rest).2).2) := by
  rw [number?, h]
  exact congrArg (fun taken => some (taken, _)) (List.append_assoc _ _ _)

theorem Power.cases_head {power : List Char} (h : Power power) :
    power = [] ∨ ∃ c tail, power = c :: tail ∧ Text.isDecimalDigit c = false ∧ c ≠ '.' := by
  cases h with
  | none => exact .inl rfl
  | some hmark _ _ =>
    refine .inr ⟨_, _, rfl, ?_, ?_⟩
    · rcases hmark with rfl | rfl <;> decide
    · rcases hmark with rfl | rfl <;> decide

theorem Power.isPrefix {power : List Char} (h : Power power) (rest : List Char) :
    power <+: (exponent (power ++ rest)).1 := by
  cases h with
  | none => exact List.nil_prefix
  | @some mark sign ds hmark hsign hds =>
    rw [List.cons_append, List.append_assoc, exponent_of_digits hmark hsign hds]
    exact ⟨rest.takeWhile Text.isDecimalDigit, by simp⟩

/-- What follows the first digits is read at least as far as it goes on being a number. -/
theorem Fraction.isPrefix {point power : List Char} (hpoint : Fraction point)
    (hpower : Power power) (rest : List Char) :
    point ++ power <+: (fraction (point ++ (power ++ rest))).1
      ++ (exponent (fraction (point ++ (power ++ rest))).2).1 := by
  cases hpoint with
  | none =>
    have hnone : power ≠ [] → fraction (power ++ rest) = ([], power ++ rest) := by
      intro hne
      obtain ⟨c, tail, rfl, -, hc⟩ := hpower.cases_head.resolve_left hne
      rw [List.cons_append, fraction]
      intro tail' heq
      exact hc (List.cons.inj heq).1
    by_cases hne : power = []
    · rw [hne]
      exact List.nil_prefix
    · rw [List.nil_append, List.nil_append, hnone hne]
      exact hpower.isPrefix rest
  | @some ds hds =>
    rw [List.cons_append, List.cons_append, fraction_of_digits hds, List.cons_append,
      List.cons_prefix_cons, List.append_assoc]
    refine ⟨rfl, List.prefix_append_right_inj ds |>.2 ?_⟩
    rcases hpower.cases_head with rfl | ⟨c, tail, rfl, hc, -⟩
    · exact List.nil_prefix
    · have hstop := Bool.eq_false_iff.1 hc
      rw [List.cons_append, List.takeWhile_cons_of_neg hstop, List.dropWhile_cons_of_neg hstop]
      exact hpower.isPrefix rest

/-- A number is read at least as far as a text goes on being one. -/
theorem number?_of_writes {ds : List Char} (h : Writes .number ds) (rest : List Char) :
    ∃ taken behind, number? (ds ++ rest) = some (taken, behind) ∧ ds <+: taken := by
  cases h with
  | @number whole point power hwhole hpoint hpower =>
    rw [List.append_assoc, List.append_assoc]
    refine ⟨_, _, number?_eq (run?_of_forall hwhole.1 hwhole.2 _), ?_⟩
    rw [List.append_assoc]
    refine (List.prefix_append_right_inj whole).2 ?_
    have hhead : point ++ power = [] ∨ ∃ c tail, point ++ (power ++ rest) = c :: tail
        ∧ Text.isDecimalDigit c = false := by
      cases hpoint with
      | some _ => exact .inr ⟨_, _, rfl, by decide⟩
      | none =>
        rcases hpower.cases_head with rfl | ⟨c, tail, rfl, hc, -⟩
        · exact .inl rfl
        · exact .inr ⟨c, tail ++ rest, rfl, hc⟩
    rcases hhead with hnil | ⟨c, tail, heq, hc⟩
    · rw [hnil]
      exact List.nil_prefix
    · have hstop := Bool.eq_false_iff.1 hc
      have htake : (point ++ (power ++ rest)).takeWhile Text.isDecimalDigit = [] := by
        rw [heq, List.takeWhile_cons_of_neg hstop]
      have hdrop : (point ++ (power ++ rest)).dropWhile Text.isDecimalDigit
          = point ++ (power ++ rest) := by
        rw [heq, List.dropWhile_cons_of_neg hstop]
      rw [htake, hdrop, List.nil_append]
      exact hpoint.isPrefix hpower rest

end

/-! ## Quoted strings -/

theorem quotedRest?_of_quotable {quote : Char} {inner : List Char} (hquote : quote ≠ '\\')
    (h : Quotable quote inner) (rest : List Char) :
    quotedRest? quote (inner ++ quote :: rest) = some (inner ++ [quote], rest) := by
  induction h with
  | nil =>
    rw [List.nil_append, quotedRest?, if_pos rfl]
    · rfl
    · exact fun hc _ => hquote hc
    · exact fun c tail hc _ => hquote hc
  | @plain c inner hc hslash _ ih =>
    rw [List.cons_append, quotedRest?, if_neg hc, ih]
    · rfl
    · exact fun heq _ => hslash heq
    · exact fun c tail heq _ => hslash heq
  | escaped hc _ ih =>
    rw [List.cons_append, List.cons_append, quotedRest?, if_neg hc, ih]
    rfl

theorem quotable_of_quotedRest? {quote : Char} {cs taken rest : List Char}
    (h : quotedRest? quote cs = some (taken, rest)) :
    ∃ inner, taken = inner ++ [quote] ∧ Quotable quote inner := by
  fun_induction quotedRest? quote cs generalizing taken rest with
  | case1 => cases h
  | case2 => cases h
  | case3 => cases h
  | case4 c tail hc ih =>
    obtain ⟨⟨t, r⟩, hr, he⟩ := Option.map_eq_some_iff.1 h
    obtain ⟨inner, rfl, hinner⟩ := ih hr
    cases he
    exact ⟨'\\' :: c :: inner, rfl, .escaped hc hinner⟩
  | case5 =>
    cases h
    exact ⟨[], rfl, .nil⟩
  | case6 c tail hnil hcons hc ih =>
    obtain ⟨⟨t, r⟩, hr, he⟩ := Option.map_eq_some_iff.1 h
    obtain ⟨inner, rfl, hinner⟩ := ih hr
    cases he
    have hslash : c ≠ '\\' := by
      intro heq
      cases tail with
      | nil => exact hnil heq rfl
      | cons d tail => exact hcons d tail heq rfl
    exact ⟨c :: inner, rfl, .plain hc hslash hinner⟩

/-! ## Names -/

theorem plainName?_of_writes {c : Char} {part : List Char} (hc : isNameStart c = true)
    (hpart : ∀ d ∈ part, isNamePart d = true) (rest : List Char) :
    plainName? (c :: (part ++ rest))
      = some (c :: (part ++ rest.takeWhile isNamePart), rest.dropWhile isNamePart) := by
  rw [plainName?, if_pos hc, List.takeWhile_append_of_pos hpart, List.dropWhile_append_of_pos hpart]

theorem plainName?_writes {dollar cs taken rest : List Char}
    (hdollar : dollar = [] ∨ dollar = ['$'])
    (h : plainName? cs = some (taken, rest)) : Writes .name (dollar ++ taken) := by
  unfold plainName? at h
  split at h
  · split at h
    · rename_i hc
      cases h
      exact .name hdollar hc fun d hd => List.mem_takeWhile_imp hd
    · cases h
  · cases h

theorem name?_writes {cs taken rest : List Char} (h : name? cs = some (taken, rest)) :
    Writes .name taken := by
  unfold name? at h
  split at h
  · obtain ⟨⟨t, r⟩, hr, he⟩ := Option.map_eq_some_iff.1 h
    cases he
    exact plainName?_writes (.inr rfl) hr
  · exact plainName?_writes (.inl rfl) h

theorem name?_of_writes {ds : List Char} (h : Writes .name ds) (rest : List Char) :
    ∃ taken behind, name? (ds ++ rest) = some (taken, behind) ∧ ds <+: taken := by
  cases h with
  | @name dollar part c hdollar hc hpart =>
    have hplain := plainName?_of_writes hc hpart rest
    have hprefix : c :: part <+: c :: (part ++ rest.takeWhile isNamePart) :=
      List.cons_prefix_cons.2 ⟨rfl, List.prefix_append _ _⟩
    rcases hdollar with rfl | rfl
    · refine ⟨_, _, Eq.trans ?_ hplain, hprefix⟩
      rw [List.nil_append, List.cons_append, name?]
      intro tail heq
      exact (isNameStart_apart hc).2.2.2 (List.cons.inj heq).1
    · have hname : name? ('$' :: c :: (part ++ rest)) = some ('$' :: c ::
          (part ++ rest.takeWhile isNamePart), rest.dropWhile isNamePart) := by
        rw [name?, hplain]
        rfl
      exact ⟨_, _, hname, List.cons_prefix_cons.2 ⟨rfl, hprefix⟩⟩

/-! ## Symbols -/

/-- A symbol is told by its one character or its two. -/
theorem symbol_cases (s : Symbol) :
    (∃ c, s.text.toList = [c] ∧ shortSymbol? c = some s)
      ∨ ∃ c d, s.text.toList = [c, d] ∧ longSymbol? c d = some s := by
  cases s with
  | equal | unequal | atMost | atLeast | and | or => exact .inr ⟨_, _, rfl, rfl⟩
  | plus | minus | star | slash | percent | less | greater | bang | openParen | closeParen
  | openBracket | closeBracket | dot | comma => exact .inl ⟨_, rfl, rfl⟩

theorem text_injective {s s' : Symbol} (h : s.text.toList = s'.text.toList) : s = s' := by
  rcases symbol_cases s with ⟨c, htext, hc⟩ | ⟨c, d, htext, hc⟩ <;>
    rcases symbol_cases s' with ⟨c', htext', hc'⟩ | ⟨c', d', htext', hc'⟩ <;>
    rw [htext, htext'] at h <;> cases h
  · exact Option.some.inj (hc.symm.trans hc')
  · exact Option.some.inj (hc.symm.trans hc')

theorem text_of_shortSymbol? {c : Char} {s : Symbol} (h : shortSymbol? c = some s) :
    s.text.toList = [c] := by
  unfold shortSymbol? at h
  split at h <;> cases h <;> rfl

theorem text_of_longSymbol? {c d : Char} {s : Symbol} (h : longSymbol? c d = some s) :
    s.text.toList = [c, d] := by
  unfold longSymbol? at h
  split at h <;> cases h <;> rfl

theorem symbol?_text {cs taken rest : List Char} {s : Symbol}
    (h : symbol? cs = some (s, taken, rest)) : taken = s.text.toList := by
  simp only [symbol?] at h
  split at h
  · cases h
  · obtain ⟨s', hs, he⟩ := Option.map_eq_some_iff.1 h
    cases he
    exact (text_of_shortSymbol? hs).symm
  · split at h
    · rename_i hs
      cases h
      exact (text_of_longSymbol? hs).symm
    · obtain ⟨s', hs, he⟩ := Option.map_eq_some_iff.1 h
      cases he
      exact (text_of_shortSymbol? hs).symm

theorem symbol?_of_text (s : Symbol) (rest : List Char) :
    ∃ s' taken behind, symbol? (s.text.toList ++ rest) = some (s', taken, behind)
      ∧ s.text.toList <+: taken := by
  rcases symbol_cases s with ⟨c, htext, hc⟩ | ⟨c, d, htext, hc⟩
  · rw [htext]
    cases rest with
    | nil => exact ⟨s, [c], [], by simp [symbol?, hc], List.prefix_rfl⟩
    | cons d rest =>
      -- The symbol may be the first half of a longer one.
      cases hlong : longSymbol? c d with
      | some s' => exact ⟨s', [c, d], rest, by simp [symbol?, hlong], [d], rfl⟩
      | none => exact ⟨s, [c], d :: rest, by simp [symbol?, hlong, hc], List.prefix_rfl⟩
  · rw [htext]
    exact ⟨s, [c, d], rest, by simp [symbol?, hc], List.prefix_rfl⟩

theorem symbol_apart (s : Symbol) : ∃ c tail, s.text.toList = c :: tail ∧ Text.isBlank c = false
    ∧ Text.isDecimalDigit c = false ∧ ¬(c = '"' ∨ c = '\x27')
    ∧ (isNameStart c || c == '$') = false := by
  cases s <;> exact ⟨_, _, rfl, by decide, by decide, by decide, by decide⟩

/-! ## The longest lexeme -/

/-- What is found is a lexeme of its kind. -/
theorem first?_writes {cs : List Char} {m : Match} (h : first? cs = some m) :
    m.lexeme.Writes m.taken := by
  simp only [first?] at h
  split at h
  · cases h
  · rename_i c rest
    split at h
    · obtain ⟨⟨t, r⟩, hr, he⟩ := Option.map_eq_some_iff.1 h
      cases he
      exact .blank (run?_eq_some hr).1 (run?_eq_some hr).2.1
    split at h
    · obtain ⟨⟨t, r⟩, hr, he⟩ := Option.map_eq_some_iff.1 h
      cases he
      exact number?_writes hr
    split at h
    · rename_i hquote
      obtain ⟨⟨t, r⟩, hr, he⟩ := Option.map_eq_some_iff.1 h
      obtain ⟨inner, rfl, hinner⟩ := quotable_of_quotedRest? hr
      cases he
      exact .quoted hquote hinner
    split at h
    · obtain ⟨⟨t, r⟩, hr, he⟩ := Option.map_eq_some_iff.1 h
      cases he
      exact name?_writes hr
    · obtain ⟨⟨s, t, r⟩, hr, he⟩ := Option.map_eq_some_iff.1 h
      cases he
      rw [symbol?_text hr]
      exact .symbol s

section

variable {c : Char} {rest taken behind : List Char}

theorem first?_blank (hc : Text.isBlank c = true)
    (h : run? Text.isBlank (c :: rest) = some (taken, behind)) :
    first? (c :: rest) = some ⟨.blank, taken, behind⟩ := by
  simp only [first?]
  rw [if_pos hc, h]
  rfl

theorem first?_number (hc : Text.isDecimalDigit c = true)
    (h : number? (c :: rest) = some (taken, behind)) :
    first? (c :: rest) = some ⟨.number, taken, behind⟩ := by
  have hblank := Bool.eq_false_iff.1 (isBlank_of_isDecimalDigit hc)
  simp only [first?]
  rw [if_neg hblank, if_pos hc, h]
  rfl

theorem first?_quoted (hc : c = '"' ∨ c = '\x27') (h : quotedRest? c rest = some (taken, behind)) :
    first? (c :: rest) = some ⟨.quoted, c :: taken, behind⟩ := by
  have hapart : ¬Text.isBlank c = true ∧ ¬Text.isDecimalDigit c = true := by
    rcases hc with rfl | rfl <;> decide
  simp only [first?]
  rw [if_neg hapart.1, if_neg hapart.2, if_pos hc, h]
  rfl

theorem first?_name (hc : isNameStart c = true ∨ c = '$')
    (h : name? (c :: rest) = some (taken, behind)) :
    first? (c :: rest) = some ⟨.name, taken, behind⟩ := by
  have hapart : ¬Text.isBlank c = true ∧ ¬Text.isDecimalDigit c = true
      ∧ ¬(c = '"' ∨ c = '\x27') := by
    rcases hc with hc | rfl
    · have hstart := isNameStart_apart hc
      exact ⟨Bool.eq_false_iff.1 hstart.1, Bool.eq_false_iff.1 hstart.2.1, hstart.2.2.1⟩
    · decide
  have hname : (isNameStart c || c == '$') = true := by
    rwa [Bool.or_eq_true, beq_iff_eq]
  simp only [first?]
  rw [if_neg hapart.1, if_neg hapart.2.1, if_neg hapart.2.2, if_pos hname, h]
  rfl

end

/-- Where a lexeme stands one is found, and none that is shorter. -/
theorem first?_of_writes {kind : Lexeme} {ds : List Char} (h : kind.Writes ds) (rest : List Char) :
    ∃ m, first? (ds ++ rest) = some m ∧ ds <+: m.taken ∧ (m.taken = ds → m.lexeme = kind) := by
  cases h with
  | blank hne hblank =>
    obtain ⟨c, ds, rfl⟩ := List.exists_cons_of_ne_nil hne
    have hrun := run?_of_forall hne hblank rest
    exact ⟨_, first?_blank (hblank c List.mem_cons_self) hrun, List.prefix_append _ _,
      fun _ => rfl⟩
  | @number whole point power hwhole hpoint hpower =>
    obtain ⟨taken, behind, hnumber, hprefix⟩ :=
      number?_of_writes (.number hwhole hpoint hpower) rest
    obtain ⟨c, ds, rfl⟩ := List.exists_cons_of_ne_nil hwhole.1
    exact ⟨_, first?_number (hwhole.2 c List.mem_cons_self) hnumber, hprefix, fun _ => rfl⟩
  | @quoted quote inner hquote hinner =>
    have hslash : quote ≠ '\\' := by
      rcases hquote with rfl | rfl <;> decide
    have hrest : quotedRest? quote ((inner ++ [quote]) ++ rest)
        = some (inner ++ [quote], rest) := by
      rw [List.append_assoc]
      exact quotedRest?_of_quotable hslash hinner rest
    exact ⟨_, first?_quoted hquote hrest, List.prefix_rfl, fun _ => rfl⟩
  | @name dollar part c hdollar hc hpart =>
    obtain ⟨taken, behind, hname, hprefix⟩ := name?_of_writes (.name hdollar hc hpart) rest
    rcases hdollar with rfl | rfl
    · exact ⟨_, first?_name (.inl hc) hname, hprefix, fun _ => rfl⟩
    · exact ⟨_, first?_name (.inr rfl) hname, hprefix, fun _ => rfl⟩
  | symbol s =>
    obtain ⟨s', taken, behind, hsymbol, hprefix⟩ := symbol?_of_text s rest
    obtain ⟨c, tail, htext, hblank, hdigit, hquote, hname⟩ := symbol_apart s
    refine ⟨⟨.symbol s', taken, behind⟩, ?_, hprefix, fun heq => ?_⟩
    · rw [htext, List.cons_append] at hsymbol ⊢
      simp only [first?]
      rw [if_neg (Bool.eq_false_iff.1 hblank), if_neg (Bool.eq_false_iff.1 hdigit), if_neg hquote,
        if_neg (Bool.eq_false_iff.1 hname), hsymbol]
      rfl
    · exact congrArg Lexeme.symbol (text_injective ((symbol?_text hsymbol).symm.trans heq))

theorem Writes.ne_nil {kind : Lexeme} {ds : List Char} (h : kind.Writes ds) : ds ≠ [] := by
  obtain ⟨m, hm, -⟩ := first?_of_writes h []
  rw [List.append_nil] at hm
  rintro rfl
  exact nomatch hm

/-- The longest lexeme that a text starts with. -/
structure Longest (cs : List Char) (kind : Lexeme) (taken : List Char) : Prop where
  writes : kind.Writes taken
  isPrefix : taken <+: cs
  length_le : ∀ other ds, Writes other ds → ds <+: cs → ds.length ≤ taken.length

theorem longest_of_first? {cs : List Char} {m : Match} (h : first? cs = some m) :
    Longest cs m.lexeme m.taken where
  writes := first?_writes h
  isPrefix := ⟨m.rest, (first?_append h).1⟩
  length_le other ds hds hprefix := by
    obtain ⟨rest, rfl⟩ := hprefix
    obtain ⟨m', hm', hprefix, -⟩ := first?_of_writes hds rest
    obtain rfl := Option.some.inj (h.symm.trans hm')
    exact hprefix.length_le

theorem first?_of_longest {taken rest : List Char} {kind : Lexeme}
    (h : Longest (taken ++ rest) kind taken) :
    first? (taken ++ rest) = some ⟨kind, taken, rest⟩ := by
  obtain ⟨⟨kind', taken', rest'⟩, hm, hprefix, hkind⟩ := first?_of_writes h.writes rest
  have happend : taken' ++ rest' = taken ++ rest := (first?_append hm).1
  have hle := h.length_le _ _ (first?_writes hm) ⟨_, happend⟩
  obtain rfl : taken = taken' := hprefix.eq_of_length_le hle
  obtain rfl := List.append_cancel_left happend
  obtain rfl := hkind rfl
  exact hm

/-- Nothing is found just where no lexeme stands. -/
theorem first?_eq_none_iff {cs : List Char} :
    first? cs = none ↔ ∀ kind ds, Writes kind ds → ¬ds <+: cs := by
  constructor
  · rintro h kind ds hds ⟨rest, rfl⟩
    obtain ⟨m, hm, -⟩ := first?_of_writes hds rest
    exact nomatch h.symm.trans hm
  · intro h
    cases hm : first? cs with
    | none => rfl
    | some m => exact absurd ⟨m.rest, (first?_append hm).1⟩ (h _ _ (first?_writes hm))

/-- A lexeme that is the longest one of a text is so where less of the text is behind it. -/
theorem Longest.shorten {taken rest behind : List Char} {kind : Lexeme}
    (h : Longest (taken ++ (rest ++ behind)) kind taken) : Longest (taken ++ rest) kind taken where
  writes := h.writes
  isPrefix := List.prefix_append _ _
  length_le other ds hds hstart := by
    refine h.length_le other ds hds (hstart.trans ?_)
    rw [← List.append_assoc]
    exact List.prefix_append _ _

end BoundView.Expr.Lexeme
