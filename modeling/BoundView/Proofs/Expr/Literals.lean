import BoundView.Proofs.Expr.Lexemes

/-!
# Numbers as decimal literals

The digits of a lexeme may be of any script, those of a decimal literal are of ASCII.  Main
statement: this is all that keeps the text of a number from being read as one.
-/

namespace BoundView.Expr.Lexeme

/-! ## The characters of literals -/

/-- Digits of any script that are those of ASCII. -/
def Plain (cs : List Char) : Prop :=
  ∀ c ∈ cs, Text.isDecimalDigit c = true → c.isDigit = true

theorem isDigit_of_digits {ds : List Char} (h : Digits ds) (hplain : Plain ds) :
    ∀ c ∈ ds, c.isDigit = true :=
  fun c hc => hplain c hc (h.2 c hc)

theorem Plain.left {cs ds : List Char} (h : Plain (cs ++ ds)) : Plain cs :=
  fun c hc => h c (List.mem_append_left ds hc)

theorem Plain.right {cs ds : List Char} (h : Plain (cs ++ ds)) : Plain ds :=
  fun c hc => h c (List.mem_append_right cs hc)

theorem takeWhile_isDigit {ds rest : List Char} (h : ∀ c ∈ ds, c.isDigit = true)
    (hrest : ∀ c tail, rest = c :: tail → c.isDigit = false) :
    (ds ++ rest).takeWhile Char.isDigit = ds ∧ (ds ++ rest).dropWhile Char.isDigit = rest := by
  rw [List.takeWhile_append_of_pos h, List.dropWhile_append_of_pos h]
  cases rest with
  | nil => simp
  | cons c tail =>
    have hc := Bool.eq_false_iff.1 (hrest c tail rfl)
    rw [List.takeWhile_cons_of_neg hc, List.dropWhile_cons_of_neg hc, List.append_nil]
    exact ⟨rfl, rfl⟩

/-- The characters of decimal literals without a sign. -/
def InLiteral (c : Char) : Prop :=
  c.isDigit = true ∨ c ∈ ['.', 'e', 'E', '+', '-']

theorem inLiteral_of_exponent? {cs : List Char} {e : Int} (h : Decimal.exponent? cs = some e) :
    ∀ c ∈ cs, InLiteral c := by
  have hall : ∀ ds : List Char, ¬(ds.isEmpty || !ds.all Char.isDigit) = true →
      ∀ c ∈ ds, InLiteral c := by
    intro ds hds c hc
    rw [Bool.or_eq_true, Bool.not_eq_true', not_or, Bool.not_eq_false] at hds
    exact .inl (List.all_eq_true.1 hds.2 c hc)
  unfold Decimal.exponent? at h
  split at h
  rename_i negative digits hsign
  split at h
  · exact nomatch h
  · rename_i hdigits
    split at hsign
    · cases hsign
      exact List.forall_mem_cons.2 ⟨.inr (by decide), hall _ hdigits⟩
    · cases hsign
      exact List.forall_mem_cons.2 ⟨.inr (by decide), hall _ hdigits⟩
    · cases hsign
      exact hall _ hdigits

theorem inLiteral_of_unsigned? {negative : Bool} {cs : List Char} {x : Float}
    (h : Decimal.unsigned? negative cs = some x) : ∀ c ∈ cs, InLiteral c := by
  -- What is left of the text behind a run of digits decides about the whole.
  have hparts : ∀ ds : List Char, (∀ c ∈ ds.dropWhile Char.isDigit, InLiteral c) →
      ∀ c ∈ ds, InLiteral c := by
    intro ds hrest c hc
    rw [← List.takeWhile_append_dropWhile (p := Char.isDigit) (l := ds), List.mem_append] at hc
    exact hc.elim (fun hc => .inl (List.mem_takeWhile_imp hc)) (hrest c)
  have hpower : ∀ (c : Char) (rest : List Char) (f : Int → Option Float),
      (if c = 'e' ∨ c = 'E' then (Decimal.exponent? rest).bind f else none) = some x →
      ∀ d ∈ c :: rest, InLiteral d := by
    intro c rest f hf
    split at hf
    · rename_i hmark
      obtain ⟨e, he, -⟩ := Option.bind_eq_some_iff.1 hf
      refine List.forall_mem_cons.2 ⟨.inr ?_, inLiteral_of_exponent? he⟩
      rcases hmark with rfl | rfl <;> decide
    · exact nomatch hf
  refine hparts cs ?_
  unfold Decimal.unsigned? at h
  dsimp only at h
  split at h
  · rename_i rest hpoint
    rw [hpoint]
    refine List.forall_mem_cons.2 ⟨.inr (by decide), hparts rest ?_⟩
    split at h
    · exact nomatch h
    · dsimp only at h
      split at h
      · rename_i hnil
        rw [hnil]
        exact fun c hc => absurd hc List.not_mem_nil
      · rename_i hcons
        rw [hcons]
        exact hpower _ _ _ h
  · split at h
    · exact nomatch h
    · dsimp only at h
      split at h
      · rename_i hnil
        rw [hnil]
        exact fun c hc => absurd hc List.not_mem_nil
      · rename_i hcons
        rw [hcons]
        exact hpower _ _ _ h

/-! ## Numbers whose digits are of ASCII -/

theorem exponent?_ne_none {sign ds : List Char} (hsign : sign = [] ∨ sign = ['+'] ∨ sign = ['-'])
    (hne : ds ≠ []) (h : ∀ c ∈ ds, c.isDigit = true) : Decimal.exponent? (sign ++ ds) ≠ none := by
  have hall : ∀ digits, digits = ds → ¬(digits.isEmpty || !digits.all Char.isDigit) = true := by
    rintro digits rfl
    rw [Bool.or_eq_true, Bool.not_eq_true', not_or, Bool.not_eq_false, List.isEmpty_iff]
    exact ⟨hne, List.all_eq_true.2 h⟩
  obtain ⟨c, tail, rfl⟩ := List.exists_cons_of_ne_nil hne
  have hc := h c List.mem_cons_self
  unfold Decimal.exponent?
  split
  rename_i negative digits heq
  have hdigits : digits = c :: tail := by
    rcases hsign with rfl | rfl | rfl
    · rw [List.nil_append] at heq
      split at heq
      · rename_i hminus
        obtain ⟨rfl, -⟩ := List.cons.inj hminus
        exact absurd hc (by decide)
      · rename_i hplus
        obtain ⟨rfl, -⟩ := List.cons.inj hplus
        exact absurd hc (by decide)
      · exact (Prod.mk.inj heq).2.symm
    · exact (Prod.mk.inj heq).2.symm
    · exact (Prod.mk.inj heq).2.symm
  rw [if_neg (hall digits hdigits)]
  exact Option.some_ne_none _

/-- A power with digits of ASCII is read. -/
theorem Power.read_cases {power : List Char} (hpower : Power power) (h : Plain power) :
    power = [] ∨ ∃ mark tail e, power = mark :: tail ∧ (mark = 'e' ∨ mark = 'E')
      ∧ Decimal.exponent? tail = Option.some e := by
  cases hpower with
  | none => exact .inl rfl
  | some hmark hsign hds =>
    have hascii := isDigit_of_digits hds fun c hc => h c (by simp [hc])
    obtain ⟨e, he⟩ := Option.ne_none_iff_exists'.1 (exponent?_ne_none hsign hds.1 hascii)
    exact .inr ⟨_, _, e, rfl, hmark, he⟩

theorem Power.head_stops {power : List Char} (h : Power power) :
    ∀ c tail, power = c :: tail → c.isDigit = false ∧ c ≠ '.' := by
  intro c tail heq
  cases h with
  | none => exact nomatch heq
  | some hmark _ _ =>
    obtain ⟨rfl, -⟩ := List.cons.inj heq
    rcases hmark with rfl | rfl <;> decide

theorem unsigned?_ne_none {whole point power : List Char} (hwhole : Digits whole)
    (hpoint : Fraction point) (hpower : Power power) (h : Plain (whole ++ (point ++ power))) :
    Decimal.unsigned? false (whole ++ (point ++ power)) ≠ none := by
  have hw := isDigit_of_digits hwhole h.left
  have hne : ∀ ds : List Char, ¬(whole.isEmpty && ds.isEmpty) = true := by
    intro ds
    rw [Bool.and_eq_true, List.isEmpty_iff]
    exact fun hboth => hwhole.1 hboth.1
  have hread := hpower.read_cases h.right.right
  have hstop : ∀ c tail, power = c :: tail → c.isDigit = false :=
    fun c tail heq => (hpower.head_stops c tail heq).1
  unfold Decimal.unsigned?
  dsimp only
  cases hpoint with
  | none =>
    obtain ⟨htake, hdrop⟩ := takeWhile_isDigit hw hstop
    rw [List.nil_append, htake, hdrop]
    split
    · exact absurd rfl (hpower.head_stops _ _ rfl).2
    · dsimp only
      rw [if_neg (hne [])]
      rcases hread with rfl | ⟨mark, tail, e, rfl, hmark, he⟩
      · exact Option.some_ne_none _
      · dsimp only
        rw [if_pos hmark, he]
        exact Option.some_ne_none _
  | @some ds hds =>
    have hpoint : ∀ c tail, '.' :: ds ++ power = c :: tail → c.isDigit = false := by
      intro c tail heq
      obtain ⟨rfl, -⟩ := List.cons.inj heq
      decide
    obtain ⟨htake, hdrop⟩ := takeWhile_isDigit hw hpoint
    obtain ⟨htake', hdrop'⟩ := takeWhile_isDigit
      (isDigit_of_digits hds fun c hc => h c (by simp [hc])) hstop
    rw [htake, hdrop]
    split
    · rename_i rest heq
      obtain rfl : ds ++ power = rest := (List.cons.inj heq).2
      dsimp only
      rw [htake', hdrop', if_neg (hne ds)]
      rcases hread with rfl | ⟨mark, tail, e, rfl, hmark, he⟩
      · exact Option.some_ne_none _
      · dsimp only
        rw [if_pos hmark, he]
        exact Option.some_ne_none _
    · rename_i hno
      exact absurd rfl (hno _)

theorem read?_eq_unsigned? {cs : List Char} {c : Char} (hc : Text.isDecimalDigit c = true) :
    Decimal.read? (String.ofList (c :: cs)) = Decimal.unsigned? false (c :: cs) := by
  -- The names of numbers that are not finite begin with a letter.
  have hlower : c.toLower = c := by
    have hn := isDecimalDigit_cases hc
    rw [Char.toLower, dif_neg]
    rintro ⟨hle, hle'⟩
    have hle : 65 ≤ c.toNat := hle
    have hle' : c.toNat ≤ 90 := hle'
    omega
  have hname : ∀ (d : Char) (tail : List Char), Text.isDecimalDigit d = false →
      String.ofList ((c :: cs).map Char.toLower) ≠ String.ofList (d :: tail) := by
    intro d tail hd heq
    have hlist := String.ofList_injective heq
    rw [List.map_cons, hlower] at hlist
    obtain ⟨rfl, -⟩ := List.cons.inj hlist
    exact Bool.false_ne_true (hd.symm.trans hc)
  unfold Decimal.read?
  rw [String.toList_ofList]
  split
  rename_i negative body heq
  split at heq
  · rename_i hminus
    obtain ⟨rfl, -⟩ := List.cons.inj hminus
    exact absurd hc (by decide)
  · rename_i hplus
    obtain ⟨rfl, -⟩ := List.cons.inj hplus
    exact absurd hc (by decide)
  · cases heq
    dsimp only
    rw [if_neg, if_neg]
    · exact hname 'n' ['a', 'n'] (by decide)
    · rintro (hinf | hinf)
      · exact hname 'i' ['n', 'f'] (by decide) hinf
      · exact hname 'i' ['n', 'f', 'i', 'n', 'i', 't', 'y'] (by decide) hinf

/-- Of the numbers just those are not read that have a digit of another script. -/
theorem read?_eq_none_iff {ds : List Char} (h : Writes .number ds) :
    Decimal.read? (String.ofList ds) = none ↔
      ∃ c ∈ ds, Text.isDecimalDigit c = true ∧ c.isDigit = false := by
  cases h with
  | @number whole point power hwhole hpoint hpower =>
    obtain ⟨c, tail, rfl⟩ := List.exists_cons_of_ne_nil hwhole.1
    rw [List.cons_append, read?_eq_unsigned? (hwhole.2 c List.mem_cons_self), ← List.cons_append]
    constructor
    · intro hnone
      by_contra hplain
      push Not at hplain
      exact unsigned?_ne_none hwhole hpoint hpower
        (fun c hc hdigit => (Bool.not_eq_false _).mp (hplain c hc hdigit)) hnone
    · rintro ⟨d, hd, hdigit, hascii⟩
      cases hx : Decimal.unsigned? false (c :: tail ++ (point ++ power)) with
      | none => rfl
      | some x =>
        exfalso
        rcases inLiteral_of_unsigned? hx d hd with h | h
        · exact Bool.false_ne_true (hascii.symm.trans h)
        · -- The marks of a number are no digits.
          have hmark : Text.isDecimalDigit d = false := by
            simp only [List.mem_cons, List.not_mem_nil, or_false] at h
            rcases h with rfl | rfl | rfl | rfl | rfl <;> decide
          exact Bool.false_ne_true (hmark.symm.trans hdigit)

end BoundView.Expr.Lexeme
