import BoundView.Proofs.Expr.Literals
import BoundView.Proofs.Outcome

/-!
# Sources as rows of lexemes

A source that has tokens is a row of lexemes without gaps, each the longest one where it begins; the
blank ones write no token, and any other one writes the token that stands at its offset.  A source
without tokens is such a row up to the offset that is reported, and cannot go on there.  Main
statement: this is what becomes of every source, and each lexeme has its token also on its own.
-/

namespace BoundView.Expr

open Lexeme (Writes Longest)

/-- A lexeme in a source, with the token that it writes. -/
structure Piece where
  kind : Lexeme
  text : List Char
  token? : Option Token

/-- The text of a row of lexemes. -/
def written (pieces : List Piece) : List Char :=
  pieces.flatMap Piece.text

/-- The tokens of a row that begins at an offset. -/
def located (offset : Nat) : List Piece → List (Nat × Token)
  | [] => []
  | piece :: rest =>
    (piece.token?.map (offset, ·)).toList ++ located (offset + Text.byteLength piece.text) rest

theorem written_cons (piece : Piece) (pieces : List Piece) :
    written (piece :: pieces) = piece.text ++ written pieces :=
  List.flatMap_cons

/-- A row of lexemes before some text: each is the longest one there, and writes its token. -/
structure Tiling (pieces : List Piece) (behind : List Char) : Prop where
  longest : ∀ before piece after, pieces = before ++ piece :: after →
    Longest (piece.text ++ (written after ++ behind)) piece.kind piece.text
  token_eq : ∀ piece ∈ pieces, piece.kind.token piece.text = .ok piece.token?

/-- How a text is no row of lexemes from its beginning on: it begins with no lexeme, or the longest
one is a number that cannot be read, for one of its digits is of another script. -/
inductive Stops (cs : List Char) : ParseFault → Prop where
  | unexpected {c : Char} {rest : List Char} (hcs : cs = c :: rest)
      (h : ∀ kind ds, Writes kind ds → ¬ds <+: cs) : Stops cs (.unexpectedCharacter c)
  | invalidNumber {text : List Char} (h : Longest cs .number text)
      (hread : Decimal.read? (String.ofList text) = none)
      (hforeign : ∃ c ∈ text, Text.isDecimalDigit c = true ∧ c.isDigit = false) :
      Stops cs .invalidNumber

variable {pieces : List Piece} {piece : Piece} {cs behind : List Char} {offset : Nat}

theorem tiling_nil (behind : List Char) : Tiling [] behind where
  longest before piece after heq := absurd heq (by simp)
  token_eq piece h := absurd h List.not_mem_nil

theorem tiling_cons : Tiling (piece :: pieces) behind ↔
    (Longest (piece.text ++ (written pieces ++ behind)) piece.kind piece.text
      ∧ piece.kind.token piece.text = .ok piece.token?) ∧ Tiling pieces behind := by
  constructor
  · intro h
    refine ⟨⟨h.longest [] piece pieces rfl, h.token_eq piece List.mem_cons_self⟩, ?_, ?_⟩
    · rintro before piece' after rfl
      exact h.longest (piece :: before) piece' after rfl
    · exact fun piece' hmem => h.token_eq piece' (List.mem_cons_of_mem piece hmem)
  · rintro ⟨⟨hlongest, htoken⟩, h⟩
    refine ⟨fun before piece' after heq => ?_, List.forall_mem_cons.2 ⟨htoken, h.token_eq⟩⟩
    cases before with
    | nil =>
      obtain ⟨rfl, rfl⟩ := List.cons.inj heq
      exact hlongest
    | cons first before => exact h.longest before piece' after (List.cons.inj heq).2

/-- A row stays one where nothing is behind it. -/
theorem Tiling.alone (h : Tiling pieces behind) : Tiling pieces [] where
  longest before piece after heq := by
    have hlongest := h.longest before piece after heq
    rw [List.append_nil]
    exact hlongest.shorten
  token_eq := h.token_eq

theorem Tiling.single (h : Tiling pieces behind) (hmem : piece ∈ pieces) : Tiling [piece] [] := by
  obtain ⟨before, after, rfl⟩ := List.append_of_mem hmem
  have hlongest := h.longest before piece after rfl
  rw [← List.nil_append (written after ++ behind)] at hlongest
  exact tiling_cons.2 ⟨⟨hlongest.shorten, h.token_eq piece hmem⟩, tiling_nil []⟩

/-! ## One step -/

theorem tokensFrom_nil (offset : Nat) : tokensFrom offset [] = .ok [] := by
  rw [tokensFrom]
  split
  · rfl
  · rename_i hm
    cases hm

/-- The tokens of a text that begins with a lexeme. -/
theorem tokensFrom_piece (h : Longest (piece.text ++ cs) piece.kind piece.text)
    (htoken : piece.kind.token piece.text = .ok piece.token?) :
    tokensFrom offset (piece.text ++ cs) =
      (fun tokens => (piece.token?.map (offset, ·)).toList ++ tokens)
        <$> tokensFrom (offset + Text.byteLength piece.text) cs := by
  have hfirst := Lexeme.first?_of_longest h
  rw [tokensFrom]
  split
  · rename_i hnone
    cases hnone.symm.trans hfirst
  · rename_i m hm
    obtain rfl := Option.some.inj (hm.symm.trans hfirst)
    dsimp only
    rw [htoken]
    dsimp only
    cases tokensFrom (offset + Text.byteLength piece.text) cs with
    | error e => rfl
    | ok tokens => rfl

/-- A text that begins with no lexeme, or with a number that cannot be read, has no tokens. -/
theorem tokensFrom_of_stops {fault : ParseFault} (h : Stops cs fault) :
    tokensFrom offset cs = .error (offset, fault) := by
  rw [tokensFrom]
  cases h with
  | unexpected hcs h =>
    subst hcs
    have hnone := Lexeme.first?_eq_none_iff.2 h
    split
    · rfl
    · rename_i hm
      cases hm.symm.trans hnone
  | invalidNumber h hread _ =>
    obtain ⟨rest, rfl⟩ := h.isPrefix
    have hfirst := Lexeme.first?_of_longest h
    split
    · rename_i hnone
      cases hnone.symm.trans hfirst
    · rename_i m hm
      obtain rfl := Option.some.inj (hm.symm.trans hfirst)
      dsimp only
      rw [Lexeme.token, hread]

/-- Every text is empty, begins with a lexeme that has a token or is blank, or cannot go on. -/
theorem text_cases (cs : List Char) : cs = []
    ∨ (∃ (piece : Piece) (rest : List Char), cs = piece.text ++ rest ∧ rest.length < cs.length
      ∧ Longest cs piece.kind piece.text ∧ piece.kind.token piece.text = .ok piece.token?)
    ∨ ∃ fault, Stops cs fault := by
  cases hfirst : Lexeme.first? cs with
  | none =>
    cases cs with
    | nil => exact .inl rfl
    | cons c rest =>
      exact .inr (.inr ⟨_, .unexpected rfl (Lexeme.first?_eq_none_iff.1 hfirst)⟩)
  | some m =>
    have hlongest := Lexeme.longest_of_first? hfirst
    have happend := (Lexeme.first?_append hfirst).1
    cases htoken : m.lexeme.token m.taken with
    | ok token? =>
      exact .inr (.inl ⟨⟨m.lexeme, m.taken, token?⟩, m.rest, happend.symm,
        Lexeme.length_rest_lt hfirst, hlongest, htoken⟩)
    | error fault =>
      refine .inr (.inr ⟨.invalidNumber, ?_⟩)
      -- Only a number can be a lexeme without a token.
      obtain ⟨kind, taken, rest⟩ := m
      cases kind with
      | number =>
        dsimp only [Lexeme.token] at htoken
        split at htoken
        · exact nomatch htoken
        · rename_i hread
          exact .invalidNumber hlongest hread ((Lexeme.read?_eq_none_iff hlongest.writes).1 hread)
      | blank | quoted | name | symbol => exact nomatch htoken

/-! ## Whole texts -/

theorem tokensFrom_of_tiling (h : Tiling pieces behind) (offset : Nat) :
    tokensFrom offset (written pieces ++ behind) =
      (fun tokens => located offset pieces ++ tokens)
        <$> tokensFrom (offset + Text.byteLength (written pieces)) behind := by
  induction pieces generalizing offset with
  | nil => exact (id_map _).symm
  | cons piece pieces ih =>
    obtain ⟨⟨hlongest, htoken⟩, h⟩ := tiling_cons.1 h
    rw [written_cons, List.append_assoc, tokensFrom_piece hlongest htoken, ih h, ← comp_map,
      Text.byteLength_append, ← Nat.add_assoc]
    refine congrArg (· <$> _) (funext fun tokens => ?_)
    exact (List.append_assoc _ _ _).symm

/-- Every text is a row of lexemes up to where it ends or cannot go on. -/
theorem exists_tiling (cs : List Char) : ∃ pieces behind, cs = written pieces ++ behind
    ∧ Tiling pieces behind ∧ (behind = [] ∨ ∃ fault, Stops behind fault) := by
  induction hn : cs.length using Nat.strong_induction_on generalizing cs with
  | _ n ih =>
    rcases text_cases cs with rfl | ⟨piece, rest, rfl, hlt, hlongest, htoken⟩ | hstops
    · exact ⟨[], [], rfl, tiling_nil [], .inl rfl⟩
    · obtain ⟨pieces, behind, rfl, h, hend⟩ := ih _ (hn ▸ hlt) rest rfl
      exact ⟨piece :: pieces, behind, (List.append_assoc _ _ _).symm,
        tiling_cons.2 ⟨⟨hlongest, htoken⟩, h⟩, hend⟩
    · exact ⟨[], cs, rfl, tiling_nil cs, .inr hstops⟩

theorem tokenize_of_tokensFrom {source : String} {tokens : List (Nat × Token)}
    (h : tokensFrom 0 source.toList = .ok tokens) : tokenize source = .ok tokens := by
  rw [tokenize, h]

theorem tokenize_written (h : Tiling pieces []) :
    tokenize (String.ofList (written pieces)) = .ok (located 0 pieces) := by
  refine tokenize_of_tokensFrom ?_
  have htokens := tokensFrom_of_tiling h 0
  rw [List.append_nil, tokensFrom_nil] at htokens
  rw [String.toList_ofList, htokens]
  exact congrArg Except.ok (List.append_nil _)

/-- A lexeme on its own has the token that it has in the row. -/
theorem tokenize_piece (h : Tiling pieces behind) (hmem : piece ∈ pieces) :
    tokenize (String.ofList piece.text) = .ok (piece.token?.map (0, ·)).toList := by
  have htokens := tokenize_written (h.single hmem)
  rwa [written_cons, written, List.flatMap_nil, List.append_nil, located, located,
    List.append_nil] at htokens

theorem token?_eq_none_iff (h : piece.kind.token piece.text = .ok piece.token?) :
    piece.token? = none ↔ piece.kind = .blank := by
  unfold Lexeme.token at h
  split at h
  · rename_i hkind
    exact iff_of_true (Except.ok.inj h).symm hkind
  · rename_i hkind
    split at h
    · rw [← Except.ok.inj h, hkind]
      exact iff_of_false nofun nofun
    · exact nomatch h
  · rename_i hkind
    rw [← Except.ok.inj h, hkind]
    exact iff_of_false nofun nofun
  · rename_i hkind
    rw [← Except.ok.inj h, hkind]
    exact iff_of_false nofun nofun
  · rename_i hkind
    rw [← Except.ok.inj h, hkind]
    exact iff_of_false nofun nofun

theorem byteLength_pos {ds : List Char} (h : ds ≠ []) : 0 < Text.byteLength ds := by
  obtain ⟨c, ds, rfl⟩ := List.exists_cons_of_ne_nil h
  rw [Text.byteLength]
  exact Nat.add_pos_left c.utf8Size_pos _

theorem le_of_mem_located {offset : Nat} {token : Nat × Token}
    (h : token ∈ located offset pieces) : offset ≤ token.1 := by
  induction pieces generalizing offset with
  | nil => exact absurd h List.not_mem_nil
  | cons piece pieces ih =>
    rcases List.mem_append.1 h with h | h
    · obtain ⟨t, -, rfl⟩ := Option.map_eq_some_iff.1 (Option.mem_toList.1 h)
      exact Nat.le_refl offset
    · exact Nat.le_trans (Nat.le_add_right _ _) (ih h)

/-- The tokens of a row stand one behind the other. -/
theorem pairwise_located (h : Tiling pieces behind) (offset : Nat) :
    ((located offset pieces).map Prod.fst).Pairwise (· < ·) := by
  induction pieces generalizing offset with
  | nil => exact List.Pairwise.nil
  | cons piece pieces ih =>
    obtain ⟨⟨hlongest, -⟩, h⟩ := tiling_cons.1 h
    rw [located, List.map_append]
    refine List.pairwise_append.2 ⟨?_, ih h _, fun i hi j hj => ?_⟩
    · cases piece.token? with
      | none => exact List.Pairwise.nil
      | some t => exact List.pairwise_singleton _ _
    · obtain ⟨token, htoken, rfl⟩ := List.mem_map.1 hi
      obtain ⟨token', htoken', rfl⟩ := List.mem_map.1 hj
      obtain ⟨t, -, rfl⟩ := Option.map_eq_some_iff.1 (Option.mem_toList.1 htoken)
      have hpos := byteLength_pos hlongest.writes.ne_nil
      have hle := le_of_mem_located htoken'
      show offset < token'.1
      omega

/-- Every source is a row of lexemes, each the longest where it begins, up to its end or to where it
cannot go on.  All but the blank lexemes write a token, which stands at the offset of the lexeme and
is what the lexeme alone is split into.  These tokens are those of the source or, where it cannot go
on, those of its text before the place that is reported. -/
theorem tokenize_tiling (source : String) :
    ∃ pieces behind, source.toList = written pieces ++ behind ∧ Tiling pieces behind
      ∧ (∀ piece ∈ pieces, (piece.token? = none ↔ piece.kind = .blank)
        ∧ tokenize (String.ofList piece.text) = .ok (piece.token?.map (0, ·)).toList)
      ∧ ((located 0 pieces).map Prod.fst).Pairwise (· < ·)
      ∧ tokenize (String.ofList (written pieces)) = .ok (located 0 pieces)
      ∧ (behind = [] ∧ tokenize source = .ok (located 0 pieces)
        ∨ ∃ fault, Stops behind fault
          ∧ tokenize source = .error (.parse source (Text.byteLength (written pieces)) fault)) := by
  obtain ⟨pieces, behind, hsource, h, hend⟩ := exists_tiling source.toList
  have hwritten := tokenize_written h.alone
  refine ⟨pieces, behind, hsource, h, fun piece hmem => ⟨token?_eq_none_iff (h.token_eq piece hmem),
    tokenize_piece h hmem⟩, pairwise_located h 0, hwritten, ?_⟩
  rcases hend with rfl | ⟨fault, hfault⟩
  · refine .inl ⟨rfl, ?_⟩
    rwa [← List.append_nil (written pieces), ← hsource, String.ofList_toList] at hwritten
  · refine .inr ⟨fault, hfault, ?_⟩
    rw [tokenize, hsource, tokensFrom_of_tiling h, tokensFrom_of_stops hfault, Nat.zero_add]
    rfl

end BoundView.Expr
