import BoundView.Proofs.Expr.Sound

/-!
# What is derived is read

The parser looks one token ahead, so a phrase is only read to its end if it does not go on with what
stands behind it.  Operands and suffixes are gathered from the left while the rules that derive them
are recursive on the left: what is shown of such a phrase is where the loop stands once the phrase
is behind it.  Main statement: a sequence of tokens is parsed to a tree just if the grammar derives
the sequence with that tree, within the limits of the parser.
-/

namespace BoundView.Expr.Parser

open Outcome (bind_eq_ok)

variable {n fuel place : Nat} {tokens rest read : Tokens} {ops : List BinaryOp}
  {levels : List (List BinaryOp)} {op : BinaryOp} {e target left right : Expr} {s close : Symbol}

/-! ## Depth -/

theorem one_le_depth (e : Expr) : 1 ≤ e.depth := by
  cases e <;> rw [depth] <;> omega

theorem depth_le_depthItems {es : List Expr} (h : e ∈ es) : e.depth ≤ depthItems es := by
  induction es with
  | nil => exact absurd h List.not_mem_nil
  | cons e' es ih =>
    rw [depthItems]
    rcases List.mem_cons.1 h with rfl | h
    · exact Nat.le_max_left _ _
    · exact Nat.le_trans (ih h) (Nat.le_max_right _ _)

theorem depth_le_of_mem {es : List Expr} {m : Nat} (h : 1 + depthItems es ≤ m) :
    ∀ e ∈ es, e.depth ≤ m := by
  intro e he
  have hle := depth_le_depthItems he
  omega

theorem node_of_depth (h : e.depth ≤ maxDepth) (tokens : Tokens) :
    node e tokens = .ok (e, tokens) :=
  node_eq_ok.2 ⟨rfl, rfl, h⟩

/-! ## The token behind a phrase -/

/-- Whether tokens go on neither with an operator of these levels nor with anything that may belong
to an operand. -/
def Ends (levels : List (List BinaryOp)) (rest : Tokens) : Prop :=
  ∀ s, startsWith s rest = true → s ≠ .openParen ∧ s ≠ .dot ∧ s ≠ .openBracket
    ∧ ∀ ops ∈ levels, ∀ op ∈ ops, op.symbol ≠ s

/-- What may stand behind an expression inside of another one. -/
def closings : List Symbol :=
  [.closeParen, .closeBracket]

theorem ends_nil (levels : List (List BinaryOp)) : Ends levels [] :=
  fun _ h => absurd h Bool.false_ne_true

theorem startsWith_cons {t : Symbol} : startsWith s ((place, .symbol t) :: rest) = true ↔ s = t :=
  beq_iff_eq

theorem ends_comma : Ends operators ((place, .symbol .comma) :: rest) := by
  intro s hs
  obtain rfl := startsWith_cons.1 hs
  decide

theorem ends_closing (h : close ∈ closings) : Ends operators ((place, .symbol close) :: rest) := by
  intro s hs
  obtain rfl := startsWith_cons.1 hs
  have hall : ∀ s ∈ closings, s ≠ .openParen ∧ s ≠ .dot ∧ s ≠ .openBracket
      ∧ ∀ ops ∈ operators, ∀ op ∈ ops, op.symbol ≠ s := by
    decide
  exact hall s h

theorem symbol_injective : Function.Injective BinaryOp.symbol := by
  intro a b h
  cases a <;> cases b <;> first | rfl | exact nomatch h

/-- No level has an operator of another one. -/
theorem operators_apart :
    operators.Pairwise fun ops later => ∀ op ∈ ops, ∀ op' ∈ later, op'.symbol ≠ op.symbol := by
  decide

/-- An operator belongs to no tighter level. -/
theorem ends_operator (hlevels : (ops :: levels) <:+ operators) (hop : op ∈ ops) :
    Ends levels ((place, .symbol op.symbol) :: rest) := by
  intro s hs
  obtain rfl := startsWith_cons.1 hs
  have hlater : ∀ ops' ∈ levels, ∀ op ∈ ops, ∀ op' ∈ ops', op'.symbol ≠ op.symbol := fun _ =>
    List.rel_of_pairwise_cons (operators_apart.sublist hlevels.sublist)
  have hoperand : op.symbol ≠ .openParen ∧ op.symbol ≠ .dot ∧ op.symbol ≠ .openBracket := by
    cases op <;> decide
  exact ⟨hoperand.1, hoperand.2.1, hoperand.2.2, fun ops' hops' =>
    hlater ops' hops' op hop⟩

theorem Ends.tighter (h : Ends (ops :: levels) rest) : Ends levels rest := by
  intro s hs
  obtain ⟨hparen, hdot, hbracket, hops⟩ := h s hs
  exact ⟨hparen, hdot, hbracket, fun ops' hops' => hops ops' (List.mem_cons_of_mem ops hops')⟩

theorem Ends.operator?_eq_none (h : Ends (ops :: levels) rest) : operator? ops rest = none := by
  unfold operator?
  split
  · rename_i place s behind
    have hops := (h s (startsWith_cons.2 rfl)).2.2.2 ops List.mem_cons_self
    rw [List.find?_eq_none.2 fun op hop => by simpa using hops op hop]
    rfl
  · rfl

theorem Ends.startsWith_openParen (h : Ends levels rest) : startsWith .openParen rest = false := by
  by_contra hparen
  exact (h .openParen (by simpa using hparen)).1 rfl

theorem Ends.suffixes_eq (h : Ends levels rest) (expr : Step Expr) (fuel : Nat) (target : Expr) :
    suffixes expr fuel target rest = .ok (target, rest) := by
  rw [suffixes.eq_def]
  split
  · exact absurd rfl (h .dot (startsWith_cons.2 rfl)).2.1
  · exact absurd rfl (h .openBracket (startsWith_cons.2 rfl)).2.2.1
  · rfl

/-! ## The token in front of a phrase -/

theorem exists_read_of_starts {φ : Phrase} {ts : List Token} (h : φ.Starts ts)
    (hread : read.map Prod.snd = ts) : ∃ place t read', read = (place, t) :: read' ∧ φ.First t := by
  obtain ⟨t, us, rfl, ht⟩ := h
  obtain ⟨⟨place, t'⟩, read', rfl, rfl, -⟩ := List.map_eq_cons_iff.1 hread
  exact ⟨place, t', read', rfl, ht⟩

theorem sign?_of_beginsPrimary {t : Token} (h : t.BeginsPrimary) :
    sign? ((place, t) :: rest) = none := by
  unfold sign?
  split
  · rename_i heq
    cases heq
    exact absurd h (by rintro (h | h) <;> cases h)
  · rename_i heq
    cases heq
    exact absurd h (by rintro (h | h) <;> cases h)
  · rfl

theorem startsWith_of_begins {t : Token} (h : t.Begins) (hclose : close ∈ closings) :
    startsWith close ((place, t) :: rest) = false := by
  by_contra hstarts
  obtain ⟨_, _, heq⟩ := startsWith_eq_true.1 (Bool.of_not_eq_false hstarts)
  obtain ⟨-, rfl⟩ := Prod.mk.inj (List.cons.inj heq).1
  rcases h with (rfl | rfl) | ⟨op, h⟩
  · exact absurd hclose (by decide)
  · exact absurd hclose (by decide)
  · obtain rfl := Token.symbol.inj h
    cases op <;> exact absurd hclose (by decide)

/-! ## One turn of a loop -/

theorem operator?_symbol (hop : op ∈ ops) :
    operator? ops ((place, .symbol op.symbol) :: rest) = some (op, rest) := by
  have hfind : ops.find? (·.symbol == op.symbol) = some op := by
    obtain ⟨op', hop'⟩ := Option.isSome_iff_exists.1
      (List.find?_isSome (p := (·.symbol == op.symbol)) |>.2 ⟨op, hop, beq_self_eq_true _⟩)
    have hsymbol : op'.symbol = op.symbol := by simpa using List.find?_some hop'
    rw [hop', symbol_injective hsymbol]
  rw [operator?, hfind]
  rfl

theorem chain_binary {next : Step Expr} (hop : op ∈ ops) (hright : next tokens = .ok (right, rest))
    (hdepth : (binary op left right).depth ≤ maxDepth) :
    chain ops next (fuel + 1) left ((place, .symbol op.symbol) :: tokens)
      = chain ops next fuel (.binary op left right) rest := by
  rw [chain.eq_def]
  simp only [operator?_symbol hop]
  rw [hright]
  show (node (.binary op left right) rest >>= _) = _
  rw [node_of_depth hdepth]
  rfl

theorem suffixes_member {expr : Step Expr} {place' : Nat} {name : String}
    (hname : isSpecial name = false) (hdepth : (member target name).depth ≤ maxDepth) :
    suffixes expr (fuel + 1) target ((place, .symbol .dot) :: (place', .name name) :: rest)
      = suffixes expr fuel (.member target name) rest := by
  rw [suffixes]
  simp only [hname, Bool.false_eq_true, if_false, node_of_depth hdepth]
  rfl

theorem suffixes_index {expr : Step Expr} {place' : Nat} {position : Expr}
    (hposition : expr tokens = .ok (position, (place', .symbol .closeBracket) :: rest))
    (hdepth : (index target position).depth ≤ maxDepth) :
    suffixes expr (fuel + 1) target ((place, .symbol .openBracket) :: tokens)
      = suffixes expr fuel (.index target position) rest := by
  rw [suffixes, hposition]
  show (node (.index target position) rest >>= _) = _
  rw [node_of_depth hdepth]
  rfl

/-! ## Phrases -/

/-- What becomes of the tokens of a phrase when the parser comes to them, with up to `n` levels of
nesting left, if what stands behind them belongs to no part of the phrase. -/
def Reads (n : Nat) (read : Tokens) : Phrase → Prop
  | .expr e => e.depth ≤ maxDepth → ∀ rest, Ends operators rest →
    nested n (read ++ rest) = .ok (e, rest)
  | .level [] e => e.depth ≤ maxDepth → ∀ rest, Ends [] rest →
    operand n (read ++ rest) = .ok (e, rest)
  -- The loop over the operators of a level stands behind the phrase, and has turns left.
  | .level (ops :: levels) e => (ops :: levels) <:+ operators → e.depth ≤ maxDepth →
    ∀ rest, Ends levels rest → ∃ fuel, maxDepth < e.depth + fuel
      ∧ level ops (levelsFrom (operand n) levels) (read ++ rest)
        = chain ops (levelsFrom (operand n) levels) fuel e rest
  | .operand e => e.depth ≤ maxDepth → ∀ rest, Ends [] rest →
    operand n (read ++ rest) = .ok (e, rest)
  | .suffixed e => e.depth ≤ maxDepth → ∀ rest, startsWith .openParen rest = false →
    ∃ fuel, maxDepth < e.depth + fuel
      ∧ (primary (nested n) (read ++ rest) >>= fun target =>
          suffixes (nested n) maxDepth target.1 target.2)
        = suffixes (nested n) fuel e rest
  | .primary e => e.depth ≤ maxDepth → ∀ rest, startsWith .openParen rest = false →
    primary (nested n) (read ++ rest) = .ok (e, rest)
  | .items es => (∀ e ∈ es, e.depth ≤ maxDepth) → ∀ close ∈ closings, ∀ place rest,
    ∃ item items behind, es = item :: items
      ∧ nested n (read ++ (place, .symbol close) :: rest) = .ok (item, behind)
      ∧ ∀ fuel, behind.length ≤ fuel →
        elements close (nested n) fuel behind = .ok (items, rest)
  | .args es => (∀ e ∈ es, e.depth ≤ maxDepth) → ∀ close ∈ closings, ∀ place rest,
    list close (nested n) (read ++ (place, .symbol close) :: rest) = .ok (es, rest)

/-- Behind its last operator a phrase of some levels is read to its end. -/
theorem Reads.levelsFrom (h : Reads n read (.level levels e)) (hlevels : levels <:+ operators)
    (hdepth : e.depth ≤ maxDepth) (hends : Ends levels rest) :
    levelsFrom (operand n) levels (read ++ rest) = .ok (e, rest) := by
  cases levels with
  | nil => exact h hdepth rest hends
  | cons ops levels =>
    obtain ⟨fuel, -, hchain⟩ := h hlevels hdepth rest hends.tighter
    rw [Parser.levelsFrom, hchain, chain.eq_def]
    simp only [hends.operator?_eq_none]

theorem Reads.tighter (h : Reads n read (.level levels e)) :
    Reads n read (.level (ops :: levels) e) := by
  intro hlevels hdepth rest hends
  have hone := one_le_depth e
  have hread := h.levelsFrom ((List.suffix_cons ops levels).trans hlevels) hdepth hends
  refine ⟨maxDepth, by omega, ?_⟩
  rw [level, hread]
  rfl

theorem Reads.binary {read' : Tokens} (hop : op ∈ ops)
    (hleft : Reads n read (.level (ops :: levels) left))
    (hright : Reads n read' (.level levels right)) :
    Reads n (read ++ (place, .symbol op.symbol) :: read')
      (.level (ops :: levels) (.binary op left right)) := by
  intro hlevels hdepth rest hends
  have hboth : (Expr.binary op left right).depth = 1 + max left.depth right.depth := rfl
  obtain ⟨fuel, hfuel, hchain⟩ := hleft hlevels (by omega)
    ((place, .symbol op.symbol) :: read' ++ rest) (ends_operator hlevels hop)
  -- The tree on the left is lower than the limit, so there is a turn left.
  obtain ⟨fuel, rfl⟩ := Nat.exists_eq_add_one_of_ne_zero (show fuel ≠ 0 by omega)
  have hnext := hright.levelsFrom ((List.suffix_cons ops levels).trans hlevels) (by omega) hends
  refine ⟨fuel, by omega, ?_⟩
  rw [List.append_assoc, hchain]
  exact chain_binary hop hnext hdepth

theorem Reads.unary {op : UnaryOp} (h : Reads n read (.operand e)) :
    Reads (n + 1) ((place, .symbol op.symbol) :: read) (.operand (.unary op e)) := by
  intro hdepth rest hends
  have hinner : (Expr.unary op e).depth = 1 + e.depth := rfl
  have hsign : sign? ((place, .symbol op.symbol) :: (read ++ rest)) = some (op, read ++ rest) := by
    cases op <;> rfl
  rw [List.cons_append, operand_of_sign hsign]
  show (operand n (read ++ rest) >>= _) = _
  rw [h (by omega) rest hends]
  exact node_of_depth hdepth rest

theorem Reads.unsigned (hread : Phrase.Starts (.suffixed e) (read.map Prod.snd))
    (h : Reads n read (.suffixed e)) : Reads n read (.operand e) := by
  intro hdepth rest hends
  obtain ⟨fuel, -, hsuffixes⟩ := h hdepth rest hends.startsWith_openParen
  obtain ⟨place, t, read', rfl, ht⟩ := exists_read_of_starts hread rfl
  have hsign : sign? ((place, t) :: read' ++ rest) = none := sign?_of_beginsPrimary ht
  rw [operand_of_no_sign hsign, hsuffixes]
  exact hends.suffixes_eq _ _ _

theorem Reads.bare (h : Reads n read (.primary e)) : Reads n read (.suffixed e) := by
  intro hdepth rest hparen
  have hone := one_le_depth e
  refine ⟨maxDepth, by omega, ?_⟩
  rw [h hdepth rest hparen]
  rfl

theorem Reads.member {place' : Nat} {name : String} (hname : isSpecial name = false)
    (h : Reads n read (.suffixed e)) :
    Reads n (read ++ [(place, .symbol .dot), (place', .name name)])
      (.suffixed (.member e name)) := by
  intro hdepth rest _
  have hinner : (Expr.member e name).depth = 1 + e.depth := rfl
  obtain ⟨fuel, hfuel, hsuffixes⟩ := h (by omega)
    ((place, .symbol .dot) :: (place', .name name) :: rest) rfl
  obtain ⟨fuel, rfl⟩ := Nat.exists_eq_add_one_of_ne_zero (show fuel ≠ 0 by omega)
  refine ⟨fuel, by omega, ?_⟩
  rw [List.append_assoc]
  exact hsuffixes.trans (suffixes_member hname hdepth)

theorem Reads.index {read' : Tokens} {place' : Nat} {position : Expr}
    (h : Reads n read (.suffixed e)) (hposition : Reads n read' (.expr position)) :
    Reads n (read ++ (place, .symbol .openBracket) :: (read' ++ [(place', .symbol .closeBracket)]))
      (.suffixed (.index e position)) := by
  intro hdepth rest _
  have hinner : (Expr.index e position).depth = 1 + max e.depth position.depth := rfl
  obtain ⟨fuel, hfuel, hsuffixes⟩ := h (by omega) ((place, .symbol .openBracket) ::
    (read' ++ (place', .symbol .closeBracket) :: rest)) rfl
  obtain ⟨fuel, rfl⟩ := Nat.exists_eq_add_one_of_ne_zero (show fuel ≠ 0 by omega)
  have hread := hposition (by omega) ((place', .symbol .closeBracket) :: rest)
    (ends_closing (by decide))
  refine ⟨fuel, by omega, ?_⟩
  rw [List.append_assoc, List.cons_append, List.append_assoc]
  exact hsuffixes.trans (suffixes_index hread hdepth)

/-! ## Lists -/

theorem Reads.list_of_items {es : List Expr} (hread : Phrase.Starts (.items es) (read.map Prod.snd))
    (h : Reads n read (.items es)) : Reads n read (.args es) := by
  intro hdepth close hclose place rest
  obtain ⟨item, items, behind, rfl, hitem, hitems⟩ := h hdepth close hclose place rest
  obtain ⟨place', t, read', rfl, ht⟩ := exists_read_of_starts hread rfl
  rw [list, if_neg (by simpa using startsWith_of_begins ht hclose), hitem]
  show (elements close (nested n) behind.length behind >>= _) = _
  rw [hitems behind.length (Nat.le_refl _)]
  rfl

theorem Reads.last (h : Reads n read (.expr e)) : Reads n read (.items [e]) := by
  intro hdepth close hclose place rest
  refine ⟨e, [], (place, .symbol close) :: rest, rfl,
    h (hdepth e List.mem_cons_self) _ (ends_closing hclose), fun fuel _ => ?_⟩
  rw [elements.eq_def, if_pos (startsWith_cons.2 rfl)]
  rfl

theorem length_le_of_nested (h : nested n tokens = .ok (e, rest)) :
    rest.length ≤ tokens.length := by
  obtain ⟨read, rfl, -⟩ := nested_sound n _ _ _ h
  rw [List.length_append]
  exact Nat.le_add_left _ _

theorem Reads.more {es : List Expr} {read' : Tokens} (h : Reads n read (.expr e))
    (hmore : Reads n read' (.items es)) :
    Reads n (read ++ (place, .symbol .comma) :: read') (.items (e :: es)) := by
  intro hdepth close hclose place' rest
  obtain ⟨hfirst, hothers⟩ := List.forall_mem_cons.1 hdepth
  obtain ⟨item, items, behind, rfl, hitem, hitems⟩ := hmore hothers close hclose place' rest
  refine ⟨e, item :: items, (place, .symbol .comma) :: (read' ++ (place', .symbol close) :: rest),
    rfl, ?_, fun fuel hfuel => ?_⟩
  · rw [List.append_assoc]
    exact h hfirst _ ends_comma
  · -- Each turn takes a comma at least, so the tokens never outnumber the turns that are left.
    have hshorter := length_le_of_nested hitem
    rw [List.length_cons] at hfuel
    obtain ⟨fuel, rfl⟩ := Nat.exists_eq_add_one_of_ne_zero (show fuel ≠ 0 by omega)
    have hcomma : ¬startsWith close ((place, .symbol .comma) ::
        (read' ++ (place', .symbol close) :: rest)) = true := by
      rw [startsWith_cons]
      rintro rfl
      exact absurd hclose (by decide)
    rw [elements, if_neg hcomma]
    show (nested n (read' ++ (place', .symbol close) :: rest) >>= _) = _
    rw [hitem]
    show (elements close (nested n) fuel behind >>= _) = _
    rw [hitems fuel (by omega)]
    rfl

/-! ## Primary expressions -/

theorem Reads.name {name : String} (h : word? name = none) :
    Reads n [(place, .name name)] (.primary (.name name)) := by
  intro _ rest hparen
  show primary (nested n) ((place, .name name) :: rest) = _
  rw [primary]
  simp only [h, hparen, Bool.and_false, Bool.false_eq_true, if_false]

theorem Reads.word {name : String} {l : Literal} (h : word? name = some l) :
    Reads n [(place, .name name)] (.primary (.literal l)) := by
  intro _ rest _
  show primary (nested n) ((place, .name name) :: rest) = _
  rw [primary]
  simp only [h]

theorem Reads.call {name : String} {es : List Expr} {place' place'' : Nat} (h : word? name = none)
    (hname : isSpecial name = false) (hargs : Reads n read (.args es)) :
    Reads n ((place, .name name) :: (place', .symbol .openParen) ::
      (read ++ [(place'', .symbol .closeParen)])) (.primary (.call name es)) := by
  intro hdepth rest _
  have hlist := hargs (depth_le_of_mem hdepth) .closeParen (by decide) place'' rest
  have hparen : ∀ behind : Tokens,
      startsWith .openParen ((place', .symbol .openParen) :: behind) = true := fun _ => rfl
  rw [List.cons_append, List.cons_append, List.append_assoc, primary]
  simp only [h, hname, hparen, Bool.not_false, Bool.and_self, if_true]
  show (list .closeParen (nested n) (read ++ (place'', .symbol .closeParen) :: rest) >>= _) = _
  rw [hlist]
  exact node_of_depth hdepth rest

theorem Reads.group {place' : Nat} (h : Reads n read (.args [e])) :
    Reads n ((place, .symbol .openParen) :: (read ++ [(place', .symbol .closeParen)]))
      (.primary e) := by
  intro hdepth rest _
  have hlist := h (by simpa using hdepth) .closeParen (by decide) place' rest
  rw [List.cons_append, List.append_assoc, primary]
  show (list .closeParen (nested n) (read ++ (place', .symbol .closeParen) :: rest) >>= _) = _
  rw [hlist]
  rfl

theorem Reads.tuple {place' : Nat} {e' : Expr} {es : List Expr}
    (h : Reads n read (.args (e :: e' :: es))) :
    Reads n ((place, .symbol .openParen) :: (read ++ [(place', .symbol .closeParen)]))
      (.primary (.list (e :: e' :: es))) := by
  intro hdepth rest _
  have hlist := h (depth_le_of_mem hdepth) .closeParen (by decide) place' rest
  rw [List.cons_append, List.append_assoc, primary]
  show (list .closeParen (nested n) (read ++ (place', .symbol .closeParen) :: rest) >>= _) = _
  rw [hlist]
  exact node_of_depth hdepth rest

theorem Reads.list {place' : Nat} {es : List Expr} (h : Reads n read (.args es)) :
    Reads n ((place, .symbol .openBracket) :: (read ++ [(place', .symbol .closeBracket)]))
      (.primary (.list es)) := by
  intro hdepth rest _
  have hlist := h (depth_le_of_mem hdepth) .closeBracket (by decide) place' rest
  rw [List.cons_append, List.append_assoc, primary]
  show (Parser.list .closeBracket (nested n) (read ++ (place', .symbol .closeBracket) :: rest)
    >>= _) = _
  rw [hlist]
  exact node_of_depth hdepth rest

theorem Reads.none : Reads n [] (.args []) := by
  intro _ close _ place rest
  rw [List.nil_append, Parser.list, if_pos (startsWith_cons.2 rfl)]
  rfl

/-! ## Main statement -/

theorem exists_eq_cons {t : Token} {ts : List Token} (h : read.map Prod.snd = t :: ts) :
    ∃ place read', read = (place, t) :: read' ∧ read'.map Prod.snd = ts := by
  obtain ⟨⟨place, _⟩, read', rfl, rfl, hrest⟩ := List.map_eq_cons_iff.1 h
  exact ⟨place, read', rfl, hrest⟩

theorem exists_eq_singleton {t : Token} (h : read.map Prod.snd = [t]) :
    ∃ place, read = [(place, t)] := by
  obtain ⟨place, read', rfl, hnil⟩ := exists_eq_cons h
  exact ⟨place, by rw [List.map_eq_nil_iff.1 hnil]⟩

/-- Between two symbols. -/
theorem exists_eq_enclosed {t t' : Token} {ts : List Token}
    (h : read.map Prod.snd = t :: (ts ++ [t'])) : ∃ place read' place',
      read = (place, t) :: (read' ++ [(place', t')]) ∧ read'.map Prod.snd = ts := by
  obtain ⟨place, behind, rfl, hbehind⟩ := exists_eq_cons h
  obtain ⟨read', last, rfl, hread', hlast⟩ := List.map_eq_append_iff.1 hbehind
  obtain ⟨place', rfl⟩ := exists_eq_singleton hlast
  exact ⟨place, read', place', rfl, hread'⟩

/-- One case for each rule of the grammar. -/
theorem reads_of_derives {φ : Phrase} {ts : List Token} (h : Derives n φ ts) :
    ∀ read, read.map Prod.snd = ts → Reads n read φ := by
  induction h with
  | @expr n e ts h ih =>
    intro read hread hdepth rest hends
    exact (ih read hread).levelsFrom List.suffix_rfl hdepth hends
  | tightest h ih => exact ih
  | tighter h ih => exact fun read hread => (ih read hread).tighter
  | binary hop _ _ ihleft ihright =>
    intro read hread
    obtain ⟨left, behind, rfl, hleft, hbehind⟩ := List.map_eq_append_iff.1 hread
    obtain ⟨place, right, rfl, hright⟩ := exists_eq_cons hbehind
    exact .binary hop (ihleft left hleft) (ihright right hright)
  | unary op h ih =>
    intro read hread
    obtain ⟨place, read', rfl, hread'⟩ := exists_eq_cons hread
    exact (ih read' hread').unary
  | unsigned h ih =>
    intro read hread
    exact .unsigned (hread ▸ h.starts.resolve_right nofun) (ih read hread)
  | bare h ih => exact fun read hread => (ih read hread).bare
  | member h hname ih =>
    intro read hread
    obtain ⟨front, behind, rfl, hfront, hbehind⟩ := List.map_eq_append_iff.1 hread
    obtain ⟨place, last, rfl, hlast⟩ := exists_eq_cons hbehind
    obtain ⟨place', rfl⟩ := exists_eq_singleton hlast
    exact .member hname (ih front hfront)
  | index h hposition ih ihposition =>
    intro read hread
    obtain ⟨front, behind, rfl, hfront, hbehind⟩ := List.map_eq_append_iff.1 hread
    obtain ⟨place, inner, place', rfl, hinner⟩ := exists_eq_enclosed hbehind
    exact .index (ih front hfront) (ihposition inner hinner)
  | number | string =>
    intro read hread _ rest _
    obtain ⟨place, rfl⟩ := exists_eq_singleton hread
    rfl
  | word h =>
    intro read hread
    obtain ⟨place, rfl⟩ := exists_eq_singleton hread
    exact .word h
  | name h =>
    intro read hread
    obtain ⟨place, rfl⟩ := exists_eq_singleton hread
    exact .name h
  | call h hname _ ih =>
    intro read hread
    obtain ⟨place, behind, rfl, hbehind⟩ := exists_eq_cons hread
    obtain ⟨place', inner, place'', rfl, hinner⟩ := exists_eq_enclosed hbehind
    exact .call h hname (ih inner hinner)
  | group h ih =>
    intro read hread
    obtain ⟨place, inner, place', rfl, hinner⟩ := exists_eq_enclosed hread
    exact .group (.list_of_items (hinner ▸ h.starts.resolve_right nofun) (ih inner hinner))
  | tuple h ih =>
    intro read hread
    obtain ⟨place, inner, place', rfl, hinner⟩ := exists_eq_enclosed hread
    exact .tuple (.list_of_items (hinner ▸ h.starts.resolve_right nofun) (ih inner hinner))
  | list h ih =>
    intro read hread
    obtain ⟨place, inner, place', rfl, hinner⟩ := exists_eq_enclosed hread
    exact .list (ih inner hinner)
  | none =>
    intro read hread
    obtain rfl := List.map_eq_nil_iff.1 hread
    exact .none
  | some h ih =>
    intro read hread
    exact .list_of_items (hread ▸ h.starts.resolve_right nofun) (ih read hread)
  | last h ih => exact fun read hread => (ih read hread).last
  | more h _ ih ihmore =>
    intro read hread
    obtain ⟨front, behind, rfl, hfront, hbehind⟩ := List.map_eq_append_iff.1 hread
    obtain ⟨place, others, rfl, hothers⟩ := exists_eq_cons hbehind
    exact .more (ih front hfront) (ihmore others hothers)

end BoundView.Expr.Parser

namespace BoundView.Expr

open BoundView.Expr.Parser (maxDepth)

variable {tokens : Tokens} {e : Expr}

/-- A tree of a sequence of tokens: the grammar derives the sequence with it, with no more than 64
levels of nested expressions and signed operands, and it is no higher than 64. -/
def IsTree (tokens : Tokens) (e : Expr) : Prop :=
  Derives maxDepth (.expr e) (tokens.map Prod.snd) ∧ e.depth ≤ maxDepth

theorem isTree_of_ofTokens (h : ofTokens tokens = .ok e) : IsTree tokens e := by
  obtain ⟨⟨e', rest⟩, hexpr, hrest⟩ := Outcome.bind_eq_ok.1 h
  cases rest with
  | nil =>
    obtain rfl := Except.ok.inj hrest
    obtain ⟨read, hread, htree⟩ := Parser.nested_sound maxDepth _ _ _ hexpr
    rw [hread, List.append_nil]
    exact htree
  | cons token rest => exact nomatch hrest

theorem ofTokens_of_isTree (h : IsTree tokens e) : ofTokens tokens = .ok e := by
  have hread := Parser.reads_of_derives h.1 tokens rfl h.2 [] (Parser.ends_nil _)
  rw [List.append_nil] at hread
  exact Outcome.bind_eq_ok.2 ⟨(e, []), hread, rfl⟩

/-- A sequence of tokens is parsed to a tree just if the grammar derives it with that tree, within
the limits.  So it has one tree at most, and none is too high, however long a chain of operators or
suffixes may be. -/
theorem ofTokens_eq_ok_iff (tokens : Tokens) :
    (∀ e, ofTokens tokens = .ok e ↔ IsTree tokens e)
    ∧ (∀ e e', IsTree tokens e → IsTree tokens e' → e = e')
    ∧ ∀ e, ofTokens tokens = .ok e → e.depth ≤ 64 := by
  refine ⟨fun e => ⟨isTree_of_ofTokens, ofTokens_of_isTree⟩, fun e e' h h' => ?_, fun e h => ?_⟩
  · exact Except.ok.inj ((ofTokens_of_isTree h).symm.trans (ofTokens_of_isTree h'))
  · exact (isTree_of_ofTokens h).2

/-! ## Signs and operators -/

/-- The tokens of `-a.b - c * d - e`. -/
def differences : Tokens :=
  [(0, .symbol .minus), (1, .name "a"), (2, .symbol .dot), (3, .name "b"), (5, .symbol .minus),
    (7, .name "c"), (9, .symbol .star), (11, .name "d"), (13, .symbol .minus), (15, .name "e")]

/-- The sign applies to the member, the product comes first, and the differences lean left. -/
def differencesTree : Expr :=
  .binary .sub
    (.binary .sub (.unary .neg (.member (.name "a") "b"))
      (.binary .mul (.name "c") (.name "d")))
    (.name "e")

theorem isTree_differences :
    ofTokens differences = .ok differencesTree ∧ IsTree differences differencesTree
      ∧ (∀ e, IsTree differences e → e = differencesTree) ∧ differencesTree.depth ≤ 64 := by
  have hparse : ofTokens differences = .ok differencesTree := by rfl
  obtain ⟨hiff, hunique, hdepth⟩ := ofTokens_eq_ok_iff differences
  have htree := (hiff differencesTree).1 hparse
  exact ⟨hparse, htree, fun e he => hunique e _ he htree, hdepth _ hparse⟩

end BoundView.Expr
