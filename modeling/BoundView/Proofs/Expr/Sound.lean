import BoundView.Proofs.Expr.Grammar
import BoundView.Proofs.Outcome

/-!
# What the parser reads is derived

Each function of the parser takes some tokens off the front and says what they are.  Main statement:
whatever it says, the grammar derives just these tokens with that tree, and the tree is not too
deep.
-/

namespace BoundView.Expr.Parser

open Outcome (bind_eq_ok)

/-! ## The levels of an expression -/

/-- Read an expression with `n` levels of nesting left, one of which it takes itself. -/
def nested : Nat → Step Expr
  | 0 => fail .tooDeep
  | n + 1 => levels (operand n)

/-- Read operands and operators of these levels. -/
def levelsFrom (next : Step Expr) : List (List BinaryOp) → Step Expr
  | [] => next
  | ops :: rest => level ops (levelsFrom next rest)

theorem nested_succ (n : Nat) : nested (n + 1) = levelsFrom (operand n) operators :=
  rfl

/-- Read the operand behind a sign, which takes a level, too. -/
def signed : Nat → Step Expr
  | 0 => fail .tooDeep
  | n + 1 => operand n

theorem operand_of_sign {n : Nat} {tokens rest : Tokens} {op : UnaryOp}
    (h : sign? tokens = some (op, rest)) :
    operand n tokens = signed n rest >>= fun inner => node (.unary op inner.1) inner.2 := by
  unfold operand
  rw [h]
  cases n <;> rfl

theorem operand_of_no_sign {n : Nat} {tokens : Tokens} (h : sign? tokens = none) :
    operand n tokens = primary (nested n) tokens >>= fun target =>
      suffixes (nested n) maxDepth target.1 target.2 := by
  unfold operand
  rw [h]
  cases n <;> rfl

/-! ## Single tokens -/

variable {α : Type} {tokens rest : Tokens} {ops : List BinaryOp} {op : BinaryOp} {e e' : Expr}
  {s : Symbol} {n : Nat}

/-- A leaf is not too deep. -/
theorem one_le_maxDepth : 1 ≤ maxDepth := by
  decide

theorem node_eq_ok :
    node e tokens = .ok (e', rest) ↔ e' = e ∧ rest = tokens ∧ e.depth ≤ maxDepth := by
  unfold node
  by_cases hdepth : maxDepth < e.depth
  · rw [if_pos hdepth]
    exact iff_of_false nofun fun h => absurd h.2.2 (Nat.not_le_of_lt hdepth)
  · rw [if_neg hdepth]
    constructor
    · intro h
      obtain ⟨rfl, rfl⟩ := Prod.mk.inj (Except.ok.inj h)
      exact ⟨rfl, rfl, Nat.le_of_not_lt hdepth⟩
    · rintro ⟨rfl, rfl, -⟩
      rfl

theorem startsWith_eq_true :
    startsWith s tokens = true ↔ ∃ place rest, tokens = (place, .symbol s) :: rest := by
  unfold startsWith
  split
  · rename_i place t rest
    simp only [beq_iff_eq, List.cons.injEq, Prod.mk.injEq, Token.symbol.injEq]
    exact ⟨fun h => ⟨place, rest, ⟨rfl, h.symm⟩, rfl⟩, fun ⟨_, _, ⟨_, h⟩, _⟩ => h.symm⟩
  · rename_i hne
    refine iff_of_false Bool.false_ne_true ?_
    rintro ⟨place, rest, rfl⟩
    exact hne place s rest rfl

theorem expect_eq_ok {u : Unit} :
    expect s tokens = .ok (u, rest) ↔ ∃ place, tokens = (place, .symbol s) :: rest := by
  unfold expect
  by_cases h : startsWith s tokens = true
  · obtain ⟨place, rest', rfl⟩ := startsWith_eq_true.1 h
    rw [if_pos h]
    constructor
    · intro heq
      obtain ⟨-, rfl⟩ := Prod.mk.inj (Except.ok.inj heq)
      exact ⟨place, rfl⟩
    · rintro ⟨_, heq⟩
      rw [(List.cons.inj heq).2]
      rfl
  · rw [if_neg h]
    refine iff_of_false nofun ?_
    rintro ⟨place, rfl⟩
    exact h (startsWith_eq_true.2 ⟨place, rest, rfl⟩)

theorem operator?_eq_some (h : operator? ops tokens = some (op, rest)) :
    op ∈ ops ∧ ∃ place, tokens = (place, .symbol op.symbol) :: rest := by
  unfold operator? at h
  split at h
  · rename_i place s rest'
    obtain ⟨op', hfind, heq⟩ := Option.map_eq_some_iff.1 h
    obtain ⟨rfl, rfl⟩ := Prod.mk.inj heq
    have hsymbol := List.find?_some hfind
    exact ⟨List.mem_of_find?_eq_some hfind, place, by rw [beq_iff_eq.1 hsymbol]⟩
  · exact nomatch h

theorem sign?_eq_some {op : UnaryOp} (h : sign? tokens = some (op, rest)) :
    ∃ place, tokens = (place, .symbol op.symbol) :: rest := by
  unfold sign? at h
  split at h
  · obtain ⟨rfl, rfl⟩ := Prod.mk.inj (Option.some.inj h)
    exact ⟨_, rfl⟩
  · obtain ⟨rfl, rfl⟩ := Prod.mk.inj (Option.some.inj h)
    exact ⟨_, rfl⟩
  · exact nomatch h

/-! ## Steps that tell what they read -/

/-- Whether what a step takes off the front always is what it gives back. -/
def Sound (p : Step α) (D : α → List Token → Prop) : Prop :=
  ∀ tokens a rest, p tokens = .ok (a, rest) →
    ∃ read, tokens = read ++ rest ∧ D a (read.map Prod.snd)

/-- A tree of a phrase, not too deep. -/
def Fits (n : Nat) (phrase : Expr → Phrase) (e : Expr) (ts : List Token) : Prop :=
  Derives n (phrase e) ts ∧ e.depth ≤ maxDepth

theorem Sound.imp {p : Step α} {D D' : α → List Token → Prop} (h : Sound p D)
    (himp : ∀ a ts, D a ts → D' a ts) : Sound p D' := by
  intro tokens a rest hp
  obtain ⟨read, rfl, hD⟩ := h tokens a rest hp
  exact ⟨read, rfl, himp a _ hD⟩

theorem sound_fail {D : α → List Token → Prop} (objection : Objection) :
    Sound (fail objection) D :=
  fun _ _ _ h => nomatch h

/-! ## Binary operators -/

section

variable {levels : List (List BinaryOp)} {next : Step Expr}

/-- Each turn puts one more operator behind what has been read. -/
theorem chain_sound (hnext : Sound next (Fits n (.level levels))) {fuel : Nat} {left : Expr}
    {ts : List Token} (hleft : Fits n (.level (ops :: levels)) left ts)
    (h : chain ops next fuel left tokens = .ok (e, rest)) :
    ∃ read, tokens = read ++ rest
      ∧ Fits n (.level (ops :: levels)) e (ts ++ read.map Prod.snd) := by
  induction fuel generalizing left ts tokens with
  | zero =>
    rw [chain.eq_def] at h
    obtain ⟨rfl, rfl⟩ := Prod.mk.inj (Except.ok.inj h)
    exact ⟨[], rfl, by simpa using hleft⟩
  | succ fuel ih =>
    rw [chain.eq_def] at h
    split at h
    · rename_i fuel' op behind heq hop
      obtain rfl := Nat.succ.inj heq
      obtain ⟨⟨right, after⟩, hright, hbuilt⟩ := bind_eq_ok.1 h
      obtain ⟨⟨left', after'⟩, hnode, hchain⟩ := bind_eq_ok.1 hbuilt
      obtain ⟨rfl, rfl, hdepth⟩ := node_eq_ok.1 hnode
      obtain ⟨hmem, place, rfl⟩ := operator?_eq_some hop
      obtain ⟨us, rfl, hderives, -⟩ := hnext _ _ _ hright
      obtain ⟨vs, rfl, hfits⟩ := ih ⟨.binary hmem hleft.1 hderives, hdepth⟩ hchain
      refine ⟨(place, .symbol op.symbol) :: us ++ vs, by simp, ?_⟩
      simpa using hfits
    · obtain ⟨rfl, rfl⟩ := Prod.mk.inj (Except.ok.inj h)
      exact ⟨[], rfl, by simpa using hleft⟩

theorem level_sound (hnext : Sound next (Fits n (.level levels))) :
    Sound (level ops next) (Fits n (.level (ops :: levels))) := by
  intro tokens e rest h
  obtain ⟨⟨left, behind⟩, hleft, hchain⟩ := bind_eq_ok.1 h
  obtain ⟨ts, rfl, hderives, hdepth⟩ := hnext _ _ _ hleft
  obtain ⟨us, rfl, hfits⟩ := chain_sound hnext ⟨.tighter hderives, hdepth⟩ hchain
  exact ⟨ts ++ us, by simp, by simpa using hfits⟩

theorem levelsFrom_sound (hnext : Sound next (Fits n .operand)) (levels : List (List BinaryOp)) :
    Sound (levelsFrom next levels) (Fits n (.level levels)) := by
  induction levels with
  | nil => exact hnext.imp fun e ts h => ⟨.tightest h.1, h.2⟩
  | cons ops levels ih => exact level_sound ih

end

/-! ## Lists -/

section

variable {expr : Step Expr} {close : Symbol}

/-- What follows the first element of a list: nothing or further elements, and the end of it. -/
def Continues (n : Nat) (close : Symbol) (es : List Expr) (ts : List Token) : Prop :=
  (∀ e ∈ es, e.depth ≤ maxDepth)
    ∧ (es = [] ∧ ts = [.symbol close]
      ∨ ∃ us, Derives n (.items es) us ∧ ts = .symbol .comma :: (us ++ [.symbol close]))

/-- The elements of a list, and the end of it. -/
def Closes (n : Nat) (close : Symbol) (es : List Expr) (ts : List Token) : Prop :=
  (∀ e ∈ es, e.depth ≤ maxDepth)
    ∧ ∃ us, Derives n (.args es) us ∧ ts = us ++ [.symbol close]

theorem items_of_continues {es : List Expr} {ts us : List Token} (he : Fits n .expr e ts)
    (hes : Continues n close es us) : ∃ vs, Derives n (.items (e :: es)) vs
      ∧ ts ++ us = vs ++ [.symbol close] ∧ ∀ e' ∈ e :: es, e'.depth ≤ maxDepth := by
  obtain ⟨hdepth, hes⟩ := hes
  have hall : ∀ e' ∈ e :: es, e'.depth ≤ maxDepth := List.forall_mem_cons.2 ⟨he.2, hdepth⟩
  rcases hes with ⟨rfl, rfl⟩ | ⟨vs, hitems, rfl⟩
  · exact ⟨ts, .last he.1, rfl, hall⟩
  · exact ⟨ts ++ .symbol .comma :: vs, .more he.1 hitems, by simp, hall⟩

theorem elements_sound (hexpr : Sound expr (Fits n .expr)) (fuel : Nat) :
    Sound (elements close expr fuel) (Continues n close) := by
  induction fuel with
  | zero =>
    intro tokens es rest h
    rw [elements] at h
    split at h
    · rename_i hclose
      obtain ⟨place, behind, rfl⟩ := startsWith_eq_true.1 hclose
      obtain ⟨rfl, rfl⟩ := Prod.mk.inj (Except.ok.inj h)
      exact ⟨[(place, .symbol close)], rfl, nofun, .inl ⟨rfl, rfl⟩⟩
    · exact nomatch h
  | succ fuel ih =>
    intro tokens es rest h
    rw [elements] at h
    split at h
    · rename_i hclose
      obtain ⟨place, behind, rfl⟩ := startsWith_eq_true.1 hclose
      obtain ⟨rfl, rfl⟩ := Prod.mk.inj (Except.ok.inj h)
      exact ⟨[(place, .symbol close)], rfl, nofun, .inl ⟨rfl, rfl⟩⟩
    · obtain ⟨⟨_, behind⟩, hcomma, h⟩ := bind_eq_ok.1 h
      obtain ⟨⟨item, behind'⟩, hitem, h⟩ := bind_eq_ok.1 h
      obtain ⟨⟨items, behind''⟩, hitems, h⟩ := bind_eq_ok.1 h
      obtain ⟨rfl, rfl⟩ := Prod.mk.inj (Except.ok.inj h)
      obtain ⟨place, rfl⟩ := expect_eq_ok.1 hcomma
      obtain ⟨ts, rfl, hfits⟩ := hexpr _ _ _ hitem
      obtain ⟨us, rfl, hcontinues⟩ := ih _ _ _ hitems
      obtain ⟨vs, hvs, heq, hall⟩ := items_of_continues hfits hcontinues
      refine ⟨(place, .symbol .comma) :: (ts ++ us), by simp, hall, .inr ⟨vs, hvs, ?_⟩⟩
      rw [← heq]
      simp

theorem list_sound (hexpr : Sound expr (Fits n .expr)) :
    Sound (list close expr) (Closes n close) := by
  intro tokens es rest h
  rw [list] at h
  split at h
  · rename_i hclose
    obtain ⟨place, behind, rfl⟩ := startsWith_eq_true.1 hclose
    obtain ⟨rfl, rfl⟩ := Prod.mk.inj (Except.ok.inj h)
    exact ⟨[(place, .symbol close)], rfl, nofun, [], .none, rfl⟩
  · obtain ⟨⟨item, behind⟩, hitem, h⟩ := bind_eq_ok.1 h
    obtain ⟨⟨items, behind'⟩, hitems, h⟩ := bind_eq_ok.1 h
    obtain ⟨rfl, rfl⟩ := Prod.mk.inj (Except.ok.inj h)
    obtain ⟨ts, rfl, hfits⟩ := hexpr _ _ _ hitem
    obtain ⟨us, rfl, hcontinues⟩ := elements_sound hexpr _ _ _ _ hitems
    obtain ⟨vs, hvs, heq, hall⟩ := items_of_continues hfits hcontinues
    refine ⟨ts ++ us, by simp, hall, vs, .some hvs, ?_⟩
    rw [← heq]
    simp

/-! ## Operands -/

/-- What stands in parentheses, by the number of the expressions there. -/
theorem parenthesised_sound {items : List Expr} {closing : Tokens} {us : List Token}
    (hitems : Derives n (.args items) us) (hall : ∀ e ∈ items, e.depth ≤ maxDepth)
    (h : parenthesised items closing tokens = .ok (e, rest)) : rest = tokens
      ∧ Fits n .primary e (.symbol .openParen :: (us ++ [.symbol .closeParen])) := by
  unfold parenthesised at h
  split at h
  · exact nomatch h
  · rename_i item
    obtain ⟨rfl, rfl⟩ := Prod.mk.inj (Except.ok.inj h)
    cases hitems with
    | some hitems => exact ⟨rfl, .group hitems, hall _ List.mem_cons_self⟩
  · rename_i hnil hone
    obtain ⟨rfl, rfl, hdepth⟩ := node_eq_ok.1 h
    cases hitems with
    | none => exact absurd rfl hnil
    | some hitems =>
      match items, hitems with
      | [item], _ => exact absurd rfl (hone item)
      | _ :: _ :: _, hitems => exact ⟨rfl, .tuple hitems, hdepth⟩

theorem primary_sound (hexpr : Sound expr (Fits n .expr)) :
    Sound (primary expr) (Fits n .primary) := by
  intro tokens e rest h
  unfold primary at h
  split at h
  · rename_i place x behind
    obtain ⟨rfl, rfl⟩ := Prod.mk.inj (Except.ok.inj h)
    exact ⟨[(place, .number x)], rfl, .number x, one_le_maxDepth⟩
  · rename_i place s behind
    obtain ⟨rfl, rfl⟩ := Prod.mk.inj (Except.ok.inj h)
    exact ⟨[(place, .string s)], rfl, .string s, one_le_maxDepth⟩
  · rename_i place name behind
    split at h
    · rename_i l hword
      obtain ⟨rfl, rfl⟩ := Prod.mk.inj (Except.ok.inj h)
      exact ⟨[(place, .name name)], rfl, .word hword, one_le_maxDepth⟩
    · rename_i hword
      split at h
      · rename_i hcall
        obtain ⟨hname, hparen⟩ := Bool.and_eq_true_iff.1 hcall
        obtain ⟨place', behind', rfl⟩ := startsWith_eq_true.1 hparen
        obtain ⟨⟨args, after⟩, hargs, h⟩ := bind_eq_ok.1 h
        obtain ⟨rfl, rfl, hdepth⟩ := node_eq_ok.1 h
        obtain ⟨read, hread, -, us, hderives, hus⟩ := list_sound hexpr _ _ _ hargs
        obtain rfl : behind' = read ++ rest := hread
        refine ⟨(place, .name name) :: (place', .symbol .openParen) :: read, rfl, ?_, hdepth⟩
        rw [List.map_cons, List.map_cons, hus]
        exact .call hword (by simpa using hname) hderives
      · obtain ⟨rfl, rfl⟩ := Prod.mk.inj (Except.ok.inj h)
        exact ⟨[(place, .name name)], rfl, .name hword, one_le_maxDepth⟩
  · rename_i place behind
    obtain ⟨⟨items, after⟩, hitems, h⟩ := bind_eq_ok.1 h
    obtain ⟨read, rfl, hall, us, hderives, hus⟩ := list_sound hexpr _ _ _ hitems
    obtain ⟨rfl, hfits⟩ := parenthesised_sound hderives hall h
    refine ⟨(place, .symbol .openParen) :: read, rfl, ?_⟩
    rwa [List.map_cons, hus]
  · rename_i place behind
    obtain ⟨⟨items, after⟩, hitems, h⟩ := bind_eq_ok.1 h
    obtain ⟨rfl, rfl, hdepth⟩ := node_eq_ok.1 h
    obtain ⟨read, rfl, -, us, hderives, hus⟩ := list_sound hexpr _ _ _ hitems
    refine ⟨(place, .symbol .openBracket) :: read, rfl, ?_, hdepth⟩
    rw [List.map_cons, hus]
    exact .list hderives
  · exact nomatch h

/-- Each turn puts one more suffix behind what has been read. -/
theorem suffixes_sound (hexpr : Sound expr (Fits n .expr)) {fuel : Nat} {target : Expr}
    {ts : List Token} (htarget : Fits n .suffixed target ts)
    (h : suffixes expr fuel target tokens = .ok (e, rest)) :
    ∃ read, tokens = read ++ rest ∧ Fits n .suffixed e (ts ++ read.map Prod.snd) := by
  induction fuel generalizing target ts tokens with
  | zero =>
    rw [suffixes] at h
    · obtain ⟨rfl, rfl⟩ := Prod.mk.inj (Except.ok.inj h)
      exact ⟨[], rfl, by simpa using htarget⟩
    all_goals nofun
  | succ fuel ih =>
    rw [suffixes.eq_def] at h
    split at h
    · rename_i fuel' place behind heq
      obtain rfl := Nat.succ.inj heq
      split at h
      · rename_i place' name after
        split at h
        · exact nomatch h
        · rename_i hname
          obtain ⟨⟨target', after'⟩, hnode, hsuffixes⟩ := bind_eq_ok.1 h
          obtain ⟨rfl, rfl, hdepth⟩ := node_eq_ok.1 hnode
          have hmember := Derives.member htarget.1 (Bool.eq_false_iff.2 hname)
          obtain ⟨us, rfl, hfits⟩ := ih ⟨hmember, hdepth⟩ hsuffixes
          exact ⟨(place, .symbol .dot) :: (place', .name name) :: us, rfl, by simpa using hfits⟩
      · exact nomatch h
    · rename_i fuel' place behind heq
      obtain rfl := Nat.succ.inj heq
      obtain ⟨⟨position, after⟩, hposition, hclosed⟩ := bind_eq_ok.1 h
      obtain ⟨⟨_, after'⟩, hclose, hbuilt⟩ := bind_eq_ok.1 hclosed
      obtain ⟨⟨target', after''⟩, hnode, hsuffixes⟩ := bind_eq_ok.1 hbuilt
      obtain ⟨rfl, rfl, hdepth⟩ := node_eq_ok.1 hnode
      obtain ⟨place', rfl⟩ := expect_eq_ok.1 hclose
      obtain ⟨us, rfl, hderives, -⟩ := hexpr _ _ _ hposition
      obtain ⟨vs, rfl, hfits⟩ := ih ⟨.index htarget.1 hderives, hdepth⟩ hsuffixes
      refine ⟨(place, .symbol .openBracket) :: (us ++ (place', .symbol .closeBracket) :: vs),
        by simp, ?_⟩
      simpa using hfits
    · obtain ⟨rfl, rfl⟩ := Prod.mk.inj (Except.ok.inj h)
      exact ⟨[], rfl, by simpa using htarget⟩

end

theorem operand_sound_of (hnested : Sound (nested n) (Fits n .expr))
    (hsigned : ∀ m, n = m + 1 → Sound (operand m) (Fits m .operand)) :
    Sound (operand n) (Fits n .operand) := by
  intro tokens e rest h
  cases hsign : sign? tokens with
  | some signed =>
    obtain ⟨op, behind⟩ := signed
    rw [operand_of_sign hsign] at h
    obtain ⟨⟨inner, after⟩, hoperand, hnode⟩ := bind_eq_ok.1 h
    obtain ⟨rfl, rfl, hdepth⟩ := node_eq_ok.1 hnode
    obtain ⟨place, rfl⟩ := sign?_eq_some hsign
    cases n with
    | zero => exact nomatch hoperand
    | succ m =>
      obtain ⟨us, rfl, hderives, -⟩ := hsigned m rfl _ _ _ hoperand
      exact ⟨(place, .symbol op.symbol) :: us, rfl, .unary op hderives, hdepth⟩
  | none =>
    rw [operand_of_no_sign hsign] at h
    obtain ⟨⟨target, behind⟩, hprimary, hsuffixes⟩ := bind_eq_ok.1 h
    obtain ⟨ts, rfl, hderives, hdepth⟩ := primary_sound hnested _ _ _ hprimary
    obtain ⟨us, rfl, hfits⟩ := suffixes_sound hnested ⟨.bare hderives, hdepth⟩ hsuffixes
    refine ⟨ts ++ us, by simp, ?_⟩
    rw [List.map_append]
    exact ⟨.unsigned hfits.1, hfits.2⟩

theorem nested_sound_of (h : Sound (operand n) (Fits n .operand)) :
    Sound (nested (n + 1)) (Fits (n + 1) .expr) := by
  rw [nested_succ]
  exact (levelsFrom_sound h operators).imp fun e ts h => ⟨.expr h.1, h.2⟩

theorem operand_sound (n : Nat) : Sound (operand n) (Fits n .operand) := by
  induction n with
  | zero => exact operand_sound_of (sound_fail .tooDeep) nofun
  | succ n ih => exact operand_sound_of (nested_sound_of ih) fun m h => Nat.succ.inj h ▸ ih

/-- What is read as an expression is derived as one, with at most so many levels nested. -/
theorem nested_sound (n : Nat) : Sound (nested n) (Fits n .expr) := by
  cases n with
  | zero => exact sound_fail .tooDeep
  | succ n => exact nested_sound_of (operand_sound n)

end BoundView.Expr.Parser
