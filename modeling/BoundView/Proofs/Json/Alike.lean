import BoundView.Proofs.Schema.Conforming
import BoundView.Proofs.Value.Rational

/-!
# Documents that say the same

Two documents are alike if the same is found along every path: the order of members does not count,
and a number may be written in another way.
-/

namespace BoundView.Json

variable {j k l : Json} {xs ys : List Json} {ms ns : Members Json}

/-- What is found at the top of a document; a number counts as what it stands for. -/
inductive Head where
  | null
  | bool (b : Bool)
  | number (r : ℚ)
  | string (s : String)
  | array
  | object

def head : Json → Head
  | .null => .null
  | .bool b => .bool b
  | .number n => .number n.toRat
  | .string s => .string s
  | .array _ => .array
  | .object _ => .object

/-- The same document but for the order of members and the way numbers are written. -/
def Alike (j k : Json) : Prop :=
  ∀ path, (j.get? path).map head = (k.get? path).map head

theorem Alike.refl (j : Json) : j.Alike j :=
  fun _ => rfl

theorem Alike.symm (h : j.Alike k) : k.Alike j :=
  fun path => (h path).symm

theorem Alike.trans (h : j.Alike k) (h' : k.Alike l) : j.Alike l :=
  fun path => (h path).trans (h' path)

/-! ## One step down -/

/-- Documents with the same top are alike if what is found one step down is. -/
theorem Alike.of_step? (hhead : j.head = k.head)
    (hstep : ∀ seg, Option.Rel Alike (j.step? seg) (k.step? seg)) : j.Alike k := by
  intro path
  cases path with
  | nil => exact congrArg some hhead
  | cons seg path =>
    have hseg := hstep seg
    rw [get?, get?]
    generalize j.step? seg = child?, k.step? seg = child'? at hseg
    cases hseg with
    | none => rfl
    | some h => exact h path

theorem alike_number {m n : Number} (h : m.toRat = n.toRat) :
    (Json.number m).Alike (.number n) := by
  refine .of_step? (congrArg Head.number h) fun seg => ?_
  cases seg <;> exact .none

theorem alike_array (hlength : xs.length = ys.length)
    (hitems : ∀ (i : Nat) x y, xs[i]? = some x → ys[i]? = some y → x.Alike y) :
    (Json.array xs).Alike (.array ys) := by
  refine .of_step? rfl fun seg => ?_
  cases seg with
  | field name => exact .none
  | index i =>
    show Option.Rel Alike xs[i]? ys[i]?
    by_cases hi : i < xs.length
    · have hx := List.getElem?_eq_getElem hi
      have hy := List.getElem?_eq_getElem (hlength ▸ hi)
      rw [hx, hy]
      exact .some (hitems i _ _ hx hy)
    · rw [List.getElem?_eq_none (Nat.le_of_not_lt hi),
        List.getElem?_eq_none (hlength ▸ Nat.le_of_not_lt hi)]
      exact .none

theorem alike_object (hnames : ∀ name, name ∈ ms.map Prod.fst ↔ name ∈ ns.map Prod.fst)
    (hmembers : ∀ name v w, Members.find? name ms = some v → Members.find? name ns = some w →
      v.Alike w) : (Json.object ms).Alike (.object ns) := by
  refine .of_step? rfl fun seg => ?_
  cases seg with
  | index i => exact .none
  | field name =>
    show Option.Rel Alike (Members.find? name ms) (Members.find? name ns)
    by_cases hname : name ∈ ms.map Prod.fst
    · obtain ⟨v, hv⟩ := Members.exists_of_mem_names hname
      obtain ⟨w, hw⟩ := Members.exists_of_mem_names ((hnames name).1 hname)
      rw [hv, hw]
      exact .some (hmembers name v w hv hw)
    · rw [Members.find?_eq_none_iff.2 hname, Members.find?_eq_none_iff.2 (mt (hnames name).2 hname)]
      exact .none

theorem Reordered.alike (h : j.Reordered k) : j.Alike k := by
  induction h with
  | refl j => exact .refl j
  | array hlength _ ih => exact alike_array hlength ih
  | object _ hnames _ ih => exact alike_object (fun _ => hnames.mem_iff) ih

end BoundView.Json
