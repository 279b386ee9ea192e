import Mathlib.Tactic

/-! # Vectors of spans

A span is a piece of memory, and a vector of spans is transferred as if it were one piece: its cells
are those of its spans, one span after the other. `advance` is what remains of a vector when some of
its cells have been transferred; spans without cells may stand anywhere in it. -/

namespace Libkinetic.Base.Scatter

structure Span where
  base : ℕ
  len : ℕ
deriving DecidableEq

/-- The addresses of a span. -/
def Span.cells (v : Span) : List ℕ := List.range' v.base v.len

/-- The span without its first `n` cells. -/
def Span.drop (v : Span) (n : ℕ) : Span := ⟨v.base + n, v.len - n⟩

/-- The addresses of a vector, in the order of the transfer. -/
def cells (l : List Span) : List ℕ := l.flatMap Span.cells

def size (l : List Span) : ℕ := (l.map Span.len).sum

/-- What remains when `n` cells have been transferred. -/
def advance : List Span → ℕ → List Span
  | [], _ => []
  | v :: l, n => if v.len ≤ n then advance l (n - v.len) else v.drop n :: l

section Vectors
variable {v : Span} {l : List Span} {n : ℕ}

@[simp] theorem Span.length_cells (v : Span) : v.cells.length = v.len := List.length_range'

theorem Span.cells_drop (v : Span) (n : ℕ) : (v.drop n).cells = v.cells.drop n := by
  unfold Span.cells Span.drop
  dsimp only
  rw [List.drop_range']
  simp

@[simp] theorem cells_nil : cells [] = [] := rfl

@[simp] theorem cells_cons (v : Span) (l : List Span) : cells (v :: l) = v.cells ++ cells l :=
  List.flatMap_cons

@[simp] theorem size_cons (v : Span) (l : List Span) : size (v :: l) = v.len + size l := rfl

@[simp] theorem length_cells (l : List Span) : (cells l).length = size l := by
  induction l with
  | nil => rfl
  | cons v l ih => rw [cells_cons, List.length_append, Span.length_cells, ih, size_cons]

/-- **Advancing** drops the cells that were transferred. -/
theorem cells_advance (l : List Span) (n : ℕ) : cells (advance l n) = (cells l).drop n := by
  induction l generalizing n with
  | nil => simp [advance]
  | cons v l ih =>
    unfold advance
    rw [cells_cons, List.drop_append, Span.length_cells]
    split_ifs with hv
    · have hnil : v.cells.drop n = [] := by
        rw [List.drop_eq_nil_iff, Span.length_cells]
        exact hv
      rw [ih, hnil, List.nil_append]
    · have hrest : n - v.len = 0 := by omega
      rw [cells_cons, Span.cells_drop, hrest, List.drop_zero]

/-- Nothing remains once all the cells have been transferred, and not before. -/
theorem advance_eq_nil_iff : advance l n = [] ↔ size l ≤ n := by
  induction l generalizing n with
  | nil => simp [advance, size]
  | cons v l ih =>
    unfold advance
    rw [size_cons]
    split_ifs with hv
    · rw [ih]
      omega
    · constructor
      · intro h
        cases h
      · omega

end Vectors

/-! ### Storing at a list of cells -/

section Stores
variable {β : Type*} {mem : ℕ → β} {cs : List ℕ} {xs : List β}

/-- The values are stored one after the other, as far as there are cells. -/
def storeAll (mem : ℕ → β) : List ℕ → List β → ℕ → β
  | c :: cs, x :: xs => storeAll (Function.update mem c x) cs xs
  | _, _ => mem

@[simp] theorem storeAll_nil (mem : ℕ → β) (cs : List ℕ) : storeAll mem cs [] = mem := by
  cases cs <;> rfl

/-- What is stored in two pieces. -/
theorem storeAll_append (mem : ℕ → β) (cs : List ℕ) (xs ys : List β) :
    storeAll mem cs (xs ++ ys) = storeAll (storeAll mem cs xs) (cs.drop xs.length) ys := by
  induction xs generalizing mem cs with
  | nil => simp
  | cons x xs ih =>
    rcases cs with _ | ⟨c, cs⟩
    · simp [storeAll]
    · exact ih _ cs

/-- Values for which there is no cell are not stored. -/
theorem storeAll_take (mem : ℕ → β) (cs : List ℕ) (xs : List β) :
    storeAll mem cs (xs.take cs.length) = storeAll mem cs xs := by
  induction cs generalizing mem xs with
  | nil => cases xs <;> rfl
  | cons c cs ih =>
    rcases xs with _ | ⟨x, xs⟩
    · rfl
    · exact ih _ xs

/-- **The frame** of the stores. -/
theorem storeAll_of_notMem {a : ℕ} (h : a ∉ cs) : storeAll mem cs xs a = mem a := by
  induction cs generalizing mem xs with
  | nil => cases xs <;> rfl
  | cons c cs ih =>
    rcases xs with _ | ⟨x, xs⟩
    · rfl
    · rw [List.mem_cons, not_or] at h
      rw [storeAll, ih h.2, Function.update_of_ne h.1]

/-- **Cells that are all different** hold what was stored in them. -/
theorem map_storeAll (hn : cs.Nodup) (hl : cs.length ≤ xs.length) :
    cs.map (storeAll mem cs xs) = xs.take cs.length := by
  induction cs generalizing mem xs with
  | nil => rfl
  | cons c cs ih =>
    rcases xs with _ | ⟨x, xs⟩
    · exact absurd hl (by simp)
    · obtain ⟨hc, hn⟩ := List.nodup_cons.mp hn
      rw [List.length_cons, List.length_cons, Nat.add_le_add_iff_right] at hl
      rw [List.map_cons, List.length_cons, List.take_succ_cons, storeAll, storeAll_of_notMem hc,
        Function.update_self, ih hn hl]

end Stores

end Libkinetic.Base.Scatter
