import Mathlib.Data.List.TakeWhile

/-! # Fields of a string

`strtok` takes the fields of a string one after the other: it steps over delimiters, gives what
stands in front of the next one, and goes on behind it. Called until it gives nothing, or as often as
a limit says, it gives the nonempty pieces between the delimiters, or the first of them. -/

namespace Libkinetic.Base.Strtok

variable {α : Type*} {p : α → Bool} {s w r : List α}

/-- **`strtok`**: the next field, and where to go on. -/
def strtok (p : α → Bool) (s : List α) : Option (List α × List α) :=
  match s.dropWhile p with
  | [] => none
  | x :: s => some ((x :: s).takeWhile (! p ·), ((x :: s).dropWhile (! p ·)).tail)

/-- As many as `n` fields. -/
def strtokLoop (p : α → Bool) : ℕ → List α → List (List α)
  | 0, _ => []
  | n + 1, s =>
    match strtok p s with
    | none => []
    | some (w, s) => w :: strtokLoop p n s

/-- **The fields** of a string. -/
def fields (p : α → Bool) (s : List α) : List (List α) := (s.splitOnP p).filter (! ·.isEmpty)

theorem fields_of_mem (hw : ∀ x ∈ w, p x = false) (hne : w ≠ []) {x : α} (hx : p x = true) :
    fields p (w ++ x :: r) = w :: fields p r := by
  rw [fields, List.splitOnP_append_cons_of_forall_mem hw x hx,
    List.filter_cons_of_pos (by simpa using hne), fields]

theorem fields_delimiter {x : α} (hx : p x = true) : fields p (x :: r) = fields p r := by
  have hnone : ∀ y ∈ ([] : List α), p y = false := by simp
  have hsplit := List.splitOnP_append_cons_of_forall_mem hnone x hx r
  rw [List.nil_append] at hsplit
  rw [fields, hsplit, List.filter_cons_of_neg (by simp), fields]

theorem fields_single (hw : ∀ x ∈ w, p x = false) (hne : w ≠ []) : fields p w = [w] := by
  rw [fields, List.splitOnP_eq_singleton hw, List.filter_cons_of_pos (by simpa using hne),
    List.filter_nil]

theorem fields_dropWhile (s : List α) : fields p (s.dropWhile p) = fields p s := by
  induction s with
  | nil => rfl
  | cons x s ih =>
    by_cases hx : p x = true
    · rw [List.dropWhile_cons_of_pos hx, ih, fields_delimiter hx]
    · rw [List.dropWhile_cons_of_neg hx]

theorem fields_nil : fields p ([] : List α) = [] := by
  simp [fields]

/-- A string that starts with a field. -/
theorem fields_word (hx : ∀ y ∈ s.head?, p y = false) (hs : s ≠ []) :
    fields p s = s.takeWhile (! p ·) :: fields p (s.dropWhile (! p ·)).tail := by
  have hword : ∀ y ∈ s.takeWhile (! p ·), p y = false := fun y hy => by
    simpa using List.mem_takeWhile_imp hy
  have hne : s.takeWhile (! p ·) ≠ [] := by
    rcases s with _ | ⟨y, s⟩
    · exact absurd rfl hs
    · simp [hx y rfl]
  have hparts := List.takeWhile_append_dropWhile (p := (! p ·)) (l := s)
  rcases hrest : s.dropWhile (! p ·) with _ | ⟨d, t⟩
  · rw [hrest, List.append_nil] at hparts
    rw [List.tail_nil, fields_nil, hparts]
    exact fields_single (hparts ▸ hword) hs
  · have hd : p d = true := by
      have hhead := List.head?_dropWhile_not (fun y => ! p y) s
      simpa [hrest] using hhead
    rw [hrest] at hparts
    calc fields p s = fields p (s.takeWhile (! p ·) ++ d :: t) := by rw [hparts]
      _ = _ := fields_of_mem hword hne hd

/-- **The loop over `strtok` gives the fields.** -/
theorem strtokLoop_eq (n : ℕ) (s : List α) : strtokLoop p n s = (fields p s).take n := by
  induction n generalizing s with
  | zero => rfl
  | succ n ih =>
    rw [← fields_dropWhile s, strtokLoop, strtok]
    rcases hs : s.dropWhile p with _ | ⟨x, t⟩
    · simp [fields_nil]
    · have hhead : ∀ y ∈ (x :: t).head?, p y = false := fun y hy => by
        have hnot := List.head?_dropWhile_not p s
        rw [hs, hy] at hnot
        simpa using hnot
      rw [fields_word hhead (List.cons_ne_nil x t), List.take_succ_cons]
      simp only [ih]

/-- A field is not empty. -/
theorem ne_nil_of_mem_fields (hw : w ∈ fields p s) : w ≠ [] := by
  simpa using (List.mem_filter.mp hw).2

end Libkinetic.Base.Strtok
