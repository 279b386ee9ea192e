import Mathlib.Tactic

/-! # Outcomes that are determined

`f` is what a program makes of an input that it was not given to look at, such as memory that was
not initialised. Its outcome is determined if any two inputs give the same. -/

namespace Libkinetic.Base.Outcomes

variable {α β γ δ : Type*}

/-- Any two inputs give the same outcome. -/
def Determined (f : γ → α) : Prop := ∀ x y, f x = f y

theorem determined_const (a : α) : Determined fun _ : γ => a := fun _ _ => rfl

/-- Nothing is lost by looking only at the part of the input that matters. -/
theorem determined_comp_iff {f : δ → α} (part : γ → δ) (hs : Function.Surjective part) :
    Determined (fun x => f (part x)) ↔ Determined f := by
  constructor
  · intro h
    exact (hs.forall₂ (p := fun x y => f x = f y)).mpr h
  · intro h x y
    exact h (part x) (part y)

/-- What a function of the outcome shows is determined as well. -/
theorem Determined.map {f : γ → α} (h : Determined f) (i : α → β) :
    Determined fun x => i (f x) := fun x y => congrArg i (h x y)

/-- A function that shows everything. -/
theorem determined_map_iff {i : α → β} (hi : Function.Injective i) {f : γ → α} :
    (Determined fun x => i (f x)) ↔ Determined f :=
  ⟨fun h x y => hi (h x y), fun h => h.map i⟩

/-- **An optional value** with a part of the input in its place where there is none. -/
theorem determined_getD_iff [Nontrivial α] (part : γ → α) (hs : Function.Surjective part)
    {o : Option α} : Determined (fun x => o.getD (part x)) ↔ o.isSome = true := by
  rw [determined_comp_iff (f := fun a => o.getD a) part hs]
  rcases o with _ | a
  · obtain ⟨x, y, hne⟩ := exists_pair_ne α
    constructor
    · intro h
      exact absurd (h x y) hne
    · nofun
  · exact ⟨fun _ => rfl, fun _ => determined_const a⟩

/-- **An array** that is filled element by element, in memory that is a part of the input. -/
theorem determined_mapIdx_iff (part : γ → ℕ → α) (hs : Function.Surjective part)
    {fill : ℕ → α → β → δ} {l : List β} {P : β → Prop}
    (hfill : ∀ i b, (Determined fun a => fill i a b) ↔ P b) :
    (Determined fun x => l.mapIdx fun i b => fill i (part x i) b) ↔ ∀ b ∈ l, P b := by
  rw [determined_comp_iff (f := fun mem => l.mapIdx fun i b => fill i (mem i) b) part hs]
  constructor
  · intro h b hb
    obtain ⟨i, hi, rfl⟩ := List.getElem_of_mem hb
    refine (hfill i _).mp fun x y => ?_
    have hall := congrArg (·[i]?) (h (fun _ => x) fun _ => y)
    simpa [List.getElem?_eq_getElem hi] using hall
  · intro h x y
    refine List.ext_getElem (by simp) fun i hi _ => ?_
    simp only [List.getElem_mapIdx]
    rw [List.length_mapIdx] at hi
    exact (hfill i _).mpr (h _ (List.getElem_mem hi)) _ _

end Libkinetic.Base.Outcomes
