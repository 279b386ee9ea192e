import Mathlib.Tactic

/-! # Components that are called

A component is a function `call : C → S → R × S` from a call and a state to a reply and the next
state, and `calls` are the replies to a list of calls, made one after the other. What a caller may
rely on is a relation `spec` over an abstract state `M`, which sees a call, the state before it, the
reply and the state after it. `Explains` says that the replies to a list of calls can be explained
by abstract states; a component whose single calls can be explained explains all lists of them. If
the abstract component is a function as well, both give the same replies. -/

namespace Libkinetic.Base.Calls

variable {C S R M : Type*}

/-- The replies to a list of calls, and the state after them. -/
def calls (call : C → S → R × S) : S → List C → List R × S
  | s, [] => ([], s)
  | s, c :: cs => ((call c s).1 :: (calls call (call c s).2 cs).1, (calls call (call c s).2 cs).2)

/-- Abstract states explain the replies: they lead from one to the other, call by call. -/
inductive Explains (spec : C → M → R → M → Prop) : M → List C → List R → M → Prop
  | nil (m : M) : Explains spec m [] [] m
  | cons {m m1 m' : M} {c : C} {cs : List C} {r : R} {rs : List R} (h : spec c m r m1)
      (hs : Explains spec m1 cs rs m') : Explains spec m (c :: cs) (r :: rs) m'

variable {call : C → S → R × S} {spec : C → M → R → M → Prop} {abs : S → M} {I : S → Prop}
  {ok : C → Prop}

theorem length_calls (cs : List C) (s : S) : (calls call s cs).1.length = cs.length := by
  induction cs generalizing s with
  | nil => rfl
  | cons c cs ih =>
    show (_ :: _).length = _
    rw [List.length_cons, List.length_cons, ih]

/-- **Calls that can be explained one by one** can be explained together. -/
theorem calls_explained
    (hstep : ∀ c s, I s → ok c → spec c (abs s) (call c s).1 (abs (call c s).2))
    (hkeep : ∀ c s, I s → ok c → I (call c s).2) (cs : List C) {s : S} (hI : I s)
    (hok : ∀ c ∈ cs, ok c) :
    Explains spec (abs s) cs (calls call s cs).1 (abs (calls call s cs).2) := by
  induction cs generalizing s with
  | nil => exact .nil _
  | cons c cs ih =>
    have hc : ok c := hok c (List.mem_cons_self ..)
    have hrest := ih (hkeep c s hI hc) fun d hd => hok d (List.mem_cons_of_mem c hd)
    exact .cons (hstep c s hI hc) hrest

/-- **Calls that a function explains**: the replies are those of the function. -/
theorem calls_eq {call' : C → M → R × M}
    (hstep : ∀ c s, I s → ok c → call' c (abs s) = ((call c s).1, abs (call c s).2))
    (hkeep : ∀ c s, I s → ok c → I (call c s).2) (cs : List C) {s : S} (hI : I s)
    (hok : ∀ c ∈ cs, ok c) :
    calls call' (abs s) cs = ((calls call s cs).1, abs (calls call s cs).2) := by
  induction cs generalizing s with
  | nil => rfl
  | cons c cs ih =>
    have hc : ok c := hok c (List.mem_cons_self ..)
    have hrest := ih (hkeep c s hI hc) fun d hd => hok d (List.mem_cons_of_mem c hd)
    unfold calls
    rw [hstep c s hI hc, hrest]

/-- What every call keeps of the abstract state, all of them keep. -/
theorem Explains.keeps {P : M → Prop} {cs : List C} {rs : List R} {m m' : M}
    (h : Explains spec m cs rs m') (hstep : ∀ c ∈ cs, ∀ m r m1, P m → spec c m r m1 → P m1)
    (hP : P m) : P m' := by
  induction h with
  | nil m => exact hP
  | @cons m m1 m' c cs r rs hspec hs ih =>
    refine ih (fun d hd => hstep d (List.mem_cons_of_mem c hd)) ?_
    exact hstep c (List.mem_cons_self ..) m r m1 hP hspec

end Libkinetic.Base.Calls
