import Mathlib.Tactic

/-! # Streams of frames

Items are written one after the other, each in a code of its own. Where the code of an item is
recognized whatever follows it, and nothing is recognized but codes, a stream is cut into the items
that were written; a stream that breaks off gives the items that are complete, and no others. -/

namespace Libkinetic.Base.Framing

/-- A code whose items can be told apart in a stream. -/
structure Code (α β : Type*) where
  encode : α → List β
  decode : List β → Option (α × List β)
  encode_ne : ∀ a, encode a ≠ []
  decode_encode : ∀ a s, decode (encode a ++ s) = some (a, s)
  eq_of_decode : ∀ {s t a}, decode s = some (a, t) → s = encode a ++ t

section Streams
variable {α β : Type*} (C : Code α β)

/-- The stream of a list of items. -/
def Code.stream (as : List α) : List β := as.flatMap C.encode

/-- Up to `n` items from the front of a stream, and what is left of it. -/
def Code.items : ℕ → List β → List α × List β
  | 0, s => ([], s)
  | n + 1, s =>
    match C.decode s with
    | none => ([], s)
    | some (a, t) =>
      let (as, t) := items n t
      (a :: as, t)

variable {C} {as : List α} {a : α} {s t : List β} {n : ℕ}

@[simp] theorem Code.stream_nil : C.stream [] = [] := rfl

@[simp] theorem Code.stream_cons (a : α) (as : List α) :
    C.stream (a :: as) = C.encode a ++ C.stream as := List.flatMap_cons

theorem Code.stream_append (as bs : List α) : C.stream (as ++ bs) = C.stream as ++ C.stream bs :=
  List.flatMap_append

theorem Code.items_zero (s : List β) : C.items 0 s = ([], s) := rfl

theorem Code.items_none (h : C.decode s = none) : C.items (n + 1) s = ([], s) := by
  rw [Code.items, h]

theorem Code.items_some (h : C.decode s = some (a, t)) :
    C.items (n + 1) s = (a :: (C.items n t).1, (C.items n t).2) := by
  rw [Code.items, h]

/-- A code that has not been written whole begins with no code. -/
theorem Code.not_encode_prefix {b : α} (h : s <+: C.encode a) (hne : s ≠ C.encode a) :
    ¬ C.encode b <+: s := by
  rintro ⟨t, rfl⟩
  obtain ⟨u, hu⟩ := h
  have ha := C.decode_encode a []
  rw [List.append_nil, ← hu, List.append_assoc, C.decode_encode] at ha
  have htail : t ++ u = [] := (Prod.mk.inj (Option.some.inj ha)).2
  rw [(List.append_eq_nil_iff.mp htail).2, List.append_nil] at hu
  exact hne hu

/-- **The first item** of a stream that breaks off is the first that was written; `p` is what was
written of an item that is not complete. -/
theorem Code.decode_of_prefix {p : List β} (hp : ∀ b, ¬ C.encode b <+: p)
    (h : s <+: C.stream as ++ p) (hd : C.decode s = some (a, t)) :
    ∃ as', as = a :: as' ∧ t <+: C.stream as' ++ p := by
  obtain ⟨u, hu⟩ := h
  have hs := C.eq_of_decode hd
  rw [hs, List.append_assoc] at hu
  rcases as with _ | ⟨b, as⟩
  · exact absurd ⟨t ++ u, hu⟩ (hp a)
  · have hfirst := C.decode_encode b (C.stream as ++ p)
    rw [← List.append_assoc, ← Code.stream_cons, ← hu, C.decode_encode] at hfirst
    obtain ⟨rfl, htail⟩ := Prod.mk.inj (Option.some.inj hfirst)
    exact ⟨as, rfl, u, htail⟩

/-- No code begins where nothing is. -/
theorem Code.not_encode_prefix_nil (b : α) : ¬ C.encode b <+: [] := fun h =>
  C.encode_ne b (List.prefix_nil.mp h)

/-- The first item of the front of a stream. -/
theorem Code.decode_of_prefix_stream (h : s <+: C.stream as) (hd : C.decode s = some (a, t)) :
    ∃ as', as = a :: as' ∧ t <+: C.stream as' := by
  rw [← List.append_nil (C.stream as)] at h
  obtain ⟨as', has, ht⟩ := Code.decode_of_prefix Code.not_encode_prefix_nil h hd
  rw [List.append_nil] at ht
  exact ⟨as', has, ht⟩

/-- **A stream that breaks off** gives items that were written, in their order. -/
theorem Code.items_prefix {p : List β} (hp : ∀ b, ¬ C.encode b <+: p)
    (h : s <+: C.stream as ++ p) (n : ℕ) : (C.items n s).1 <+: as := by
  induction n generalizing s as with
  | zero => exact List.nil_prefix
  | succ n ih =>
    rcases hd : C.decode s with _ | ⟨a, t⟩
    · rw [Code.items_none hd]
      exact List.nil_prefix
    · obtain ⟨as', rfl, ht⟩ := Code.decode_of_prefix hp h hd
      rw [Code.items_some hd]
      exact List.cons_prefix_cons.mpr ⟨rfl, ih ht⟩

/-- **A whole stream** gives all its items, whatever follows it. -/
theorem Code.items_stream (as : List α) (t : List β) :
    C.items as.length (C.stream as ++ t) = (as, t) := by
  induction as with
  | nil => rfl
  | cons a as ih =>
    rw [Code.stream_cons, List.append_assoc, List.length_cons,
      Code.items_some (C.decode_encode a _), ih]

/-- The number of items is at most that of the elements. -/
theorem Code.length_le_stream (as : List α) : as.length ≤ (C.stream as).length := by
  induction as with
  | nil => exact Nat.le_refl 0
  | cons a as ih =>
    have hpos := List.length_pos_of_ne_nil (C.encode_ne a)
    rw [Code.stream_cons, List.length_append, List.length_cons]
    omega

end Streams

end Libkinetic.Base.Framing
