import Mathlib.Data.List.Nodup
import Mathlib.Tactic

/-! # The history of a queue

Tokens enter a queue at the rear, each at most once, and leave it at the front; any of them may also
be dropped from the middle. A history says which tokens have entered, which have left and which were
dropped. `Ordered` relates it to the content of the queue: what has left, followed by what is still
there, is what has entered without what was dropped, in the order of entry. The three moves keep it
(`Ordered.enter`, `Ordered.leave`, `Ordered.drop`). -/

namespace Libkinetic.Base.Fifo

variable {T : Type*} [DecidableEq T]

/-- What happened to a queue, oldest first. -/
structure History (T : Type*) where
  entered : List T := []
  out : List T := []
  dropped : List T := []
deriving DecidableEq

namespace History

def enter (h : History T) (t : T) : History T := { h with entered := h.entered ++ [t] }

def leave (h : History T) (t : T) : History T := { h with out := h.out ++ [t] }

def drop (h : History T) (ts : List T) : History T := { h with dropped := ts ++ h.dropped }

/-- What has entered and was not dropped. -/
def kept (h : History T) : List T := h.entered.filter (· ∉ h.dropped)

end History

/-- **First in, first out.** -/
structure Ordered (h : History T) (content : List T) : Prop where
  nodup : h.entered.Nodup
  dropped : h.dropped ⊆ h.entered
  order : h.out ++ content = h.kept

variable {h : History T} {c c' : List T} {t : T}

theorem ordered_empty : Ordered (T := T) {} [] :=
  ⟨List.nodup_nil, List.Subset.refl _, rfl⟩

theorem Ordered.nodup_all (ho : Ordered h c) : (h.out ++ c).Nodup := by
  rw [ho.order]
  exact ho.nodup.filter _

theorem Ordered.nodup_content (ho : Ordered h c) : c.Nodup :=
  (List.nodup_append.mp ho.nodup_all).2.1

theorem Ordered.mem_entered (ho : Ordered h c) (ht : t ∈ h.out ++ c) : t ∈ h.entered := by
  rw [ho.order] at ht
  exact (List.mem_filter.mp ht).1

/-- What has left is in the order of entry. -/
theorem Ordered.out_prefix (ho : Ordered h c) : h.out <+: h.kept := ⟨c, ho.order⟩

theorem Ordered.enter (ho : Ordered h c) (ht : t ∉ h.entered) : Ordered (h.enter t) (c ++ [t]) := by
  have hd : t ∉ h.dropped := fun hd => ht (ho.dropped hd)
  refine ⟨?_, fun x hx => List.mem_append_left _ (ho.dropped hx), ?_⟩
  · refine List.nodup_append.mpr ⟨ho.nodup, List.nodup_singleton t, fun a ha b hb => ?_⟩
    rintro rfl
    exact ht (List.mem_singleton.mp hb ▸ ha)
  · show h.out ++ (c ++ [t]) = (h.entered ++ [t]).filter (· ∉ h.dropped)
    rw [List.filter_append, ← List.append_assoc, ho.order]
    simp [History.kept, hd]

theorem Ordered.leave (ho : Ordered h (t :: c)) : Ordered (h.leave t) c := by
  refine ⟨ho.nodup, ho.dropped, ?_⟩
  show h.out ++ [t] ++ c = h.kept
  rw [List.append_assoc]
  exact ho.order

/-- A sublist of a list without duplicates is what the list has of it. -/
theorem filter_mem_of_sublist (hs : c'.Sublist c) (hn : c.Nodup) : c.filter (· ∈ c') = c' := by
  induction hs with
  | slnil => rfl
  | @cons c' c a hs ih =>
    obtain ⟨ha, hn⟩ := List.nodup_cons.mp hn
    have ha' : a ∉ c' := fun h => ha (hs.subset h)
    rw [List.filter_cons_of_neg (by simpa using ha')]
    exact ih hn
  | @cons_cons c' c a hs ih =>
    obtain ⟨ha, hn⟩ := List.nodup_cons.mp hn
    have hcongr : c.filter (· ∈ a :: c') = c.filter (· ∈ c') := by
      refine List.filter_congr fun x hx => ?_
      have hxa : x ≠ a := by rintro rfl; exact ha hx
      simp [hxa]
    rw [List.filter_cons_of_pos (by simp), hcongr, ih hn]

/-- Any part of the content may be dropped. -/
theorem Ordered.drop (ho : Ordered h c) (hs : c'.Sublist c) :
    Ordered (h.drop (c.filter (· ∉ c'))) c' := by
  refine ⟨ho.nodup, fun x hx => ?_, ?_⟩
  · rcases List.mem_append.mp hx with hx | hx
    · exact ho.mem_entered (List.mem_append_right _ (List.mem_filter.mp hx).1)
    · exact ho.dropped hx
  · have hdisj := (List.nodup_append.mp ho.nodup_all).2.2
    calc h.out ++ c'
        = h.out.filter (· ∉ c.filter (· ∉ c')) ++ c.filter (· ∉ c.filter (· ∉ c')) := by
          congr 1
          · refine (List.filter_eq_self.mpr fun x hx => ?_).symm
            have hx' : x ∉ c := fun h1 => hdisj x hx x h1 rfl
            simp [hx']
          · rw [← filter_mem_of_sublist hs ho.nodup_content]
            refine List.filter_congr fun x hx => ?_
            simp [hx]
      _ = (h.out ++ c).filter (· ∉ c.filter (· ∉ c')) := (List.filter_append ..).symm
      _ = (h.drop (c.filter (· ∉ c'))).kept := by
          rw [ho.order]
          unfold History.kept History.drop
          rw [List.filter_filter]
          refine List.filter_congr fun x _ => ?_
          simp [not_or, Bool.decide_and]

end Libkinetic.Base.Fifo
