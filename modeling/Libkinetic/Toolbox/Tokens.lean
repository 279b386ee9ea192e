import Libkinetic.Base.Cstrings
import Libkinetic.Base.Strtok
import Mathlib.Data.List.GetD

/-! # The arguments of a command line

`kctl_interactive`, and `b_interactive` with the same lines, cut the command line at blanks and then
put the words of a quoted string together again, in the array `argv` that holds the words: what is
finished is written at `nargc`, the words are read at `i` and behind it. Once a string of several
words is done, `nargc` stays behind `i`, and the word that is read is no longer the one that is
written. The line is read as groups of words (`groups`); the arguments are their texts exactly if no
string of one word follows a string of several words, and none starts with a quote that stands for
itself. -/

namespace Libkinetic.Toolbox.Tokens

open Libkinetic.Base.Cstrings Libkinetic.Base.Strtok

abbrev Word := List Byte

def blank : Byte := 32
def tab : Byte := 9
def quote : Byte := 34
def hash : Byte := 35

def isBlank (c : Byte) : Bool := c = blank || c = tab

/-! ### The functions -/

def maxargs : ℕ := 1024

/-- The loop that looks for the closing quote: at the word `j`, with as many `left`. The string that
is put together is the one in `argv[nargc]`. The last byte of an empty string is not in it. -/
def closeLoop (i nargc : ℕ) : ℕ → ℕ → List Word → Option (ℕ × Bool × List Word)
  | 0, j, argv => some (j, true, argv)
  | left + 1, j, argv =>
    let word := argv.getD j []
    if word = [] then none
    else
      let closed := word.getLast? = some quote
      let argv := if closed then argv.set j word.dropLast else argv
      let argv :=
        if j ≠ i then argv.set nargc (argv.getD nargc [] ++ [blank] ++ argv.getD j []) else argv
      if closed then some (j, false, argv) else closeLoop i nargc left (j + 1) argv

/-- The loop that puts the strings together, which moves `i` on with every turn: the arguments, and
whether a quote is left open. -/
def assemble (argc : ℕ) : ℕ → ℕ → ℕ → Bool → List Word → Option (List Word × Bool)
  | 0, _, nargc, unmatchedq, argv => some (argv.take nargc, unmatchedq)
  | turns + 1, i, nargc, unmatchedq, argv =>
    if i < argc then
      let s := argv.getD i []
      let argv := argv.set nargc s
      if s.head? = some hash then some (argv.take nargc, unmatchedq)
      else if s.head? ≠ some quote then assemble argc turns (i + 1) (nargc + 1) unmatchedq argv
      else
        match closeLoop i nargc (argc - i) i (argv.set nargc s.tail) with
        | none => none
        | some (j, unmatchedq, argv) => assemble argc turns (j + 1) (nargc + 1) unmatchedq argv
    else some (argv.take nargc, unmatchedq)

/-- **The tokenizer**: `none` is a read in front of a string. -/
def tokenize (line : List Byte) : Option (List Word × Bool) :=
  let argv := strtokLoop isBlank (maxargs - 1) line
  assemble argv.length argv.length 0 0 false argv

/-! ### Groups -/

/-- The words of an argument. -/
inductive Group
  | word (w : Word)
  | quoted (ws : List Word)
deriving DecidableEq

/-- The argument: the words of a quoted string joined by single blanks, without the first quote and
the last. -/
def Group.text : Group → Word
  | .word w => w
  | .quoted ws => ([blank].intercalate ws).tail.dropLast

def opens (w : Word) : Prop := w.head? = some quote
def closes (w : Word) : Prop := w.getLast? = some quote
/-- Two quotes. -/
def closesItself (w : Word) : Prop := w ≠ [quote] ∧ closes w

instance : DecidablePred opens := fun w => inferInstanceAs (Decidable (w.head? = some quote))
instance : DecidablePred closes := fun w => inferInstanceAs (Decidable (w.getLast? = some quote))
instance : DecidablePred closesItself := fun w =>
  inferInstanceAs (Decidable (w ≠ [quote] ∧ closes w))

/-- **The groups of the words**, with those of a string that is open, up to a word that starts with
`#`; none if a string stays open. -/
def groups : Option (List Word) → List Word → Option (List Group)
  | none, [] => some []
  | some _, [] => none
  | none, w :: ws =>
    if w.head? = some hash then some []
    else if ¬ opens w then (groups none ws).map (.word w :: ·)
    else if closesItself w then (groups none ws).map (.quoted [w] :: ·)
    else groups (some [w]) ws
  | some part, w :: ws =>
    if closes w then (groups none ws).map (.quoted (part ++ [w]) :: ·)
    else groups (some (part ++ [w])) ws

/-- Every word that starts with a quote is closed by itself or by a later one. -/
def Closed : List Word → Prop
  | [] => True
  | w :: ws => (opens w → closesItself w ∨ ∃ v ∈ ws, closes v) ∧ Closed ws

instance closedDecidable : (ws : List Word) → Decidable (Closed ws)
  | [] => isTrue trivial
  | _ :: ws => @instDecidableAnd _ _ inferInstance (closedDecidable ws)

/-- A string that starts with a quote that is a word. -/
def Group.lone : Group → Prop
  | .word _ => False
  | .quoted ws => ws.head? = some [quote]

/-- A string of one word. -/
def Group.single : Group → Prop
  | .word _ => False
  | .quoted ws => ws.length = 1

/-- A string of several words. -/
def Group.several : Group → Prop
  | .word _ => False
  | .quoted ws => 1 < ws.length

/-- **The condition**: no string starts with a quote that is a word, and no string of one word comes
after a string of several. -/
def Straight (gs : List Group) : Prop :=
  (∀ g ∈ gs, ¬ g.lone) ∧ gs.Pairwise fun g g' => ¬ (g.several ∧ g'.single)

section Groups
variable {w : Word} {ws part : List Word} {gs : List Group}

theorem ne_nil_of_closes (hw : closes w) : w ≠ [] := by
  rintro rfl
  exact absurd hw (by decide)

/-- **What an open string is closed by.** -/
theorem groups_open (hgs : groups (some part) ws = some gs) :
    ∃ pre w post rest, ws = pre ++ w :: post ∧ (∀ v ∈ pre, ¬ closes v) ∧ closes w ∧
      groups none post = some rest ∧ gs = .quoted (part ++ pre ++ [w]) :: rest := by
  induction ws generalizing part with
  | nil => cases hgs
  | cons v ws ih =>
    rw [groups] at hgs
    by_cases hv : closes v
    · rw [if_pos hv] at hgs
      obtain ⟨rest, hrest, rfl⟩ := Option.map_eq_some_iff.mp hgs
      exact ⟨[], v, ws, rest, rfl, by simp, hv, hrest, by rw [List.append_nil]⟩
    · rw [if_neg hv] at hgs
      obtain ⟨pre, w, post, rest, rfl, hpre, hw, hrest, rfl⟩ := ih hgs
      refine ⟨v :: pre, w, post, rest, rfl, ?_, hw, hrest, ?_⟩
      · rintro u (_ | ⟨_, hu⟩)
        · exact hv
        · exact hpre u hu
      · simp

theorem groups_open_isSome (hw : ∃ v ∈ ws, closes v) (hclosed : Closed ws)
    (ih : ∀ vs, vs.length < ws.length + 1 → Closed vs → (groups none vs).isSome) :
    (groups (some part) ws).isSome := by
  induction ws generalizing part with
  | nil => simp at hw
  | cons v ws ihws =>
    rw [groups]
    by_cases hv : closes v
    · rw [if_pos hv, Option.isSome_map]
      exact ih ws (by simp) hclosed.2
    · rw [if_neg hv]
      obtain ⟨u, hu, hclose⟩ := hw
      rcases List.mem_cons.mp hu with rfl | hu
      · exact absurd hclose hv
      · refine ihws ⟨u, hu, hclose⟩ hclosed.2 fun vs hlen => ih vs ?_
        rw [List.length_cons]
        omega

/-- **Where every string is closed** the groups are there. -/
theorem groups_isSome (hclosed : Closed ws) : (groups none ws).isSome := by
  induction hn : ws.length using Nat.strong_induction_on generalizing ws with
  | h n ih =>
    rcases ws with _ | ⟨w, ws⟩
    · rfl
    obtain ⟨hw, hclosed⟩ := hclosed
    have hlen : ws.length + 1 = n := hn
    rw [groups]
    split_ifs with hhash hopen hself
    · rfl
    · rw [Option.isSome_map]
      exact ih ws.length (by omega) hclosed rfl
    · rcases hw hopen with h | h
      · exact absurd h hself
      · refine groups_open_isSome h hclosed fun vs hvs hc => ?_
        exact ih vs.length (by omega) hc rfl
    · rw [Option.isSome_map]
      exact ih ws.length (by omega) hclosed rfl

theorem intercalate_cons (w : Word) (ws : List Word) :
    [blank].intercalate (w :: ws) = w ++ ws.flatMap (blank :: ·) := by
  induction ws generalizing w with
  | nil => simp
  | cons v ws ih => rw [List.intercalate_cons_cons, ih]; simp

/-- The text of a string of several words. -/
theorem text_several {t w : Word} {pre : List Word} (hw : closes w) :
    (Group.quoted ((quote :: t) :: (pre ++ [w]))).text =
      t ++ (pre ++ [w.dropLast]).flatMap (blank :: ·) := by
  have hne : w ≠ [] := ne_nil_of_closes hw
  rw [Group.text, intercalate_cons, List.cons_append, List.tail_cons]
  simp only [List.flatMap_append, List.flatMap_singleton, ← List.append_assoc]
  rw [List.dropLast_append_of_ne_nil (by simp), List.dropLast_cons_of_ne_nil hne]

end Groups

/-! ### The closing quote -/

section Close
variable {i j nargc left : ℕ} {argv pre post : List Word} {w : Word}

theorem getD_of_drop (hdrop : argv.drop j = w :: post) :
    argv.getD j [] = w ∧ argv.drop (j + 1) = post ∧ j < argv.length := by
  have hlt : j < argv.length := by
    by_contra hge
    rw [List.drop_eq_nil_of_le (by omega)] at hdrop
    cases hdrop
  rw [List.drop_eq_getElem_cons hlt] at hdrop
  obtain ⟨hw, hpost⟩ := List.cons.inj hdrop
  exact ⟨by rw [List.getD_eq_getElem _ _ hlt, hw], hpost, hlt⟩

theorem getD_set_self {x : Word} (hlt : nargc < argv.length) :
    (argv.set nargc x).getD nargc [] = x := by
  rw [List.getD_eq_getElem _ _ (by rw [List.length_set]; exact hlt), List.getElem_set_self]

/-- A turn at a word that ends with a quote. -/
theorem closeLoop_closes (hj : argv.getD j [] = w) (hw : closes w) :
    closeLoop i nargc (left + 1) j argv =
      some (j, false,
        let argv := argv.set j w.dropLast
        if j ≠ i then argv.set nargc (argv.getD nargc [] ++ [blank] ++ argv.getD j []) else argv) := by
  have hlast : w.getLast? = some quote := hw
  rw [closeLoop]
  simp only [hj, if_neg (ne_nil_of_closes hw), hlast, if_true]

/-- A turn at another word. -/
theorem closeLoop_on (hj : argv.getD j [] = w) (hne : w ≠ []) (hw : ¬ closes w) :
    closeLoop i nargc (left + 1) j argv =
      closeLoop i nargc left (j + 1)
        (if j ≠ i then argv.set nargc (argv.getD nargc [] ++ [blank] ++ w) else argv) := by
  have hlast : ¬ w.getLast? = some quote := hw
  rw [closeLoop]
  simp only [hj, if_neg hne, if_neg hlast]

/-- **The words up to the closing quote are put together** behind what is there. -/
theorem closeLoop_run (hi : i < j) (hn : nargc ≤ i) (hdrop : argv.drop j = pre ++ w :: post)
    (hpre : ∀ v ∈ pre, v ≠ [] ∧ ¬ closes v) (hw : closes w) (hleft : pre.length < left) :
    ∃ argv', closeLoop i nargc left j argv = some (j + pre.length, false, argv') ∧
      argv'.length = argv.length ∧ argv'.take nargc = argv.take nargc ∧
      argv'.getD nargc [] =
        argv.getD nargc [] ++ (pre ++ [w.dropLast]).flatMap (blank :: ·) ∧
      argv'.drop (j + pre.length + 1) = post := by
  obtain ⟨left, rfl⟩ : ∃ k, left = k + 1 := ⟨left - 1, by omega⟩
  induction pre generalizing j left argv with
  | nil =>
    obtain ⟨hj, hpost, hlt⟩ := getD_of_drop hdrop
    have hset : (argv.set j w.dropLast).getD j [] = w.dropLast := getD_set_self hlt
    have hother : (argv.set j w.dropLast).getD nargc [] = argv.getD nargc [] := by
      rw [List.getD_eq_getElem?_getD, List.getElem?_set_ne (by omega),
        List.getD_eq_getElem?_getD]
    refine ⟨(argv.set j w.dropLast).set nargc (argv.getD nargc [] ++ [blank] ++ w.dropLast),
      ?_, ?_, ?_, ?_, ?_⟩
    · rw [closeLoop_closes hj hw]
      simp only [hset, hother, if_pos (show j ≠ i by omega)]
      rfl
    · simp
    · rw [List.take_set_of_le (le_refl _), List.take_set_of_le (by omega)]
    · rw [getD_set_self (by rw [List.length_set]; omega)]
      simp
    · rw [List.drop_set_of_lt (by simp; omega), List.length_nil, Nat.add_zero,
        List.drop_set_of_lt (by omega), hpost]
  | cons v pre ih =>
    obtain ⟨hj, hrest, hlt⟩ := getD_of_drop hdrop
    obtain ⟨hne, hopen⟩ := hpre v List.mem_cons_self
    set joined := argv.getD nargc [] ++ [blank] ++ v with hjoined
    have hlen : (argv.set nargc joined).length = argv.length := List.length_set
    have hrest' : (argv.set nargc joined).drop (j + 1) = pre ++ w :: post :=
      (List.drop_set_of_lt (by omega)).trans hrest
    have hnarg : (argv.set nargc joined).getD nargc [] = joined := getD_set_self (by omega)
    rw [List.length_cons] at hleft
    obtain ⟨left, rfl⟩ : ∃ k, left = k + 1 := ⟨left - 1, by omega⟩
    obtain ⟨argv', hrun, hlen', htake, htext, hpost⟩ := ih (by omega) hrest'
      (fun u hu => hpre u (List.mem_cons_of_mem v hu)) left (by omega)
    have hstep : closeLoop i nargc (left + 1 + 1) j argv =
        closeLoop i nargc (left + 1) (j + 1) (argv.set nargc joined) := by
      rw [closeLoop_on hj hne hopen, if_pos (show j ≠ i by omega)]
    refine ⟨argv', ?_, by rw [hlen', hlen], ?_, ?_, ?_⟩
    · rw [hstep, hrun, List.length_cons]
      congr 2
      omega
    · rw [htake, List.take_set_of_le (le_refl _)]
    · rw [htext, hnarg, hjoined]
      simp
    · rw [List.length_cons, ← hpost]
      congr 1
      omega

end Close

/-! ### The arguments -/

section Assemble
variable {argc turns i nargc : ℕ} {argv ws post r : List Word} {w x : Word} {b u : Bool}
  {gs : List Group}

/-- The loop is at the words that are left. -/
structure At (argc i nargc : ℕ) (ws argv : List Word) : Prop where
  length : argv.length = argc
  rest : argv.drop i = ws
  behind : nargc ≤ i
  words : ∀ w ∈ ws, w ≠ []

/-- A turn that writes `x` and goes on at the words that are left. -/
def Writes (argc turns i nargc : ℕ) (argv : List Word) (x : Word) (j : ℕ) (post : List Word) :
    Prop :=
  ∃ argv', assemble argc (turns + 1) i nargc false argv =
      assemble argc turns j (nargc + 1) false argv' ∧
    At argc j (nargc + 1) post argv' ∧ argv'.take (nargc + 1) = argv.take nargc ++ [x]

theorem take_succ_of_getD (hlt : nargc < argv.length) (hx : argv.getD nargc [] = x) :
    argv.take (nargc + 1) = argv.take nargc ++ [x] := by
  rw [List.take_succ_eq_append_getElem hlt, ← hx, List.getD_eq_getElem _ _ hlt]

/-- A word that is written behind the others. -/
theorem take_succ_set (hlt : nargc < argv.length) :
    (argv.set nargc x).take (nargc + 1) = argv.take nargc ++ [x] := by
  rw [take_succ_of_getD (by rw [List.length_set]; exact hlt) (getD_set_self hlt),
    List.take_set_of_le (le_refl _)]

theorem At.next (hat : At argc i nargc (w :: post) argv) :
    argv.getD i [] = w ∧ argv.drop (i + 1) = post ∧ i < argc ∧ w ≠ [] ∧ ∀ v ∈ post, v ≠ [] := by
  obtain ⟨hw, hpost, hlt⟩ := getD_of_drop hat.rest
  exact ⟨hw, hpost, hat.length ▸ hlt, hat.words w List.mem_cons_self,
    fun v hv => hat.words v (List.mem_cons_of_mem w hv)⟩

theorem writes_word (hat : At argc i nargc (w :: post) argv) (hhash : w.head? ≠ some hash)
    (hopen : ¬ opens w) : Writes argc turns i nargc argv w (i + 1) post := by
  obtain ⟨hw, hpost, hlt, -, hwords⟩ := hat.next
  have hlen := hat.length
  have hbehind := hat.behind
  have hopen' : w.head? ≠ some quote := hopen
  refine ⟨argv.set nargc w, ?_, ⟨?_, ?_, by omega, hwords⟩, ?_⟩
  · rw [assemble, if_pos hlt]
    simp only [hw, if_neg hhash, if_pos hopen']
  · rw [List.length_set, hlen]
  · rw [List.drop_set_of_lt (by omega), hpost]
  · exact take_succ_set (by omega)

/-- A turn at a quote. -/
theorem assemble_quote (hw : argv.getD i [] = w) (hlt : i < argc) (hopen : opens w) :
    assemble argc (turns + 1) i nargc u argv =
      match closeLoop i nargc (argc - i) i (argv.set nargc w.tail) with
      | none => none
      | some (j, u, argv) => assemble argc turns (j + 1) (nargc + 1) u argv := by
  have hopen' : w.head? = some quote := hopen
  have hhash : ¬ some quote = some hash := by decide
  rw [assemble, if_pos hlt]
  simp only [hw, hopen', if_neg hhash, ne_eq, not_true_eq_false, if_false, List.set_set]

/-- What is read at `i` once its tail is written. -/
theorem getD_set_tail (hat : At argc i nargc (w :: post) argv) :
    (argv.set nargc w.tail).getD i [] = if nargc = i then w.tail else w := by
  obtain ⟨hw, -, hlt, -⟩ := hat.next
  have hlen : i < (argv.set nargc w.tail).length := by rw [List.length_set, hat.length]; exact hlt
  rw [List.getD_eq_getElem _ _ hlen, List.getElem_set]
  split_ifs with h
  · rfl
  · rw [← List.getD_eq_getElem argv [], hw]

theorem eq_quote_cons (hopen : opens w) : w = quote :: w.tail := by
  rcases w with _ | ⟨c, w⟩
  · cases hopen
  · obtain rfl := Option.some.inj hopen
    rfl

theorem tail_ne_nil (hopen : opens w) (hne : w ≠ [quote]) : w.tail ≠ [] :=
  fun h => hne (by rw [eq_quote_cons hopen, h])

/-- The tail of a string ends like the string, unless that is a quote only. -/
theorem closes_tail_iff (hopen : opens w) (hne : w ≠ [quote]) : closes w.tail ↔ closes w := by
  have hlast : w.getLast? = w.tail.getLast? := by
    conv_lhs => rw [eq_quote_cons hopen]
    exact List.getLast?_cons_of_ne_nil (tail_ne_nil hopen hne)
  rw [closes, closes, hlast]

theorem closes_read_iff (hopen : opens w) (hne : w ≠ [quote]) :
    closes (if nargc = i then w.tail else w) ↔ closes w := by
  split_ifs
  · exact closes_tail_iff hopen hne
  · rfl

/-- **A string that is closed where it starts**: its last byte is dropped from the word at `i`, which
is the one that is written only if the two are at one place. -/
theorem writes_closed (hat : At argc i nargc (w :: post) argv) (hopen : opens w)
    (hclose : closes (if nargc = i then w.tail else w)) :
    Writes argc turns i nargc argv (if nargc = i then w.tail.dropLast else w.tail) (i + 1) post := by
  obtain ⟨hw, hpost, hlt, -, hwords⟩ := hat.next
  have hlen := hat.length
  have hbehind := hat.behind
  have hread := getD_set_tail hat
  obtain ⟨left, hleft⟩ : ∃ k, argc - i = k + 1 := ⟨argc - i - 1, by omega⟩
  refine ⟨(argv.set nargc w.tail).set i (if nargc = i then w.tail else w).dropLast, ?_,
    ⟨?_, ?_, by omega, hwords⟩, ?_⟩
  · rw [assemble_quote hw hlt hopen, hleft, closeLoop_closes hread hclose]
    simp only [ne_eq, not_true_eq_false, if_false]
  · rw [List.length_set, List.length_set, hlen]
  · rw [List.drop_set_of_lt (by omega), List.drop_set_of_lt (by omega), hpost]
  · rcases eq_or_ne nargc i with rfl | hne
    · rw [if_pos rfl, if_pos rfl, List.set_set, take_succ_set (by omega)]
    · rw [if_neg hne, if_neg hne, List.take_set_of_le (by omega), take_succ_set (by omega)]

/-- **A string of several words.** -/
theorem writes_several {pre : List Word} {v : Word}
    (hat : At argc i nargc (w :: (pre ++ v :: post)) argv) (hopen : opens w) (hne : w ≠ [quote])
    (hw : ¬ closes w) (hpre : ∀ v ∈ pre, ¬ closes v) (hv : closes v) :
    Writes argc turns i nargc argv (w.tail ++ (pre ++ [v.dropLast]).flatMap (blank :: ·))
      (i + pre.length + 2) post := by
  obtain ⟨hget, hpost, hlt, -, hwords⟩ := hat.next
  have hlen := hat.length
  have hbehind := hat.behind
  have hread := getD_set_tail hat
  have hword : (if nargc = i then w.tail else w) ≠ [] := by
    split_ifs
    · exact tail_ne_nil hopen hne
    · exact hat.words w List.mem_cons_self
  have hclose : ¬ closes (if nargc = i then w.tail else w) :=
    fun h => hw ((closes_read_iff hopen hne).mp h)
  have hsize : argc - i = pre.length + post.length + 1 + 1 := by
    have hdrop := congrArg List.length hat.rest
    simp only [List.length_drop, List.length_cons, List.length_append, hlen] at hdrop
    omega
  have hdrop : (argv.set nargc w.tail).drop (i + 1) = pre ++ v :: post :=
    (List.drop_set_of_lt (by omega)).trans hpost
  obtain ⟨argv', hrun, hlen', htake, htext, hpost'⟩ :=
    closeLoop_run (show i < i + 1 by omega) hbehind hdrop
      (fun u hu => ⟨hwords u (List.mem_append_left _ hu), hpre u hu⟩) hv
      (show pre.length < pre.length + post.length + 1 by omega)
  have hset : (argv.set nargc w.tail).getD nargc [] = w.tail := getD_set_self (by omega)
  refine ⟨argv', ?_, ⟨?_, ?_, by omega, ?_⟩, ?_⟩
  · rw [assemble_quote hget hlt hopen, hsize, closeLoop_on hread hword hclose,
      if_neg (by simp), hrun]
    simp only
    congr 1
    omega
  · rw [hlen', List.length_set, hlen]
  · rw [← hpost']
    congr 1
    omega
  · exact fun u hu => hwords u (List.mem_append_right _ (List.mem_cons_of_mem v hu))
  · rw [take_succ_of_getD (by rw [hlen', List.length_set]; omega) rfl, htake, htext, hset,
      List.take_set_of_le (le_refl _)]

/-! ### What is written stays -/

theorem closeLoop_keeps {left j j' : ℕ} {argv' : List Word} (hn : nargc ≤ j)
    (hrun : closeLoop i nargc left j argv = some (j', u, argv')) :
    argv'.take nargc = argv.take nargc ∧ nargc ≤ j' := by
  induction left generalizing j argv with
  | zero =>
    rw [closeLoop, Option.some.injEq, Prod.mk.injEq, Prod.mk.injEq] at hrun
    obtain ⟨rfl, -, rfl⟩ := hrun
    exact ⟨rfl, hn⟩
  | succ left ih =>
    by_cases hw : closes (argv.getD j [])
    · rw [closeLoop_closes rfl hw, Option.some.injEq, Prod.mk.injEq, Prod.mk.injEq] at hrun
      obtain ⟨rfl, -, rfl⟩ := hrun
      refine ⟨?_, hn⟩
      split_ifs
      · rw [List.take_set_of_le (le_refl _), List.take_set_of_le hn]
      · rw [List.take_set_of_le hn]
    · by_cases hne : argv.getD j [] = []
      · rw [closeLoop] at hrun
        simp only [hne, if_true] at hrun
        cases hrun
      · rw [closeLoop_on rfl hne hw] at hrun
        obtain ⟨htake, hle⟩ := ih (by omega) hrun
        refine ⟨?_, hle⟩
        rw [htake]
        split_ifs
        · exact List.take_set_of_le (le_refl _)
        · rfl

/-- **The arguments that are written are never changed.** -/
theorem assemble_prefix (hn : nargc ≤ i)
    (hrun : assemble argc turns i nargc u argv = some (r, b)) : argv.take nargc <+: r := by
  induction turns generalizing i nargc u argv with
  | zero =>
    rw [assemble, Option.some.injEq, Prod.mk.injEq] at hrun
    exact hrun.1 ▸ List.prefix_refl _
  | succ turns ih =>
    rw [assemble] at hrun
    have hset (x : Word) : (argv.set nargc x).take nargc = argv.take nargc :=
      List.take_set_of_le (le_refl _)
    by_cases hlt : i < argc
    swap
    · rw [if_neg hlt, Option.some.injEq, Prod.mk.injEq] at hrun
      exact hrun.1 ▸ List.prefix_refl _
    rw [if_pos hlt] at hrun
    have hshorter (l : List Word) : l.take nargc <+: l.take (nargc + 1) :=
      List.take_prefix_take_left (by omega)
    simp only at hrun
    split_ifs at hrun with hhash hopen
    · rw [Option.some.injEq, Prod.mk.injEq] at hrun
      exact hrun.1 ▸ hset _ ▸ List.prefix_refl _
    · exact hset (argv.getD i []) ▸ (hshorter _).trans (ih (by omega) hrun)
    · rcases hclose : closeLoop i nargc (argc - i) i
        ((argv.set nargc (argv.getD i [])).set nargc (argv.getD i []).tail) with _ | ⟨j, u', argv'⟩
      · rw [hclose] at hrun
        cases hrun
      · rw [hclose] at hrun
        obtain ⟨htake, hle⟩ := closeLoop_keeps hn hclose
        rw [List.set_set, hset] at htake
        exact htake ▸ (hshorter _).trans (ih (by omega) hrun)

/-! ### Runs -/

/-- A turn is right if what it writes is the text of the group and the rest is right. -/
theorem writes_iff {g : Group} {j : ℕ} {P : Prop} (hw : Writes argc turns i nargc argv x j post)
    (ih : ∀ argv', At argc j (nargc + 1) post argv' →
      (assemble argc turns j (nargc + 1) false argv' =
        some (argv'.take (nargc + 1) ++ gs.map Group.text, false) ↔ P)) :
    assemble argc (turns + 1) i nargc false argv =
      some (argv.take nargc ++ (g :: gs).map Group.text, false) ↔ x = g.text ∧ P := by
  obtain ⟨argv', hstep, hat, htake⟩ := hw
  rw [hstep]
  by_cases hx : x = g.text
  · rw [← ih argv' hat, htake, List.map_cons, hx]
    simp
  · refine iff_of_false (fun hrun => hx ?_) fun h => hx h.1
    have hprefix := assemble_prefix hat.behind hrun
    rw [htake, List.map_cons, List.prefix_append_right_inj] at hprefix
    obtain ⟨t, ht⟩ := hprefix
    exact (List.cons.inj ht).1

/-- **What the condition says of the first group.** -/
theorem straight_cons {g : Group} :
    Straight (g :: gs) ↔
      ¬ g.lone ∧ Straight gs ∧ (g.several → ∀ g' ∈ gs, ¬ g'.single) := by
  simp only [Straight, List.forall_mem_cons, List.pairwise_cons, not_and]
  constructor
  · rintro ⟨⟨hg, hgs⟩, hlater, hpair⟩
    exact ⟨hg, ⟨hgs, hpair⟩, fun h g' hg' => hlater g' hg' h⟩
  · rintro ⟨hg, ⟨hgs, hpair⟩, hlater⟩
    exact ⟨⟨hg, hgs⟩, fun g' hg' h => hlater h g' hg', hpair⟩

/-- The condition at a turn: strings of one word are right as long as none of several came. -/
def StraightAt (i nargc : ℕ) (gs : List Group) : Prop :=
  Straight gs ∧ (nargc < i → ∀ g ∈ gs, ¬ g.single)

theorem straightAt_nil : StraightAt i nargc [] := by
  simp [StraightAt, Straight]

theorem straightAt_word :
    StraightAt (i + 1) (nargc + 1) gs ↔ StraightAt i nargc (.word w :: gs) := by
  simp [StraightAt, straight_cons, Group.lone, Group.several, Group.single]

theorem straightAt_single (hw : w ≠ [quote]) (hn : nargc ≤ i) :
    (nargc = i ∧ StraightAt (i + 1) (nargc + 1) gs) ↔ StraightAt i nargc (.quoted [w] :: gs) := by
  simp only [StraightAt, straight_cons, Group.lone, Group.several, List.head?_cons,
    Option.some.injEq, hw, not_false_eq_true, List.length_singleton, lt_self_iff_false,
    false_implies, and_true, true_and, List.forall_mem_cons, Group.single, not_true_eq_false,
    false_and, add_lt_add_iff_right]
  constructor
  · rintro ⟨rfl, hgs, -⟩
    exact ⟨hgs, lt_irrefl _⟩
  · rintro ⟨hgs, hlt⟩
    exact ⟨le_antisymm hn (not_lt.mp hlt), hgs, fun h => absurd h hlt⟩

theorem straightAt_several {j : ℕ} {v : Word} {vs : List Word} (hw : w ≠ [quote])
    (hj : nargc + 1 < j) :
    StraightAt j (nargc + 1) gs ↔ StraightAt i nargc (.quoted (w :: v :: vs) :: gs) := by
  have hseveral : (Group.quoted (w :: v :: vs)).several := by
    simp [Group.several]
  have hsingle : ¬ (Group.quoted (w :: v :: vs)).single := by
    simp [Group.single]
  have hlone : ¬ (Group.quoted (w :: v :: vs)).lone := by
    simpa [Group.lone] using hw
  rw [StraightAt, StraightAt, straight_cons]
  constructor
  · rintro ⟨hgs, hnone⟩
    refine ⟨⟨hlone, hgs, fun _ => hnone hj⟩, fun _ g hg => ?_⟩
    rcases List.mem_cons.mp hg with rfl | hg
    · exact hsingle
    · exact hnone hj g hg
  · rintro ⟨⟨-, hgs, hnone⟩, -⟩
    exact ⟨hgs, fun _ => hnone hseveral⟩

/-- The closing quote of a string of one word is gone only where it is taken off what is written. -/
theorem text_single_iff (htail : w.tail ≠ []) :
    (if nargc = i then w.tail.dropLast else w.tail) = (Group.quoted [w]).text ↔ nargc = i := by
  rw [Group.text, List.intercalate_singleton]
  split_ifs with h
  · exact iff_of_true rfl h
  · refine iff_of_false (fun heq => ?_) h
    have hlen := congrArg List.length heq
    have hpos := List.length_pos_iff.mpr htail
    rw [List.length_dropLast] at hlen
    omega

/-- **A quote that is a word** closes itself, or the loop reads in front of what is left of it. -/
theorem lone_not_joined {pre rest : List Word} {v : Word}
    (hat : At argc i nargc ([quote] :: rest) argv) (hv : closes v) :
    assemble argc (turns + 1) i nargc false argv ≠
      some (argv.take nargc ++
        (Group.quoted ([quote] :: (pre ++ [v])) :: gs).map Group.text, false) := by
  intro hrun
  obtain ⟨hw, -, hlt, -⟩ := hat.next
  have hopen : opens [quote] := rfl
  rcases eq_or_ne nargc i with rfl | hni
  · have hread := getD_set_tail hat
    obtain ⟨left, hleft⟩ : ∃ k, argc - nargc = k + 1 := ⟨argc - nargc - 1, by omega⟩
    rw [if_pos rfl, List.tail_cons] at hread
    rw [assemble_quote hw hlt hopen, hleft, closeLoop] at hrun
    simp only [List.tail_cons, hread, if_true] at hrun
    cases hrun
  · have hclose : closes (if nargc = i then ([quote] : Word).tail else [quote]) := by
      rw [if_neg hni]
      rfl
    have hwrites : Writes argc turns i nargc argv _ _ _ := writes_closed hat hopen hclose
    obtain ⟨argv', hstep, hat', htake⟩ := hwrites
    rw [hstep] at hrun
    have hprefix := assemble_prefix hat'.behind hrun
    rw [htake, List.map_cons, List.prefix_append_right_inj] at hprefix
    obtain ⟨t, ht⟩ := hprefix
    have htext := (List.cons.inj ht).1
    rw [if_neg hni, List.tail_cons, text_several hv] at htext
    have hlen := congrArg List.length htext
    simp at hlen

/-- **The loop gives the texts of the groups** exactly under the condition. -/
theorem assemble_iff (hat : At argc i nargc ws argv) (hgs : groups none ws = some gs)
    (hturns : ws.length ≤ turns) :
    assemble argc turns i nargc false argv =
      some (argv.take nargc ++ gs.map Group.text, false) ↔ StraightAt i nargc gs := by
  induction turns generalizing i nargc ws argv gs with
  | zero =>
    obtain rfl : ws = [] := List.eq_nil_of_length_eq_zero (by omega)
    obtain rfl := Option.some.inj hgs
    simp [assemble, straightAt_nil]
  | succ turns ih =>
    rcases ws with _ | ⟨w, ws⟩
    · -- no word is left
      obtain rfl := Option.some.inj hgs
      have hge : ¬ i < argc := by
        have hdrop := List.drop_eq_nil_iff.mp hat.rest
        have hlen := hat.length
        omega
      rw [assemble, if_neg hge]
      simp [straightAt_nil]
    obtain ⟨hw, -, hlt, -⟩ := hat.next
    have hbehind := hat.behind
    rw [List.length_cons] at hturns
    rw [groups] at hgs
    by_cases hhash : w.head? = some hash
    · rw [if_pos hhash] at hgs
      obtain rfl := Option.some.inj hgs
      rw [assemble, if_pos hlt]
      simp only [hw, hhash, if_true, List.take_set_of_le (le_refl nargc)]
      simp [straightAt_nil]
    rw [if_neg hhash] at hgs
    by_cases hopen : opens w
    swap
    · rw [if_pos hopen] at hgs
      obtain ⟨rest, hrest, rfl⟩ := Option.map_eq_some_iff.mp hgs
      rw [writes_iff (writes_word hat hhash hopen) fun argv' hat' => ih hat' hrest (by omega),
        ← straightAt_word]
      simp [Group.text]
    rw [if_neg (not_not.mpr hopen)] at hgs
    by_cases hself : closesItself w
    · -- the string is this word
      rw [if_pos hself] at hgs
      obtain ⟨rest, hrest, rfl⟩ := Option.map_eq_some_iff.mp hgs
      have hclose : closes (if nargc = i then w.tail else w) :=
        (closes_read_iff hopen hself.1).mpr hself.2
      rw [writes_iff (writes_closed hat hopen hclose) fun argv' hat' => ih hat' hrest (by omega),
        text_single_iff (tail_ne_nil hopen hself.1), straightAt_single hself.1 hbehind]
    rw [if_neg hself] at hgs
    obtain ⟨pre, v, post, rest, rfl, hpre, hv, hrest, rfl⟩ := groups_open hgs
    rw [List.length_append, List.length_cons] at hturns
    by_cases hlone : w = [quote]
    · subst hlone
      have hnot : ¬ StraightAt i nargc (.quoted ([[quote]] ++ pre ++ [v]) :: rest) := by
        rintro ⟨hgs, -⟩
        exact (straight_cons.mp hgs).1 (by simp [Group.lone])
      exact iff_of_false (lone_not_joined hat hv) hnot
    · have hnclose : ¬ closes w := fun h => hself ⟨hlone, h⟩
      have htext : w.tail ++ (pre ++ [v.dropLast]).flatMap (blank :: ·) =
          (Group.quoted ([w] ++ pre ++ [v])).text := by
        conv_rhs => rw [eq_quote_cons hopen]
        exact (text_several hv).symm
      have hstraight : StraightAt (i + pre.length + 2) (nargc + 1) rest ↔
          StraightAt i nargc (.quoted ([w] ++ pre ++ [v]) :: rest) := by
        rcases pre with _ | ⟨p, pre⟩
        · exact straightAt_several hlone (by omega)
        · exact straightAt_several hlone (by omega)
      rw [writes_iff (writes_several hat hopen hlone hnclose hpre hv)
        fun argv' hat' => ih hat' hrest (by omega), hstraight]
      exact and_iff_right htext

end Assemble

/-! ### The line -/

/-- **The tokenizer is right** on a line whose strings are closed exactly if no string of one word
comes after a string of several and none starts with a quote that is a word. -/
theorem tokenize_iff {line : List Byte} (hcount : (fields isBlank line).length < 1023)
    (hclosed : Closed (fields isBlank line)) :
    ∃ gs, groups none (fields isBlank line) = some gs ∧
      (tokenize line = some (gs.map Group.text, false) ↔ Straight gs) := by
  obtain ⟨gs, hgs⟩ := Option.isSome_iff_exists.mp (groups_isSome hclosed)
  have hwords : strtokLoop isBlank (maxargs - 1) line = fields isBlank line := by
    rw [strtokLoop_eq, List.take_of_length_le]
    simp only [maxargs]
    omega
  have hat : At (fields isBlank line).length 0 0 (fields isBlank line) (fields isBlank line) :=
    ⟨rfl, rfl, le_refl _, fun w hw => ne_nil_of_mem_fields hw⟩
  refine ⟨gs, hgs, ?_⟩
  have hrun := assemble_iff hat hgs (le_refl _)
  rw [List.take_zero, List.nil_append] at hrun
  rw [tokenize, hwords, hrun]
  simp [StraightAt]

/-- `get "a b" c # d` -/
def quotedLine : List Byte :=
  [103, 101, 116, 32, 34, 97, 32, 32, 98, 34, 32, 99, 32, 35, 32, 100]

theorem quotedLine_tokens : ∃ gs, groups none (fields isBlank quotedLine) = some gs ∧
    (tokenize quotedLine = some (gs.map Group.text, false) ↔ Straight gs) :=
  tokenize_iff (by decide +kernel) (by decide +kernel)

/-- `"a b" "c"` -/
def twoStrings : List Byte := [34, 97, 32, 98, 34, 32, 34, 99, 34]

theorem twoStrings_quote_kept :
    (fields isBlank twoStrings).length < 1023 ∧ Closed (fields isBlank twoStrings) ∧
      (groups none (fields isBlank twoStrings)).map (List.map Group.text) =
        some [[97, 32, 98], [99]] ∧
      tokenize twoStrings = some ([[97, 32, 98], [99, 34]], false) := by
  decide +kernel

end Libkinetic.Toolbox.Tokens
