import Stencil.Proofs.Token.Merge
import Stencil.Proofs.Token.Unparse

/-!
# Runs of question marks

Where a text has placeholders can be told from its runs of question marks: every two marks of a
run are an escape, so a run of odd length has one left at its end, and that one is a placeholder.
`runs` lists the maximal runs, and `runs_escape` says what happens to a run when an escape is read
off it; what a scan finds is derived from that by following the rules of the language.
-/

namespace Stencil.Token

/-- Whether a character is a question mark. -/
def isQuestion (c : Char) : Bool := c == '?'

theorem isQuestion_iff {c : Char} : isQuestion c = true ↔ c = '?' := beq_iff_eq

theorem isQuestion_eq_false_iff {c : Char} : isQuestion c = false ↔ c ≠ '?' := beq_eq_false_iff_ne

/-- A run of question marks, with the text in front of it and the text behind it. -/
@[ext]
structure Run where
  before : List Char
  length : Nat
  after : List Char

/-- Whether a text is empty or starts with a character that cannot stand in a name. -/
def noNameAt (cs : List Char) : Bool := cs.head?.all fun c => !isNameChar c

namespace Run

/-- The run is a piece of the text, and no longer run contains it. -/
structure MaximalIn (r : Run) (cs : List Char) : Prop where
  text_eq : r.before ++ (List.replicate r.length '?' ++ r.after) = cs
  length_pos : 0 < r.length
  before_ends : ∀ c ∈ r.before.getLast?, c ≠ '?'
  after_starts : ∀ c ∈ r.after.head?, c ≠ '?'

/-- Whether a question mark is left over when those of a run are taken in twos. -/
def isOdd (r : Run) : Bool := r.length % 2 == 1

/-- How many times one can take two question marks off a run, or one where only one is left. -/
def halves (r : Run) : Nat := (r.length + 1) / 2

/-- The text in front of the last question mark of a run. -/
def upToLast (r : Run) : List Char := r.before ++ List.replicate (r.length - 1) '?'

/-- The name characters that directly follow a run, as many as there are. -/
def name (r : Run) : List Char := r.after.takeWhile isNameChar

/-- Whether a run is of odd length and at the end of the text or in front of a character that
cannot stand in a name. -/
def isNameless (r : Run) : Bool := r.isOdd && noNameAt r.after

end Run

/-- The runs are all maximal runs of a text, from left to right. -/
structure RunsOf (cs : List Char) (rs : List Run) : Prop where
  mem_iff : ∀ r, r ∈ rs ↔ r.MaximalIn cs
  ordered : rs.Pairwise fun r s => r.before.length < s.before.length

/-- The maximal runs of a text that stands behind the text `before`. -/
def runs (before : List Char) : List Char → List Run
  | [] => []
  | c :: rest =>
    if c = '?' then
      let more := rest.takeWhile isQuestion
      ⟨before, more.length + 1, rest.dropWhile isQuestion⟩ ::
        runs (before ++ c :: more) (rest.dropWhile isQuestion)
    else runs (before ++ [c]) rest
termination_by cs => cs.length
decreasing_by
  · exact length_dropWhile_lt isQuestion c rest
  · simp

theorem takeWhile_question (cs : List Char) :
    cs.takeWhile isQuestion = List.replicate (cs.takeWhile isQuestion).length '?' := by
  rw [List.eq_replicate_iff]
  refine ⟨rfl, ?_⟩
  intro c mem
  exact isQuestion_iff.1 (List.mem_takeWhile_imp mem)

theorem ne_question_of_mem_head?_dropWhile {cs : List Char} :
    ∀ c ∈ (cs.dropWhile isQuestion).head?, c ≠ '?' := fun _ hc =>
  isQuestion_eq_false_iff.1 (eq_false_of_mem_head?_dropWhile hc)

namespace Run.MaximalIn

variable {cs : List Char} {r s : Run}

/-- A maximal run is determined by where it begins. -/
theorem eq_of_length_eq (hr : r.MaximalIn cs) (hs : s.MaximalIn cs)
    (same : r.before.length = s.before.length) : r = s := by
  obtain ⟨hbefore, hrest⟩ := List.append_inj (hr.text_eq.trans hs.text_eq.symm) same
  have marks (n : Nat) : ∀ c ∈ List.replicate n '?', isQuestion c = true := by
    intro c mem
    exact isQuestion_iff.2 (List.eq_of_mem_replicate mem)
  have stops {q : Run} (hq : q.MaximalIn cs) : ∀ c ∈ q.after.head?, isQuestion c = false := by
    intro c hc
    exact isQuestion_eq_false_iff.2 (hq.after_starts c hc)
  obtain ⟨takenR, leftR⟩ := takeWhile_append_of_head? (marks r.length) (stops hr)
  obtain ⟨takenS, leftS⟩ := takeWhile_append_of_head? (marks s.length) (stops hs)
  rw [hrest, takenS] at takenR
  rw [hrest, leftS] at leftR
  have hlength : s.length = r.length := by simpa using congrArg List.length takenR
  exact Run.ext hbefore hlength.symm leftR.symm

/-- Of two maximal runs of a text the one that begins first ends before the other begins. -/
theorem add_length_le_of_lt (hr : r.MaximalIn cs) (hs : s.MaximalIn cs)
    (lt : s.before.length < r.before.length) : s.before.length + s.length ≤ r.before.length := by
  have both := hr.text_eq.trans hs.text_eq.symm
  have shorter : s.before <+: r.before :=
    List.prefix_of_prefix_length_le ⟨_, rfl⟩ ⟨_, both⟩ (Nat.le_of_lt lt)
  obtain ⟨mid, hmid⟩ := shorter
  -- Otherwise what stands before the one run would end in question marks of the other.
  by_contra! overlap
  rw [← hmid, List.append_assoc] at both
  have hrest := List.append_cancel_left both
  have lengths : r.before.length = s.before.length + mid.length := by simp [← hmid]
  have short : mid.length ≤ s.length := by omega
  have marks : mid = List.replicate mid.length '?' := by
    have := congrArg (List.take mid.length) hrest
    rw [List.take_left, List.take_append_of_le_length (by simpa using short),
      List.take_replicate, Nat.min_eq_left short] at this
    exact this
  have last : r.before.getLast? = some '?' := by
    rw [← hmid, marks, List.getLast?_append, List.getLast?_replicate, if_neg (by omega)]
    rfl
  exact hr.before_ends '?' last rfl

/-- No run begins where there is another character. -/
theorem length_before_ne {before rest : List Char} {c : Char}
    (hr : r.MaximalIn (before ++ c :: rest)) (notMark : c ≠ '?') :
    r.before.length ≠ before.length := by
  intro same
  obtain ⟨-, hrest⟩ := List.append_inj hr.text_eq same
  obtain ⟨n, hn⟩ := Nat.exists_eq_add_of_lt hr.length_pos
  rw [hn, Nat.zero_add, List.replicate_succ, List.cons_append] at hrest
  exact notMark (List.cons.inj hrest).1.symm

end Run.MaximalIn

/-- Question marks behind a text that ends in none make a maximal run. -/
theorem maximalIn_leading {before : List Char} (border : ∀ c ∈ before.getLast?, c ≠ '?')
    (rest : List Char) :
    Run.MaximalIn ⟨before, (rest.takeWhile isQuestion).length + 1, rest.dropWhile isQuestion⟩
      (before ++ '?' :: rest) := by
  refine ⟨?_, Nat.succ_pos _, border, ne_question_of_mem_head?_dropWhile⟩
  rw [List.replicate_succ, ← takeWhile_question, List.cons_append,
    List.takeWhile_append_dropWhile]

/-- The runs are those maximal runs that begin in the second part of the text, if no run crosses the
border between the parts. -/
theorem mem_runs_iff {before cs : List Char}
    (border : (∀ c ∈ before.getLast?, c ≠ '?') ∨ ∀ c ∈ cs.head?, c ≠ '?') (r : Run) :
    r ∈ runs before cs ↔ r.MaximalIn (before ++ cs) ∧ before.length ≤ r.before.length := by
  fun_induction runs before cs with
  | case1 before =>
    constructor
    · nofun
    · rintro ⟨maximal, le⟩
      have pos := maximal.length_pos
      have lengths := congrArg List.length maximal.text_eq
      simp only [List.length_append, List.length_replicate, List.append_nil] at lengths
      omega
  | case2 before rest more ih =>
    have again : before ++ '?' :: rest =
        (before ++ '?' :: more) ++ rest.dropWhile isQuestion := by
      simp [more]
    have first := maximalIn_leading (border.resolve_right fun h => h '?' rfl rfl) rest
    rw [List.mem_cons, ih (.inr ne_question_of_mem_head?_dropWhile), ← again]
    constructor
    · rintro (rfl | ⟨maximal, le⟩)
      · exact ⟨first, Nat.le_refl _⟩
      · refine ⟨maximal, ?_⟩
        rw [List.length_append] at le
        omega
    · rintro ⟨maximal, le⟩
      rcases Nat.eq_or_lt_of_le le with same | lt
      · exact .inl (maximal.eq_of_length_eq first same.symm)
      · refine .inr ⟨maximal, ?_⟩
        simpa using maximal.add_length_le_of_lt first lt
  | case3 before c rest notMark ih =>
    have border' : ∀ d ∈ (before ++ [c]).getLast?, d ≠ '?' := by simpa using notMark
    rw [ih (.inl border'), List.append_assoc, List.singleton_append, List.length_append]
    constructor
    · rintro ⟨maximal, le⟩
      exact ⟨maximal, Nat.le_of_succ_le le⟩
    · rintro ⟨maximal, le⟩
      have different := maximal.length_before_ne notMark
      refine ⟨maximal, ?_⟩
      rw [List.length_singleton]
      omega

theorem pairwise_runs (before cs : List Char) :
    (runs before cs).Pairwise fun r s => r.before.length < s.before.length := by
  fun_induction runs before cs with
  | case1 => exact .nil
  | case2 before rest more ih =>
    refine List.pairwise_cons.2 ⟨?_, ih⟩
    intro r mem
    have le := ((mem_runs_iff (.inr ne_question_of_mem_head?_dropWhile) r).1 mem).2
    simp only [List.length_append, List.length_cons] at le
    show before.length < r.before.length
    omega
  | case3 before c rest notMark ih => exact ih

/-- The runs are all maximal runs of the text. -/
theorem runsOf_runs (cs : List Char) : RunsOf cs (runs [] cs) := by
  refine ⟨?_, pairwise_runs [] cs⟩
  intro r
  have nothing : ∀ c ∈ ([] : List Char).getLast?, c ≠ '?' := nofun
  rw [mem_runs_iff (.inl nothing)]
  exact and_iff_left (Nat.zero_le _)

/-! ## Taking a text apart from the left -/

theorem runs_append {cs : List Char} (noQuestion : '?' ∉ cs) (before rest : List Char) :
    runs before (cs ++ rest) = runs (before ++ cs) rest := by
  induction cs generalizing before with
  | nil => simp
  | cons c cs ih =>
    rw [List.mem_cons, not_or] at noQuestion
    rw [List.cons_append, runs, if_neg (Ne.symm noQuestion.1), ih noQuestion.2, List.append_assoc,
      List.singleton_append]

/-- A question mark that no other follows is a run of its own, if none precedes it. -/
theorem runs_alone {rest : List Char} (alone : ∀ more, rest ≠ '?' :: more) (before : List Char) :
    runs before ('?' :: rest) = ⟨before, 1, rest⟩ :: runs (before ++ ['?']) rest := by
  rw [runs, if_pos rfl]
  cases rest with
  | nil => rfl
  | cons c rest =>
    have notMark : ¬ isQuestion c = true := fun h => alone rest (by rw [isQuestion_iff.1 h])
    rw [List.takeWhile_cons_of_neg notMark, List.dropWhile_cons_of_neg notMark]
    rfl

/-- An escape takes two question marks off the run that begins with it, or the whole run. What
holds of the runs behind it therefore decides what holds with it, if a run counts for the same when
it is two shorter. -/
theorem runs_escape {α : Sort _} {f : List Run → α} {g : α → α}
    (pair : ∀ before after rs, f (⟨before, 2, after⟩ :: rs) = g (f rs))
    (longer : ∀ before n after rs,
      f (⟨before, n + 3, after⟩ :: rs) = g (f (⟨before ++ ['?', '?'], n + 1, after⟩ :: rs)))
    (before rest : List Char) :
    f (runs before ('?' :: '?' :: rest)) = g (f (runs (before ++ ['?', '?']) rest)) := by
  have mark : isQuestion '?' = true := rfl
  rw [runs, if_pos rfl, List.takeWhile_cons_of_pos mark, List.dropWhile_cons_of_pos mark]
  cases rest with
  | nil => simpa using pair before [] _
  | cons c rest =>
    by_cases hc : c = '?'
    · subst hc
      rw [List.takeWhile_cons_of_pos mark, List.dropWhile_cons_of_pos mark, runs, if_pos rfl]
      simpa using longer before _ _ _
    · have notMark : ¬ isQuestion c = true := fun h => hc (isQuestion_iff.1 h)
      rw [List.takeWhile_cons_of_neg notMark, List.dropWhile_cons_of_neg notMark]
      exact pair before (c :: rest) _

/-- Behind a placeholder the name that belongs to it has no runs. -/
theorem runs_name (before rest : List Char) : runs before rest =
    runs (before ++ rest.takeWhile isNameChar) (rest.dropWhile isNameChar) := by
  rw [← runs_append (notMem_takeWhile_isNameChar rest), List.takeWhile_append_dropWhile]

theorem runs_literal {c : Char} (literal : c ≠ '?') (before rest : List Char) :
    runs before (c :: rest) =
      runs (before ++ c :: rest.takeWhile isLiteral) (rest.dropWhile isLiteral) := by
  rw [← runs_append (notMem_cons_takeWhile_isLiteral literal rest), List.cons_append,
    List.takeWhile_append_dropWhile]

end Stencil.Token
