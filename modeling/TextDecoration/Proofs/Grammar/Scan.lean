import TextDecoration.Grammar.Tokenize
import TextDecoration.Proofs.Token.Literal

/-!
# The scan of a fragment

A rule's scan of a fragment finds a token, leaves what stands before it plain, and goes on behind
it. `Scan` describes such a course without a bound on its length. A way of finding that only
reports stretches inside the text that are not empty follows such a course to its end, so the
number of characters is a sufficient bound. Laws about splitting are proved by induction on the
course: one case for the last rest, in which nothing is found, and one for a hit.
-/

namespace TextDecoration

/-- What is found is not empty and lies in the text that is left. This is all that splitting needs
of a search. -/
def Productive (find : List Char → Option Hit) : Prop :=
  ∀ rest hit, find rest = some hit → hit.start < hit.stop ∧ hit.stop ≤ rest.length

/-- The course of a scan from the text that is left to the tokens it becomes. Positions in a hit
count from where that text begins. -/
inductive Scan (find : List Char → Option Hit) (classify : Classify) :
    List Char → List Token → Prop where
  | missed {rest : List Char} (nothing : find rest = none) :
      Scan find classify rest (plainToken rest)
  | found {rest : List Char} {hit : Hit} {tokens : List Token} (found : find rest = some hit)
      (later : Scan find classify (rest.drop hit.stop) tokens) :
      Scan find classify rest
        (plainToken (rest.take hit.start) ++
          classify (String.ofList (slice rest hit.start hit.stop)) :: tokens)

/-- With at least as many steps as characters, splitting follows a scan to its end. A hit uses up
one step and at least one character. -/
theorem splitWithin_scan {find : List Char → Option Hit} (productive : Productive find)
    (classify : Classify) (count : Nat) (rest : List Char) (enough : rest.length ≤ count) :
    Scan find classify rest (splitWithin find classify count rest) := by
  induction count generalizing rest with
  | zero =>
    have empty : rest = [] := List.eq_nil_of_length_eq_zero (Nat.le_zero.mp enough)
    refine Scan.missed ?_
    cases searched : find rest with
    | none => rfl
    | some hit =>
      have bounds := productive rest hit searched
      rw [empty, List.length_nil] at bounds
      omega
  | succ count inductionHypothesis =>
    cases searched : find rest with
    | none =>
      have stopped : splitWithin find classify (count + 1) rest = plainToken rest := by
        rw [splitWithin, searched]
      rw [stopped]
      exact Scan.missed searched
    | some hit =>
      have bounds := productive rest hit searched
      have shorter : (rest.drop hit.stop).length ≤ count := by
        rw [List.length_drop]
        omega
      have continued : splitWithin find classify (count + 1) rest =
          plainToken (rest.take hit.start) ++
            classify (String.ofList (slice rest hit.start hit.stop)) ::
              splitWithin find classify count (rest.drop hit.stop) := by
        rw [splitWithin, searched]
      rw [continued]
      exact Scan.found searched (inductionHypothesis (rest.drop hit.stop) shorter)

/-- Splitting a fragment is a scan of it, since a fragment has as many steps as characters.
Inductions on splitting are inductions on the scan. -/
theorem split_scan {find : List Char → Option Hit} (productive : Productive find)
    (classify : Classify) (fragment : String) :
    Scan find classify fragment.toList (split find classify fragment) := by
  have enough : fragment.toList.length ≤ fragment.length := Nat.le_of_eq String.length_toList
  exact splitWithin_scan productive classify fragment.length fragment.toList enough

/-- A fragment in which nothing is found stays plain, or becomes nothing if it is empty. -/
theorem split_missed {find : List Char → Option Hit} {fragment : String}
    (nothing : find fragment.toList = none) (classify : Classify) :
    split find classify fragment = plainToken fragment.toList := by
  rw [split]
  cases fragment.length with
  | zero => rw [splitWithin]
  | succ count => rw [splitWithin, nothing]

/-- A fragment that is found as a whole becomes one token. Behind it there is nothing left in which
something could be found. -/
theorem split_whole {find : List Char → Option Hit} (productive : Productive find) {hit : Hit}
    {fragment : String} (found : find fragment.toList = some hit) (first : hit.start = 0)
    (last : hit.stop = fragment.length) (classify : Classify) :
    split find classify fragment = [classify fragment] := by
  have whole : slice fragment.toList 0 fragment.length = fragment.toList := by
    rw [slice, List.drop_zero, Nat.sub_zero, ← String.length_toList, List.take_length]
  have behind : fragment.toList.drop fragment.length = [] := by
    rw [← String.length_toList, List.drop_length]
  generalize parts : split find classify fragment = tokens
  have scan : Scan find classify fragment.toList tokens :=
    parts ▸ split_scan productive classify fragment
  cases scan with
  | missed nothing =>
    rw [found] at nothing
    cases nothing
  | found again later =>
    cases Option.some.inj (found.symm.trans again)
    rw [last, behind] at later
    rw [first, last, whole, String.ofList_toList]
    cases later with
    | missed nothing => rfl
    | found more further =>
      have bounds := productive [] _ more
      rw [List.length_nil] at bounds
      omega

/-- A plain token holds the text it is made for; the empty text makes none. -/
@[simp] theorem literals_plainToken (cs : List Char) :
    Token.literals (plainToken cs) = String.ofList cs := by
  cases cs with
  | nil => rfl
  | cons c cs => simp [plainToken]

/-- A scan loses nothing: the tokens that it makes are made of the text that was left, provided
that a token holds the text it was made for. -/
theorem Scan.literals {find : List Char → Option Hit} {classify : Classify} {rest : List Char}
    {tokens : List Token} (productive : Productive find)
    (kept : ∀ matched, (classify matched).literal = matched)
    (scan : Scan find classify rest tokens) : Token.literals tokens = String.ofList rest := by
  induction scan with
  | missed nothing => exact literals_plainToken _
  | @found rest hit tokens searched later inductionHypothesis =>
    have bounds := productive rest hit searched
    calc Token.literals (plainToken (rest.take hit.start) ++
          classify (String.ofList (slice rest hit.start hit.stop)) :: tokens)
        = String.ofList
            (rest.take hit.start ++ slice rest hit.start hit.stop ++ rest.drop hit.stop) := by
          simp [kept, inductionHypothesis, String.ofList_append]
      _ = String.ofList rest := by rw [take_slice_drop rest (Nat.le_of_lt bounds.1)]

end TextDecoration
