import TextDecoration.Proofs.Grammar.ByteSearch
import TextDecoration.Proofs.Grammar.FirstToken
import TextDecoration.Proofs.Grammar.Passes

/-!
# Cutting a text by bytes

An engine that counts bytes and one that counts characters agree on a rule if the one reports in
bytes the tokens that the other reports in characters. Every sound engine has such a counterpart on
the other side; only where a rule's first group is context does the group have to end between
characters. Between counterparts, to find a token by bytes is to find it by characters, search for
search, and to split a fragment by bytes is to split it by characters.

A fragment is split by bytes with three slices for every token found: what stands before it, the
token's own text, and what is left. `splitBytesWithin` is done only if every slice is there. All of
them are, and no more than one search for a token more is made than the fragment has characters.
-/

namespace TextDecoration

/-- A fit with its positions counted in the bytes of the text, the group's end included. -/
def Pattern.Fit.inBytes (cs : List Char) (fit : Pattern.Fit) : Pattern.Fit where
  start := Text.byteOffset cs fit.start
  stop := Text.byteOffset cs fit.stop
  groupStop := fit.groupStop.map (Text.byteOffset cs)

/-- The token of a fit is the same in bytes as in characters, empty or not. Counting bytes keeps the
order of positions, and a token is made by comparing them. -/
theorem Pattern.Fit.hit_inBytes (cs : List Char) (lookbehind : Bool) (fit : Pattern.Fit) :
    (fit.inBytes cs).hit lookbehind = (fit.hit lookbehind).inBytes cs := by
  cases lookbehind with
  | false => rfl
  | true =>
    obtain ⟨start, stop, groupStop⟩ := fit
    cases groupStop <;> simp [hit, inBytes, Hit.inBytes, Text.max_byteOffset]

/-- A token that ends in the text is as much or as little empty in bytes as it is in characters,
since every character has a byte. -/
theorem Hit.inBytes_filled_iff {cs : List Char} {hit : Hit} (inside : hit.stop ≤ cs.length) :
    (hit.inBytes cs).start < (hit.inBytes cs).stop ↔ hit.start < hit.stop := by
  constructor
  · intro filled
    by_contra empty
    exact Nat.not_le.mpr filled (Text.byteOffset_mono cs (Nat.le_of_not_lt empty))
  · exact fun filled => Text.byteOffset_lt filled inside

namespace ByteEngine

/-- One engine reports in bytes the tokens that another one reports in characters, wherever a
pattern is searched for. -/
def Counts (bytes : ByteEngine) (engine : Engine) (pattern : Pattern) (lookbehind : Bool) : Prop :=
  ∀ (cs : List Char) (before : Nat), before ≤ cs.length →
    (bytes pattern cs (Text.byteOffset cs before)).map (Pattern.Fit.hit lookbehind) =
      (engine pattern cs.toArray before).map fun fit => (fit.hit lookbehind).inBytes cs

/-- The first group of a pattern ends between characters, wherever that is. Soundness does not say
so: it only speaks of the fit. -/
def Grouped (bytes : ByteEngine) (pattern : Pattern) : Prop :=
  ∀ ⦃cs : List Char⦄ ⦃position groupStop : Nat⦄ ⦃fit : Pattern.Fit⦄,
    Text.IsBoundary cs position → bytes pattern cs position = some fit →
      fit.groupStop = some groupStop → Text.IsBoundary cs groupStop

section Counts

variable {bytes : ByteEngine} {engine : Engine} {pattern : Pattern} {lookbehind : Bool}
  {cs : List Char} {before : Nat}

/-- Where nothing fits by characters, nothing fits by bytes, from the same place between
characters. -/
theorem Counts.missed (counts : bytes.Counts engine pattern lookbehind)
    (inside : before ≤ cs.length)
    (nothing : engine pattern cs.toArray before = none) :
    bytes pattern cs (Text.byteOffset cs before) = none := by
  have same := counts cs before inside
  rw [nothing] at same
  exact Option.map_eq_none_iff.mp same

/-- Where something fits by characters, something fits by bytes, and its token is the same. The fits
themselves may differ in where a group ends that is no context. -/
theorem Counts.located (counts : bytes.Counts engine pattern lookbehind)
    (inside : before ≤ cs.length) {fit : Pattern.Fit}
    (located : engine pattern cs.toArray before = some fit) :
    ∃ own, bytes pattern cs (Text.byteOffset cs before) = some own ∧
      own.hit lookbehind = (fit.hit lookbehind).inBytes cs := by
  have same := counts cs before inside
  rw [located] at same
  exact Option.map_eq_some_iff.mp same

/-- Along a course of searches by characters, finding a token by bytes searches from the same places
and finds the same. -/
theorem Counts.findWithin_course (counts : bytes.Counts engine pattern lookbehind)
    (sound : engine.Sound) {searches : List Nat} {found : Option Hit}
    (course : Engine.Course engine pattern lookbehind cs.toArray before searches found)
    (inside : before ≤ cs.length) {count : Nat} (enough : cs.length - before < count) :
    bytes.findWithin pattern lookbehind cs count (Text.byteOffset cs before) =
      some (searches.map (Text.byteOffset cs), found.map (Hit.inBytes cs)) := by
  induction course generalizing count with
  | @missed position nothing =>
    obtain ⟨count, rfl⟩ := Nat.exists_eq_add_one_of_ne_zero (Nat.ne_zero_of_lt enough)
    exact findWithin_missed (counts.missed inside nothing)
  | @found position fit located filled =>
    obtain ⟨count, rfl⟩ := Nat.exists_eq_add_one_of_ne_zero (Nat.ne_zero_of_lt enough)
    obtain ⟨own, reported, same⟩ := counts.located inside located
    have stands : (own.hit lookbehind).start < (own.hit lookbehind).stop := by
      rw [same]
      exact (Hit.inBytes_filled_iff (sound.within inside located)).mpr filled
    rw [findWithin_found reported stands, same]
    rfl
  | @atEnd position fit located idle last =>
    obtain ⟨count, rfl⟩ := Nat.exists_eq_add_one_of_ne_zero (Nat.ne_zero_of_lt enough)
    obtain ⟨own, reported, same⟩ := counts.located inside located
    have within : fit.stop ≤ cs.length := sound.within inside located
    have empty : ¬(own.hit lookbehind).start < (own.hit lookbehind).stop := by
      rw [same]
      exact mt (Hit.inBytes_filled_iff within).mp idle
    have ends : own.stop = Text.byteOffset cs fit.stop := congrArg Hit.stop same
    have reached : max fit.stop position = cs.length := by
      rw [List.size_toArray] at last
      omega
    refine findWithin_atEnd reported empty ?_
    rw [ends, Text.max_byteOffset, reached]
  | @onward position fit searches found located idle further later inductionHypothesis =>
    obtain ⟨count, rfl⟩ := Nat.exists_eq_add_one_of_ne_zero (Nat.ne_zero_of_lt enough)
    rw [List.size_toArray] at further
    obtain ⟨own, reported, same⟩ := counts.located inside located
    have empty : ¬(own.hit lookbehind).start < (own.hit lookbehind).stop := by
      rw [same]
      exact mt (Hit.inBytes_filled_iff (sound.within inside located)).mp idle
    have ends : own.stop = Text.byteOffset cs fit.stop := congrArg Hit.stop same
    have reached : max own.stop (Text.byteOffset cs position) =
        Text.byteOffset cs (max fit.stop position) := by
      rw [ends, Text.max_byteOffset]
    have shorter : cs.length - (max fit.stop position + 1) < count := by omega
    rw [findWithin_onward reported empty reached further, inductionHypothesis further shorter]
    rfl

/-- To find a token by bytes is to find it by characters, with the same searches: both follow the
one course that there is. -/
theorem Counts.find_eq (counts : bytes.Counts engine pattern lookbehind) (sound : engine.Sound)
    (inside : before ≤ cs.length) :
    bytes.find pattern lookbehind cs (Text.byteOffset cs before) =
      some ((engine.searches pattern lookbehind cs.toArray before).map (Text.byteOffset cs),
        (engine.find pattern lookbehind cs.toArray before).map (Hit.inBytes cs)) :=
  counts.findWithin_course sound (Engine.find_course inside) inside (by omega)

end Counts

end ByteEngine

/-- An engine with its offsets counted in bytes. From inside a character it finds nothing. -/
def Engine.inBytes (engine : Engine) : ByteEngine := fun pattern cs position =>
  (Text.charOffset? cs position).bind fun before =>
    (engine pattern cs.toArray before).map (Pattern.Fit.inBytes cs)

/-- From between characters the engine with its offsets in bytes reports in bytes what the engine
reports in characters. -/
theorem Engine.inBytes_byteOffset (engine : Engine) (pattern : Pattern) {cs : List Char}
    {before : Nat} (inside : before ≤ cs.length) :
    engine.inBytes pattern cs (Text.byteOffset cs before) =
      (engine pattern cs.toArray before).map (Pattern.Fit.inBytes cs) := by
  rw [inBytes, Text.charOffset?_byteOffset inside, Option.bind_some]

/-- An engine with its offsets in bytes has the same tokens as the engine, whatever the pattern and
its context. -/
theorem Engine.counts_inBytes (engine : Engine) (pattern : Pattern) (lookbehind : Bool) :
    engine.inBytes.Counts engine pattern lookbehind := by
  intro cs before inside
  rw [Engine.inBytes_byteOffset engine pattern inside]
  cases engine pattern cs.toArray before with
  | none => rfl
  | some fit => exact congrArg some (Pattern.Fit.hit_inBytes cs lookbehind fit)

/-- A sound engine is sound when it counts bytes: the start and the end of a fit lie between
characters, because they count some. -/
theorem Engine.Sound.inBytes {engine : Engine} (sound : engine.Sound) : engine.inBytes.Sound := by
  have told : ∀ {pattern : Pattern} {cs : List Char} {position : Nat} {fit : Pattern.Fit},
      Text.IsBoundary cs position → engine.inBytes pattern cs position = some fit →
        ∃ before own, before ≤ cs.toArray.size ∧ Text.byteOffset cs before = position ∧
          engine pattern cs.toArray before = some own ∧ fit = own.inBytes cs := by
    intro pattern cs position fit between located
    obtain ⟨before, inside, rfl⟩ := between
    rw [Engine.inBytes_byteOffset engine pattern inside] at located
    obtain ⟨own, reported, rfl⟩ := Option.map_eq_some_iff.mp located
    exact ⟨before, own, inside, rfl, reported, rfl⟩
  constructor
  · intro pattern cs position fit between located
    obtain ⟨_, own, _, _, _, rfl⟩ := told between located
    exact Text.isBoundary_byteOffset cs own.start
  · intro pattern cs position fit between located
    obtain ⟨_, own, _, _, _, rfl⟩ := told between located
    exact Text.isBoundary_byteOffset cs own.stop
  · intro pattern cs position fit between located
    obtain ⟨_, own, inside, rfl, reported, rfl⟩ := told between located
    exact Text.byteOffset_mono cs (sound.ahead inside reported)
  · intro pattern cs position fit between located
    obtain ⟨_, own, inside, _, reported, rfl⟩ := told between located
    exact Text.byteOffset_mono cs (sound.ordered inside reported)

/-- The first groups end between characters when an engine counts bytes, since their ends count
characters first. -/
theorem Engine.grouped_inBytes (engine : Engine) (pattern : Pattern) :
    engine.inBytes.Grouped pattern := by
  intro cs position groupStop fit between located group
  obtain ⟨before, _, reported⟩ := Option.bind_eq_some_iff.mp located
  obtain ⟨own, _, rfl⟩ := Option.map_eq_some_iff.mp reported
  obtain ⟨count, _, rfl⟩ := Option.map_eq_some_iff.mp group
  exact Text.isBoundary_byteOffset cs count

/-- A fit with its positions counted in characters. A position inside a character counts those ahead
of it. -/
def Pattern.Fit.inCharacters (cs : List Char) (fit : Pattern.Fit) : Pattern.Fit where
  start := Text.countBefore cs fit.start
  stop := Text.countBefore cs fit.stop
  groupStop := fit.groupStop.map (Text.countBefore cs)

/-- A token of a fit between characters is the same again when it is counted back. Where the first
group ends matters only if the group is context. -/
theorem Pattern.Fit.hit_inCharacters {cs : List Char} {lookbehind : Bool} {fit : Pattern.Fit}
    (begins : Text.IsBoundary cs fit.start) (ends : Text.IsBoundary cs fit.stop)
    (grouped : lookbehind = true →
      ∀ groupStop, fit.groupStop = some groupStop → Text.IsBoundary cs groupStop) :
    ((fit.inCharacters cs).hit lookbehind).inBytes cs = fit.hit lookbehind := by
  rw [← Pattern.Fit.hit_inBytes]
  obtain ⟨start, stop, groupStop⟩ := fit
  cases lookbehind with
  | false =>
    simp only [hit, inCharacters, inBytes, begins.countBefore.2, ends.countBefore.2,
      Bool.false_eq_true, if_false]
  | true =>
    rw [inCharacters, inBytes, begins.countBefore.2, ends.countBefore.2]
    cases groupStop with
    | none => rfl
    | some groupStop =>
      rw [Option.map_some, Option.map_some, (grouped rfl groupStop rfl).countBefore.2]

namespace ByteEngine

/-- An engine with its positions counted in characters. It hands its text over as bytes and counts
back. -/
def inCharacters (bytes : ByteEngine) : Engine := fun pattern text position =>
  (bytes pattern text.toList (Text.byteOffset text.toList position)).map
    (Pattern.Fit.inCharacters text.toList)

section InCharacters

variable {bytes : ByteEngine}

/-- A sound engine is sound when it counts characters. Its bounds in bytes are bounds in characters,
as the order is the same. -/
theorem Sound.inCharacters (sound : bytes.Sound) : bytes.inCharacters.Sound := by
  constructor
  · intro pattern text position fit inside located
    obtain ⟨own, reported, rfl⟩ := Option.map_eq_some_iff.mp located
    have between := Text.isBoundary_byteOffset text.toList position
    obtain ⟨within, same⟩ := (sound.begins between reported).countBefore
    have ahead := sound.ahead between reported
    rw [← same] at ahead
    exact (Text.byteOffset_le_iff inside within).mp ahead
  · intro pattern text position fit inside located
    obtain ⟨own, reported, rfl⟩ := Option.map_eq_some_iff.mp located
    have between := Text.isBoundary_byteOffset text.toList position
    obtain ⟨first, begins⟩ := (sound.begins between reported).countBefore
    obtain ⟨last, ends⟩ := (sound.ends between reported).countBefore
    have ordered := sound.ordered between reported
    rw [← begins, ← ends] at ordered
    exact (Text.byteOffset_le_iff first last).mp ordered
  · intro pattern text position fit inside located
    obtain ⟨own, reported, rfl⟩ := Option.map_eq_some_iff.mp located
    have between := Text.isBoundary_byteOffset text.toList position
    exact (sound.ends between reported).countBefore.1

/-- A sound engine that counts bytes has the same tokens when it counts characters, provided that a
first group that is context ends between characters. -/
theorem Sound.counts_inCharacters (sound : bytes.Sound) {pattern : Pattern} {lookbehind : Bool}
    (grouped : lookbehind = true → bytes.Grouped pattern) :
    bytes.Counts bytes.inCharacters pattern lookbehind := by
  intro cs before inside
  rw [ByteEngine.inCharacters]
  cases located : bytes pattern cs (Text.byteOffset cs before) with
  | none => rfl
  | some fit =>
    have between := Text.isBoundary_byteOffset cs before
    exact congrArg some (Pattern.Fit.hit_inCharacters (sound.begins between located)
      (sound.ends between located)
      fun context groupStop group => grouped context between located group).symm

end InCharacters

end ByteEngine

/-- What stands before an offset as a plain token, sliced off unless there is nothing. There is no
result if the offset lies inside a character. -/
def plainAhead? (rest : List Char) (start : Nat) : Option (List Token) :=
  if 0 < start then
    (Text.byteSlice? rest 0 start).map fun cs => [Token.plain (String.ofList cs)]
  else some []

/-- Take every token out of a fragment by bytes, where `find` is done with finding the first one in
the text that is left: how often it was asked, and the tokens. There is no result if a slice is not
there, or if asking `count` times does not suffice. -/
def splitBytesWithin (find : List Char → Option (Option Hit)) (classify : Classify) :
    (count : Nat) → List Char → Option (Nat × List Token)
  | 0, _ => none
  | count + 1, rest => do
    match ← find rest with
    | none => return (1, plainToken rest)
    | some hit =>
      let ahead ← plainAhead? rest hit.start
      let matched ← Text.byteSlice? rest hit.start hit.stop
      let left ← Text.byteSlice? rest hit.stop (Text.byteOffset rest rest.length)
      let (calls, tokens) ← splitBytesWithin find classify count left
      return (calls + 1, ahead ++ classify (String.ofList matched) :: tokens)

/-- Take every token out of a fragment by bytes, and ask at most once more than the fragment has
characters. -/
def splitBytes (find : List Char → Option (Option Hit)) (classify : Classify)
    (fragment : String) : Option (Nat × List Token) :=
  splitBytesWithin find classify (fragment.length + 1) fragment.toList

/-- Before a number of characters in the text the slice is there, and the plain token holds these
characters. -/
theorem plainAhead?_byteOffset {rest : List Char} {start : Nat} (inside : start ≤ rest.length) :
    plainAhead? rest (Text.byteOffset rest start) = some (plainToken (rest.take start)) := by
  rw [plainAhead?]
  rcases Nat.eq_zero_or_pos start with rfl | filled
  · rw [Text.byteOffset_zero, if_neg (Nat.lt_irrefl 0), List.take_zero]
    rfl
  · have bytes := Text.byteOffset_lt filled inside
    have sliced := Text.byteSlice?_byteOffset (Nat.zero_le start) inside
    rw [Text.byteOffset_zero] at bytes sliced
    have ahead : slice rest 0 start = rest.take start := by
      rw [slice, List.drop_zero, Nat.sub_zero]
    have stands : (rest.take start).isEmpty = false := by
      rw [List.isEmpty_eq_false_iff, ← List.length_pos_iff, List.length_take]
      omega
    rw [if_pos bytes, sliced, ahead, plainToken, stands]
    rfl

section Split

variable {findBytes : List Char → Option (Option Hit)} {find : List Char → Option Hit}
  {classify : Classify}

/-- Along a scan by characters, splitting by bytes is done with the same tokens, and it asks at most
once more than there are characters left. -/
theorem Scan.splitBytesWithin_eq (productive : Productive find)
    (counts : ∀ rest, findBytes rest = some ((find rest).map (Hit.inBytes rest)))
    {rest : List Char} {tokens : List Token} (scan : Scan find classify rest tokens) {count : Nat}
    (enough : rest.length < count) :
    ∃ calls, calls ≤ rest.length + 1 ∧
      splitBytesWithin findBytes classify count rest = some (calls, tokens) := by
  induction scan generalizing count with
  | @missed rest nothing =>
    obtain ⟨count, rfl⟩ := Nat.exists_eq_add_one_of_ne_zero (Nat.ne_zero_of_lt enough)
    refine ⟨1, Nat.le_add_left 1 _, ?_⟩
    rw [splitBytesWithin, counts, nothing]
    rfl
  | @found rest hit tokens found later inductionHypothesis =>
    obtain ⟨count, rfl⟩ := Nat.exists_eq_add_one_of_ne_zero (Nat.ne_zero_of_lt enough)
    obtain ⟨filled, within⟩ := productive rest hit found
    have shorter : (rest.drop hit.stop).length < count := by
      rw [List.length_drop]
      omega
    obtain ⟨calls, few, done⟩ := inductionHypothesis shorter
    have ahead := plainAhead?_byteOffset (Nat.le_trans (Nat.le_of_lt filled) within)
    have matched := Text.byteSlice?_byteOffset (Nat.le_of_lt filled) within
    have left := Text.byteSlice?_byteOffset within (Nat.le_refl rest.length)
    rw [slice_eq_drop] at left
    refine ⟨calls + 1, ?_, ?_⟩
    · rw [List.length_drop] at few
      omega
    · rw [splitBytesWithin, counts, found]
      simp only [Option.map_some, Option.bind_eq_bind, Option.bind_some, Hit.inBytes, ahead,
        matched,
        left, done, Option.pure_def]

/-- To split a fragment by bytes is to split it by characters, with at most one search for a token
more than the fragment has characters. -/
theorem splitBytes_eq_split (productive : Productive find)
    (counts : ∀ rest, findBytes rest = some ((find rest).map (Hit.inBytes rest)))
    (classify : Classify) (fragment : String) :
    ∃ calls, calls ≤ fragment.length + 1 ∧
      splitBytes findBytes classify fragment = some (calls, split find classify fragment) := by
  have enough : fragment.toList.length < fragment.length + 1 := by
    rw [String.length_toList]
    exact Nat.lt_succ_self _
  obtain ⟨calls, few, done⟩ :=
    (split_scan productive classify fragment).splitBytesWithin_eq productive counts enough
  rw [String.length_toList] at few
  exact ⟨calls, few, done⟩

end Split

namespace ByteEngine

/-- A rule's first token in the text that is left, by bytes. Nothing of the text before it is
seen. -/
def first (bytes : ByteEngine) (rule : Rule) (rest : List Char) : Option (Option Hit) :=
  (bytes.find rule.pattern rule.lookbehind rest 0).map Prod.snd

section Rules

variable {bytes : ByteEngine} {engine : Engine} {rule : Rule}

/-- A rule's first token by bytes is the one that the rule finds by characters, counted in bytes. -/
theorem Counts.first_eq (counts : bytes.Counts engine rule.pattern rule.lookbehind)
    (sound : engine.Sound) (rest : List Char) :
    bytes.first rule rest = some ((rule.search engine rest).map (Hit.inBytes rest)) := by
  have found := counts.find_eq sound (Nat.zero_le rest.length)
  rw [Text.byteOffset_zero] at found
  rw [first, found]
  rfl

/-- A rule splits a fragment by bytes as it does by characters. That the engines agree is all that
is needed of them, besides soundness. -/
theorem Counts.splitBytes_eq (counts : bytes.Counts engine rule.pattern rule.lookbehind)
    (sound : engine.Sound) (classify : Classify) (fragment : String) :
    ∃ calls, calls ≤ fragment.length + 1 ∧ splitBytes (bytes.first rule) classify fragment =
      some (calls, split (rule.search engine) classify fragment) :=
  splitBytes_eq_split (Rule.search_productive sound rule) (counts.first_eq sound)
    classify fragment

/-- Finding tokens by bytes, and splitting by them, is done. From between characters, a rule's
searches begin between characters, each behind the one before, and there is at most one of them more
than there are characters left; a token that is found lies in the text and is not empty, and if the
group's end is between characters, so are its ends. A fragment is split with at most one search for
a token more than it has characters, and every slice is there. All of it is what happens by
characters. -/
theorem find_splitBytes_done (sound : bytes.Sound) (rule : Rule) :
    (∀ (cs : List Char) (before : Nat), before ≤ cs.length → ∃ searches found,
      bytes.find rule.pattern rule.lookbehind cs (Text.byteOffset cs before) =
          some (searches, found) ∧
        searches.Pairwise (· < ·) ∧
        (∀ position ∈ searches,
          Text.byteOffset cs before ≤ position ∧ Text.IsBoundary cs position) ∧
        searches.length ≤ cs.length - before + 1 ∧
        ∀ hit, found = some hit →
          Text.byteOffset cs before ≤ hit.origin ∧ hit.origin ≤ hit.start ∧ hit.start < hit.stop ∧
            hit.stop ≤ Text.byteOffset cs cs.length ∧ Text.IsBoundary cs hit.stop ∧
            ∃ position ∈ searches, ∃ fit,
              bytes rule.pattern cs position = some fit ∧ hit = fit.hit rule.lookbehind ∧
              ((∀ groupStop, fit.groupStop = some groupStop → Text.IsBoundary cs groupStop) →
                Text.IsBoundary cs hit.start)) ∧
    ((rule.lookbehind = true → bytes.Grouped rule.pattern) →
      ∀ (classify : Classify) (fragment : String), ∃ calls tokens, calls ≤ fragment.length + 1 ∧
        splitBytes (bytes.first rule) classify fragment = some (calls, tokens)) ∧
    (∀ engine : Engine, engine.Sound → bytes.Counts engine rule.pattern rule.lookbehind →
      (∀ (cs : List Char) (before : Nat), before ≤ cs.length →
        bytes.find rule.pattern rule.lookbehind cs (Text.byteOffset cs before) =
          some ((engine.searches rule.pattern rule.lookbehind cs.toArray before).map
              (Text.byteOffset cs),
            (engine.find rule.pattern rule.lookbehind cs.toArray before).map (Hit.inBytes cs))) ∧
      ∀ (category fragment : String), ∃ calls, calls ≤ fragment.length + 1 ∧
        splitBytes (bytes.first rule) (rule.token engine category) fragment =
          some (calls, rule.pass engine category [.plain fragment])) := by
  refine ⟨?_, ?_, ?_⟩
  · intro cs before inside
    obtain ⟨searches, found, done, searched⟩ := find_searched sound inside
    refine ⟨searches, found, done, searched.ascending, searched.between, searched.few, ?_⟩
    intro hit token
    obtain ⟨ahead, origin, filled, ends, own⟩ := searched.bounds sound token
    exact ⟨ahead, origin, filled, ends.le, ends, own⟩
  · intro grouped classify fragment
    obtain ⟨calls, few, done⟩ := (sound.counts_inCharacters grouped).splitBytes_eq
      sound.inCharacters classify fragment
    exact ⟨calls, _, few, done⟩
  · intro engine within counts
    refine ⟨fun cs before inside => counts.find_eq within inside, fun category fragment => ?_⟩
    rw [Rule.pass_plain]
    exact counts.splitBytes_eq within (rule.token engine category) fragment

/-- Accented letters that are only context, or a letter without one. Both alternatives differ in the
number of bytes. -/
def accentedContext : Rule :=
  (Rule.ofPattern (.known "(é+)|x" (by decide +kernel))).withLookbehind

/-- Behind a fit that is all context, a search goes on behind the next character, of two bytes here.
The fragment is split with two searches for a token. -/
theorem find_splitBytes_done_context :
    ((Engine.inBytes Pattern.locate).Sound ∧
      (Engine.inBytes Pattern.locate).Grouped accentedContext.pattern) ∧
    (Engine.inBytes Pattern.locate).find accentedContext.pattern accentedContext.lookbehind
        ['é', 'ü', 'x'] 0 = some ([0, 4], some { origin := 4, start := 4, stop := 5 }) ∧
    [0, 4].length ≤ ['é', 'ü', 'x'].length - 0 + 1 ∧
    splitBytes ((Engine.inBytes Pattern.locate).first accentedContext)
        (accentedContext.token Pattern.locate "letter") "éüx" =
      some (2, accentedContext.pass Pattern.locate "letter" [.plain "éüx"]) ∧
    (accentedContext.pass Pattern.locate "letter" [.plain "éüx"]).map Token.literal =
      ["éü", "x"] := by
  have sound : (Engine.inBytes Pattern.locate).Sound := Pattern.locate_sound.inBytes
  have grouped := Engine.grouped_inBytes Pattern.locate accentedContext.pattern
  obtain ⟨searched, _, counted⟩ := find_splitBytes_done sound accentedContext
  obtain ⟨_, split⟩ := counted Pattern.locate Pattern.locate_sound
    (Engine.counts_inBytes Pattern.locate accentedContext.pattern accentedContext.lookbehind)
  obtain ⟨searches, found, done, _, _, few, _⟩ := searched ['é', 'ü', 'x'] 0 (Nat.zero_le _)
  obtain ⟨calls, _, parts⟩ := split "letter" "éüx"
  have evaluated : (Engine.inBytes Pattern.locate).find accentedContext.pattern
      accentedContext.lookbehind ['é', 'ü', 'x'] 0 =
        some ([0, 4], some { origin := 4, start := 4, stop := 5 }) := by
    decide +kernel
  have asked : (splitBytes ((Engine.inBytes Pattern.locate).first accentedContext)
      (accentedContext.token Pattern.locate "letter") "éüx").map Prod.fst = some 2 := by
    decide +kernel
  have passed : (accentedContext.pass Pattern.locate "letter" [.plain "éüx"]).map Token.literal =
      ["éü", "x"] := by
    decide +kernel
  cases evaluated.symm.trans done
  rw [parts] at asked
  cases asked
  exact ⟨⟨sound, grouped⟩, evaluated, few, parts, passed⟩

end Rules

end ByteEngine

/-- This library finds a rule's tokens by bytes in just that way: it decodes, finds by characters
and counts bytes, which comes to the same. -/
theorem Rule.findAtByte_eq_find (rule : Rule) {cs : List Char} {before : Nat}
    (inside : before ≤ cs.length) :
    ((Engine.inBytes Pattern.locate).find rule.pattern rule.lookbehind cs
        (Text.byteOffset cs before)).map Prod.snd =
      some (rule.findAtByte (String.ofList cs) (Text.byteOffset cs before)) := by
  have counts := Engine.counts_inBytes Pattern.locate rule.pattern rule.lookbehind
  rw [counts.find_eq Pattern.locate_sound inside, Rule.findAtByte,
    Engine.findAtByte_byteOffset inside]
  rfl

end TextDecoration
