import TextDecoration.CommandLine.Options

/-!
# Reading arguments in parts

Arguments that ask for a decoration have been read to their end, and all that is left of them is
the settings they made. So further arguments can be read from there on.

Arguments that come as bytes are read as the texts they are the form of, up to the first that is the
form of none. The reading is stopped there exactly if the texts ahead leave it open: they ask for a
decoration, or the last of them asks for the name of a grammar. In every other case they settle what
is to be done, and nothing is told about the arguments behind them, be they texts or not.
-/

namespace TextDecoration

/-- The bytes of a text are an argument that decodes to the text. To hand over texts is therefore a
special case of handing over bytes. -/
theorem Argument.ofBytes_toUTF8 (text : String) : Argument.ofBytes text.toUTF8 = .ok text := by
  have decoded : String.fromUTF8? text.toUTF8 = some text := dif_pos text.isValidUTF8
  rw [Argument.ofBytes, decoded]

namespace Request

section Reading

variable {Raw ε : Type} {decode : Raw → Except ε String} {misused : UsageFault → ε}

/-- Arguments behind those that ask for a decoration continue from its settings, whatever they are
decoded from. -/
theorem read_append {options reached : Options} {first : List Raw}
    (asked : read decode misused options first = .ok (.decorate reached)) (later : List Raw) :
    read decode misused options (first ++ later) = read decode misused reached later := by
  fun_induction read decode misused options first with
  | case1 options => cases asked; rfl
  | case2 => cases asked
  | case3 => cases asked
  | case4 => cases asked
  | case5 options raw text decoded mode rest kind inductionHypothesis =>
    rw [List.cons_append, read.eq_def]
    simp only [decoded, kind]
    exact inductionHypothesis asked
  | case6 => cases asked
  | case7 => cases asked
  | case8 options raw text decoded next rest kind name named inductionHypothesis =>
    rw [List.cons_append, List.cons_append, read.eq_def]
    simp only [decoded, kind, named]
    exact inductionHypothesis asked
  | case9 options raw text decoded rest kind inductionHypothesis =>
    rw [List.cons_append, read.eq_def]
    simp only [decoded, kind]
    exact inductionHypothesis asked
  | case10 => cases asked

end Reading

/-- Bytes behind those that ask for a decoration continue from its settings. They are decoded one at
a time, as they are come to. -/
theorem ofBytes_append {options reached : Options} {first : List ByteArray}
    (asked : ofBytes options first = .ok (.decorate reached)) (later : List ByteArray) :
    ofBytes options (first ++ later) = ofBytes reached later := read_append asked later

/-- Arguments that are texts, handed over as bytes, are read as the texts. Nothing stops the program
then, and what is misused is reported. -/
theorem ofBytes_texts (options : Options) (texts : List String) :
    ofBytes options (texts.map String.toUTF8) =
      (ofArguments options texts).mapError fun fault => .failed (.usage fault) := by
  rw [ofBytes, ofArguments]
  fun_induction read (ε := UsageFault) Except.ok id options texts with
  | case1 options => rfl
  | case2 options raw rest failure decoded => cases decoded
  | case3 options raw rest text decoded kind
  | case4 options raw rest text decoded kind
  | case10 options raw rest text decoded kind =>
    cases decoded
    rw [List.map_cons, read.eq_def]
    simp only [Argument.ofBytes_toUTF8, kind]
    rfl
  | case5 options raw text decoded mode rest kind inductionHypothesis =>
    cases decoded
    rw [List.map_cons, read.eq_def]
    simp only [Argument.ofBytes_toUTF8, kind]
    exact inductionHypothesis
  | case6 options raw text decoded kind =>
    cases decoded
    rw [List.map_singleton, read.eq_def]
    simp only [Argument.ofBytes_toUTF8, kind]
    rfl
  | case7 options raw text decoded next rest kind failure named => cases named
  | case8 options raw text decoded next rest kind name named inductionHypothesis =>
    cases decoded
    cases named
    rw [List.map_cons, List.map_cons, read.eq_def]
    simp only [Argument.ofBytes_toUTF8, kind]
    exact inductionHypothesis
  | case9 options raw text decoded rest kind inductionHypothesis =>
    cases decoded
    rw [List.map_cons, read.eq_def]
    simp only [Argument.ofBytes_toUTF8, kind]
    exact inductionHypothesis

end Request

end TextDecoration
