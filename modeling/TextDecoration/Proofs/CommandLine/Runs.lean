import TextDecoration.CommandLine.Invocation
import TextDecoration.Proofs.CommandLine.Arguments
import TextDecoration.Proofs.Text.Lines

/-!
# Runs in parts

A decorating run succeeds just when its grammar and its document can be made; the output mode has
no say in that, and what it writes depends on nothing but the two. The document holds the lines of
the input text, which is the file's or the standard input's.
-/

namespace TextDecoration

/-- A run exits with zero just when there is an output: a failure and an argument that is no text
have codes of their own. -/
theorem Outcome.ofResult_code {alarm : ByteArray → String} {result : Except Halt String} :
    (Outcome.ofResult alarm result).code = 0 ↔ ∃ output, result = .ok output := by
  cases result with
  | error halt => cases halt <;> simp [Outcome.ofResult, Outcome.stoppedCode]
  | ok output => simp [Outcome.ofResult]

namespace Invocation

/-- The input text: the file's, or that of the standard input. It has to be text as a whole, since
bytes that are none make the reading fail. -/
def text (invocation : Invocation) (options : Options) : Except Error String :=
  match documentPath options with
  | some path => Text.ofFile (invocation.file path)
  | none => Text.ofBytes invocation.input

/-- The document holds the lines of the input text. The name that it is given has no influence on
them. -/
theorem buffer_lines {invocation : Invocation} {options : Options} {text : String}
    {buffer : Buffer} (read : invocation.text options = .ok text)
    (loaded : invocation.buffer options = .ok buffer) :
    buffer.lines = (Buffer.ofText buffer.name text).lines := by
  rw [Invocation.text] at read
  rw [Invocation.buffer] at loaded
  -- Both ways of loading read the text first and only name what they have read.
  cases place : documentPath options with
  | none =>
    rw [place] at read loaded
    obtain ⟨contents, same, named⟩ := bind_eq_ok.mp loaded
    cases same.symm.trans read
    cases named
    exact Buffer.lines_ofText _ _ _
  | some path =>
    rw [place] at read loaded
    obtain ⟨_, _, made⟩ := bind_eq_ok.mp loaded
    obtain ⟨contents, same, lines⟩ := Buffer.lines_of_ofFile made
    cases same.symm.trans read
    exact lines buffer.name

/-- A decorating run writes what its mode says about its decorator and its document, and succeeds
just when both can be made. -/
theorem decorate_eq_ok {invocation : Invocation} {options : Options} {output : String} :
    invocation.decorate options = .ok output ↔ ∃ decorator buffer,
      invocation.decorator options = .ok decorator ∧
      invocation.buffer options = .ok buffer ∧ options.mode.written decorator buffer = output := by
  rw [Invocation.decorate, bind_eq_ok]
  constructor
  · rintro ⟨decorator, made, rest⟩
    obtain ⟨buffer, loaded, written⟩ := bind_eq_ok.mp rest
    exact ⟨decorator, buffer, made, loaded, Except.ok.inj written⟩
  · rintro ⟨decorator, buffer, made, loaded, rfl⟩
    exact ⟨decorator, made, bind_eq_ok.mpr ⟨buffer, loaded, rfl⟩⟩

/-- The result of a run whose arguments ask for a decoration is that of the decoration. A failure of
it is one that the run reports. -/
theorem result_of_asked {invocation : Invocation} {options : Options}
    (asked : invocation.request = .ok (.decorate options)) :
    invocation.result = (invocation.decorate options).mapError .failed := by
  rw [result, asked]

/-- A run whose arguments ask for a decoration has an output just when the decoration has it. -/
theorem result_eq_ok_of_asked {invocation : Invocation} {options : Options} {output : String}
    (asked : invocation.request = .ok (.decorate options)) :
    invocation.result = .ok output ↔ invocation.decorate options = .ok output := by
  rw [result_of_asked asked, mapError_eq_ok]

end Invocation

end TextDecoration
