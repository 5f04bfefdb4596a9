import TextDecoration.Proofs.CommandLine.Runs
import TextDecoration.Proofs.CommandLine.Sessions

/-!
# How runs end

A run either succeeds and complains about nothing, or fails, writes nothing and complains once, as
long as its arguments are texts as far as they are read. What can fail is to understand the
arguments, to make the decorator and to load the document, and the output mode is asked behind all
of these: nothing is written before a failure, and two runs that differ in the mode alone end in the
same way. A configuration that cannot be loaded leaves the default settings, as one that is not
there does, and no trace of it is left in the outcome.

An argument that is the form of no text is the one exception. Arguments are made texts one by one
when their turn comes, and what makes them texts does not fail but stops the program. The exit code
then is that of a program that was stopped, and the complaint is not the program's own. An argument
that is no text does no harm behind one that asks for help or for the version, or that is refused.

That the outcome is what a system's process leaves behind rests on the outer layer, which writes it
out; a system that refuses the output is not considered, nor is what is logged.
-/

namespace TextDecoration

namespace Invocation

section Replaced

variable {invocation : Invocation} {file : String → Option ByteArray}
  {refusal : String → Option String}

end Replaced

end Invocation

end TextDecoration
