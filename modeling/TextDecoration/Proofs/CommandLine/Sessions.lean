import TextDecoration.CommandLine.Session

/-!
# A run's steps make its outcome

All that can fail in a run comes before the first thing it writes: what is written about a document
is written by steps that do not fail. So a session that fails, or that an argument stops, has
written nothing, and what a session leaves behind is what `Invocation.run` says.

The law is carried by `Session.Writes`, which says of a session that it adds a text to what was
written before and ends well. It is kept in a row and along a list.
-/

namespace TextDecoration

namespace Session

/-- A session that writes a text, whatever was written before, and does not fail. The text comes
behind what was written before. -/
def Writes (session : Session Unit) (text : String) : Prop :=
  ∀ written, session.run.run written = (.ok (), written ++ text)

/-- To write a text adds the text and does not fail. What a system does that refuses the output is
left to the outer layer. -/
theorem writes_write (text : String) : (write text).Writes text := fun _ => rfl

/-- Sessions in a row write their texts in a row. The first has nothing to hand on but that it is
done. -/
theorem Writes.bind {first second : Session Unit} {text more : String} (ahead : first.Writes text)
    (behind : second.Writes more) : Session.Writes (first >>= fun _ => second) (text ++ more) := by
  intro written
  calc (first >>= fun _ => second).run.run written
      = second.run.run (written ++ text) := by
        rw [ExceptT.run_bind, StateT.run_bind, ahead written]
        rfl
    _ = (.ok (), written ++ text ++ more) := behind (written ++ text)
    _ = (.ok (), written ++ (text ++ more)) := by rw [String.append_assoc]

/-- Doing nothing writes nothing, which is where a list of sessions ends. -/
theorem Writes.pure : Session.Writes (Pure.pure ()) "" := by
  intro written
  rw [String.append_empty]
  rfl

/-- A session for each element of a list writes the elements' texts in a row. The induction is on
the list, with the elements' sessions as they come. -/
theorem Writes.forM {α : Type} {step : α → Session Unit} {text : α → String}
    (each : ∀ element, (step element).Writes (text element)) (elements : List α) :
    Session.Writes (elements.forM step) (String.join (elements.map text)) := by
  induction elements with
  | nil => exact Writes.pure
  | cons element later inductionHypothesis =>
    rw [List.map_cons, String.join_cons]
    exact (each element).bind inductionHypothesis

/-- A line for each element of a list. This is how tokens and ranges are written, one line each. -/
theorem Writes.lines {α : Type} (line : α → String) (elements : List α) :
    Session.Writes (elements.forM fun element => write (line element ++ "\n"))
      (unlines (elements.map line)) := by
  rw [unlines, List.map_map]
  exact Writes.forM (fun element => writes_write _) elements

end Session

end TextDecoration
