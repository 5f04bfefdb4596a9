import TextDecoration.Pattern.Node

/-!
# Leads of a regular tree

At a given position a regular tree offers leads, best first: to stop there, or to take one
character of a set and go on with a smaller obligation. Following the leads in order, and coming
back to the next one when a lead fails, finds the stretch that the pattern prefers. Whether a lead
succeeds does not depend on the slots it carries. So of two leads with the same continuation only
the better one can matter, and all leads of a position are followed side by side, one character at
a time, without ever turning back: `sweep`.

A loop that comes round without having taken a character stops offering to come round again. The
first iteration of a loop may be empty and then ends it; a later empty one adds nothing and is
dropped. This keeps the leads finite and at most one of them to stop.
-/

namespace TextDecoration.Pattern

/-- A way on from a position. It carries the slots as they are when it is taken. -/
inductive Lead where
  /-- Stop at the position. -/
  | stop (slots : Slots)
  /-- Take a character of `set`, then satisfy `rest`. -/
  | take (set : CharSet) (rest : Node) (slots : Slots)

namespace Lead

/-- Whether the lead is to stop, that is, whether nothing is left to be satisfied. -/
def isStop : Lead → Bool
  | .stop _ => true
  | .take _ _ _ => false

/-- The lead with a further obligation behind it; to stop is left as it is, since another list of
leads takes its place. -/
def before (next : Node) : Lead → Lead
  | .stop slots => .stop slots
  | .take set rest slots => .take set (rest.andThen next) slots

/-- The leads `first` and then `second`, less a second lead to stop. Stopping twice at one position
would be stopping once. -/
def preferring (first second : List Lead) : List Lead :=
  if first.any isStop then first ++ second.filter (fun lead => !lead.isStop) else first ++ second

/-- Both lists in the order that a loop prefers: its body first if it is greedy, and to leave the
loop first if it is lazy. -/
def loop (greedy : Bool) (body leave : List Lead) : List Lead :=
  if greedy then preferring body leave else preferring leave body

/-- Two leads that go on in the same way, whatever slots they carry: either of them succeeds if the
other does. -/
def sameWay : Lead → Lead → Bool
  | .stop _, .stop _ => true
  | .take set rest _, .take set' rest' _ => decide (set = set' ∧ rest = rest')
  | _, _ => false

/-- Each way on once, under its best lead. A later lead of the same way could only be taken after
the first one failed, and would fail too. -/
def distinct : List Lead → List Lead
  | [] => []
  | lead :: leads => lead :: (distinct leads).filter (fun other => !lead.sameWay other)

end Lead

/-- Leads of a regular tree at a position, best first. A tree that is not regular offers none where
    it asks for a group or looks around. -/
def Node.leads (text : Array Char) (position : Nat) : Node → Slots → List Lead
  | .empty, slots => [.stop slots]
  | .char set, slots => [.take set .empty slots]
  | .anchor condition, slots => if condition.holds text position then [.stop slots] else []
  | .mark slot, slots => [.stop (slots.set slot (some position))]
  | .seq first second, slots => (first.leads text position slots).flatMap fun
    | .stop reached => second.leads text position reached
    | .take set rest reached => [.take set (rest.andThen second) reached]
  | .alt first second, slots =>
    Lead.preferring (first.leads text position slots) (second.leads text position slots)
  | .optional greedy body, slots =>
    Lead.loop greedy (body.leads text position slots) [.stop slots]
  | .star greedy body, slots =>
    Lead.loop greedy ((body.leads text position slots).map (.before (.more greedy body)))
      [.stop slots]
  | .plus greedy body, slots =>
    (body.leads text position slots).map (.before (.more greedy body))
  | .more greedy body, slots =>
    Lead.loop greedy
      (((body.leads text position slots).filter (fun lead => !lead.isStop)).map
        (.before (.more greedy body)))
      [.stop slots]
  | .backref _ _, _ | .look _ _ _, _ | .atomic _, _ => []

/-- End of a preferred stretch, with the slots as they were left there. The start is known to
whoever asked. -/
structure Stretch where
  stop : Nat
  slots : Slots

/-- Follow all leads side by side. `best` is the end found so far, worse than every lead that is
    still followed; `ahead` bounds the characters that are left. -/
def sweep (text : Array Char) :
    (ahead position : Nat) → List Lead → (best : Option Stretch) → Option Stretch
  | ahead, position, leads, best =>
    let live := leads.takeWhile (fun lead => !lead.isStop)
    let best := match leads.find? Lead.isStop with
      | some (.stop slots) => some ⟨position, slots⟩
      | _ => best
    match ahead, text[position]? with
    | ahead + 1, some c =>
      let next := live.flatMap fun
        | .take set rest slots =>
          if set.contains c then rest.leads text (position + 1) slots else []
        | .stop _ => []
      if next.isEmpty then best
      else sweep text ahead (position + 1) (Lead.distinct next) best
    | _, _ => best

/-- The stretch that a regular tree prefers from a position on. It is found in one walk over the
text, without a way back. -/
def Node.preferred (text : Array Char) (node : Node) (position : Nat) (slots : Slots) :
    Option Stretch :=
  sweep text (text.size - position) position (node.leads text position slots) none

end TextDecoration.Pattern
