import SimpleLR.Recognizer.Run

/-!
# Transcripts of runs

A transcript shows, for each moment of a run, the stack with the lookahead and then what is done. An
action is noted before it is carried out, so it also stands there if it fails halfway.
-/
namespace SimpleLR

/-- A line of a transcript. -/
inductive Event
  /-- The stack, the bottom first, and the lookahead. -/
  | moment (stack : List Nat) (lookahead : Lookahead)
  | action (a : Action)
deriving DecidableEq

namespace Event

variable (g : Grammar)

def text : Event → String
  | moment stack lookahead =>
    String.join (stack.map fun s => s!"<{s}> ") ++ "<-  " ++ g.lookaheadName lookahead
  | action (.shift target) => s!"Shift {target}"
  | action (.reduce item) => s!"Reduce {item.production}({item.render g})"
  | action .accept => "Accept"

/-- What is noted of a moment. -/
def ofConfig (a : Automaton) (c : Config) : List Event :=
  .moment c.stack.reverse c.lookahead ::
    ((c.stack.head?.bind fun state => a.action? state c.lookahead).map Event.action).toList

/-- The transcript of a run from where it is on, for at most `fuel` steps. -/
def transcript (a : Automaton) (fuel : Nat) (p : Progress) : List Event :=
  (Progress.moments g a fuel p).flatMap (ofConfig a)

end Event

end SimpleLR
