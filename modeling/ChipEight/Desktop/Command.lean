import ChipEight.Console
import ChipEight.Desktop.Key

/-!
The commands of the desktop as operations of the console.
-/
namespace ChipEight.Desktop.Command

/-- A change of speed tells its outcome; a refused one changes nothing else. -/
def setSpeed (c : Console) (cycles : Nat) : Outcome :=
  match c.setCycles cycles with
  | .ok (console, signals) => (console, signals ++ [.note (.cyclesNow cycles)])
  | .error rejection => (c, [.note (.refused rejection)])

def apply (c : Console) : Command → Except Rejection Outcome
  | togglePlay => .ok (if c.status = .running then c.pause else c.play)
  | step => .ok c.stepOnce
  | replay => c.replay
  | stop => .ok c.stop
  | faster => .ok (setSpeed c (c.cycles + 1))
  | slower => .ok (setSpeed c (c.cycles - 1))

end ChipEight.Desktop.Command
