import SvnCurses.ReportRows
import SvnCurses.Targets
import SvnCurses.Walked

namespace SvnCurses.Delivery

open Cpp Interaction ProgramState Draw KeyEvent Play Session Ending Reach Selected StatusReport
open Consent Shown ReportLines ReportRows Shell Operands Round Worklist Getopt Targets Dirents
open StatusWalk Walked

section CarriedOut

variable {t : Terminal} {tr : History} {s m : State} {client : Client} {hash : HashOrder}
  {reported chosen : List Reported} {out : Str} {verb : List Str} {svn : Lookup} {name : Str}
  {given : List (Received Longopt)} {env : ∀ q, Answer q → Prop} {cmd : Str} {maxX : Int}
  {wb : WalkBaton} {wc : WorkingDir}

end CarriedOut

end SvnCurses.Delivery
