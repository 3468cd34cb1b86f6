import SvnCurses.Reach
import SvnCurses.ReportLines
import SvnCurses.StatusLayout

namespace SvnCurses.ReportRows

open Cpp ProgramState Draw Interaction KeyEvent Round Rows Cursor Session Viewport Play Toggle
open Shell ShellLexes ShellReads Operands RefreshText Selected Consent StatusLayout
open Observer Worklist Display Painted Watching Shown Ending Reach Buckets StatusReport ReportLines

section Rows

variable {env : ∀ q, Answer q → Prop} {t : Terminal} {tr : History} {s m : State} {p : Prog State}
  {scr : Screen} {site : Site} {client : Client} {hash : HashOrder} {reported : List Reported}
  {out : Str}

end Rows

section Colours

variable {env : ∀ q, Answer q → Prop} {t : Terminal} {tr : History} {s m : State} {p : Prog State}
  {scr : Screen} {site : Site} {client : Client} {hash : HashOrder} {reported : List Reported}
  {out : Str} {line : ReportLine} {x : Reported}

end Colours

section Paths

variable {t : Terminal} {tr : History} {s m : State} {client : Client} {hash : HashOrder}
  {reported chosen : List Reported} {out : Str} {x y : Reported} {verb : List Str} {maxX : Int}

end Paths

end SvnCurses.ReportRows
