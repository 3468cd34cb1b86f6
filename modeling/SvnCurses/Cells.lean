import SvnCurses.PadLines
import SvnCurses.Shown

namespace SvnCurses.Cells

open Cpp ProgramState Draw Interaction KeyEvent Round Rows Cursor Session Viewport Play Picture
open Drawing PadLines Curses Observer Worklist Display Painted Watching Shown

section Texts

variable {t : Terminal} {b : Board} {l : PadLines.Locale} {line text : Str} {selected : List Str}
  {cursor maxX i : Int} {c : Char} {k x : Nat}

end Texts

section Screen

variable {t : Terminal} {tr : History} {s : State} {scr : Screen} {site : Site}
  {l : PadLines.Locale}

variable {b : Board} {x y : Nat}

end Screen

end SvnCurses.Cells
