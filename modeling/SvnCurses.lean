import SvnCurses.Interaction
import SvnCurses.Cpp
import SvnCurses.Toggle
import SvnCurses.Viewport
import SvnCurses.Shell
import SvnCurses.ShellLexes
import SvnCurses.ShellReads
import SvnCurses.ProgramState
import SvnCurses.Draw
import SvnCurses.KeyEvent
import SvnCurses.Round
import SvnCurses.Rows
import SvnCurses.Cursor
import SvnCurses.Session
import SvnCurses.Play
import SvnCurses.CursorBounds
import SvnCurses.Picture
import SvnCurses.Operands
import SvnCurses.Selected
import SvnCurses.RefreshText
import SvnCurses.Consent
import SvnCurses.StatusLayout
import SvnCurses.Drawing
import SvnCurses.Printf
import SvnCurses.Formats
import SvnCurses.Curses
import SvnCurses.PadLines
import SvnCurses.Observer
import SvnCurses.Worklist
import SvnCurses.Display
import SvnCurses.Console
import SvnCurses.Painted
import SvnCurses.Watching
import SvnCurses.Shown
import SvnCurses.Ending
import SvnCurses.Loop
import SvnCurses.Reach
import SvnCurses.Buckets
import SvnCurses.StatusReport
import SvnCurses.ReportLines
import SvnCurses.ReportRows
import SvnCurses.Cells
import SvnCurses.WorkingCopy
import SvnCurses.Exchange
import SvnCurses.Getopt
import SvnCurses.Dirents
import SvnCurses.Targets
import SvnCurses.Forests
import SvnCurses.StatusWalk
import SvnCurses.Walked
import SvnCurses.Delivery
