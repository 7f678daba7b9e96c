import Famicom.Text.Lines
import Famicom.Trace.Line

/-! # Logs

A log is a text of lines, each of which tells of one instruction.  Lines of blanks only are skipped;
any other line that cannot be read makes the log unreadable, and the first such line is the one that
is reported. -/

namespace Famicom.Trace

/-- The lines of a log that are not blank, with their line ends. -/
def logLines (text : List Char) : List (List Char) :=
  (Text.lines (Text.unifyNewlines text)).filter fun line => !line.all Text.isBlank

/-- Reads the text of a log. -/
def readLog (text : List Char) : Except Fault (List Entry) :=
  (logLines text).mapM Entry.ofLine

end Famicom.Trace
