import Netramesh.Lib.Bytes

/-!
# Errors

The error values the parsers and sockets hand back, kept apart as far as any
caller can tell them apart. The handlers do two things with an error: compare
it with `io.EOF`, and search its text for the phrase the `net` package uses
when a connection was closed on this side. The second one reads text that the
peer may have supplied, so errors that quote the input carry it.
-/

namespace Netramesh.Net

/-- An error value. -/
inductive Err
  /-- `io.EOF`. -/
  | eof
  /-- `io.ErrUnexpectedEOF`. -/
  | unexpectedEOF
  /-- A read or write on a connection closed by this process. -/
  | closedConn
  /-- Any other error of a socket, with its text. -/
  | sock (text : Bytes)
  /-- `textproto.ProtocolError`, with its text. -/
  | protocol (text : Bytes)
  /-- `&badStringError{what, str}`: the text quotes `str`. -/
  | badString (what str : Bytes)
  /-- `fmt.Errorf` with quoted header values. -/
  | badValues (what : Bytes) (vals : List Bytes)
  /-- `*url.Error`. -/
  | badURL (rawurl : Bytes)
  /-- An error with a fixed text. -/
  | fixed (text : Bytes)
  deriving DecidableEq

/-- The phrase the handlers look for. -/
def closedPhrase : Bytes := lit "use of closed network connection"

/-- `strings.Contains(err.Error(), "use of closed network connection")`.

Quoting with `%q` leaves the letters and blanks of the phrase as they are and
starts every escape with a backslash, so a quoted string contains the phrase
exactly if the string does. A URL error prints its target, which holds no
blank, and a fixed text, so it never does. -/
def Err.mentionsClosed : Err → Bool
  | .closedConn => true
  | .sock t | .protocol t => contains t closedPhrase
  | .badString _ str => contains str closedPhrase
  | .badValues _ vals => vals.any (contains · closedPhrase)
  | .eof | .unexpectedEOF | .badURL _ | .fixed _ => false

end Netramesh.Net
