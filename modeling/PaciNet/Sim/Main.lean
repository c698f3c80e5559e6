import Mathlib.Data.List.DropRight
import PaciNet.Core.Fsm.Duration
import PaciNet.Lib.LossyUtf8

/-!
# The event proxy of the simulator

The simulator passes on the server-sent events of the controller: it reads the body of the
controller's answer as it arrives, chunk by chunk, and makes its own events of the lines in it. What
`reqwest` does to get the chunks, and what axum does with the events, is outside.
-/

set_option autoImplicit false

namespace PaciNet.Sim

open Lib.LossyUtf8

/-- What axum's builder for events is given. -/
structure Event where
  event : Option String
  data : String
deriving DecidableEq

/-- The variables of the stream. -/
structure SseProxy where
  buffer : List Char
  dataLines : List (List Char)
  eventName : Option (List Char)

def SseProxy.new : SseProxy := ⟨[], [], none⟩

/-! ## Lines -/

/-- `str::strip_prefix`. -/
def stripPrefix : (pre line : List Char) → Option (List Char)
  | [], line => some line
  | _ :: _, [] => none
  | p :: pre, c :: line => if c = p then stripPrefix pre line else none

/-- `str::trim_start`. -/
def trimStart (s : List Char) : List Char := s.dropWhile isWhitespace

/-- `trim_end_matches('\r')`. -/
def trimReturns (s : List Char) : List Char := s.rdropWhile (· == '\r')

/-- The event of a block that has ended. -/
def SseProxy.toEvent (s : SseProxy) : Event where
  event := s.eventName.map .ofList
  data := .ofList (['\n'].intercalate s.dataLines)

/-- One round of the loop over the lines in the buffer. -/
def readLine (s : SseProxy) (line : List Char) : List Event × SseProxy :=
  if line = [] then
    if s.dataLines ≠ [] ∨ s.eventName.isSome then
      ([s.toEvent], { s with dataLines := [], eventName := none })
    else ([], s)
  else
    match stripPrefix ['e', 'v', 'e', 'n', 't', ':'] line with
    | some rest => ([], { s with eventName := some (trim rest) })
    | none =>
      match stripPrefix ['d', 'a', 't', 'a', ':'] line with
      | some rest => ([], { s with dataLines := s.dataLines ++ [trimStart rest] })
      | none => ([], s)

def readLines (s : SseProxy) : List (List Char) → List Event × SseProxy
  | [] => ([], s)
  | line :: lines =>
    let (events, s) := readLine s (trimReturns line)
    let (more, s) := readLines s lines
    (events ++ more, s)

/-! ## Chunks -/

/-- The loop over the lines in the buffer, after a text has been pushed. What follows the last
    newline stays. -/
def readText (s : SseProxy) (text : List Char) : List Event × SseProxy :=
  let lines := (s.buffer ++ text).splitOn '\n'
  readLines { s with buffer := lines.getLastD [] } lines.dropLast

/-- How `serde_json` writes a character of a text. -/
def escapeJson (c : Char) : List Char :=
  match c with
  | '"' => ['\\', '"']
  | '\\' => ['\\', '\\']
  | '\n' => ['\\', 'n']
  | '\r' => ['\\', 'r']
  | '\t' => ['\\', 't']
  | _ =>
    if c.toNat = 0x8 then ['\\', 'b']
    else if c.toNat = 0xC then ['\\', 'f']
    else if c.toNat < 0x20 then
      ['\\', 'u', '0', '0', (c.toNat / 16).digitChar, (c.toNat % 16).digitChar]
    else [c]

/-- The last event of a stream that breaks off. -/
def proxyError (e : String) : Event where
  event := some "proxy-error"
  data := "\x7b\"error\":\"" ++ .ofList (e.toList.flatMap escapeJson) ++ "\"\x7d"

/-- The events made of the chunks that are still to come. -/
def proxyFrom (s : SseProxy) : List (Except String (List UInt8)) → List Event
  | [] => []
  | .ok chunk :: chunks =>
    let (events, s) := readText s (fromUtf8Lossy chunk)
    events ++ proxyFrom s chunks
  | .error e :: _ => [proxyError e]

def proxyPacinetSse (chunks : List (Except String (List UInt8))) : List Event :=
  proxyFrom .new chunks

end PaciNet.Sim
