import Mathlib.Tactic.Simps.Basic
import Alko.Common.Commands
import Alko.Qt.Lines
import Alko.Qt.QString

/-! The administration pages: one HTTP request a connection, from its first complete line to the
serial requests it makes and the page it gets. -/

namespace Alko.Alkod

open Qt

/-- What goes to the socket, before its characters are encoded. -/
inductive Output
  | text (s : String)
  | file (name : QString)
  -- A page of the resources, its placeholders filled in.
  | page (name : QString) (context : List (QString × QString))
  deriving DecidableEq

structure HttpEnvironment where
  -- `QFile::exists`, below `:/html/`.
  fileExists : QString → Bool
  -- What a closed socket still lets be read of what it held.
  unread : List UInt8 → List UInt8
  -- `QDateTime::currentDateTime().toString()`.
  currentDateTime : QString

inductive Method
  | get | post
  deriving DecidableEq

structure HttpHandler where
  rx : List UInt8
  isOpen : Bool
  written : List Output
  -- What it has passed to `AlkoManager::get`.
  gets : List (List UInt8)

namespace HttpHandler

open QString (literal)

def new (rx : List UInt8) : HttpHandler := ⟨rx, true, [], []⟩

/-- A device that is not open takes nothing. -/
def write (output : List Output) (h : HttpHandler) : HttpHandler :=
  if h.isOpen then { h with written := h.written ++ output } else h

def close (e : HttpEnvironment) (h : HttpHandler) : HttpHandler :=
  if h.isOpen then { h with isOpen := false, rx := e.unread h.rx } else h

@[simps] def get (request : List UInt8) (h : HttpHandler) : HttpHandler :=
  { h with gets := h.gets ++ [request] }

def badRequest : List Output :=
  [.text ("HTTP/1.1 400 Bad Request\r\n" ++ "Content-Type: text/html; charset=\"utf-8\"\r\n" ++
      "Connection: close\r\n" ++ "\r\n"),
    .file (literal "400.html")]

def notFound : List Output :=
  [.text ("HTTP/1.1 404 Not Found\r\n" ++ "Content-Type: text/html; charset=\"utf-8\"\r\n" ++
      "Connection: close\r\n" ++ "\r\n"),
    .file (literal "404.html")]

def unauthorized : List Output :=
  [.text ("HTTP/1.1 401 Unauthorized\r\n" ++ "Content-Type: text/html; charset=\"utf-8\"\r\n" ++
    "Connection: close\r\n" ++ "WWW-Authenticate: Basic realm=\"Manager\"\r\n" ++ "\r\n" ++
    "<html>\n" ++ "<head>\n" ++
    "<link rel=\"shortcut icon\" href=\"data:image/x-icon;,\" type=\"image/x-icon\">\n" ++
    "<title>401 Authorization Required</title>" ++ "</head>\n" ++ "<body>\n" ++
    "<h1>Authorization Required</h1>\n" ++ "<p>This server could not verify that you " ++
    "are authorized to access the document " ++ "requested.  Either you supplied the wrong" ++
    "credentials (e.g., bad password), or your " ++ "browser doesn't understand how to supply " ++
    "the credentials required.</p>\n" ++ "</body>\n" ++ "</html>\n")]

def styleSheet (resource : QString) : List Output :=
  [.text ("HTTP/1.0 200 Ok\r\n" ++ "Content-Type: text/css; charset=\"utf-8\"\r\n" ++
      "Connection: close\r\n" ++ "\r\n"),
    .file resource]

def pageHead : List Output :=
  [.text ("HTTP/1.0 200 Ok\r\n" ++ "Content-Type: text/html; charset=\"utf-8\"\r\n" ++
    "Connection: close\r\n" ++ "\r\n")]

def error_400 (e : HttpEnvironment) (h : HttpHandler) : HttpHandler := (h.write badRequest).close e

def error_404 (e : HttpEnvironment) (h : HttpHandler) : HttpHandler := (h.write notFound).close e

def requestLine (line : QString) : Option (Method × QString) :=
  if (literal "GET").isPrefixOf line then
    some (.get, (QString.mid 5 ((line.length : ℤ) - 16) line).trimmed)
  else if (literal "POST").isPrefixOf line then
    some (.post, (QString.mid 6 ((line.length : ℤ) - 16) line).trimmed)
  else none

/-- `QMap::insert`, which replaces, and `QMultiMap::insert`, whose `value` is the last inserted. -/
def insert (key value : QString) (map : QString → Option QString) : QString → Option QString :=
  Function.update map key (some value)

def readHeader (headers : QString → Option QString) (line : QString) : QString → Option QString :=
  let index := QString.indexOf 0x3A line
  insert (QString.left index line).toLower (QString.mid (index + 1).toNat (-1) line).trimmed headers

def readHeaders (lines : List (List UInt8)) : QString → Option QString :=
  lines.foldl (fun headers line => readHeader headers (QString.ofByteArray line)) fun _ => none

def readToken (tokens : QString → Option QString) (token : QString) : QString → Option QString :=
  let index := QString.indexOf 0x3D token
  if index = 0 then tokens
  else
    let value := QString.mid (index + 1).toNat (-1) token
    let value := value.map fun c => if c = 0x2B then 0x20 else c
    insert (QString.left index token) (QString.fromPercentEncoding (QString.trimmed value).toUtf8)
      tokens

def readTokens (lines : List (List UInt8)) : QString → Option QString :=
  lines.foldl (fun tokens line =>
    if QString.ofByteArray line = [] then tokens
    else ((QString.ofByteArray line).splitOn 0x26).foldl readToken tokens) fun _ => none

def authorization : QString := literal "Basic b2IxOmhlbGxvIHRoZXJl"

def actionRequest (action : QString) : Option (List UInt8) :=
  if action = literal "Start" then some [Cmd.setState.toByte, State.prepareReady.toByte]
  else if action = literal "Stop" then some [Cmd.setState.toByte, State.service.toByte]
  else if action = literal "Check" then some [Cmd.checkAvail.toByte]
  else if action = literal "State" then some [Cmd.getState.toByte]
  else if action = literal "Fetch" then some [Cmd.fetch.toByte]
  else if action = literal "AutoHome" then some [Cmd.homeBegin.toByte]
  else if action = literal "CancelAutoHome" then some [Cmd.homeAbort.toByte]
  else none

def statusContext : List (QString × QString) :=
  [("ALKO_COLUMN_9", "btn-danger"), ("ALKO_COLUMN_8", "btn-success"),
    ("ALKO_COLUMN_7", "btn-success"), ("ALKO_COLUMN_6", "btn-success"),
    ("ALKO_COLUMN_5", "btn-success"), ("ALKO_COLUMN_4", "btn-danger"),
    ("ALKO_COLUMN_3", "btn-warning"), ("ALKO_COLUMN_2", "btn-danger"),
    ("ALKO_COLUMN_1", "btn-danger"), ("ALKO_STATE_BTN", "btn-success"),
    ("ALKO_STATE_TEXT", "READY")].map fun entry => (literal entry.1, literal entry.2)

/-- `tokens.value("AlkoAction")`, from what can be read behind the headers. -/
def postedAction (rx : List UInt8) : QString :=
  (readTokens (allLines rx) (literal "AlkoAction")).getD []

def handlePost (resource : QString) (context : List (QString × QString)) (h : HttpHandler) :
    QString × List (QString × QString) × HttpHandler :=
  let action := postedAction h.rx
  let h := { h with rx := [] }
  if action = [] then (resource, context, h)
  else
    (literal "process.html", context ++ [(literal "ACTION", action)],
      match actionRequest action with
      | some request => h.get request
      | none => h)

def handleGet (resource : QString) (context : List (QString × QString)) (h : HttpHandler) :
    QString × List (QString × QString) × HttpHandler :=
  if resource = literal "status.html" then (resource, context ++ statusContext, h)
  else if resource = literal "check_status.html" then
    (resource, context, (h.get [Cmd.getConfig.toByte]).get [Cmd.getState.toByte])
  else (resource, context, h)

def handleResource (e : HttpEnvironment) (method : Method) (resource host : QString)
    (h : HttpHandler) : HttpHandler :=
  if !e.fileExists resource then h.error_404 e
  else if QString.right 3 resource = literal "css" then (h.write (styleSheet resource)).close e
  else
    let h := h.write pageHead
    let context := [(literal "DATETIME", e.currentDateTime), (literal "RESOURCE", resource),
      (literal "HOST", host)]
    let (resource, context, h) :=
      match method with
      | .post => h.handlePost resource context
      | .get => h.handleGet resource context
    (h.write [.page resource context]).close e

/-- A request without the right credentials is answered, and then handled on. -/
def readyRead (e : HttpEnvironment) (h : HttpHandler) : HttpHandler :=
  if !canReadLine h.rx then h
  else
    let line := QString.ofByteArray (firstLine h.rx)
    let h := { h with rx := behindLine h.rx }
    match requestLine line with
    | none => h.close e
    | some (method, resource) =>
      let resource := if resource = [] then literal "index.html" else resource
      let headers := readHeaders (completeLines h.rx).1
      let h := { h with rx := (completeLines h.rx).2 }
      match headers (literal "host") with
      | none => h.error_400 e
      | some host =>
        if (headers (literal "authorization")).getD [] = authorization then
          h.handleResource e method resource host
        else ((h.write unauthorized).close e).handleResource e method resource host

end HttpHandler

end Alko.Alkod
