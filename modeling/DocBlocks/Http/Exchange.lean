import DocBlocks.Http.Url
import DocBlocks.Json.Basic

/-!
# Exchanges with a server

Requests, and what a server answers to them.

## Main definitions

* `Http.Request`: a request with a value as its body.
* `Http.Answer`: the status and the body that a server answers.
* `Http.statusText`: a status with its usual phrase.
-/

namespace DocBlocks.Http

/-- A request that posts a value. -/
structure Request where
  url : Url
  /-- What proves the right to ask. -/
  authorization : Option Text
  body : Json

/-- What a server answers. -/
structure Answer where
  status : Nat
  body : Text
  deriving DecidableEq, Repr, Inhabited

/-- Whether a status tells success. -/
def Answer.isSuccess (a : Answer) : Bool := 200 ≤ a.status && a.status < 300

/-- The usual phrase for a status. -/
def phrase? (status : Nat) : Option String :=
  [(100, "Continue"), (101, "Switching Protocols"), (102, "Processing"), (200, "OK"), (201, "Created"),
    (202, "Accepted"), (203, "Non Authoritative Information"), (204, "No Content"), (205, "Reset Content"),
    (206, "Partial Content"), (207, "Multi-Status"), (208, "Already Reported"), (226, "IM Used"),
    (300, "Multiple Choices"), (301, "Moved Permanently"), (302, "Found"), (303, "See Other"),
    (304, "Not Modified"), (305, "Use Proxy"), (307, "Temporary Redirect"), (308, "Permanent Redirect"),
    (400, "Bad Request"), (401, "Unauthorized"), (402, "Payment Required"), (403, "Forbidden"),
    (404, "Not Found"), (405, "Method Not Allowed"), (406, "Not Acceptable"),
    (407, "Proxy Authentication Required"), (408, "Request Timeout"), (409, "Conflict"), (410, "Gone"),
    (411, "Length Required"), (412, "Precondition Failed"), (413, "Payload Too Large"),
    (414, "URI Too Long"), (415, "Unsupported Media Type"), (416, "Range Not Satisfiable"),
    (417, "Expectation Failed"), (418, "I'm a teapot"), (421, "Misdirected Request"),
    (422, "Unprocessable Entity"), (423, "Locked"), (424, "Failed Dependency"), (426, "Upgrade Required"),
    (428, "Precondition Required"), (429, "Too Many Requests"), (431, "Request Header Fields Too Large"),
    (451, "Unavailable For Legal Reasons"), (500, "Internal Server Error"), (501, "Not Implemented"),
    (502, "Bad Gateway"), (503, "Service Unavailable"), (504, "Gateway Timeout"),
    (505, "HTTP Version Not Supported"), (506, "Variant Also Negotiates"), (507, "Insufficient Storage"),
    (508, "Loop Detected"), (510, "Not Extended"), (511, "Network Authentication Required")].lookup status

/-- A status with its usual phrase. -/
def statusText (status : Nat) : Text :=
  Nat.toDigits 10 status ++ [' '] ++ ((phrase? status).getD "<unknown status code>").toList

/-- Whether a text may be the value of a header: it has no control characters but tabs. -/
def isHeaderValue (t : Text) : Bool := t.all fun c => c = '\t' || (' ' ≤ c && c ≠ '\x7f')

end DocBlocks.Http
