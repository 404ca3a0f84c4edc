import SynthHiresBridge.Data.Table
import SynthHiresBridge.Data.UrlHost

namespace Daemon

namespace NetworkFetch

/-- A URL is cut into its parts before its host is parsed. -/
structure RawUrl where
  scheme : String
  host : Option String
  rest : String
  deriving DecidableEq

structure Url where
  scheme : String
  host : Option UrlHost.Host
  rest : String
  deriving DecidableEq

/-- The parsers of URLs and of requests, and the tables of names, belong to the client library. -/
structure Client where
  domainToAscii : String → Option String
  cut : String → Except String RawUrl
  hostError : String → String
  join : Url → String → Option RawUrl
  method : String → Except String String
  headerName : String → Except String String
  headerValue : String → Except String String
  builds : Nat → Except String Unit

/-- The name of a host does not follow every scheme. -/
def Client.resolve (client : Client) (raw : RawUrl) : Option Url :=
  match raw.host with
  | none => some ⟨raw.scheme, none, raw.rest⟩
  | some text =>
      (UrlHost.parseHost client.domainToAscii text).map fun host => ⟨raw.scheme, some host, raw.rest⟩

def Client.parse (client : Client) (text : String) : Except String Url :=
  match client.cut text with
  | .error error => .error error
  | .ok raw =>
      match client.resolve raw with
      | none => .error (client.hostError text)
      | some url => .ok url

def isHttp (url : Url) : Bool :=
  url.scheme = "http" || url.scheme = "https"

/-- A redirect names its target in a header. The body comes in chunks. -/
structure Response where
  status : Nat
  headers : List (String × Option String)
  location : Option String
  chunks : List (Except String (List UInt8))

/-- A server may answer by all that was asked before. -/
def Servers : Type := List Url → Except String Response

/-- What a response redirects to, where the client can follow it. -/
def Client.redirect (client : Client) (url : Url) (response : Response) : Option Url :=
  if [301, 302, 303, 307, 308].contains response.status then
    (response.location.bind (client.join url)).bind client.resolve
  else none

/-- The client asks for a URL, and it follows redirects as long as some are left. -/
def follow (client : Client) (servers : Servers) :
    Nat → List Url → Url → List Url × Except String Response
  | left, before, url =>
      if !isHttp url then ([], .error "URL scheme is not allowed")
      else
        match servers (before ++ [url]) with
        | .error error => ([url], .error error)
        | .ok response =>
            match client.redirect url response with
            | none => ([url], .ok response)
            | some next =>
                match left with
                | 0 => ([url], .error "too many redirects")
                | left + 1 =>
                    let later := follow client servers left (before ++ [url]) next
                    (url :: later.1, later.2)

structure NetworkFetchRequest where
  url : String
  method : String
  headers : List (String × String)
  body : Option String
  timeoutMs : Option Nat
  maxBytes : Option Nat

structure NetworkFetchResult where
  status : Nat
  headers : Table String String
  body : String
  bytes : Nat
  truncated : Bool

/-- The result comes with every URL that was asked for. -/
structure Outcome where
  result : Except String NetworkFetchResult
  requested : List Url

def refused (error : String) : Outcome :=
  ⟨.error error, []⟩

/-- The hosts whose answers are credentials. -/
def isCloudMetadataHost (host : String) : Bool :=
  let h := Text.lower host.toList
  let h := (h.dropWhile (· = '[')).rdropWhile (· = ']')
  let h := h.rdropWhile (· = '.')
  ["169.254.169.254", "fd00:ec2::254", "100.100.100.200", "metadata.google.internal",
    "168.63.129.16"].any fun known => h = known.toList

def hostStr (url : Url) : Option String :=
  url.host.map UrlHost.Host.text

/-- The URL of a request is checked before anything else of it. -/
def checkUrl (client : Client) (request : NetworkFetchRequest) : Except String Url :=
  match client.parse request.url with
  | .error error => .error ("invalid url: " ++ error)
  | .ok url =>
      if !isHttp url then .error "only http and https are supported"
      else if isCloudMetadataHost ((hostStr url).getD "") then
        .error "cloud metadata endpoints are blocked"
      else .ok url

def parseHeaders (client : Client) : List (String × String) → Except String (List (String × String))
  | [] => .ok []
  | (name, value) :: rest =>
      match client.headerName name with
      | .error error => .error ("invalid header name: " ++ error)
      | .ok name =>
          match client.headerValue value with
          | .error error => .error ("invalid header value: " ++ error)
          | .ok value => (parseHeaders client rest).map fun headers => (name, value) :: headers

def clamp (value low high : Nat) : Nat :=
  Nat.min (Nat.max value low) high

/-- What must be in order before the first request is sent. -/
def prepare (client : Client) (request : NetworkFetchRequest) : Except String Url :=
  match checkUrl client request with
  | .error error => .error error
  | .ok url =>
      match client.method request.method with
      | .error error => .error ("invalid method: " ++ error)
      | .ok _ =>
          match parseHeaders client request.headers with
          | .error error => .error error
          | .ok _ =>
              match client.builds (clamp (request.timeoutMs.getD 30000) 100 120000) with
              | .error error => .error ("http client: " ++ error)
              | .ok () => .ok url

/-- The body is cut off at the limit. -/
def readBody (maxBytes : Nat) : List UInt8 → List (Except String (List UInt8)) →
    Except String (List UInt8 × Bool)
  | bytes, [] => .ok (bytes, false)
  | _, .error error :: _ => .error ("network body: " ++ error)
  | bytes, .ok chunk :: rest =>
      let remaining := maxBytes - bytes.length
      if chunk.length > remaining then .ok (bytes ++ chunk.take remaining, true)
      else if (bytes ++ chunk).length ≥ maxBytes then .ok (bytes ++ chunk, true)
      else readBody maxBytes (bytes ++ chunk) rest

def readResponse (maxBytes : Nat) (response : Response) : Except String NetworkFetchResult :=
  (readBody maxBytes [] response.chunks).map fun read =>
    let headers := response.headers.filterMap fun header =>
      header.2.map fun value => (header.1, value)
    ⟨response.status, headers.foldl (fun table header => table.insert header.1 header.2) ∅,
      Text.lossy read.1, read.1.length, read.2⟩

/-- The default client follows ten redirects. -/
def fetchNetwork (client : Client) (servers : Servers) (request : NetworkFetchRequest) : Outcome :=
  match prepare client request with
  | .error error => refused error
  | .ok url =>
      let answered := follow client servers 10 [] url
      let maxBytes := clamp (request.maxBytes.getD (2 * 1024 * 1024)) 1 (2 * 1024 * 1024)
      match answered.2 with
      | .error error => ⟨.error ("network fetch: " ++ error), answered.1⟩
      | .ok response => ⟨readResponse maxBytes response, answered.1⟩

end NetworkFetch

end Daemon
