import KubeLedger.Cluster.Watch
import KubeLedger.ClusterObject
import KubeLedger.Text.Case

/- Access to a cluster over HTTP. Every question is one request to an address below that of the
   cluster, which shows the credentials. Objects that are not there, and logs that are not there
   yet, are no failures. -/
namespace KubeLedger

/-- The address of a cluster and the credentials that it is shown. -/
structure ClientConfig where
  endpoint : String
  /-- The whole value of the authorization header. -/
  authorization : String
  caFile : Option String
  userAgent : String
  verify : Bool
deriving DecidableEq, Repr

/-- The settings for a bearer token. White space around the token is dropped. -/
def ClientConfig.ofToken (endpoint token userAgent : String) : ClientConfig :=
  ⟨endpoint, "Bearer " ++ Text.trim token, none, userAgent, true⟩

open KubeLedger.Text KubeLedger.Http

/-- Access to a cluster. -/
structure Client where
  config : ClientConfig

namespace Client

/-- What the cluster is asked, which may fail. -/
abbrev Ask (α : Type) := ExceptT ClientError Conversation α

/-- The access with some settings. It needs the file of authorities that they name. -/
def of? (canLoad : String → Bool) (c : ClientConfig) : Except ClientError Client :=
  if c.caFile.all canLoad then .ok ⟨c⟩ else .error .connection

/-- The segments of the address of objects of a type: all of them, or one by its name. -/
def segments (t : ResourceType) (ns name : Option String) : List String :=
  (if t.group = "" then ["api"] else ["apis", t.group]) ++ [t.version] ++
    (ns.elim [] fun n => ["namespaces", n]) ++ [t.plural] ++ name.toList

def address (c : Client) (t : ResourceType) (ns name : Option String) : Except ClientError Url :=
  match Url.read? c.config.endpoint with
  | some base =>
    if base.isBase then .ok (base.below (segments t ns name))
    else .error (.endpoint c.config.endpoint)
  | none => .error (.endpoint c.config.endpoint)

/-- The headers of every request. -/
def headers (c : Client) : List Header :=
  [⟨"authorization", c.config.authorization⟩, ⟨"user-agent", c.config.userAgent⟩]

def request (c : Client) (u : Url) : Except ClientError Request :=
  match Request.of? u c.headers with
  | some r => .ok r
  | none => .error .request

def listRequest (c : Client) (t : ResourceType) (ns : Option String) : Except ClientError Request :=
  c.address t ns none >>= c.request

def getRequest (c : Client) (t : ResourceType) (id : ObjectId) : Except ClientError Request :=
  c.address t id.ns? (some id.name) >>= c.request

def watchRequest (c : Client) (t : ResourceType) (ns version : Option String) :
    Except ClientError Request := do
  let u ← c.address t ns none
  let u := u.withPair "watch" "true"
  c.request (version.elim u fun v => u.withPair "resourceVersion" v)

def logsRequest (c : Client) (pod : ObjectId) (container : String) :
    Except ClientError Request := do
  let u ← c.address .pod pod.ns? (some pod.name)
  c.request ((u.below ["log"]).withPair "container" container)

def send (r : Except ClientError Request) : Ask Response :=
  ExceptT.mk <|
    match r with
    | .error e => .done (.error e)
    | .ok r =>
      .ask r fun a =>
        .done (a.elim (.error .connection) fun response => .ok response.arriving)

def content (r : Response) : Except ClientError Bytes :=
  r.content?.elim (.error .connection) .ok

def decoded {α : Type} (read : Bytes → Option α) (r : Response) : Except ClientError α := do
  if !r.isSuccess then .error (.status r.status)
  let bytes ← content r
  (read bytes).elim (.error .malformed) .ok

def list (c : Client) (t : ResourceType) (ns : Option String) : Ask Listing := do
  let r ← send (c.listRequest t ns)
  ExceptT.mk (.done (decoded (fun bs => (Json.Source.read? bs).bind Listing.ofSource?) r))

def found (r : Response) : Except ClientError (Option Json) :=
  match decoded Json.read? r with
  | .ok value => .ok (some value)
  | .error e => if e = .status 404 then .ok none else .error e

def get (c : Client) (t : ResourceType) (id : ObjectId) : Ask (Option Json) := do
  let r ← send (c.getRequest t id)
  ExceptT.mk (.done (found r))

/-- The logs that an answer holds. A container that has not started, or is gone, has none. -/
def logText (r : Response) : Except ClientError (Option String) :=
  if r.isSuccess then (content r).map fun bs => some (decodeLossy bs)
  else if r.status = 400 ∨ r.status = 404 then .ok none
  else .error (.status r.status)

def logs (c : Client) (pod : ObjectId) (container : String) : Ask (Option String) := do
  let r ← send (c.logsRequest pod container)
  ExceptT.mk (.done (logText r))

/-- Gets the usage of a pod. What is no object counts as missing. -/
def usage (c : Client) (pod : ObjectId) : Ask (Option ClusterObject) := do
  let value ← c.get .podMetrics pod
  return value.bind fun v => (ClusterObject.ofJson v).toOption

/-- Watches objects of a type. The watch ends when the cluster ends the answer. -/
def watch (c : Client) (t : ResourceType) (ns version : Option String) : Ask (List WatchItem) := do
  let r ← send (c.watchRequest t ns version)
  ExceptT.mk (.done (if r.isSuccess then .ok (watchItems r.body) else .error (.status r.status)))

end Client

end KubeLedger
