import KubeLedger.Http.Message
import KubeLedger.Json.Source

/- Listings and watches of a cluster, and why a call to it failed. A listing has all objects of a type,
   with the version of the cluster that it shows. Each line of the body of a watch is one event: an
   object that was added, modified or deleted, or an error of the cluster. An event is written as its
   type and its object, under their names in any order or as an array of the two. -/
namespace KubeLedger

/-! ## Failures -/

/-- Why a call to the cluster failed. -/
inductive ClientError where
  /-- The cluster could not be reached, or its answer broke off. -/
  | connection
  /-- The answer cannot be understood. -/
  | malformed
  /-- The answer has a status that is no success. -/
  | status (code : Nat)
  /-- No valid request could be made. -/
  | request
  /-- The address of the cluster is no address. -/
  | endpoint (url : String)
deriving DecidableEq, Repr

namespace ClientError

/-- Whether the answer says that something is gone for good. -/
def isGone (e : ClientError) : Bool := e == .status 410

/-- The failure in words, where they are not those of a lower layer. -/
def message? : ClientError → Option String
  | .endpoint url => some ("Invalid api server endpoint: '" ++ url ++ "'")
  | _ => none

end ClientError

/-! ## Listings -/

structure Listing where
  /-- The version of the cluster, if the listing says it. -/
  version : Option String
  items : List Json

namespace Listing

def versionOf? (s : Json.Source) : Option (Option String) := do
  let f ← s.fields? ["resourceVersion"]
  match f.required? 0 with
  | some v => v.asOptText?
  | none => if f.positional then none else some none

def itemsOf? : Json.Source → Option (List Json)
  | .array items => items.mapM fun i => i.value? (Json.depthMax - 2)
  | _ => none

/-- Reads a listing. The metadata may be missing, the items may not. -/
def ofSource? (s : Json.Source) : Option Listing := do
  let f ← s.fields? ["metadata", "items"]
  let version ← f.optional? 0 none versionOf?
  let items ← (f.required? 1).bind itemsOf?
  return ⟨version, items⟩

end Listing

/-! ## Watches -/

open KubeLedger.Text

/-- An error that the cluster reports. -/
structure ApiError where
  status : String
  message : String
  reason : String
  code : Nat
deriving DecidableEq, Repr

def ApiError.words (e : ApiError) : String :=
  "Api Error: status: '" ++ e.status ++ "', code: " ++ toString e.code ++ ", reason: '" ++
    e.reason ++ "', message: '" ++ e.message ++ "'"

/-- Reads an error. Its message and reason may be missing. -/
def ApiError.ofSource? (s : Json.Source) : Option ApiError := do
  let f ← s.fields? ["status", "message", "reason", "code"]
  let status ← (f.required? 0).bind Json.Source.asText?
  let message ← f.optional? 1 "" Json.Source.asText?
  let reason ← f.optional? 2 "" Json.Source.asText?
  let code ← (f.required? 3).bind (Json.Source.asNat? 65536)
  return ⟨status, message, reason, code⟩

inductive WatchEvent where
  | added (object : Json)
  | modified (object : Json)
  | deleted (object : Json)
  | error (error : ApiError)

namespace WatchEvent

def ofParts? (type : String) (object : Json.Source) : Option WatchEvent :=
  let value := object.value? (Json.depthMax - 1)
  if type = "ADDED" then value.map .added
  else if type = "MODIFIED" then value.map .modified
  else if type = "DELETED" then value.map .deleted
  else if type = "ERROR" then (ApiError.ofSource? object).map .error
  else none

def objectFirst : List (String × Json.Source) → Bool
  | [] => false
  | (n, _) :: rest => if n = "object" then true else if n = "type" then false else objectFirst rest

/-- Reads an event. An object that comes before its type has to be a value whatever the type is. -/
def ofSource? (s : Json.Source) : Option WatchEvent := do
  let f ← s.fields? ["type", "object"]
  let type ← (f.required? 0).bind Json.Source.asText?
  let object ← f.required? 1
  let early :=
    match s with
    | .object members => ((Json.Source.named? members).map objectFirst).getD false
    | _ => false
  if early && (object.value? (Json.depthMax - 1)).isNone then none
  ofParts? type object

def read? (bs : Bytes) : Option WatchEvent := (Json.Source.read? bs).bind ofSource?

end WatchEvent

/-- What a watch delivers: an event, a line that is no event, or a failure of the body. -/
inductive WatchItem where
  | event (e : WatchEvent)
  | malformed
  | failure

/-- The items of a watch: one for each line that is not empty, and one for each failure. -/
def watchItems (body : List BodyItem) : List WatchItem :=
  (lines body).filterMap fun l =>
    match l with
    | none => some .failure
    | some l =>
      if l.isSpent then none
      else
        match WatchEvent.read? l.flatten with
        | some e => some (.event e)
        | none => some .malformed

end KubeLedger
