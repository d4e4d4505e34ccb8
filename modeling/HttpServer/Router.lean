import HttpServer.Lib.Wildcard
import HttpServer.Request

/-! `http::Router`: a trie of path segments.

A node has one child for each literal segment, one child for a parameter, and a
handler for each method. `registerHandler` creates the nodes along a pattern and
names the parameter child on the way; `match` follows a request's path, the
literal child first. -/
namespace HttpServer
open Lib

/-- `Router::Node`. The parameter child's name is kept in the child itself. -/
structure Node (H : Type u) where
  staticChildren : List (Bytes × Node H)
  paramChild : Option (Node H)
  paramName : Bytes
  handlers : Map Bytes H

variable {H : Type u}

/-- A freshly made node. -/
def Node.empty : Node H := ⟨[], none, [], ∅⟩

/-- `children[key] = child` in an association list. -/
def setChild (key : Bytes) (child : Node H) : List (Bytes × Node H) → List (Bytes × Node H)
  | [] => [(key, child)]
  | (k, c) :: rest => if k = key then (key, child) :: rest else (k, c) :: setChild key child rest

/-- `part.starts_with(':')`. -/
def isParam (part : Bytes) : Bool := part.head? == some (ch ':')

/-- The segments of a path, the empty ones dropped. -/
def splitPath (path : Bytes) : List Bytes := (path.splitOn (ch '/')).filter (· ≠ [])

namespace Node

/-- The node after `registerHandler` went down `parts` from it, and what the call
returned: the accumulated pointer is followed into the child, and the child put back. -/
def register (node : Node H) (method : Bytes) (handler : H) : List Bytes → Node H × Int
  | [] =>
    match node.handlers.lookup method with
    | some _ => (node, -1)
    | none => ({node with handlers := node.handlers.insert method handler}, 0)
  | part :: rest =>
    if isParam part then
      let child := node.paramChild.getD empty
      let (child, code) := register {child with paramName := part.drop 1} method handler rest
      ({node with paramChild := some child}, code)
    else
      let child := (node.staticChildren.lookup part).getD empty
      let (child, code) := register child method handler rest
      ({node with staticChildren := setChild part child node.staticChildren}, code)

/-- One step of the fold in `match`: nothing once a node is missing. -/
def matchPart (current : Option (Node H) × Request) (part : Bytes) : Option (Node H) × Request :=
  match current with
  | (none, req) => (none, req)
  | (some node, req) =>
    match node.staticChildren.lookup part with
    | some child => (some child, req)
    | none =>
      match node.paramChild with
      | some child => (some child, req.setParam child.paramName part)
      | none => (none, req)

end Node

structure Router (H : Type u) where
  root : Node H

namespace Router

def empty : Router H := ⟨Node.empty⟩

def registerHandler (r : Router H) (method path : Bytes) (handler : H) : Router H × Int :=
  let (root, code) := r.root.register method handler (splitPath path)
  (⟨root⟩, code)

/-- The path before its query. -/
def pathWithoutQuery (path : Bytes) : Bytes := path.takeWhile (· ≠ ch '?')

/-- `match`: the request afterwards, and the handler where it returns true. -/
def matchRequest (r : Router H) (req : Request) : Request × Option H :=
  let (final, req) :=
    (splitPath (pathWithoutQuery req.path)).foldl Node.matchPart (some r.root, req)
  match final with
  | none => (req, none)
  | some node =>
    match node.handlers.lookup req.method with
    | none => (req, none)
    | some handler => (req.setQueries, some handler)

/-! ### Sequences of registrations -/

/-- One call of `registerHandler`. -/
structure Call (H : Type u) where
  method : Bytes
  path : Bytes
  handler : H

/-- The calls one after the other, and what each returned. -/
def registerAll (r : Router H) : List (Call H) → Router H × List Int
  | [] => (r, [])
  | c :: rest =>
    let (r, code) := r.registerHandler c.method c.path c.handler
    let (r, codes) := registerAll r rest
    (r, code :: codes)

/-- The router a sequence of calls builds. -/
def ofCalls (calls : List (Call H)) : Router H := (registerAll empty calls).1

/-- What the calls of a sequence return. -/
def codes (calls : List (Call H)) : List Int := (registerAll empty calls).2

end Router
end HttpServer
