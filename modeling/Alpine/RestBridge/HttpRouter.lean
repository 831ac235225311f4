import Alpine.Lib.Trie
import Alpine.RestBridge.HttpRequest

/-!
# The router

`addRoute` puts a pattern into a trie of segments, in which a node has one child for all parameters,
and `dispatch` and `isSlowRoute` walk it, taking the child of a literal segment if there is one.
-/

namespace Alpine

open Lib

inductive HttpMethod where
  | GET
  | POST
  | PUT
  | DELETE_
  | PATCH
  | HEAD
  | OPTIONS
  | UNKNOWN
  deriving DecidableEq, Repr

structure HandlerEntry (H : Type) where
  handler : H
  slow : Bool

/-- What a node has besides its children: the name of the parameter that leads to it, and the
handlers. -/
structure NodeData (H : Type) where
  paramName : List UInt8
  handlers : UMap HttpMethod (HandlerEntry H)

/-- The children of a node are the literal ones and the one for parameters. -/
inductive Label where
  | literal (segment : List UInt8)
  | param
  deriving DecidableEq, Repr

abbrev TrieNode (H : Type) := Trie Label (NodeData H)

/-- A call of `addRoute`; the overloads without `slow` pass `false`. -/
structure Route (H : Type) where
  method : List UInt8
  pattern : List UInt8
  handler : H
  slow : Bool

/-- The middleware says whether a request is let through, and what is answered if it is not. -/
structure HttpRouter (H R : Type) where
  root : TrieNode H
  authMiddleware : Option (HttpRequest → Bool × R)

abbrev RouteParams := UMap (List UInt8) (List UInt8)

/-- What `dispatch` answers with. -/
inductive Answer (H R : Type) where
  | preflight
  | notFound
  | methodNotAllowed
  | unauthorized (response : R)
  | handled (handler : H) (params : RouteParams)

namespace HttpRouter

variable {H R : Type}

def parseMethod (method : List UInt8) : HttpMethod :=
  if method = utf8 ['G', 'E', 'T'] then .GET
  else if method = utf8 ['P', 'O', 'S', 'T'] then .POST
  else if method = utf8 ['P', 'U', 'T'] then .PUT
  else if method = utf8 ['D', 'E', 'L', 'E', 'T', 'E'] then .DELETE_
  else if method = utf8 ['P', 'A', 'T', 'C', 'H'] then .PATCH
  else if method = utf8 ['H', 'E', 'A', 'D'] then .HEAD
  else if method = utf8 ['O', 'P', 'T', 'I', 'O', 'N', 'S'] then .OPTIONS
  else .UNKNOWN

def dropLeadingSlash (s : List UInt8) : List UInt8 := if s.head? = some (byte '/') then s.tail else s

def dropTrailingSlash (s : List UInt8) : List UInt8 :=
  if s.getLast? = some (byte '/') then s.dropLast else s

/-- The segments that a walk comes to; behind a slash at the end there is none. -/
def splitSegments (s : List UInt8) : List (List UInt8) :=
  match s.splitOn (byte '/') with
  | segments => if segments.getLast? = some [] then segments.dropLast else segments

/-- A segment of a pattern; a parameter has a name. -/
inductive Segment where
  | literal (segment : List UInt8)
  | param (name : List UInt8)
  deriving DecidableEq, Repr

def toSegment (s : List UInt8) : Segment :=
  if s.head? = some (byte ':') then .param s.tail else .literal s

def patternSegments (pattern : List UInt8) : List Segment :=
  (splitSegments (dropLeadingSlash pattern)).map toSegment

def pathSegments (path : List UInt8) : List (List UInt8) :=
  splitSegments (dropTrailingSlash (dropLeadingSlash path))

namespace Segment

def label : Segment → Label
  | literal segment => .literal segment
  | param _ => .param

def name : Segment → List UInt8
  | literal _ => []
  | param name => name

end Segment

/-- The node of a segment that is new; it keeps the name of its parameter. -/
def newNode (segment : Segment) : NodeData H := ⟨segment.name, ∅⟩

def setHandler (method : HttpMethod) (entry : HandlerEntry H) (data : NodeData H) : NodeData H :=
  { data with handlers := data.handlers.assign method entry }

def addRoute (root : TrieNode H) (route : Route H) : TrieNode H :=
  root.alter Segment.label newNode
    (setHandler (parseMethod route.method) ⟨route.handler, route.slow⟩)
    (patternSegments route.pattern)

def build (routes : List (Route H)) : TrieNode H := routes.foldl addRoute (Trie.leaf ⟨[], ∅⟩)

/-- The walk of `dispatch`, which collects the parameters; `none` if there is no next node. -/
def walk : TrieNode H → List (List UInt8) → RouteParams → Option (TrieNode H × RouteParams)
  | node, [], params => some (node, params)
  | node, segment :: segments, params =>
    match node.child (.literal segment) with
    | some next => walk next segments params
    | none =>
      match node.child .param with
      | some next => walk next segments (params.assign next.value.paramName segment)
      | none => none

def dispatch (router : HttpRouter H R) (request : HttpRequest) : Answer H R :=
  if request.method = utf8 ['O', 'P', 'T', 'I', 'O', 'N', 'S'] then .preflight
  else
    match walk router.root (pathSegments request.path) ∅ with
    | none => .notFound
    | some (node, params) =>
      if node.value.handlers.keys = [] then .notFound
      else
        match node.value.handlers.find (parseMethod request.method) with
        | none => .methodNotAllowed
        | some entry =>
          match router.authMiddleware with
          | none => .handled entry.handler params
          | some authMiddleware =>
            if (authMiddleware request).1 then .handled entry.handler params
            else .unauthorized (authMiddleware request).2

/-- The walk of `isSlowRoute`. -/
def slowWalk : TrieNode H → List (List UInt8) → Option (TrieNode H)
  | node, [] => some node
  | node, segment :: segments =>
    match node.child (.literal segment) with
    | some next => slowWalk next segments
    | none =>
      match node.child .param with
      | some next => slowWalk next segments
      | none => none

def isSlowRoute (router : HttpRouter H R) (request : HttpRequest) : Bool :=
  match slowWalk router.root (pathSegments request.path) with
  | none => false
  | some node =>
    match node.value.handlers.find (parseMethod request.method) with
    | none => false
    | some entry => entry.slow

end HttpRouter

end Alpine
