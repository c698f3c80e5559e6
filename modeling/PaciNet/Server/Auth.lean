import Mathlib.Data.List.Basic

/-!
# Who may call the REST API

A server configured with a key lets a request through that carries it, in the `Authorization`
header or, for event streams, in the query.
-/

set_option autoImplicit false

namespace PaciNet

/-- `strip_prefix("Bearer ")` of the header, compared with the key. -/
def bearerOk (expectedKey : String) (authorization : Option String) : Bool :=
  match authorization with
  | some v =>
    "Bearer ".toList.isPrefixOf v.toList && v.toList.drop 7 == expectedKey.toList
  | none => false

/-- The first part of the query that starts with `token=`, compared with the key. -/
def tokenOk (expectedKey : String) (query : Option String) : Bool :=
  match query with
  | some q =>
    match (q.toList.splitOn '&').find? fun p => "token=".toList.isPrefixOf p with
    | some p => p.drop 6 == expectedKey.toList
    | none => false
  | none => false

/-- `auth_middleware`: whether the request goes on to its handler. A header that is not visible
    ASCII counts as absent. -/
def authMiddleware (apiKey authorization query : Option String) : Bool :=
  match apiKey with
  | some expectedKey => bearerOk expectedKey authorization || tokenOk expectedKey query
  | none => true

end PaciNet
