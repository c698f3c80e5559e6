import PaciNet.Lib.FormUrlEncoded

/-!
# The event streams of the web client

A browser cannot set headers on an event stream, so the client sends its key in the query.
-/

set_option autoImplicit false

namespace PaciNet

/-- The parameters of `sseUrl` that have a value. -/
def namedParams (params : List (String × String)) : List (String × String) :=
  params.foldl (fun query p => if p.2 ≠ "" then Lib.Form.set query p.1 p.2 else query) []

/-- The query of `sseUrl`: the parameters, then the key, if there is one. -/
def sseQuery (params : List (String × String)) (key : Option String) : String :=
  match key with
  | some key =>
    if key ≠ "" then Lib.Form.serialize (Lib.Form.set (namedParams params) "token" key)
    else Lib.Form.serialize (namedParams params)
  | none => Lib.Form.serialize (namedParams params)

end PaciNet
