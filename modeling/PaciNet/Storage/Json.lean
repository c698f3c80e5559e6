import PaciNet.Core.Fsm.Document
import PaciNet.Storage.Rows

/-!
# Definitions as JSON

What the SQLite backend stores of a definition is the text `serde_json` writes for it, told here
by the document the text denotes. A float that is not finite is written as null (`writeF64`). A
finite one is written with the digits that single it out, but what is read of these digits is the
same float for certain only with the feature `float_roundtrip`, which is not switched on.
-/

set_option autoImplicit false

namespace PaciNet

open Lib

/-- What `serde_json` does with a text. -/
class JsonText where
  /-- The float that is read from the digits of a finite float. -/
  readFloat : F64 → F64
  /-- What the error for a document that is not read says. -/
  errorText : Content F64 → String
  /-- What is read from the text of an instance. -/
  readInstance : FsmInstance → StorageResult FsmInstance

/-- Every float is read as itself. -/
@[reducible] def JsonText.sample : JsonText where
  readFloat x := x
  errorText _ := "invalid definition"
  readInstance inst := .ok inst

/-- The document that `serde_json` reads in the text of the definition. -/
def FsmDefinition.stored [JsonText] (d : FsmDefinition) : Content F64 :=
  (FsmDefinition.codec.write d).mapFloats JsonText.readFloat

instance JsonText.instSerdeJson [JsonText] : SerdeJson where
  readDefinition d :=
    match FsmDefinition.codec.read d.stored with
    | some d' => .ok d'
    | none => .error (.internal (JsonText.errorText d.stored))
  readInstance := JsonText.readInstance

end PaciNet
