import PaciNet.Server.Controller
import PaciNet.Storage.Memory

/-!
# Runs of the controller

The controller over the in-memory backend as a pool, and the conditions on its steps that
statements about its runs share. A law of all runs is a law of the runs under `Interleaved`: the
outside sends requests, the tasks that serve them run in any order, and nothing else happens.
-/

set_option autoImplicit false

namespace PaciNet

open Lib

/-- A controller with its tasks. -/
abbrev Pool := Config Op Op.Res (World MemoryStorage) Request Reply

/-- A task of the controller. -/
abbrev Task := Thread Op Op.Res Request Reply

/-- What a step of the controller is about. -/
abbrev StepLabel := Label (World MemoryStorage) Ext Request

/-- A condition on the steps of a controller. -/
abbrev StepCondition := Pool → StepLabel → Prop

/-- The task is started by the controller itself. -/
def Request.isInternal : Request → Bool
  | .batchTask _ _ _ | .recordAudit _ => true
  | _ => false

/-- The check of `Interleaved`. -/
def interleaved : Pool → StepLabel → Bool
  | _, .arrive q => !q.isInternal
  | _, .run _ _ => true
  | _, .env _ => false

/-- Requests arrive and tasks run in any order, and nothing else happens. -/
def Interleaved : StepCondition := fun c l => interleaved c l

theorem interleaved_sound (c : Pool) (l : StepLabel) (h : interleaved c l) : Interleaved c l := h

/-- A number of turns of a thread, at each of which it would draw another id. -/
def drawingTurns (k start n : Nat) (delivery : Delivery) : List StepLabel :=
  (List.range n).map fun j => .run k ⟨0, "u" ++ toString (start + j), delivery⟩

/-- A listing of nodes has no id twice. -/
def ListsOnce : (o : Op) → o.Res → Prop
  | .storage (.listNodes _), .ok nodes => (nodes.map Node.nodeId).Nodup
  | _, _ => True

/-- The tables of the storage list no id twice. -/
theorem listsOnce_of_exec [Extern] {x : Ext} {o : Op} {w w' : World MemoryStorage} {r : o.Res}
    {new : List Request} (hx : World.exec x o w = some (r, w', new)) : ListsOnce o r := by
  have hs := (World.stepped_of_exec hx).storage
  cases o with
  | storage c =>
    have hr : r = (Storage.call x.now c w.storage).1 := congrArg Prod.fst hs
    cases c with
    | listNodes labelFilter =>
      subst hr
      exact w.storage.nodes.nodup.sublist (List.filter_sublist.map _)
    | _ => trivial
  | _ => trivial

/-- The agent compiles the rules. -/
def Delivery.compiled : Delivery := .answered (.ok ⟨true, "Compiled", []⟩)

/-- No TLS and no event bus. -/
def plainConfig : ControllerConfig := ⟨30, false, false⟩

end PaciNet
