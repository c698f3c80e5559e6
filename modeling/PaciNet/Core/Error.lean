/-!
# Errors

`FsmError`, `PaciNetError` and the gRPC status a `PaciNetError` becomes, with the texts their
`Display` writes. A status carries its code and its message.
-/

set_option autoImplicit false

namespace PaciNet

inductive FsmError where
  | invalidDefinition (msg : String)
  | instanceNotFound (id : String)
  | definitionNotFound (name : String)
  | invalidState (state : String)
  | noTransition (msg : String)
  | alreadyCompleted
  | actionError (msg : String)
  | yamlParse (msg : String)
  deriving DecidableEq, Repr

protected def FsmError.toString : FsmError → String
  | .invalidDefinition msg => "invalid FSM definition: " ++ msg
  | .instanceNotFound id => "FSM instance not found: " ++ id
  | .definitionNotFound name => "FSM definition not found: " ++ name
  | .invalidState state => "invalid state: " ++ state
  | .noTransition msg => "no valid transition from current state: " ++ msg
  | .alreadyCompleted => "FSM instance already completed"
  | .actionError msg => "FSM action error: " ++ msg
  | .yamlParse msg => "YAML parse error: " ++ msg

inductive PaciNetError where
  | nodeNotFound (id : String)
  | nodeAlreadyRegistered (id : String)
  | deploymentFailed (msg : String)
  | pacGateError (msg : String)
  | agentUnreachable (msg : String)
  | invalidConfig (msg : String)
  | invalidStateTransition (src dst : String)
  | concurrentDeploy (id : String)
  | fsm (e : FsmError)
  | internal (msg : String)
  deriving DecidableEq, Repr

protected def PaciNetError.toString : PaciNetError → String
  | .nodeNotFound id => "node not found: " ++ id
  | .nodeAlreadyRegistered id => "node already registered: " ++ id
  | .deploymentFailed msg => "deployment failed: " ++ msg
  | .pacGateError msg => "pacgate error: " ++ msg
  | .agentUnreachable msg => "agent unreachable: " ++ msg
  | .invalidConfig msg => "invalid configuration: " ++ msg
  | .invalidStateTransition src dst =>
      "invalid state transition from " ++ src ++ " to " ++ dst
  | .concurrentDeploy id => "concurrent deploy in progress for node: " ++ id
  | .fsm e => "FSM error: " ++ e.toString
  | .internal msg => "internal error: " ++ msg

/-- The gRPC status codes the controller answers with. -/
inductive Code where
  | notFound
  | alreadyExists
  | failedPrecondition
  | internal
  | unavailable
  | invalidArgument
  | aborted
  deriving DecidableEq, Repr

/-- `tonic::Status`. -/
structure Status where
  code : Code
  message : String
  deriving DecidableEq, Repr

/-- `From<PaciNetError> for tonic::Status`. -/
def PaciNetError.toStatus (err : PaciNetError) : Status :=
  match err with
  | .nodeNotFound _ => ⟨.notFound, err.toString⟩
  | .nodeAlreadyRegistered _ => ⟨.alreadyExists, err.toString⟩
  | .deploymentFailed _ => ⟨.failedPrecondition, err.toString⟩
  | .pacGateError _ => ⟨.internal, err.toString⟩
  | .agentUnreachable _ => ⟨.unavailable, err.toString⟩
  | .invalidConfig _ => ⟨.invalidArgument, err.toString⟩
  | .invalidStateTransition _ _ => ⟨.failedPrecondition, err.toString⟩
  | .concurrentDeploy _ => ⟨.aborted, err.toString⟩
  | .fsm (.instanceNotFound _) | .fsm (.definitionNotFound _) => ⟨.notFound, err.toString⟩
  | .fsm .alreadyCompleted => ⟨.failedPrecondition, err.toString⟩
  | .fsm (.invalidDefinition _) | .fsm (.yamlParse _) => ⟨.invalidArgument, err.toString⟩
  | .fsm _ => ⟨.internal, err.toString⟩
  | .internal _ => ⟨.internal, err.toString⟩

/-- Whatever the code, the message of a status is the text of the error. -/
@[simp] theorem PaciNetError.toStatus_message (err : PaciNetError) :
    err.toStatus.message = err.toString := by
  cases err with
  | fsm e => cases e <;> rfl
  | _ => rfl

end PaciNet
