import PaciNet.Lib.Steps
import PaciNet.Server.Deploy

/-!
# The exchange between the controller and one agent

`deploy_to_node` waits for its agent no longer than the deploy timeout, and `deploy_rules` compiles
under a read lock that any number of requests share. So an agent may be at work on several requests
at once, some of which the controller no longer waits for, and it finishes them in any order.

Here a deploy is cut at the messages. A request is named by its place in the order of sending;
nothing on the wire carries that number.
-/

set_option autoImplicit false

namespace PaciNet

open Lib

/-- What the controller and one agent are about. -/
structure Exchange where
  agent : AgentState
  /-- Every request that was sent to the agent, in the order of sending. -/
  sent : List DeployRulesRequest
  /-- The requests the agent has not finished. -/
  atAgent : List Nat
  /-- The answers of the agent, in the order it finished the requests. -/
  answered : List (Nat × DeployRulesResponse)
  /-- The requests the controller waits for. -/
  awaited : List Nat
  /-- The results the controller has recorded. -/
  recorded : List (Nat × DeploymentResult)

namespace Exchange

/-- An agent that has just registered. -/
def boot (nodeId : String) : Exchange := ⟨.boot nodeId, [], [], [], [], []⟩

/-- What happens between the two. -/
inductive Event where
  /-- `forward_deploy_to_agent` sends a request. -/
  | send (req : DeployRulesRequest)
  /-- A request does not reach the agent, or the agent gives it up. -/
  | lose (k : Nat)
  /-- The agent's `deploy_rules` comes to its end. -/
  | finish (k : Nat) (now : DateTime) (compile : Except String CompileResult)
  /-- The answer arrives while the controller waits for it. -/
  | receive (k : Nat)
  /-- The connection breaks. -/
  | fail (k : Nat) (err : String)
  /-- The deploy timeout elapses. -/
  | elapse (k : Nat)

/-- The controller stops waiting for a request and records what came of it. -/
def conclude (cfg : ControllerConfig) (s : Exchange) (k : Nat) (answer : AgentAnswer) :
    Option Exchange :=
  if k ∈ s.awaited then
    some { s with
      awaited := s.awaited.erase k
      recorded := s.recorded ++ [(k, (concludeDeploy cfg answer).2.2.2)] }
  else none

/-- One event, if it can happen. -/
def step [Extern] (cfg : ControllerConfig) (s : Exchange) : Event → Option Exchange
  | .send req => some { s with
      sent := s.sent ++ [req]
      atAgent := s.atAgent ++ [s.sent.length]
      awaited := s.awaited ++ [s.sent.length] }
  | .lose k => some { s with atAgent := s.atAgent.erase k }
  | .finish k now compile =>
    match s.sent[k]? with
    | none => none
    | some req =>
      if k ∈ s.atAgent then
        some { s with
          agent := (s.agent.deployRules now compile req).2
          atAgent := s.atAgent.erase k
          answered := s.answered ++ [(k, (s.agent.deployRules now compile req).1)] }
      else none
  | .receive k =>
    match s.answered.find? fun a => a.1 == k with
    | none => none
    | some a => s.conclude cfg k (.response a.2)
  | .fail k err => s.conclude cfg k (.failed err)
  | .elapse k => s.conclude cfg k .elapsed

/-- The agent has accepted the request sent last. -/
def acceptedNewest (s : Exchange) : Bool :=
  s.answered.any fun a => a.1 + 1 == s.sent.length && a.2.success

/-- The rules of a request. -/
def rulesOf (s : Exchange) (k : Nat) : Option String := s.sent[k]?.map (·.rulesYaml)

end Exchange

end PaciNet
