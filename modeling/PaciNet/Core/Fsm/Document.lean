import PaciNet.Core.Fsm.Parse
import PaciNet.Lib.Codec

/-!
# Definitions in a document

The derived `Serialize` and `Deserialize` of a definition, type by type: which fields there are
under which names, which of them may be missing, and what they are then. `from_yaml` reads a
definition from what the YAML parser hands on, and the SQLite backend stores one as JSON.

A tagged value of YAML is told as JSON has it, as a mapping from the tag. How deep a document is
nested is not looked at: of the types here only a compound condition nests.
-/

set_option autoImplicit false

namespace PaciNet

open Lib

/-! ## Numbers and names -/

/-- A `u32`. -/
def u32 : Codec F64 Nat := .nat 4294967296

/-- A `u64`. -/
def u64 : Codec F64 Nat := .nat 18446744073709551616

/-- A unit variant is its name in snake case. -/
def FsmKind.codec : Codec F64 FsmKind where
  write kind := .str kind.toString
  read
    | .str "deployment" => some .deployment
    | .str "adaptive_policy" => some .adaptivePolicy
    | _ => none
  write_ne_null _ := by simp

/-- An untagged enumeration. -/
def ConditionDefinition.codec : Codec F64 ConditionDefinition where
  write cond := cond.toContent true
  read := ofContent
  write_ne_null cond := by
    rw [toContent.eq_def]
    cases cond <;>
      simp [CounterCondition.toContent, SimpleCondition.toContent, Content.struct]

/-! ## Actions -/

def NodeSelector.codec : Codec F64 NodeSelector :=
  .record
    (.cons "label" (.orDefault ∅ (.dict .text)) <|
      .cons "limit" (.optional u32) .nil)
    ⟨fun s => (s.label, s.limit, ()), fun (label, limit, ()) => ⟨label, limit⟩,
      fun _ => rfl, fun _ => rfl⟩

def CompileOptions.codec : Codec F64 CompileOptions :=
  .record
    (.cons "counters" (.orDefault false .bool) <|
      .cons "rate_limit" (.orDefault false .bool) <|
      .cons "conntrack" (.orDefault false .bool) <|
      .cons "axi" (.orDefault false .bool) <|
      .cons "ports" (.orDefault 1 u32) <|
      .cons "target" (.orDefault "standalone" .text) <|
      .cons "dynamic" (.orDefault false .bool) <|
      .cons "dynamic_entries" (.orDefault 16 u32) <|
      .cons "width" (.orDefault 8 u32) <|
      .cons "ptp" (.orDefault false .bool) <|
      .cons "rss" (.orDefault false .bool) <|
      .cons "rss_queues" (.orDefault 4 u32) <|
      .cons "int" (.orDefault false .bool) <|
      .cons "int_switch_id" (.orDefault 0 u32) .nil)
    ⟨fun o => (o.counters, o.rateLimit, o.conntrack, o.axi, o.ports, o.target, o.dynamic,
        o.dynamicEntries, o.width, o.ptp, o.rss, o.rssQueues, o.intEnabled, o.intSwitchId, ()),
      fun (counters, rateLimit, conntrack, axi, ports, target, dynamic, dynamicEntries, width, ptp,
          rss, rssQueues, intEnabled, intSwitchId, ()) =>
        ⟨counters, rateLimit, conntrack, axi, ports, target, dynamic, dynamicEntries, width, ptp,
          rss, rssQueues, intEnabled, intSwitchId⟩,
      fun _ => rfl, fun _ => rfl⟩

def DeployAction.codec : Codec F64 DeployAction :=
  .record
    (.cons "select" (.required NodeSelector.codec) <|
      .cons "batch_percent" (.optional u32) <|
      .cons "options" (.optional CompileOptions.codec) .nil)
    ⟨fun a => (a.select, a.batchPercent, a.options, ()),
      fun (select, batchPercent, options, ()) => ⟨select, batchPercent, options⟩,
      fun _ => rfl, fun _ => rfl⟩

/-- A variant with a value is a mapping from its name. -/
def RollbackTarget.codec : Codec F64 RollbackTarget where
  write
    | .previous => .str "previous"
    | .version v => .map [("version", u64.write v)]
  read
    | .str "previous" => some .previous
    | .map [("version", v)] => (u64.read v).map .version
    | _ => none
  write_ne_null target := by cases target <;> simp

def RollbackAction.codec : Codec F64 RollbackAction :=
  .record (.cons "target" (.required RollbackTarget.codec) .nil)
    ⟨fun a => (a.target, ()), fun (target, ()) => ⟨target⟩, fun _ => rfl, fun _ => rfl⟩

def BasicAuth.codec : Codec F64 BasicAuth :=
  .record
    (.cons "username" (.required .text) <|
      .cons "password" (.required .text) .nil)
    ⟨fun b => (b.username, b.password, ()), fun (username, password, ()) => ⟨username, password⟩,
      fun _ => rfl, fun _ => rfl⟩

def WebhookConfig.codec : Codec F64 WebhookConfig :=
  .record
    (.cons "url" (.required .text) <|
      .cons "method" (.optional .text) <|
      .cons "bearer_token" (.optional .text) <|
      .cons "basic_auth" (.optional BasicAuth.codec) <|
      .cons "timeout_seconds" (.optional u64) <|
      .cons "max_retries" (.optional u32) <|
      .cons "headers" (.orDefault ∅ (.dict .text)) .nil)
    ⟨fun w => (w.url, w.method, w.bearerToken, w.basicAuth, w.timeoutSeconds, w.maxRetries,
        w.headers, ()),
      fun (url, method, bearerToken, basicAuth, timeoutSeconds, maxRetries, headers, ()) =>
        ⟨url, method, bearerToken, basicAuth, timeoutSeconds, maxRetries, headers⟩,
      fun _ => rfl, fun _ => rfl⟩

def AlertAction.codec : Codec F64 AlertAction :=
  .record
    (.cons "channel" (.optional .text) <|
      .cons "message" (.required .text) <|
      .cons "webhook" (.optional WebhookConfig.codec) .nil)
    ⟨fun a => (a.channel, a.message, a.webhook, ()),
      fun (channel, message, webhook, ()) => ⟨channel, message, webhook⟩,
      fun _ => rfl, fun _ => rfl⟩

def ActionDefinition.codec : Codec F64 ActionDefinition :=
  .record
    (.cons "deploy" (.optional DeployAction.codec) <|
      .cons "rollback" (.optional RollbackAction.codec) <|
      .cons "alert" (.optional AlertAction.codec) .nil)
    ⟨fun a => (a.deploy, a.rollback, a.alert, ()),
      fun (deploy, rollback, alert, ()) => ⟨deploy, rollback, alert⟩,
      fun _ => rfl, fun _ => rfl⟩

/-! ## States -/

def TransitionDefinition.codec : Codec F64 TransitionDefinition :=
  .record
    (.cons "to" (.required .text) <|
      .cons "when" (.optional ConditionDefinition.codec) <|
      .cons "after" (.optional .text) .nil)
    ⟨fun t => (t.toState, t.when?, t.after, ()),
      fun (toState, when?, after, ()) => ⟨toState, when?, after⟩,
      fun _ => rfl, fun _ => rfl⟩

def StateDefinition.codec : Codec F64 StateDefinition :=
  .record
    (.cons "action" (.optional ActionDefinition.codec) <|
      .cons "transitions" (.orDefault [] (.list TransitionDefinition.codec)) <|
      .cons "terminal" (.orDefault false .bool) .nil)
    ⟨fun s => (s.action, s.transitions, s.terminal, ()),
      fun (action, transitions, terminal, ()) => ⟨action, transitions, terminal⟩,
      fun _ => rfl, fun _ => rfl⟩

def FsmDefinition.codec : Codec F64 FsmDefinition :=
  .record
    (.cons "name" (.required .text) <|
      .cons "description" (.required .text) <|
      .cons "kind" (.required FsmKind.codec) <|
      .cons "initial" (.required .text) <|
      .cons "states" (.required (.dict StateDefinition.codec)) .nil)
    ⟨fun d => (d.name, d.description, d.kind, d.initial, d.states, ()),
      fun (name, description, kind, initial, states, ()) =>
        ⟨name, description, kind, initial, states⟩,
      fun _ => rfl, fun _ => rfl⟩

/-- `FsmDefinition::from_yaml` gives the definition for some YAML. -/
def FsmDefinition.FromYaml (d : FsmDefinition) : Prop := FsmDefinition.codec.Readable d

end PaciNet
