import PaciNet.Agent.Pacgate
import PaciNet.Server.Deploy

/-!
# The capability gate

A deploy is refused if the node does not advertise what its options need. What they turn on is
decided by the agent, from the same options, when it builds the command line of the compiler: there
a queue count that is not the default turns on RSS, and a switch id that is not zero turns on INT.
The gate asks for `compile.rss_queues` and `compile.int_switch_id` then, but for `compile.rss` and
`compile.int` only if the options themselves are set.

**The gate covers what the agent turns on exactly if the node advertises RSS and INT where they are
only implied**, or the options are refused for another reason.
-/

set_option autoImplicit false

namespace PaciNet

/-! ## The law -/

/-- The feature flags, with the capability of each and what turns it on. -/
def features (options : CompileOptions) : List (String × String × Bool) :=
  [("--axi", "compile.axi", options.axi),
   ("--ports", "compile.ports", options.ports > 1),
   ("--dynamic", "compile.dynamic", options.dynamic),
   ("--ptp", "compile.ptp", options.ptp),
   ("--rss", "compile.rss", options.rss || options.rssQueues != 4),
   ("--int", "compile.int", options.intEnabled || options.intSwitchId != 0)]

/-- **If the gate accepts the options, the node advertises every feature the agent turns on.** -/
def GateCovers (node : Node) (options : CompileOptions) : Prop :=
  ensureNodeCapabilities node (normalizeOptions options) = .ok () →
    ∀ f ∈ features (normalizeOptions options), TurnsOn (normalizeOptions options) f.1 →
      capabilityTrue node f.2.1 = true

/-- A feature that is only implied by its parameter is advertised. -/
def ImpliedAdvertised (node : Node) (options : CompileOptions) : Prop :=
  (options.rssQueues ≠ 4 → options.rss = false → capabilityTrue node "compile.rss" = true) ∧
    (options.intSwitchId ≠ 0 → options.intEnabled = false →
      capabilityTrue node "compile.int" = true)

/-! ## The flags -/

/-- The table says when a flag is on the command line. -/
theorem turnsOn_iff {options : CompileOptions} {f : String × String × Bool}
    (h : f ∈ features options) : TurnsOn options f.1 ↔ f.2.2 = true := by
  simp only [features, List.mem_cons, List.not_mem_nil, or_false] at h
  unfold TurnsOn
  rw [List.mem_map]
  rcases h with rfl | rfl | rfl | rfl | rfl | rfl <;> simp [applyCompileFlags]

/-! ## The gate -/

theorem ensureNodeCapabilities_iff {node : Node} {options : CompileOptions} :
    ensureNodeCapabilities node options = .ok () ↔
      ∀ r ∈ requiredCapabilities options, r.1 = true → capabilityTrue node r.2 = true := by
  unfold ensureNodeCapabilities
  cases h : (requiredCapabilities options).find? fun r => r.1 && !capabilityTrue node r.2 with
  | none =>
    rw [List.find?_eq_none] at h
    refine iff_of_true rfl fun r hr hneeded => ?_
    simpa [hneeded] using h r hr
  | some r =>
    have hr := List.mem_of_find?_eq_some h
    have hmissing := List.find?_some h
    rw [Bool.and_eq_true, Bool.not_eq_true'] at hmissing
    refine iff_of_false (by simp) fun hall => ?_
    rw [hall r hr hmissing.1] at hmissing
    exact absurd hmissing.2 (by simp)

/-- What the gate lets through: a feature that is set, or implied by a parameter that is. -/
theorem advertised_of_accepted {node : Node} {options : CompileOptions}
    (haccepted : ensureNodeCapabilities node options = .ok ())
    (himplied : ImpliedAdvertised node options) {f : String × String × Bool}
    (hf : f ∈ features options) (hon : f.2.2 = true) : capabilityTrue node f.2.1 = true := by
  have hrequired := ensureNodeCapabilities_iff.mp haccepted
  simp only [features, List.mem_cons, List.not_mem_nil, or_false] at hf
  rcases hf with rfl | rfl | rfl | rfl | rfl | rfl
  · exact hrequired (options.axi, "compile.axi") (by simp [requiredCapabilities]) hon
  · exact hrequired (decide (options.ports > 1), "compile.ports") (by simp [requiredCapabilities])
      hon
  · exact hrequired (options.dynamic, "compile.dynamic") (by simp [requiredCapabilities]) hon
  · exact hrequired (options.ptp, "compile.ptp") (by simp [requiredCapabilities]) hon
  · cases hrss : options.rss with
    | true => exact hrequired (options.rss, "compile.rss") (by simp [requiredCapabilities]) hrss
    | false => exact himplied.1 (by simpa [hrss] using hon) hrss
  · cases hint : options.intEnabled with
    | true =>
      exact hrequired (options.intEnabled, "compile.int") (by simp [requiredCapabilities]) hint
    | false => exact himplied.2 (by simpa [hint] using hon) hint

/-- **The gate covers what the agent turns on** exactly if it refuses the options, or the node
    advertises the features that are only implied. -/
theorem gateCovers_iff (node : Node) (options : CompileOptions) :
    GateCovers node options ↔
      (ensureNodeCapabilities node (normalizeOptions options) = .ok () →
        ImpliedAdvertised node (normalizeOptions options)) := by
  constructor
  · intro hcovers haccepted
    have hon (flag capability : String)
        (hf : (flag, capability, true) ∈ features (normalizeOptions options)) :
        capabilityTrue node capability = true :=
      hcovers haccepted _ hf ((turnsOn_iff hf).mpr rfl)
    refine ⟨fun hqueues _ => ?_, fun hid _ => ?_⟩
    · exact hon "--rss" "compile.rss" (by simp [features, hqueues])
    · exact hon "--int" "compile.int" (by simp [features, hid])
  · intro himplied haccepted f hf hturns
    exact advertised_of_accepted haccepted (himplied haccepted) hf ((turnsOn_iff hf).mp hturns)

/-- A node that can be told how many queues to use, but advertises no RSS. -/
def queuesOnly : Node :=
  { Node.new 0 "n1" "host" "10.0.0.1:50055" ∅ "" with
    capabilities := (∅ : Labels).insert "compile.rss_queues" "true" }

/-- Eight queues turn on RSS there. -/
theorem not_gateCovers :
    ¬ ∀ node options, GateCovers node options := by
  intro hall
  have hcovers := hall queuesOnly { CompileOptions.default with rssQueues := 8 } (by decide +kernel)
    ("--rss", "compile.rss", true) (by decide +kernel) (by decide +kernel)
  revert hcovers
  decide +kernel

end PaciNet
