import PaciNet.Core.Model

/-!
# The command line of the compiler

The agent compiles rules by running `pacgate`. What the options of a deploy turn on is told by the
flags on its command line.
-/

set_option autoImplicit false

namespace PaciNet

/-- A flag, and its value if it has one. -/
abbrev CommandFlag := String × Option String

/-- `apply_compile_flags`. -/
def applyCompileFlags (options : CompileOptions) : List CommandFlag :=
  let ports := max options.ports 1
  (if options.counters then [("--counters", none)] else []) ++
  (if options.rateLimit then [("--rate-limit", none)] else []) ++
  (if options.conntrack then [("--conntrack", none)] else []) ++
  (if options.axi then [("--axi", none)] else []) ++
  (if ports > 1 then [("--ports", some (toString ports))] else []) ++
  (if options.target != "" then [("--target", some options.target)] else []) ++
  (if options.dynamic then
    [("--dynamic", none),
      ("--dynamic-entries", some (toString (max options.dynamicEntries 1)))] else []) ++
  (if options.width > 0 then [("--width", some (toString options.width))] else []) ++
  (if options.ptp then [("--ptp", none)] else []) ++
  (if options.rss || options.rssQueues != 4 then
    [("--rss", none), ("--rss-queues", some (toString (max options.rssQueues 1)))] else []) ++
  (if options.intEnabled || options.intSwitchId != 0 then
    [("--int", none), ("--int-switch-id", some (toString options.intSwitchId))] else [])

/-- The arguments, as the process is given them. -/
def commandLine (flags : List CommandFlag) : List String :=
  flags.flatMap fun f => f.1 :: f.2.toList

/-- The flag is on the command line for the options. -/
def TurnsOn (options : CompileOptions) (flag : String) : Prop :=
  flag ∈ (applyCompileFlags options).map Prod.fst

instance (options : CompileOptions) (flag : String) : Decidable (TurnsOn options flag) :=
  inferInstanceAs (Decidable (flag ∈ _))

end PaciNet
