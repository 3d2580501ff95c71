/-
  BuildPlan.Descriptor — the four files made from a plan, in the order in which they are reported.
-/

import BuildPlan.Manifest
import BuildPlan.Script.Batch
import BuildPlan.Script.Shell
import BuildPlan.Toolchain

namespace BuildPlan

inductive Descriptor where
  | buildEnvironment
  | runEnvironment
  | toolchain
  | dependencies
  deriving DecidableEq, Repr, Inhabited

namespace Descriptor

def all : List Descriptor := [buildEnvironment, runEnvironment, toolchain, dependencies]

def name : Descriptor → String
  | buildEnvironment => "build environment"
  | runEnvironment => "run environment"
  | toolchain => "toolchain"
  | dependencies => "dependencies"

/-- The name of the file; scripts have the extension of their flavor. -/
def fileName (p : Plan) : Descriptor → String
  | buildEnvironment => "berthbuildenv." ++ (Flavor.ofPlatform p.settings.platform).extension
  | runEnvironment => "berthrunenv." ++ (Flavor.ofPlatform p.settings.platform).extension
  | toolchain => "berth_toolchain.cmake"
  | dependencies => "berth_deps.json"

def script (flavor : Flavor) (assignments : List Assignment) : String :=
  match flavor with
  | .shell => Shell.render assignments
  | .batch => Batch.render assignments

/-- The contents of the file. -/
def render (p : Plan) : Descriptor → String
  | buildEnvironment => script (Flavor.ofPlatform p.settings.platform) p.buildEnvironment
  | runEnvironment => script (Flavor.ofPlatform p.settings.platform) p.runEnvironment
  | toolchain => (Toolchain.ofPlan p).render
  | dependencies => Manifest.render p

end Descriptor

end BuildPlan
