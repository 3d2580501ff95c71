/-
  BuildPlan.Script.Basic — environment scripts as lists of assignments.

  The build environment tells CMake what is built, where the descriptors are, and where installed
  config packages are found. The run environment makes installed programs and shared libraries
  found: on Windows both through `PATH`, elsewhere libraries through the loader's variable.
-/

import BuildPlan.Plan

namespace BuildPlan

inductive Assigned where
  /-- The variable gets this text. -/
  | define (text : String)
  /-- The paths come before what the variable holds. -/
  | prepend (paths : List LogicalPath)
  deriving DecidableEq, Repr

structure Assignment where
  name : String
  value : Assigned
  deriving DecidableEq, Repr

/-- Scripts for a POSIX shell or for the Windows command interpreter. -/
inductive Flavor where
  | shell
  | batch
  deriving DecidableEq, Repr, Inhabited

def Flavor.ofPlatform (s : Platform) : Flavor := if s.usesBatch then .batch else .shell

def Flavor.extension : Flavor → String
  | shell => "sh"
  | batch => "bat"

/-- The first line of every script and toolchain file says this. -/
def generatedNotice : String := "Generated by berth. Do not edit."

namespace Plan

def buildEnvironment (p : Plan) : List Assignment := [
  ⟨"BERTH_BUILD_TYPE", .define p.settings.buildType⟩,
  ⟨"BERTH_GENERATORS_FOLDER", .define p.layout.generatorsDir.text⟩,
  ⟨"CMAKE_PREFIX_PATH", .prepend p.layout.buildConfigDirs⟩]

def runEnvironment (p : Plan) : List Assignment :=
  let bin := p.layout.installDir.join "bin"
  let lib := p.layout.installDir.join "lib"
  match p.settings.platform.libraryPathVariable with
  | some loaderPath => [⟨"PATH", .prepend [bin]⟩, ⟨loaderPath, .prepend [lib]⟩]
  | none => [⟨"PATH", .prepend [bin, lib]⟩]

end Plan

end BuildPlan
