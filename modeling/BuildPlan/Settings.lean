/-
  BuildPlan.Settings — platform and build settings of one configuration.
-/

import BuildPlan.Platform

namespace BuildPlan

structure Settings where
  platform : Platform
  arch : String
  compiler : Option String := none
  compilerVersion : Option String := none
  buildType : String
  deriving DecidableEq, Repr, Inhabited

namespace Settings

/-- The machine that the plan is made on. -/
def host : Settings := { platform := .linux, arch := "x86_64", buildType := "Release" }

/-- `<compiler>-<version>`, or the compiler alone; a version without a compiler says nothing. -/
def compilerIdentity? (s : Settings) : Option String :=
  match s.compiler, s.compilerVersion with
  | some compiler, some version => some (compiler ++ "-" ++ version)
  | some compiler, none => some compiler
  | none, _ => none

end Settings

end BuildPlan
