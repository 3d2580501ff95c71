/-
  BuildPlan.Options — build options, and which of them exist on a platform.
-/

import BuildPlan.Platform

namespace BuildPlan

/-- `fPIC` is `none` where the option does not exist. -/
structure Options where
  shared : Bool
  fPIC : Option Bool
  deriving DecidableEq, Repr, Inhabited

namespace Options

/-- What a project has that declares nothing. -/
def standard : Options := ⟨false, some true⟩

def hasPIC (o : Options) : Bool := o.fPIC.isSome

/-- The options that exist, with their values. -/
def entries (o : Options) : List (String × Bool) :=
  ("shared", o.shared) :: (o.fPIC.toList.map fun value => ("fPIC", value))

/-- Options without a meaning on the platform are removed. -/
def resolve (o : Options) (platform : Platform) : Options :=
  if platform.picIsMeaningless then { o with fPIC := none } else o

end Options

end BuildPlan
