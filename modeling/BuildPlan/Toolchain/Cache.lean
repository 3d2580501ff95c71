/-
  BuildPlan.Toolchain.Cache — what a CMake cache holds after the commands of a file, and what it should hold
  of a configuration.

  A `set` with `CACHE` is about one entry: without `FORCE` an entry that is there is kept, with it the
  entry is overwritten (`Cache.apply`). No other command touches the cache. The dependency descriptor
  says the same configuration in words of its own (`Configuration.ofManifest?`).
-/

import BuildPlan.Json.Records
import BuildPlan.Toolchain.Command

namespace BuildPlan.Toolchain

/-- What a `set` does to the cache. -/
structure CacheEntry where
  name : String
  value : String
  forced : Bool
  deriving DecidableEq, Repr

/-- A name, values, `CACHE`, a type and a help text. -/
def CacheEntry.ofTexts? (forced : Bool) (texts : List String) : Option CacheEntry :=
  match texts.reverse with
  | _ :: _ :: "CACHE" :: values =>
    match values.reverse with
    | name :: value :: more => some ⟨name, ";".intercalate (value :: more), forced⟩
    | _ => none
  | _ => none

def Command.cacheEffect? (c : Command) : Option CacheEntry :=
  let texts := c.arguments.map Argument.text
  if c.name ≠ "set" then none
  else if texts.getLast? = some "FORCE" then CacheEntry.ofTexts? true texts.dropLast
  else CacheEntry.ofTexts? false texts

/-- The values of a cache by name. -/
def Cache := String → Option String

namespace Cache

def empty : Cache := fun _ => none

def set (cache : Cache) (name value : String) : Cache := fun x => if x = name then some value else cache x

def apply (cache : Cache) (e : CacheEntry) : Cache :=
  if e.forced ∨ cache e.name = none then cache.set e.name e.value else cache

def execute (cache : Cache) (c : Command) : Cache :=
  match c.cacheEffect? with
  | some e => cache.apply e
  | none => cache

/-- What an empty cache holds after some commands. -/
def after (commands : List Command) : Cache := commands.foldl execute empty

end Cache

/-- What a build is configured with. -/
structure Configuration where
  buildType : String
  options : Options
  deriving DecidableEq, Repr

namespace Configuration

open Json

/-- The configuration in a dependency descriptor. -/
def ofManifest? (document : Json) : Option Configuration := do
  return {
    buildType := ← required text? ((document.field? "settings").bind (·.field? "build_type"))
    options := ← required Options.ofJson? (document.field? "options") }

/-- What a cache should hold of a configuration. -/
def cached (c : Configuration) (name : String) : Option String :=
  if name = "CMAKE_BUILD_TYPE" then some c.buildType
  else if name = "BUILD_SHARED_LIBS" then some (onOff c.options.shared)
  else if name = "CMAKE_POSITION_INDEPENDENT_CODE" then c.options.fPIC.map onOff
  else none

end Configuration

end BuildPlan.Toolchain
