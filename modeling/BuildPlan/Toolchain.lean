/-
  BuildPlan.Toolchain — the CMake toolchain file.

  Comments name the project, the target and the compiler. Then come cache settings: build type and
  compile commands are forced, shared libraries and position-independent code are offered, and
  each user variable is forced, in the order of the names. Last, the directories of the plan are
  put in front of the search paths. Compile commands are always exported, so a user variable of
  that name is dropped (`Toolchain.ofPlan`).
-/

import BuildPlan.Script.Basic
import BuildPlan.Text.Quote

namespace BuildPlan

structure Toolchain where
  project : Option String
  target : String
  compiler : Option String
  buildType : String
  shared : Bool
  fPIC : Option Bool
  prefixPaths : List LogicalPath
  modulePaths : List LogicalPath
  /-- User variables that are kept. -/
  userVariables : Variables

namespace Toolchain

open Text

/-- The variable by which compile commands are exported. -/
def exportVariable : String := "CMAKE_EXPORT_COMPILE_COMMANDS"

def ofPlan (p : Plan) : Toolchain where
  project := p.identity.qualified?
  target := p.settings.platform.name ++ " " ++ p.settings.arch
  compiler := p.settings.compilerIdentity?
  buildType := p.settings.buildType
  shared := p.options.shared
  fPIC := p.options.fPIC
  prefixPaths := p.layout.generatorsDir :: p.layout.buildConfigDirs
  modulePaths := [p.layout.generatorsDir]
  userVariables := p.userVariables.erase exportVariable

/-- The characters that have a meaning in a quoted argument. -/
def isSpecial (c : Char) : Bool := c = '\"' || c = '\\' || c = '$'

def quoted (s : String) : String := "\"" ++ String.ofList (mark isSpecial s.toList) ++ "\""

def onOff : Bool → String
  | true => "ON"
  | false => "OFF"

def comment (text : String) : String := "# " ++ text ++ "\n"

/-- A cache entry that is set whatever the cache holds. -/
def forced (name value type help : String) : String :=
  "set(" ++ name ++ " " ++ value ++ " CACHE " ++ type ++ " \"" ++ help ++ "\" FORCE)\n"

/-- A cache entry that is set where the cache has none. -/
def offered (name value type help : String) : String :=
  "set(" ++ name ++ " " ++ value ++ " CACHE " ++ type ++ " \"" ++ help ++ "\")\n"

def userVariable (name value : String) : String :=
  forced name (quoted value) "STRING" ("Variable " ++ name ++ " defined by berth")

/-- Paths put in front of a list. -/
def listPrepend (name : String) (paths : List LogicalPath) : String :=
  "list(PREPEND " ++ name ++ " " ++ " ".intercalate (paths.map fun p => quoted p.text) ++ ")\n"

def header (t : Toolchain) : List String :=
  [comment generatedNotice] ++
    t.project.toList.map (fun project => comment ("Project: " ++ project)) ++
    [comment ("Target: " ++ t.target)] ++
    t.compiler.toList.map (fun compiler => comment ("Compiler: " ++ compiler))

def settings (t : Toolchain) : List String :=
  [ forced "CMAKE_BUILD_TYPE" (quoted t.buildType) "STRING" "Build type",
    forced exportVariable "ON" "BOOL" "Export compile_commands.json",
    offered "BUILD_SHARED_LIBS" (onOff t.shared) "BOOL" "Build shared libraries" ] ++
    t.fPIC.toList.map fun fPIC =>
      offered "CMAKE_POSITION_INDEPENDENT_CODE" (onOff fPIC) "BOOL" "Position independent code"

def userSettings (t : Toolchain) : List String :=
  t.userVariables.entries.map fun (name, value) => userVariable name value

def searchPaths (t : Toolchain) : List String :=
  [listPrepend "CMAKE_PREFIX_PATH" t.prefixPaths, listPrepend "CMAKE_MODULE_PATH" t.modulePaths]

def render (t : Toolchain) : String :=
  .join (t.header ++ ["\n", "include_guard()\n\n"] ++ t.settings ++
    (if t.userSettings.isEmpty then [] else "\n" :: t.userSettings) ++ ["\n"] ++ t.searchPaths)

end Toolchain

end BuildPlan
