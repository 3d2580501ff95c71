import BuildPlan.Main
import BuildPlan.Proofs.AtomicWrite.Device
import BuildPlan.Proofs.Builds
import BuildPlan.Proofs.Config
import BuildPlan.Proofs.Containment
import BuildPlan.Proofs.InstallRoot
import BuildPlan.Proofs.Interleaving
import BuildPlan.Proofs.Path.Below
import BuildPlan.Proofs.Path.Order
import BuildPlan.Proofs.Platform.Spelling
import BuildPlan.Proofs.Refusal
import BuildPlan.Proofs.Repeat
import BuildPlan.Proofs.Requirement.Grammar
import BuildPlan.Proofs.Root
import BuildPlan.Proofs.Script.Lines
import BuildPlan.Proofs.SearchPath
import BuildPlan.Proofs.Toolchain.Names
import BuildPlan.Proofs.Toolchain.Quoting
import BuildPlan.Proofs.BuildType
