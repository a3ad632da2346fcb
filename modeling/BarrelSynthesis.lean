import BarrelSynthesis.Build
import BarrelSynthesis.Disk.Flat
import BarrelSynthesis.Json.Manifest
import BarrelSynthesis.Project.Loading
import BarrelSynthesis.Session.Editing
import BarrelSynthesis.Proofs.Barrel.Accounting
import BarrelSynthesis.Proofs.Imports.NamedBindings
import BarrelSynthesis.Proofs.Imports.NamespaceObject
import BarrelSynthesis.Proofs.Imports.Origin
import BarrelSynthesis.Proofs.Build.Output
import BarrelSynthesis.Proofs.Build.Store
import BarrelSynthesis.Proofs.Session.Freshness
import BarrelSynthesis.Proofs.Session.Probing
import BarrelSynthesis.Proofs.Session.Eviction
import BarrelSynthesis.Proofs.Session.History
import BarrelSynthesis.Proofs.Session.Refresh
import BarrelSynthesis.Proofs.Session.Hydration
import BarrelSynthesis.Proofs.Session.Disposal
import BarrelSynthesis.Proofs.Session.Recalculation
import BarrelSynthesis.Proofs.Imports.TopLevelNames
import BarrelSynthesis.Proofs.Imports.TypeErasure
import BarrelSynthesis.Proofs.Imports.Survival
import BarrelSynthesis.Proofs.Imports.BarrelFolder
import BarrelSynthesis.Proofs.Session.References
import BarrelSynthesis.Proofs.Session.Serving
import BarrelSynthesis.Proofs.Session.Registration
import BarrelSynthesis.Proofs.Build.Agreement
import BarrelSynthesis.Proofs.Barrel.Independence
import BarrelSynthesis.Proofs.Barrel.Statements
import BarrelSynthesis.Proofs.Text.Position
import BarrelSynthesis.Proofs.Imports.Substitution
import BarrelSynthesis.Proofs.Synthesis.ExportNormalForm
import BarrelSynthesis.Proofs.Synthesis.FewestImports
import BarrelSynthesis.Proofs.Source.ExportedTypes
import BarrelSynthesis.Proofs.Source.LostExports
import BarrelSynthesis.Proofs.Session.Lifecycle
import BarrelSynthesis.Proofs.Build.Warnings
import BarrelSynthesis.Proofs.Synthesis.PrintedForm
import BarrelSynthesis.Proofs.Barrel.Readable
import BarrelSynthesis.Proofs.Build.BarrelSpecifiers
import BarrelSynthesis.Proofs.Path.Walking
import BarrelSynthesis.Proofs.Disk.Contents
import BarrelSynthesis.Proofs.Project.Coverage
import BarrelSynthesis.Proofs.Barrel.AssetName
