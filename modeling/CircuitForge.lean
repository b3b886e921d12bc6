import CircuitForge.Js.Text
import CircuitForge.Js.Tokens
import CircuitForge.Js.Map
import CircuitForge.Js.Regex
import CircuitForge.Js.FirstFree
import CircuitForge.Js.Runtime
import CircuitForge.Js.Scan
import CircuitForge.Js.Exact
import CircuitForge.Types.Circuit
import CircuitForge.Utils.UnitParser
import CircuitForge.Types.Analysis
import CircuitForge.Netlist.Sanitizer
import CircuitForge.Netlist.SolverOptions
import CircuitForge.Models.Library
import CircuitForge.Netlist.Digital
import CircuitForge.Netlist.ProbeMap
import CircuitForge.Netlist.Generator
import CircuitForge.Parser.Logical
import CircuitForge.Netlist.Gate
import CircuitForge.Netlist.Domains
import CircuitForge.Netlist.Lines
import CircuitForge.Netlist.ModelNames
import CircuitForge.Netlist.Resolver
import CircuitForge.Netlist.Refusals
import CircuitForge.Netlist.Devices
import CircuitForge.Utils.RoundTrip
import CircuitForge.Types.PointBudget
import CircuitForge.Tolerance.Kept
import CircuitForge.Erc.Ground
import CircuitForge.Erc.Complete
import CircuitForge.Editor.History
import CircuitForge.Api.WorkingCopy
import CircuitForge.Api.Owners
import CircuitForge.Api.SessionCalls
import CircuitForge.Api.Lockouts
import CircuitForge.Web.Endings
import CircuitForge.Web.Unsaved
import CircuitForge.Api.JobQueue
import CircuitForge.Api.QuotaRuns
import CircuitForge.Pcb.Parity
import CircuitForge.Pcb.Aborts
import CircuitForge.Pcb.Rotation
import CircuitForge.Schematic.Drag
import CircuitForge.Editor.FreshNodes
import CircuitForge.Editor.SeparateCopies
import CircuitForge.Editor.Merges
import CircuitForge.Schematic.Wiring
import CircuitForge.Schematic.Steady
import CircuitForge.Schematic.Clearance
import CircuitForge.Schematic.DeletedWires
import CircuitForge.Schematic.EditRuns
import CircuitForge.Schematic.Airwires
import CircuitForge.Schematic.Junctions
import CircuitForge.Tolerance.Rails
import CircuitForge.Tolerance.Corners
import CircuitForge.Tolerance.Robustness
import CircuitForge.Utils.Downsample
import CircuitForge.Parser.Export
import CircuitForge.Parser.Vcd
import CircuitForge.Llm.Verdicts
import CircuitForge.Worker.Runner
import CircuitForge.Pcb.Certified
import CircuitForge.Pcb.BoardNets
import CircuitForge.Pcb.FabLimits
import CircuitForge.Pcb.Legalize
import CircuitForge.Pcb.PlacedParts
import CircuitForge.Pcb.Overhang
import CircuitForge.Schematic.Stretch
import CircuitForge.Worker.Semaphore
import CircuitForge.Pcb.Spatial
import CircuitForge.Editor.ObjectTree
import CircuitForge.Editor.SameJson
import CircuitForge.Netlist.LegalNames
import CircuitForge.Api.Invitations
import CircuitForge.Worker.Overspending
import CircuitForge.Schematic.Cells
import CircuitForge.Schematic.Field
import CircuitForge.Schematic.Spread
import CircuitForge.Analysis.PowerReads
import CircuitForge.Pcb.Labels
