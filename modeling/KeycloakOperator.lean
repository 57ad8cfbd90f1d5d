import KeycloakOperator.FiniteMap
import KeycloakOperator.GreedyMatching
import KeycloakOperator.Interaction
import KeycloakOperator.Concurrency
import KeycloakOperator.Simulation
import KeycloakOperator.Json
import KeycloakOperator.LastApplied
import KeycloakOperator.DriftDetection
import KeycloakOperator.ListOrder
import KeycloakOperator.MergeFrame
import KeycloakOperator.Api
import KeycloakOperator.Operations
import KeycloakOperator.Resources
import KeycloakOperator.DriverHelpers
import KeycloakOperator.OutputSecrets
import KeycloakOperator.Drivers
import KeycloakOperator.Engine
import KeycloakOperator.AdminClient
import KeycloakOperator.ConnectionCache
import KeycloakOperator.Footprint
import KeycloakOperator.Payload
import KeycloakOperator.Server
import KeycloakOperator.World
import KeycloakOperator.Panics
import KeycloakOperator.Lookup
import KeycloakOperator.View
import KeycloakOperator.Phases
import KeycloakOperator.Completion
import KeycloakOperator.Course
import KeycloakOperator.Submissions
import KeycloakOperator.Deletion
import KeycloakOperator.Takeover
import KeycloakOperator.Schema
import KeycloakOperator.Removal
import KeycloakOperator.StatusPersistence
import KeycloakOperator.MapEntries
import KeycloakOperator.Remembered
import KeycloakOperator.Requeue
import KeycloakOperator.Endings
import KeycloakOperator.Conditions
import KeycloakOperator.Generations
import KeycloakOperator.Refusals
import KeycloakOperator.Finalizer
import KeycloakOperator.Unmanaged
import KeycloakOperator.ExactLists
import KeycloakOperator.RoleSets
import KeycloakOperator.GroupRoles
import KeycloakOperator.GroupAddresses
import KeycloakOperator.Composites
import KeycloakOperator.Variants
import KeycloakOperator.ScopeAssignments
import KeycloakOperator.ScopeMoves
import KeycloakOperator.Mappers
import KeycloakOperator.MapperComparison
import KeycloakOperator.Resumption
import KeycloakOperator.Leaks
import KeycloakOperator.Secrets
import KeycloakOperator.Masking
import KeycloakOperator.LostUpdates
import KeycloakOperator.Marker
import KeycloakOperator.UrlPath
import KeycloakOperator.RequestPaths
import KeycloakOperator.RequestTargets
import KeycloakOperator.NextPass
import KeycloakOperator.GroupConvergence
import KeycloakOperator.Settling
import KeycloakOperator.FixedPoint
import KeycloakOperator.Uninstall
import KeycloakOperator.DroppedConnections
import KeycloakOperator.GroupSearch
import KeycloakOperator.Outcomes
import KeycloakOperator.Denials
import KeycloakOperator.Obstacles
import KeycloakOperator.PassReports
import KeycloakOperator.FailureReports
import KeycloakOperator.HttpTransport
import KeycloakOperator.ClientMetrics
import KeycloakOperator.ConnectionController
import KeycloakOperator.Installer
import KeycloakOperator.InstallerSafety
import KeycloakOperator.Estates
import KeycloakOperator.Fleet
