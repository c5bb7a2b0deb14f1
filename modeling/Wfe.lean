import Wfe.Library.Program
import Wfe.Library.Pool
import Wfe.Library.Table
import Wfe.Library.Search
import Wfe.Library.Walk
import Wfe.Library.Fair
import Wfe.Library.Scan
import Wfe.Library.Sql
import Wfe.Library.SqlText
import Wfe.Library.Lexicographic
import Wfe.Library.Calendar
import Wfe.Library.Before
import Wfe.Library.Execution
import Wfe.Library.Directory
import Wfe.Library.Versions
import Wfe.Library.Serving
import Wfe.Library.Shuffle
import Wfe.Library.Transactions
import Wfe.Library.DotText
import Wfe.Models.Json
import Wfe.Models.Text
import Wfe.Models.Definition
import Wfe.Models.Instance
import Wfe.Models.Schema
import Wfe.Models.Dot
import Wfe.Executor.Condition
import Wfe.Executor.ConditionScans
import Wfe.Executor.ConditionOrder
import Wfe.Executor.Provider
import Wfe.Executor.ResultProcessor
import Wfe.Executor.ErrorHandler
import Wfe.Executor.WorkflowExecutor
import Wfe.Executor.Pass
import Wfe.Executor.Successors
import Wfe.Executor.Turns
import Wfe.Executor.BodyResults
import Wfe.Executor.OnePointer
import Wfe.Executor.Retries
import Wfe.Executor.Chain
import Wfe.Executor.Simulation
import Wfe.Executor.PassCalls
import Wfe.Executor.Serial
import Wfe.Executor.Primitives
import Wfe.Executor.Containers
import Wfe.Host.Providers
import Wfe.Host.Registry
import Wfe.Host.WorkflowHost
import Wfe.Host.Evolution
import Wfe.Host.History
import Wfe.Host.Origins
import Wfe.Host.ScopeTree
import Wfe.Host.Stories
import Wfe.Host.Branchings
import Wfe.Host.Finishing
import Wfe.Host.ForEach
import Wfe.Host.Conditions
import Wfe.Host.Subtrees
import Wfe.Host.TracedRuns
import Wfe.Host.Traces
import Wfe.Host.Completion
import Wfe.Host.Resume
import Wfe.Host.AbortedPasses
import Wfe.Host.NextExecution
import Wfe.Host.RetryBudget
import Wfe.Host.NoLostWork
import Wfe.Host.Termination
import Wfe.Host.EventDelivery
import Wfe.Host.SingleDelivery
import Wfe.Host.CompletionEvents
import Wfe.Host.Roots
import Wfe.Host.Starts
import Wfe.Backends.ArtifactStore
import Wfe.Backends.NatsLock
import Wfe.Backends.ValkeyLock
import Wfe.Backends.NatsQueue
import Wfe.Backends.Subscriptions
import Wfe.Backends.TimeFilters
import Wfe.Backends.Commands
import Wfe.Backends.CommandBatches
import Wfe.Backends.CommandsKept
import Wfe.Backends.SqliteInstances
import Wfe.Backends.NamedStores
import Wfe.Host.InstanceNames
import Wfe.Builder.WorkflowBuilder
import Wfe.Host.SubWorkflows
import Wfe.Host.Timers
import Wfe.Builder.Saga
import Wfe.Builder.Bodies
import Wfe.Builder.BodyRuns
import Wfe.Builder.InlineSteps
import Wfe.Yaml.Schema
import Wfe.Yaml.StepConfig
import Wfe.Yaml.Validation
import Wfe.Yaml.Cycles
import Wfe.Yaml.Compiler
import Wfe.Yaml.Durations
import Wfe.Yaml.Finishing
import Wfe.Yaml.Includes
import Wfe.Yaml.FieldPaths
import Wfe.Yaml.ConditionTypes
import Wfe.Yaml.ConditionMeaning
import Wfe.Yaml.TypeLanguage
import Wfe.Yaml.Layout
import Wfe.Yaml.References
import Wfe.Host.StepNames
import Wfe.Yaml.Sequential
import Wfe.Yaml.Parallel
import Wfe.Yaml.Meaning
import Wfe.Yaml.Names
import Wfe.Yaml.Kept
import Wfe.Yaml.Ensure
import Wfe.Yaml.Registration
import Wfe.Server.Auth
import Wfe.Server.Webhook
import Wfe.Server.LogStore
import Wfe.Server.Grpc
import Wfe.Server.Config
import Wfe.Server.LogFollow
import Wfe.Backends.ArtifactPaths
import Wfe.Library.TarHeaders
import Wfe.Backends.TarCrate
import Wfe.Backends.Repackaging
import Wfe.Backends.TablePrefix
import Wfe.Backends.KubernetesNames
import Wfe.Backends.KubernetesJobs
import Wfe.Backends.ContainerdServices
import Wfe.Backends.ServiceTasks
import Wfe.Host.ServiceContainers
import Wfe.Models.OutputLines
import Wfe.Yaml.ShellOutputs
import Wfe.Yaml.OutputProtocol
import Wfe.Yaml.Deno
import Wfe.Yaml.DenoSandbox
import Wfe.Library.Steps
import Wfe.Js.StepBridge
import Wfe.Js.StepAnswers
import Wfe.Js.OneLoop
import Wfe.Backends.Migrations
import Wfe.Backends.MigrationNodes
import Wfe.Backends.MigrationsApplied
import Wfe.Backends.PostgresInstances
import Wfe.Backends.PostgresVersions
import Wfe.Backends.PostgresCallers
import Wfe.Backends.PostgresReads
import Wfe.Backends.VolumePackages
