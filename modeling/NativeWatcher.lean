import NativeWatcher.Lib.FiniteMap
import NativeWatcher.Lib.Machine
import NativeWatcher.Lib.Hierarchy
import NativeWatcher.Posix
import NativeWatcher.Lib.SharedHandles
import NativeWatcher.Path
import NativeWatcher.Tree.DirTree
import NativeWatcher.Tree.Relocation
import NativeWatcher.Lib.Scanf
import NativeWatcher.Tree.Serialise
import NativeWatcher.Event.NetEffect
import NativeWatcher.Event.View
import NativeWatcher.Event.Drained
import NativeWatcher.Tree.Keys
import NativeWatcher.Event.RenameIds
import NativeWatcher.Event.RenameBatch
import NativeWatcher.Lib.SegmentMatch
import NativeWatcher.Lib.Wildcard
import NativeWatcher.Glob.Component
import NativeWatcher.Glob.Characters
import NativeWatcher.Lib.Utf8
import NativeWatcher.Glob.Segmentation
import NativeWatcher.Glob.Table
import NativeWatcher.Glob.Glob
import NativeWatcher.Glob.Cuts
import NativeWatcher.Glob.Mask
import NativeWatcher.Glob.Language
import NativeWatcher.Glob.ComponentMatch
import NativeWatcher.Ignore.IsIgnored
import NativeWatcher.Ignore.Spelling
import NativeWatcher.Ignore.States
import NativeWatcher.Ignore.Ancestors
import NativeWatcher.Ignore.Normalisation
import NativeWatcher.Ignore.Cache
import NativeWatcher.Lib.LexicalPath
import NativeWatcher.Wrapper.JsString
import NativeWatcher.Wrapper.NormalizeOptions
import NativeWatcher.Wrapper.LiteralIgnores
import NativeWatcher.Backend.Subscriptions
import NativeWatcher.Backend.BackReferences
import NativeWatcher.Lib.Reservations
import NativeWatcher.Backend.Registry
import NativeWatcher.Watcher.Debounce
import NativeWatcher.Watcher.Registry
import NativeWatcher.Windows.StopProtocol
import NativeWatcher.Windows.Records
import NativeWatcher.Macos.IdentityIndex
import NativeWatcher.Macos.IndexAgreement
import NativeWatcher.Macos.Scan
import NativeWatcher.Macos.Index
import NativeWatcher.Macos.Reconcile
import NativeWatcher.Macos.Candidates
import NativeWatcher.Macos.ReconcileTrace
import NativeWatcher.Macos.ReconcileDiff
import NativeWatcher.Macos.ProcessEvents
import NativeWatcher.Macos.InStep
import NativeWatcher.Macos.FixedFiles
import NativeWatcher.Macos.Sweeps
import NativeWatcher.Macos.Incremental
import NativeWatcher.Macos.StartupLock
import NativeWatcher.Macos.Streams
import NativeWatcher.Linux.Subscriptions
import NativeWatcher.Linux.Descriptors
import NativeWatcher.Linux.Scan
import NativeWatcher.Linux.ScanSteps
import NativeWatcher.Linux.HandleSubscription
import NativeWatcher.Linux.InotifyBackend
import NativeWatcher.Linux.TableRules
import NativeWatcher.Linux.UniquePaths
import NativeWatcher.Linux.Unwatch
import NativeWatcher.Linux.WatcherFrame
import NativeWatcher.Linux.Detached
import NativeWatcher.Linux.IgnoredPaths
import NativeWatcher.Event.Reports
import NativeWatcher.Linux.Findings
import NativeWatcher.Linux.ScanOutcome
import NativeWatcher.Linux.CreatedTree
import NativeWatcher.Linux.MovedTree
import NativeWatcher.Event.Announced
import NativeWatcher.Windows.ProcessEvent
import NativeWatcher.Windows.Rescan
import NativeWatcher.Windows.RenamePath
import NativeWatcher.Windows.ViewAgreement
import NativeWatcher.Event.Follows
import NativeWatcher.Linux.Arrival
import NativeWatcher.Linux.Rescan
import NativeWatcher.Linux.EventAgreement
import NativeWatcher.Linux.ViewAgreement
import NativeWatcher.Linux.OneTree
import NativeWatcher.Lib.Broadcast
import NativeWatcher.Watcher.Callbacks
import NativeWatcher.Watcher.CallbackSteps
import NativeWatcher.Watcher.Delivery
import NativeWatcher.Watcher.EventSource
import NativeWatcher.Linux.Delivery
import NativeWatcher.Windows.Delivery
import NativeWatcher.Backend.Runners
import NativeWatcher.Backend.RunnerSteps
import NativeWatcher.Backend.ServedCallbacks
import NativeWatcher.Backend.ResolvedWatches
import NativeWatcher.Backend.AttendedSubscriptions
import NativeWatcher.Macos.ViewAgreement
import NativeWatcher.Macos.Delivery
import NativeWatcher.Linux.Wakeups
import NativeWatcher.Windows.RecordBuffers
import NativeWatcher.Linux.Rest
import NativeWatcher.Linux.Settled
import NativeWatcher.Windows.Settled
import NativeWatcher.Macos.Settled
