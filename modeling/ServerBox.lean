import ServerBox.Std.Utf8
import ServerBox.Std.Latin1
import ServerBox.Std.LastWriter
import ServerBox.Std.Table
import ServerBox.Terminal.Tmux.ControlProtocol
import ServerBox.Terminal.Tmux.ControlProtocolLines
import ServerBox.Terminal.Tmux.ControlProtocolDecode
import ServerBox.Terminal.Tmux.ControlProtocolRoundTrip
import ServerBox.Terminal.Tmux.OutputNormalizer
import ServerBox.Terminal.Tmux.OutputNormalizerSteps
import ServerBox.Terminal.Tmux.OutputNormalizerQueries
import ServerBox.Terminal.Tmux.OutputSequencesKept
import ServerBox.Store.EntityStore
import ServerBox.Store.EntityStoreMerge
import ServerBox.Store.EntityStoreJoin
import ServerBox.Sync.Op
import ServerBox.Sync.Records
import ServerBox.Sync.RecordsSteps
import ServerBox.Sync.RecordNames
import ServerBox.Sync.RecordNamesConverge
import ServerBox.Std.System
import ServerBox.Sync.RecordAliases
import ServerBox.Monitor.Job
import ServerBox.Monitor.ContainerBackups
import ServerBox.Monitor.Stacks
import ServerBox.Monitor.StacksJobs
import ServerBox.Monitor.LoginThrottle
import ServerBox.Monitor.LoginThrottleCounts
import ServerBox.Monitor.LoginThrottleLockout
import ServerBox.Std.Text
import ServerBox.Std.EnvFile
import ServerBox.Virt.Ipv4
import ServerBox.Virt.Resource
import ServerBox.Virt.Networks
import ServerBox.Virt.NetworksDisjoint
import ServerBox.Virt.DhcpRange
import ServerBox.Monitor.Manifest
import ServerBox.Monitor.ManifestEnv
import ServerBox.Monitor.ManifestPorts
import ServerBox.Std.IpAddress
import ServerBox.Terminal.PersistentShell
import ServerBox.Firewall.Ufw
import ServerBox.Firewall.UfwReach
import ServerBox.Firewall.Firewalld
import ServerBox.Firewall.FirewalldReach
import ServerBox.Std.BinaryFloat
import ServerBox.Std.Json
import ServerBox.Monitor.AppValue
import ServerBox.Monitor.AppValueRead
import ServerBox.Monitor.AppValueNames
import ServerBox.Monitor.AppValueWrites
import ServerBox.Monitor.AppValueFits
import ServerBox.Monitor.AppValueRoundTrip
import ServerBox.Monitor.TerminalSession
import ServerBox.Monitor.TerminalSessionReattach
import ServerBox.Monitor.AppProxy
import ServerBox.Monitor.AppProxyPassword
import ServerBox.Std.TextLines
import ServerBox.Monitor.StackSecrets
import ServerBox.Monitor.StackSecretsKept
import ServerBox.Monitor.StackSecretsRuns
import ServerBox.Monitor.LkCloud
import ServerBox.Monitor.LkCloudUsedOnce
import ServerBox.Monitor.LkCloudGrants
import ServerBox.Monitor.MonitorBackup
import ServerBox.Monitor.MonitorBackupKeys
import ServerBox.Script.CustomCommands
import ServerBox.Std.Base64
import ServerBox.Script.Segments
import ServerBox.Script.SegmentsKept
import ServerBox.Script.Snippet
import ServerBox.Script.SnippetPlan
import ServerBox.Std.JsonText
import ServerBox.Std.Lexical
import ServerBox.Proxy.Sites
import ServerBox.Proxy.SitesReadBack
import ServerBox.Proxy.SitesLines
import ServerBox.Proxy.SitesHeld
import ServerBox.Backup.KvMerge
import ServerBox.Sync.SegmentSync
import ServerBox.Geo.GeoBundle
import ServerBox.Geo.GeoData
import ServerBox.Std.Shell
import ServerBox.Ssh.HostKeys
import ServerBox.Ssh.ExecSession
import ServerBox.Ssh.SessionMarker
import ServerBox.Terminal.Tmux.FormatFields
import ServerBox.Std.Utf16
import ServerBox.Terminal.OutputBuffer
import ServerBox.Std.Gregorian
import ServerBox.Cron.CivilTime
import ServerBox.Cron.Schedule
import ServerBox.Cron.NextRun
import ServerBox.Cron.ScheduleGrammar
import ServerBox.Cron.ScheduleReads
import ServerBox.Sync.LogSync
import ServerBox.Backup.RestoredIds
import ServerBox.Backup.Restore
import ServerBox.Backup.RestoreNames
import ServerBox.Backup.RestoreGraph
import ServerBox.Backup.RestoreKeeps
import ServerBox.Std.Glue
import ServerBox.Std.ShellScript
import ServerBox.Std.StableSort
import ServerBox.Monitor.PushCredentials
import ServerBox.Monitor.PushRate
import ServerBox.Monitor.ProxyHeaders
import ServerBox.Monitor.ProxyHeadersKept
import ServerBox.Monitor.MonitorBackupStays
import ServerBox.Script.ReplaceFile
import ServerBox.Monitor.ScratchFolders
import ServerBox.Ssh.ConfigWords
import ServerBox.Utils.Coalesced
import ServerBox.Ssh.HostKeyPrompts
import ServerBox.Ssh.SshCredential
import ServerBox.Std.Acyclic
import ServerBox.Ssh.JumpChain
import ServerBox.Desk.Panes
import ServerBox.Desk.PanesKept
import ServerBox.Desk.PaneRects
import ServerBox.Desk.PaneWindows
import ServerBox.Std.LinkedMap
import ServerBox.Std.Firsts
import ServerBox.Workspaces.Tree
import ServerBox.Workspaces.Workspace
import ServerBox.Workspaces.WorkspaceJson
import ServerBox.Workspaces.WorkspaceKept
import ServerBox.Workspaces.WorkspaceTabs
import ServerBox.Workspaces.WorkspaceMoves
import ServerBox.Workspaces.WorkspaceStored
import ServerBox.Workspaces.WorkspaceRuns
import ServerBox.Workspaces.WorkspaceRestored
import ServerBox.Workspaces.WorkspaceRead
import ServerBox.Workspaces.WorkspaceTemplates
import ServerBox.Virt.SeedYaml
import ServerBox.Virt.CloudInit
import ServerBox.Virt.CloudInitWritten
import ServerBox.Virt.CloudInitReadBack
import ServerBox.Std.MachineInt
import ServerBox.Cron.CivilCalendar
import ServerBox.Std.Taking
import ServerBox.Ssh.SocketHead
import ServerBox.Ssh.SocketHeadReads
import ServerBox.Ssh.Socks5
import ServerBox.Terminal.Tmux.Refreshes
import ServerBox.Terminal.Tmux.RefreshesServe
import ServerBox.Terminal.Tmux.CaptureShown
import ServerBox.Terminal.Tmux.CommandQueue
import ServerBox.Virt.SnapLeftovers
import ServerBox.Cron.DocumentEdits
