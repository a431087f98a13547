import KrgInfra.ArchiveSafety
import KrgInfra.RestoreOne
import KrgInfra.RestoreSafety
import KrgInfra.ScratchRoundTrip
import KrgInfra.TierReads
import KrgInfra.Tiering
import KrgInfra.ComposeStack
import KrgInfra.Handoff
import KrgInfra.HandoffSafety
import KrgInfra.ComposeReload
import KrgInfra.ReloadOrder
import KrgInfra.ReloadPlan
import KrgInfra.ReloadMigrations
import KrgInfra.ReloadHistory
import KrgInfra.OutlineSync
import KrgInfra.OutlineApply
import KrgInfra.OutlineConverge
import KrgInfra.OutlineResume
import KrgInfra.OutlineRenames
import KrgInfra.ApiReconcile
import KrgInfra.DeployTofu
import KrgInfra.DeployFailFast
import KrgInfra.DeployGuard
import KrgInfra.DeployAnsible
import KrgInfra.NasRun
import KrgInfra.GarageKeys
import KrgInfra.NasSecrets
import KrgInfra.FirewallProfile
import KrgInfra.FirewallRun
import KrgInfra.FirewallLive
import KrgInfra.FirewallGuard
import KrgInfra.Python
import KrgInfra.SshDropIn
import KrgInfra.SshTransaction
import KrgInfra.PagedReads
import KrgInfra.SnapshotReads
import KrgInfra.Dict
import KrgInfra.PromText
import KrgInfra.CveScan
import KrgInfra.CveText
import KrgInfra.CveNights
import KrgInfra.AclPlay
import KrgInfra.CertKeeper
import KrgInfra.CommandOutput
import KrgInfra.VpnConfig
import KrgInfra.VpnAuth
import KrgInfra.GarageAdmin
import KrgInfra.GarageSync
import KrgInfra.GarageGrants
import KrgInfra.GarageConverge
import KrgInfra.ContainerFresh
import KrgInfra.QuotedText
import KrgInfra.TomlText
import KrgInfra.YamlText
import KrgInfra.GarageConfig
import KrgInfra.JsonPrint
import KrgInfra.JsonDumps
import KrgInfra.FullObject
import KrgInfra.AppPortal
import KrgInfra.AppPortalConverge
import KrgInfra.HostFirewall
import KrgInfra.KrgAd
import KrgInfra.KrgAdSteps
import KrgInfra.KrgAdGroups
import KrgInfra.Sweep
import KrgInfra.SyncQueue
import KrgInfra.SweepErrors
import KrgInfra.SweepFrame
import KrgInfra.SweepDryRun
import KrgInfra.SweepInUse
import KrgInfra.RestoreAccepts
import KrgInfra.ContentHash
import KrgInfra.MountChanges
import KrgInfra.ReloadPartition
import KrgInfra.StableSort
import KrgInfra.NfsRules
import KrgInfra.JsonStream
import KrgInfra.DerivationStream
import KrgInfra.Firsts
import KrgInfra.CveSummary
import KrgInfra.CveRoundTrip
import KrgInfra.SwitchRecovery
import KrgInfra.SelfUpdateWatch
import KrgInfra.VpnPrivilege
import KrgInfra.CertBindings
import KrgInfra.SshInclude
import KrgInfra.WordSearch
import KrgInfra.JsonWords
import KrgInfra.DsmSystem
import KrgInfra.Lookup
import KrgInfra.Sddl
import KrgInfra.HyperBackup
import KrgInfra.HyperBackupCalls
import KrgInfra.HyperBackupConverge
import KrgInfra.Binary64
import KrgInfra.Quotas
import KrgInfra.QuotaText
import KrgInfra.QuotaReads
import KrgInfra.DriftReadable
import KrgInfra.FleetReboot
import KrgInfra.NixosDeploy
import KrgInfra.NixosStaging
import KrgInfra.NixosRun
import KrgInfra.RestoreConfined
import KrgInfra.TenantStaging
import KrgInfra.TenantRun
import KrgInfra.TenantRunner
import KrgInfra.DeployGate
import KrgInfra.DeployPipeline
import KrgInfra.Exposition
import KrgInfra.DriftMetrics
import KrgInfra.Manifest
import KrgInfra.DriftHelpers
import KrgInfra.DriftAgreement
import KrgInfra.RestoreGranted
import KrgInfra.RestoreArchive
