import Kerbridge.UnicodeText
import Kerbridge.Runs
import Kerbridge.KeyedFold
import Kerbridge.SamName
import Kerbridge.StoredIdentity
import Kerbridge.DirectorySource
import Kerbridge.EntraShadow
import Kerbridge.GraphClient
import Kerbridge.EntraSync
import Kerbridge.EntraSnapshot
import Kerbridge.EntraDelta
import Kerbridge.LdapFilter
import Kerbridge.DistinguishedName
import Kerbridge.DeviceGrant
import Kerbridge.RealmDirectory
import Kerbridge.RealmState
import Kerbridge.RealmWrites
import Kerbridge.BrokerDirectory
import Kerbridge.AccountLookup
import Kerbridge.DelegateLinks
import Kerbridge.DeviceRequestRule
import Kerbridge.DeviceAssertion
import Kerbridge.Issuerd
import Kerbridge.BrokerDevices
import Kerbridge.DeviceRevocation
import Kerbridge.JsonWebToken
import Kerbridge.EntraToken
import Kerbridge.AuthentikToken
import Kerbridge.TokenAcceptance
import Kerbridge.IdentitySpelling
import Kerbridge.DeviceNonces
import Kerbridge.GrantReading
import Kerbridge.GrantVerbs
import Kerbridge.GrantRaces
import Kerbridge.TicketExchange
import Kerbridge.DesiredClosure
import Kerbridge.AuthentikDirectory
import Kerbridge.AuthentikWhole
import Kerbridge.Planner
import Kerbridge.SyncDirectory
import Kerbridge.PlannerTurns
import Kerbridge.NameShapes
import Kerbridge.SafeNames
import Kerbridge.NameReading
import Kerbridge.PlanGrowth
import Kerbridge.PlanContainment
import Kerbridge.GivenNames
import Kerbridge.UntouchedObjects
import Kerbridge.GrantSize
import Kerbridge.ConfigSet
import Kerbridge.OuOwnership
import Kerbridge.KeyRefresh
import Kerbridge.ByteReader
import Kerbridge.SrvAnswer
import Kerbridge.CacheReaders
import Kerbridge.CredentialCache
import Kerbridge.CivilTime
import Kerbridge.Der
import Kerbridge.KrbCred
import Kerbridge.FileSteps
import Kerbridge.UnixPath
import Kerbridge.SettingsFile
import Kerbridge.TemplateLines
import Kerbridge.ConfigInit
import Kerbridge.LinuxTickets
import Kerbridge.TicketInjection
import Kerbridge.Base64
import Kerbridge.Ldif
import Kerbridge.LdifReading
import Kerbridge.AgentSettings
import Kerbridge.AgentState
import Kerbridge.AgentTurns
import Kerbridge.AgentThreads
import Kerbridge.TicketSchedule
import Kerbridge.AgentPieces
import Kerbridge.TurnPieces
import Kerbridge.BusySlot
import Kerbridge.SignOff
import Kerbridge.DoctorSnapshot
import Kerbridge.DoctorReport
import Kerbridge.DoctorAgreement
import Kerbridge.NameLaws
import Kerbridge.PlanAlike
import Kerbridge.PlanPasses
import Kerbridge.ReceiptOrder
import Kerbridge.Problems
import Kerbridge.ProblemLedger
import Kerbridge.Notifier
import Kerbridge.CredentialCountdown
import Kerbridge.DayArithmetic
import Kerbridge.CredentialExpiry
import Kerbridge.Timestamps
import Kerbridge.ObjectIds
import Kerbridge.CertificateReader
import Kerbridge.CertificateReport
import Kerbridge.Pieces
import Kerbridge.NameSwitch
import Kerbridge.SwitchTokens
import Kerbridge.WinbindRemoval
import Kerbridge.GroupSpelling
import Kerbridge.IssuedTicket
import Kerbridge.MembershipRead
import Kerbridge.IdentityDeny
import Kerbridge.DenyInForce
import Kerbridge.ConfigMigrations
import Kerbridge.MigrationSafety
import Kerbridge.MigrationSoundness
import Kerbridge.LoginNames
import Kerbridge.NameCandidates
import Kerbridge.CaseRule
import Kerbridge.InitConsistency
import Kerbridge.JsonText
import Kerbridge.NotifyTemplate
import Kerbridge.TemplateBody
import Kerbridge.AgentPace
import Kerbridge.ExchangePacing
import Kerbridge.ApplyFrame
import Kerbridge.ApplySteps
import Kerbridge.KeptGrants
import Kerbridge.SoleCarrier
