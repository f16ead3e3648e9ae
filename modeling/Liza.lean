import Liza.Lib.PyStr
import Liza.Lib.Json
import Liza.Lib.PyOps
import Liza.Lib.Lines
import Liza.Lib.JsonText
import Liza.Lib.Assoc
import Liza.Lib.Run
import Liza.Lib.Task
import Liza.Lib.Points
import Liza.Lib.Keystream
import Liza.Lib.BigEndian
import Liza.Lib.Spans
import Liza.Lib.Since
import Liza.Lib.Settle
import Liza.Synapse.Rooms
import Liza.Synapse.Api
import Liza.Synapse.Server
import Liza.Synapse.Specs
import Liza.Synapse.EventAuth
import Liza.ChannelSync.Logic
import Liza.ChannelSync.Module
import Liza.ChannelSync.Deputy
import Liza.ChannelSync.Linked
import Liza.ChannelSync.Privacy
import Liza.ChannelSync.Access
import Liza.ChannelSync.Points
import Liza.ChannelSync.Mirrors
import Liza.ChannelSync.Phases
import Liza.ChannelSync.Edits
import Liza.ChannelSync.Cleanup
import Liza.ChannelStories.Module
import Liza.ChannelStories.Mapping
import Liza.SyncGate.Storage
import Liza.SyncGate.Module
import Liza.SyncGate.Isolation
import Liza.SyncGate.Sync
import Liza.SyncGate.Leak
import Liza.SyncGate.Lookup
import Liza.SyncGate.CatchUp
import Liza.Push.HttpPusher
import Liza.Push.Clearing
import Liza.Sygnal.Notifications
import Liza.Sygnal.CleanBody
import Liza.Sygnal.Gcm
import Liza.Sygnal.Sharing
import Liza.Sygnal.Apns
import Liza.Sygnal.Truncate
import Liza.Sygnal.Cutting
import Liza.Sygnal.Building
import Liza.UserRoles.Module
import Liza.UserRoles.Specs
import Liza.UserRoles.Integrity
import Liza.UserRoles.Catalog
import Liza.AccessAdmin.Accounts
import Liza.AccessAdmin.Retries
import Liza.PowerLevels.Readers
import Liza.SpaceGuard.Module
import Liza.SpaceGuard.MainSpace
import Liza.SpaceGuard.RootSpaces
import Liza.SpaceGuard.DirectMarks
import Liza.StoriesMembership.Hidden
import Liza.StoriesMembership.Module
import Liza.StoriesMembership.Audience
import Liza.Client.Handles
import Liza.Client.Resolve
import Liza.MiniApp.Crypto
import Liza.MiniApp.InitData
import Liza.Client.MediaProxy
import Liza.Client.Decryption
import Liza.Client.Resuming
import Liza.Client.Formatting
import Liza.Client.FormattingEdits
import Liza.Client.Faststart
import Liza.Client.FaststartTables
import Liza.Client.FaststartLayout
import Liza.Client.FaststartResult
import Liza.Client.FaststartPointers
import Liza.Client.FaststartWellFormed
import Liza.Client.NewsAudience
import Liza.Sygnal.Expo
import Liza.Client.AlbumAccounting
import Liza.Client.EditPrefill
import Liza.Client.HandleCache
import Liza.Client.NewsPoll
import Liza.Client.NewsPollStore
import Liza.Client.NewsPollVotes
import Liza.Client.StoriesSeen
import Liza.Sygnal.ApnsRequest
import Liza.Sygnal.Badge
import Liza.MiniApp.Nonces
import Liza.MiniApp.Registry
import Liza.UserRoles.Updates
import Liza.UserRoles.CacheOrder
import Liza.UserRoles.Federation
import Liza.UserRoles.FederationServlet
import Liza.MediaLifecycle.Quarantine
import Liza.ChannelStories.Audience
import Liza.StoriesMembership.OneRoom
import Liza.ChannelSync.Agreement
import Liza.ChannelSync.Migration
import Liza.BlockGuard.Creation
import Liza.BlockGuard.DirectChats
import Liza.Client.FormattingToggle
import Liza.AccessAdmin.SpaceMembers
import Liza.Client.MediaRanges
import Liza.Client.PhoneInput
import Liza.Lib.Prog
import Liza.Push.GraceDelay
import Liza.Client.AlbumBreaker
import Liza.Client.ResendOnce
import Liza.Client.PhoneNumber
import Liza.Client.ReadMarker
import Liza.Client.UploadProgress
import Liza.Lib.Percent
import Liza.Client.ChannelPeek
import Liza.Client.ChannelThread
import Liza.Client.InviteLinks
import Liza.Client.StartPath
import Liza.Client.StoryModel
import Liza.Client.TypedMentions
import Liza.MiniApp.Transport
import Liza.MiniApp.RateLimits
import Liza.MiniApp.InternalAccess
import Liza.UserRoles.Validation
import Liza.Client.CounterIv
import Liza.Lib.Tries
import Liza.Lib.Past
import Liza.Sygnal.GcmTries
import Liza.Sygnal.GcmLegacy
import Liza.Sygnal.ApnsTries
import Liza.MiniApp.Service
import Liza.SpaceGuard.Backfill
import Liza.Client.VideoPrefetch
import Liza.Lib.Earliest
import Liza.Push.Delivery
import Liza.Synapse.RoomAuth
import Liza.Push.Payload
import Liza.StoriesMembership.Cleanup
import Liza.Lib.Simulates
import Liza.Push.Batch
import Liza.UserSearch.Network
import Liza.PowerLevels.Knock
