import NetifyAgent.Lib.Bytes
import NetifyAgent.Lib.Calls
import NetifyAgent.Lib.Chains
import NetifyAgent.Lib.Dissection
import NetifyAgent.Lib.FirstMatch
import NetifyAgent.Lib.Index
import NetifyAgent.Lib.Lexer
import NetifyAgent.Lib.Lines
import NetifyAgent.Lib.Loops
import NetifyAgent.Lib.OrderedMap
import NetifyAgent.Lib.Overlay
import NetifyAgent.Lib.Pairs
import NetifyAgent.Lib.Recency
import NetifyAgent.Lib.Records
import NetifyAgent.Lib.Replay
import NetifyAgent.Lib.Rewind
import NetifyAgent.Lib.RingBuffer
import NetifyAgent.Lib.Runs
import NetifyAgent.Lib.SecureHash
import NetifyAgent.Lib.Sextets
import NetifyAgent.Lib.Streaming
import NetifyAgent.Lib.Substrings
import NetifyAgent.Lib.Suffixes
import NetifyAgent.Lib.Threads
import NetifyAgent.Lib.Trie
import NetifyAgent.Addr
import NetifyAgent.Packet
import NetifyAgent.Protos
import NetifyAgent.Metadata
import NetifyAgent.Flow
import NetifyAgent.Detection
import NetifyAgent.DetectionTrace
import NetifyAgent.DetectionStanding
import NetifyAgent.DetectionEntry
import NetifyAgent.Dns
import NetifyAgent.MdnsName
import NetifyAgent.MdnsText
import NetifyAgent.FlowQueue
import NetifyAgent.DetectionRuns
import NetifyAgent.DetectionLimit
import NetifyAgent.DetectionQueues
import NetifyAgent.MetadataRuns
import NetifyAgent.Frames
import NetifyAgent.LinkLayer
import NetifyAgent.LinkWalk
import NetifyAgent.LinkBounds
import NetifyAgent.IpLayer
import NetifyAgent.IpWalk
import NetifyAgent.Actions
import NetifyAgent.Nesting
import NetifyAgent.GtpTunnels
import NetifyAgent.Capture
import NetifyAgent.Accounting
import NetifyAgent.FlowKey
import NetifyAgent.TemplateKey
import NetifyAgent.KeyHistory
import NetifyAgent.Mirror
import NetifyAgent.MplsLabels
import NetifyAgent.KeySymmetry
import NetifyAgent.Conntrack
import NetifyAgent.ConntrackTables
import NetifyAgent.ConntrackErrors
import NetifyAgent.ConntrackDigest
import NetifyAgent.Radix
import NetifyAgent.AddrText
import NetifyAgent.RadixKeys
import NetifyAgent.RadixNetworks
import NetifyAgent.RadixTrie
import NetifyAgent.RadixInsert
import NetifyAgent.RadixErase
import NetifyAgent.RadixRewinds
import NetifyAgent.RadixIteration
import NetifyAgent.RadixTable
import NetifyAgent.RadixUndo
import NetifyAgent.Applications
import NetifyAgent.NdAddrType
import NetifyAgent.NdAddrOrder
import NetifyAgent.FlowHashCache
import NetifyAgent.FlowHashRuns
import NetifyAgent.FlowHashFile
import NetifyAgent.FlowHashFlows
import NetifyAgent.DnsHintCache
import NetifyAgent.DnsHintRuns
import NetifyAgent.DnsHintFile
import NetifyAgent.FlowMap
import NetifyAgent.FlowCount
import NetifyAgent.Announcements
import NetifyAgent.CompleteOnce
import NetifyAgent.MetadataUpdates
import NetifyAgent.ApplicationSources
import NetifyAgent.ApplicationChoice
import NetifyAgent.FlowTokens
import NetifyAgent.FlowExpr
import NetifyAgent.FlowParser
import NetifyAgent.FlowExprMirror
import NetifyAgent.FlowGrammar
import NetifyAgent.FlowExprRules
import NetifyAgent.FlowExprNegation
import NetifyAgent.FlowExprRegex
import NetifyAgent.FlowExprAddrs
import NetifyAgent.FlowExprChains
import NetifyAgent.FlowExprCompose
import NetifyAgent.Json
import NetifyAgent.Categories
import NetifyAgent.CategoryDirectory
import NetifyAgent.CategoryDomains
import NetifyAgent.CategoryNetworks
import NetifyAgent.CategoryMembers
import NetifyAgent.CategorySave
import NetifyAgent.ApplicationTables
import NetifyAgent.NumberTexts
import NetifyAgent.NetworkTexts
import NetifyAgent.AddrCache
import NetifyAgent.AddrFormats
import NetifyAgent.FailedLoads
import NetifyAgent.SignatureExport
import NetifyAgent.Base64
import NetifyAgent.SoftDissectors
import NetifyAgent.Endpoints
import NetifyAgent.FlowReports
import NetifyAgent.FlowDocument
import NetifyAgent.MirrorDocument
import NetifyAgent.Downloads
import NetifyAgent.InterfaceFiles
import NetifyAgent.Interfaces
import NetifyAgent.CaptureReload
import NetifyAgent.Reaping
import NetifyAgent.AddressSlots
import NetifyAgent.AddressRemoval
import NetifyAgent.ReloadAddresses
import NetifyAgent.InterfaceAddresses
import NetifyAgent.Netlink
import NetifyAgent.NetlinkEvents
import NetifyAgent.Shutdown
import NetifyAgent.Plugins
import NetifyAgent.PluginLoading
import NetifyAgent.NfqCapture
import NetifyAgent.PacketOwnership
import NetifyAgent.PcapCapture
import NetifyAgent.PluginRuns
import NetifyAgent.SinkQueue
import NetifyAgent.StatsMerge
import NetifyAgent.DomainLookup
import NetifyAgent.EthernetTypes
import NetifyAgent.HostNames
import NetifyAgent.VariableExpansion
import NetifyAgent.FlowPurge
import NetifyAgent.FlowBuckets
import NetifyAgent.BucketRelease
import NetifyAgent.OneFlow
import NetifyAgent.SequenceErrors
import NetifyAgent.Directions
import NetifyAgent.FlowOrigin
import NetifyAgent.PrivacyMask
import NetifyAgent.Relocation
import NetifyAgent.Encapsulations
import NetifyAgent.LinkIndependence
import NetifyAgent.TimeBase
import NetifyAgent.Descriptors
import NetifyAgent.CaptureDrops
import NetifyAgent.CapturedBytes
import NetifyAgent.VlanRestoration
import NetifyAgent.Sha1
import NetifyAgent.Sha1Digest
import NetifyAgent.Sha1Users
import NetifyAgent.RadixBits
import NetifyAgent.EntryTexts
import NetifyAgent.ApplicationIndex
import NetifyAgent.SinkDeliveries
import NetifyAgent.DownloadBatches
import NetifyAgent.IdleTimeout
import NetifyAgent.TunnelIds
import NetifyAgent.PacketRing
import NetifyAgent.PacketRingRuns
