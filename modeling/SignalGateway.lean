import SignalGateway.Lib.Regex
import SignalGateway.Lib.Words
import SignalGateway.Lib.Calls
import SignalGateway.Lib.Groups
import SignalGateway.Lib.Edits
import SignalGateway.Lib.Deletions
import SignalGateway.Py.Float
import SignalGateway.Py.Str
import SignalGateway.Py.Int
import SignalGateway.Py.Uuid
import SignalGateway.Py.Base64
import SignalGateway.Py.Url
import SignalGateway.Py.Json
import SignalGateway.Py.Number
import SignalGateway.Config
import SignalGateway.Envelope
import SignalGateway.Media
import SignalGateway.EngineClient
import SignalGateway.Submit
import SignalGateway.SignalClient
import SignalGateway.Recipients
import SignalGateway.Relay
import SignalGateway.Listener
import SignalGateway.Chunking
import SignalGateway.Dedup
import SignalGateway.Dispatch
import SignalGateway.Download
import SignalGateway.Delivery
import SignalGateway.CallbackServer
import SignalGateway.Proofs.Str
import SignalGateway.Proofs.Chunking
import SignalGateway.Proofs.ChunkBounds
import SignalGateway.Proofs.Paragraphs
import SignalGateway.Proofs.Sentences
import SignalGateway.Proofs.ChunkContent
import SignalGateway.Proofs.ChunkWords
import SignalGateway.Proofs.WordSplit
import SignalGateway.Proofs.Config
import SignalGateway.Proofs.Dedup
import SignalGateway.Proofs.CallbackServer
import SignalGateway.Proofs.CallbackKeys
import SignalGateway.Proofs.CallbackTraffic
import SignalGateway.Lib.TokenBucket
import SignalGateway.RateLimit
import SignalGateway.Proofs.RateLimit
import SignalGateway.Proofs.EstimateWait
import SignalGateway.Proofs.Fairness
import SignalGateway.AttachmentBatch
import SignalGateway.Proofs.UploadTime
import SignalGateway.Rpc
import SignalGateway.Markdown
import SignalGateway.Lib.RegexGroups
import SignalGateway.Proofs.MarkdownMarks
import SignalGateway.Proofs.Markdown
import SignalGateway.Proofs.Headings
import SignalGateway.Proofs.Fences
import SignalGateway.Proofs.Whitespace
import SignalGateway.Proofs.HeadingLines
import SignalGateway.Proofs.HeadingTrace
import SignalGateway.Proofs.HashLoss
import SignalGateway.Proofs.Utf16
import SignalGateway.Proofs.Ranges
import SignalGateway.Proofs.Offsets
import SignalGateway.Proofs.Literal
import SignalGateway.Proofs.Document
import SignalGateway.Proofs.Blocks
import SignalGateway.Proofs.Cut
import SignalGateway.Proofs.CodeStyle
import SignalGateway.Proofs.Envelope
import SignalGateway.Proofs.Mentions
import SignalGateway.Proofs.MentionUnits
import SignalGateway.Proofs.Routing
import SignalGateway.Proofs.CallbackFormat
import SignalGateway.Proofs.MentionOrigins
import SignalGateway.Proofs.MentionGate
import SignalGateway.Proofs.Relay
import SignalGateway.Proofs.AudioType
import SignalGateway.Proofs.Recipients
import SignalGateway.Proofs.Requests
import SignalGateway.Proofs.Submit
import SignalGateway.Proofs.RateLimitHints
import SignalGateway.Proofs.RateLimitErrors
import SignalGateway.Proofs.SafeName
import SignalGateway.Proofs.Downloads
import SignalGateway.Proofs.CappedDownload
import SignalGateway.Proofs.Delivery
import SignalGateway.Proofs.Reply
import SignalGateway.Proofs.MediaFaults
import SignalGateway.Proofs.MediaFiles
import SignalGateway.Proofs.Listener
import SignalGateway.Lib.Machine
import SignalGateway.Lib.Handlers
import SignalGateway.Lib.Contracts
import SignalGateway.Lib.Pool
import SignalGateway.Connection
import SignalGateway.Proofs.Connection
import SignalGateway.Proofs.StreamTraffic
import SignalGateway.Client
import SignalGateway.Proofs.Batches
import SignalGateway.Proofs.DefaultScheduler
import SignalGateway.SendAttachments
import SignalGateway.Proofs.SendAttachments
import SignalGateway.Proofs.Stalled
import SignalGateway.Outbound
import SignalGateway.Proofs.Outbound
import SignalGateway.BackgroundTasks
import SignalGateway.Proofs.BackgroundTasks
import SignalGateway.Inbound
import SignalGateway.Proofs.Inbound
import SignalGateway.Proofs.WireText
import SignalGateway.App
import SignalGateway.Proofs.App
import SignalGateway.Proofs.Lookups
import SignalGateway.Lib.Ghosts
import SignalGateway.Proofs.Base64
import SignalGateway.Proofs.PostedAudio
import SignalGateway.Proofs.Conversation
import SignalGateway.Proofs.Workspaces
import SignalGateway.Proofs.Volume
