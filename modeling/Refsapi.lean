import Refsapi.Lib.Binary
import Refsapi.Lib.Blocks
import Refsapi.Lib.Bytes
import Refsapi.Lib.Steps
import Refsapi.Lib.Cursor
import Refsapi.Lib.Count
import Refsapi.Lib.Decimal
import Refsapi.Lib.EditDistance
import Refsapi.Lib.Entropy
import Refsapi.Lib.Memory
import Refsapi.Lib.Nodes
import Refsapi.Lib.Orbit
import Refsapi.Lib.Rounding
import Refsapi.Lib.Sse
import Refsapi.Lib.Strtod
import Refsapi.Lib.Transition
import Refsapi.Lib.Settling
import Refsapi.Lib.Utf8
import Refsapi.Misc.Utf8
import Refsapi.Misc.Utf8Simd
import Refsapi.Misc.Edict
import Refsapi.Misc.Text
import Refsapi.Misc.Wide
import Refsapi.Misc.Converter
import Refsapi.Misc.Number
import Refsapi.Misc.Numerals
import Refsapi.Misc.AmxText
import Refsapi.Misc.Heap
import Refsapi.Misc.Clock
import Refsapi.Misc.Flags
import Refsapi.Misc.Quotes
import Refsapi.Misc.Path
import Refsapi.Mysql.Model
import Refsapi.Mysql.Step
import Refsapi.Mysql.Slice
import Refsapi.Mysql.Invariant
import Refsapi.Mysql.Attempts
import Refsapi.Mysql.Answer
import Refsapi.Mysql.Connects
import Refsapi.Mysql.Frames
import Refsapi.Mysql.Settling
import Refsapi.Mysql.Release
import Refsapi.Mysql.Tuples
import Refsapi.Mysql.Results
import Refsapi.Mysql.Fields
import Refsapi.Mysql.SafePoll
import Refsapi.Mysql.Pacing
import Refsapi.Mysql.Accounts
import Refsapi.Clients.Model
import Refsapi.Clients.Teams
import Refsapi.Clients.Dead
import Refsapi.Clients.Messages
import Refsapi.Entities.Model
import Refsapi.Entities.Coherence
import Refsapi.Entities.Query
import Refsapi.Entities.Secondary
import Refsapi.Entities.Classes
import Refsapi.Entities.Transfer
import Refsapi.Entities.Give
import Refsapi.Log.Lines
import Refsapi.Log.Model
import Refsapi.Log.Shutdown
import Refsapi.Log.Files
import Refsapi.Log.Settling
import Refsapi.Log.Order
import Refsapi.Log.Batch
import Refsapi.Log.HandOver
import Refsapi.Log.Settings
import Refsapi.Log.Flush
import Refsapi.Timers.Model
import Refsapi.Timers.Moves
import Refsapi.Timers.Deadlock
import Refsapi.Timers.Dispatch
import Refsapi.Timers.Signal
import Refsapi.Timers.Writes
import Refsapi.Timers.Queries
import Refsapi.Timers.Armed
import Refsapi.Timers.Callback
import Refsapi.Timers.Lookup
import Refsapi.Timers.Draining
import Refsapi.Timers.Change
import Refsapi.Timers.Repeat
import Refsapi.Timers.Bounds
import Refsapi.Timers.Handle
import Refsapi.Timers.Early
import Refsapi.Revoice.SteamP2P
import Refsapi.Revoice.Codecs
import Refsapi.Revoice.Player
import Refsapi.Revoice.Speech
import Refsapi.Revoice.Inherit
import Refsapi.Revoice.Queues
import Refsapi.Revoice.SilkQueue
import Refsapi.Revoice.OpusDecoder
import Refsapi.Revoice.OpusPacket
import Refsapi.Revoice.OpusEncoder
import Refsapi.Revoice.OpusRoundTrip
import Refsapi.Revoice.OpusReady
import Refsapi.Revoice.Resampling
import Refsapi.Revoice.Reports
import Refsapi.Revoice.Targets
import Refsapi.Revoice.Events
import Refsapi.Revoice.Traffic
import Refsapi.Revoice.Grammar
import Refsapi.Revoice.Fallback
import Refsapi.Revoice.Sounds
import Refsapi.Revoice.Clearing
import Refsapi.Revoice.Playing
import Refsapi.Revoice.Positions
import Refsapi.Revoice.Seeking
import Refsapi.Revoice.Sweep
import Refsapi.Revoice.Parts
import Refsapi.Revoice.Walks
import Refsapi.Revoice.Mixing
import Refsapi.Revoice.Rounds
import Refsapi.Revoice.Branches
import Refsapi.Nicks.Distance
import Refsapi.Nicks.Normalize
import Refsapi.Nicks.Substring
import Refsapi.Nicks.Repeats
import Refsapi.Nicks.Score
import Refsapi.Nicks.Artificial
import Refsapi.Nicks.LookAlike
import Refsapi.Nicks.Imitation
import Refsapi.Cvars.Config
import Refsapi.Cvars.RoundTrip
import Refsapi.Cvars.Updates
import Refsapi.Cvars.Manager
import Refsapi.Cvars.Binds
import Refsapi.Cvars.Range
import Refsapi.Cvars.Hooks
import Refsapi.Cvars.Pooling
import Refsapi.Cvars.Convert
import Refsapi.Cvars.Reading
import Refsapi.Cvars.Records
import Refsapi.Cvars.Registry
import Refsapi.Recoil.Manager
import Refsapi.Recoil.Runs
import Refsapi.Recoil.Shots
