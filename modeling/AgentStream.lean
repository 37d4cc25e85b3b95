import AgentStream.Activity
import AgentStream.CommandLine
import AgentStream.Config
import AgentStream.Engine.Graph
import AgentStream.Engine.Message
import AgentStream.Engine.Options
import AgentStream.Engine.Output
import AgentStream.Event.Basic
import AgentStream.Event.Codec
import AgentStream.Framing
import AgentStream.Host.Basic
import AgentStream.Host.Clock
import AgentStream.Host.Operations
import AgentStream.Host.Queue
import AgentStream.Identifier
import AgentStream.Json.Basic
import AgentStream.Json.Decode
import AgentStream.Json.Document
import AgentStream.Json.Double
import AgentStream.Json.Printer
import AgentStream.Json.Reader
import AgentStream.Log.Entry
import AgentStream.Log.Merger
import AgentStream.Log.Recorder
import AgentStream.Log.Store
import AgentStream.Main
import AgentStream.Message.Basic
import AgentStream.Message.Codec
import AgentStream.Proofs.Run.History
import AgentStream.Rehearsal.Basic
import AgentStream.Rehearsal.Hooks
import AgentStream.Rehearsal.Store
import AgentStream.Replay
import AgentStream.Request
import AgentStream.Run.Basic
import AgentStream.Run.Plan
import AgentStream.Run.Snapshot
import AgentStream.Scope
import AgentStream.Translation
import AgentStream.Turn
import AgentStream.Proofs.Run.LifeCycle
import AgentStream.Proofs.Run.Record
import AgentStream.Proofs.Framing.Moves
import AgentStream.Proofs.Framing.Frames
import AgentStream.Proofs.Json.Numerals
import AgentStream.Proofs.Json.RoundTrip
import AgentStream.Proofs.Event.Codec
import AgentStream.Proofs.Replay.Basic
import AgentStream.Proofs.Framing.Agreement
import AgentStream.Proofs.Table
import AgentStream.Proofs.Log.Merging
import AgentStream.Proofs.Log.Recording
import AgentStream.Proofs.Log.Uses
import AgentStream.Proofs.Log.Faithful
import AgentStream.Proofs.Json.Fuel
import AgentStream.Proofs.Event.Pieces
import AgentStream.Proofs.Replay.Merging
import AgentStream.Proofs.Json.Sorted
import AgentStream.Proofs.Json.Records
import AgentStream.Proofs.Message.Codec
import AgentStream.Proofs.Event.Notes
import AgentStream.Proofs.Framing.Answers
import AgentStream.Proofs.Replay.Conversation
import AgentStream.Proofs.Run.Undisturbed
import AgentStream.Proofs.Run.Logged
import AgentStream.Proofs.Run.Shown
import AgentStream.Proofs.Scope.Tree
import AgentStream.Proofs.Run.WindDown
import AgentStream.Proofs.Host.Traffic
import AgentStream.Proofs.Host.Effects
import AgentStream.Proofs.Host.SingleFlight
import AgentStream.Proofs.Replay.Grammar
import AgentStream.Proofs.Replay.Stages
import AgentStream.Proofs.Replay.WellFramed
import AgentStream.Proofs.Run.Story
import AgentStream.Proofs.Run.Following
import AgentStream.Proofs.Run.Watching
import AgentStream.Proofs.Host.Snapshots
import AgentStream.Proofs.Json.Bounds
import AgentStream.Proofs.Json.Kept
import AgentStream.Proofs.Json.Fits
import AgentStream.Proofs.Message.RoundTrip
import AgentStream.Proofs.Event.Bodies
import AgentStream.Proofs.Event.RoundTrip
import AgentStream.Proofs.Host.Turns
import AgentStream.Proofs.Host.Sites
import AgentStream.Proofs.Replay.Causes
import AgentStream.Proofs.Framing.Said
import AgentStream.Proofs.Framing.Starts
import AgentStream.Proofs.Framing.Ends
import AgentStream.Proofs.Run.Finished
import AgentStream.Proofs.Event.Produced
import AgentStream.Proofs.Replay.Standing
import AgentStream.Proofs.Run.UserTurn
import AgentStream.Proofs.Scope.Bounds
import AgentStream.Proofs.Host.NewScopes
import AgentStream.Proofs.Host.Grove
import AgentStream.Proofs.Replay.Effects
import AgentStream.Proofs.Replay.Openings
import AgentStream.Proofs.Replay.Places
import AgentStream.Proofs.Replay.Telling
import AgentStream.Proofs.Replay.Told
import AgentStream.Proofs.Replay.Growth
import AgentStream.Proofs.Replay.InPlace
import AgentStream.Proofs.Replay.Failures
import AgentStream.Proofs.Replay.Concatenation
import AgentStream.Proofs.Replay.Chunks
import AgentStream.Proofs.Framing.Calls
import AgentStream.Proofs.Framing.Parents
import AgentStream.Proofs.Framing.Dropped
import AgentStream.Proofs.Replay.NodeEvents
import AgentStream.Proofs.Json.Accepted
import AgentStream.Proofs.Message.Turns
import AgentStream.Proofs.Host.Admission
import AgentStream.Proofs.Json.Shapes
import AgentStream.Proofs.Json.Spelling
import AgentStream.Proofs.Json.Written
import AgentStream.Proofs.Activity.LifeCycle
import AgentStream.Proofs.Activity.Resuming
import AgentStream.Proofs.Request.Spelling
import AgentStream.Proofs.Request.RoundTrip
import AgentStream.Proofs.Engine.Outputs
import AgentStream.Proofs.Engine.RoundTrip
import AgentStream.Proofs.Log.Flushing
import AgentStream.Proofs.Host.Flushers
import AgentStream.Proofs.Replay.Reducer
import AgentStream.Proofs.Replay.Indices
