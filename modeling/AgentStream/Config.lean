/-
# Configuration of a runner

Durations are in milliseconds, and zero means that there is none.

* `Config` : the options of a runner;
* `Config.ofBytes` : a configuration document;
* `Config.recorderOptions` : how the runner's sessions are recorded.
-/
import AgentStream.Activity
import AgentStream.Log.Recorder

namespace AgentStream

open Decoder (string bool unsigned)

/-- The options of a runner. -/
structure Config where
  /-- The first part of every session's key. -/
  appName : String := ""
  /-- How long a run may take. -/
  timeoutMs : Nat := 0
  /-- How often a followed log is looked at. -/
  flushIntervalMs : Nat := 0
  followEnabled : Bool := false
  followMaxDurationMs : Nat := 0
  /-- A run ends with its caller's scope. -/
  cancelOnContextDone : Bool := false
  lifecycleActivity : Bool := false
  interruptActivity : Bool := false
  interruptTopLevelOnly : Bool := false
  /-- Text pieces are merged before they are stored. -/
  mergeText : Bool := true
  /-- How often what is held back is stored. -/
  trackFlushIntervalMs : Nat := 0
deriving DecidableEq

namespace Config

/-- A duration, unless it is zero. -/
def positive (ms : Nat) : Option Nat := if ms = 0 then none else some ms

/-- How long a run may take. -/
def timeout (c : Config) : Option Nat := positive c.timeoutMs

/-- How often a followed log is looked at. -/
def flushInterval (c : Config) : Option Nat := positive c.flushIntervalMs

/-- How long a log is followed. -/
def followMaxDuration (c : Config) : Option Nat := positive c.followMaxDurationMs

/-- How often what is held back is stored. -/
def trackFlushInterval (c : Config) : Option Nat := positive c.trackFlushIntervalMs

/-- How the runner's sessions are recorded. -/
def recorderOptions (c : Config) : RecorderOptions :=
  { merging := c.mergeText, flushInterval := c.trackFlushInterval }

/-- Which activity is shown. -/
def switches (c : Config) : Activity.Switches :=
  ⟨c.lifecycleActivity, c.interruptActivity, c.interruptTopLevelOnly⟩

/-! ## Setting durations -/

/-- The greatest number of milliseconds that can be configured. -/
def maxMs : Nat := 18446744073709551615

/-- The whole milliseconds of a duration in microseconds. -/
def wholeMs (microseconds : Nat) : Nat := min (microseconds / 1000) maxMs

/-- The configuration with a run duration in microseconds. -/
def withTimeout (c : Config) (microseconds : Nat) : Config :=
  { c with timeoutMs := wholeMs microseconds }

/-- The configuration with a period of looking at followed logs in microseconds. -/
def withFlushInterval (c : Config) (microseconds : Nat) : Config :=
  { c with flushIntervalMs := wholeMs microseconds }

/-- The configuration with following switched, and its duration in microseconds. -/
def withFollow (c : Config) (enabled : Bool) (microseconds : Nat) : Config :=
  { c with followEnabled := enabled, followMaxDurationMs := wholeMs microseconds }

/-! ## JSON -/

/-- A configuration as it is written. -/
def toJson (c : Config) : Json :=
  .obj
    [ ("app_name", .str c.appName),
      ("timeout_ms", .int c.timeoutMs),
      ("flush_interval_ms", .int c.flushIntervalMs),
      ("messages_snapshot_follow_enabled", .bool c.followEnabled),
      ("messages_snapshot_follow_max_duration_ms", .int c.followMaxDurationMs),
      ("cancel_on_context_done_enabled", .bool c.cancelOnContextDone),
      ("graph_node_lifecycle_activity_enabled", .bool c.lifecycleActivity),
      ("graph_node_interrupt_activity_enabled", .bool c.interruptActivity),
      ("graph_node_interrupt_activity_top_level_only", .bool c.interruptTopLevelOnly),
      ("track_aggregation_enabled", .bool c.mergeText),
      ("track_flush_interval_ms", .int c.trackFlushIntervalMs) ]

/-- The fields of a configuration; each may be left out. -/
def record : Record Config :=
  mk <$> .defaulted (plain "app_name") string ""
    <*> .defaulted (plain "timeout_ms") (unsigned 64) 0
    <*> .defaulted (plain "flush_interval_ms") (unsigned 64) 0
    <*> .defaulted (plain "messages_snapshot_follow_enabled") bool false
    <*> .defaulted (plain "messages_snapshot_follow_max_duration_ms") (unsigned 64) 0
    <*> .defaulted (plain "cancel_on_context_done_enabled") bool false
    <*> .defaulted (plain "graph_node_lifecycle_activity_enabled") bool false
    <*> .defaulted (plain "graph_node_interrupt_activity_enabled") bool false
    <*> .defaulted (plain "graph_node_interrupt_activity_top_level_only") bool false
    <*> .defaulted (plain "track_aggregation_enabled") bool true
    <*> .defaulted (plain "track_flush_interval_ms") (unsigned 64) 0

/-- The configuration of a document. -/
def ofBytes (document : Bytes) : Except Fault Config := decodeText record.decode document

end Config

/-- Why there is no configuration. -/
inductive ConfigError
  /-- The file cannot be read, for a reason that the system gives. -/
  | read (path reason : String)
  | parse (fault : Fault)
deriving DecidableEq

/-- The text of a configuration error. -/
def ConfigError.message : ConfigError → String
  | read path reason => "read config " ++ path ++ ": " ++ reason
  | parse fault => "parse config: " ++ fault.message

end AgentStream
